import FileProcessing.Lib.Lts
import FileProcessing.Ws.Gateway

/-!
# `useJobWebSocket`

The hook as the state React and the browser keep for it: the props of the last render, the state of its `useState`, the
dependencies its effect last ran with, and every socket its effects have opened. A socket keeps the handlers of the render that
opened it. Setting the state and rendering are one step; the effect runs in a step of its own, some time after.
-/

namespace FileProcessing

/-- What the hook returns. -/
structure JobWsState where
  progress : JsNumber
  status : JobStatus
  error : Option String
  outputFileId : Option String
  deriving DecidableEq, Repr

/-- The `initial` argument of the hook. -/
structure InitialState where
  progress : JsNumber
  status : JobStatus
  deriving Repr

/-- The argument of `useState`. -/
def JobWsState.init (initial : InitialState) : JobWsState := ⟨initial.progress, initial.status, none, none⟩

/-- The fields of a message the handler reads; a field that is missing or null is `none`. -/
structure ServerEvent where
  type : String
  jobId : Option String
  progress : Option JsNumber
  status : Option JobStatus
  error : Option String
  outputFileId : Option String
  deriving Repr

/-- What a handler is called with: a message of its job, or the failure of the connection. -/
inductive HookEvent where
  | message (msg : ServerEvent)
  | error
  deriving Repr

/-- The state a handler sets. -/
def JobWsState.handle (state : JobWsState) : HookEvent → JobWsState
  | .message msg =>
    if msg.type = "job:progress" then ⟨msg.progress.getD (.finite 0), msg.status.getD .active, none, none⟩
    else if msg.type = "job:completed" then ⟨.finite 100, .completed, none, msg.outputFileId⟩
    else if msg.type = "job:failed" then { state with status := .failed, error := some (msg.error.getD "Processing failed") }
    else state
  | .error => { state with error := some "WebSocket connection error. Progress updates may be delayed." }

/-- A message to the API. -/
inductive ClientMessage where
  | subscribe (jobId : String)
  | unsubscribe (jobId : String)
  deriving Repr

/-- A socket an effect has opened, with the job id its handlers close over and what was sent on it. -/
structure ClientSocket where
  jobId : String
  token : String
  readyState : ReadyState
  sent : List ClientMessage
  deriving Repr

/-- The dependencies of the effect. -/
structure EffectDeps where
  jobId : Option String
  token : Option String
  status : JobStatus
  deriving DecidableEq, Repr

/-- The hook in a mounted component: `ws` is the socket of the effect that ran last, by its place among `sockets`. -/
structure Hook where
  jobId : Option String
  token : Option String
  state : JobWsState
  deps : Option EffectDeps
  ws : Option Nat
  sockets : List ClientSocket
  deriving Repr

namespace Hook

/-- The first render. -/
def mount (jobId token : Option String) (initial : InitialState) : Hook := ⟨jobId, token, .init initial, none, none, []⟩

/-- The dependencies at the last render. -/
def currentDeps (h : Hook) : EffectDeps := ⟨h.jobId, h.token, h.state.status⟩

/-- What the effect does with its socket when it is cleaned up. -/
def cleanupSocket (socket : ClientSocket) : ClientSocket :=
  match socket.readyState with
  | .opened => { socket with sent := socket.sent ++ [.unsubscribe socket.jobId], readyState := .closing }
  | .connecting => { socket with readyState := .closing }
  | .closing | .closed => socket

/-- The cleanup of the effect that ran last. -/
def cleanup (h : Hook) : Hook :=
  match h.ws with
  | none => h
  | some k => { h with ws := none, sockets := h.sockets.modify k cleanupSocket }

/-- A string that is neither null nor empty. -/
def truthy : Option String → Option String
  | some s => if s = "" then none else some s
  | none => none

/-- The job id and the token the effect opens a socket with, unless it returns early. -/
def target (h : Hook) : Option (String × String) :=
  if h.state.status = .completed ∨ h.state.status = .failed then none
  else (truthy h.jobId).bind (fun jobId => (truthy h.token).map (fun token => (jobId, token)))

/-- The body of the effect. -/
def connect (h : Hook) : Hook :=
  match h.target with
  | none => h
  | some (jobId, token) =>
    { h with ws := some h.sockets.length, sockets := h.sockets ++ [⟨jobId, token, .connecting, []⟩] }

/-- The effect: it runs when a dependency has changed, after the cleanup of the one before. -/
def effect (h : Hook) : Option Hook :=
  if h.deps = some h.currentDeps then none else some { h.cleanup.connect with deps := some h.currentDeps }

end Hook

/-- What happens to the hook: a render with new props, a run of its effect, and the events of its sockets. A message is given by
what `JSON.parse` makes of it. -/
inductive HookAction where
  | render (jobId token : Option String) (initial : InitialState)
  | effect
  | opened (socket : Nat)
  | message (socket : Nat) (raw : Option ServerEvent)
  | errored (socket : Nat)
  | closed (socket : Nat)
  deriving Repr

namespace Hook

/-- The event with which a handler sets the state, and the job id the handler closes over: `onmessage` ignores a message that is
not JSON or names another job. -/
def heard (h : Hook) : HookAction → Option (String × HookEvent)
  | .message k (some msg) =>
    match h.sockets[k]? with
    | some socket => if msg.jobId = some socket.jobId then some (socket.jobId, .message msg) else none
    | none => none
  | .errored k => h.sockets[k]?.map (fun socket => (socket.jobId, .error))
  | _ => none

/-- The state after the handler of an event. -/
def stateAfter (h : Hook) (a : HookAction) : JobWsState :=
  match h.heard a with
  | some (_, e) => h.state.handle e
  | none => h.state

/-- The handler of an event. -/
def hear (h : Hook) (a : HookAction) : Hook := { h with state := h.stateAfter a }

/-- A socket with another `readyState`. -/
def setReadyState (h : Hook) (k : Nat) (state : ReadyState) : Hook :=
  { h with sockets := h.sockets.modify k (fun socket => { socket with readyState := state }) }

/-- The `readyState` of a socket. -/
def readyState (h : Hook) (k : Nat) : Option ReadyState := h.sockets[k]?.map ClientSocket.readyState

/-- `onopen`. -/
def subscribe (socket : ClientSocket) : ClientSocket :=
  { socket with readyState := .opened, sent := socket.sent ++ [.subscribe socket.jobId] }

/-- The step of the hook; `useState` ignores its argument after the first render. -/
def step (h : Hook) : HookAction → Option Hook
  | .render jobId token _ => some { h with jobId := jobId, token := token }
  | .effect => h.effect
  | .opened k =>
    if h.readyState k = some .connecting then some { h with sockets := h.sockets.modify k subscribe } else none
  | .message k raw =>
    if h.readyState k = some .opened ∨ h.readyState k = some .closing then some (h.hear (.message k raw)) else none
  | .errored k =>
    match h.readyState k with
    | none | some .closed => none
    | some _ => some ((h.hear (.errored k)).setReadyState k .closed)
  | .closed k =>
    match h.readyState k with
    | none | some .closed => none
    | some _ => some (h.setReadyState k .closed)

end Hook

/-- The hook with its history: the `initial` given by the render in which its job id became current, and the events its handlers
have heard since then on sockets of that job. -/
structure TrackedHook where
  hook : Hook
  initial : InitialState
  events : List HookEvent

namespace TrackedHook

/-- The first render. -/
def mount (jobId token : Option String) (initial : InitialState) : TrackedHook := ⟨.mount jobId token initial, initial, []⟩

/-- The events heard for the current job, after one more action. -/
def eventsAfter (s : TrackedHook) (a : HookAction) : List HookEvent :=
  match s.hook.heard a with
  | some (jobId, e) => if some jobId = s.hook.jobId then s.events ++ [e] else s.events
  | none => s.events

/-- The step of the hook, with its history. -/
def step (s : TrackedHook) (a : HookAction) : Option TrackedHook :=
  (s.hook.step a).map (fun hook =>
    match a with
    | .render jobId _ initial => if jobId = s.hook.jobId then ⟨hook, s.initial, s.events⟩ else ⟨hook, initial, []⟩
    | _ => ⟨hook, s.initial, s.eventsAfter a⟩)

end TrackedHook

/-- The hook as a transition system: its runs begin with any first render. -/
def jobWebSocket : Lts TrackedHook HookAction where
  init s := ∃ jobId token initial, s = .mount jobId token initial
  step := TrackedHook.step

end FileProcessing
