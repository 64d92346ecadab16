import FileProcessing.Web.JobWebSocket

/-!
# The live view of a job

The platform, the WebSocket side of the API, one page with the hook, and what is between them: the messages published and not yet
handled by the API's Redis subscriber, and each socket of the hook with what the API has handled of it and the page has read. Other
clients of the API have sockets of their own and are left out.
-/

namespace FileProcessing

/-! ## On the wire -/

/-- `pending`, `active`, `completed`, `failed`. -/
def JobStatus.text : JobStatus → String
  | .pending => "pending"
  | .active => "active"
  | .completed => "completed"
  | .failed => "failed"

/-- The event type of a channel. -/
def JobEvent.type : JobEvent → String
  | .progress _ _ => "progress"
  | .completed _ => "completed"
  | .failed _ => "failed"

/-- What the worker passes to `JSON.stringify`. -/
def JobEvent.payload : JobEvent → Json
  | .progress n status => .object [("progress", .number (.finite n)), ("status", .string status.text)]
  | .completed fileId => .object [("outputFileId", .string fileId.text)]
  | .failed message => .object [("error", .string message)]

/-- The channel a message is published on. -/
def Message.channel (m : Message) : String := "job:" ++ m.event.type ++ ":" ++ m.jobId.text

/-- What the client passes to `JSON.stringify`. -/
def ClientMessage.json : ClientMessage → Json
  | .subscribe jobId => .object [("type", .string "subscribe"), ("jobId", .string jobId)]
  | .unsubscribe jobId => .object [("type", .string "unsubscribe"), ("jobId", .string jobId)]

/-- A property that is a status. -/
def jobStatusOf (v : JsValue) : Option JobStatus :=
  match v.asString with
  | some "pending" => some .pending
  | some "active" => some .active
  | some "completed" => some .completed
  | some "failed" => some .failed
  | _ => none

/-- The fields the handler of the page reads of an event. -/
def ServerEvent.ofJson (event : Json) : ServerEvent where
  type := (event.get "type").asString.getD ""
  jobId := (event.get "jobId").asString
  progress := (event.get "progress").asNumber
  status := jobStatusOf (event.get "status")
  error := (event.get "error").asString
  outputFileId := (event.get "outputFileId").asString

/-! ## The parties -/

/-- The way between a socket of the hook and the API: the socket the API has accepted for it, how many of the messages sent on it
the API has handled, and how many of the events sent back the page has read. -/
structure Link where
  server : Option Nat
  up : Nat
  down : Nat

/-- A socket the API has not accepted. -/
def Link.none : Link := ⟨.none, 0, 0⟩

/-- The platform, the API, the page, and what is between them; `handled` messages of those published have been handled by the Redis
subscriber. -/
structure Live where
  platform : System
  api : Api
  handled : Nat
  hook : Hook
  links : Nat → Link

/-- A step of one of the parties, or of what is between them: the API handles the next message from Redis (`redis`), accepts a
socket, handles the next message on it (`up`), or begins to close or closes its end; the page opens, reads the next event (`down`)
or loses a socket, renders, runs its effect, or mounts the component anew. -/
inductive LiveAction where
  | platform (a : Action)
  | redis
  | accept (k : Nat) (subject : Option String)
  | up (k : Nat)
  | hangUp (k : Nat)
  | disconnected (k : Nat)
  | mount (jobId token : Option String) (initial : InitialState)
  | render (jobId token : Option String) (initial : InitialState)
  | effect
  | opened (k : Nat)
  | down (k : Nat)
  | errored (k : Nat)
  | closed (k : Nat)

namespace Live

/-- Change the link of a socket. -/
def setLink (s : Live) (k : Nat) (link : Link) : Live := { s with links := fun l => if l = k then link else s.links l }

/-- The step of the system; a socket that is not open hands no event to the page. -/
def step (cfg : Config) (s : Live) : LiveAction → Option Live
  | .platform a => (s.platform.step cfg a).map (fun platform => { s with platform := platform })
  | .redis =>
    match s.platform.world.published[s.handled]? with
    | none => none
    -- the payloads of the worker hold no array and no object
    | some m => (s.api.step (.pmessage 1 m.channel (some m.event.payload))).map
        (fun api => { s with api := api, handled := s.handled + 1 })
  | .accept k subject =>
    match s.hook.sockets[k]?, (s.links k).server with
    | some socket, none =>
      if socket.readyState = .connecting then
        (s.api.step (.connect (some socket.token) subject)).map (fun api =>
          match handshake (some socket.token) subject with
          | some _ => { s with api := api }.setLink k ⟨some s.api.sockets.length, 0, 0⟩
          | none => { s with api := api })
      else none
    | _, _ => none
  | .up k =>
    match s.hook.sockets[k]?.bind (fun socket => socket.sent[(s.links k).up]?), (s.links k).server with
    | some msg, some l => (s.api.step (.message l (some msg.json))).map (fun api =>
        { s with api := api }.setLink k { s.links k with up := (s.links k).up + 1 })
    | _, _ => none
  | .hangUp k => (s.links k).server.bind (fun l => (s.api.step (.closing l)).map (fun api => { s with api := api }))
  | .disconnected k => (s.links k).server.bind (fun l => (s.api.step (.close l)).map (fun api => { s with api := api }))
  | .mount jobId token initial => some { s with hook := .mount jobId token initial, links := fun _ => Link.none }
  | .render jobId token initial => (s.hook.step (.render jobId token initial)).map (fun hook => { s with hook := hook })
  | .effect => (s.hook.step .effect).map (fun hook => { s with hook := hook })
  | .opened k =>
    if (s.links k).server.isSome then (s.hook.step (.opened k)).map (fun hook => { s with hook := hook }) else none
  | .down k =>
    match (s.links k).server.bind (fun l => s.api.sockets[l]?.bind (fun c => c.sent[(s.links k).down]?)) with
    | none => none
    | some d =>
      if s.hook.readyState k = some .opened then
        (s.hook.step (.message k (some (ServerEvent.ofJson d.event)))).map (fun hook =>
          { s with hook := hook }.setLink k { s.links k with down := (s.links k).down + 1 })
      else none
  | .errored k => (s.hook.step (.errored k)).map (fun hook => { s with hook := hook })
  | .closed k => (s.hook.step (.closed k)).map (fun hook => { s with hook := hook })

end Live

/-- The system of the parties; its runs begin with nothing uploaded and any page. -/
def liveView (cfg : Config) : Lts Live LiveAction where
  init s := ∃ jobId token initial, s = ⟨System.empty, Api.start, 0, .mount jobId token initial, fun _ => Link.none⟩
  step := Live.step cfg

end FileProcessing
