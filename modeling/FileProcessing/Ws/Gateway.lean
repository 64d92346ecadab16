import FileProcessing.System
import FileProcessing.Ws.Manager

/-!
# The WebSocket side of the API

The handshake and the message handler of `wsRoutes`, the `pmessage` handler of the Redis subscriber, and the process they run in.
Text that arrives is given by what `JSON.parse` makes of it, `none` when it throws.
-/

namespace FileProcessing

/-! ## The handlers -/

/-- The handshake: the user a socket is added under, `none` when it is closed with 4001. `subject` is what `jwt.verify` finds in
the token, `none` when it throws. -/
def handshake (token subject : Option String) : Option String :=
  match token with
  | none => none
  | some token => if token = "" then none else subject

/-- The `message` handler of a socket; it throws when it reads `msg.type` of `null`. -/
def onMessage (m : WsManager) (socket : Nat) : Option Json → Except Err WsManager
  | none => .ok m
  | some .null => .error (.error "Cannot read properties of null (reading 'type')")
  | some msg =>
    if sameValueZero (msg.get "type") (.string "subscribe") then .ok (m.subscribe socket (msg.get "jobId"))
    else if sameValueZero (msg.get "type") (.string "unsubscribe") then .ok (m.unsubscribe socket (msg.get "jobId"))
    else .ok m

/-- The parts of a channel `job:<eventType>:<jobId>`; the id is all that follows the second colon. -/
def channelParts (channel : String) : Option (String × String) :=
  match channel.toList.splitOn ':' with
  | _ :: eventType :: part :: rest => some (String.ofList eventType, String.ofList ([':'].intercalate (part :: rest)))
  | _ => none

/-- The job id and the event the `pmessage` handler passes to `broadcast`, if it comes so far. -/
def pmessageEvent (channel : String) (message : Option Json) : Option (String × Json) :=
  match channelParts channel, message with
  | some (eventType, jobId), some (.array items) =>
    some (jobId, Json.spread [("type", .string ("job:" ++ eventType)), ("jobId", .string jobId)] (.array items))
  | some (eventType, jobId), some (.object fields) =>
    some (jobId, Json.spread [("type", .string ("job:" ++ eventType)), ("jobId", .string jobId)] (.object fields))
  | _, _ => none

/-- The `pmessage` handler: the job id and the event it broadcasts, if it does. `broadcast` first passes the event to `JSON.stringify`,
outside the `try`, and that throws where the event is nested deeper than the call stack allows, `stack` levels. -/
def onPmessage (stack : Nat) (channel : String) (message : Option Json) : Except Err (Option (String × Json)) :=
  match pmessageEvent channel message with
  | none => .ok none
  | some (jobId, event) =>
    if event.nestedWithin stack then .ok (some (jobId, event)) else .error (.error "Maximum call stack size exceeded")

/-! ## The process -/

/-- `readyState` of a socket. -/
inductive ReadyState where
  | connecting
  | opened
  | closing
  | closed
  deriving DecidableEq, Repr

/-- An event that was sent, with the job id it was broadcast for. -/
structure Delivery where
  jobId : String
  event : Json

/-- A socket the handshake has accepted: the user it was authenticated as and added under, and what was sent on it. -/
structure Connection where
  userId : String
  readyState : ReadyState
  sent : List Delivery

/-- The sockets of the process and its `WsManager`. A handler that throws ends the process. -/
structure Api where
  manager : WsManager
  sockets : List Connection
  crashed : Bool

/-- The process before the first connection. -/
def Api.start : Api := ⟨WsManager.new, [], false⟩

/-- What happens to the process: a client connects, a message arrives, a socket begins to close, its `close` event fires, a Redis
message arrives with so much of the call stack left. -/
inductive ApiAction where
  | connect (token subject : Option String)
  | message (socket : Nat) (raw : Option Json)
  | closing (socket : Nat)
  | close (socket : Nat)
  | pmessage (stack : Nat) (channel : String) (message : Option Json)

/-- `socket.readyState === socket.OPEN`. -/
def Api.isOpen (api : Api) (socket : Nat) : Bool := api.sockets[socket]?.any (fun c => c.readyState = .opened)

/-- `socket.send`. -/
def send (d : Delivery) (sockets : List Connection) (socket : Nat) : List Connection :=
  sockets.modify socket (fun c => { c with sent := c.sent ++ [d] })

/-- `manager.broadcast(jobId, event)`. -/
def Api.broadcast (api : Api) (jobId : String) (event : Json) : Api :=
  { api with sockets := (api.manager.broadcast api.isOpen jobId).foldl (send ⟨jobId, event⟩) api.sockets }

/-- A change of `readyState`. -/
def Api.setReadyState (api : Api) (socket : Nat) (state : ReadyState) : Api :=
  { api with sockets := api.sockets.modify socket (fun c => { c with readyState := state }) }

/-- The step of the process; `none` once it has crashed, and for a socket it has not accepted. -/
def Api.step (api : Api) (a : ApiAction) : Option Api :=
  if api.crashed then none
  else match a with
    | .connect token subject =>
      match handshake token subject with
      | none => some api
      | some userId => some
        { api with manager := api.manager.add userId api.sockets.length, sockets := api.sockets ++ [⟨userId, .opened, []⟩] }
    | .message socket raw =>
      if socket < api.sockets.length then
        match onMessage api.manager socket raw with
        | .ok manager => some { api with manager := manager }
        | .error _ => some { api with crashed := true }
      else none
    | .closing socket => if api.isOpen socket then some (api.setReadyState socket .closing) else none
    | .close socket =>
      if socket < api.sockets.length then
        some { api.setReadyState socket .closed with manager := api.manager.remove socket }
      else none
    | .pmessage stack channel message =>
      match onPmessage stack channel message with
      | .ok none => some api
      | .ok (some (jobId, event)) => some (api.broadcast jobId event)
      | .error _ => some { api with crashed := true }

/-! ## Beside the platform -/

/-- The platform, with the WebSocket side of the API. -/
structure Gateway where
  platform : System
  api : Api

/-- A step of the one or the other. -/
inductive GatewayAction where
  | platform (a : Action)
  | api (a : ApiAction)

/-- The step of the two. -/
def Gateway.step (cfg : Config) (s : Gateway) : GatewayAction → Option Gateway
  | .platform a => (s.platform.step cfg a).map (fun platform => { s with platform := platform })
  | .api a => (s.api.step a).map (fun api => { s with api := api })

/-- The platform and the gateway, with any Redis messages. -/
def gateway (cfg : Config) : Lts Gateway GatewayAction where
  init s := s = ⟨System.empty, Api.start⟩
  step := Gateway.step cfg

end FileProcessing
