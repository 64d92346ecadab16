import FileProcessing.Lib.Json

/-!
# `WsManager`

The sockets of each user, and the job ids each socket has subscribed to. A socket is known by its place among the sockets the
process has accepted. A subscription is whatever `msg.jobId` was: the source does not look at its type.
-/

namespace FileProcessing

/-- The job ids of a socket. -/
abbrev JobIds := OrderedSet sameValueZero

/-- The sockets of a user. -/
abbrev Sockets := OrderedSet (fun k l : Nat => decide (k = l))

structure WsManager where
  byUser : OrderedMap String Sockets
  subscriptions : OrderedMap Nat JobIds

namespace WsManager

/-- `new WsManager()`. -/
def new : WsManager := ⟨Table.empty, Table.empty⟩

/-- `add(userId, socket)`. -/
def add (m : WsManager) (userId : String) (socket : Nat) : WsManager where
  byUser := OrderedMap.set m.byUser userId (((OrderedMap.get? m.byUser userId).getD OrderedSet.empty).add socket)
  subscriptions := OrderedMap.set m.subscriptions socket OrderedSet.empty

/-- `remove(socket)`: the first user whose set has the socket loses it, and its set when that was the last one. -/
def remove (m : WsManager) (socket : Nat) : WsManager where
  byUser :=
    match m.byUser.rows.find? (fun entry => entry.2.has socket) with
    | none => m.byUser
    | some (userId, sockets) =>
      if (sockets.erase socket).elems.isEmpty then OrderedMap.erase m.byUser userId
      else OrderedMap.set m.byUser userId (sockets.erase socket)
  subscriptions := OrderedMap.erase m.subscriptions socket

/-- `subscribe(socket, jobId)`. -/
def subscribe (m : WsManager) (socket : Nat) (jobId : JsValue) : WsManager :=
  match OrderedMap.get? m.subscriptions socket with
  | none => m
  | some jobIds => { m with subscriptions := OrderedMap.set m.subscriptions socket (jobIds.add jobId) }

/-- `unsubscribe(socket, jobId)`. -/
def unsubscribe (m : WsManager) (socket : Nat) (jobId : JsValue) : WsManager :=
  match OrderedMap.get? m.subscriptions socket with
  | none => m
  | some jobIds => { m with subscriptions := OrderedMap.set m.subscriptions socket (jobIds.erase jobId) }

/-- The sockets `broadcast(jobId, event)` sends the event to, in order; `isOpen` is `readyState === OPEN`. -/
def broadcast (m : WsManager) (isOpen : Nat → Bool) (jobId : String) : List Nat :=
  (m.subscriptions.rows.filter (fun entry => entry.2.has (.string jobId) && isOpen entry.1)).map Prod.fst

/-- The socket has subscribed to the job. -/
def subscribed (m : WsManager) (socket : Nat) (jobId : String) : Bool :=
  (OrderedMap.get? m.subscriptions socket).any (fun jobIds => jobIds.has (.string jobId))

end WsManager

/-- A call of a method of `WsManager`. -/
inductive WsOp where
  | add (userId : String) (socket : Nat)
  | remove (socket : Nat)
  | subscribe (socket : Nat) (jobId : JsValue)
  | unsubscribe (socket : Nat) (jobId : JsValue)
  | broadcast (jobId : String)

namespace WsManager

/-- What a call makes of the manager. -/
def apply (m : WsManager) : WsOp → WsManager
  | .add userId socket => m.add userId socket
  | .remove socket => m.remove socket
  | .subscribe socket jobId => m.subscribe socket jobId
  | .unsubscribe socket jobId => m.unsubscribe socket jobId
  | .broadcast _ => m

/-- What a sequence of calls makes of a new manager. -/
def run (ops : List WsOp) : WsManager := ops.foldl apply new

end WsManager

end FileProcessing
