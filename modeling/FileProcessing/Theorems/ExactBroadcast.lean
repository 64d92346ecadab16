import FileProcessing.Lemmas.Subscriptions
import Mathlib.Data.List.Induction

/-!
# To whom a broadcast goes

Whatever was called on the manager, a broadcast for a job sends the event once to each open socket that is there and whose last
word on the job was a subscription, and nothing to any other. What a socket has said before it was added does not count.
-/

namespace FileProcessing

namespace WsOp

variable (k : Nat) (j : String)

/-- The call adds the socket. -/
def adds : WsOp → Bool
  | .add _ socket => socket = k
  | _ => false

/-- The call removes the socket. -/
def removes : WsOp → Bool
  | .remove socket => socket = k
  | _ => false

/-- What the call makes of the socket's interest in the job: `true` where it subscribes, `false` where it unsubscribes. -/
def toggles : WsOp → Option Bool
  | .subscribe socket jobId => if socket = k && sameValueZero jobId (.string j) then some true else none
  | .unsubscribe socket jobId => if socket = k && sameValueZero jobId (.string j) then some false else none
  | _ => none

end WsOp

/-- The calls after the socket was added, the last of them first. -/
def sinceAdded (ops : List WsOp) (k : Nat) : List WsOp := ops.reverse.takeWhile (fun op => !op.adds k)

/-- The socket has been added, and not removed after that. -/
def isThere (ops : List WsOp) (k : Nat) : Bool := ops.any (WsOp.adds k) && !(sinceAdded ops k).any (WsOp.removes k)

/-- The socket is there, and what was last said of it and the job after it was added was a subscription. -/
def isListening (ops : List WsOp) (k : Nat) (j : String) : Bool :=
  isThere ops k && (sinceAdded ops k).findSome? (WsOp.toggles k j) == some true

/-! ## One more call -/

theorem sinceAdded_concat (ops : List WsOp) (op : WsOp) (k : Nat) :
    sinceAdded (ops ++ [op]) k = if op.adds k then [] else op :: sinceAdded ops k := by
  rw [sinceAdded, List.reverse_append, List.reverse_singleton, List.singleton_append, List.takeWhile_cons]
  cases op.adds k <;> rfl

theorem isThere_concat (ops : List WsOp) (op : WsOp) (k : Nat) :
    isThere (ops ++ [op]) k = (op.adds k || (isThere ops k && !op.removes k)) := by
  rw [isThere, isThere, sinceAdded_concat, List.any_append]
  cases hadds : op.adds k with
  | true => simp [hadds]
  | false => cases hremoves : op.removes k <;> simp [hadds, hremoves]

theorem isListening_concat (ops : List WsOp) (op : WsOp) (k : Nat) (j : String) :
    isListening (ops ++ [op]) k j = (!op.adds k && !op.removes k &&
      match op.toggles k j with
      | some interest => isThere ops k && interest
      | none => isListening ops k j) := by
  rw [isListening, isThere_concat, sinceAdded_concat]
  cases hadds : op.adds k with
  | true => simp
  | false =>
    rw [if_neg Bool.false_ne_true, List.findSome?_cons]
    cases op.removes k with
    | true => simp
    | false => cases op.toggles k j <;> simp [isListening]

/-! ## The manager after a sequence of calls -/

namespace WsManager

variable (m : WsManager) (k : Nat)

/-- The manager knows the socket. -/
def known : Bool := (OrderedMap.get? m.subscriptions k).isSome

theorem known_add (userId : String) (l : Nat) : (m.add userId l).known k = (decide (l = k) || m.known k) := by
  by_cases hk : k = l
  · simp [known, add, OrderedMap.get?_set, hk]
  · simp [known, add, OrderedMap.get?_set, hk, Ne.symm hk]

theorem known_remove (l : Nat) : (m.remove l).known k = (m.known k && !decide (l = k)) := by
  by_cases hk : k = l
  · simp [known, remove, OrderedMap.get?_erase, hk]
  · simp [known, remove, OrderedMap.get?_erase, hk, Ne.symm hk]

theorem known_subscribe (l : Nat) (v : JsValue) : (m.subscribe l v).known k = m.known k := by
  unfold subscribe known
  cases h : OrderedMap.get? m.subscriptions l with
  | none => rfl
  | some jobIds => by_cases hk : k = l <;> simp [OrderedMap.get?_set, hk, h]

theorem known_unsubscribe (l : Nat) (v : JsValue) : (m.unsubscribe l v).known k = m.known k := by
  unfold unsubscribe known
  cases h : OrderedMap.get? m.subscriptions l with
  | none => rfl
  | some jobIds => by_cases hk : k = l <;> simp [OrderedMap.get?_set, hk, h]

theorem known_apply (op : WsOp) : (m.apply op).known k = (op.adds k || (m.known k && !op.removes k)) := by
  cases op with
  | add userId l => simp [apply, known_add, WsOp.adds, WsOp.removes]
  | remove l => simp [apply, known_remove, WsOp.adds, WsOp.removes]
  | subscribe l v => simp [apply, known_subscribe, WsOp.adds, WsOp.removes]
  | unsubscribe l v => simp [apply, known_unsubscribe, WsOp.adds, WsOp.removes]
  | broadcast j => simp [apply, WsOp.adds, WsOp.removes]

/-- A socket the manager does not know has no subscription. -/
theorem known_of_subscribed {j : String} (h : m.subscribed k j = true) : m.known k = true := by
  unfold subscribed at h
  unfold known
  cases hget : OrderedMap.get? m.subscriptions k with
  | none =>
    rw [hget] at h
    cases h
  | some jobIds => rfl

theorem subscribed_apply (op : WsOp) (j : String) : (m.apply op).subscribed k j = (!op.adds k && !op.removes k &&
    match op.toggles k j with
    | some interest => m.known k && interest
    | none => m.subscribed k j) := by
  cases op with
  | add userId l => simp [apply, subscribed_add, WsOp.adds, WsOp.removes, WsOp.toggles, eq_comm]
  | remove l => simp [apply, subscribed_remove, WsOp.adds, WsOp.removes, WsOp.toggles, eq_comm]
  | subscribe l v =>
    rw [apply, subscribed_subscribe]
    by_cases hk : k = l
    · subst hk
      cases hv : sameValueZero v (.string j) with
      | true =>
        cases hs : m.subscribed k j with
        | true => simp [WsOp.adds, WsOp.removes, WsOp.toggles, hv, known_of_subscribed m k hs]
        | false => simp [WsOp.adds, WsOp.removes, WsOp.toggles, hv, known]
      | false => simp [WsOp.adds, WsOp.removes, WsOp.toggles, hv]
    · simp [WsOp.adds, WsOp.removes, WsOp.toggles, hk, Ne.symm hk]
  | unsubscribe l v =>
    rw [apply, subscribed_unsubscribe]
    by_cases hk : k = l
    · subst hk
      cases hv : sameValueZero v (.string j) <;> simp [WsOp.adds, WsOp.removes, WsOp.toggles, hv]
    · simp [WsOp.adds, WsOp.removes, WsOp.toggles, hk, Ne.symm hk]
  | broadcast j' => simp [apply, WsOp.adds, WsOp.removes, WsOp.toggles]

theorem run_concat (ops : List WsOp) (op : WsOp) : run (ops ++ [op]) = (run ops).apply op := List.foldl_concat _ _ _ _

/-- The manager knows the sockets that are there. -/
theorem known_run (ops : List WsOp) (k : Nat) : (run ops).known k = isThere ops k := by
  induction ops using List.reverseRecOn with
  | nil => rfl
  | append_singleton ops op ih => rw [run_concat, known_apply, isThere_concat, ih]

/-- A socket has subscribed to the jobs it is listening to. -/
theorem subscribed_run (ops : List WsOp) (k : Nat) (j : String) : (run ops).subscribed k j = isListening ops k j := by
  induction ops using List.reverseRecOn with
  | nil => rfl
  | append_singleton ops op ih => rw [run_concat, subscribed_apply, isListening_concat, known_run, ih]

end WsManager

/-- After any sequence of calls a broadcast for a job sends the event once to each open socket that is listening to the job, after
what it was sent before, and leaves every other as it is. -/
theorem broadcast_exact (ops : List WsOp) (sockets : List Connection) (crashed : Bool) (jobId : String) (event : Json) (k : Nat) :
    (Api.broadcast ⟨WsManager.run ops, sockets, crashed⟩ jobId event).sockets[k]? =
      sockets[k]?.map (fun c =>
        if isListening ops k jobId = true ∧ c.readyState = .opened then { c with sent := c.sent ++ [⟨jobId, event⟩] } else c) := by
  rw [Api.broadcast, getElem?_foldl_send _ _ (WsManager.nodup_broadcast _ _ _)]
  cases hk : sockets[k]? with
  | none => rfl
  | some c =>
    have hopen : Api.isOpen ⟨WsManager.run ops, sockets, crashed⟩ k = decide (c.readyState = .opened) := by
      simp [Api.isOpen, hk]
    simp only [Option.map_some, WsManager.mem_broadcast, WsManager.subscribed_run, hopen, decide_eq_true_eq]

end FileProcessing
