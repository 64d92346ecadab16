import FileProcessing.Web.JobWebSocket

/-!
# The hook across a step

What a step makes of the state and of the sockets of the hook. At most one socket is connecting or open, and it is the one of the
effect that ran last; on one that is open the subscription was sent and nothing else.
-/

namespace FileProcessing

/-- The socket is connecting or open. -/
def ClientSocket.isUp (socket : ClientSocket) : Bool := socket.readyState = .connecting || socket.readyState = .opened

namespace Hook

variable {h h' : Hook} {a : HookAction}

@[simp] theorem cleanup_state (h : Hook) : h.cleanup.state = h.state := by
  unfold cleanup
  split <;> rfl

@[simp] theorem cleanup_jobId (h : Hook) : h.cleanup.jobId = h.jobId := by
  unfold cleanup
  split <;> rfl

/-- After the cleanup there is no current socket. -/
theorem cleanup_ws (h : Hook) : h.cleanup.ws = none := by
  unfold cleanup
  split
  · exact ‹_›
  · rfl

@[simp] theorem connect_state (h : Hook) : h.connect.state = h.state := by
  unfold connect
  split <;> rfl

@[simp] theorem connect_jobId (h : Hook) : h.connect.jobId = h.jobId := by
  unfold connect
  split <;> rfl

/-- A step is a render, which keeps the state, or it keeps the job id, and the state is changed by what a handler hears. -/
theorem step_state (hs : h.step a = some h') :
    (∃ jobId token initial, a = .render jobId token initial ∧ h'.jobId = jobId ∧ h'.state = h.state) ∨
      (h'.jobId = h.jobId ∧ (∀ jobId token initial, a ≠ .render jobId token initial) ∧
        h'.state = h.stateAfter a) := by
  cases a with
  | render jobId token initial =>
    cases hs
    exact Or.inl ⟨_, _, _, rfl, rfl, rfl⟩
  | effect =>
    simp only [step, effect] at hs
    split at hs <;> cases hs
    exact Or.inr ⟨by simp, by nofun, by simp [stateAfter, heard]⟩
  | opened k =>
    simp only [step] at hs
    split at hs <;> cases hs
    exact Or.inr ⟨rfl, by nofun, rfl⟩
  | message k raw =>
    simp only [step] at hs
    split at hs <;> cases hs
    exact Or.inr ⟨rfl, by nofun, rfl⟩
  | errored k =>
    simp only [step] at hs
    split at hs <;> cases hs
    exact Or.inr ⟨rfl, by nofun, rfl⟩
  | closed k =>
    simp only [step] at hs
    split at hs <;> cases hs
    exact Or.inr ⟨rfl, by nofun, rfl⟩

/-! ## The sockets -/

/-- Only the socket of the effect that ran last is connecting or open. -/
def OneSocket (h : Hook) : Prop := ∀ {k : Nat} {socket}, h.sockets[k]? = some socket → socket.isUp = true → h.ws = some k

/-- The socket on which the hook hears of the job: the current one, while it is connecting or open. -/
def current (h : Hook) (jobId : String) : Option Nat :=
  h.ws.filter (fun k => h.sockets[k]?.any (fun socket => socket.jobId = jobId && socket.isUp))

theorem current_eq_some {jobId : String} {k : Nat} :
    h.current jobId = some k ↔ h.ws = some k ∧ ∃ socket, h.sockets[k]? = some socket ∧ socket.jobId = jobId ∧ socket.isUp = true := by
  simp [current, Option.filter_eq_some_iff, Option.any_eq_true]

/-- What changes neither the job id of a socket nor whether it is up keeps the socket the hook hears on. -/
theorem current_modify {k : Nat} {f : ClientSocket → ClientSocket}
    (hf : ∀ socket, h.sockets[k]? = some socket → (f socket).jobId = socket.jobId ∧ (f socket).isUp = socket.isUp) (jobId : String) :
    ({ h with sockets := h.sockets.modify k f } : Hook).current jobId = h.current jobId := by
  refine Option.ext (fun l => ?_)
  simp only [current_eq_some, List.getElem?_modify]
  refine and_congr_right (fun _ => ?_)
  cases hl : h.sockets[l]? with
  | none => simp
  | some socket =>
    by_cases hk : k = l
    · obtain ⟨hj, hu⟩ := hf socket (hk ▸ hl)
      simp [hk, hj, hu]
    · simp [hk]

/-- A socket that is closed is not heard on. -/
theorem current_closed {k : Nat} (jobId : String) :
    (h.setReadyState k .closed).current jobId = if h.ws = some k then none else h.current jobId := by
  refine Option.ext (fun l => ?_)
  simp only [current_eq_some, setReadyState, List.getElem?_modify]
  by_cases hws : h.ws = some k
  · rw [if_pos hws]
    constructor
    · rintro ⟨hl, socket, hs, -, hup⟩
      rw [hws] at hl
      cases hl
      obtain ⟨socket₀, -, rfl⟩ := Option.map_eq_some_iff.1 hs
      simp [ClientSocket.isUp] at hup
    · rintro ⟨⟩
  · rw [if_neg hws, current_eq_some]
    refine and_congr_right (fun hl => ?_)
    have hk : k ≠ l := fun e => hws (e ▸ hl)
    simp [hk]

@[simp] theorem length_cleanup (h : Hook) : h.cleanup.sockets.length = h.sockets.length := by
  unfold cleanup
  split
  · rfl
  · exact List.length_modify _ _ _

/-- After an effect the hook hears on no socket but the one it has just opened. -/
theorem current_effect (hs : h.effect = some h') {jobId : String} {k : Nat} (hk : h'.current jobId = some k) :
    k = h.sockets.length := by
  unfold effect at hs
  split at hs <;> cases hs
  obtain ⟨hws, -⟩ := current_eq_some.1 hk
  simp only [connect] at hws
  split at hws
  · rw [cleanup_ws] at hws
    cases hws
  · rw [length_cleanup] at hws
    exact (Option.some.inj hws).symm

/-- The sockets of the hook are never fewer. -/
theorem length_step (hs : h.step a = some h') : h.sockets.length ≤ h'.sockets.length := by
  cases a with
  | render jobId token initial =>
    cases hs
    exact Nat.le_refl _
  | effect =>
    simp only [step, effect] at hs
    split at hs <;> cases hs
    simp only [connect]
    split <;> simp
  | opened k | message k raw | errored k | closed k =>
    simp only [step] at hs
    split at hs <;> cases hs
    simp [hear, setReadyState]

/-- What takes no socket up keeps the sockets so. -/
theorem oneSocket_modify {k : Nat} {f : ClientSocket → ClientSocket} (hI : h.OneSocket)
    (hf : ∀ socket, h.sockets[k]? = some socket → (f socket).isUp = true → socket.isUp = true) :
    ({ h with sockets := h.sockets.modify k f } : Hook).OneSocket := by
  intro l socket hl hup
  rw [List.getElem?_modify] at hl
  obtain ⟨socket₀, hl₀, rfl⟩ := Option.map_eq_some_iff.1 hl
  refine hI hl₀ ?_
  split at hup
  · rename_i hk
    exact hf _ (hk ▸ hl₀) hup
  · exact hup

/-- After the cleanup no socket is connecting or open. -/
theorem cleanup_down (hI : h.OneSocket) {k : Nat} {socket : ClientSocket} (hk : h.cleanup.sockets[k]? = some socket) :
    socket.isUp = false := by
  rw [Bool.eq_false_iff]
  intro hup
  unfold cleanup at hk
  split at hk
  · rename_i hws
    rw [hI hk hup] at hws
    cases hws
  · rename_i l hws
    rw [List.getElem?_modify] at hk
    obtain ⟨socket₀, hk₀, rfl⟩ := Option.map_eq_some_iff.1 hk
    by_cases hl : l = k
    · simp only [hl, if_true, cleanupSocket] at hup
      split at hup <;> simp_all [ClientSocket.isUp]
    · rw [if_neg hl] at hup
      rw [hI hk₀ hup] at hws
      exact hl (Option.some.inj hws).symm

/-- A step keeps one socket. -/
theorem oneSocket_step (hs : h.step a = some h') (hI : h.OneSocket) : h'.OneSocket := by
  cases a with
  | render jobId token initial =>
    cases hs
    exact hI
  | effect =>
    simp only [step, effect] at hs
    split at hs <;> cases hs
    intro k socket hk hup
    simp only [connect] at hk ⊢
    split at hk
    · rw [cleanup_down hI hk] at hup
      cases hup
    · by_cases hlt : k < h.cleanup.sockets.length
      · rw [List.getElem?_append_left hlt] at hk
        rw [cleanup_down hI hk] at hup
        cases hup
      · have hlen := (List.getElem?_eq_some_iff.1 hk).1
        rw [List.length_append, List.length_singleton] at hlen
        exact congrArg some (by omega)
  | opened k =>
    simp only [step] at hs
    split at hs <;> cases hs
    rename_i hc
    refine oneSocket_modify hI (fun socket hk _ => ?_)
    rw [readyState, hk] at hc
    simp only [ClientSocket.isUp, Option.some.inj hc, decide_true, Bool.true_or]
  | message k raw =>
    simp only [step] at hs
    split at hs <;> cases hs
    exact hI
  | errored k | closed k =>
    simp only [step] at hs
    split at hs <;> cases hs
    refine oneSocket_modify hI (fun socket _ hup => ?_)
    simp [ClientSocket.isUp] at hup

/-! ## What was sent on the sockets -/

/-- The socket of the effect that ran last was opened last. -/
def LastSocket (h : Hook) : Prop := ∀ {k : Nat}, h.ws = some k → k + 1 = h.sockets.length

/-- A step keeps the current socket the last. -/
theorem lastSocket_step (hs : h.step a = some h') (hI : h.LastSocket) : h'.LastSocket := by
  intro k hk
  cases a with
  | render jobId token initial =>
    cases hs
    exact hI hk
  | effect =>
    simp only [step, effect] at hs
    split at hs <;> cases hs
    simp only [connect] at hk ⊢
    split at hk
    · rw [cleanup_ws] at hk
      cases hk
    · cases hk
      rw [List.length_append, List.length_singleton]
  | opened k | message k raw | errored k | closed k =>
    simp only [step] at hs
    split at hs <;> cases hs
    have hlen := hI hk
    simpa [hear, setReadyState] using hlen

/-- What an event of a socket or the cleanup of the effect makes of it. -/
inductive Moved (socket : ClientSocket) : ClientSocket → Prop where
  | same : Moved socket socket
  | opened (h : socket.readyState = .connecting) : Moved socket (subscribe socket)
  | cleaned : Moved socket (cleanupSocket socket)
  | closed : Moved socket { socket with readyState := .closed }

theorem Moved.jobId {socket socket' : ClientSocket} (hm : Moved socket socket') : socket'.jobId = socket.jobId := by
  cases hm with
  | cleaned =>
    unfold cleanupSocket
    split <;> rfl
  | _ => rfl

/-- What was sent on a socket stays sent. -/
theorem Moved.length_sent {socket socket' : ClientSocket} (hm : Moved socket socket') : socket.sent.length ≤ socket'.sent.length := by
  cases hm with
  | opened => simp [subscribe]
  | cleaned =>
    unfold cleanupSocket
    split <;> simp
  | _ => exact Nat.le_refl _

/-- A socket that is open was so, or has just opened. -/
theorem Moved.opened_back {socket socket' : ClientSocket} (hm : Moved socket socket') (ho : socket'.readyState = .opened) :
    socket' = socket ∨ socket.readyState = .connecting := by
  cases hm with
  | same => exact Or.inl rfl
  | opened h => exact Or.inr h
  | cleaned =>
    unfold cleanupSocket at ho
    split at ho <;> simp_all
  | closed => cases ho

/-- Nothing was sent on a socket that is connecting, and on one that is open the subscription to its job alone. -/
structure Scripted (socket : ClientSocket) : Prop where
  connecting : socket.readyState = .connecting → socket.sent = []
  opened : socket.readyState = .opened → socket.sent = [.subscribe socket.jobId]

theorem Moved.scripted {socket socket' : ClientSocket} (hm : Moved socket socket') (hI : Scripted socket) : Scripted socket' := by
  cases hm with
  | same => exact hI
  | opened h => exact ⟨by simp [subscribe], by simp [subscribe, hI.connecting h]⟩
  | cleaned =>
    constructor <;> unfold cleanupSocket <;> split <;> simp_all
  | closed => exact ⟨by simp, by simp⟩

/-- Where a socket comes from when one is changed. -/
theorem modify_back {k l : Nat} {f : ClientSocket → ClientSocket} {socket' : ClientSocket}
    (hf : ∀ socket, h.sockets[k]? = some socket → Moved socket (f socket)) (hl : (h.sockets.modify k f)[l]? = some socket') :
    ∃ socket, h.sockets[l]? = some socket ∧ Moved socket socket' := by
  rw [List.getElem?_modify] at hl
  obtain ⟨socket, hs, rfl⟩ := Option.map_eq_some_iff.1 hl
  refine ⟨socket, hs, ?_⟩
  split
  · rename_i hk
    exact hf _ (hk ▸ hs)
  · exact .same

theorem cleanup_back {k : Nat} {socket' : ClientSocket} (hk : h.cleanup.sockets[k]? = some socket') :
    ∃ socket, h.sockets[k]? = some socket ∧ Moved socket socket' := by
  unfold cleanup at hk
  split at hk
  · exact ⟨socket', hk, .same⟩
  · exact modify_back (fun _ _ => .cleaned) hk

/-- Where a socket comes from: it was there, or the effect has just opened it. -/
theorem socket_back (hs : h.step a = some h') {k : Nat} {socket' : ClientSocket} (hk : h'.sockets[k]? = some socket') :
    (∃ socket, h.sockets[k]? = some socket ∧ Moved socket socket') ∨
      (h.sockets.length ≤ k ∧ socket'.readyState = .connecting ∧ socket'.sent = []) := by
  cases a with
  | render jobId token initial =>
    cases hs
    exact Or.inl ⟨socket', hk, .same⟩
  | effect =>
    simp only [step, effect] at hs
    split at hs <;> cases hs
    simp only [connect] at hk
    split at hk
    · exact Or.inl (cleanup_back hk)
    · by_cases hlt : k < h.cleanup.sockets.length
      · rw [List.getElem?_append_left hlt] at hk
        exact Or.inl (cleanup_back hk)
      · have hle := Nat.le_of_not_lt hlt
        rw [List.getElem?_append_right hle] at hk
        rw [length_cleanup] at hle
        refine Or.inr ⟨hle, ?_⟩
        have hmem := List.mem_of_getElem? hk
        rw [List.mem_singleton] at hmem
        subst hmem
        exact ⟨rfl, rfl⟩
  | opened k =>
    simp only [step] at hs
    split at hs <;> cases hs
    rename_i hc
    refine Or.inl (modify_back (fun socket hsocket => .opened ?_) hk)
    rw [readyState, hsocket] at hc
    exact Option.some.inj hc
  | message k raw =>
    simp only [step] at hs
    split at hs <;> cases hs
    exact Or.inl ⟨socket', hk, .same⟩
  | errored k | closed k =>
    simp only [step] at hs
    split at hs <;> cases hs
    exact Or.inl (modify_back (fun _ _ => .closed) hk)

end Hook

end FileProcessing
