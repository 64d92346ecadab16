import FileProcessing.Theorems.ExactBroadcast

/-!
# The two indexes of the manager

The manager keeps the sockets of each user and the subscriptions of each socket apart, and removes a socket from the first by a search.
As long as no socket is added twice the two agree on the sockets that are there, and nothing is left of a socket that was removed.
-/

namespace FileProcessing

/-- The socket a call adds. -/
def WsOp.added : WsOp → Option Nat
  | .add _ socket => some socket
  | _ => none

/-- Each socket is added at most once. -/
def AddedOnce (ops : List WsOp) : Prop := (ops.filterMap WsOp.added).Nodup

/-- Each socket that was added was removed after that. -/
def AllRemoved (ops : List WsOp) : Prop :=
  ∀ before userId socket after, ops = before ++ .add userId socket :: after → .remove socket ∈ after

/-- The set of the user has the socket. -/
def WsManager.holds (m : WsManager) (userId : String) (k : Nat) : Bool :=
  (OrderedMap.get? m.byUser userId).any (fun sockets => sockets.has k)

/-- The sockets of the users are those with subscriptions, each is held by the one user it was added under, no user has an empty set,
and once every socket was removed nothing is left. -/
structure IndexesAgree (ops : List WsOp) (m : WsManager) : Prop where
  same : ∀ k, (∃ userId, m.holds userId k = true) ↔ m.known k = true
  owner : ∀ k, m.known k = true → ∃ userId, .add userId k ∈ ops ∧ ∀ other, m.holds other k = true ↔ other = userId
  nonempty : ∀ userId sockets, (userId, sockets) ∈ m.byUser → sockets.elems ≠ []
  emptied : AllRemoved ops → m.byUser.rows = [] ∧ m.subscriptions.rows = []

namespace WsOp

/-- The call adds the socket under the user. -/
def addsUnder (userId : String) (k : Nat) : WsOp → Bool
  | .add userId' socket => userId' = userId && socket = k
  | _ => false

theorem addsUnder_iff {userId : String} {k : Nat} {op : WsOp} : op.addsUnder userId k = true ↔ op = .add userId k := by
  cases op <;> simp [addsUnder]

theorem adds_iff {k : Nat} {op : WsOp} : op.adds k = true ↔ ∃ userId, op = .add userId k := by
  cases op <;> simp [adds]

end WsOp

/-! ## Sockets that are added once -/

/-- A socket that is added once is added under one user. -/
theorem AddedOnce.user_eq {ops : List WsOp} (h : AddedOnce ops) {u v : String} {k : Nat} (hu : .add u k ∈ ops) (hv : .add v k ∈ ops) :
    u = v := by
  have hmem {w : String} {ops : List WsOp} (hw : .add w k ∈ ops) : k ∈ ops.filterMap WsOp.added :=
    List.mem_filterMap.mpr ⟨.add w k, hw, rfl⟩
  induction ops with
  | nil => cases hu
  | cons op ops ih =>
    rcases List.mem_cons.mp hu with rfl | hu'
    · rcases List.mem_cons.mp hv with heq | hv'
      · cases heq
        rfl
      · exact absurd (hmem hv') (List.nodup_cons.mp h).1
    · rcases List.mem_cons.mp hv with rfl | hv'
      · exact absurd (hmem hu') (List.nodup_cons.mp h).1
      · exact ih (h.sublist ((List.sublist_cons_self op ops).filterMap _)) hu' hv'

theorem AddedOnce.init {ops : List WsOp} {op : WsOp} (h : AddedOnce (ops ++ [op])) : AddedOnce ops :=
  h.sublist ((List.sublist_append_left ops [op]).filterMap _)

/-- A socket that is there was added, and has not been removed since. -/
theorem added_of_isThere {ops : List WsOp} {k : Nat} (h : isThere ops k = true) :
    ∃ before userId after, ops = before ++ .add userId k :: after ∧ .remove k ∉ after := by
  induction ops using List.reverseRecOn with
  | nil => cases h
  | append_singleton ops op ih =>
    rw [isThere_concat, Bool.or_eq_true, Bool.and_eq_true] at h
    rcases h with hadds | ⟨hthere, hremoves⟩
    · cases op with
      | add userId l =>
        have hl : l = k := of_decide_eq_true hadds
        subst hl
        exact ⟨ops, userId, [], rfl, List.not_mem_nil⟩
      | remove | subscribe | unsubscribe | broadcast => cases hadds
    · obtain ⟨before, userId, after, rfl, hafter⟩ := ih hthere
      refine ⟨before, userId, after ++ [op], by simp, fun hmem => ?_⟩
      rcases List.mem_append.mp hmem with hmem | hmem
      · exact hafter hmem
      · obtain rfl := List.mem_singleton.mp hmem
        simp [WsOp.removes] at hremoves

/-! ## What a call makes of the sockets of the users -/

namespace WsManager

variable {m : WsManager} {k l : Nat} {u v : String}

theorem holds_add : (m.add v l).holds u k = (m.holds u k || (decide (v = u) && decide (l = k))) := by
  by_cases hu : u = v
  · subst hu
    cases hget : OrderedMap.get? m.byUser u <;> simp [holds, add, OrderedMap.get?_set, hget]
  · simp [holds, add, OrderedMap.get?_set, hu, Ne.symm hu]

/-- A user who holds a socket has an entry. -/
theorem holds_iff : m.holds u k = true ↔ ∃ sockets, (u, sockets) ∈ m.byUser ∧ sockets.has k = true := by
  simp only [holds, Option.any_eq_true, OrderedMap.get?_eq_some_iff]

/-- The entries of the users after a socket was found with one of them. -/
theorem get?_byUser_remove {w : String} {sockets : Sockets}
    (hfind : m.byUser.rows.find? (fun entry => entry.2.has l) = some (w, sockets)) :
    OrderedMap.get? (m.remove l).byUser u =
      if u = w then (if (sockets.erase l).elems.isEmpty then none else some (sockets.erase l)) else OrderedMap.get? m.byUser u := by
  unfold remove
  rw [hfind]
  cases hempty : (sockets.erase l).elems.isEmpty with
  | true => simp [OrderedMap.get?_erase, hempty]
  | false => simp [OrderedMap.get?_set, hempty]

/-- A socket that one user holds is taken from that one. -/
theorem holds_remove (hone : ∀ u v, m.holds u l = true → m.holds v l = true → u = v) :
    (m.remove l).holds u k = (m.holds u k && !decide (l = k)) := by
  cases hfind : m.byUser.rows.find? (fun entry => entry.2.has l) with
  | none =>
    have hno : m.holds u l = false := by
      rw [Bool.eq_false_iff]
      intro h
      obtain ⟨sockets, hmem, hhas⟩ := holds_iff.mp h
      exact List.find?_eq_none.mp hfind _ hmem hhas
    have hsame : (m.remove l).holds u k = m.holds u k := by
      unfold remove
      rw [hfind]
      rfl
    rw [hsame]
    by_cases hk : l = k
    · subst hk
      simp [hno]
    · simp [hk]
  | some entry =>
    obtain ⟨w, sockets⟩ := entry
    have hhas : sockets.has l = true := by simpa using List.find?_some hfind
    have hmem : (w, sockets) ∈ m.byUser := List.mem_of_find?_eq_some hfind
    have hget : OrderedMap.get? m.byUser w = some sockets := OrderedMap.get?_eq_some_iff.mpr hmem
    by_cases hu : u = w
    · subst hu
      have hold : m.holds u k = sockets.has k := by simp [holds, hget]
      have hrest : (sockets.erase l).has k = (sockets.has k && !decide (l = k)) := OrderedSet.has_erase sockets l k
      rw [hold, ← hrest, holds, get?_byUser_remove hfind, if_pos rfl]
      cases hempty : (sockets.erase l).elems.isEmpty with
      | true =>
        cases hk : (sockets.erase l).has k with
        | true => exact absurd (List.isEmpty_iff.mp hempty) (OrderedSet.elems_ne_nil hk)
        | false => rfl
      | false => simp
    · have hnot : m.holds u l = false := by
        rw [Bool.eq_false_iff]
        exact fun h => hu (hone u w h (holds_iff.mpr ⟨sockets, hmem, hhas⟩))
      have hsame : (m.remove l).holds u k = m.holds u k := by rw [holds, get?_byUser_remove hfind, if_neg hu, holds]
      rw [hsame]
      by_cases hk : l = k
      · subst hk
        simp [hnot]
      · simp [hk]

/-! ## No set is empty -/

/-- No user has an empty set. -/
def NoneEmpty (m : WsManager) : Prop := ∀ userId sockets, (userId, sockets) ∈ m.byUser → sockets.elems ≠ []

theorem noneEmpty_add (h : m.NoneEmpty) : (m.add v l).NoneEmpty := by
  intro userId sockets hmem
  rcases OrderedMap.mem_set.mp hmem with ⟨-, rfl⟩ | ⟨-, hmem⟩
  · exact OrderedSet.elems_ne_nil (x := l) (by simp)
  · exact h userId sockets hmem

theorem noneEmpty_remove (h : m.NoneEmpty) : (m.remove l).NoneEmpty := by
  intro userId sockets hmem
  cases hfind : m.byUser.rows.find? (fun entry => entry.2.has l) with
  | none =>
    have hsame : (m.remove l).byUser = m.byUser := by
      unfold remove
      rw [hfind]
    exact h userId sockets (hsame ▸ hmem)
  | some entry =>
    have hget := OrderedMap.get?_eq_some_iff.mpr hmem
    rw [get?_byUser_remove hfind] at hget
    split at hget
    · split at hget
      · cases hget
      · rename_i hempty
        cases hget
        exact fun hnil => hempty (List.isEmpty_iff.mpr hnil)
    · exact h userId sockets (OrderedMap.get?_eq_some_iff.mp hget)

/-! ## Any call -/

theorem byUser_subscribe (jobId : JsValue) : (m.subscribe l jobId).byUser = m.byUser := by
  unfold subscribe
  split <;> rfl

theorem byUser_unsubscribe (jobId : JsValue) : (m.unsubscribe l jobId).byUser = m.byUser := by
  unfold unsubscribe
  split <;> rfl

/-- What a call makes of the sockets of a user, where each socket has one user. -/
theorem holds_apply (op : WsOp) (hone : ∀ l u v, m.holds u l = true → m.holds v l = true → u = v) :
    (m.apply op).holds u k = (op.addsUnder u k || (m.holds u k && !op.removes k)) := by
  cases op with
  | add v l => simp [apply, holds_add, WsOp.addsUnder, WsOp.removes, Bool.or_comm]
  | remove l => simp [apply, holds_remove (hone l), WsOp.addsUnder, WsOp.removes]
  | subscribe l jobId => simp [apply, holds, byUser_subscribe, WsOp.addsUnder, WsOp.removes]
  | unsubscribe l jobId => simp [apply, holds, byUser_unsubscribe, WsOp.addsUnder, WsOp.removes]
  | broadcast jobId => simp [apply, WsOp.addsUnder, WsOp.removes]

theorem noneEmpty_apply (op : WsOp) (h : m.NoneEmpty) : (m.apply op).NoneEmpty := by
  cases op with
  | add v l => exact noneEmpty_add h
  | remove l => exact noneEmpty_remove h
  | subscribe l jobId =>
    intro userId sockets hmem
    rw [apply, byUser_subscribe] at hmem
    exact h userId sockets hmem
  | unsubscribe l jobId =>
    intro userId sockets hmem
    rw [apply, byUser_unsubscribe] at hmem
    exact h userId sockets hmem
  | broadcast jobId => exact h

end WsManager

/-! ## Every sequence of calls -/

/-- What every call keeps: a user holds sockets added under them, some user holds a socket just when the manager knows it, and no set is
empty. -/
structure Indexed (ops : List WsOp) (m : WsManager) : Prop where
  added : ∀ userId k, m.holds userId k = true → .add userId k ∈ ops
  same : ∀ k, (∃ userId, m.holds userId k = true) ↔ m.known k = true
  nonempty : m.NoneEmpty

theorem indexed_step {ops : List WsOp} {op : WsOp} {m : WsManager} (honce : AddedOnce ops) (h : Indexed ops m) :
    Indexed (ops ++ [op]) (m.apply op) := by
  have hone (l : Nat) (u v : String) (hu : m.holds u l = true) (hv : m.holds v l = true) : u = v :=
    honce.user_eq (h.added u l hu) (h.added v l hv)
  refine ⟨fun userId k hholds => ?_, fun k => ?_, WsManager.noneEmpty_apply op h.nonempty⟩
  · rw [WsManager.holds_apply op hone, Bool.or_eq_true, Bool.and_eq_true] at hholds
    rcases hholds with hadds | ⟨hholds, -⟩
    · exact List.mem_append_right ops (List.mem_singleton.mpr (WsOp.addsUnder_iff.mp hadds).symm)
    · exact List.mem_append_left [op] (h.added userId k hholds)
  · simp only [WsManager.holds_apply op hone, WsManager.known_apply, Bool.or_eq_true, Bool.and_eq_true, exists_or, WsOp.adds_iff,
      ← WsOp.addsUnder_iff, ← h.same k, exists_and_right]

theorem indexed_run {ops : List WsOp} (h : AddedOnce ops) : Indexed ops (WsManager.run ops) := by
  induction ops using List.reverseRecOn with
  | nil => exact ⟨fun _ _ hholds => (nomatch hholds), fun k => ⟨fun ⟨_, hholds⟩ => (nomatch hholds), fun hknown => (nomatch hknown)⟩,
      fun _ _ hmem => (nomatch hmem)⟩
  | append_singleton ops op ih =>
    rw [WsManager.run_concat]
    exact indexed_step h.init (ih h.init)

/-- The indexes are empty when the manager knows no socket. -/
theorem rows_nil_of_not_known {ops : List WsOp} {m : WsManager} (h : Indexed ops m) (hnone : ∀ k, m.known k = false) :
    m.byUser.rows = [] ∧ m.subscriptions.rows = [] := by
  constructor
  · rw [List.eq_nil_iff_forall_not_mem]
    rintro ⟨userId, sockets⟩ hmem
    obtain ⟨k, hk⟩ := List.exists_mem_of_ne_nil _ (h.nonempty userId sockets hmem)
    have hhas : sockets.has k = true := List.any_eq_true.mpr ⟨k, hk, decide_eq_true rfl⟩
    have hknown := (h.same k).mp ⟨userId, WsManager.holds_iff.mpr ⟨sockets, hmem, hhas⟩⟩
    rw [hnone k] at hknown
    cases hknown
  · rw [List.eq_nil_iff_forall_not_mem]
    rintro ⟨k, jobIds⟩ hmem
    have hknown : m.known k = true := by rw [WsManager.known, OrderedMap.get?_eq_some_iff.mpr hmem, Option.isSome_some]
    rw [hnone k] at hknown
    cases hknown

/-- After every sequence of calls that adds each socket at most once the indexes agree, and nothing is left of the sockets that were
removed. -/
theorem indexes_agree (ops : List WsOp) (h : AddedOnce ops) : IndexesAgree ops (WsManager.run ops) := by
  have hindexed := indexed_run h
  refine ⟨hindexed.same, fun k hknown => ?_, hindexed.nonempty, fun hremoved => rows_nil_of_not_known hindexed (fun k => ?_)⟩
  · obtain ⟨userId, hholds⟩ := (hindexed.same k).mpr hknown
    refine ⟨userId, hindexed.added userId k hholds, fun other => ⟨fun hother => ?_, fun heq => heq ▸ hholds⟩⟩
    exact h.user_eq (hindexed.added other k hother) (hindexed.added userId k hholds)
  · rw [WsManager.known_run, Bool.eq_false_iff]
    intro hthere
    obtain ⟨before, userId, after, hops, hafter⟩ := added_of_isThere hthere
    exact hafter (hremoved before userId k after hops)

/-- Two sockets of one user, one of which is removed. -/
theorem indexes_agree_two :
    IndexesAgree [.add "u" 0, .add "u" 1, .remove 0] (WsManager.run [.add "u" 0, .add "u" 1, .remove 0]) := by
  have honce : ([0, 1] : List Nat).Nodup := by decide
  exact indexes_agree _ honce

end FileProcessing
