import FileProcessing.Lemmas.Subscriptions

/-!
# Messages of any shape

The `message` handler takes what `JSON.parse` returns to be a message of the client, and looks neither at its shape nor at the type of
its `jobId`. Which texts it takes without harm is said exactly: all but `null`, which it throws on, and the subscriptions and
unsubscriptions of something other than a string that take effect.
-/

namespace FileProcessing

variable {m m' : WsManager} {socket : Nat} {raw : Option Json} {msg : Json} {jobId : String}

/-- The message is an object of the given type that names a job by a string. -/
def Says (type : String) (raw : Option Json) (jobId : String) : Prop :=
  ∃ fields, raw = some (.object fields) ∧ (Json.object fields).get "type" = .string type ∧
    (Json.object fields).get "jobId" = .string jobId

/-- The socket is registered, and the value is in its set of subscriptions. -/
def WsManager.Holds (m : WsManager) (socket : Nat) (v : JsValue) : Prop :=
  ∃ jobIds, OrderedMap.get? m.subscriptions socket = some jobIds ∧ jobIds.has v = true

/-- The socket is registered, and the value is not in its set of subscriptions. -/
def WsManager.Lacks (m : WsManager) (socket : Nat) (v : JsValue) : Prop :=
  ∃ jobIds, OrderedMap.get? m.subscriptions socket = some jobIds ∧ jobIds.has v = false

/-- Nothing has changed but the set of subscriptions of the socket, if it is registered. -/
structure OnlySet (m m' : WsManager) (socket : Nat) : Prop where
  byUser : m'.byUser = m.byUser
  others : ∀ k, k ≠ socket → OrderedMap.get? m'.subscriptions k = OrderedMap.get? m.subscriptions k
  registered : (OrderedMap.get? m'.subscriptions socket).isSome = (OrderedMap.get? m.subscriptions socket).isSome

/-- The set of the socket, if it is registered, has gained the job id, and nothing else has changed. -/
structure Gains (m m' : WsManager) (socket : Nat) (jobId : String) : Prop extends OnlySet m m' socket where
  own : ∀ v, m'.Holds socket v ↔ m.Holds socket v ∨ ((OrderedMap.get? m.subscriptions socket).isSome = true ∧ v = .string jobId)

/-- The set of the socket has lost the job id, and nothing else has changed. -/
structure Loses (m m' : WsManager) (socket : Nat) (jobId : String) : Prop extends OnlySet m m' socket where
  own : ∀ v, m'.Holds socket v ↔ m.Holds socket v ∧ v ≠ .string jobId

/-- The handler returns, and the manager has changed only as a message of the client asks for. -/
def Harmless (m : WsManager) (socket : Nat) (raw : Option Json) : Prop :=
  ∃ m', onMessage m socket raw = .ok m' ∧
    (m' = m ∨ (∃ jobId, Says "subscribe" raw jobId ∧ Gains m m' socket jobId) ∨
      ∃ jobId, Says "unsubscribe" raw jobId ∧ Loses m m' socket jobId)

/-- The message is not `null`, and it neither subscribes a registered socket to something other than a string that is not in its set,
nor unsubscribes it from something other than a string that is. -/
structure Sound (m : WsManager) (socket : Nat) (raw : Option Json) : Prop where
  notNull : raw ≠ some .null
  subscribe : ∀ msg, raw = some msg → msg.get "type" = .string "subscribe" → m.Lacks socket (msg.get "jobId") →
    ∃ jobId, msg.get "jobId" = .string jobId
  unsubscribe : ∀ msg, raw = some msg → msg.get "type" = .string "unsubscribe" → m.Holds socket (msg.get "jobId") →
    ∃ jobId, msg.get "jobId" = .string jobId

/-! ## What the manager does -/

/-- Only an object has a `type`. -/
theorem object_of_type {type : String} (h : msg.get "type" = .string type) : ∃ fields, msg = .object fields := by
  cases msg with
  | object fields => exact ⟨fields, rfl⟩
  | array items =>
    rw [Json.get_array ⟨'t', by decide, by decide⟩] at h
    cases h
  | null | bool | number | string => cases h

/-- A subscription that is there already, or of a socket that is not registered, changes nothing. -/
theorem subscribe_same {v : JsValue} (h : ¬ m.Lacks socket v) : m.subscribe socket v = m := by
  unfold WsManager.subscribe
  cases hget : OrderedMap.get? m.subscriptions socket with
  | none => rfl
  | some jobIds =>
    have hhas : jobIds.has v = true := by
      by_contra hno
      exact h ⟨jobIds, hget, Bool.eq_false_iff.2 hno⟩
    dsimp only
    rw [OrderedSet.add_of_has hhas, OrderedMap.set_of_get? hget]

/-- A new subscription changes the manager. -/
theorem subscribe_ne {v : JsValue} (h : m.Lacks socket v) : m.subscribe socket v ≠ m := by
  obtain ⟨jobIds, hget, hno⟩ := h
  intro he
  have hset : OrderedMap.get? (m.subscribe socket v).subscriptions socket = some (jobIds.add v) := by
    simp [WsManager.subscribe, hget, OrderedMap.get?_set]
  rw [he, hget] at hset
  exact OrderedSet.add_ne hno (Option.some.inj hset).symm

/-- Taking away a subscription that is not there changes nothing. -/
theorem unsubscribe_same {v : JsValue} (h : ¬ m.Holds socket v) : m.unsubscribe socket v = m := by
  unfold WsManager.unsubscribe
  cases hget : OrderedMap.get? m.subscriptions socket with
  | none => rfl
  | some jobIds =>
    have hno : jobIds.has v = false := by
      by_contra hhas
      exact h ⟨jobIds, hget, by simpa using hhas⟩
    dsimp only
    rw [OrderedSet.erase_of_not_has hno, OrderedMap.set_of_get? hget]

/-- Taking away a subscription that is there changes the manager. -/
theorem unsubscribe_ne {v : JsValue} (h : m.Holds socket v) : m.unsubscribe socket v ≠ m := by
  obtain ⟨jobIds, hget, hhas⟩ := h
  intro he
  have hset : OrderedMap.get? (m.unsubscribe socket v).subscriptions socket = some (jobIds.erase v) := by
    simp [WsManager.unsubscribe, hget, OrderedMap.get?_set]
  rw [he, hget] at hset
  have hlost : (jobIds.erase v).has v = jobIds.has v := by rw [← Option.some.inj hset]
  -- `v` was found in the set, so it is the same as itself
  obtain ⟨y, -, hy⟩ := List.any_eq_true.1 hhas
  have hself : sameValueZero v v = true := eq_of_sameValueZero hy ▸ hy
  rw [OrderedSet.has_erase, hhas, hself] at hlost
  cases hlost

/-- A string is subscribed to. -/
theorem gains_subscribe (m : WsManager) (socket : Nat) (jobId : String) :
    Gains m (m.subscribe socket (.string jobId)) socket jobId := by
  unfold WsManager.subscribe
  cases hget : OrderedMap.get? m.subscriptions socket with
  | none => exact ⟨⟨rfl, fun _ _ => rfl, rfl⟩, by simp [hget]⟩
  | some jobIds =>
    refine ⟨⟨rfl, fun k hk => by simp [OrderedMap.get?_set, hk], by simp [OrderedMap.get?_set, hget]⟩, fun v => ?_⟩
    have hsame : sameValueZero (.string jobId) v = true ↔ v = .string jobId :=
      ⟨fun h => (eq_of_sameValueZero h).symm, fun h => by rw [h, sameValueZero_string]⟩
    simp only [WsManager.Holds, OrderedMap.get?_set, hget, if_true, Option.some.injEq, exists_eq_left', OrderedSet.has_add,
      Bool.or_eq_true, hsame, Option.isSome_some, true_and]

/-- A string is unsubscribed from. -/
theorem loses_unsubscribe (m : WsManager) (socket : Nat) (jobId : String) :
    Loses m (m.unsubscribe socket (.string jobId)) socket jobId := by
  unfold WsManager.unsubscribe
  cases hget : OrderedMap.get? m.subscriptions socket with
  | none => exact ⟨⟨rfl, fun _ _ => rfl, rfl⟩, by simp [WsManager.Holds, hget]⟩
  | some jobIds =>
    refine ⟨⟨rfl, fun k hk => by simp [OrderedMap.get?_set, hk], by simp [OrderedMap.get?_set, hget]⟩, fun v => ?_⟩
    have hsame : sameValueZero (.string jobId) v = true ↔ v = .string jobId :=
      ⟨fun h => (eq_of_sameValueZero h).symm, fun h => by rw [h, sameValueZero_string]⟩
    simp only [WsManager.Holds, OrderedMap.get?_set, hget, if_true, Option.some.injEq, exists_eq_left', OrderedSet.has_erase,
      Bool.and_eq_true, Bool.not_eq_true', ← Bool.not_eq_true, hsame, ne_eq]

/-! ## The handler -/

/-- What the handler makes of a value that is not `null`. -/
theorem onMessage_some (h : msg ≠ .null) (m : WsManager) (socket : Nat) :
    (msg.get "type" = .string "subscribe" ∧ onMessage m socket (some msg) = .ok (m.subscribe socket (msg.get "jobId"))) ∨
    (msg.get "type" = .string "unsubscribe" ∧ onMessage m socket (some msg) = .ok (m.unsubscribe socket (msg.get "jobId"))) ∨
    (msg.get "type" ≠ .string "subscribe" ∧ msg.get "type" ≠ .string "unsubscribe" ∧ onMessage m socket (some msg) = .ok m) := by
  have hdef : onMessage m socket (some msg) =
      if sameValueZero (msg.get "type") (.string "subscribe") then .ok (m.subscribe socket (msg.get "jobId"))
      else if sameValueZero (msg.get "type") (.string "unsubscribe") then .ok (m.unsubscribe socket (msg.get "jobId"))
      else .ok m := by
    cases msg with
    | null => exact absurd rfl h
    | bool | number | string | array | object => rfl
  have hsame (type : String) : sameValueZero (msg.get "type") (.string type) = true ↔ msg.get "type" = .string type :=
    sameValueZero_string _ _
  by_cases hsub : msg.get "type" = .string "subscribe"
  · exact Or.inl ⟨hsub, hdef.trans (if_pos ((hsame _).2 hsub))⟩
  rw [if_neg (fun he => hsub ((hsame _).1 he))] at hdef
  by_cases hunsub : msg.get "type" = .string "unsubscribe"
  · exact Or.inr (Or.inl ⟨hunsub, hdef.trans (if_pos ((hsame _).2 hunsub))⟩)
  · exact Or.inr (Or.inr ⟨hsub, hunsub, hdef.trans (if_neg (fun he => hunsub ((hsame _).1 he)))⟩)

/-- A message whose `type` and `jobId` are as they should be. -/
theorem says_of_get {type : String} (ht : msg.get "type" = .string type) (hj : msg.get "jobId" = .string jobId) :
    Says type (some msg) jobId := by
  obtain ⟨fields, rfl⟩ := object_of_type ht
  exact ⟨fields, rfl, ht, hj⟩

/-- A message says one thing. -/
theorem said_once {type type' : String} (h : Says type (some msg) jobId) (ht : msg.get "type" = .string type') :
    type' = type ∧ msg.get "jobId" = .string jobId := by
  obtain ⟨fields, hraw, htype, hj⟩ := h
  cases hraw
  rw [htype] at ht
  cases ht
  exact ⟨rfl, hj⟩

theorem harmless_of_sound (h : Sound m socket raw) : Harmless m socket raw := by
  cases raw with
  | none => exact ⟨m, rfl, Or.inl rfl⟩
  | some msg =>
    have hnull : msg ≠ .null := fun he => h.notNull (congrArg some he)
    rcases onMessage_some hnull m socket with ⟨ht, hok⟩ | ⟨ht, hok⟩ | ⟨-, -, hok⟩
    · refine ⟨_, hok, ?_⟩
      by_cases hl : m.Lacks socket (msg.get "jobId")
      · obtain ⟨jobId, hj⟩ := h.subscribe msg rfl ht hl
        rw [hj]
        exact Or.inr (Or.inl ⟨jobId, says_of_get ht hj, gains_subscribe m socket jobId⟩)
      · exact Or.inl (subscribe_same hl)
    · refine ⟨_, hok, ?_⟩
      by_cases hh : m.Holds socket (msg.get "jobId")
      · obtain ⟨jobId, hj⟩ := h.unsubscribe msg rfl ht hh
        rw [hj]
        exact Or.inr (Or.inr ⟨jobId, says_of_get ht hj, loses_unsubscribe m socket jobId⟩)
      · exact Or.inl (unsubscribe_same hh)
    · exact ⟨m, hok, Or.inl rfl⟩

theorem sound_of_harmless (h : Harmless m socket raw) : Sound m socket raw := by
  obtain ⟨m', hok, heffect⟩ := h
  have hnull : raw ≠ some .null := by
    rintro rfl
    cases hok
  refine ⟨hnull, ?_, ?_⟩
  · rintro msg rfl ht hl
    have hm : m' = m.subscribe socket (msg.get "jobId") := by
      rcases onMessage_some (fun he => hnull (congrArg some he)) m socket with ⟨-, h⟩ | ⟨h, -⟩ | ⟨h, -⟩
      · exact Except.ok.inj (hok.symm.trans h)
      · exact absurd (ht.symm.trans h) (by simp [JsValue.string])
      · exact absurd ht h
    rcases heffect with he | ⟨jobId, hsays, -⟩ | ⟨jobId, hsays, -⟩
    · exact absurd (hm.symm.trans he) (subscribe_ne hl)
    · exact ⟨jobId, (said_once hsays ht).2⟩
    · exact ⟨jobId, (said_once hsays ht).2⟩
  · rintro msg rfl ht hh
    have hm : m' = m.unsubscribe socket (msg.get "jobId") := by
      rcases onMessage_some (fun he => hnull (congrArg some he)) m socket with ⟨h, -⟩ | ⟨-, h⟩ | ⟨-, h, -⟩
      · exact absurd (ht.symm.trans h) (by simp [JsValue.string])
      · exact Except.ok.inj (hok.symm.trans h)
      · exact absurd ht h
    rcases heffect with he | ⟨jobId, hsays, -⟩ | ⟨jobId, hsays, -⟩
    · exact absurd (hm.symm.trans he) (unsubscribe_ne hh)
    · exact ⟨jobId, (said_once hsays ht).2⟩
    · exact ⟨jobId, (said_once hsays ht).2⟩

/-! ## The result -/

/-- The handler takes a message without harm exactly when it is not `null` and no subscription of something other than a string takes
effect. -/
theorem messages_harmless (m : WsManager) (socket : Nat) (raw : Option Json) : Harmless m socket raw ↔ Sound m socket raw :=
  ⟨sound_of_harmless, harmless_of_sound⟩

/-- The text `null` makes the handler throw, and the process ends. -/
theorem message_harmful : ¬∀ (m : WsManager) (socket : Nat) (raw : Option Json), Harmless m socket raw := by
  intro h
  obtain ⟨m', hok, -⟩ := h WsManager.new 0 (some .null)
  cases hok

end FileProcessing
