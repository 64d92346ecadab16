import FileProcessing.Lemmas.Steps
import FileProcessing.Ws.Gateway

/-!
# Subscriptions and deliveries

What each operation of `WsManager` makes of the subscriptions, to whom a broadcast goes, and the step of the process inverted.
-/

namespace FileProcessing

namespace WsManager

variable (m : WsManager) (k l : Nat) (j : String)

/-- A socket that is added has subscribed to nothing. -/
theorem subscribed_add (userId : String) : (m.add userId l).subscribed k j = (!decide (k = l) && m.subscribed k j) := by
  by_cases hk : k = l <;> simp [subscribed, add, OrderedMap.get?_set, hk]

/-- A socket that is removed has no subscription. -/
theorem subscribed_remove : (m.remove l).subscribed k j = (!decide (k = l) && m.subscribed k j) := by
  by_cases hk : k = l <;> simp [subscribed, remove, OrderedMap.get?_erase, hk]

/-- A subscription is added to the socket, if it is there. -/
theorem subscribed_subscribe (v : JsValue) : (m.subscribe l v).subscribed k j =
    (m.subscribed k j || (decide (k = l) && (OrderedMap.get? m.subscriptions l).isSome && sameValueZero v (.string j))) := by
  unfold subscribe subscribed
  cases h : OrderedMap.get? m.subscriptions l with
  | none => simp
  | some jobIds =>
    by_cases hk : k = l
    · subst hk
      simp [OrderedMap.get?_set, h]
    · simp [OrderedMap.get?_set, hk]

/-- A subscription is taken from the socket. -/
theorem subscribed_unsubscribe (v : JsValue) : (m.unsubscribe l v).subscribed k j =
    (m.subscribed k j && !(decide (k = l) && sameValueZero v (.string j))) := by
  unfold unsubscribe subscribed
  cases h : OrderedMap.get? m.subscriptions l with
  | none =>
    by_cases hk : k = l
    · subst hk
      simp [h]
    · simp [hk]
  | some jobIds =>
    by_cases hk : k = l
    · subst hk
      simp [OrderedMap.get?_set, h]
    · simp [OrderedMap.get?_set, hk]

/-- A broadcast goes to the open sockets that have subscribed, once to each. -/
theorem mem_broadcast {isOpen : Nat → Bool} :
    k ∈ m.broadcast isOpen j ↔ m.subscribed k j = true ∧ isOpen k = true := by
  unfold broadcast subscribed
  simp only [List.mem_map, List.mem_filter, Bool.and_eq_true, Option.any_eq_true]
  constructor
  · rintro ⟨⟨k₀, jobIds⟩, ⟨hmem, hsub, hopen⟩, rfl⟩
    exact ⟨⟨jobIds, OrderedMap.get?_eq_some_iff.2 hmem, hsub⟩, hopen⟩
  · rintro ⟨⟨jobIds, hget, hsub⟩, hopen⟩
    exact ⟨(k, jobIds), ⟨OrderedMap.get?_eq_some_iff.1 hget, hsub, hopen⟩, rfl⟩

theorem nodup_broadcast (isOpen : Nat → Bool) : (m.broadcast isOpen j).Nodup :=
  m.subscriptions.nodup.sublist (List.filter_sublist.map Prod.fst)

end WsManager

/-- What a connection becomes when an event is sent to a list of sockets. -/
theorem getElem?_foldl_send (d : Delivery) (ks : List Nat) (hks : ks.Nodup) (sockets : List Connection) (k : Nat) :
    (ks.foldl (send d) sockets)[k]? =
      sockets[k]?.map (fun c => if k ∈ ks then { c with sent := c.sent ++ [d] } else c) := by
  induction ks generalizing sockets with
  | nil => simp
  | cons l ks ih =>
    obtain ⟨hl, hks⟩ := List.nodup_cons.1 hks
    rw [List.foldl_cons, ih hks, send, List.getElem?_modify]
    by_cases hk : l = k
    · subst hk
      cases sockets[l]? <;> simp [hl]
    · have hk' : ¬ k = l := fun e => hk e.symm
      cases sockets[k]? <;> simp [hk, hk']

/-! ## The step of the process, inverted -/

/-- The steps of the process. -/
inductive ApiStepped (api : Api) : ApiAction → Api → Prop where
  | refused {token subject : Option String} (h : handshake token subject = none) : ApiStepped api (.connect token subject) api
  | connected {token subject : Option String} {userId : String} (h : handshake token subject = some userId) :
      ApiStepped api (.connect token subject)
        { api with manager := api.manager.add userId api.sockets.length, sockets := api.sockets ++ [⟨userId, .opened, []⟩] }
  | handled {socket : Nat} {raw : Option Json} {manager : WsManager} (hs : socket < api.sockets.length)
      (h : onMessage api.manager socket raw = .ok manager) :
      ApiStepped api (.message socket raw) { api with manager := manager }
  | crashed {socket : Nat} {raw : Option Json} {e : Err} (h : onMessage api.manager socket raw = .error e) :
      ApiStepped api (.message socket raw) { api with crashed := true }
  | closing {socket : Nat} (h : api.isOpen socket = true) :
      ApiStepped api (.closing socket) (api.setReadyState socket .closing)
  | closed {socket : Nat} (hs : socket < api.sockets.length) : ApiStepped api (.close socket)
      { api.setReadyState socket .closed with manager := api.manager.remove socket }
  | ignored {stack : Nat} {channel : String} {message : Option Json} (h : onPmessage stack channel message = .ok none) :
      ApiStepped api (.pmessage stack channel message) api
  | broadcast {stack : Nat} {channel : String} {message : Option Json} {jobId : String} {event : Json}
      (h : onPmessage stack channel message = .ok (some (jobId, event))) :
      ApiStepped api (.pmessage stack channel message) (api.broadcast jobId event)
  | overflowed {stack : Nat} {channel : String} {message : Option Json} {e : Err} (h : onPmessage stack channel message = .error e) :
      ApiStepped api (.pmessage stack channel message) { api with crashed := true }

/-- A step of the process is one of these, and it had not crashed. -/
theorem api_step_cases {api api' : Api} {a : ApiAction} (h : api.step a = some api') :
    api.crashed = false ∧ ApiStepped api a api' := by
  unfold Api.step at h
  split at h
  · cases h
  rename_i hc
  refine ⟨Bool.eq_false_iff.2 hc, ?_⟩
  cases a with
  | connect token subject =>
    dsimp only at h
    split at h <;> cases h
    · exact .refused ‹_›
    · exact .connected ‹_›
  | message socket raw =>
    dsimp only at h
    split at h
    · split at h <;> cases h
      · exact .handled ‹_› ‹_›
      · exact .crashed ‹_›
    · cases h
  | closing socket =>
    dsimp only at h
    split at h <;> cases h
    exact .closing ‹_›
  | close socket =>
    dsimp only at h
    split at h <;> cases h
    exact .closed ‹_›
  | pmessage stack channel message =>
    dsimp only at h
    split at h <;> cases h
    · exact .ignored ‹_›
    · exact .broadcast ‹_›
    · exact .overflowed ‹_›

variable {api api' : Api} {a : ApiAction} {k : Nat} {j : String}

/-- A change of `readyState` keeps the user of a connection and what was sent on it. -/
theorem getElem?_setReadyState {l : Nat} {state : ReadyState} {c' : Connection}
    (h : (api.setReadyState l state).sockets[k]? = some c') :
    ∃ c, api.sockets[k]? = some c ∧ c.userId = c'.userId ∧ c.sent = c'.sent := by
  rw [Api.setReadyState, List.getElem?_modify] at h
  obtain ⟨c, hc, rfl⟩ := Option.map_eq_some_iff.1 h
  refine ⟨c, hc, ?_⟩
  split <;> exact ⟨rfl, rfl⟩

/-- Where a connection comes from: it was there, under the same user, and may have been sent an event of a job it had subscribed to;
or it has just been accepted. -/
theorem connection_back (h : ApiStepped api a api') {c' : Connection} (hc : api'.sockets[k]? = some c') :
    (∃ c, api.sockets[k]? = some c ∧ c.userId = c'.userId ∧ (c'.sent = c.sent ∨
      ∃ jobId event, api.manager.subscribed k jobId = true ∧ api.isOpen k = true ∧ c'.sent = c.sent ++ [⟨jobId, event⟩])) ∨
    (c'.sent = [] ∧ ∀ jobId, api'.manager.subscribed k jobId = false) := by
  cases h with
  | refused | handled | crashed | ignored | overflowed => exact Or.inl ⟨c', hc, rfl, Or.inl rfl⟩
  | connected h =>
    by_cases hk : k < api.sockets.length
    · rw [List.getElem?_append_left hk] at hc
      exact Or.inl ⟨c', hc, rfl, Or.inl rfl⟩
    · have hlt := (List.getElem?_eq_some_iff.1 hc).1
      rw [List.length_append, List.length_singleton] at hlt
      have hk' : k = api.sockets.length := by omega
      subst hk'
      rw [List.getElem?_concat_length] at hc
      cases hc
      refine Or.inr ⟨rfl, fun jobId => ?_⟩
      rw [WsManager.subscribed_add, decide_eq_true rfl]
      rfl
  | closing | closed =>
    obtain ⟨c, hc₀, hu, hs⟩ := getElem?_setReadyState hc
    exact Or.inl ⟨c, hc₀, hu, Or.inl hs.symm⟩
  | broadcast h =>
    rw [Api.broadcast, getElem?_foldl_send _ _ (WsManager.nodup_broadcast _ _ _)] at hc
    obtain ⟨c, hc₀, rfl⟩ := Option.map_eq_some_iff.1 hc
    refine Or.inl ⟨c, hc₀, ?_⟩
    split
    · rename_i hmem
      obtain ⟨hsub, hopen⟩ := (WsManager.mem_broadcast _ _ _).1 hmem
      exact ⟨rfl, Or.inr ⟨_, _, hsub, hopen, rfl⟩⟩
    · exact ⟨rfl, Or.inl rfl⟩

/-- The message asks for a subscription to the job. -/
def Subscribes (msg : Json) (jobId : String) : Prop := msg.get "type" = .string "subscribe" ∧ msg.get "jobId" = .string jobId

/-- What the handler of a message makes of the subscriptions. -/
theorem subscribed_onMessage {m m' : WsManager} {l : Nat} {raw : Option Json} (h : onMessage m l raw = .ok m')
    (hs : m'.subscribed k j = true) : m.subscribed k j = true ∨ k = l ∧ ∃ msg, raw = some msg ∧ Subscribes msg j := by
  unfold onMessage at h
  split at h
  · cases h
    exact Or.inl hs
  · cases h
  · rename_i msg _
    split at h
    · rename_i htype
      cases h
      rw [WsManager.subscribed_subscribe, Bool.or_eq_true, Bool.and_eq_true, Bool.and_eq_true, decide_eq_true_eq] at hs
      rcases hs with hs | ⟨⟨hk, -⟩, hj⟩
      · exact Or.inl hs
      · exact Or.inr ⟨hk, msg, rfl, (sameValueZero_string _ _).1 htype, (sameValueZero_string _ _).1 hj⟩
    · split at h <;> cases h
      · rw [WsManager.subscribed_unsubscribe, Bool.and_eq_true] at hs
        exact Or.inl hs.1
      · exact Or.inl hs

/-- A subscription was there, or the socket has just asked for it. -/
theorem subscribed_back (h : ApiStepped api a api') (hs : api'.manager.subscribed k j = true) :
    api.manager.subscribed k j = true ∨ ∃ msg, a = .message k (some msg) ∧ Subscribes msg j := by
  cases h with
  | refused | crashed | ignored | closing | broadcast | overflowed => exact Or.inl hs
  | connected =>
    rw [WsManager.subscribed_add, Bool.and_eq_true] at hs
    exact Or.inl hs.2
  | handled _ h =>
    rcases subscribed_onMessage h hs with hs | ⟨rfl, msg, rfl, hmsg⟩
    · exact Or.inl hs
    · exact Or.inr ⟨msg, rfl, hmsg⟩
  | closed =>
    rw [WsManager.subscribed_remove, Bool.and_eq_true] at hs
    exact Or.inl hs.2

end FileProcessing
