import FileProcessing.Lemmas.LiveView

/-!
# The sockets between the page and the API

The API has a socket of its own for each socket of the page, and listens on it for what it has handled of the messages sent on it:
for the job, once it has handled them all while the socket is open. And the status the page shows is the one told by the last event
it has heard.
-/

namespace FileProcessing

variable {cfg : Config} {s s' : Live} {a : LiveAction}

/-! ## The side of the API -/

/-- Every open socket has an entry for its subscriptions. -/
def Api.Entered (api : Api) : Prop :=
  ∀ l : Nat, api.isOpen l = true → (OrderedMap.get? api.manager.subscriptions l).isSome = true

/-- A socket that is open is there. -/
theorem lt_of_isOpen {api : Api} {l : Nat} (h : api.isOpen l = true) : l < api.sockets.length := by
  obtain ⟨c, hc, -⟩ := (Option.any_eq_true _ _).1 h
  exact (List.getElem?_eq_some_iff.1 hc).1

/-- What is broadcast opens and closes no socket. -/
theorem isOpen_broadcast (api : Api) (jobId : String) (event : Json) (l : Nat) : (api.broadcast jobId event).isOpen l = api.isOpen l := by
  simp only [Api.isOpen, Api.broadcast]
  rw [getElem?_foldl_send _ _ (WsManager.nodup_broadcast _ _ _)]
  cases api.sockets[l]? with
  | none => rfl
  | some c =>
    simp only [Option.map_some, Option.any_some]
    split <;> rfl

/-- A broadcast accepts no socket. -/
theorem length_broadcast (api : Api) (jobId : String) (event : Json) :
    (api.broadcast jobId event).sockets.length = api.sockets.length := by
  simp only [Api.broadcast]
  generalize api.manager.broadcast api.isOpen jobId = ks
  generalize api.sockets = sockets
  induction ks generalizing sockets with
  | nil => rfl
  | cons k ks ih =>
    rw [List.foldl_cons, ih, send, List.length_modify]

theorem length_setReadyState (api : Api) (l : Nat) (state : ReadyState) :
    (api.setReadyState l state).sockets.length = api.sockets.length := by
  rw [Api.setReadyState, List.length_modify]

/-- A socket that is set to another state than open is not open, and no other is touched. -/
theorem isOpen_setReadyState {api : Api} {k l : Nat} {state : ReadyState} (hstate : state ≠ .opened)
    (h : (api.setReadyState k state).isOpen l = true) : l ≠ k ∧ api.isOpen l = true := by
  simp only [Api.isOpen, Api.setReadyState, List.getElem?_modify] at h ⊢
  by_cases hk : k = l
  · subst hk
    cases hs : api.sockets[k]? with
    | none => simp [hs] at h
    | some c => simp [hs, hstate] at h
  · exact ⟨Ne.symm hk, by simpa [hk] using h⟩

/-- What the handler of a message makes of the entries: it takes none away. -/
theorem entry_onMessage {m m' : WsManager} {k l : Nat} {raw : Option Json} (h : onMessage m k raw = .ok m')
    (hl : (OrderedMap.get? m.subscriptions l).isSome = true) : (OrderedMap.get? m'.subscriptions l).isSome = true := by
  have hset (jobIds : JobIds) : (OrderedMap.get? (OrderedMap.set m.subscriptions k jobIds) l).isSome = true := by
    rw [OrderedMap.get?_set]
    split
    · rfl
    · exact hl
  unfold onMessage at h
  split at h
  · cases h
    exact hl
  · cases h
  · split at h
    · cases h
      unfold WsManager.subscribe
      split
      · exact hl
      · exact hset _
    · split at h <;> cases h
      · unfold WsManager.unsubscribe
        split
        · exact hl
        · exact hset _
      · exact hl

/-- A step of the API keeps the entries. -/
theorem entered_step {api api' : Api} {x : ApiAction} (h : ApiStepped api x api') (hI : api.Entered) : api'.Entered := by
  intro l ho
  cases h with
  | refused | crashed | ignored | overflowed => exact hI l ho
  | handled _ hm => exact entry_onMessage hm (hI l ho)
  | @connected _ _ userId =>
    simp only [WsManager.add, OrderedMap.get?_set]
    split
    · rfl
    · rename_i hne
      have hlt := lt_of_isOpen ho
      rw [List.length_append, List.length_singleton] at hlt
      have hl : l < api.sockets.length := by omega
      refine hI l ?_
      simpa only [Api.isOpen, List.getElem?_append_left hl] using ho
  | closing => exact hI l (isOpen_setReadyState (by decide) ho).2
  | closed =>
    obtain ⟨hne, ho⟩ := isOpen_setReadyState (by decide) ho
    simp only [WsManager.remove, OrderedMap.get?_erase]
    rw [if_neg hne]
    exact hI l ho
  | broadcast =>
    rw [isOpen_broadcast] at ho
    exact hI l ho

/-- A message on one socket changes the subscriptions of no other. -/
theorem subscribed_onMessage_ne {m m' : WsManager} {k l : Nat} {raw : Option Json} (h : onMessage m k raw = .ok m') (hne : l ≠ k)
    (jobId : String) : m'.subscribed l jobId = m.subscribed l jobId := by
  unfold onMessage at h
  split at h
  · cases h
    rfl
  · cases h
  · split at h
    · cases h
      simp [WsManager.subscribed_subscribe, hne]
    · split at h <;> cases h
      · simp [WsManager.subscribed_unsubscribe, hne]
      · rfl

/-- The handler does not throw on what the page sends. -/
theorem onMessage_client (m : WsManager) (l : Nat) (msg : ClientMessage) : ∃ manager, onMessage m l (some msg.json) = .ok manager := by
  cases msg <;> exact ⟨_, rfl⟩

/-- The handler reads a subscription as the page wrote it. -/
theorem onMessage_subscribe (m : WsManager) (l : Nat) (jobId : String) :
    onMessage m l (some (ClientMessage.subscribe jobId).json) = .ok (m.subscribe l (.string jobId)) := by
  rfl

/-! ## The links -/

@[simp] theorem Live.links_setLink_self (s : Live) (k : Nat) (link : Link) : (s.setLink k link).links k = link := if_pos rfl

theorem Live.links_setLink_of_ne {k l : Nat} {link : Link} (h : l ≠ k) : (s.setLink k link).links l = s.links l := if_neg h

/-- What holds of the sockets of the page and of those the API has for them: each has one of its own, the messages on it are those
of the effect, no more of them are handled than were sent, and while both ends are open the API listens for the job once it has
handled one. -/
structure LinksSound (s : Live) : Prop where
  known : ∀ {k l : Nat}, (s.links k).server = some l → l < s.api.sockets.length
  apart : ∀ {k k' l : Nat}, (s.links k).server = some l → (s.links k').server = some l → k = k'
  scripted : ∀ {k : Nat} {socket}, s.hook.sockets[k]? = some socket → Hook.Scripted socket
  up : ∀ {k l : Nat} {socket}, (s.links k).server = some l → s.hook.sockets[k]? = some socket → (s.links k).up ≤ socket.sent.length
  entered : s.api.Entered
  subscribed : ∀ {k l : Nat} {socket}, (s.links k).server = some l → s.hook.sockets[k]? = some socket → s.api.isOpen l = true →
    socket.readyState = .opened → 0 < (s.links k).up → s.api.manager.subscribed l socket.jobId = true

/-- A socket that is accepted keeps the links sound: it is one the API had not. -/
theorem linksSound_accepted {k : Nat} {userId : String} (hI : LinksSound s)
    (hentered : Api.Entered { s.api with
      manager := s.api.manager.add userId s.api.sockets.length, sockets := s.api.sockets ++ [⟨userId, .opened, []⟩] }) :
    LinksSound (Live.setLink { s with api := { s.api with
      manager := s.api.manager.add userId s.api.sockets.length, sockets := s.api.sockets ++ [⟨userId, .opened, []⟩] } } k
        ⟨some s.api.sockets.length, 0, 0⟩) := by
  have hold {k' l : Nat} (hne : k' ≠ k) (hserver : ((s.setLink k ⟨some s.api.sockets.length, 0, 0⟩).links k').server = some l) :
      (s.links k').server = some l ∧ l < s.api.sockets.length := by
    rw [Live.links_setLink_of_ne hne] at hserver
    exact ⟨hserver, hI.known hserver⟩
  have hnew {l : Nat} (hserver : ((s.setLink k ⟨some s.api.sockets.length, 0, 0⟩).links k).server = some l) :
      l = s.api.sockets.length := by
    rw [Live.links_setLink_self] at hserver
    exact (Option.some.inj hserver).symm
  refine ⟨fun {k' l} hserver => ?_, fun {k' k'' l} hserver hserver' => ?_, hI.scripted, fun {k' l socket'} hserver hs => ?_, hentered,
    fun {k' l socket'} hserver hs ho hopen hup => ?_⟩
  · simp only [Live.setLink, List.length_append, List.length_singleton]
    by_cases hne : k' = k
    · subst hne
      have hlen := hnew hserver
      omega
    · exact Nat.lt_succ_of_lt (hold hne hserver).2
  · by_cases hne : k' = k <;> by_cases hne' : k'' = k
    · exact hne.trans hne'.symm
    · subst hne
      have hlen := hnew hserver
      have hlt := (hold hne' hserver').2
      omega
    · subst hne'
      have hlen := hnew hserver'
      have hlt := (hold hne hserver).2
      omega
    · exact hI.apart (hold hne hserver).1 (hold hne' hserver').1
  · by_cases hne : k' = k
    · subst hne
      rw [Live.links_setLink_self]
      exact Nat.zero_le _
    · rw [Live.links_setLink_of_ne hne]
      exact hI.up (hold hne hserver).1 hs
  · by_cases hne : k' = k
    · subst hne
      rw [Live.links_setLink_self] at hup
      exact absurd hup (Nat.lt_irrefl 0)
    · obtain ⟨hserver, hlt⟩ := hold hne hserver
      rw [Live.links_setLink_of_ne hne] at hup
      simp only [Live.setLink, Api.isOpen, List.getElem?_append_left hlt] at ho ⊢
      rw [WsManager.subscribed_add, hI.subscribed hserver hs ho hopen hup]
      simp [Nat.ne_of_lt hlt]

/-- A message that is handled keeps the links sound: on an open socket it is the subscription to its job. -/
theorem linksSound_handled {k l : Nat} {socket : ClientSocket} {msg : ClientMessage} {manager : WsManager}
    (hk : s.hook.sockets[k]? = some socket) (hl : (s.links k).server = some l) (hmsg : socket.sent[(s.links k).up]? = some msg)
    (hm : onMessage s.api.manager l (some msg.json) = .ok manager) (hI : LinksSound s) :
    LinksSound (Live.setLink { s with api := { s.api with manager := manager } } k { s.links k with up := (s.links k).up + 1 }) := by
  have hserver {k' l' : Nat} (hs : ((s.setLink k { s.links k with up := (s.links k).up + 1 }).links k').server = some l') :
      (s.links k').server = some l' := by
    by_cases hne : k' = k
    · subst hne
      rwa [Live.links_setLink_self] at hs
    · rwa [Live.links_setLink_of_ne hne] at hs
  refine ⟨fun hs => hI.known (hserver hs), fun hs hs' => hI.apart (hserver hs) (hserver hs'), hI.scripted,
    fun {k' l' socket'} hs hk' => ?_, fun l' ho => entry_onMessage hm (hI.entered l' ho), fun {k' l' socket'} hs hk' ho hopen hup => ?_⟩
  · by_cases hne : k' = k
    · subst hne
      have hsame : some socket' = some socket := hk'.symm.trans hk
      cases hsame
      rw [Live.links_setLink_self]
      exact (List.getElem?_eq_some_iff.1 hmsg).1
    · rw [Live.links_setLink_of_ne hne]
      exact hI.up (hserver hs) hk'
  · by_cases hne : k' = k
    · subst hne
      have hsame : some socket' = some socket := hk'.symm.trans hk
      cases hsame
      have hl' := hserver hs
      rw [hl] at hl'
      cases hl'
      rw [(hI.scripted hk).opened hopen] at hmsg
      have hfirst : msg = .subscribe socket.jobId := by
        have hmem := List.mem_of_getElem? hmsg
        exact List.mem_singleton.1 hmem
      subst hfirst
      rw [onMessage_subscribe] at hm
      cases hm
      have hentry := hI.entered l ho
      simp only [Live.setLink]
      rw [WsManager.subscribed_subscribe, hentry]
      simp [sameValueZero_string]
    · rw [Live.links_setLink_of_ne hne] at hup
      have hother : l' ≠ l := fun he => hne (hI.apart (hserver hs) (he ▸ hl))
      simp only [Live.setLink]
      rw [subscribed_onMessage_ne hm hother]
      exact hI.subscribed (hserver hs) hk' ho hopen hup

/-- What the API does with the sockets of the page keeps the links sound. -/
theorem linksSound_gateway {x : ApiAction} {api : Api} {links : Nat → Link} (h : ApiStepped s.api x api) (hx : Linked s x links)
    (hI : LinksSound s) : LinksSound { s with api := api, links := links } := by
  have hentered := entered_step h hI.entered
  cases hx with
  | accepted _ _ huser =>
    cases h with
    | refused hno => exact absurd hno huser
    | connected => exact linksSound_accepted hI hentered
  | handled hk hl hmsg =>
    cases h with
    | handled _ hm => exact linksSound_handled hk hl hmsg hm hI
    | crashed hm =>
      obtain ⟨manager, hok⟩ := onMessage_client s.api.manager _ _
      rw [hok] at hm
      cases hm
  | refused hno =>
    cases h with
    | refused => exact hI
    | connected hsome =>
      rw [hno] at hsome
      cases hsome
  | closing l =>
    cases h with
    | closing =>
    have hlen := length_setReadyState s.api l .closing
    exact ⟨fun hs => hlen ▸ hI.known hs, hI.apart, hI.scripted, hI.up, hentered,
      fun hs hk ho hopen hup => hI.subscribed hs hk (isOpen_setReadyState (by decide) ho).2 hopen hup⟩
  | closed l =>
    cases h with
    | closed =>
    have hlen := length_setReadyState s.api l .closed
    refine ⟨fun hs => hlen ▸ hI.known hs, hI.apart, hI.scripted, hI.up, hentered, fun {k' l' socket} hs hk ho hopen hup => ?_⟩
    obtain ⟨hne, ho⟩ := isOpen_setReadyState (by decide) ho
    dsimp only
    rw [WsManager.subscribed_remove, hI.subscribed hs hk ho hopen hup]
    simp [hne]

/-- A step of the hook keeps the links sound. -/
theorem linksSound_hook {ha : HookAction} {hook : Hook} (hh : s.hook.step ha = some hook) (hw : WiresSound s) (hI : LinksSound s) :
    LinksSound { s with hook := hook } := by
  -- a socket the effect has just opened is not linked
  have back {k l : Nat} {socket' : ClientSocket} (hl : (s.links k).server = some l) (hs : hook.sockets[k]? = some socket') :
      ∃ socket, s.hook.sockets[k]? = some socket ∧ Hook.Moved socket socket' := by
    rcases Hook.socket_back hh hs with hback | ⟨hle, -⟩
    · exact hback
    · rw [hw.fresh hle] at hl
      cases hl
  refine ⟨hI.known, hI.apart, fun {k socket'} hs => ?_, fun {k l socket'} hl hs => ?_, hI.entered,
    fun {k l socket'} hl hs ho hopen hup => ?_⟩
  · rcases Hook.socket_back hh hs with ⟨socket, hsocket, hm⟩ | ⟨-, hc, hnil⟩
    · exact hm.scripted (hI.scripted hsocket)
    · exact ⟨fun _ => hnil, fun ho => by rw [hc] at ho; cases ho⟩
  · obtain ⟨socket, hsocket, hm⟩ := back hl hs
    exact Nat.le_trans (hI.up hl hsocket) hm.length_sent
  · obtain ⟨socket, hsocket, hm⟩ := back hl hs
    rcases hm.opened_back hopen with rfl | hc
    · exact hI.subscribed hl hsocket ho hopen hup
    · have hle := hI.up hl hsocket
      rw [(hI.scripted hsocket).connecting hc] at hle
      exact absurd hup (Nat.not_lt.2 hle)

/-- A step keeps the links sound. -/
theorem linksSound_step (h : LiveStepped cfg s a s') (hw : WiresSound s) (hI : LinksSound s) : LinksSound s' := by
  cases h with
  | platform => exact ⟨hI.known, hI.apart, hI.scripted, hI.up, hI.entered, hI.subscribed⟩
  | @redis m event hm he =>
    have hlen := length_broadcast s.api m.jobId.text event
    refine ⟨fun hl => hlen ▸ hI.known hl, hI.apart, hI.scripted, hI.up, fun l ho => ?_, fun hl hs ho hopen hup => ?_⟩
    · rw [isOpen_broadcast] at ho
      exact hI.entered l ho
    · rw [isOpen_broadcast] at ho
      exact hI.subscribed hl hs ho hopen hup
  | gateway h hx => exact linksSound_gateway h hx hI
  | mount =>
    exact ⟨fun hl => (nomatch hl), fun hl => (nomatch hl), fun hs => (nomatch hs), fun hl => (nomatch hl), hI.entered,
      fun hl => (nomatch hl)⟩
  | hook he hh => exact linksSound_hook hh hw hI
  | @down k l d hl hd ho =>
    have hserver (k' : Nat) : ((s.read k (ServerEvent.ofJson d.event)).links k').server = (s.links k').server ∧
        ((s.read k (ServerEvent.ofJson d.event)).links k').up = (s.links k').up := by
      unfold Live.read
      by_cases hne : k' = k
      · subst hne
        rw [Live.links_setLink_self]
        exact ⟨rfl, rfl⟩
      · rw [Live.links_setLink_of_ne hne]
        exact ⟨rfl, rfl⟩
    refine ⟨fun hl => ?_, fun hl hl' => ?_, hI.scripted, fun hl hs => ?_, hI.entered, fun hl hs ho hopen hup => ?_⟩
    · rw [(hserver _).1] at hl
      exact hI.known hl
    · rw [(hserver _).1] at hl hl'
      exact hI.apart hl hl'
    · rw [(hserver _).1] at hl
      rw [(hserver _).2]
      exact hI.up hl hs
    · rw [(hserver _).1] at hl
      rw [(hserver _).2] at hup
      exact hI.subscribed hl hs ho hopen hup

/-- In every reachable state. -/
theorem linksSound {ok : Live → LiveAction → Prop} (h : (liveView cfg).Reach ok s) : LinksSound s := by
  refine h.invariant ?_ (fun s a s' hr hI _ hs => linksSound_step (live_step_cases hs) (wiresSound hr) hI)
  rintro s ⟨jobId, token, initial, rfl⟩
  exact ⟨fun hl => (nomatch hl), fun hl => (nomatch hl), fun hs => (nomatch hs), fun hl => (nomatch hl), fun _ ho => (nomatch ho),
    fun hl => (nomatch hl)⟩

/-- The page's current socket is one of the job, it is open at both ends, and the API has handled all that was sent on it. -/
def Live.Attached (s : Live) (jobId : String) : Prop :=
  ∃ (k l : Nat) (socket : ClientSocket), s.hook.ws = some k ∧ s.hook.sockets[k]? = some socket ∧ socket.jobId = jobId ∧
    socket.readyState = .opened ∧ (s.links k).server = some l ∧ s.api.isOpen l = true ∧ (s.links k).up = socket.sent.length

/-- The API then listens for the job. -/
theorem listening_of_attached (hI : LinksSound s) {jobId : String} (h : s.Attached jobId) : s.Listening jobId := by
  obtain ⟨k, l, socket, hws, hs, hj, hopen, hl, ho, hup⟩ := h
  have hsent := (hI.scripted hs).opened hopen
  refine ⟨k, l, Hook.current_eq_some.2 ⟨hws, socket, hs, hj, by simp [ClientSocket.isUp, hopen]⟩, hl, ?_, ho⟩
  rw [← hj]
  refine hI.subscribed hl hs ho hopen ?_
  rw [hup, hsent]
  exact Nat.one_pos

/-! ## What the page has heard -/

namespace Live

/-- The events sent on a socket that the page has read. -/
def readOn (s : Live) (k : Nat) : List ServerEvent :=
  match (s.links k).server with
  | none => []
  | some l => ((s.api.sentOn l).take (s.links k).down).map (fun d => ServerEvent.ofJson d.event)

/-- The events the page has heard on a socket: those that name its job. -/
def heardOn (s : Live) (k : Nat) : List ServerEvent :=
  match s.hook.sockets[k]? with
  | none => []
  | some socket => (s.readOn k).filter (fun e => e.jobId = some socket.jobId)

/-- The events the page has heard, on one socket after the other. -/
def heard (s : Live) : List ServerEvent := (List.range s.hook.sockets.length).flatMap s.heardOn

/-- What the page has read when the links have been carried on. -/
theorem readOn_carried {k : Nat} (hsent : ∀ l, s'.api.sentOn l = s.api.sentOn l) (hlink : Carried s k (s'.links k)) :
    s'.readOn k = s.readOn k := by
  unfold readOn
  rcases hlink with ⟨hserver, hdown⟩ | ⟨hserver, -, l, hlink, -⟩
  · simp only [hserver, hdown, hsent]
  · simp [hserver, hlink]

/-- What is broadcast has not been read. -/
theorem readOn_broadcast (hw : WiresSound s) (jobId : String) (event : Json) (n k : Nat) :
    ({ s with api := s.api.broadcast jobId event, handled := n } : Live).readOn k = s.readOn k := by
  unfold readOn
  cases hl : (s.links k).server with
  | none => rfl
  | some l =>
    simp only [sentOn_broadcast]
    split
    · rw [List.take_append_of_le_length (hw.read hl)]
    · rfl

/-- What the page has read once it has read an event on a socket. -/
theorem readOn_read {k l : Nat} {d : Delivery} (hl : (s.links k).server = some l)
    (hd : (s.api.sentOn l)[(s.links k).down]? = some d) (k' : Nat) : (s.read k (ServerEvent.ofJson d.event)).readOn k' =
      s.readOn k' ++ if k' = k then [ServerEvent.ofJson d.event] else [] := by
  simp only [readOn, read, setLink]
  by_cases hk : k' = k
  · subst hk
    simp only [if_true, hl, List.take_add_one, hd, Option.toList_some, List.map_append, List.map_cons, List.map_nil]
  · simp only [if_neg hk, List.append_nil]

/-- What the page has heard is the same where it has read the same on sockets of the same jobs. -/
theorem heard_congr (hlen : s.hook.sockets.length ≤ s'.hook.sockets.length) (hread : ∀ k, s'.readOn k = s.readOn k)
    (hjob : ∀ {k : Nat} {socket'}, s'.hook.sockets[k]? = some socket' →
      s.readOn k = [] ∨ ∃ socket, s.hook.sockets[k]? = some socket ∧ socket'.jobId = socket.jobId) : s'.heard = s.heard := by
  have hold (k : Nat) (hk : k < s.hook.sockets.length) : s'.heardOn k = s.heardOn k := by
    have hs' := List.getElem?_eq_getElem (Nat.lt_of_lt_of_le hk hlen)
    have hs := List.getElem?_eq_getElem hk
    simp only [heardOn, hs, hs', hread]
    rcases hjob hs' with hnil | ⟨socket, hsocket, hid⟩
    · simp [hnil]
    · rw [hs] at hsocket
      cases hsocket
      rw [hid]
  have hnew (k : Nat) (hk : s.hook.sockets.length ≤ k) : s'.heardOn k = [] := by
    unfold heardOn
    split
    · rfl
    · rename_i socket' hs'
      rcases hjob hs' with hnil | ⟨socket, hsocket, -⟩
      · rw [hread, hnil]
        rfl
      · rw [List.getElem?_eq_none hk] at hsocket
        cases hsocket
  obtain ⟨n, hn⟩ := Nat.exists_eq_add_of_le hlen
  unfold heard
  rw [hn, List.range_add, List.flatMap_append, List.flatMap_map]
  have hrest : (List.range n).flatMap (fun k => s'.heardOn (s.hook.sockets.length + k)) = [] :=
    List.flatMap_eq_nil_iff.2 (fun k _ => hnew _ (Nat.le_add_right _ _))
  rw [hrest, List.append_nil]
  exact List.flatMap_congr (fun k hk => hold k (List.mem_range.1 hk))

/-- What the page has heard is the same while its hook is, and what it has read. -/
theorem heard_same {s' : Live} (hhook : s'.hook = s.hook) (hread : ∀ k, s'.readOn k = s.readOn k) : s'.heard = s.heard := by
  refine heard_congr (Nat.le_of_eq (by rw [hhook])) hread (fun {k socket'} hs => Or.inr ⟨socket', ?_, rfl⟩)
  rw [← hhook]
  exact hs

/-- What the page has heard once it has read an event on its last socket. -/
theorem heard_read {k l : Nat} {d : Delivery} (hl : (s.links k).server = some l)
    (hd : (s.api.sentOn l)[(s.links k).down]? = some d) {socket : ClientSocket} (hs : s.hook.sockets[k]? = some socket)
    (hlast : k + 1 = s.hook.sockets.length) : (s.read k (ServerEvent.ofJson d.event)).heard =
      s.heard ++ if (ServerEvent.ofJson d.event).jobId = some socket.jobId then [ServerEvent.ofJson d.event] else [] := by
  have hkept (k' : Nat) (hk : k' < k) : (s.read k (ServerEvent.ofJson d.event)).heardOn k' = s.heardOn k' := by
    simp only [heardOn, readOn_read hl hd, if_neg (Nat.ne_of_lt hk), List.append_nil]
    rfl
  have hread : (s.read k (ServerEvent.ofJson d.event)).heardOn k =
      s.heardOn k ++ if (ServerEvent.ofJson d.event).jobId = some socket.jobId then [ServerEvent.ofJson d.event] else [] := by
    have hs' : (s.read k (ServerEvent.ofJson d.event)).hook.sockets[k]? = some socket := hs
    simp only [heardOn, hs', hs, readOn_read hl hd, if_true, List.filter_append]
    split <;> simp_all
  have hlen : (s.read k (ServerEvent.ofJson d.event)).hook.sockets.length = k + 1 := hlast.symm
  unfold heard
  rw [hlen, ← hlast, List.range_succ, List.flatMap_append, List.flatMap_append, List.flatMap_singleton, List.flatMap_singleton, hread,
    List.append_assoc]
  exact congrArg (· ++ _) (List.flatMap_congr (fun k' hk => hkept k' (List.mem_range.1 hk)))

end Live

/-- The status the page shows was told by what it has heard, or it was shown at the first. -/
structure Remembers (s : Live) : Prop where
  last : s.hook.LastSocket
  told : ∃ state : JobWsState, s.hook.state.status = statusAfter s.heard state

/-- An event that is heard tells the status of the events before it and its own. -/
theorem statusAfter_concat (events : List ServerEvent) (e : ServerEvent) {state state' : JobWsState}
    (h : state'.status = statusAfter events state) : (state'.handle (.message e)).status = statusAfter (events ++ [e]) state := by
  unfold statusAfter at h ⊢
  rw [List.foldl_append]
  exact handle_status h e

/-- A render, an effect and an event of a socket other than a message keep the status. -/
theorem hook_status {ha : HookAction} {hook : Hook} (he : a.hook = some ha) (hh : s.hook.step ha = some hook) :
    hook.state.status = s.hook.state.status := by
  rcases Hook.step_state hh with ⟨_, _, _, -, -, hsame⟩ | ⟨-, -, hsame⟩
  · rw [hsame]
  · rw [hsame]
    cases a with
    | errored k =>
      cases he
      simp only [Hook.stateAfter, Hook.heard]
      cases s.hook.sockets[k]? <;> rfl
    | render | effect | opened | closed =>
      cases he
      rfl
    | _ => cases he

/-- A step keeps it. -/
theorem remembers_step (h : LiveStepped cfg s a s') (hw : WiresSound s) (hI : Remembers s) : Remembers s' := by
  obtain ⟨hlast, state, hstate⟩ := hI
  cases h with
  | platform => exact ⟨hlast, state, hstate⟩
  | @redis m event =>
    have hheard : ({ s with api := s.api.broadcast m.jobId.text event, handled := s.handled + 1 } : Live).heard = s.heard :=
      Live.heard_same rfl (Live.readOn_broadcast hw _ _ _)
    exact ⟨hlast, state, hheard ▸ hstate⟩
  | @gateway a x api links h hx =>
    obtain ⟨hsent, hlinks⟩ := hx.carried h
    have hheard : ({ s with api := api, links := links } : Live).heard = s.heard :=
      Live.heard_same rfl (fun k => Live.readOn_carried hsent (hlinks k))
    exact ⟨hlast, state, hheard ▸ hstate⟩
  | mount jobId token initial => exact ⟨fun hk => (nomatch hk), .init initial, rfl⟩
  | @hook a ha hook he hh =>
    refine ⟨Hook.lastSocket_step hh hlast, state, ?_⟩
    have hheard : ({ s with hook := hook } : Live).heard = s.heard := by
      refine Live.heard_congr (Hook.length_step hh) (fun k => rfl) (fun {k socket'} hs => ?_)
      rcases Hook.socket_back hh hs with ⟨socket, hsocket, hm⟩ | ⟨hle, -⟩
      · exact Or.inr ⟨socket, hsocket, hm.jobId⟩
      · refine Or.inl ?_
        simp only [Live.readOn, hw.fresh hle]
    rw [hheard, ← hstate]
    exact hook_status he hh
  | @down k l d hl hd ho =>
    obtain ⟨socket, hs, hopen⟩ := Option.map_eq_some_iff.1 ho
    have hws := hw.one hs (by simp [ClientSocket.isUp, hopen])
    refine ⟨hlast, state, ?_⟩
    rw [Live.heard_read hl hd hs (hlast hws)]
    by_cases hid : (ServerEvent.ofJson d.event).jobId = some socket.jobId
    · simp only [Live.read, Live.setLink, Hook.hear, Hook.stateAfter, Hook.heard, hs, if_pos hid]
      exact statusAfter_concat _ _ hstate
    · simp only [Live.read, Live.setLink, Hook.hear, Hook.stateAfter, Hook.heard, hs, if_neg hid, List.append_nil]
      exact hstate

/-- In every reachable state. -/
theorem remembers {ok : Live → LiveAction → Prop} (h : (liveView cfg).Reach ok s) : Remembers s := by
  refine h.invariant ?_ (fun s a s' hr hI _ hs => remembers_step (live_step_cases hs) (wiresSound hr) hI)
  rintro s ⟨jobId, token, initial, rfl⟩
  exact ⟨fun hk => (nomatch hk), .init initial, rfl⟩

/-! ## What the events on their way tell -/

/-- The last of the events is that of a message of the worker, which tells the status. -/
def Tells (events : List ServerEvent) (status : JobStatus) : Prop :=
  ∃ m : Message, events.getLast? = some m.serverEvent ∧ m.event.status = status

/-- A page that has heard the events shows the status that the last tells. -/
theorem statusAfter_tells {events : List ServerEvent} {status : JobStatus} (h : Tells events status) (state : JobWsState) :
    statusAfter events state = status := by
  obtain ⟨m, hlast, rfl⟩ := h
  obtain ⟨before, rfl⟩ := List.getLast?_eq_some_iff.1 hlast
  exact statusAfter_message before m state

namespace Live

/-- Every message still to be handled tells a status, and so the last does. -/
theorem unhandled_tells {jobId : Uuid} (h : s.unhandled jobId ≠ []) : ∃ status, Tells (s.unhandled jobId) status := by
  unfold unhandled at h ⊢
  rcases List.eq_nil_or_concat ((s.platform.world.published.drop s.handled).filter (fun m => m.jobId = jobId)) with
    hnil | ⟨before, m, hconcat⟩
  · rw [hnil] at h
    exact absurd rfl h
  · refine ⟨m.event.status, m, ?_, rfl⟩
    rw [hconcat]
    simp

/-- What is still to be handled decides what is shown. -/
theorem statusAfter_unhandled {jobId : Uuid} (h : s.unhandled jobId ≠ []) (state : JobWsState) :
    statusAfter (s.unhandled jobId) state = s.shown jobId := by
  obtain ⟨status, m, hlast, hm⟩ := unhandled_tells h
  have hshown : Tells (s.inbox jobId.text ++ s.unhandled jobId) status := by
    refine ⟨m, ?_, hm⟩
    rw [List.getLast?_append, hlast]
    rfl
  rw [statusAfter_tells ⟨m, hlast, hm⟩]
  exact (statusAfter_tells hshown _).symm

/-- What the page has heard, and what it has still to read on its socket, tells what it shows once it has read it. -/
theorem statusAfter_inbox (hI : Remembers s) {jobId : String} {status : JobStatus} (h : Tells (s.heard ++ s.inbox jobId) status) :
    statusAfter (s.inbox jobId) s.hook.state = status := by
  obtain ⟨state, hstate⟩ := hI.told
  have hall := statusAfter_tells h state
  unfold statusAfter at hall
  rw [List.foldl_append] at hall
  exact (statusAfter_congr hstate _).trans hall

/-- Losing what is on its way on the current socket changes nothing where a message is still to be handled, nothing is on its way
there, or what is repeats what the page has heard. -/
theorem shown_lost (hI : Remembers s) {jobId : Uuid} (h : s.unhandled jobId ≠ [] ∨ s.inbox jobId.text = [] ∨
    ∃ status, Tells (s.heard ++ s.inbox jobId.text) status ∧ Tells s.heard status) :
    statusAfter (s.unhandled jobId) s.hook.state = s.shown jobId := by
  by_cases hnil : s.unhandled jobId = []
  · rcases h with hne | hempty | ⟨status, hall, hheard⟩
    · exact absurd hnil hne
    · simp only [shown, hempty, List.nil_append]
    · obtain ⟨state, hstate⟩ := hI.told
      have hnow : s.hook.state.status = status := hstate.trans (statusAfter_tells hheard state)
      simp only [shown, hnil, List.append_nil]
      exact hnow.trans (statusAfter_inbox hI hall).symm
  · exact statusAfter_unhandled hnil _

/-- Missing a message changes nothing where another is still to be handled, or where it repeats what the page will have heard. -/
theorem shown_missed (hI : Remembers s) {m : Message} (hm : s.platform.world.published[s.handled]? = some m)
    (h : ({ s with handled := s.handled + 1 } : Live).unhandled m.jobId ≠ [] ∨ Tells (s.heard ++ s.inbox m.jobId.text) m.event.status) :
    ({ s with handled := s.handled + 1 } : Live).shown m.jobId = s.shown m.jobId := by
  have hcons : s.unhandled m.jobId = m.serverEvent :: ({ s with handled := s.handled + 1 } : Live).unhandled m.jobId := by
    simp [unhandled, drop_published hm]
  by_cases hnil : ({ s with handled := s.handled + 1 } : Live).unhandled m.jobId = []
  · rcases h with hne | htells
    · exact absurd hnil hne
    · have hbefore : s.shown m.jobId = m.event.status := by
        simp only [shown, hcons, hnil]
        exact statusAfter_message _ m _
      rw [hbefore]
      simp only [shown, hnil, List.append_nil]
      exact statusAfter_inbox hI htells
  · have hne : s.unhandled m.jobId ≠ [] := by simp [hcons]
    calc ({ s with handled := s.handled + 1 } : Live).shown m.jobId
        = statusAfter (({ s with handled := s.handled + 1 } : Live).unhandled m.jobId) (s.hook.state.handle (.message m.serverEvent)) :=
          (statusAfter_unhandled hnil _).symm
      _ = statusAfter (s.unhandled m.jobId) s.hook.state := by rw [hcons]; rfl
      _ = s.shown m.jobId := statusAfter_unhandled hne _

end Live

end FileProcessing
