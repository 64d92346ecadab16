import FileProcessing.Lemmas.Hook
import FileProcessing.Lemmas.Wire

/-!
# What the page will show

The events of a job on their way to the page are those sent on its current socket that it has not read, and then the messages the
Redis subscriber has not handled. `Live.shown` is the status the page shows once it has read them all, and what follows says how a
step changes it.
-/

namespace FileProcessing

variable {cfg : Config} {s s' : Live} {a : LiveAction}

/-! ## What was sent on a socket -/

/-- What the API has sent on a socket. -/
def Api.sentOn (api : Api) (l : Nat) : List Delivery := (api.sockets[l]?.map Connection.sent).getD []

/-- Only a message from Redis sends anything. -/
theorem sentOn_step {api api' : Api} {a : ApiAction} (h : ApiStepped api a api')
    (hno : ∀ stack channel message, a ≠ .pmessage stack channel message) (l : Nat) : api'.sentOn l = api.sentOn l := by
  unfold Api.sentOn
  cases h with
  | refused | handled | crashed | ignored => rfl
  | broadcast | overflowed => exact absurd rfl (hno _ _ _)
  | connected =>
    by_cases hl : l < api.sockets.length
    · rw [List.getElem?_append_left hl]
    · rw [List.getElem?_append_right (by omega), List.getElem?_eq_none (by omega : api.sockets.length ≤ l)]
      cases l - api.sockets.length <;> simp
  | closing | closed =>
    simp only [Api.setReadyState, List.getElem?_modify]
    cases api.sockets[l]? with
    | none => rfl
    | some c =>
      simp only [Option.map_eq_map, Option.map_some]
      split <;> rfl

/-- A broadcast is sent on the open sockets that have subscribed. -/
theorem sentOn_broadcast (api : Api) (jobId : String) (event : Json) (l : Nat) : (api.broadcast jobId event).sentOn l =
    if api.manager.subscribed l jobId = true ∧ api.isOpen l = true then api.sentOn l ++ [⟨jobId, event⟩] else api.sentOn l := by
  unfold Api.sentOn Api.broadcast
  rw [getElem?_foldl_send _ _ (WsManager.nodup_broadcast _ _ _)]
  simp only [WsManager.mem_broadcast]
  cases hl : api.sockets[l]? with
  | none => simp [Api.isOpen, hl]
  | some c => split <;> rfl

/-! ## The events on their way -/

namespace Live

/-- The events sent on a socket that the page has not read. -/
def arriving (s : Live) (k : Nat) : List ServerEvent :=
  match (s.links k).server with
  | none => []
  | some l => ((s.api.sentOn l).drop (s.links k).down).map (fun d => ServerEvent.ofJson d.event)

/-- The events of the job the page has still to read on its current socket. -/
def inbox (s : Live) (jobId : String) : List ServerEvent :=
  match s.hook.current jobId with
  | none => []
  | some k => (s.arriving k).filter (fun e => e.jobId = some jobId)

/-- The events of the job the Redis subscriber has still to handle. -/
def unhandled (s : Live) (jobId : Uuid) : List ServerEvent :=
  ((s.platform.world.published.drop s.handled).filter (fun m => m.jobId = jobId)).map Message.serverEvent

end Live

/-- The status shown after some events. -/
def statusAfter (events : List ServerEvent) (state : JobWsState) : JobStatus :=
  (events.foldl (fun state e => state.handle (.message e)) state).status

/-- The status the page shows once it has read all that is on its way. -/
def Live.shown (s : Live) (jobId : Uuid) : JobStatus := statusAfter (s.inbox jobId.text ++ s.unhandled jobId) s.hook.state

/-- The status shown after an event depends on the status before alone. -/
theorem handle_status {state state' : JobWsState} (h : state.status = state'.status) (e : ServerEvent) :
    (state.handle (.message e)).status = (state'.handle (.message e)).status := by
  simp only [JobWsState.handle]
  split
  · rfl
  · split
    · rfl
    · split
      · rfl
      · exact h

theorem statusAfter_congr {state state' : JobWsState} (h : state.status = state'.status) (events : List ServerEvent) :
    statusAfter events state = statusAfter events state' := by
  induction events generalizing state state' with
  | nil => exact h
  | cons e events ih => exact ih (handle_status h e)

/-- The last message decides the status shown. -/
theorem statusAfter_message (events : List ServerEvent) (m : Message) (state : JobWsState) :
    statusAfter (events ++ [m.serverEvent]) state = m.event.status := by
  unfold statusAfter
  rw [List.foldl_append]
  exact handle_serverEvent m _

/-! ## The step, inverted -/

/-- The action of the hook that a step of the page is. -/
def LiveAction.hook : LiveAction → Option HookAction
  | .render jobId token initial => some (.render jobId token initial)
  | .effect => some .effect
  | .opened k => some (.opened k)
  | .errored k => some (.errored k)
  | .closed k => some (.closed k)
  | _ => none

/-- What the API does with the sockets of the page makes of the links: it accepts a socket, it handles the next message on one, or it
leaves them. -/
inductive Linked (s : Live) : ApiAction → (Nat → Link) → Prop where
  | accepted {k : Nat} {socket : ClientSocket} {subject : Option String} (hk : s.hook.sockets[k]? = some socket)
      (hl : (s.links k).server = none) (h : handshake (some socket.token) subject ≠ none) :
      Linked s (.connect (some socket.token) subject) (s.setLink k ⟨some s.api.sockets.length, 0, 0⟩).links
  | handled {k l : Nat} {socket : ClientSocket} {msg : ClientMessage} (hk : s.hook.sockets[k]? = some socket)
      (hl : (s.links k).server = some l) (hmsg : socket.sent[(s.links k).up]? = some msg) :
      Linked s (.message l (some msg.json)) (s.setLink k { s.links k with up := (s.links k).up + 1 }).links
  | refused {token subject : Option String} (h : handshake token subject = none) : Linked s (.connect token subject) s.links
  | closing (l : Nat) : Linked s (.closing l) s.links
  | closed (l : Nat) : Linked s (.close l) s.links

/-- A link that the API has moved on or not touched, or that it has just made to a socket on which nothing was sent. -/
def Carried (s : Live) (k : Nat) (link : Link) : Prop :=
  (link.server = (s.links k).server ∧ link.down = (s.links k).down) ∨
    ((s.links k).server = none ∧ k < s.hook.sockets.length ∧ ∃ l, link = ⟨some l, 0, 0⟩ ∧ s.api.sentOn l = [])

/-- The system once the page has read an event on a socket. -/
def Live.read (s : Live) (k : Nat) (e : ServerEvent) : Live :=
  { s with hook := s.hook.hear (.message k (some e)) }.setLink k { s.links k with down := (s.links k).down + 1 }

/-- The steps of the system, by the party that takes them. -/
inductive LiveStepped (cfg : Config) (s : Live) : LiveAction → Live → Prop where
  | platform {a : Action} {p : System} (h : (platform cfg).step s.platform a = some p) :
      LiveStepped cfg s (.platform a) { s with platform := p }
  | redis {m : Message} {event : Json} (hm : s.platform.world.published[s.handled]? = some m)
      (he : ServerEvent.ofJson event = m.serverEvent) :
      LiveStepped cfg s .redis { s with api := s.api.broadcast m.jobId.text event, handled := s.handled + 1 }
  | gateway {a : LiveAction} {x : ApiAction} {api : Api} {links : Nat → Link} (h : ApiStepped s.api x api) (hx : Linked s x links) :
      LiveStepped cfg s a { s with api := api, links := links }
  | mount (jobId token : Option String) (initial : InitialState) : LiveStepped cfg s (.mount jobId token initial)
      { s with hook := .mount jobId token initial, links := fun _ => Link.none }
  | hook {a : LiveAction} {ha : HookAction} {hook : Hook} (he : a.hook = some ha) (h : s.hook.step ha = some hook) :
      LiveStepped cfg s a { s with hook := hook }
  | down {k l : Nat} {d : Delivery} (hl : (s.links k).server = some l) (hd : (s.api.sentOn l)[(s.links k).down]? = some d)
      (ho : s.hook.readyState k = some .opened) : LiveStepped cfg s (.down k) (s.read k (ServerEvent.ofJson d.event))

/-- A link that is not touched. -/
theorem carried_same (s : Live) (k : Nat) : Carried s k (s.links k) := Or.inl ⟨rfl, rfl⟩

/-- A Redis message of a job is broadcast. -/
theorem pmessage_broadcast {api api' : Api} {channel jobId : String} {message : Option Json} {event : Json}
    {stack : Nat} (h : api.step (.pmessage stack channel message) = some api')
    (he : onPmessage stack channel message = .ok (some (jobId, event))) : api' = api.broadcast jobId event := by
  cases (api_step_cases h).2 with
  | ignored hno | overflowed hno =>
    rw [he] at hno
    cases hno
  | broadcast hb =>
    rw [he] at hb
    cases hb
    rfl

/-- What the API does with the sockets of the page sends nothing, and carries the links on. -/
theorem Linked.carried {x : ApiAction} {api : Api} {links : Nat → Link} (hx : Linked s x links) (h : ApiStepped s.api x api) :
    (∀ l, api.sentOn l = s.api.sentOn l) ∧ ∀ k, Carried s k (links k) := by
  refine ⟨sentOn_step h (fun _ _ _ he => by subst he; cases hx), fun l => ?_⟩
  cases hx with
  | @accepted k socket subject hk hl =>
    dsimp only [Live.setLink]
    split
    · rename_i hlk
      subst hlk
      refine Or.inr ⟨hl, (List.getElem?_eq_some_iff.1 hk).1, _, rfl, ?_⟩
      simp [Api.sentOn]
    · exact carried_same s l
  | @handled k =>
    dsimp only [Live.setLink]
    split
    · rename_i hlk
      exact Or.inl ⟨by rw [hlk], by rw [hlk]⟩
    · exact carried_same s l
  | _ => exact carried_same s l

/-- A step of the system is one of these. -/
theorem live_step_cases (h : (liveView cfg).step s a = some s') : LiveStepped cfg s a s' := by
  simp only [liveView] at h
  cases a with
  | platform a =>
    obtain ⟨p, hp, rfl⟩ := Option.map_eq_some_iff.1 h
    exact .platform hp
  | redis =>
    simp only [Live.step] at h
    split at h
    · cases h
    rename_i m hm
    obtain ⟨api, ha, rfl⟩ := Option.map_eq_some_iff.1 h
    obtain ⟨event, he, hev⟩ := onPmessage_message m
    rw [pmessage_broadcast ha he]
    exact .redis hm hev
  | accept k subject =>
    simp only [Live.step] at h
    split at h
    · rename_i socket hk hl
      split at h
      · obtain ⟨api, ha, he⟩ := Option.map_eq_some_iff.1 h
        split at he
        · rename_i huser
          subst he
          exact .gateway (api_step_cases ha).2 (.accepted hk hl (by simp [huser]))
        · subst he
          exact .gateway (api_step_cases ha).2 (.refused ‹_›)
      · cases h
    · cases h
  | up k =>
    simp only [Live.step] at h
    split at h
    · rename_i msg l hmsg hl
      obtain ⟨socket, hk, hmsg⟩ := Option.bind_eq_some_iff.1 hmsg
      obtain ⟨api, ha, rfl⟩ := Option.map_eq_some_iff.1 h
      exact .gateway (api_step_cases ha).2 (.handled hk hl hmsg)
    · cases h
  | hangUp k =>
    obtain ⟨l, -, h⟩ := Option.bind_eq_some_iff.1 h
    obtain ⟨api, ha, rfl⟩ := Option.map_eq_some_iff.1 h
    exact .gateway (api_step_cases ha).2 (.closing l)
  | disconnected k =>
    obtain ⟨l, -, h⟩ := Option.bind_eq_some_iff.1 h
    obtain ⟨api, ha, rfl⟩ := Option.map_eq_some_iff.1 h
    exact .gateway (api_step_cases ha).2 (.closed l)
  | mount jobId token initial =>
    cases h
    exact .mount jobId token initial
  | render jobId token initial =>
    simp only [Live.step, Option.map_eq_some_iff] at h
    obtain ⟨hook, hh, rfl⟩ := h
    exact .hook rfl hh
  | effect | errored k | closed k =>
    obtain ⟨hook, hh, rfl⟩ := Option.map_eq_some_iff.1 h
    exact .hook rfl hh
  | opened k =>
    simp only [Live.step] at h
    split at h
    · obtain ⟨hook, hh, rfl⟩ := Option.map_eq_some_iff.1 h
      exact .hook rfl hh
    · cases h
  | down k =>
    simp only [Live.step] at h
    split at h
    · cases h
    rename_i d hd
    split at h
    · rename_i ho
      obtain ⟨hook, hh, rfl⟩ := Option.map_eq_some_iff.1 h
      obtain ⟨l, hl, hd⟩ := Option.bind_eq_some_iff.1 hd
      obtain ⟨c, hc, hd⟩ := Option.bind_eq_some_iff.1 hd
      simp only [Hook.step, ho, true_or, if_true, Option.some.injEq] at hh
      subst hh
      exact .down hl (by rw [Api.sentOn, hc]; exact hd) ho
    · cases h

/-- The platform of the system runs as it does by itself. -/
theorem platform_reach {ok : Live → LiveAction → Prop} (h : (liveView cfg).Reach ok s) :
    (platform cfg).Reach Lts.Free s.platform := by
  refine Lts.Reach.invariant (I := fun s => (platform cfg).Reach Lts.Free s.platform) h ?_ ?_
  · rintro s ⟨_, _, _, rfl⟩
    exact .init rfl
  · intro s a s' _ hI _ hs
    cases live_step_cases hs with
    | platform hp => exact hI.step _ trivial hp
    | _ => exact hI

/-! ## The wires -/

/-- What holds of what is between the parties: no more is handled and read than was published and sent, and only sockets of the page
are linked. -/
structure WiresSound (s : Live) : Prop where
  handled : s.handled ≤ s.platform.world.published.length
  read : ∀ {k l : Nat}, (s.links k).server = some l → (s.links k).down ≤ (s.api.sentOn l).length
  fresh : ∀ {k : Nat}, s.hook.sockets.length ≤ k → (s.links k).server = none
  one : s.hook.OneSocket

/-- A step of the platform publishes or not. -/
theorem published_le {s s' : System} {a : Action} (h : Stepped cfg s a s') :
    s.world.published.length ≤ s'.world.published.length := by
  cases h with
  | @exec i pick ch t aw ht hn =>
    rcases published_apply ch s.world aw.call.effect with hp | ⟨m, -, hp⟩
    · exact Nat.le_of_eq (congrArg List.length hp).symm
    · have hlen := congrArg List.length hp
      rw [List.length_append] at hlen
      exact Nat.le_trans (Nat.le_add_right _ _) (Nat.le_of_eq hlen.symm)
  | _ => exact Nat.le_refl _

/-- A step keeps the wires sound. -/
theorem wiresSound_step (h : LiveStepped cfg s a s') (hI : WiresSound s) : WiresSound s' := by
  cases h with
  | platform hp => exact ⟨Nat.le_trans hI.handled (published_le (step_cases hp)), hI.read, hI.fresh, hI.one⟩
  | @redis m event hm he =>
    refine ⟨(List.getElem?_eq_some_iff.1 hm).1, fun {k l} hl => Nat.le_trans (hI.read hl) ?_, hI.fresh, hI.one⟩
    dsimp only
    rw [sentOn_broadcast]
    split
    · rw [List.length_append]
      exact Nat.le_add_right _ _
    · exact Nat.le_refl _
  | gateway h hx =>
    obtain ⟨hsent, hlinks⟩ := hx.carried h
    refine ⟨hI.handled, fun {k l} hl => ?_, fun {k} hk => ?_, hI.one⟩
    · dsimp only at hl ⊢
      rcases hlinks k with ⟨hs, hd⟩ | ⟨-, -, l', he, -⟩
      · rw [hd, hsent]
        exact hI.read (hs ▸ hl)
      · rw [he]
        exact Nat.zero_le _
    · dsimp only at hk ⊢
      rcases hlinks k with ⟨hs, -⟩ | ⟨-, hlt, -⟩
      · rw [hs]
        exact hI.fresh hk
      · omega
  | mount => exact ⟨hI.handled, fun hl => (nomatch hl), fun _ => rfl, fun hk => (nomatch hk)⟩
  | hook he hh =>
    exact ⟨hI.handled, hI.read, fun hk => hI.fresh (Nat.le_trans (Hook.length_step hh) hk), Hook.oneSocket_step hh hI.one⟩
  | @down k l d hl hd ho =>
    refine ⟨hI.handled, fun {k' l'} hl' => ?_, fun {k'} hk => ?_, hI.one⟩
    · dsimp only [Live.read, Live.setLink] at hl' ⊢
      split
      · rename_i hk
        rw [if_pos hk] at hl'
        rw [hl] at hl'
        cases hl'
        exact (List.getElem?_eq_some_iff.1 hd).1
      · rename_i hk
        rw [if_neg hk] at hl'
        exact hI.read hl'
    · dsimp only [Live.read, Live.setLink] at hk ⊢
      split
      · rename_i hk'
        subst hk'
        exact hI.fresh hk
      · exact hI.fresh hk

/-- In every reachable state. -/
theorem wiresSound {ok : Live → LiveAction → Prop} (h : (liveView cfg).Reach ok s) : WiresSound s := by
  refine h.invariant ?_ (fun s a s' _ hI _ hs => wiresSound_step (live_step_cases hs) hI)
  rintro s ⟨jobId, token, initial, rfl⟩
  exact ⟨Nat.le_refl _, fun hl => (nomatch hl), fun _ => rfl, fun hk => (nomatch hk)⟩

/-! ## What a step makes of what is shown -/

namespace Live

/-- The API hears of the job on the page's current socket. -/
def Listening (s : Live) (jobId : String) : Prop :=
  ∃ k l : Nat, s.hook.current jobId = some k ∧ (s.links k).server = some l ∧ s.api.manager.subscribed l jobId = true ∧
    s.api.isOpen l = true

/-- What was not published is not on its way. -/
theorem shown_platform_same {p : System} (h : p.world.published = s.platform.world.published) (jobId : Uuid) :
    ({ s with platform := p } : Live).shown jobId = s.shown jobId := by
  simp only [shown, unhandled, h]
  rfl

/-- A message of another job changes nothing. -/
theorem shown_platform_other {p : System} {m : Message} (h : p.world.published = s.platform.world.published ++ [m])
    (hw : WiresSound s) {jobId : Uuid} (hne : m.jobId ≠ jobId) : ({ s with platform := p } : Live).shown jobId = s.shown jobId := by
  simp only [shown, unhandled, h, List.drop_append_of_le_length hw.handled, List.filter_append]
  simp [hne]
  rfl

/-- A message that was just published will be the last shown. -/
theorem shown_platform_message {p : System} {m : Message} (h : p.world.published = s.platform.world.published ++ [m])
    (hw : WiresSound s) : ({ s with platform := p } : Live).shown m.jobId = m.event.status := by
  simp only [shown, unhandled, h, List.drop_append_of_le_length hw.handled, List.filter_append]
  simp only [List.filter_cons, decide_true, if_true, List.filter_nil, List.map_append, List.map_cons, List.map_nil, ← List.append_assoc]
  exact statusAfter_message _ _ _

/-- What arrives on a socket on which the API broadcasts a message. -/
theorem arriving_broadcast {m : Message} {event : Json} (he : ServerEvent.ofJson event = m.serverEvent) (hw : WiresSound s) {k l n : Nat}
    (hl : (s.links k).server = some l) :
    ({ s with api := s.api.broadcast m.jobId.text event, handled := n } : Live).arriving k =
      if s.api.manager.subscribed l m.jobId.text = true ∧ s.api.isOpen l = true then s.arriving k ++ [m.serverEvent] else s.arriving k := by
  simp only [arriving, hl, sentOn_broadcast]
  split
  · rw [List.drop_append_of_le_length (hw.read hl), List.map_append, List.map_cons, List.map_nil, he]
  · rfl

/-- The page hears of a message when the API listens for it. -/
theorem inbox_listening {m : Message} {event : Json} (he : ServerEvent.ofJson event = m.serverEvent) (hw : WiresSound s) {n : Nat}
    (hlist : s.Listening m.jobId.text) :
    ({ s with api := s.api.broadcast m.jobId.text event, handled := n } : Live).inbox m.jobId.text =
      s.inbox m.jobId.text ++ [m.serverEvent] := by
  obtain ⟨k, l, hk, hl, hsub, hopen⟩ := hlist
  simp only [inbox, hk]
  rw [arriving_broadcast he hw hl, if_pos ⟨hsub, hopen⟩, List.filter_append]
  simp

/-- The page hears of no message of another job, nor of one the API does not listen for. -/
theorem inbox_deaf {m : Message} {event : Json} (he : ServerEvent.ofJson event = m.serverEvent) (hw : WiresSound s) {n : Nat}
    {jobId : String} (hlist : jobId = m.jobId.text → ¬ s.Listening jobId) :
    ({ s with api := s.api.broadcast m.jobId.text event, handled := n } : Live).inbox jobId = s.inbox jobId := by
  simp only [inbox]
  cases hk : s.hook.current jobId with
  | none => rfl
  | some k =>
    dsimp only
    cases hl : (s.links k).server with
    | none => simp only [arriving, hl]
    | some l =>
      rw [arriving_broadcast he hw hl]
      split
      · rename_i hc
        have hne : jobId ≠ m.jobId.text := fun e => hlist e ⟨k, l, hk, hl, e ▸ hc.1, hc.2⟩
        rw [List.filter_append]
        simp [Ne.symm hne]
      · rfl

/-- What is still to be handled, the next message first. -/
theorem drop_published {m : Message} (hm : s.platform.world.published[s.handled]? = some m) :
    s.platform.world.published.drop s.handled = m :: s.platform.world.published.drop (s.handled + 1) := by
  obtain ⟨hlt, hget⟩ := List.getElem?_eq_some_iff.1 hm
  rw [List.drop_eq_getElem_cons hlt, hget]

/-- A message that Redis hands over changes nothing that will be shown, unless the API does not listen for it: then the page never
hears of it. -/
theorem shown_redis {m : Message} {event : Json} (hm : s.platform.world.published[s.handled]? = some m)
    (he : ServerEvent.ofJson event = m.serverEvent) (hw : WiresSound s) (jobId : Uuid) :
    ({ s with api := s.api.broadcast m.jobId.text event, handled := s.handled + 1 } : Live).shown jobId = s.shown jobId ∨
      m.jobId = jobId ∧ ¬ s.Listening jobId.text ∧
        ({ s with api := s.api.broadcast m.jobId.text event, handled := s.handled + 1 } : Live).shown jobId =
          ({ s with handled := s.handled + 1 } : Live).shown jobId := by
  have hdrop := drop_published hm
  by_cases hid : m.jobId = jobId
  · subst hid
    by_cases hlist : s.Listening m.jobId.text
    · refine Or.inl ?_
      simp only [shown, inbox_listening he hw hlist, unhandled, hdrop]
      simp
    · refine Or.inr ⟨rfl, hlist, ?_⟩
      simp only [shown, inbox_deaf he hw (fun _ => hlist)]
      rfl
  · refine Or.inl ?_
    have htext : jobId.text = m.jobId.text → ¬ s.Listening jobId.text := fun e => absurd (Uuid.text_inj e).symm hid
    simp only [shown, inbox_deaf he hw htext, unhandled, hdrop]
    simp [hid]

/-- What the API does otherwise changes nothing. -/
theorem shown_carried {api : Api} {links : Nat → Link} (hsent : ∀ l, api.sentOn l = s.api.sentOn l) (hlinks : ∀ k, Carried s k (links k))
    (jobId : Uuid) : ({ s with api := api, links := links } : Live).shown jobId = s.shown jobId := by
  have harr (k : Nat) : ({ s with api := api, links := links } : Live).arriving k = s.arriving k := by
    simp only [arriving]
    rcases hlinks k with ⟨hs, hd⟩ | ⟨hno, -, l, he, hnil⟩
    · simp only [hs, hd, hsent]
    · simp [hno, he, hsent, hnil]
  simp only [shown, inbox, harr]
  rfl

/-- A socket that opens changes nothing. -/
theorem shown_opened {k : Nat} (hk : s.hook.readyState k = some .connecting) (jobId : Uuid) :
    ({ s with hook := { s.hook with sockets := s.hook.sockets.modify k Hook.subscribe } } : Live).shown jobId = s.shown jobId := by
  have hcur : ({ s.hook with sockets := s.hook.sockets.modify k Hook.subscribe } : Hook).current jobId.text =
      s.hook.current jobId.text := by
    refine Hook.current_modify (f := Hook.subscribe) (fun socket hs => ⟨rfl, ?_⟩) _
    rw [Hook.readyState, hs] at hk
    simp [ClientSocket.isUp, Hook.subscribe, Option.some.inj hk]
  simp only [shown, inbox, hcur]
  rfl

/-- An effect loses what was on its way on the socket it closes. -/
theorem shown_effect {hook : Hook} (h : s.hook.effect = some hook) (hw : WiresSound s) (jobId : Uuid) :
    ({ s with hook := hook } : Live).shown jobId = statusAfter (s.unhandled jobId) s.hook.state := by
  have hstate : hook.state = s.hook.state := by
    unfold Hook.effect at h
    split at h <;> cases h
    simp
  have hinbox : ({ s with hook := hook } : Live).inbox jobId.text = [] := by
    simp only [inbox]
    cases hk : hook.current jobId.text with
    | none => rfl
    | some k =>
      have hfresh := hw.fresh (Nat.le_of_eq (Hook.current_effect h hk).symm)
      simp [arriving, hfresh]
  simp only [shown, hinbox, hstate, List.nil_append]
  rfl

/-- A socket that ends loses what was on its way on it. -/
theorem shown_ended {k : Nat} {state : JobWsState} (hst : state.status = s.hook.state.status) (jobId : Uuid) :
    ({ s with hook := { s.hook with state := state }.setReadyState k .closed } : Live).shown jobId =
      if s.hook.ws = some k then statusAfter (s.unhandled jobId) s.hook.state else s.shown jobId := by
  have hcur := Hook.current_closed (h := { s.hook with state := state }) (k := k) jobId.text
  by_cases hws : s.hook.ws = some k
  · rw [if_pos hws] at hcur ⊢
    simp only [shown, inbox, hcur]
    exact statusAfter_congr hst _
  · rw [if_neg hws] at hcur ⊢
    simp only [shown, inbox, hcur]
    exact statusAfter_congr hst _

/-- What the page reads of its job changes nothing; an event of another job sets the status that is shown. -/
theorem shown_down {k l : Nat} {d : Delivery} (hl : (s.links k).server = some l) (hd : (s.api.sentOn l)[(s.links k).down]? = some d)
    (ho : s.hook.readyState k = some .opened) (hw : WiresSound s) (jobId : Uuid) :
    ∃ e, e = ServerEvent.ofJson d.event ∧ (s.arriving k).head? = some e ∧ ((s.read k e).shown jobId = s.shown jobId ∨
      ∃ socket, s.hook.sockets[k]? = some socket ∧ e.jobId = some socket.jobId ∧ socket.jobId ≠ jobId.text ∧
        (s.read k e).shown jobId = statusAfter (s.unhandled jobId) (s.hook.state.handle (.message e))) := by
  obtain ⟨socket, hs, hst⟩ := Option.map_eq_some_iff.1 ho
  have hup : socket.isUp = true := by simp [ClientSocket.isUp, hst]
  have hws := hw.one hs hup
  refine ⟨_, rfl, ?_⟩
  generalize he : ServerEvent.ofJson d.event = e
  have harr : s.arriving k = e :: (s.read k e).arriving k := by
    obtain ⟨hlt, hget⟩ := List.getElem?_eq_some_iff.1 hd
    simp only [arriving, read, setLink, hl, if_true]
    rw [List.drop_eq_getElem_cons hlt, hget, List.map_cons, he]
  refine ⟨by rw [harr]; rfl, ?_⟩
  have hcur : (s.read k e).hook.current jobId.text = s.hook.current jobId.text := rfl
  by_cases hj : socket.jobId = jobId.text
  · refine Or.inl ?_
    have hk : s.hook.current jobId.text = some k := Hook.current_eq_some.2 ⟨hws, socket, hs, hj, hup⟩
    simp only [shown, inbox, hcur, hk, harr]
    by_cases hid : e.jobId = some socket.jobId
    · have hheard : (s.read k e).hook.state = s.hook.state.handle (.message e) := by
        simp [read, setLink, Hook.hear, Hook.stateAfter, Hook.heard, hs, hid]
      rw [hheard, List.filter_cons, if_pos (by rw [hid, hj]; exact decide_eq_true rfl)]
      rfl
    · have hheard : (s.read k e).hook.state = s.hook.state := by
        simp [read, setLink, Hook.hear, Hook.stateAfter, Hook.heard, hs, hid]
      rw [hheard, List.filter_cons, if_neg (by rw [← hj]; simpa using hid)]
      rfl
  · have hk : s.hook.current jobId.text = none := by
      rw [Option.eq_none_iff_forall_ne_some]
      intro l' hl'
      obtain ⟨hws', socket', hs', hj', -⟩ := Hook.current_eq_some.1 hl'
      rw [hws] at hws'
      cases hws'
      rw [hs] at hs'
      cases hs'
      exact hj hj'
    by_cases hid : e.jobId = some socket.jobId
    · refine Or.inr ⟨socket, hs, hid, hj, ?_⟩
      have hstate : (s.read k e).hook.state = s.hook.state.handle (.message e) := by
        simp [read, setLink, Hook.hear, Hook.stateAfter, Hook.heard, hs, hid]
      simp only [shown, inbox, hcur, hk, hstate]
      rfl
    · refine Or.inl ?_
      have hstate : (s.read k e).hook.state = s.hook.state := by
        simp [read, setLink, Hook.hear, Hook.stateAfter, Hook.heard, hs, hid]
      simp only [shown, inbox, hcur, hk, hstate]
      rfl

/-- A component that is mounted anew has heard nothing. -/
theorem shown_mount (jobId : Uuid) (j token : Option String) (initial : InitialState) :
    ({ s with hook := .mount j token initial, links := fun _ => Link.none } : Live).shown jobId =
      statusAfter (s.unhandled jobId) (.init initial) := by
  rfl

end Live

end FileProcessing
