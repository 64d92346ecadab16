import FileProcessing.Lemmas.SessionCalls

/-!
# The single active session

A session is one stored hash. `refresh` reads it and may clear it in a second statement, `login` and `register` set it and `logout`
clears it, with nothing between the calls that orders them: a clear that was decided before a session began may end that session,
and a write may fall between the start of a `refresh` and its read. Two tokens signed within one second are the same token, so a
reuse of the older is not seen. Where none of this happens, a `refresh` succeeds exactly when the session of its token stands.
-/

namespace FileProcessing

open AuthService

variable {crypto : Crypto} {cfg : AuthServiceConfig} {s s' : Accounts}

/-- No call is in progress. -/
def Accounts.Idle (crypto : Crypto) (cfg : AuthServiceConfig) (s : Accounts) : Prop := ∀ t ∈ s.tasks, t.ended crypto cfg = true

/-- The token has not expired, and the session it was handed out for stands. -/
def TokenValid (crypto : Crypto) (s : Accounts) (token : String) : Prop :=
  ∃ u, subjectOf crypto s.store.now token = some u ∧ SessionStands u token s.log

/-- A `refresh` that starts while no call is in progress succeeds exactly when its token is valid, whatever runs beside it from
then on, and comes to its end; in every run whose steps all meet the condition. -/
def SingleSession (crypto : Crypto) (cfg : AuthServiceConfig) (ok : Accounts → AccountAction → Prop) : Prop :=
  ∀ s, (accounts crypto cfg).Reach ok s → s.Idle crypto cfg → ∀ token s₁, ok s (.call (.refresh token)) →
    (accounts crypto cfg).step s (.call (.refresh token)) = some s₁ → ∀ s', (accounts crypto cfg).Steps ok s₁ s' →
      (∀ success, (s'.tasks[s.tasks.length]?).bind AccountTask.refreshed = some success →
        (success = true ↔ TokenValid crypto s token)) ∧
      ∃ s'', (accounts crypto cfg).Steps (Alone s.tasks.length) s' s'' ∧
        ((s''.tasks[s.tasks.length]?).bind AccountTask.refreshed).isSome

/-- Where a session completes, no call is about to clear the hash of its user, and a `refresh` of the user about to read it
presents the very token, which is stored already. -/
def CompletesAlone (crypto : Crypto) (s : Accounts) (session : Session) : Prop :=
  ∀ t ∈ s.tasks, t.role ≠ .clearing session.user.id ∧
    ∀ token, t.role = .reading token session.user.id →
      token = session.refreshToken ∧ hashOf s.store.users session.user.id = some (hashToken crypto token)

/-- Where call `i` clears the hash of a user, no `refresh` that started before it is about to find its token there. -/
def OvertakesNone (crypto : Crypto) (s : Accounts) (i : Nat) (u : Uuid) : Prop :=
  ∀ (j : Nat) t token, j < i → s.tasks[j]? = some t → t.role = .reading token u →
    hashOf s.store.users u ≠ some (hashToken crypto token)

/-- Sessions complete alone, clears overtake no `refresh`, and no unexpired token is presented that its user was handed out last and
before that as well. -/
def Orderly (crypto : Crypto) (s : Accounts) : AccountAction → Prop
  | .call (.refresh token) =>
    ∀ u, subjectOf crypto s.store.now token = some u → currentToken u s.log = some token → token ∉ olderTokens u s.log
  | .exec i _ => ∀ t, s.tasks[i]? = some t →
    (∀ session, t.role = .completing session → CompletesAlone crypto s session) ∧
      ∀ u, t.role = .clearing u → OvertakesNone crypto s i u
  | _ => True

/-! ## What an orderly run keeps -/

/-- The call is about to clear the hash of the user, or to find that its token is not the current one. -/
def Fells (u : Uuid) (log : List AuthEvent) (t : AccountTask) : Prop :=
  t.role = .clearing u ∨ ∃ token, t.role = .reading token u ∧ currentToken u log ≠ some token

/-- What an orderly run keeps: the session that stands is stored; a call that is to judge a token of a standing session judges the
current one, and one that is to clear a hash clears that of a session that has fallen; a session that has fallen and is stored is
about to be cleared. -/
structure SessionsTracked (crypto : Crypto) (s : Accounts) : Prop where
  stands : ∀ u token, standing u s.log = some token → hashOf s.store.users u = some (hashToken crypto token)
  reading : ∀ t ∈ s.tasks, ∀ token u, t.role = .reading token u → currentToken u s.log = some token ∨ standing u s.log = none
  clearing : ∀ t ∈ s.tasks, ∀ u, t.role = .clearing u → standing u s.log = none
  fallen : ∀ u, hashOf s.store.users u ≠ none → standing u s.log = none → ∃ t ∈ s.tasks, Fells u s.log t

/-- A call that starts and has to do with no session changes nothing that is tracked. -/
theorem tracked_start {t : AccountTask} (hI : SessionsTracked crypto s) (hr : t.role = .other) :
    SessionsTracked crypto { s with tasks := s.tasks ++ [t] } := by
  have old {t' : AccountTask} (ht' : t' ∈ s.tasks ++ [t]) (hne : t'.role ≠ .other) : t' ∈ s.tasks := by
    rcases List.mem_append.1 ht' with h | h
    · exact h
    · rw [List.mem_singleton.1 h] at hne
      exact absurd hr hne
  refine ⟨hI.stands, ?_, ?_, ?_⟩
  · intro t' ht' token u h
    exact hI.reading t' (old ht' (by rw [h]; simp)) token u h
  · intro t' ht' u h
    exact hI.clearing t' (old ht' (by rw [h]; simp)) u h
  · intro u h0 hst
    obtain ⟨t', ht', hf⟩ := hI.fallen u h0 hst
    exact ⟨t', List.mem_append_left _ ht', hf⟩

/-- A call that starts and is logged: the session of each user stands as before, or it falls and the call is to fell it. -/
theorem tracked_called {event : AuthEvent} {t : AccountTask} (hI : SessionsTracked crypto s)
    (hcurrent : ∀ u, currentToken u (event :: s.log) = currentToken u s.log)
    (hstanding : ∀ u, standing u (event :: s.log) = standing u s.log ∨
      standing u (event :: s.log) = none ∧ Fells u (event :: s.log) t)
    (hreading : ∀ token u, t.role = .reading token u → currentToken u s.log = some token ∨ standing u (event :: s.log) = none)
    (hclearing : ∀ u, t.role = .clearing u → standing u (event :: s.log) = none) :
    SessionsTracked crypto { s with tasks := s.tasks ++ [t], log := event :: s.log } := by
  have falls : ∀ u, standing u s.log = none → standing u (event :: s.log) = none := by
    intro u h
    rcases hstanding u with he | ⟨hnone, -⟩
    · rw [he, h]
    · exact hnone
  refine ⟨?_, ?_, ?_, ?_⟩
  · intro u token h
    rcases hstanding u with he | ⟨hnone, -⟩
    · exact hI.stands u token (he.symm.trans h)
    · exact absurd (h.symm.trans hnone) (by simp)
  · intro t' ht token u h
    rw [hcurrent]
    rcases List.mem_append.1 ht with hm | hm
    · exact (hI.reading t' hm token u h).imp id (falls u)
    · rw [List.mem_singleton.1 hm] at h
      exact hreading token u h
  · intro t' ht u h
    rcases List.mem_append.1 ht with hm | hm
    · exact falls u (hI.clearing t' hm u h)
    · rw [List.mem_singleton.1 hm] at h
      exact hclearing u h
  · intro u h0 hst
    rcases hstanding u with he | ⟨-, hfells⟩
    · obtain ⟨t', ht, hf⟩ := hI.fallen u h0 (he.symm.trans hst)
      refine ⟨t', List.mem_append_left _ ht, ?_⟩
      rw [Fells, hcurrent]
      exact hf
    · exact ⟨t, List.mem_append_right _ List.mem_cons_self, hfells⟩

/-- A `logout` that starts fells the session of its user. -/
theorem tracked_logout (hI : SessionsTracked crypto s) (v : Uuid) : SessionsTracked crypto (s.start crypto (.logout v)) := by
  refine tracked_called hI (fun _ => rfl) ?_ ?_ ?_
  · intro u
    by_cases hu : v = u
    · subst hu
      exact Or.inr ⟨standing_loggedOut, Or.inl rfl⟩
    · exact Or.inl (standing_loggedOut_ne hu)
  · intro token u h
    cases h
  · intro u h
    cases h
    exact standing_loggedOut

/-- A `refresh` that starts to read the hash of a user fells the session if its token is an older one. -/
theorem tracked_refresh {token : String} {v : Uuid} (hI : SessionsTracked crypto s) (hissued : .issued v token ∈ s.log)
    (hok : currentToken v s.log = some token → token ∉ olderTokens v s.log) :
    SessionsTracked crypto
      { s with tasks := s.tasks ++ [.refresh token (.findById v)], log := .presented v token :: s.log } := by
  refine tracked_called hI (fun _ => rfl) ?_ ?_ ?_
  · intro u
    by_cases hu : v = u
    · subst hu
      by_cases ho : token ∈ olderTokens v s.log
      · exact Or.inr ⟨standing_older ho, Or.inr ⟨token, rfl, fun hc => hok hc ho⟩⟩
      · exact Or.inl (standing_not_older ho)
    · exact Or.inl (standing_presented_ne hu)
  · intro token' u h
    cases h
    exact (current_or_older hissued).imp id standing_older
  · intro u h
    cases h

/-- A task that another does not replace stays. -/
theorem mem_set_of_ne {tasks : List AccountTask} {i : Nat} {t t' x : AccountTask} (h : tasks[i]? = some t) (hmem : t' ∈ tasks)
    (hne : t' ≠ t) : t' ∈ tasks.set i x := by
  obtain ⟨j, hj⟩ := List.mem_iff_getElem?.1 hmem
  have hij : i ≠ j := by
    rintro rfl
    rw [h] at hj
    exact hne (Option.some.inj hj).symm
  exact List.mem_of_getElem? ((List.getElem?_set_ne hij).trans hj)

/-- The task put in the place of another is there. -/
theorem mem_set_self {tasks : List AccountTask} {i : Nat} {t x : AccountTask} (h : tasks[i]? = some t) : x ∈ tasks.set i x :=
  List.mem_of_getElem? (List.getElem?_set_self (List.getElem?_eq_some_iff.1 h).1)

/-- A call that hands nothing out keeps what is tracked, when it clears no hash of a standing session, sets none, comes to clear
only that of a session that has fallen, and comes to clear the one it was to fell. -/
theorem tracked_quiet {i : Nat} {t x : AccountTask} {store : AccountStore} (hI : SessionsTracked crypto s) (ht : s.tasks[i]? = some t)
    (hstands : ∀ u, standing u s.log ≠ none → hashOf store.users u = hashOf s.store.users u)
    (hset : ∀ u, hashOf store.users u ≠ none → hashOf store.users u = hashOf s.store.users u)
    (hreading : ∀ token u, x.role ≠ .reading token u) (hclearing : ∀ u, x.role = .clearing u → standing u s.log = none)
    (hfells : ∀ u, hashOf store.users u ≠ none → Fells u s.log t → Fells u s.log x) :
    SessionsTracked crypto ⟨store, s.tasks.set i x, s.log⟩ := by
  refine ⟨?_, ?_, ?_, ?_⟩
  · intro u token h
    have hne : standing u s.log ≠ none := by
      rw [show standing u s.log = some token from h]
      simp
    exact (hstands u hne).trans (hI.stands u token h)
  · intro t' ht' token u h
    rcases List.mem_or_eq_of_mem_set ht' with hm | rfl
    · exact hI.reading t' hm token u h
    · exact absurd h (hreading token u)
  · intro t' ht' u h
    rcases List.mem_or_eq_of_mem_set ht' with hm | rfl
    · exact hI.clearing t' hm u h
    · exact hclearing u h
  · intro u h0 hst
    have h0' : hashOf s.store.users u ≠ none := by
      rw [← hset u h0]
      exact h0
    obtain ⟨t', hm, hf⟩ := hI.fallen u h0' hst
    by_cases he : t' = t
    · exact ⟨x, mem_set_self ht, hfells u h0 (he ▸ hf)⟩
    · exact ⟨t', mem_set_of_ne ht hm he, hf⟩

/-- Judging the stored hash: only a token that is not the current one comes to clear it. -/
theorem fells_judged {token : String} {u : Uuid} {x : AccountTask} (hR : SessionsRecorded crypto s)
    (hj : Judged crypto token u (hashOf s.store.users u) x) (h0 : hashOf s.store.users u ≠ none)
    (hc : currentToken u s.log ≠ some token) : x.role = .clearing u := by
  cases hfound : hashOf s.store.users u with
  | none => exact absurd hfound h0
  | some hash =>
    obtain ⟨current, hcur, rfl⟩ := hR.stored u hash hfound
    have hne : hashToken crypto current ≠ hashToken crypto token := by
      intro he
      rw [crypto.sha256_injective he] at hcur
      exact hc hcur
    rw [hfound] at hj
    generalize hh : hashToken crypto current = hash at hj hne
    cases hj with
    | passed => exact absurd rfl hne
    | empty => exact absurd hh (crypto.sha256_ne current)
    | reused => rfl

/-- A `refresh` that comes to clear the hash has found that the session has fallen. -/
theorem fallen_judged {token : String} {u v : Uuid} {x : AccountTask} (hR : SessionsRecorded crypto s)
    (hread : currentToken u s.log = some token ∨ standing u s.log = none)
    (hj : Judged crypto token u (hashOf s.store.users u) x) (hx : x.role = .clearing v) : standing v s.log = none := by
  generalize hfound : hashOf s.store.users u = found at hj
  cases hj with
  | passed | absent | empty => cases hx
  | reused hash hne =>
    cases hx
    obtain ⟨current, hcur, rfl⟩ := hR.stored u hash hfound
    refine hread.resolve_left ?_
    intro hc
    rw [hcur] at hc
    cases hc
    exact hne rfl

/-- A session that completes alone stands, and is stored. -/
theorem tracked_completing {i : Nat} {t x : AccountTask} {session : Session} {store : AccountStore} (hI : SessionsTracked crypto s)
    (ht : s.tasks[i]? = some t) (hr : t.role = .completing session) (hx : x.role = .other)
    (hmade : HasUser s.store.users session.user.id) (halone : CompletesAlone crypto s session)
    (husers : store.users = UserRepository.setRefreshTokenHash s.store.users s.store.now session.user.id
      (some (hashToken crypto session.refreshToken))) :
    SessionsTracked crypto ⟨store, s.tasks.set i x, .issued session.user.id session.refreshToken :: s.log⟩ := by
  have self : hashOf store.users session.user.id = some (hashToken crypto session.refreshToken) := by
    rw [husers]
    exact hashOf_set_self hmade
  have others {u : Uuid} (hu : session.user.id ≠ u) : hashOf store.users u = hashOf s.store.users u := by
    rw [husers]
    exact hashOf_set_ne (Ne.symm hu)
  refine ⟨?_, ?_, ?_, ?_⟩
  · intro u token h
    by_cases hu : session.user.id = u
    · subst hu
      rw [standing_issued] at h
      cases h
      exact self
    · rw [standing_issued_ne hu] at h
      exact (others hu).trans (hI.stands u token h)
  · intro t' ht' token u h
    rcases List.mem_or_eq_of_mem_set ht' with hm | rfl
    · by_cases hu : session.user.id = u
      · subst hu
        obtain ⟨rfl, -⟩ := (halone t' hm).2 token h
        left
        unfold currentToken
        rw [tokensOf_issued, List.head?_cons]
      · unfold currentToken
        rw [tokensOf_issued_ne hu, standing_issued_ne hu]
        exact hI.reading t' hm token u h
    · rw [hx] at h
      cases h
  · intro t' ht' u h
    rcases List.mem_or_eq_of_mem_set ht' with hm | rfl
    · by_cases hu : session.user.id = u
      · subst hu
        exact absurd h (halone t' hm).1
      · rw [standing_issued_ne hu]
        exact hI.clearing t' hm u h
    · rw [hx] at h
      cases h
  · intro u h0 hst
    by_cases hu : session.user.id = u
    · subst hu
      have hsome : standing session.user.id (.issued session.user.id session.refreshToken :: s.log) =
          some session.refreshToken := standing_issued
      exact absurd (hsome.symm.trans hst) (by simp)
    · dsimp only at h0 hst ⊢
      rw [others hu] at h0
      rw [standing_issued_ne hu] at hst
      obtain ⟨t', hm, hf⟩ := hI.fallen u h0 hst
      refine ⟨t', mem_set_of_ne ht hm ?_, ?_⟩
      · rintro rfl
        rcases hf with hf | ⟨token, hf, -⟩ <;> rw [hr] at hf <;> cases hf
      · unfold Fells currentToken at hf ⊢
        rw [tokensOf_issued_ne hu]
        exact hf

/-- How a `refresh` starts: it throws, or it is about to read the hash of the token's user. -/
theorem start_refresh (crypto : Crypto) (now : Time) (token : String) :
    (subjectOf crypto now token = none ∧
      ∃ err, (AccountRequest.refresh token).task crypto now = .refresh token (.threw err) ∧
        (AccountRequest.refresh token).logged crypto now = []) ∨
    ∃ u, subjectOf crypto now token = some u ∧ (AccountRequest.refresh token).task crypto now = .refresh token (.findById u) ∧
      (AccountRequest.refresh token).logged crypto now = [.presented u token] := by
  simp only [AccountRequest.task, AccountRequest.logged, refresh.start, subjectOf]
  cases hv : verifyRefreshToken crypto now token with
  | none => exact Or.inl ⟨rfl, _, rfl, rfl⟩
  | some payload =>
    cases hsub : payload.sub with
    | none =>
      exact Or.inl ⟨by simp [hsub], unauthorized "INVALID_REFRESH_TOKEN" "Refresh token payload is malformed",
        by simp only [hsub], by simp [hsub]⟩
    | some u => exact Or.inr ⟨u, by simp [hsub], by simp only [hsub], by simp [hsub]⟩

/-- The token of a `refresh` that reads the hash of a user was handed out to this user. -/
theorem handedOut_to {token : String} {u : Uuid} (hR : SessionsRecorded crypto s)
    (hp : (AccountRequest.refresh token).Possible crypto s.store.now s.log)
    (hu : subjectOf crypto s.store.now token = some u) : .issued u token ∈ s.log := by
  obtain ⟨payload, hv, hsub⟩ := Option.bind_eq_some_iff.1 hu
  rcases hp with hnone | ⟨v, hmem⟩
  · rw [hv] at hnone
    cases hnone
  obtain ⟨payload', hdec, hsub'⟩ := hR.signed v token hmem
  unfold verifyRefreshToken at hv
  rw [hdec, Option.bind_some] at hv
  split at hv
  · cases hv
  · cases hv
    rw [hsub] at hsub'
    cases hsub'
    exact hmem

/-- A call that clears a hash clears that of a session that has fallen. -/
theorem tracked_clearing {i : Nat} {t : AccountTask} {aw : AccountAwait AccountTask} {ch : AccountChoice} {v : Uuid}
    (hI : SessionsTracked crypto s) (ht : s.tasks[i]? = some t) (hn : t.next crypto cfg s.store.now ch.random = some aw)
    (hr : t.role = .clearing v) : SessionsTracked crypto (s.resume crypto i t aw ch) := by
  obtain ⟨husers, hrole, hlog, -⟩ := exec_clearing hn hr
  have hfallen := hI.clearing t (List.mem_of_getElem? ht) v hr
  unfold Accounts.resume
  rw [hlog]
  refine tracked_quiet hI ht ?_ ?_ ?_ ?_ ?_
  · intro u hst
    rw [husers]
    refine hashOf_set_ne ?_
    rintro rfl
    exact hst hfallen
  · intro u h0
    rw [husers] at h0 ⊢
    refine hashOf_set_ne ?_
    rintro rfl
    exact h0 hashOf_clear
  · intro token u h
    rw [hrole] at h
    cases h
  · intro u h
    rw [hrole] at h
    cases h
  · intro u h0 hf
    rcases hf with hf | ⟨token, hf, -⟩
    · rw [hr] at hf
      cases hf
      rw [husers] at h0
      exact absurd hashOf_clear h0
    · rw [hr] at hf
      cases hf

/-- A `refresh` that reads the hash comes to clear it only where the session has fallen, and does where it fells it. -/
theorem tracked_reading {i : Nat} {t : AccountTask} {aw : AccountAwait AccountTask} {ch : AccountChoice} {token : String} {v : Uuid}
    (hR : SessionsRecorded crypto s) (hI : SessionsTracked crypto s) (ht : s.tasks[i]? = some t)
    (hn : t.next crypto cfg s.store.now ch.random = some aw) (hr : t.role = .reading token v) :
    SessionsTracked crypto (s.resume crypto i t aw ch) := by
  obtain ⟨hstore, hlog, hjudged⟩ := exec_reading hn hr
  unfold Accounts.resume
  rw [hlog, hstore]
  refine tracked_quiet hI ht (fun _ _ => rfl) (fun _ _ => rfl) ?_ ?_ ?_
  · intro token' u h
    exact absurd h (hjudged.role_ne_reading token' u)
  · intro u h
    exact fallen_judged hR (hI.reading t (List.mem_of_getElem? ht) token v hr) hjudged h
  · intro u h0 hf
    rcases hf with hf | ⟨token', hf, hc⟩
    · rw [hr] at hf
      cases hf
    · rw [hr] at hf
      cases hf
      exact Or.inl (fells_judged hR hjudged h0 hc)

/-- Any other call leaves the hashes, and comes neither to read nor to clear one. -/
theorem tracked_other {i : Nat} {t : AccountTask} {aw : AccountAwait AccountTask} {ch : AccountChoice}
    (hR : SessionsRecorded crypto s) (hI : SessionsTracked crypto s) (ht : s.tasks[i]? = some t)
    (hn : t.next crypto cfg s.store.now ch.random = some aw) (hr : t.role = .other) :
    SessionsTracked crypto (s.resume crypto i t aw ch) := by
  obtain ⟨hsame, hlog, hrole⟩ := exec_other hn hr (hR.compares t (List.mem_of_getElem? ht))
  have hnew : (∀ token u, (aw.resume (aw.call.exec crypto ch s.store).1).role ≠ .reading token u) ∧
      ∀ u, (aw.resume (aw.call.exec crypto ch s.store).1).role ≠ .clearing u := by
    rcases hrole with hrole | ⟨session, hrole, -⟩ <;> rw [hrole] <;> simp
  unfold Accounts.resume
  rw [hlog]
  refine tracked_quiet hI ht (fun u _ => hsame u) (fun u _ => hsame u) hnew.1 ?_ ?_
  · intro u h
    exact absurd h (hnew.2 u)
  · intro u _ hf
    rcases hf with hf | ⟨token, hf, -⟩ <;> rw [hr] at hf <;> cases hf

theorem sessionsTracked_step {a : AccountAction} (hR : SessionsRecorded crypto s) (hI : SessionsTracked crypto s) (hok : Orderly crypto s a)
    (hs : (accounts crypto cfg).step s a = some s') : SessionsTracked crypto s' := by
  cases Accounts.moves hs with
  | tick ms => exact ⟨hI.stands, hI.reading, hI.clearing, hI.fallen⟩
  | call r hp =>
    cases r with
    | logout v => exact tracked_logout hI v
    | refresh token =>
      unfold Accounts.start
      rcases start_refresh crypto s.store.now token with ⟨-, err, htask, hlog⟩ | ⟨u, hu, htask, hlog⟩
      · rw [htask, hlog]
        exact tracked_start hI rfl
      · rw [htask, hlog]
        exact tracked_refresh hI (handedOut_to hR hp hu) (hok u hu)
    | register | login | me | changePassword | listKeys | createKey | revokeKey => exact tracked_start hI rfl
  | exec i ch t aw ht hn =>
    cases hr : t.role with
    | completing session =>
      obtain ⟨husers, hrole, hlog⟩ := exec_completing hn hr
      have hmade := hR.made t (List.mem_of_getElem? ht) session hr
      unfold Accounts.resume
      rw [hlog]
      exact tracked_completing hI ht hr hrole hmade.2 ((hok t ht).1 session hr) husers
    | clearing v => exact tracked_clearing hI ht hn hr
    | reading token v => exact tracked_reading hR hI ht hn hr
    | other => exact tracked_other hR hI ht hn hr

theorem sessionsTracked (h : (accounts crypto cfg).Reach (Orderly crypto) s) : SessionsTracked crypto s := by
  refine h.invariant ?_ (fun s a s' hr hI hok hs => sessionsTracked_step (sessionsRecorded hr) hI hok hs)
  rintro s rfl
  refine ⟨?_, by simp [Accounts.empty], by simp [Accounts.empty], fun u h0 => absurd rfl h0⟩
  intro u token hst
  cases hst

/-! ## The judgement of a `refresh` -/

/-- Where a `refresh` stands whose token is valid or not: it will find its token stored exactly when it is valid, or it has been
judged so. -/
inductive Foreseen (crypto : Crypto) (valid : Prop) (token : String) (users : Table User.id) : Refresh → Prop where
  | findById (u : Uuid) (h : hashOf users u = some (hashToken crypto token) ↔ valid) :
    Foreseen crypto valid token users (.findById u)
  | setRefreshTokenHash (u : Uuid) (h : ¬valid) : Foreseen crypto valid token users (.setRefreshTokenHash u)
  | returned (accessToken : String) (h : valid) : Foreseen crypto valid token users (.returned accessToken)
  | threw (err : Err) (h : ¬valid) : Foreseen crypto valid token users (.threw err)

/-- Writes that do not change whether the token is found do not change what is foreseen. -/
theorem Foreseen.mono {valid : Prop} {token : String} {users users' : Table User.id} {p : Refresh}
    (h : Foreseen crypto valid token users p)
    (hsame : ∀ u, p = .findById u →
      (hashOf users' u = some (hashToken crypto token) ↔ hashOf users u = some (hashToken crypto token))) :
    Foreseen crypto valid token users' p := by
  cases h with
  | findById u h => exact .findById u ((hsame u rfl).trans h)
  | setRefreshTokenHash u h => exact .setRefreshTokenHash u h
  | returned accessToken h => exact .returned accessToken h
  | threw err h => exact .threw err h

/-- What is judged by the stored hash is what was foreseen. -/
theorem foreseen_judged {valid : Prop} {token : String} {u : Uuid} {users : Table User.id} {t : AccountTask}
    (hv : hashOf users u = some (hashToken crypto token) ↔ valid) (h : Judged crypto token u (hashOf users u) t) :
    ∃ p, t = .refresh token p ∧ Foreseen crypto valid token users p := by
  generalize hashOf users u = found at hv h
  cases h with
  | passed accessToken => exact ⟨_, rfl, .returned accessToken (hv.1 rfl)⟩
  | absent err => exact ⟨_, rfl, .threw err (fun hvalid => absurd (hv.2 hvalid) (by simp))⟩
  | empty err =>
    refine ⟨_, rfl, .threw err (fun hvalid => ?_)⟩
    exact crypto.sha256_ne token (Option.some.inj (hv.2 hvalid)).symm
  | reused hash hne =>
    refine ⟨_, rfl, .setRefreshTokenHash u (fun hvalid => ?_)⟩
    exact hne (Option.some.inj (hv.2 hvalid))

/-- The `refresh` at place `i`, with all the calls before it ended. -/
def Foretold (crypto : Crypto) (cfg : AuthServiceConfig) (valid : Prop) (token : String) (i : Nat) (s : Accounts) : Prop :=
  (∃ p, s.tasks[i]? = some (.refresh token p) ∧ Foreseen crypto valid token s.store.users p) ∧
    ∀ (j : Nat) t, j < i → s.tasks[j]? = some t → t.ended crypto cfg = true

/-- An orderly step of another call does not change whether a `refresh` about to read the hash finds its token. -/
theorem hash_kept {i k : Nat} {t t' : AccountTask} {aw : AccountAwait AccountTask} {token : String} {u : Uuid} {ch : AccountChoice}
    (hR : SessionsRecorded crypto s) (ht : s.tasks[i]? = some t) (hr : t.role = .reading token u) (hk : s.tasks[k]? = some t')
    (hn : t'.next crypto cfg s.store.now ch.random = some aw) (hik : i < k) (hok : Orderly crypto s (.exec k ch)) :
    hashOf (s.resume crypto k t' aw ch).store.users u = some (hashToken crypto token) ↔
      hashOf s.store.users u = some (hashToken crypto token) := by
  have hmem : t' ∈ s.tasks := List.mem_of_getElem? hk
  unfold Accounts.resume
  cases hr' : t'.role with
  | completing session =>
    obtain ⟨husers, -, -⟩ := exec_completing hn hr'
    dsimp only
    rw [husers]
    by_cases hu : session.user.id = u
    · subst hu
      obtain ⟨rfl, hstored⟩ := (((hok t' hk).1 session hr') t (List.mem_of_getElem? ht)).2 token hr
      rw [hashOf_set_self (hR.made t' hmem session hr').2, hstored]
    · rw [hashOf_set_ne (Ne.symm hu)]
  | clearing v =>
    obtain ⟨husers, -, -, -⟩ := exec_clearing hn hr'
    dsimp only
    rw [husers]
    by_cases hu : u = v
    · subst hu
      have hnot := (hok t' hk).2 u hr' i t token hik ht hr
      rw [hashOf_clear]
      simp [hnot]
    · rw [hashOf_set_ne hu]
  | reading token' v =>
    obtain ⟨hstore, -, -⟩ := exec_reading hn hr'
    rw [hstore]
  | other =>
    obtain ⟨hsame, -, -⟩ := exec_other hn hr' (hR.compares t' hmem)
    rw [hsame]

theorem foretold_step {valid : Prop} {token : String} {i : Nat} {a : AccountAction} (hR : SessionsRecorded crypto s)
    (hI : Foretold crypto cfg valid token i s) (hok : Orderly crypto s a) (hs : (accounts crypto cfg).step s a = some s') :
    Foretold crypto cfg valid token i s' := by
  obtain ⟨⟨p, hp, hf⟩, hbefore⟩ := hI
  have hi : i < s.tasks.length := (List.getElem?_eq_some_iff.1 hp).1
  cases Accounts.moves hs with
  | tick ms => exact ⟨⟨p, hp, hf⟩, hbefore⟩
  | call r =>
    refine ⟨⟨p, (List.getElem?_append_left hi).trans hp, hf⟩, ?_⟩
    intro j t hj ht
    exact hbefore j t hj ((List.getElem?_append_left (by omega)).symm.trans ht)
  | exec k ch t aw ht hn =>
    have hki : i ≤ k := by
      by_contra hlt
      have hnone := next_of_ended (hbefore k t (by omega) ht) s.store.now ch.random
      rw [hn] at hnone
      cases hnone
    refine ⟨?_, ?_⟩
    · by_cases he : k = i
      · subst he
        rw [hp] at ht
        cases ht
        have hself : (s.resume crypto k (.refresh token p) aw ch).tasks[k]? =
            some (aw.resume (aw.call.exec crypto ch s.store).1) := List.getElem?_set_self hi
        cases hf with
        | findById u h =>
          obtain ⟨hstore, -, hjudged⟩ := exec_reading hn rfl
          obtain ⟨p, hx, hfx⟩ := foreseen_judged h hjudged
          refine ⟨p, by rw [hself, hx], ?_⟩
          unfold Accounts.resume
          rw [hstore]
          exact hfx
        | setRefreshTokenHash u h =>
          cases hn
          exact ⟨_, hself, .threw _ h⟩
        | returned | threw => cases hn
      · refine ⟨p, (List.getElem?_set_ne he).trans hp, hf.mono ?_⟩
        rintro u rfl
        exact hash_kept hR hp rfl ht hn (by omega) hok
    · intro j t' hj ht'
      have hne : k ≠ j := by omega
      exact hbefore j t' hj ((List.getElem?_set_ne hne).symm.trans ht')

/-! ## The end of a `refresh` -/

/-- A `refresh` comes to its end by its own steps. -/
theorem refresh_ends {token : String} {p : Refresh} {i : Nat} (cfg : AuthServiceConfig) (hp : s.tasks[i]? = some (.refresh token p)) :
    ∃ s', (accounts crypto cfg).Steps (Alone i) s s' ∧ ((s'.tasks[i]?).bind AccountTask.refreshed).isSome := by
  obtain ⟨ch⟩ : Nonempty AccountChoice := ⟨⟨⟨0⟩, "", 0, []⟩⟩
  have clears {s : Accounts} {u : Uuid} (hp : s.tasks[i]? = some (.refresh token (.setRefreshTokenHash u))) :
      ∃ s', (accounts crypto cfg).Steps (Alone i) s s' ∧ ((s'.tasks[i]?).bind AccountTask.refreshed).isSome := by
    refine ⟨_, .single (.exec i ch) ⟨ch, rfl⟩ (exec_resumes hp rfl), ?_⟩
    rw [resume_self _ ch hp]
    rfl
  cases p with
  | returned | threw => exact ⟨s, .refl, by rw [hp]; rfl⟩
  | setRefreshTokenHash u => exact clears hp
  | findById u =>
    obtain ⟨aw, hn⟩ : ∃ aw, (AccountTask.refresh token (.findById u)).next crypto cfg s.store.now ch.random = some aw := ⟨_, rfl⟩
    have hstep : (accounts crypto cfg).Steps (Alone i) s (s.resume crypto i _ aw ch) :=
      .single (.exec i ch) ⟨ch, rfl⟩ (exec_resumes hp hn)
    obtain ⟨-, -, hjudged⟩ := exec_reading hn rfl
    have hself : (s.resume crypto i _ aw ch).tasks[i]? = some (aw.resume (aw.call.exec crypto ch s.store).1) := resume_self aw ch hp
    generalize aw.resume (aw.call.exec crypto ch s.store).1 = x at hjudged hself
    generalize hashOf s.store.users u = found at hjudged
    cases hjudged with
    | passed | absent | empty => exact ⟨_, hstep, by rw [hself]; rfl⟩
    | reused =>
      obtain ⟨s', hs', hend⟩ := clears hself
      exact ⟨s', hstep.trans hs', hend⟩

/-! ## The single session -/

/-- At rest the hash that is stored is that of the session that stands. -/
theorem stored_iff_valid {token : String} {u : Uuid} (hR : SessionsRecorded crypto s) (hI : SessionsTracked crypto s)
    (hidle : ∀ t ∈ s.tasks, t.ended crypto cfg = true) (hu : subjectOf crypto s.store.now token = some u) :
    hashOf s.store.users u = some (hashToken crypto token) ↔ TokenValid crypto s token := by
  constructor
  · intro hh
    obtain ⟨current, hcur, he⟩ := hR.stored u _ hh
    have hcurrent : current = token := (crypto.sha256_injective he).symm
    cases hst : standing u s.log with
    | some standingToken =>
      have hsame := current_of_standing hst
      rw [hcur, hcurrent] at hsame
      cases hsame
      exact ⟨u, hu, standing_eq_some_iff.1 hst⟩
    | none =>
      obtain ⟨t, ht, hf⟩ := hI.fallen u (by rw [hh]; simp) hst
      have hnone := next_of_ended (hidle t ht) s.store.now 0
      rcases hf with hf | ⟨token', hf, -⟩
      · exact absurd hnone (next_of_role (by rw [hf]; simp) s.store.now 0)
      · exact absurd hnone (next_of_role (by rw [hf]; simp) s.store.now 0)
  · rintro ⟨v, hv, hst⟩
    rw [hu] at hv
    cases hv
    exact hI.stands u token (standing_eq_some_iff.2 hst)

/-- A `refresh` that starts at rest is foretold. -/
theorem foretold_start {token : String} {s₁ : Accounts} (hR : SessionsRecorded crypto s) (hI : SessionsTracked crypto s)
    (hidle : ∀ t ∈ s.tasks, t.ended crypto cfg = true) (hstep : (accounts crypto cfg).step s (.call (.refresh token)) = some s₁) :
    Foretold crypto cfg (TokenValid crypto s token) token s.tasks.length s₁ := by
  cases Accounts.moves hstep with
  | call r hp =>
    refine ⟨?_, ?_⟩
    · have hself : (s.start crypto (.refresh token)).tasks[s.tasks.length]? =
          some ((AccountRequest.refresh token).task crypto s.store.now) := by simp [Accounts.start]
      rcases start_refresh crypto s.store.now token with ⟨hnone, err, htask, -⟩ | ⟨u, hu, htask, -⟩
      · refine ⟨_, hself.trans (congrArg some htask), .threw err ?_⟩
        rintro ⟨v, hv, -⟩
        rw [hnone] at hv
        cases hv
      · exact ⟨_, hself.trans (congrArg some htask), .findById u (stored_iff_valid hR hI hidle hu)⟩
    · intro j t hj ht
      have hold : s.tasks[j]? = some t := (List.getElem?_append_left hj).symm.trans ht
      exact hidle t (List.mem_of_getElem? hold)

/-- In a run whose sessions complete alone, whose clears overtake no `refresh` and in which no unexpired token is presented that was
handed out twice, a `refresh` that starts at rest succeeds exactly when its token has not expired and is that of the last completed
`register` or `login`, with no `logout` and no older token since. -/
theorem single_session (crypto : Crypto) (cfg : AuthServiceConfig) : SingleSession crypto cfg (Orderly crypto) := by
  intro s hr hidle token s₁ hok hstep s' hsteps
  have hr₁ : (accounts crypto cfg).Reach (Orderly crypto) s₁ := hr.step _ hok hstep
  have hfore : Foretold crypto cfg (TokenValid crypto s token) token s.tasks.length s₁ :=
    foretold_start (sessionsRecorded hr) (sessionsTracked hr) hidle hstep
  have hend : Foretold crypto cfg (TokenValid crypto s token) token s.tasks.length s' :=
    hsteps.preserves _ hr₁ hfore (fun s a s' hr hI hok hs => foretold_step (sessionsRecorded hr) hI hok hs)
  obtain ⟨⟨p, hp, hf⟩, -⟩ := hend
  refine ⟨?_, refresh_ends cfg hp⟩
  intro success hsuccess
  rw [hp, Option.bind_some] at hsuccess
  cases hf with
  | findById | setRefreshTokenHash => cases hsuccess
  | returned accessToken h =>
    cases hsuccess
    simpa using h
  | threw err h =>
    cases hsuccess
    simpa using h

/-- A `refresh` presents the token of a first sign-in, finds a later one stored and is about to clear it; the user signs in once
more, and the clear ends the new session: the `refresh` of its token is refused. -/
theorem session_ended : ¬SingleSession Trace.crypto Trace.ttl Lts.Free := by
  intro h
  have hrun : ((accounts Trace.crypto Trace.ttl).run Accounts.empty
      (Trace.signUp ++ [.tick 1000] ++ Trace.signIn 1 ++ [.tick 1000, .call (.refresh (Trace.token 0)), Trace.query 2 0] ++
        Trace.signIn 3 ++ [Trace.query 2 0])).any
      (fun s => s.tasks.all (AccountTask.ended Trace.crypto Trace.ttl) &&
        subjectOf Trace.crypto s.store.now (Trace.token 2) = some (Trace.uuid 1) &&
        standing (Trace.uuid 1) s.log = some (Trace.token 2) &&
        ((accounts Trace.crypto Trace.ttl).step s (.call (.refresh (Trace.token 2)))).any (fun s₁ =>
          ((accounts Trace.crypto Trace.ttl).run s₁ [Trace.query s.tasks.length 0]).any (fun s' =>
            (s'.tasks[s.tasks.length]?).bind AccountTask.refreshed = some false))) = true := by
    decide +kernel
  obtain ⟨s, hr, hp⟩ := Trace.reachAccounts hrun
  simp only [Bool.and_eq_true, decide_eq_true_eq, List.all_eq_true] at hp
  obtain ⟨⟨⟨hidle, hsubject⟩, hstanding⟩, hlast⟩ := hp
  obtain ⟨s₁, hstep, hlast⟩ := (Option.any_eq_true _ _).1 hlast
  obtain ⟨s', hsteps, hrefused⟩ := Lts.steps_of_any hlast
  have hjudged := (h s hr hidle _ s₁ trivial hstep s' hsteps).1 false (by simpa using hrefused)
  have hvalid : TokenValid Trace.crypto s (Trace.token 2) := ⟨Trace.uuid 1, hsubject, standing_eq_some_iff.1 hstanding⟩
  have hfalse : false = true := hjudged.2 hvalid
  cases hfalse

end FileProcessing
