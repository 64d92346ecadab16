import FileProcessing.Web.AuthClient

/-!
# Signed out means signed out

The store's token is written when a shared refresh settles, whenever that is: after `handleLogout` has cleared the store, or once
another user has signed in. The two writes that can go wrong are named by `TimelyWrites`; a run keeps the session sound exactly when
each of them comes in time.
-/

namespace FileProcessing

open AuthService Client

variable {cookie : Option Uuid} {s s' : Client}

/-- Signed out, there is no access token; and an access token is that of the user in the store. -/
structure SessionSound (s : Client) : Prop where
  signedOut : s.signedOut = true → s.store.accessToken = none
  owner : ∀ token user, s.store.accessToken = some token → s.store.user = some user → token.sub = user.id

/-- A shared refresh that succeeds settles before a sign-out, and is for the user in the store, if there is one; the timer of a
registration runs out before a sign-out. -/
def TimelyWrites (s : Client) : ClientAction → Prop
  | .refreshed (some token) => s.signedOut = false ∧ ∀ user, s.store.user = some user → user.id = token.sub
  | .fire _ => s.signedOut = false
  | _ => True

/-- In every run of the page: the session is sound in every state of the run exactly when every step met the condition. -/
def SoundExactly (cookie : Option Uuid) (ok : Client → ClientAction → Prop) : Prop :=
  ∀ s past, (webClient cookie).withPast.Reach (Lts.onSteps Lts.Free) (s, past) →
    ((SessionSound s ∧ ∀ step ∈ past, SessionSound step.1) ↔ ∀ step ∈ past, ok step.1 step.2)

/-- The session is sound in every state a run reaches. -/
def SignedOutStays (cookie : Option Uuid) : Prop := ∀ s, (webClient cookie).Reach Lts.Free s → SessionSound s

/-! ## What every run keeps -/

/-- What is known of a request, with the cookie the browser holds and whether `bootstrap` has ended: a timer is one of `register`
and its token is that of its user, and `bootstrap` refreshes with the cookie and asks for the profile of its user. -/
def RequestFits (cookie : Option Uuid) (booted : Bool) (r : ClientRequest) : Prop :=
  match r.caller, r.state with
  | .register, .timer token user => token.sub = user.id
  | _, .timer _ _ => False
  | .bootRefresh, .sent _ _ c => c = cookie ∧ booted = false
  | .bootRefresh, .waiting => False
  | .bootMe token, .sent _ authorization _ =>
    authorization.map AccessToken.sub = some token.sub ∧ cookie = some token.sub ∧ booted = false
  | .bootMe token, .waiting => cookie = some token.sub ∧ booted = false
  | _, _ => True

/-- What every run keeps: requests fit; `bootstrap` makes the first request alone, and while it runs there is no user, no sign-out
and no other cookie; a shared refresh is waited for. -/
structure Loaded (s : Client) : Prop where
  requests : ∀ r ∈ s.requests, RequestFits s.cookie s.booted r
  bootAt : ∀ (i : Nat) r, s.requests[i]? = some r → r.caller.boot = true → i = 0
  booting : s.booted = false → s.store.user = none ∧ s.signedOut = false ∧ ∀ r ∈ s.requests, r.caller.boot = true
  bootCookie : s.booted = false → ∀ c, s.refreshPromise = some c → c = s.cookie
  shared : s.refreshPromise ≠ none → s.requests.any waits = true

/-- A settled request fits. -/
theorem fits_settled (c : Option Uuid) (b : Bool) (caller : Caller) : RequestFits c b ⟨caller, .settled⟩ := by
  cases caller <;> trivial

/-- A request of the pages fits whatever the cookie. -/
theorem RequestFits.frame {c c' : Option Uuid} {b b' : Bool} {r : ClientRequest} (h : RequestFits c b r)
    (hb : r.caller.boot = false) : RequestFits c' b' r := by
  obtain ⟨caller, state⟩ := r
  unfold RequestFits at h ⊢
  cases caller <;> cases state <;> first | exact h | cases hb

/-- Once `bootstrap` has ended its requests fit whatever the cookie. -/
theorem RequestFits.booted {c c' : Option Uuid} {b : Bool} {r : ClientRequest} (h : RequestFits c true r) : RequestFits c' b r := by
  by_cases hb : r.caller.boot = false
  · exact h.frame hb
  obtain ⟨caller, state⟩ := r
  unfold RequestFits at h ⊢
  cases caller with
  | page | login | register | logout => exact absurd rfl hb
  | bootRefresh =>
    cases state with
    | sent => exact absurd h.2 (by simp)
    | waiting => exact h.elim
    | timer | settled => exact h
  | bootMe token =>
    cases state with
    | sent => exact absurd h.2.2 (by simp)
    | waiting => exact absurd h.2 (by simp)
    | timer | settled => exact h

/-- A request in the pool that `bootstrap` did not send: `bootstrap` has ended. -/
theorem Loaded.booted_of {r : ClientRequest} (h : Loaded s) (hr : r ∈ s.requests) (hb : r.caller.boot = false) : s.booted = true := by
  cases hbooted : s.booted with
  | true => rfl
  | false =>
    have hall := (h.booting hbooted).2.2 r hr
    rw [hb] at hall
    cases hall

/-- While `bootstrap` runs it has sent every other request too: there is none. -/
theorem Loaded.others {i j : Nat} {r r' : ClientRequest} (h : Loaded s) (hi : s.requests[i]? = some r) (hb : r.caller.boot = true)
    (hj : s.requests[j]? = some r') (hne : i ≠ j) : r'.caller.boot = false := by
  cases hb' : r'.caller.boot with
  | false => rfl
  | true =>
    have h1 := h.bootAt i r hi hb
    have h2 := h.bootAt j r' hj hb'
    omega

/-- A request that waits still does once another has moved. -/
theorem waits_set {requests : List ClientRequest} {i : Nat} {r : ClientRequest} (new : ClientRequest) (hr : requests[i]? = some r)
    (hw : waits r = false) (h : requests.any waits = true) : (requests.set i new).any waits = true := by
  obtain ⟨r', hr', hw'⟩ := List.any_eq_true.1 h
  obtain ⟨j, hj⟩ := List.mem_iff_getElem?.1 hr'
  have hij : i ≠ j := by
    rintro rfl
    rw [hr] at hj
    cases hj
    rw [hw] at hw'
    cases hw'
  exact List.any_eq_true.2 ⟨r', List.mem_of_getElem? ((List.getElem?_set_ne hij).trans hj), hw'⟩

/-- The request put in the place of another waits. -/
theorem waits_new {requests : List ClientRequest} {i : Nat} {r new : ClientRequest} (hr : requests[i]? = some r)
    (hw : waits new = true) : (requests.set i new).any waits = true := by
  have hi := (List.getElem?_eq_some_iff.1 hr).1
  exact List.any_eq_true.2 ⟨new, List.mem_of_getElem? (List.getElem?_set_self hi), hw⟩

/-- What stands at a place once another request has been put at one: that request, or what stood there. -/
theorem set_cases {requests : List ClientRequest} {i j : Nat} {r r' new : ClientRequest} (hr : requests[i]? = some r)
    (hj : (requests.set i new)[j]? = some r') : (i = j ∧ r' = new) ∨ (i ≠ j ∧ requests[j]? = some r') := by
  by_cases hij : i = j
  · subst hij
    rw [List.getElem?_set_self (List.getElem?_eq_some_iff.1 hr).1] at hj
    exact Or.inl ⟨rfl, (Option.some.inj hj).symm⟩
  · rw [List.getElem?_set_ne hij] at hj
    exact Or.inr ⟨hij, hj⟩

/-- `bootstrap` still makes the first request alone: one of its requests has moved, or one of the pages. -/
theorem Loaded.bootAt_set {i : Nat} {r new : ClientRequest} (h : Loaded s) (hr : s.requests[i]? = some r)
    (hnew : new.caller.boot = true → r.caller.boot = true) (j : Nat) (r' : ClientRequest)
    (hj : (s.requests.set i new)[j]? = some r') (hb : r'.caller.boot = true) : j = 0 := by
  rcases set_cases hr hj with ⟨rfl, rfl⟩ | ⟨-, hj⟩
  · exact h.bootAt i r hr (hnew hb)
  · exact h.bootAt j r' hj hb

/-- A request of the pages moves: `bootstrap` has ended, and the cookie may change. -/
theorem loaded_page {i : Nat} {r new : ClientRequest} (hI : Loaded s) (hr : s.requests[i]? = some r)
    (hrequests : s'.requests = s.requests.set i new) (hb : r.caller.boot = false) (hw : waits r = false)
    (hnew : new.caller.boot = false) (hfits : RequestFits none true new) (hbooted : s'.booted = s.booted)
    (hshared : s'.refreshPromise = s.refreshPromise ∨ waits new = true) : Loaded s' := by
  have htrue : s.booted = true := hI.booted_of (List.mem_of_getElem? hr) hb
  refine ⟨?_, ?_, ?_, ?_, ?_⟩
  · intro r' hr'
    rw [hrequests] at hr'
    rcases List.mem_or_eq_of_mem_set hr' with hm | rfl
    · have hfit := hI.requests r' hm
      rw [htrue] at hfit
      exact hfit.booted
    · exact hfits.frame hnew
  · rw [hrequests]
    exact hI.bootAt_set hr (fun hb' => absurd (hnew.symm.trans hb') (by decide))
  · intro hfalse
    rw [hbooted, htrue] at hfalse
    cases hfalse
  · intro hfalse
    rw [hbooted, htrue] at hfalse
    cases hfalse
  · intro hne
    rw [hrequests]
    rcases hshared with he | hwaits
    · rw [he] at hne
      exact waits_set new hr hw (hI.shared hne)
    · exact waits_new hr hwaits

/-- A request of `bootstrap` moves and `bootstrap` goes on. -/
theorem loaded_boot {i : Nat} {r new : ClientRequest} (hI : Loaded s) (hr : s.requests[i]? = some r)
    (hrequests : s'.requests = s.requests.set i new) (hb : r.caller.boot = true) (hw : waits r = false) (hfalse : s.booted = false)
    (hnew : new.caller.boot = true) (hfits : RequestFits s.cookie false new) (hbooted : s'.booted = s.booted)
    (hcookie : s'.cookie = s.cookie)
    (huser : s'.store.user = s.store.user) (hsigned : s'.signedOut = s.signedOut)
    (hshared : s'.refreshPromise = s.refreshPromise ∨
      (waits new = true ∧ s'.refreshPromise = some (s.refreshPromise.getD s.cookie))) : Loaded s' := by
  obtain ⟨hnone, hout, hall⟩ := hI.booting hfalse
  refine ⟨?_, ?_, ?_, ?_, ?_⟩
  · intro r' hr'
    rw [hrequests] at hr'
    rw [hcookie, hbooted]
    rcases List.mem_or_eq_of_mem_set hr' with hm | rfl
    · exact hI.requests r' hm
    · rw [hfalse]
      exact hfits
  · rw [hrequests]
    exact hI.bootAt_set hr (fun _ => hb)
  · intro _
    refine ⟨by rw [huser, hnone], by rw [hsigned, hout], ?_⟩
    intro r' hr'
    rw [hrequests] at hr'
    rcases List.mem_or_eq_of_mem_set hr' with hm | rfl
    · exact hall r' hm
    · exact hnew
  · intro _ c hc
    rw [hcookie]
    rcases hshared with he | ⟨-, he⟩
    · exact hI.bootCookie hfalse c (he ▸ hc)
    · rw [he] at hc
      cases hp : s.refreshPromise with
      | none =>
        rw [hp] at hc
        exact (Option.some.inj hc).symm
      | some c' =>
        rw [hp] at hc
        cases hc
        exact hI.bootCookie hfalse c' hp
  · intro hne
    rw [hrequests]
    rcases hshared with he | ⟨hwaits, -⟩
    · rw [he] at hne
      exact waits_set new hr hw (hI.shared hne)
    · exact waits_new hr hwaits

/-- The request of `bootstrap` settles and `bootstrap` ends. -/
theorem loaded_end {i : Nat} {r : ClientRequest} {caller : Caller} (hI : Loaded s) (hr : s.requests[i]? = some r)
    (hb : r.caller.boot = true) (hw : waits r = false)
    (hrequests : s'.requests = s.requests.set i ⟨caller, .settled⟩) (hbooted : s'.booted = true)
    (hshared : s'.refreshPromise = s.refreshPromise) : Loaded s' := by
  refine ⟨?_, ?_, ?_, ?_, ?_⟩
  · intro r' hr'
    obtain ⟨j, hj⟩ := List.mem_iff_getElem?.1 hr'
    rw [hrequests] at hj
    rcases set_cases hr hj with ⟨-, rfl⟩ | ⟨hij, hj⟩
    · exact fits_settled _ _ _
    · exact (hI.requests r' (List.mem_of_getElem? hj)).frame (hI.others hr hb hj hij)
  · rw [hrequests]
    exact hI.bootAt_set hr (fun _ => hb)
  · intro hfalse
    rw [hbooted] at hfalse
    cases hfalse
  · intro hfalse
    rw [hbooted] at hfalse
    cases hfalse
  · intro hne
    rw [hrequests]
    rw [hshared] at hne
    exact waits_set _ hr hw (hI.shared hne)

/-- What stands at a place after every request has been looked at: a request with the caller it had. -/
theorem getElem?_mapped {requests : List ClientRequest} {f : ClientRequest → RequestState} {i : Nat} {r : ClientRequest}
    (h : (requests.map (fun r => if waits r then { r with state := f r } else r))[i]? = some r) :
    ∃ r₀, requests[i]? = some r₀ ∧ r.caller = r₀.caller := by
  rw [List.getElem?_map] at h
  obtain ⟨r₀, h0, rfl⟩ := Option.map_eq_some_iff.1 h
  refine ⟨r₀, h0, ?_⟩
  split <;> rfl

/-- The shared refresh settles with a token for the user of its cookie. -/
theorem loaded_refreshed {token : AccessToken} {c : Option Uuid} (hI : Loaded s) (hp : s.refreshPromise = some c)
    (hc : c = some token.sub) : Loaded (s.refreshed (some token)) := by
  refine ⟨?_, ?_, ?_, ?_, ?_⟩
  · intro r hr
    obtain ⟨r₀, hr₀, rfl⟩ := List.mem_map.1 hr
    have hfit := hI.requests r₀ hr₀
    simp only [refreshed]
    by_cases hw : waits r₀ = true
    · rw [if_pos hw]
      obtain ⟨caller, state⟩ := r₀
      obtain rfl : state = .waiting := by simpa [waits] using hw
      cases caller with
      | page | login | register | logout => trivial
      | bootRefresh => exact hfit.elim
      | bootMe token₀ =>
        obtain ⟨hcookie, hfalse⟩ := hfit
        have hsame := hI.bootCookie hfalse c hp
        refine ⟨?_, hcookie, hfalse⟩
        rw [Option.map_some, ← hc, hsame, hcookie]
    · rw [if_neg hw]
      exact hfit
  · intro i r hr hb
    obtain ⟨r₀, h0, hcaller⟩ := getElem?_mapped hr
    exact hI.bootAt i r₀ h0 (hcaller ▸ hb)
  · intro hfalse
    obtain ⟨hnone, hout, hall⟩ := hI.booting hfalse
    refine ⟨?_, hout, ?_⟩
    · simp only [refreshed]
      split <;> exact hnone
    · intro r hr
      obtain ⟨r₀, hr₀, rfl⟩ := List.mem_map.1 hr
      have hboot := hall r₀ hr₀
      split <;> exact hboot
  · intro _ c' hc'
    cases hc'
  · intro hne
    exact absurd rfl hne

/-- When the shared refresh settles without a token, `bootstrap` had ended before or one of its requests waited for it. -/
theorem booted_gaveUp (h : (s.refreshed none).booted = true) :
    s.booted = true ∨ ∃ (i : Nat) (r : ClientRequest), s.requests[i]? = some r ∧ waits r = true ∧ r.caller.boot = true := by
  simp only [refreshed, Bool.or_eq_true, List.any_eq_true, Bool.and_eq_true] at h
  rcases h with h | ⟨r, hr, hw, hb⟩
  · exact Or.inl h
  · obtain ⟨i, hi⟩ := List.mem_iff_getElem?.1 hr
    exact Or.inr ⟨i, r, hi, hw, hb⟩

/-- Where a request of `bootstrap` does not wait, `bootstrap` has not ended with the shared refresh. -/
theorem Loaded.booted_same {r : ClientRequest} (h : Loaded s) (hr : r ∈ s.requests) (hb : r.caller.boot = true)
    (hw : waits r = false) : (s.refreshed none).booted = s.booted := by
  cases hnew : (s.refreshed none).booted with
  | false =>
    simp only [refreshed, Bool.or_eq_false_iff] at hnew
    exact hnew.1.symm
  | true =>
    rcases booted_gaveUp hnew with hold | ⟨i, r', hi, hw', hb'⟩
    · exact hold.symm
    · obtain ⟨j, hj⟩ := List.mem_iff_getElem?.1 hr
      have h1 := h.bootAt i r' hi hb'
      have h2 := h.bootAt j r hj hb
      rw [h1] at hi
      rw [h2, hi] at hj
      cases hj
      rw [hw] at hw'
      cases hw'

/-- The shared refresh settles without a token. -/
theorem loaded_gaveUp (hI : Loaded s) : Loaded (s.refreshed none) := by
  refine ⟨?_, ?_, ?_, ?_, ?_⟩
  · intro r hr
    obtain ⟨r₀, hr₀, rfl⟩ := List.mem_map.1 hr
    have hfit := hI.requests r₀ hr₀
    by_cases hw : waits r₀ = true
    · rw [if_pos hw]
      exact fits_settled _ _ _
    · rw [if_neg hw]
      show RequestFits s.cookie (s.refreshed none).booted r₀
      cases hb : r₀.caller.boot with
      | false => exact hfit.frame hb
      | true =>
        rw [hI.booted_same hr₀ hb (Bool.eq_false_iff.2 hw)]
        exact hfit
  · intro i r hr hb
    obtain ⟨r₀, h0, hcaller⟩ := getElem?_mapped hr
    exact hI.bootAt i r₀ h0 (hcaller ▸ hb)
  · intro hfalse
    simp only [refreshed, Bool.or_eq_false_iff] at hfalse
    obtain ⟨hnone, hout, hall⟩ := hI.booting hfalse.1
    refine ⟨?_, ?_, ?_⟩
    · simp only [refreshed]
      split
      · rfl
      · exact hnone
    · simp only [refreshed, Bool.or_eq_false_iff, hout, true_and]
      rw [List.any_eq_false]
      intro r hr hlogout
      simp only [Bool.and_eq_true, decide_eq_true_eq] at hlogout
      have hboot := hall r hr
      rw [hlogout.2] at hboot
      cases hboot
    · intro r hr
      obtain ⟨r₀, hr₀, rfl⟩ := List.mem_map.1 hr
      have hboot := hall r₀ hr₀
      split <;> exact hboot
  · intro _ c' hc'
    cases hc'
  · intro hne
    exact absurd rfl hne

/-- A page sends a request. -/
theorem loaded_sent {caller : Caller} (hI : Loaded s) (hbooted : s.booted = true) (hboot : caller.boot = false) :
    Loaded { s with requests := s.requests ++ [⟨caller, .sent false s.store.accessToken s.cookie⟩] } := by
  refine ⟨?_, ?_, ?_, ?_, ?_⟩
  · intro r hr
    rcases List.mem_append.1 hr with hm | hm
    · exact hI.requests r hm
    · rw [List.mem_singleton.1 hm]
      cases caller <;> trivial
  · intro i r hr hb
    by_cases hi : i < s.requests.length
    · exact hI.bootAt i r ((List.getElem?_append_left hi).symm.trans hr) hb
    · have hm := List.mem_of_getElem? ((List.getElem?_append_right (by omega)).symm.trans hr)
      rw [List.mem_singleton.1 hm, hboot] at hb
      cases hb
  · intro hfalse
    rw [hbooted] at hfalse
    cases hfalse
  · intro hfalse
    rw [hbooted] at hfalse
    cases hfalse
  · intro hne
    rw [List.any_append, hI.shared hne, Bool.true_or]

/-- A request that was under way is rejected. -/
theorem loaded_reject {i : Nat} {caller : Caller} {retry : Bool} {authorization : Option AccessToken} {c : Option Uuid} (hI : Loaded s)
    (hr : s.requests[i]? = some ⟨caller, .sent retry authorization c⟩) : Loaded (s.reject i caller) := by
  cases caller with
  | page | login | register | logout => exact loaded_page hI hr rfl rfl rfl rfl trivial rfl (Or.inl rfl)
  | bootRefresh | bootMe => exact loaded_end hI hr rfl rfl rfl rfl rfl

/-! ## The steps -/

/-- The steps there are. -/
inductive ClientMoves (s : Client) : ClientAction → Client → Prop where
  | send (caller : Caller) (booted : s.booted = true) (hboot : caller.boot = false) :
    ClientMoves s (.send caller)
      { s with requests := s.requests ++ [⟨caller, .sent false s.store.accessToken s.cookie⟩] }
  | ok (i : Nat) (caller : Caller) (retry : Bool) (authorization : Option AccessToken) (cookie : Option Uuid) (body : ResponseBody)
    (hr : s.requests[i]? = some ⟨caller, .sent retry authorization cookie⟩)
    (answers : Answers authorization cookie caller (.ok body)) :
    ClientMoves s (.response i (.ok body)) (s.resolve i caller body)
  | unauthorized (i : Nat) (caller : Caller) (retry : Bool) (authorization : Option AccessToken) (cookie : Option Uuid)
    (hr : s.requests[i]? = some ⟨caller, .sent retry authorization cookie⟩) :
    ClientMoves s (.response i .unauthorized) (s.unauthorized i caller retry)
  | failed (i : Nat) (caller : Caller) (retry : Bool) (authorization : Option AccessToken) (cookie : Option Uuid)
    (hr : s.requests[i]? = some ⟨caller, .sent retry authorization cookie⟩) :
    ClientMoves s (.response i .failed) (s.reject i caller)
  | refreshed (token : AccessToken) (hp : s.refreshPromise = some (some token.sub)) :
    ClientMoves s (.refreshed (some token)) (s.refreshed (some token))
  | gaveUp (c : Option Uuid) (hp : s.refreshPromise = some c) : ClientMoves s (.refreshed none) (s.refreshed none)
  | fire (i : Nat) (caller : Caller) (token : AccessToken) (user : PublicUser)
    (hr : s.requests[i]? = some ⟨caller, .timer token user⟩) :
    ClientMoves s (.fire i) { s.put i caller .settled with store := s.store.setAuth token user }

/-- Every step is one of them. -/
theorem clientMoves {a : ClientAction} (h : (webClient cookie).step s a = some s') : ClientMoves s a s' := by
  simp only [webClient, Client.step] at h
  cases a with
  | send caller =>
    dsimp only at h
    split at h
    · rename_i hc
      cases h
      exact .send caller hc.1 hc.2
    · cases h
  | response i response =>
    dsimp only at h
    split at h
    · rename_i caller retry authorization c hr
      split at h
      · rename_i hanswers
        cases response with
        | ok body =>
          cases h
          exact .ok i caller retry authorization c body hr hanswers
        | unauthorized =>
          cases h
          exact .unauthorized i caller retry authorization c hr
        | failed =>
          cases h
          exact .failed i caller retry authorization c hr
      · cases h
    · cases h
  | refreshed result =>
    dsimp only at h
    split at h
    · cases h
    · rename_i c hp
      cases result with
      | none =>
        cases h
        exact .gaveUp c hp
      | some token =>
        dsimp only at h
        split at h
        · rename_i hc
          cases h
          exact .refreshed token (hc ▸ hp)
        · cases h
  | fire i =>
    dsimp only at h
    split at h
    · rename_i caller token user hr
      cases h
      exact .fire i caller token user hr
    · cases h

theorem loaded_step {a : ClientAction} (hI : Loaded s) (hs : (webClient cookie).step s a = some s') : Loaded s' := by
  cases clientMoves hs with
  | send caller hbooted hboot => exact loaded_sent hI hbooted hboot
  | ok i caller retry authorization c body hr hanswers =>
    have hfit := hI.requests _ (List.mem_of_getElem? hr)
    cases caller with
    | page => exact loaded_page hI hr rfl rfl rfl rfl trivial rfl (Or.inl rfl)
    | login =>
      obtain ⟨token, user, rfl, -⟩ := hanswers
      exact loaded_page hI hr rfl rfl rfl rfl trivial rfl (Or.inl rfl)
    | register =>
      obtain ⟨token, user, rfl, howner⟩ := hanswers
      exact loaded_page hI hr rfl rfl rfl rfl howner rfl (Or.inl rfl)
    | logout => exact loaded_page hI hr rfl rfl rfl rfl trivial rfl (Or.inl rfl)
    | bootRefresh =>
      obtain ⟨token, rfl, hc⟩ := hanswers
      obtain ⟨rfl, hfalse⟩ := hfit
      exact loaded_boot hI hr rfl rfl rfl hfalse rfl ⟨rfl, hc, rfl⟩ rfl rfl rfl rfl (Or.inl rfl)
    | bootMe token =>
      obtain ⟨user, rfl, -⟩ := hanswers
      exact loaded_end hI hr rfl rfl rfl rfl rfl
  | unauthorized i caller retry authorization c hr =>
    have hfit := hI.requests _ (List.mem_of_getElem? hr)
    unfold Client.unauthorized
    split
    · rename_i hwait
      cases caller with
      | page | login | register | logout => exact loaded_page hI hr rfl rfl rfl rfl trivial rfl (Or.inr rfl)
      | bootRefresh => exact absurd rfl hwait.2
      | bootMe token =>
        obtain ⟨-, hcookie, hfalse⟩ := hfit
        exact loaded_boot hI hr rfl rfl rfl hfalse rfl ⟨hcookie, rfl⟩ rfl rfl rfl rfl (Or.inr ⟨rfl, rfl⟩)
    · exact loaded_reject hI hr
  | failed i caller retry authorization c hr => exact loaded_reject hI hr
  | refreshed token hp => exact loaded_refreshed hI hp rfl
  | gaveUp c hp => exact loaded_gaveUp hI
  | fire i caller token user hr =>
    have hfit := hI.requests _ (List.mem_of_getElem? hr)
    cases caller with
    | register => exact loaded_page hI hr rfl rfl rfl rfl trivial rfl (Or.inl rfl)
    | page | login | logout | bootRefresh | bootMe => exact hfit.elim

theorem loaded (h : (webClient cookie).Reach Lts.Free s) : Loaded s := by
  refine h.invariant ?_ (fun s a s' _ hI _ hs => loaded_step hI hs)
  rintro s rfl
  refine ⟨?_, ?_, ?_, ?_, ?_⟩
  · intro r hr
    rw [List.mem_singleton.1 hr]
    exact ⟨rfl, rfl⟩
  · intro i r hr _
    have hi := (List.getElem?_eq_some_iff.1 hr).1
    simp only [Client.load, List.length_singleton] at hi
    omega
  · intro _
    refine ⟨rfl, rfl, ?_⟩
    intro r hr
    rw [List.mem_singleton.1 hr]
    rfl
  · intro _ c hc
    cases hc
  · intro hne
    exact absurd rfl hne

/-! ## Sound sessions -/

/-- A step that leaves the store and the sign-out alone keeps the session sound. -/
theorem sound_same (hS : SessionSound s) (hstore : s'.store = s.store) (hout : s'.signedOut = s.signedOut) : SessionSound s' := by
  refine ⟨?_, ?_⟩
  · rw [hstore, hout]
    exact hS.signedOut
  · rw [hstore]
    exact hS.owner

/-- With the store cleared the session is sound. -/
theorem sound_cleared (hstore : s'.store = s.store.clearAuth) : SessionSound s' := by
  refine ⟨?_, ?_⟩
  · rw [hstore]
    exact fun _ => rfl
  · rw [hstore]
    intro token user h
    cases h

/-- With the token of a user in the store, and no sign-out since, the session is sound. -/
theorem sound_setAuth {token : AccessToken} {user : PublicUser} (hstore : s'.store = s.store.setAuth token user)
    (howner : token.sub = user.id) (hout : s'.signedOut = false) : SessionSound s' := by
  refine ⟨?_, ?_⟩
  · rw [hout]
    intro h
    cases h
  · rw [hstore]
    intro token' user' ht hu
    cases ht
    cases hu
    exact howner

theorem sound_reject {i : Nat} (hS : SessionSound s) (caller : Caller) : SessionSound (s.reject i caller) := by
  cases caller with
  | page | login | register => exact sound_same hS rfl rfl
  | logout => exact sound_cleared (s := s) rfl
  | bootRefresh | bootMe => exact sound_same hS rfl rfl

/-- The store is sound after a response that succeeds. -/
theorem sound_resolve {i : Nat} {caller : Caller} {retry : Bool} {authorization : Option AccessToken} {c : Option Uuid}
    {body : ResponseBody} (hI : Loaded s) (hS : SessionSound s)
    (hr : s.requests[i]? = some ⟨caller, .sent retry authorization c⟩) (hanswers : Answers authorization c caller (.ok body)) :
    SessionSound (s.resolve i caller body) := by
  have hfit := hI.requests _ (List.mem_of_getElem? hr)
  cases caller with
  | page => exact sound_same hS rfl rfl
  | login =>
    obtain ⟨token, user, rfl, howner⟩ := hanswers
    exact sound_setAuth (s := s) rfl howner rfl
  | register =>
    obtain ⟨token, user, rfl, -⟩ := hanswers
    refine ⟨?_, hS.owner⟩
    intro h
    cases h
  | logout => exact sound_cleared (s := s) rfl
  | bootRefresh =>
    obtain ⟨token, rfl, -⟩ := hanswers
    obtain ⟨-, hfalse⟩ := hfit
    obtain ⟨hnone, hout, -⟩ := hI.booting hfalse
    refine ⟨?_, ?_⟩
    · intro h
      exact absurd (hout.symm.trans h) (by simp)
    · intro token' user _ hu
      exact absurd (hnone.symm.trans hu) (by simp)
  | bootMe token =>
    obtain ⟨user, rfl, hauth⟩ := hanswers
    obtain ⟨hsub, -, hfalse⟩ := hfit
    rw [hsub] at hauth
    exact sound_setAuth (s := s) rfl (Option.some.inj hauth) (hI.booting hfalse).2.1

/-- A shared refresh that succeeds keeps the session sound exactly when it settles before a sign-out and for the user in the
store. -/
theorem sound_refreshed {token : AccessToken} {c : Option Uuid} (hI : Loaded s) (hp : s.refreshPromise = some c) :
    SessionSound (s.refreshed (some token)) ↔ TimelyWrites s (.refreshed (some token)) := by
  have hany := hI.shared (by rw [hp]; simp)
  have hstore : (s.refreshed (some token)).store = s.store.setAccessToken (some token) := by
    simp only [refreshed]
    rw [if_pos hany]
  constructor
  · intro h
    refine ⟨?_, ?_⟩
    · cases hout : s.signedOut with
      | false => rfl
      | true =>
        have hnone := h.signedOut hout
        rw [hstore] at hnone
        cases hnone
    · intro user hu
      refine (h.owner token user ?_ ?_).symm <;> rw [hstore]
      · rfl
      · exact hu
  · rintro ⟨hout, howner⟩
    refine ⟨?_, ?_⟩
    · intro h
      exact absurd (hout.symm.trans h) (by simp)
    · intro token' user ht hu
      rw [hstore] at ht hu
      cases ht
      exact (howner user hu).symm

/-- The timer of a registration keeps the session sound exactly when it runs out before a sign-out. -/
theorem sound_fire {i : Nat} {caller : Caller} {token : AccessToken} {user : PublicUser} (howner : token.sub = user.id) :
    SessionSound { s.put i caller .settled with store := s.store.setAuth token user } ↔ s.signedOut = false := by
  constructor
  · intro h
    cases hout : s.signedOut with
    | false => rfl
    | true =>
      have hnone := h.signedOut hout
      cases hnone
  · intro hout
    exact sound_setAuth (s := s) rfl howner hout

/-- A step keeps the session sound exactly when it meets the condition. -/
theorem sound_step {a : ClientAction} (hI : Loaded s) (hS : SessionSound s) (hs : (webClient cookie).step s a = some s') :
    SessionSound s' ↔ TimelyWrites s a := by
  cases clientMoves hs with
  | send => exact iff_of_true (sound_same hS rfl rfl) trivial
  | ok i caller retry authorization c body hr hanswers => exact iff_of_true (sound_resolve hI hS hr hanswers) trivial
  | unauthorized i caller retry authorization c hr =>
    refine iff_of_true ?_ trivial
    unfold Client.unauthorized
    split
    · exact sound_same hS rfl rfl
    · exact sound_reject hS caller
  | failed i caller retry authorization c hr => exact iff_of_true (sound_reject hS caller) trivial
  | refreshed token hp => exact sound_refreshed hI hp
  | gaveUp c hp =>
    have hany := hI.shared (by rw [hp]; simp)
    refine iff_of_true (sound_cleared (s := s) ?_) trivial
    simp only [refreshed]
    rw [if_pos hany]
  | fire i caller token user hr =>
    have hfit := hI.requests _ (List.mem_of_getElem? hr)
    have howner : token.sub = user.id := by
      cases caller with
      | register => exact hfit
      | page | login | logout | bootRefresh | bootMe => exact hfit.elim
    exact sound_fire howner

/-- In every run of the page, signed out means signed out and the access token is that of the user, in every state of the run,
exactly when every shared refresh that succeeded settled before a sign-out and for the user in the store, and every timer of a
registration ran out before a sign-out. -/
theorem signed_out_exactly (cookie : Option Uuid) : SoundExactly cookie TimelyWrites := by
  intro s past h
  refine h.invariant_past (I := fun s past =>
    (SessionSound s ∧ ∀ step ∈ past, SessionSound step.1) ↔ ∀ step ∈ past, TimelyWrites step.1 step.2) ?_ ?_
  · rintro s rfl
    have hsound : SessionSound (Client.load cookie) := sound_cleared (s := Client.load cookie) rfl
    refine iff_of_true ⟨hsound, ?_⟩ ?_ <;> simp
  · intro s past a s' hr hI _ hs
    have hL := loaded hr.of_past
    simp only [List.forall_mem_cons]
    constructor
    · rintro ⟨hS', hS, hpast⟩
      exact ⟨(sound_step hL hS hs).1 hS', hI.1 ⟨hS, hpast⟩⟩
    · rintro ⟨hok, hpast⟩
      obtain ⟨hS, hsound⟩ := hI.2 hpast
      exact ⟨(sound_step hL hS hs).2 hok, hS, hsound⟩

/-- A user signs in, a request of a page is answered 401, the user signs out, and then the refresh that was under way settles: the
access token is back. -/
theorem session_resurfaces : ¬SignedOutStays none := by
  intro h
  have hrun : ((webClient none).run (Client.load none)
      [.response 0 .unauthorized, .send .login,
        .response 1 (.ok (.session ⟨"access", ⟨1⟩⟩ ⟨⟨1⟩, "a@b.c", 0, 0⟩)), .send .page, .response 2 .unauthorized, .send .logout,
        .response 3 (.ok .empty), .refreshed (some ⟨"refreshed", ⟨1⟩⟩)]).any
      (fun s => s.signedOut && s.store.accessToken.isSome) = true := by
    decide +kernel
  obtain ⟨s, hs, hp⟩ := Lts.steps_of_any hrun
  have hsound := h s ⟨_, rfl, hs⟩
  rw [Bool.and_eq_true] at hp
  rw [hsound.signedOut hp.1] at hp
  cases hp.2

end FileProcessing
