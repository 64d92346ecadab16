import FileProcessing.Web.ApiClient

/-!
# The steps of the HTTP client

What a step does (`HttpStepped`), what it does to one call (`HttpMoves`), and the shapes a call can have (`CallShape`): which answers
it has had, how often it was transmitted and which refresh it has awaited, for each point it can be at.
-/

namespace FileProcessing

variable {s s' : ApiClient} {a : HttpAction} {i k : Nat} {c c' : ApiCall}

/-! ## The step -/

/-- What a step does, one constructor for each outcome. -/
inductive HttpStepped (s : ApiClient) : HttpAction → ApiClient → Prop where
  | sent (url : Option String) : HttpStepped s (.send url) (s.request .caller url)
  | settled {i : Nat} {call : ApiCall} (answer : Answer) : s.calls[i]? = some call → call.state = .sent →
      (∀ error, answer = .error error → refreshes call.config error = false) →
      HttpStepped s (.answer i answer) (s.put i { call with state := .settled answer, answers := call.answers ++ [answer] })
  | waits {i : Nat} {call : ApiCall} {error : AxiosError} : s.calls[i]? = some call → call.state = .sent →
      refreshes call.config error = true →
      HttpStepped s (.answer i (.error error))
        (s.ensureRefresh.put i
          { call with
            config := { call.config with retry := true }
            state := .awaiting s.shared error
            answers := call.answers ++ [.error error]
            awaited := some s.shared })
  | cleared {k : Nat} {call : ApiCall} {result : Answer} : s.calls[k]? = some call → call.sender = .interceptor false →
      call.state = .settled result →
      HttpStepped s (.clear k) { s.put k { call with sender := .interceptor true } with refreshPromise := none }
  | resumed {i k : Nat} {call : ApiCall} {error : AxiosError} {result : Answer} : s.calls[i]? = some call →
      call.state = .awaiting k error → s.sharedResult k = some result →
      HttpStepped s (.resume i) (s.onRefreshed i call error (newToken result))
  | stored (accessToken guestToken : Option String) :
      HttpStepped s (.store accessToken guestToken) { s with accessToken, guestToken }

theorem CallState.result_eq_some {state : CallState} {result : Answer} : state.result = some result ↔ state = .settled result := by
  cases state with
  | sent => simp [CallState.result]
  | awaiting k error => simp [CallState.result]
  | settled r => simp [CallState.result]

theorem onResponse_cases {call : ApiCall} {answer : Answer} (hi : s.calls[i]? = some call) (hc : call.state = .sent) :
    HttpStepped s (.answer i answer) (s.onResponse i call answer) := by
  cases answer with
  | ok response =>
    refine .settled (.ok response) hi hc ?_
    intro error h
    cases h
  | error error =>
    simp only [ApiClient.onResponse]
    split
    · rename_i hr
      exact .waits hi hc hr
    · rename_i hr
      refine .settled (.error error) hi hc ?_
      intro error' h
      cases h
      simpa using hr

theorem http_stepped (h : apiClient.step s a = some s') : HttpStepped s a s' := by
  simp only [apiClient] at h
  cases a with
  | send url =>
    cases h
    exact .sent url
  | answer i answer =>
    simp only [ApiClient.step] at h
    split at h
    · split at h
      · cases h
        exact onResponse_cases ‹_› ‹_›
      · cases h
      · cases h
    · cases h
  | clear k =>
    simp only [ApiClient.step] at h
    split at h
    · split at h
      · rename_i hc
        cases h
        obtain ⟨result, hr⟩ := Option.isSome_iff_exists.1 hc.2
        exact .cleared ‹_› hc.1 (CallState.result_eq_some.1 hr)
      · cases h
    · cases h
  | resume i =>
    simp only [ApiClient.step] at h
    split at h
    · split at h
      · obtain ⟨result, hr, rfl⟩ := Option.map_eq_some_iff.1 h
        exact .resumed ‹_› ‹_› hr
      · cases h
      · cases h
    · cases h
  | store accessToken guestToken =>
    cases h
    exact .stored accessToken guestToken

/-! ## Which steps are possible -/

theorem answer_possible (hi : s.calls[i]? = some c) (hc : c.state = .sent) (answer : Answer) :
    ∃ s', apiClient.step s (.answer i answer) = some s' := by
  simp [apiClient, ApiClient.step, hi, hc]

theorem clear_possible (hk : s.calls[k]? = some c) (hs : c.sender = .interceptor false) {result : Answer}
    (hc : c.state = .settled result) : ∃ s', apiClient.step s (.clear k) = some s' := by
  simp [apiClient, ApiClient.step, hk, hs, hc, CallState.result]

theorem resume_possible (hi : s.calls[i]? = some c) {error : AxiosError} (hc : c.state = .awaiting k error) {result : Answer}
    (hk : s.sharedResult k = some result) : ∃ s', apiClient.step s (.resume i) = some s' := by
  simp [apiClient, ApiClient.step, hi, hc, hk]

/-! ## One call -/

/-- The call that an action is about. -/
def HttpAction.call : HttpAction → Option Nat
  | .answer i _ | .resume i | .clear i => some i
  | .send _ | .store _ _ => none

/-- What becomes of call `i` in a step that is about it, and of `refreshPromise`. -/
inductive HttpMoves (s s' : ApiClient) (i : Nat) : HttpAction → ApiCall → ApiCall → Prop where
  | settled {call : ApiCall} (answer : Answer) : call.state = .sent →
      (∀ error, answer = .error error → refreshes call.config error = false) → s'.refreshPromise = s.refreshPromise →
      HttpMoves s s' i (.answer i answer) call { call with state := .settled answer, answers := call.answers ++ [answer] }
  | waits {k : Nat} {call : ApiCall} {error : AxiosError} : call.state = .sent → refreshes call.config error = true →
      s.refreshPromise = some k → s'.refreshPromise = s.refreshPromise →
      HttpMoves s s' i (.answer i (.error error)) call
        { call with
          config := { call.config with retry := true }
          state := .awaiting k error
          answers := call.answers ++ [.error error]
          awaited := some k }
  | cleared {call : ApiCall} {result : Answer} : call.sender = .interceptor false → call.state = .settled result →
      s'.refreshPromise = none → HttpMoves s s' i (.clear i) call { call with sender := .interceptor true }
  | again {k : Nat} {call : ApiCall} {error : AxiosError} {result : Answer} {token : Option String} (authorization : Option String) :
      call.state = .awaiting k error → s.sharedResult k = some result → newToken result = some token →
      s'.refreshPromise = s.refreshPromise →
      HttpMoves s s' i (.resume i) call
        { call with config := { call.config with authorization }, state := .sent, transmitted := call.transmitted + 1 }
  | failed {k : Nat} {call : ApiCall} {error : AxiosError} {result : Answer} : call.state = .awaiting k error →
      s.sharedResult k = some result → newToken result = none → s'.refreshPromise = s.refreshPromise →
      HttpMoves s s' i (.resume i) call { call with state := .settled (.error error) }

/-- A call that a step adds: a request of a page, or the refresh where there was none. -/
inductive CallAdded (s s' : ApiClient) : ApiCall → Prop where
  | caller {config : RequestConfig} : config.retry = false → s'.refreshPromise = s.refreshPromise →
      CallAdded s s' ⟨.caller, config, .sent, 1, [], none⟩
  | refresh {config : RequestConfig} : isRefreshEndpoint config = true → s.refreshPromise = none →
      s'.refreshPromise = some s.calls.length → CallAdded s s' ⟨.interceptor false, config, .sent, 1, [], none⟩

/-- The first part of a step: a call is added, or none is. -/
inductive Adds (s s₁ : ApiClient) : Prop where
  | none : s₁.calls = s.calls → s₁.refreshPromise = s.refreshPromise → Adds s s₁
  | call {call : ApiCall} : s₁.calls = s.calls ++ [call] → CallAdded s s₁ call → Adds s s₁

/-- The second part of a step: the call it is about moves, if it is about one. -/
inductive Moves (s₁ : ApiClient) (a : HttpAction) (s' : ApiClient) : Prop where
  | none : a.call = Option.none → s'.calls = s₁.calls → s'.refreshPromise = s₁.refreshPromise → Moves s₁ a s'
  | call {i : Nat} {call call' : ApiCall} : a.call = some i → s₁.calls[i]? = some call → HttpMoves s₁ s' i a call call' →
      s'.calls = s₁.calls.set i call' → Moves s₁ a s'

theorem onRequest_eq (s : ApiClient) (config : RequestConfig) :
    ∃ authorization, s.onRequest config = { config with authorization } := by
  simp only [ApiClient.onRequest]
  split
  · split
    · exact ⟨_, rfl⟩
    · exact ⟨_, rfl⟩
  · exact ⟨_, rfl⟩

theorem isRefreshEndpoint_refresh (retry : Bool) (authorization : Option String) :
    isRefreshEndpoint ⟨some "/auth/refresh", retry, authorization⟩ = true := by
  unfold isRefreshEndpoint
  exact decide_eq_true (List.infix_refl _)

/-- A page's request is a call of its own, whatever header it carries. -/
theorem http_request_adds (s : ApiClient) (url : Option String) : Adds s (s.request .caller url) := by
  obtain ⟨authorization, hcfg⟩ := onRequest_eq s ⟨url, false, none⟩
  refine @Adds.call _ _ ⟨.caller, ⟨url, false, authorization⟩, .sent, 1, [], none⟩ ?_ (.caller rfl rfl)
  simp [ApiClient.request, hcfg]

/-- Once the interceptor has made sure of it, there is a refresh. -/
theorem ensureRefresh_adds (s : ApiClient) : Adds s s.ensureRefresh ∧ s.ensureRefresh.refreshPromise = some s.shared := by
  cases hp : s.refreshPromise with
  | some k =>
    have he : s.ensureRefresh = s := by simp [ApiClient.ensureRefresh, hp]
    rw [he]
    exact ⟨.none rfl rfl, by simp [ApiClient.shared, hp]⟩
  | none =>
    obtain ⟨authorization, hcfg⟩ := onRequest_eq s ⟨some "/auth/refresh", false, none⟩
    have hs : s.ensureRefresh.refreshPromise = some s.calls.length := by simp [ApiClient.ensureRefresh, hp]
    refine ⟨.call ?_ (.refresh (isRefreshEndpoint_refresh false authorization) hp hs), by simp [hs, ApiClient.shared, hp]⟩
    simp [ApiClient.ensureRefresh, ApiClient.request, hp, hcfg]

/-- What follows the `await` moves the call alone. -/
theorem resumed_moves {call : ApiCall} {error : AxiosError} {result : Answer} (hi : s.calls[i]? = some call)
    (hc : call.state = .awaiting k error) (hk : s.sharedResult k = some result) :
    Moves s (.resume i) (s.onRefreshed i call error (newToken result)) := by
  cases ht : newToken result with
  | some token =>
    obtain ⟨authorization, hcfg⟩ := onRequest_eq { s with accessToken := token }
      { call.config with authorization := some ("Bearer " ++ token.getD "undefined") }
    refine .call rfl hi (.again authorization hc hk ht rfl) ?_
    simp [ApiClient.onRefreshed, ApiClient.put, hcfg]
  | none => exact .call rfl hi (.failed hc hk ht rfl) rfl

/-- A call stays where it is when one is added. -/
theorem Adds.get {s₁ : ApiClient} (h : Adds s s₁) (hi : s.calls[i]? = some c) : s₁.calls[i]? = some c := by
  obtain ⟨he, -⟩ | ⟨he, -⟩ := h
  · rw [he]
    exact hi
  · rw [he, List.getElem?_append_left (List.getElem?_eq_some_iff.1 hi).1]
    exact hi

theorem http_parts (h : HttpStepped s a s') : ∃ s₁, Adds s s₁ ∧ Moves s₁ a s' := by
  cases h with
  | sent url => exact ⟨_, http_request_adds s url, .none rfl rfl rfl⟩
  | settled answer hi hc hr => exact ⟨s, .none rfl rfl, .call rfl hi (.settled answer hc hr rfl) rfl⟩
  | waits hi hc hr =>
    obtain ⟨hadds, hp⟩ := ensureRefresh_adds s
    exact ⟨_, hadds, .call rfl (hadds.get hi) (.waits hc hr hp rfl) rfl⟩
  | cleared hk hs hc => exact ⟨s, .none rfl rfl, .call rfl hk (.cleared hs hc rfl) rfl⟩
  | resumed hi hc hk => exact ⟨s, .none rfl rfl, resumed_moves hi hc hk⟩
  | stored accessToken guestToken => exact ⟨s, .none rfl rfl, .none rfl rfl rfl⟩

/-- A call of the state before stays where it is, or the step is about it. -/
theorem call_kept (h : HttpStepped s a s') (hi : s.calls[i]? = some c) :
    (s'.calls[i]? = some c ∧ a.call ≠ some i) ∨ ∃ s₁ c', s'.calls[i]? = some c' ∧ HttpMoves s₁ s' i a c c' := by
  obtain ⟨s₁, hadds, hmoves⟩ := http_parts h
  have hi₁ := hadds.get hi
  obtain ⟨ha, he, -⟩ | ⟨ha, hj, hm, he⟩ := hmoves
  · left
    rw [he, ha]
    exact ⟨hi₁, by simp⟩
  · rename_i j d d'
    by_cases hij : j = i
    · right
      subst hij
      cases hj.symm.trans hi₁
      refine ⟨s₁, d', ?_, hm⟩
      rw [he, List.getElem?_set_self (List.getElem?_eq_some_iff.1 hj).1]
    · left
      rw [he, List.getElem?_set_ne hij, ha]
      exact ⟨hi₁, by simpa using hij⟩

/-! ## The invariant -/

/-- A 401 that the interceptor answers with a refresh when it is the first. -/
def Unauthorized (config : RequestConfig) (error : AxiosError) : Prop :=
  error.status = some 401 ∧ isRefreshEndpoint config = false

/-- Call `k` is a refresh of the interceptor. -/
def IsRefresh (s : ApiClient) (k : Nat) : Prop := ∃ c cleared, s.calls[k]? = some c ∧ c.sender = .interceptor cleared

/-- The refresh `k` has given a token. -/
def Fulfilled (s : ApiClient) (k : Nat) (token : Option String) : Prop :=
  ∃ result, s.sharedResult k = some result ∧ newToken result = some token

/-- The refresh `k` has given none. -/
def Rejected (s : ApiClient) (k : Nat) : Prop := ∃ result, s.sharedResult k = some result ∧ newToken result = none

/-- The shapes of a call: the refresh before and after its answer; a request before its first answer, settled by it, awaiting a
refresh, transmitted again, settled by the second answer, and rejected with the first. -/
inductive CallShape (s : ApiClient) : ApiCall → Prop where
  | refresh {config : RequestConfig} : isRefreshEndpoint config = true →
      CallShape s ⟨.interceptor false, config, .sent, 1, [], none⟩
  | refreshed {config : RequestConfig} (cleared : Bool) (result : Answer) : isRefreshEndpoint config = true →
      CallShape s ⟨.interceptor cleared, config, .settled result, 1, [result], none⟩
  | first {config : RequestConfig} : config.retry = false → CallShape s ⟨.caller, config, .sent, 1, [], none⟩
  | direct {config : RequestConfig} (result : Answer) : (∀ error, result = .error error → ¬ Unauthorized config error) →
      CallShape s ⟨.caller, config, .settled result, 1, [result], none⟩
  | waiting {config : RequestConfig} {k : Nat} {error : AxiosError} : config.retry = true → Unauthorized config error →
      IsRefresh s k → CallShape s ⟨.caller, config, .awaiting k error, 1, [.error error], some k⟩
  | again {config : RequestConfig} {k : Nat} {error : AxiosError} {token : Option String} : config.retry = true →
      Unauthorized config error → Fulfilled s k token → CallShape s ⟨.caller, config, .sent, 2, [.error error], some k⟩
  | retried {config : RequestConfig} {k : Nat} {error : AxiosError} {token : Option String} (result : Answer) :
      Unauthorized config error → Fulfilled s k token →
      CallShape s ⟨.caller, config, .settled result, 2, [.error error, result], some k⟩
  | failed {config : RequestConfig} {k : Nat} {error : AxiosError} : Unauthorized config error → Rejected s k →
      CallShape s ⟨.caller, config, .settled (.error error), 1, [.error error], some k⟩

/-- Every call has a shape, and `refreshPromise` is of the one refresh whose `finally` has not run. -/
structure HttpSound (s : ApiClient) : Prop where
  shape : ∀ (i : Nat) c, s.calls[i]? = some c → CallShape s c
  current : ∀ k, s.refreshPromise = some k → ∃ c, s.calls[k]? = some c ∧ c.sender = .interceptor false
  only : ∀ (k : Nat) c, s.calls[k]? = some c → c.sender = .interceptor false → s.refreshPromise = some k

theorem sharedResult_eq_some {result : Answer} : s.sharedResult k = some result ↔
    ∃ c, s.calls[k]? = some c ∧ c.sender = .interceptor true ∧ c.state = .settled result := by
  simp only [ApiClient.sharedResult]
  split
  · rename_i call hk
    split
    · rename_i hs
      rw [CallState.result_eq_some]
      constructor
      · intro hc
        exact ⟨call, hk, hs, hc⟩
      · rintro ⟨c, hc, -, hr⟩
        cases hk.symm.trans hc
        exact hr
    · rename_i hs
      refine iff_of_false (by simp) ?_
      rintro ⟨c, hc, hi, -⟩
      cases hk.symm.trans hc
      exact hs hi
  · rename_i hk
    refine iff_of_false (by simp) ?_
    rintro ⟨c, hc, -⟩
    cases hk.symm.trans hc

/-- What the shapes say of the other calls of a state holds of those of a later one. -/
structure Later (s s' : ApiClient) : Prop where
  refresh : ∀ k, IsRefresh s k → IsRefresh s' k
  result : ∀ k result, s.sharedResult k = some result → s'.sharedResult k = some result

theorem Later.fulfilled (h : Later s s') {token : Option String} (hk : Fulfilled s k token) : Fulfilled s' k token := by
  obtain ⟨result, hr, ht⟩ := hk
  exact ⟨result, h.result k result hr, ht⟩

theorem Later.rejected (h : Later s s') (hk : Rejected s k) : Rejected s' k := by
  obtain ⟨result, hr, ht⟩ := hk
  exact ⟨result, h.result k result hr, ht⟩

theorem CallShape.later (hl : Later s s') (h : CallShape s c) : CallShape s' c := by
  cases h with
  | refresh he => exact .refresh he
  | refreshed cleared result he => exact .refreshed cleared result he
  | first hr => exact .first hr
  | direct result hr => exact .direct result hr
  | waiting hr hu hk => exact .waiting hr hu (hl.refresh _ hk)
  | again hr hu hk => exact .again hr hu (hl.fulfilled hk)
  | retried result hu hk => exact .retried result hu (hl.fulfilled hk)
  | failed hu hk => exact .failed hu (hl.rejected hk)

theorem Later.trans {s₁ : ApiClient} (h : Later s s₁) (h' : Later s₁ s') : Later s s' where
  refresh k hk := h'.refresh k (h.refresh k hk)
  result k result hk := h'.result k result (h.result k result hk)

/-- A call that moves stays what it is and so does `refreshPromise`, except in the `finally`. -/
theorem HttpMoves.sender (h : HttpMoves s s' i a c c') :
    (c'.sender = c.sender ∧ s'.refreshPromise = s.refreshPromise) ∨
      (c.sender = .interceptor false ∧ c'.sender = .interceptor true ∧ s'.refreshPromise = none) := by
  cases h with
  | settled answer hc hr hp => exact Or.inl ⟨rfl, hp⟩
  | waits hc hr hp hp' => exact Or.inl ⟨rfl, hp'⟩
  | cleared hs hc hp => exact Or.inr ⟨hs, rfl, hp⟩
  | again authorization hc hk ht hp => exact Or.inl ⟨rfl, hp⟩
  | failed hc hk ht hp => exact Or.inl ⟨rfl, hp⟩

/-- A call of a page or a refresh whose `finally` has run no longer moves once it has settled. -/
theorem HttpMoves.not_settled (h : HttpMoves s s' i a c c') {result : Answer} (hc : c.state = .settled result) :
    c.sender = .interceptor false ∧ c'.state = .settled result := by
  cases h with
  | settled answer hc' hr hp => simp [hc'] at hc
  | waits hc' hr hp hp' => simp [hc'] at hc
  | cleared hs hc' hp => exact ⟨hs, hc⟩
  | again authorization hc' hk ht hp => simp [hc'] at hc
  | failed hc' hk ht hp => simp [hc'] at hc

theorem Adds.later {s₁ : ApiClient} (h : Adds s s₁) : Later s s₁ := by
  constructor
  · rintro k ⟨c, cleared, hk, hs⟩
    exact ⟨c, cleared, h.get hk, hs⟩
  · intro k result hk
    obtain ⟨c, hk, hs, hc⟩ := sharedResult_eq_some.1 hk
    exact sharedResult_eq_some.2 ⟨c, h.get hk, hs, hc⟩

/-- In a list with one entry put, an entry is the new one, or it was there. -/
theorem getElem?_set_cases {l : List ApiCall} {j : Nat} {d : ApiCall} (hi : l[i]? = some c) (h : (l.set i c')[j]? = some d) :
    (j = i ∧ d = c') ∨ (j ≠ i ∧ l[j]? = some d) := by
  by_cases hij : j = i
  · subst hij
    rw [List.getElem?_set_self (List.getElem?_eq_some_iff.1 hi).1] at h
    exact Or.inl ⟨rfl, (Option.some.inj h).symm⟩
  · rw [List.getElem?_set_ne (Ne.symm hij)] at h
    exact Or.inr ⟨hij, h⟩

theorem Moves.later (h : Moves s a s') : Later s s' := by
  obtain ⟨-, he, -⟩ | ⟨-, hi, hm, he⟩ := h
  · constructor
    · rintro k ⟨c, cleared, hk, hs⟩
      exact ⟨c, cleared, he ▸ hk, hs⟩
    · intro k result hk
      simpa only [ApiClient.sharedResult, he] using hk
  rename_i i c c'
  have hput := List.getElem?_set_self (a := c') (List.getElem?_eq_some_iff.1 hi).1
  constructor
  · rintro k ⟨d, cleared, hk, hs⟩
    by_cases hki : k = i
    · subst hki
      cases hi.symm.trans hk
      rcases hm.sender with ⟨hs', -⟩ | ⟨-, hs', -⟩
      · exact ⟨c', cleared, he ▸ hput, hs'.trans hs⟩
      · exact ⟨c', true, he ▸ hput, hs'⟩
    · refine ⟨d, cleared, ?_, hs⟩
      rw [he, List.getElem?_set_ne (Ne.symm hki)]
      exact hk
  · intro k result hk
    obtain ⟨d, hk, hs, hd⟩ := sharedResult_eq_some.1 hk
    refine sharedResult_eq_some.2 ⟨d, ?_, hs, hd⟩
    have hki : k ≠ i := by
      rintro rfl
      cases hi.symm.trans hk
      have hs' := (hm.not_settled hd).1
      simp [hs] at hs'
    rw [he, List.getElem?_set_ne (Ne.symm hki)]
    exact hk

/-- The call that moves has a shape again. -/
theorem HttpMoves.shape (h : HttpMoves s s' i a c c') (hS : HttpSound s) (hi : s.calls[i]? = some c) (hl : Later s s') :
    CallShape s' c' := by
  have hshape := (hS.shape i c hi).later hl
  cases h with
  | settled answer hc hr hp =>
    cases hshape with
    | refresh he => exact .refreshed false answer he
    | first hretry =>
      refine .direct answer ?_
      rintro error rfl ⟨h401, he⟩
      have hfalse := hr error rfl
      simp [refreshes, h401, he, hretry] at hfalse
    | again hretry hu hk => exact .retried answer hu hk
    | refreshed | direct | waiting | retried | failed => cases hc
  | waits hc hr hp hp' =>
    simp only [refreshes, Bool.and_eq_true, decide_eq_true_eq, Bool.not_eq_true'] at hr
    obtain ⟨⟨h401, hretry⟩, he⟩ := hr
    obtain ⟨d, hd, hsender⟩ := hS.current _ hp
    cases hshape with
    | refresh he' => cases he.symm.trans he'
    | first => exact .waiting rfl ⟨h401, he⟩ (hl.refresh _ ⟨d, false, hd, hsender⟩)
    | again hretry' => cases hretry.symm.trans hretry'
    | refreshed | direct | waiting | retried | failed => cases hc
  | cleared hs hc hp =>
    cases hshape with
    | refreshed cleared result he => exact .refreshed true result he
    | refresh => cases hc
    | first | direct | waiting | again | retried | failed => cases hs
  | again authorization hc hk ht hp =>
    cases hshape with
    | waiting hretry hu =>
      cases hc
      exact .again hretry hu ⟨_, hl.result _ _ hk, ht⟩
    | refresh | refreshed | first | direct | again | retried | failed => cases hc
  | failed hc hk ht hp =>
    cases hshape with
    | waiting hretry hu =>
      cases hc
      exact .failed hu ⟨_, hl.result _ _ hk, ht⟩
    | refresh | refreshed | first | direct | again | retried | failed => cases hc

theorem httpSound_init (h : apiClient.init s) : HttpSound s := by
  obtain ⟨hp, he⟩ := h
  constructor
  · intro i c hi
    simp [he] at hi
  · intro k hk
    simp [hp] at hk
  · intro k c hk
    simp [he] at hk

theorem httpSound_adds {s₁ : ApiClient} (h : Adds s s₁) (hS : HttpSound s) : HttpSound s₁ := by
  have hl := h.later
  obtain ⟨he, hp⟩ | ⟨he, hadded⟩ := h
  · constructor
    · intro i c hi
      exact (hS.shape i c (he ▸ hi)).later hl
    · rw [he, hp]
      exact hS.current
    · rw [he, hp]
      exact hS.only
  rename_i call
  have hnew : s₁.calls[s.calls.length]? = some call := by simp [he]
  have hback : ∀ (i : Nat) c, s₁.calls[i]? = some c → s.calls[i]? = some c ∨ i = s.calls.length ∧ c = call := by
    intro i c hi
    rw [he, List.getElem?_append] at hi
    grind
  constructor
  · intro i c hi
    rcases hback i c hi with hi' | ⟨-, rfl⟩
    · exact (hS.shape i c hi').later hl
    · cases hadded with
      | caller hr => exact .first hr
      | refresh he' => exact .refresh he'
  · intro k hk
    cases hadded with
    | caller hr hp =>
      obtain ⟨d, hd, hs⟩ := hS.current k (hp ▸ hk)
      refine ⟨d, ?_, hs⟩
      rw [he, List.getElem?_append_left (List.getElem?_eq_some_iff.1 hd).1]
      exact hd
    | refresh he' hnone hp =>
      cases hp.symm.trans hk
      exact ⟨_, hnew, rfl⟩
  · intro k c hk hs
    rcases hback k c hk with hk' | ⟨rfl, rfl⟩
    · have hp' := hS.only k c hk' hs
      cases hadded with
      | caller hr hp => exact hp.trans hp'
      | refresh he' hnone hp => simp [hnone] at hp'
    · cases hadded with
      | caller => cases hs
      | refresh he' hnone hp => exact hp

theorem httpSound_moves (h : Moves s a s') (hS : HttpSound s) : HttpSound s' := by
  have hl := h.later
  obtain ⟨-, he, hp⟩ | ⟨-, hi, hm, he⟩ := h
  · constructor
    · intro i c hi
      exact (hS.shape i c (he ▸ hi)).later hl
    · rw [he, hp]
      exact hS.current
    · rw [he, hp]
      exact hS.only
  rename_i i c c'
  have hback : ∀ (j : Nat) d, s'.calls[j]? = some d → (j = i ∧ d = c') ∨ (j ≠ i ∧ s.calls[j]? = some d) := by
    intro j d hj
    exact getElem?_set_cases hi (he ▸ hj)
  constructor
  · intro j d hj
    rcases hback j d hj with ⟨-, rfl⟩ | ⟨-, hj'⟩
    · exact hm.shape hS hi hl
    · exact (hS.shape j d hj').later hl
  · intro k hk
    rcases hm.sender with ⟨hs, hp⟩ | ⟨-, -, hp⟩
    · obtain ⟨d, hd, hsd⟩ := hS.current k (hp ▸ hk)
      by_cases hki : k = i
      · subst hki
        cases hi.symm.trans hd
        refine ⟨c', ?_, hs.trans hsd⟩
        rw [he, List.getElem?_set_self (List.getElem?_eq_some_iff.1 hi).1]
      · refine ⟨d, ?_, hsd⟩
        rw [he, List.getElem?_set_ne (Ne.symm hki)]
        exact hd
    · simp [hp] at hk
  · intro k d hk hsd
    rcases hm.sender with ⟨hs, hp⟩ | ⟨hs, hs', hp⟩
    · rw [hp]
      rcases hback k d hk with ⟨rfl, rfl⟩ | ⟨-, hk'⟩
      · exact hS.only k c hi (hs ▸ hsd)
      · exact hS.only k d hk' hsd
    · exfalso
      rcases hback k d hk with ⟨-, rfl⟩ | ⟨hne, hk'⟩
      · simp [hsd] at hs'
      · have hi' := hS.only i c hi hs
        have hk'' := hS.only k d hk' hsd
        exact hne (Option.some.inj (hk''.symm.trans hi'))

/-- A step takes nothing back. -/
theorem http_later (h : HttpStepped s a s') : Later s s' := by
  obtain ⟨s₁, hadds, hmoves⟩ := http_parts h
  exact hadds.later.trans hmoves.later

theorem httpSound_step (h : HttpStepped s a s') (hS : HttpSound s) : HttpSound s' := by
  obtain ⟨s₁, hadds, hmoves⟩ := http_parts h
  exact httpSound_moves hmoves (httpSound_adds hadds hS)

theorem httpSound (h : apiClient.Reach Lts.Free s) : HttpSound s := by
  refine h.invariant (fun s h0 => httpSound_init h0) ?_
  intro s a s' _ hS _ hs
  exact httpSound_step (http_stepped hs) hS

end FileProcessing
