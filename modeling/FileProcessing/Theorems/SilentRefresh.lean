import FileProcessing.Lemmas.ApiClient

/-!
# The silent refresh

The requests of a page that are answered 401 share one refresh and are transmitted once more when it has given a token. A call only
ever moves on, to be transmitted, to await the refresh, to be transmitted again, to settle: its phase grows with every step that is
about it, and so the answers of the server bring every promise to an end.
-/

namespace FileProcessing

variable {s s' : ApiClient} {a : HttpAction} {i k : Nat} {c c' : ApiCall}

/-! ## The statement -/

/-- Call `k` is a refresh of the interceptor that is on its way. -/
def RefreshInFlight (s : ApiClient) (k : Nat) : Prop :=
  ∃ c cleared, s.calls[k]? = some c ∧ c.sender = .interceptor cleared ∧ c.state = .sent

/-- What a promise settles with: the one answer, which is no 401 that is refreshed; or after such a 401 the answer to the second
transmission, when the refresh it has awaited gave a token, and this 401 when it did not. -/
inductive Outcome (s : ApiClient) (c : ApiCall) (result : Answer) : Prop where
  | direct : c.answers = [result] → c.awaited = none → (∀ error, result = .error error → ¬ Unauthorized c.config error) →
      Outcome s c result
  | retried {k : Nat} {error : AxiosError} {token : Option String} : c.answers = [.error error, result] →
      Unauthorized c.config error → c.awaited = some k → Fulfilled s k token → Outcome s c result
  | original {k : Nat} {error : AxiosError} : c.answers = [.error error] → Unauthorized c.config error → c.awaited = some k →
      Rejected s k → result = .error error → Outcome s c result

/-- What runs when a promise has settled. -/
def HttpAction.isCallback : HttpAction → Bool
  | .clear _ | .resume _ => true
  | .send _ | .answer _ _ | .store _ _ => false

/-- Every network call settles. -/
def NetworkSettles (state : Nat → ApiClient) (act : Nat → HttpAction) : Prop :=
  ∀ n (i : Nat) c, (state n).calls[i]? = some c → c.state = .sent → ∃ m answer, n ≤ m ∧ act m = .answer i answer

/-- What can run, because its promise has settled, runs: so it is with every promise. -/
def CallbacksRun (state : Nat → ApiClient) (act : Nat → HttpAction) : Prop :=
  ∀ n a, a.isCallback = true → (∃ s', apiClient.step (state n) a = some s') → ∃ m, n ≤ m ∧ act m = a

/-- The silent refresh: one refresh at a time, two transmissions, none after a 401 of the refresh, and every promise settles, both
when nothing is left to happen and in a run without end. -/
structure SilentRefresh : Prop where
  single : ∀ s i j, apiClient.Reach Lts.Free s → RefreshInFlight s i → RefreshInFlight s j → i = j
  twice : ∀ s (i : Nat) c, apiClient.Reach Lts.Free s → s.calls[i]? = some c → c.transmitted ≤ 2
  endpoint : ∀ s (k : Nat) c cleared, apiClient.Reach Lts.Free s → s.calls[k]? = some c → c.sender = .interceptor cleared →
    isRefreshEndpoint c.config = true
  never : ∀ s s' (i : Nat) c answer, apiClient.Reach Lts.Free s → s.calls[i]? = some c → isRefreshEndpoint c.config = true →
    apiClient.step s (.answer i answer) = some s' →
      s' = s.put i { c with state := .settled answer, answers := c.answers ++ [answer] }
  outcome : ∀ s (i : Nat) c result, apiClient.Reach Lts.Free s → s.calls[i]? = some c → c.state = .settled result →
    Outcome s c result
  idle : ∀ s, apiClient.Reach Lts.Free s → (∀ i answer, apiClient.step s (.answer i answer) = none) →
    (∀ a, a.isCallback = true → apiClient.step s a = none) →
      ∀ (i : Nat) c, s.calls[i]? = some c → ∃ result, c.state = .settled result
  settles : ∀ state act, apiClient.Run state act → NetworkSettles state act → CallbacksRun state act →
    ∀ n i, i < (state n).calls.length →
      ∃ m result, n ≤ m ∧ ∀ m', m ≤ m' → ∃ c, (state m').calls[i]? = some c ∧ c.state = .settled result

/-! ## What is left to happen -/

/-- A refresh of the interceptor is on its way, or its `finally` is to run, or has run. -/
theorem refresh_next (hS : HttpSound s) (hk : IsRefresh s k) :
    ∃ c, s.calls[k]? = some c ∧ (c.state = .sent ∨ (c.sender = .interceptor false ∧ ∃ result, c.state = .settled result) ∨
      ∃ result, s.sharedResult k = some result) := by
  obtain ⟨c, cleared, hk, hs⟩ := hk
  refine ⟨c, hk, ?_⟩
  have hshape := hS.shape k c hk
  cases hshape with
  | refresh => exact Or.inl rfl
  | refreshed cleared result he =>
    right
    cases cleared with
    | false => exact Or.inl ⟨rfl, result, rfl⟩
    | true => exact Or.inr ⟨result, sharedResult_eq_some.2 ⟨_, hk, rfl, rfl⟩⟩
  | first | direct | waiting | again | retried | failed => cases hs

/-- A call that awaits, awaits a refresh of the interceptor. -/
theorem awaits_refresh (hS : HttpSound s) (hi : s.calls[i]? = some c) {error : AxiosError} (hc : c.state = .awaiting k error) :
    IsRefresh s k := by
  have hshape := hS.shape i c hi
  cases hshape with
  | waiting hretry hu hk =>
    cases hc
    exact hk
  | refresh | refreshed | first | direct | again | retried | failed => cases hc

theorem settled_of_idle (hS : HttpSound s) (hanswer : ∀ i answer, apiClient.step s (.answer i answer) = none)
    (hcallback : ∀ a, a.isCallback = true → apiClient.step s a = none) (hi : s.calls[i]? = some c) :
    ∃ result, c.state = .settled result := by
  have hsent : ∀ (j : Nat) d, s.calls[j]? = some d → d.state ≠ .sent := by
    intro j d hj hd
    obtain ⟨s', hs⟩ := answer_possible hj hd (.ok ⟨.null⟩)
    simp [hanswer] at hs
  cases hc : c.state with
  | sent => exact absurd hc (hsent i c hi)
  | settled result => exact ⟨result, rfl⟩
  | awaiting k error =>
    exfalso
    obtain ⟨d, hk, hd | ⟨hs, result, hd⟩ | ⟨result, hr⟩⟩ := refresh_next hS (awaits_refresh hS hi hc)
    · exact hsent k d hk hd
    · obtain ⟨s', hs'⟩ := clear_possible hk hs hd
      simp [hcallback (.clear k) rfl] at hs'
    · obtain ⟨s', hs'⟩ := resume_possible hi hc hr
      simp [hcallback (.resume i) rfl] at hs'

/-! ## The phase of a call -/

/-- How far a call has come. -/
def phase (c : ApiCall) : Nat :=
  match c.state with
  | .sent => if c.config.retry then 2 else 0
  | .awaiting _ _ => 1
  | .settled _ => if c.sender = .interceptor true then 4 else 3

theorem phase_le (c : ApiCall) : phase c ≤ 4 := by
  unfold phase
  split
  · split <;> omega
  · omega
  · split <;> omega

theorem phase_sent (hc : c.state = .sent) : phase c ≤ 2 := by
  simp only [phase, hc]
  split <;> omega

theorem phase_settled {result : Answer} (hc : c.state = .settled result) : 3 ≤ phase c := by
  simp only [phase, hc]
  split <;> omega

/-- A call that moves comes further. -/
theorem HttpMoves.phase_lt (h : HttpMoves s s' i a c c') {s₀ : ApiClient} (hshape : CallShape s₀ c) : phase c < phase c' := by
  cases h with
  | settled answer hc hr hp =>
    have h1 := phase_sent hc
    refine Nat.lt_of_lt_of_le ?_ (phase_settled rfl)
    omega
  | waits hc hr hp hp' =>
    have hretry : c.config.retry = false := by
      simp only [refreshes, Bool.and_eq_true, Bool.not_eq_true'] at hr
      exact hr.1.2
    simp [phase, hc, hretry]
  | cleared hs hc hp => simp [phase, hs, hc]
  | again authorization hc hk ht hp =>
    cases hshape with
    | waiting hretry => simp [phase, hretry]
    | refresh | refreshed | first | direct | again | retried | failed => cases hc
  | failed hc hk ht hp =>
    refine Nat.lt_of_lt_of_le ?_ (phase_settled rfl)
    simp [phase, hc]

/-! ## What will happen -/

section Run

variable {state : Nat → ApiClient} {act : Nat → HttpAction} {n m : Nat}

theorem run_sound (h : apiClient.Run state act) (n : Nat) : HttpSound (state n) := httpSound (h.reach n)

/-- Later a call is as it was, or has come further. -/
theorem run_kept (h : apiClient.Run state act) (hnm : n ≤ m) (hi : (state n).calls[i]? = some c) :
    ∃ c', (state m).calls[i]? = some c' ∧ (c' = c ∨ phase c < phase c') := by
  refine h.stable (P := fun s => ∃ c', s.calls[i]? = some c' ∧ (c' = c ∨ phase c < phase c')) ?_ hnm ⟨c, hi, Or.inl rfl⟩
  rintro s a s' hr ⟨d, hd, hcd⟩ hs
  rcases call_kept (http_stepped hs) hd with ⟨hd', -⟩ | ⟨s₁, d', hd', hm⟩
  · exact ⟨d, hd', hcd⟩
  · have hlt := hm.phase_lt ((httpSound hr).shape i d hd)
    refine ⟨d', hd', Or.inr ?_⟩
    rcases hcd with rfl | hcd
    · exact hlt
    · exact Nat.lt_trans hcd hlt

/-- A call comes further in a step that is about it. -/
theorem run_moves (h : apiClient.Run state act) (hnm : n ≤ m) (hi : (state n).calls[i]? = some c) (hact : (act m).call = some i) :
    ∃ c', (state (m + 1)).calls[i]? = some c' ∧ phase c < phase c' := by
  obtain ⟨d, hd, hcd⟩ := run_kept h hnm hi
  have hle : phase c ≤ phase d := by
    rcases hcd with rfl | hcd
    · exact Nat.le_refl _
    · exact Nat.le_of_lt hcd
  rcases call_kept (http_stepped (h.step m)) hd with ⟨-, hne⟩ | ⟨s₁, d', hd', hm⟩
  · exact absurd hact hne
  · exact ⟨d', hd', Nat.lt_of_le_of_lt hle (hm.phase_lt ((run_sound h m).shape i d hd))⟩

/-- The phase of call `i`, where there is one. -/
def phaseAt (i : Nat) (s : ApiClient) : Nat := (s.calls[i]?.map phase).getD 0

theorem phaseAt_le (i : Nat) (s : ApiClient) : phaseAt i s ≤ 4 := by
  unfold phaseAt
  cases s.calls[i]? with
  | none => simp
  | some c => simpa using phase_le c

theorem phaseAt_eq (hi : s.calls[i]? = some c) : phaseAt i s = phase c := by
  simp [phaseAt, hi]

/-- An action about call `i` raises its phase. -/
theorem phaseAt_lt (h : apiClient.Run state act) (hnm : n ≤ m) (hi : (state n).calls[i]? = some c) (hact : (act m).call = some i) :
    ∃ m', n ≤ m' ∧ phaseAt i (state n) < phaseAt i (state m') := by
  obtain ⟨c', hc', hlt⟩ := run_moves h hnm hi hact
  refine ⟨m + 1, by omega, ?_⟩
  rw [phaseAt_eq hi, phaseAt_eq hc']
  exact hlt

/-- A refresh of the interceptor comes to its end, with its `finally`. -/
theorem shared_ends (h : apiClient.Run state act) (hnet : NetworkSettles state act) (hrun : CallbacksRun state act)
    (hk : IsRefresh (state n) k) : ∃ m result, n ≤ m ∧ (state m).sharedResult k = some result := by
  have hprogress : ∀ m, ¬ (IsRefresh (state m) k → ∃ result, (state m).sharedResult k = some result) →
      ∃ m', m ≤ m' ∧ phaseAt k (state m) < phaseAt k (state m') := by
    intro m hP
    obtain ⟨hrefresh, hnone⟩ := Classical.not_imp.1 hP
    obtain ⟨c, hc, hsent | ⟨hs, result, hsettled⟩ | hresult⟩ := refresh_next (run_sound h m) hrefresh
    · obtain ⟨m', answer, hmm', hact⟩ := hnet m k c hc hsent
      exact phaseAt_lt h hmm' hc (by rw [hact]; rfl)
    · obtain ⟨m', hmm', hact⟩ := hrun m (.clear k) rfl (clear_possible hc hs hsettled)
      exact phaseAt_lt h hmm' hc (by rw [hact]; rfl)
    · exact absurd hresult hnone
  obtain ⟨m, hnm, hm⟩ := Lts.eventually_of_rank (fun m => phaseAt_le k (state m)) hprogress n
  have hlater : IsRefresh (state m) k := by
    refine h.stable (P := fun s => IsRefresh s k) ?_ hnm hk
    intro s a s' _ hs hstep
    exact (http_later (http_stepped hstep)).refresh k hs
  obtain ⟨result, hr⟩ := hm hlater
  exact ⟨m, result, hnm, hr⟩

/-- A call that has not settled comes further. -/
theorem call_progress (h : apiClient.Run state act) (hnet : NetworkSettles state act) (hrun : CallbacksRun state act)
    (hi : (state n).calls[i]? = some c) (hc : ∀ result, c.state ≠ .settled result) :
    ∃ m, n ≤ m ∧ phaseAt i (state n) < phaseAt i (state m) := by
  cases hstate : c.state with
  | sent =>
    obtain ⟨m, answer, hnm, hact⟩ := hnet n i c hi hstate
    exact phaseAt_lt h hnm hi (by rw [hact]; rfl)
  | settled result => exact absurd hstate (hc result)
  | awaiting k error =>
    obtain ⟨m, result, hnm, hresult⟩ := shared_ends h hnet hrun (awaits_refresh (run_sound h n) hi hstate)
    obtain ⟨c', hc', rfl | hlt⟩ := run_kept h hnm hi
    · -- the call still waits when the refresh has ended
      obtain ⟨m', hmm', hact⟩ := hrun m (.resume i) rfl (resume_possible hc' hstate hresult)
      exact phaseAt_lt h (Nat.le_trans hnm hmm') hi (by rw [hact]; rfl)
    · refine ⟨m, hnm, ?_⟩
      rw [phaseAt_eq hi, phaseAt_eq hc']
      exact hlt

/-- A promise that has settled stays as it is. -/
theorem stays_settled (h : apiClient.Run state act) (hnm : n ≤ m) {result : Answer}
    (hi : ∃ c, (state n).calls[i]? = some c ∧ c.state = .settled result) :
    ∃ c, (state m).calls[i]? = some c ∧ c.state = .settled result := by
  refine h.stable (P := fun s => ∃ c, s.calls[i]? = some c ∧ c.state = .settled result) ?_ hnm hi
  rintro s a s' - ⟨c, hi, hc⟩ hs
  rcases call_kept (http_stepped hs) hi with ⟨hi', -⟩ | ⟨s₁, c', hi', hm⟩
  · exact ⟨c, hi', hc⟩
  · exact ⟨c', hi', (hm.not_settled hc).2⟩

theorem promise_settles (h : apiClient.Run state act) (hnet : NetworkSettles state act) (hrun : CallbacksRun state act)
    (hi : i < (state n).calls.length) :
    ∃ m result, n ≤ m ∧ ∀ m', m ≤ m' → ∃ c, (state m').calls[i]? = some c ∧ c.state = .settled result := by
  have hprogress : ∀ m, ¬ (∀ c, (state m).calls[i]? = some c → ∃ result, c.state = .settled result) →
      ∃ m', m ≤ m' ∧ phaseAt i (state m) < phaseAt i (state m') := by
    intro m hP
    obtain ⟨c, hP⟩ := Classical.not_forall.1 hP
    obtain ⟨hc, hnone⟩ := Classical.not_imp.1 hP
    exact call_progress h hnet hrun hc (fun result hr => hnone ⟨result, hr⟩)
  obtain ⟨m, hnm, hm⟩ := Lts.eventually_of_rank (fun m => phaseAt_le i (state m)) hprogress n
  obtain ⟨c, hc, -⟩ := run_kept h hnm (List.getElem?_eq_getElem hi)
  obtain ⟨result, hr⟩ := hm c hc
  refine ⟨m, result, hnm, ?_⟩
  intro m' hmm'
  exact stays_settled h hmm' ⟨c, hc, hr⟩

end Run

/-! ## The result -/

theorem outcome_of_shape (h : CallShape s c) {result : Answer} (hc : c.state = .settled result) : Outcome s c result := by
  cases h with
  | refreshed cleared result' he =>
    cases hc
    refine .direct rfl rfl ?_
    rintro error - ⟨-, hn⟩
    exact absurd he (by simp [hn])
  | direct result' hr =>
    cases hc
    exact .direct rfl rfl hr
  | retried result' hu hk =>
    cases hc
    exact .retried rfl hu rfl hk
  | failed hu hk =>
    cases hc
    exact .original rfl hu rfl hk rfl
  | refresh | first | waiting | again => cases hc

/-- The refresh on its way is the one `refreshPromise` is of. -/
theorem inFlight_promise (hS : HttpSound s) (hk : RefreshInFlight s k) : s.refreshPromise = some k := by
  obtain ⟨c, cleared, hk, hs, hc⟩ := hk
  have hshape := hS.shape k c hk
  cases hshape with
  | refresh => exact hS.only k _ hk rfl
  | refreshed | direct | waiting | retried | failed => cases hc
  | first | again => cases hs

theorem transmitted_le (h : CallShape s c) : c.transmitted ≤ 2 := by
  cases h with
  | refresh | refreshed | first | direct | waiting | failed => exact Nat.le_succ 1
  | again | retried => exact Nat.le_refl 2

theorem endpoint_of_interceptor (h : CallShape s c) {cleared : Bool} (hs : c.sender = .interceptor cleared) :
    isRefreshEndpoint c.config = true := by
  cases h with
  | refresh he => exact he
  | refreshed cleared' result he => exact he
  | first | direct | waiting | again | retried | failed => cases hs

/-- The answer of the refresh endpoint, a 401 too, settles the call and does nothing else. -/
theorem answer_endpoint (hi : s.calls[i]? = some c) (he : isRefreshEndpoint c.config = true) {answer : Answer}
    (h : HttpStepped s (.answer i answer) s') :
    s' = s.put i { c with state := .settled answer, answers := c.answers ++ [answer] } := by
  cases h with
  | settled answer hi' hc hf =>
    cases hi.symm.trans hi'
    rfl
  | waits hi' hc hf =>
    cases hi.symm.trans hi'
    simp [refreshes, he] at hf

theorem silent_refresh : SilentRefresh where
  single := by
    intro s i j hr hi hj
    have hi' := inFlight_promise (httpSound hr) hi
    have hj' := inFlight_promise (httpSound hr) hj
    exact Option.some.inj (hi'.symm.trans hj')
  twice := by
    intro s i c hr hi
    exact transmitted_le ((httpSound hr).shape i c hi)
  endpoint := by
    intro s k c cleared hr hk hs
    exact endpoint_of_interceptor ((httpSound hr).shape k c hk) hs
  never := by
    intro s s' i c answer _ hi he hs
    exact answer_endpoint hi he (http_stepped hs)
  outcome := by
    intro s i c result hr hi hc
    exact outcome_of_shape ((httpSound hr).shape i c hi) hc
  idle := by
    intro s hr hanswer hcallback i c hi
    exact settled_of_idle (httpSound hr) hanswer hcallback hi
  settles := by
    intro state act h hnet hrun n i hi
    exact promise_settles h hnet hrun hi

/-- Two requests are answered 401, share the refresh and are transmitted again, the second to be rejected with its second 401. -/
example : ((apiClient.run ⟨none, none, none, []⟩
    [.send (some "/files"), .send (some "/jobs"), .answer 0 (.error ⟨some 401, "first"⟩), .answer 1 (.error ⟨some 401, "first"⟩),
      .answer 2 (.ok ⟨.value (some "token")⟩), .clear 2, .resume 1, .resume 0, .answer 0 (.ok ⟨.null⟩),
      .answer 1 (.error ⟨some 401, "second"⟩)]).map (fun s => s.calls.map (fun c => (c.transmitted, c.awaited)))) =
    some [(2, some 2), (2, some 2), (1, none)] := by
  decide

end FileProcessing
