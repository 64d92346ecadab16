import FileProcessing.Lemmas.Accounts

/-!
# Sessions, as the log tells them

Which refresh token's session stands for a user: the token handed out last, unless since then the user signed out or a token handed
out before it was presented. `SessionStands` says so of the log as a whole, `standing` computes it event by event.
-/

namespace FileProcessing

open AuthService

variable {u v : Uuid} {token : String} {log since before : List AuthEvent}

/-- The refresh tokens handed out to a user, the last first. -/
def tokensOf (u : Uuid) : List AuthEvent → List String
  | [] => []
  | .issued v token :: log => if v = u then token :: tokensOf u log else tokensOf u log
  | .loggedOut _ :: log | .presented _ _ :: log => tokensOf u log

/-- The token the last completed `register` or `login` of a user handed out. -/
def currentToken (u : Uuid) (log : List AuthEvent) : Option String := (tokensOf u log).head?

/-- The tokens handed out to a user before that one. -/
def olderTokens (u : Uuid) (log : List AuthEvent) : List String := (tokensOf u log).tail

/-- The token was handed out by the last completed `register` or `login` of the user, and since then the user called no `logout`
and no token handed out before was presented. -/
def SessionStands (u : Uuid) (token : String) (log : List AuthEvent) : Prop :=
  ∃ since before, log = since ++ .issued u token :: before ∧ (∀ t, .issued u t ∉ since) ∧ .loggedOut u ∉ since ∧
    ∀ older, .presented u older ∈ since → .issued u older ∉ before

/-- The token whose session stands for a user, event by event. -/
def standing (u : Uuid) : List AuthEvent → Option String
  | [] => none
  | .issued v token :: log => if v = u then some token else standing u log
  | .loggedOut v :: log => if v = u then none else standing u log
  | .presented v token :: log => if v = u ∧ token ∈ olderTokens u log then none else standing u log

/-! ## Tokens handed out -/

@[simp] theorem tokensOf_loggedOut : tokensOf u (.loggedOut v :: log) = tokensOf u log := rfl

@[simp] theorem tokensOf_presented : tokensOf u (.presented v token :: log) = tokensOf u log := rfl

@[simp] theorem tokensOf_issued : tokensOf u (.issued u token :: log) = token :: tokensOf u log := if_pos rfl

theorem tokensOf_issued_ne (h : v ≠ u) : tokensOf u (.issued v token :: log) = tokensOf u log := if_neg h

theorem mem_tokensOf : token ∈ tokensOf u log ↔ .issued u token ∈ log := by
  induction log with
  | nil => simp [tokensOf]
  | cons e log ih =>
    cases e with
    | issued v t =>
      by_cases hv : v = u
      · subst hv
        simp [ih]
      · rw [tokensOf_issued_ne hv, ih]
        simp [Ne.symm hv]
    | loggedOut v => simp [ih]
    | presented v t => simp [ih]

/-- Events that hand nothing out to the user do not change what was handed out. -/
theorem tokensOf_append (h : ∀ t, .issued u t ∉ since) : tokensOf u (since ++ log) = tokensOf u log := by
  induction since with
  | nil => rfl
  | cons e since ih =>
    have hrest : ∀ t, .issued u t ∉ since := fun t ht => h t (List.mem_cons_of_mem e ht)
    cases e with
    | issued v t =>
      have hv : v ≠ u := by
        rintro rfl
        exact h t List.mem_cons_self
      rw [List.cons_append, tokensOf_issued_ne hv, ih hrest]
    | loggedOut v => simpa using ih hrest
    | presented v t => simpa using ih hrest

/-- A token handed out to the user is the current one or an older one. -/
theorem current_or_older (h : .issued u token ∈ log) : currentToken u log = some token ∨ token ∈ olderTokens u log := by
  have hmem := mem_tokensOf.2 h
  unfold currentToken olderTokens
  cases htok : tokensOf u log with
  | nil =>
    rw [htok] at hmem
    cases hmem
  | cons t rest =>
    rw [htok] at hmem
    rcases List.mem_cons.1 hmem with rfl | hr
    · exact Or.inl rfl
    · exact Or.inr hr

/-! ## Which session stands -/

@[simp] theorem standing_issued : standing u (.issued u token :: log) = some token := if_pos rfl

theorem standing_issued_ne (h : v ≠ u) : standing u (.issued v token :: log) = standing u log := if_neg h

@[simp] theorem standing_loggedOut : standing u (.loggedOut u :: log) = none := if_pos rfl

theorem standing_loggedOut_ne (h : v ≠ u) : standing u (.loggedOut v :: log) = standing u log := if_neg h

theorem standing_presented_ne (h : v ≠ u) : standing u (.presented v token :: log) = standing u log :=
  if_neg (fun hc => h hc.1)

theorem standing_older (h : token ∈ olderTokens u log) : standing u (.presented u token :: log) = none :=
  if_pos ⟨rfl, h⟩

theorem standing_not_older (h : token ∉ olderTokens u log) : standing u (.presented u token :: log) = standing u log :=
  if_neg (fun hc => h hc.2)

/-- A session that stands is that of the current token. -/
theorem current_of_standing (h : standing u log = some token) : currentToken u log = some token := by
  induction log with
  | nil => cases h
  | cons e log ih =>
    unfold currentToken at ih ⊢
    cases e with
    | issued v t =>
      by_cases hv : v = u
      · subst hv
        rw [standing_issued] at h
        rw [tokensOf_issued, List.head?_cons, h]
      · rw [standing_issued_ne hv] at h
        rw [tokensOf_issued_ne hv]
        exact ih h
    | loggedOut v =>
      by_cases hv : v = u
      · subst hv
        rw [standing_loggedOut] at h
        cases h
      · rw [standing_loggedOut_ne hv] at h
        exact ih h
    | presented v t =>
      simp only [standing] at h
      split at h
      · cases h
      · exact ih h

/-- What is handed out before the events at hand is older than what they begin with. -/
theorem olderTokens_since (h : ∀ t, .issued u t ∉ since) :
    olderTokens u (since ++ .issued u token :: before) = tokensOf u before := by
  unfold olderTokens
  rw [tokensOf_append h, tokensOf_issued, List.tail_cons]

theorem sessionStands_of_standing (h : standing u log = some token) : SessionStands u token log := by
  induction log with
  | nil => cases h
  | cons e log ih =>
    -- the events since the issue are those of the rest and this one
    have further (hs : standing u log = some token) (hi : ∀ t, e ≠ .issued u t) (hl : e ≠ .loggedOut u)
        (hp : ∀ t, e = .presented u t → t ∉ olderTokens u log) : SessionStands u token (e :: log) := by
      obtain ⟨since, before, rfl, h1, h2, h3⟩ := ih hs
      rw [olderTokens_since h1] at hp
      refine ⟨e :: since, before, rfl, ?_, ?_, ?_⟩
      · intro t ht
        rcases List.mem_cons.1 ht with he | ht
        · exact hi t he.symm
        · exact h1 t ht
      · intro hl'
        rcases List.mem_cons.1 hl' with he | hl'
        · exact hl he.symm
        · exact h2 hl'
      · intro older ho hmem
        rcases List.mem_cons.1 ho with he | ho
        · exact hp older he.symm (mem_tokensOf.2 hmem)
        · exact h3 older ho hmem
    cases e with
    | issued v t =>
      by_cases hv : v = u
      · subst hv
        rw [standing_issued] at h
        cases h
        exact ⟨[], log, rfl, by simp, by simp, by simp⟩
      · rw [standing_issued_ne hv] at h
        exact further h (by simp [hv]) (by simp) (by simp)
    | loggedOut v =>
      by_cases hv : v = u
      · subst hv
        rw [standing_loggedOut] at h
        cases h
      · rw [standing_loggedOut_ne hv] at h
        exact further h (by simp) (by simp [hv]) (by simp)
    | presented v t =>
      by_cases hv : v = u
      · subst hv
        by_cases ho : t ∈ olderTokens v log
        · rw [standing_older ho] at h
          cases h
        · rw [standing_not_older ho] at h
          refine further h (by simp) (by simp) ?_
          intro t' he
          cases he
          exact ho
      · rw [standing_presented_ne hv] at h
        exact further h (by simp) (by simp) (by simp [hv])

theorem standing_of_sessionStands (h : SessionStands u token log) : standing u log = some token := by
  obtain ⟨since, before, rfl, h1, h2, h3⟩ := h
  induction since with
  | nil => exact standing_issued
  | cons e since ih =>
    have h1' : ∀ t, .issued u t ∉ since := fun t ht => h1 t (List.mem_cons_of_mem e ht)
    have hrest := ih h1' (fun hl => h2 (List.mem_cons_of_mem e hl)) (fun older ho => h3 older (List.mem_cons_of_mem e ho))
    rw [List.cons_append]
    cases e with
    | issued v t =>
      have hv : v ≠ u := by
        rintro rfl
        exact h1 t List.mem_cons_self
      rw [standing_issued_ne hv]
      exact hrest
    | loggedOut v =>
      have hv : v ≠ u := by
        rintro rfl
        exact h2 List.mem_cons_self
      rw [standing_loggedOut_ne hv]
      exact hrest
    | presented v t =>
      by_cases hv : v = u
      · subst hv
        have ho : t ∉ olderTokens v (since ++ .issued v token :: before) := by
          rw [olderTokens_since h1', mem_tokensOf]
          exact h3 t List.mem_cons_self
        rw [standing_not_older ho]
        exact hrest
      · rw [standing_presented_ne hv]
        exact hrest

/-- The session that stands is computed event by event. -/
theorem standing_eq_some_iff : standing u log = some token ↔ SessionStands u token log :=
  ⟨sessionStands_of_standing, standing_of_sessionStands⟩

end FileProcessing
