import FileProcessing.Api.Replies

/-!
# What an error becomes

The error handler knows an `AppError` and a value with a `validation`; everything else it hides behind a 500, and so it hides
the mistakes of a client that Fastify reports with a status of their own, and the refusals of the rate limiter.
-/

namespace FileProcessing

/-- The status an error of the client carries. -/
def ErrorFields.ClientError (fields : ErrorFields) (statusCode : Nat) : Prop :=
  fields.validation = false ∧ fields.statusCode = some statusCode ∧ 400 ≤ statusCode ∧ statusCode < 500

/-- The status and the code that keep the meaning of a thrown value. -/
def Thrown.Means : Thrown → Nat → String → Prop
  | .appError own _ _, statusCode, _ => statusCode = own
  | .rateLimited _ _, statusCode, code => statusCode = 429 ∧ code = "TOO_MANY_REQUESTS"
  | .fastify fields, statusCode, _ =>
    (fields.validation = true → statusCode = 422) ∧ (∀ own, fields.ClientError own → statusCode = own) ∧
      (fields.validation = false → (¬ ∃ own, fields.ClientError own) → statusCode = 500)
  | .other fields, statusCode, _ => if fields.validation then statusCode = 422 else statusCode = 500
  | .nullish, statusCode, _ => statusCode = 500

/-- The reply has a code and a message and keeps the meaning of the value. -/
def MeaningKept (v : Thrown) : Prop :=
  ∃ reply, handleError v = some reply ∧ reply.message.isSome = true ∧ v.Means reply.statusCode reply.code

/-- The handler knows what the value is: an `AppError`, a failed validation with its message, or an error nobody gave a meaning. -/
def Thrown.Known : Thrown → Prop
  | .appError _ _ _ => True
  | .fastify fields => (fields.validation = true → fields.message.isSome = true) ∧ ¬ ∃ own, fields.ClientError own
  | .other fields => fields.validation = true → fields.message.isSome = true
  | .rateLimited _ _ | .nullish => False

theorem handleFields_validation {fields : ErrorFields} (h : fields.validation = true) :
    handleFields fields = ⟨422, "VALIDATION_ERROR", fields.message, false⟩ := by
  rw [handleFields, if_pos h]

theorem handleFields_unknown {fields : ErrorFields} (h : fields.validation = false) : handleFields fields = internalError := by
  rw [handleFields, if_neg (by rw [h]; exact Bool.false_ne_true)]

/-- A status that is 500 is none of a client error. -/
theorem not_clientError_500 {fields : ErrorFields} : ¬ fields.ClientError 500 := fun h => Nat.lt_irrefl 500 h.2.2.2

/-- An error Fastify makes keeps its meaning where it is a failed validation with its message, or has no status of a client error. -/
theorem meaningKept_fastify (fields : ErrorFields) : MeaningKept (.fastify fields) ↔ (Thrown.fastify fields).Known := by
  cases hv : fields.validation with
  | true =>
    have hown : ¬ ∃ own, fields.ClientError own := fun ⟨own, hc, _⟩ => Bool.false_ne_true (hc.symm.trans hv)
    simp only [MeaningKept, handleError, handleFields_validation hv, Option.some.injEq, Thrown.Known, Thrown.Means, hv]
    constructor
    · rintro ⟨reply, rfl, hm, -⟩
      exact ⟨fun _ => hm, hown⟩
    · rintro ⟨hm, -⟩
      exact ⟨_, rfl, hm trivial, fun _ => rfl, fun own hc => absurd ⟨own, hc⟩ hown, fun hf => absurd hf (by decide)⟩
  | false =>
    simp only [MeaningKept, handleError, handleFields_unknown hv, Option.some.injEq, Thrown.Known, Thrown.Means, hv]
    constructor
    · rintro ⟨reply, rfl, -, -, hown, -⟩
      refine ⟨fun hf => absurd hf (by decide), ?_⟩
      rintro ⟨own, hc⟩
      have h500 : 500 = own := hown own hc
      subst h500
      exact not_clientError_500 hc
    · rintro ⟨-, hown⟩
      exact ⟨_, rfl, rfl, fun hf => absurd hf (by decide), fun own hc => absurd ⟨own, hc⟩ hown, fun _ _ => rfl⟩

/-- An error nobody gave a meaning is answered as one, and a validation that failed elsewhere as a validation. -/
theorem meaningKept_other (fields : ErrorFields) : MeaningKept (.other fields) ↔ (Thrown.other fields).Known := by
  cases hv : fields.validation with
  | true =>
    simp only [MeaningKept, handleError, handleFields_validation hv, Option.some.injEq, Thrown.Known, Thrown.Means, hv]
    constructor
    · rintro ⟨reply, rfl, hm, -⟩ -
      exact hm
    · intro hm
      exact ⟨_, rfl, hm trivial, rfl⟩
  | false =>
    simp only [MeaningKept, handleError, handleFields_unknown hv, Option.some.injEq, Thrown.Known, Thrown.Means, hv]
    constructor
    · exact fun _ hf => absurd hf (by decide)
    · exact fun _ => ⟨_, rfl, rfl, rfl⟩

/-- The handler keeps the meaning of a value just when it knows what the value is. -/
theorem meaningKept_iff (v : Thrown) : MeaningKept v ↔ v.Known := by
  cases v with
  | nullish =>
    constructor
    · rintro ⟨reply, h, -⟩
      cases h
    · exact False.elim
  | appError own code message => exact ⟨fun _ => trivial, fun _ => ⟨_, rfl, rfl, rfl⟩⟩
  | rateLimited code message =>
    constructor
    · rintro ⟨reply, h, -, hstatus, -⟩
      cases h
      exact absurd hstatus (by decide)
    · exact False.elim
  | fastify fields => exact meaningKept_fastify fields
  | other fields => exact meaningKept_other fields

/-- What a service throws keeps its meaning. -/
theorem meaningKept_thrown (e : Err) : MeaningKept e.thrown := by
  rw [meaningKept_iff]
  cases e with
  | app statusCode code message => trivial
  | error message => exact fun hf => absurd hf Bool.false_ne_true

/-- Not every value does: a request the rate limiter rejects is answered with a 500. -/
theorem not_meaningKept : ¬ ∀ v, MeaningKept v := by
  intro h
  obtain ⟨reply, hreply, -, hstatus, -⟩ := h (errorResponseBuilder "15 minutes")
  cases hreply
  exact absurd hstatus (by decide)

end FileProcessing
