import FleetManagement.Services.VehicleState

/-!
# Retries

`call_with_retry` of `resilience` for any operation, any `sleep` and `rand`, and any exceptions. The loop
over Redis in the state service is an instance.
-/

namespace FleetManagement

/-- The longest pause after the failed `attempt`. -/
def RetryPolicy.exponential (p : RetryPolicy) (attempt : Nat) : Rat :=
  min p.maxDelay (p.baseDelay * 2 ^ (attempt - 1))

def RetryPolicy.worstCaseSeconds (p : RetryPolicy) : Rat :=
  p.maxAttempts * p.attemptTimeout + ((List.range' 1 (p.maxAttempts - 1)).map p.exponential).sum

/-- What the retry loop asks of the exceptions, and those that it raises itself. -/
structure RetryErrors (ε : Type) where
  /-- `TimeoutError`, or one of `retry_on`. -/
  retried : ε → Bool
  exhausted : (operation : String) → (attempts : Nat) → (lastError : ε) → ε
  assertionError : ε

section Loop
variable {W ε α : Type} {R : W → Type} (errors : RetryErrors ε) (operation : Job W R ε α)
  (policy : RetryPolicy) (name : String) (sleep : Rat → Job W R ε Unit) (rand : Job W R ε Rat)

/-- What the loop does about the outcome of its `attempt`, where `next` has the attempts after it. -/
def afterAttempt (attempt : Nat) (next : Job W R ε α) : Except ε α → Job W R ε α
  | .ok a => .ret a
  | .error e =>
      if errors.retried e then
        if attempt = policy.maxAttempts then .raise (errors.exhausted name attempt e)
        else do
          let rand ← rand
          sleep (policy.backoffDelay attempt rand)
          next
      else .raise e

/-- The loop from `attempt` on, with `left` attempts to go. -/
def retryLoop : (attempt left : Nat) → Job W R ε α
  | _, 0 => .raise errors.assertionError
  | attempt, left + 1 => do
      let outcome ← operation.attempt
      afterAttempt errors policy name sleep rand attempt (retryLoop (attempt + 1) left) outcome

end Loop

/-! ## The loop over Redis -/

/-- The exceptions of the state service. -/
def Failure.retryErrors (retryOn : Failure → Bool) : RetryErrors Failure where
  retried e := decide (e = .redis .attemptTimedOut ∨ retryOn e)
  exhausted := .retryExhausted
  assertionError := .assertionError

theorem retryFrom_eq_retryLoop {α : Type} (operation : Work α) (policy : RetryPolicy)
    (retryOn : Failure → Bool) (name : String) (attempt left : Nat) :
    retryFrom operation policy retryOn name attempt left =
      retryLoop (Failure.retryErrors retryOn) operation policy name (fun s => ask (.sleep s))
        (ask .random) attempt left := by
  induction left generalizing attempt with
  | zero => rfl
  | succ left ih =>
      unfold retryFrom retryLoop
      refine congrArg (operation.attempt >>= ·) (funext fun outcome => ?_)
      cases outcome with
      | ok a => rfl
      | error e =>
          by_cases hretried : e = .redis .attemptTimedOut ∨ retryOn e
          · simp only [afterAttempt, Failure.retryErrors, hretried, if_true, decide_true, ih]
          · simp only [afterAttempt, Failure.retryErrors, hretried, if_false, decide_false,
              Bool.false_eq_true]

/-! ## How the loop ends -/

section Outcomes
variable {ε α : Type} (errors : RetryErrors ε) (policy : RetryPolicy) (name : String)
  (outcomes : Nat → Except ε α)

/-- A value or a non-retryable exception. -/
def Settles (o : Except ε α) : Prop := ∀ e, o = .error e → errors.retried e = false

/-- `n` is the position of the first value or non-retryable exception. Outcomes are counted from 1. -/
structure SettlesFirstAt (n : Nat) : Prop where
  pos : 1 ≤ n
  settles : Settles errors (outcomes n)
  retried : ∀ k, 1 ≤ k → k < n → ¬Settles errors (outcomes k)

/-- The loop ends with `r` after `m` attempts. -/
structure LoopEnds (m : Nat) (r : Except ε α) : Prop where
  pos : 1 ≤ m
  le : m ≤ policy.maxAttempts
  retried : ∀ k, 1 ≤ k → k < m → ¬Settles errors (outcomes k)
  result : Settles errors (outcomes m) ∧ r = outcomes m ∨
    m = policy.maxAttempts ∧ ∃ e, outcomes m = .error e ∧ errors.retried e ∧
      r = .error (errors.exhausted name m e)

variable {errors policy name outcomes} {o : Except ε α} {e : ε} {m n : Nat} {r : Except ε α}

theorem settles_ok (a : α) : Settles errors (.ok a : Except ε α) := fun _ h => by cases h

theorem settles_error : Settles errors (.error e : Except ε α) ↔ errors.retried e = false := by
  constructor
  · intro h
    exact h e rfl
  · rintro h _ ⟨⟩
    exact h

theorem SettlesFirstAt.unique (hm : SettlesFirstAt errors outcomes m)
    (hn : SettlesFirstAt errors outcomes n) : m = n := by
  rcases Nat.lt_trichotomy m n with hlt | rfl | hlt
  · exact absurd hm.settles (hn.retried m hm.pos hlt)
  · rfl
  · exact absurd hn.settles (hm.retried n hn.pos hlt)

/-- A loop that ends without a settled outcome has used up its attempts. -/
theorem LoopEnds.settles_or (h : LoopEnds errors policy name outcomes m r) :
    SettlesFirstAt errors outcomes m ∧ r = outcomes m ∨
      m = policy.maxAttempts ∧ (∀ n, SettlesFirstAt errors outcomes n → policy.maxAttempts < n) ∧
        ∃ e, outcomes m = .error e ∧ errors.retried e ∧ r = .error (errors.exhausted name m e) := by
  rcases h.result with ⟨hs, hr⟩ | ⟨rfl, e, ho, he, hr⟩
  · exact .inl ⟨⟨h.pos, hs, h.retried⟩, hr⟩
  · refine .inr ⟨rfl, fun n hn => ?_, e, ho, he, hr⟩
    by_contra hle
    rcases Nat.lt_or_eq_of_le (Nat.not_lt.mp hle) with hlt | rfl
    · exact h.retried n hn.pos hlt hn.settles
    · have hfalse := hn.settles e ho
      rw [he] at hfalse
      cases hfalse

end Outcomes

/-! ## The rule of the loop -/

section Rule
variable {σ χ W ε α : Type} {R : W → Type} {D : Device σ χ W R ε} {env : Nat → χ}
  {errors : RetryErrors ε} {operation : Job W R ε α} {policy : RetryPolicy} {name : String}
  {sleep : Rat → Job W R ε Unit} {rand : Job W R ε Rat} {outcomes : Nat → Except ε α}
  {I J : Nat → σ → Prop} {s : σ} {n : Nat}

/-- The end of a loop, after which the invariant of an attempt holds. -/
def EndsIn (errors : RetryErrors ε) (policy : RetryPolicy) (name : String)
    (outcomes : Nat → Except ε α) (J : Nat → σ → Prop) (r : Except ε α) (s : σ) (_ : Nat) : Prop :=
  ∃ m, LoopEnds errors policy name outcomes m r ∧ J m s

theorem ensures_afterAttempt {k : Nat} {next : Job W R ε α} (hle : k + 1 ≤ policy.maxAttempts)
    (hpause : ∀ s n, J (k + 1) s → Job.Ensures D env (fun r s' _ => r = .ok () ∧ I (k + 1) s')
      (rand >>= fun rand => sleep (policy.backoffDelay (k + 1) rand)) s n)
    (hnext : k + 1 ≠ policy.maxAttempts → ¬Settles errors (outcomes (k + 1)) → ∀ s n, I (k + 1) s →
      Job.Ensures D env (EndsIn errors policy name outcomes J) next s n)
    (hretried : ∀ j, 1 ≤ j → j < k + 1 → ¬Settles errors (outcomes j)) (hJ : J (k + 1) s) :
    Job.Ensures D env (EndsIn errors policy name outcomes J)
      (afterAttempt errors policy name sleep rand (k + 1) next (outcomes (k + 1))) s n := by
  have hpos : 1 ≤ k + 1 := by omega
  cases ho : outcomes (k + 1) with
  | ok a =>
      have hs : Settles errors (outcomes (k + 1)) := by rw [ho]; exact settles_ok a
      exact ⟨k + 1, ⟨hpos, hle, hretried, .inl ⟨hs, ho.symm⟩⟩, hJ⟩
  | error e =>
      cases he : errors.retried e with
      | false =>
          have hs : Settles errors (outcomes (k + 1)) := by rw [ho]; exact settles_error.mpr he
          simp only [afterAttempt, he, Bool.false_eq_true, if_false]
          exact ⟨k + 1, ⟨hpos, hle, hretried, .inl ⟨hs, ho.symm⟩⟩, hJ⟩
      | true =>
          have hs : ¬Settles errors (outcomes (k + 1)) := by
            rw [ho, settles_error, he]
            decide
          by_cases hlast : k + 1 = policy.maxAttempts
          · simp only [afterAttempt, he, hlast, if_true]
            exact ⟨k + 1, ⟨hpos, hle, hretried, .inr ⟨hlast, e, ho, he, by rw [hlast]; rfl⟩⟩, hJ⟩
          · simp only [afterAttempt, he, hlast, if_true, if_false]
            -- the pause, and then the attempts after it
            refine Job.ensures_bind.mpr ((Job.ensures_bind.mp (hpause s n hJ)).mono ?_)
            rintro (e' | x) s₁ n₁ h₁
            · cases h₁.1
            · refine Job.ensures_bind.mpr (h₁.mono ?_)
              rintro _ s₂ n₂ ⟨rfl, hI⟩
              exact hnext hlast hs s₂ n₂ hI

/-- The loop from the attempt after `k` failed ones on. -/
theorem ensures_retryLoop_from
    (hinvoke : ∀ k s n, I k s →
      Job.Ensures D env (fun r s' _ => r = outcomes (k + 1) ∧ J (k + 1) s') operation s n)
    (hpause : ∀ k s n, J (k + 1) s → Job.Ensures D env (fun r s' _ => r = .ok () ∧ I (k + 1) s')
      (rand >>= fun rand => sleep (policy.backoffDelay (k + 1) rand)) s n)
    {k left : Nat} (hleft : k + 1 + left = policy.maxAttempts)
    (hretried : ∀ j, 1 ≤ j → j < k + 1 → ¬Settles errors (outcomes j)) (hI : I k s) :
    Job.Ensures D env (EndsIn errors policy name outcomes J)
      (retryLoop errors operation policy name sleep rand (k + 1) (left + 1)) s n := by
  induction left generalizing k s n with
  | zero =>
      refine Job.ensures_bind.mpr (Job.ensures_attempt.mpr ((hinvoke k s n hI).mono ?_))
      rintro _ s' n' ⟨rfl, hJ⟩
      exact ensures_afterAttempt (by omega) (hpause k) (fun hmore => absurd (by omega) hmore) hretried hJ
  | succ left ih =>
      refine Job.ensures_bind.mpr (Job.ensures_attempt.mpr ((hinvoke k s n hI).mono ?_))
      rintro _ s' n' ⟨rfl, hJ⟩
      refine ensures_afterAttempt (by omega) (hpause k) (fun _ hs s n hI => ?_) hretried hJ
      refine ih (by omega) (fun j hj hlt => ?_) hI
      rcases Nat.lt_succ_iff_lt_or_eq.mp hlt with hlt | rfl
      · exact hretried j hj hlt
      · exact hs

/-- A call with retries, where `I k` holds in front of attempt `k + 1` and `J k` behind attempt `k`. -/
theorem ensures_callWithRetry
    (hinvoke : ∀ k s n, I k s →
      Job.Ensures D env (fun r s' _ => r = outcomes (k + 1) ∧ J (k + 1) s') operation s n)
    (hpause : ∀ k s n, J (k + 1) s → Job.Ensures D env (fun r s' _ => r = .ok () ∧ I (k + 1) s')
      (rand >>= fun rand => sleep (policy.backoffDelay (k + 1) rand)) s n) (hI : I 0 s) :
    Job.Ensures D env (EndsIn errors policy name outcomes J)
      (retryLoop errors operation policy name sleep rand 1 policy.maxAttempts) s n := by
  obtain ⟨left, hleft⟩ := Nat.exists_eq_add_of_le policy.maxAttempts_pos
  rw [hleft, Nat.add_comm 1 left]
  exact ensures_retryLoop_from (k := 0) hinvoke hpause hleft.symm (fun j hj hlt => by omega) hI

end Rule

end FleetManagement
