import FleetManagement.Services.Resilience
import Mathlib.Tactic.Linarith
import Mathlib.Tactic.Positivity
import Mathlib.Tactic.Ring

/-!
# One call with retries

`call_with_retry` on every sequence of attempts: how often it invokes the operation, what it returns, when
it pauses and how long it takes.
-/

namespace FleetManagement

/-! ## Attempts -/

inductive AttemptError (ε : Type) where
  | timeout
  | raised (e : ε)

/-- What the operation does when it is invoked under `asyncio.wait_for`. -/
structure Attempt (ε α : Type) where
  outcome : Except (AttemptError ε) α
  seconds : Rat

/-- The exceptions of a call: those of its attempts, and its own. -/
inductive CallError (ε : Type) where
  | attempt (e : AttemptError ε)
  | exhausted (operation : String) (attempts : Nat) (lastError : CallError ε)
  | assertionError

section Outcomes
variable {ε α : Type}

/-- An exception in `retry_on`, or a timeout. -/
def AttemptError.retried (retryOn : ε → Bool) : AttemptError ε → Bool
  | .timeout => true
  | .raised e => retryOn e

def CallError.errors (retryOn : ε → Bool) : RetryErrors (CallError ε) where
  retried
    | .attempt e => e.retried retryOn
    | _ => false
  exhausted := .exhausted
  assertionError := .assertionError

/-- The outcome of the attempt as the call passes it on. -/
def Attempt.passedOn (a : Attempt ε α) : Except (CallError ε) α := a.outcome.mapError .attempt

end Outcomes

/-! ## The run of a call -/

inductive RetryCommand where
  | invoke
  | sleep (seconds : Rat)
  | random

@[reducible] def RetryCommand.Answer (α : Type) : RetryCommand → Type
  | .invoke => α
  | .sleep _ => Unit
  | .random => Rat

/-- A job that uses an operation with results `α`. -/
abbrev RetryJob (ε α β : Type) := Job RetryCommand (RetryCommand.Answer α) (CallError ε) β

section Commands
variable {ε α : Type}

def invoke : RetryJob ε α α := Job.perform RetryCommand.invoke

def sleepFor (seconds : Rat) : RetryJob ε α Unit := Job.perform (RetryCommand.sleep seconds)

def draw : RetryJob ε α Rat := Job.perform RetryCommand.random

end Commands

inductive RetryEvent where
  | attempt (seconds : Rat)
  | pause (seconds : Rat)
  deriving DecidableEq

def RetryEvent.seconds : RetryEvent → Rat
  | .attempt t => t
  | .pause t => t

/-- What has happened so far. -/
structure RetryLog where
  invocations : Nat
  draws : Nat
  events : List RetryEvent

def RetryLog.start : RetryLog := ⟨0, 0, []⟩

/-- The time of the attempts and the pauses. -/
def RetryLog.elapsed (log : RetryLog) : Rat := (log.events.map RetryEvent.seconds).sum

/-- A sequence of attempts, and the values of `rand`. Both are counted from 1. -/
structure Script (ε α : Type) where
  attempts : Nat → Attempt ε α
  rand : Nat → Rat

section Run
variable {ε α : Type} (script : Script ε α) (retryOn : ε → Bool) (policy : RetryPolicy) (name : String)

def scripted : Device RetryLog Unit RetryCommand (RetryCommand.Answer α) (CallError ε)
  | .invoke, _, log =>
      let a := script.attempts (log.invocations + 1)
      (a.passedOn,
        { log with invocations := log.invocations + 1, events := log.events ++ [.attempt a.seconds] })
  | .sleep seconds, _, log => (.ok (), { log with events := log.events ++ [.pause seconds] })
  | .random, _, log => (.ok (script.rand (log.draws + 1)), { log with draws := log.draws + 1 })

/-- `call_with_retry` on the attempts and random values of the script. -/
def callScripted : Job.End RetryLog (CallError ε) α :=
  (retryLoop (CallError.errors retryOn) invoke policy name sleepFor draw 1 policy.maxAttempts).eval
    (scripted script) (fun _ => ()) RetryLog.start 0

/-- The first attempts, each with the pause after it. -/
def failedAttempts : Nat → List RetryEvent
  | 0 => []
  | k + 1 => failedAttempts k ++ [.attempt (script.attempts (k + 1)).seconds,
      .pause (policy.backoffDelay (k + 1) (script.rand (k + 1)))]

/-- The first `m` attempts, with one pause between any two of them. -/
def timeline (m : Nat) : List RetryEvent :=
  failedAttempts script policy (m - 1) ++ [.attempt (script.attempts m).seconds]

end Run

/-! ## The loop -/

section Loop
variable {ε α : Type} {script : Script ε α} {retryOn : ε → Bool} {policy : RetryPolicy} {name : String}

/-- What holds in front of attempt `k + 1`. -/
def BeforeAttempt (script : Script ε α) (policy : RetryPolicy) (k : Nat) (log : RetryLog) : Prop :=
  log = ⟨k, k, failedAttempts script policy k⟩

/-- What holds behind attempt `k`. -/
def BehindAttempt (script : Script ε α) (policy : RetryPolicy) (k : Nat) (log : RetryLog) : Prop :=
  log = ⟨k, k - 1, timeline script policy k⟩

theorem ensures_invoke {k n : Nat} {log : RetryLog} (h : BeforeAttempt script policy k log) :
    Job.Ensures (scripted script) (fun _ => ()) (fun r log' _ =>
      r = (script.attempts (k + 1)).passedOn ∧ BehindAttempt script policy (k + 1) log') invoke log n := by
  cases h
  exact (Job.ensures_perform (w := RetryCommand.invoke)).mpr ⟨rfl, rfl⟩

theorem ensures_pause {k n : Nat} {log : RetryLog} (h : BehindAttempt script policy (k + 1) log) :
    Job.Ensures (scripted script) (fun _ => ()) (fun r log' _ =>
      r = .ok () ∧ BeforeAttempt script policy (k + 1) log')
      (draw >>= fun rand => sleepFor (policy.backoffDelay (k + 1) rand)) log n := by
  cases h
  refine Job.ensures_bind.mpr ((Job.ensures_perform (w := RetryCommand.random)).mpr ?_)
  refine (Job.ensures_perform (w := RetryCommand.sleep _)).mpr ⟨rfl, ?_⟩
  simp [BeforeAttempt, scripted, timeline, failedAttempts]

variable (script retryOn policy name) in
theorem callScripted_ends : ∃ m, LoopEnds (CallError.errors retryOn) policy name
      (fun k => (script.attempts k).passedOn) m (callScripted script retryOn policy name).result ∧
    BehindAttempt script policy m (callScripted script retryOn policy name).state :=
  ensures_callWithRetry (I := BeforeAttempt script policy) (fun _ _ _ => ensures_invoke)
    (fun _ _ _ => ensures_pause) rfl

end Loop

/-! ## Pauses and time -/

section Time
variable {ε α : Type} {script : Script ε α} {policy : RetryPolicy}

theorem RetryPolicy.exponential_nonneg (hbase : 0 ≤ policy.baseDelay) (hmax : 0 ≤ policy.maxDelay)
    (attempt : Nat) : 0 ≤ policy.exponential attempt :=
  le_min hmax (mul_nonneg hbase (by positivity))

theorem backoffDelay_eq (attempt : Nat) (rand : Rat) :
    policy.backoffDelay attempt rand = policy.exponential attempt * ((1 + rand) / 2) := by
  unfold RetryPolicy.backoffDelay RetryPolicy.exponential
  ring

/-- Equal jitter keeps at least half of the exponential part. -/
theorem backoffDelay_bounds (hbase : 0 ≤ policy.baseDelay) (hmax : 0 ≤ policy.maxDelay) (attempt : Nat)
    {rand : Rat} (hrand : 0 ≤ rand ∧ rand ≤ 1) :
    policy.exponential attempt / 2 ≤ policy.backoffDelay attempt rand ∧
      policy.backoffDelay attempt rand ≤ policy.exponential attempt := by
  have hnonneg := RetryPolicy.exponential_nonneg hbase hmax attempt
  obtain ⟨hlow, hhigh⟩ := hrand
  rw [backoffDelay_eq]
  constructor <;> nlinarith

theorem sum_failedAttempts_le (hbase : 0 ≤ policy.baseDelay) (hmax : 0 ≤ policy.maxDelay)
    (hrand : ∀ k, 0 ≤ script.rand k ∧ script.rand k ≤ 1)
    (htime : ∀ k, (script.attempts k).seconds ≤ policy.attemptTimeout) (k : Nat) :
    ((failedAttempts script policy k).map RetryEvent.seconds).sum ≤
      k * policy.attemptTimeout + ((List.range' 1 k).map policy.exponential).sum := by
  induction k with
  | zero => simp [failedAttempts]
  | succ k ih =>
      have hattempt := htime (k + 1)
      have hpause := (backoffDelay_bounds hbase hmax (k + 1) (hrand (k + 1))).2
      simp only [failedAttempts, List.map_append, List.sum_append, List.range'_concat, List.map_cons,
        List.map_nil, List.sum_cons, List.sum_nil, RetryEvent.seconds]
      push_cast
      rw [show 1 + 1 * k = k + 1 by omega]
      linarith

/-- Fewer attempts take no longer. -/
theorem sum_exponential_mono (hbase : 0 ≤ policy.baseDelay) (hmax : 0 ≤ policy.maxDelay) {k l : Nat}
    (h : k ≤ l) : ((List.range' 1 k).map policy.exponential).sum ≤
      ((List.range' 1 l).map policy.exponential).sum := by
  induction l, h using Nat.le_induction with
  | base => exact le_rfl
  | succ l _ ih =>
      rw [List.range'_concat, List.map_append, List.sum_append]
      have hnonneg := RetryPolicy.exponential_nonneg hbase hmax (1 + 1 * l)
      simp only [List.map_cons, List.map_nil, List.sum_cons, List.sum_nil]
      linarith

theorem sum_timeline_le (hbase : 0 ≤ policy.baseDelay) (hmax : 0 ≤ policy.maxDelay)
    (hrand : ∀ k, 0 ≤ script.rand k ∧ script.rand k ≤ 1)
    (htime : ∀ k, (script.attempts k).seconds ≤ policy.attemptTimeout) {m : Nat} (hpos : 1 ≤ m)
    (hm : m ≤ policy.maxAttempts) :
    ((timeline script policy m).map RetryEvent.seconds).sum ≤ policy.worstCaseSeconds := by
  obtain ⟨k, rfl⟩ := Nat.exists_eq_add_of_le' hpos
  have hfailed := sum_failedAttempts_le hbase hmax hrand htime k
  have hlast := htime (k + 1)
  have hpauses := sum_exponential_mono hbase hmax (show k ≤ policy.maxAttempts - 1 by omega)
  have hattempts : ((k + 1 : Nat) : Rat) * policy.attemptTimeout ≤
      policy.maxAttempts * policy.attemptTimeout :=
    mul_le_mul_of_nonneg_right (by exact_mod_cast hm) policy.attemptTimeout_pos.le
  have hsum : ((timeline script policy (k + 1)).map RetryEvent.seconds).sum =
      ((failedAttempts script policy k).map RetryEvent.seconds).sum +
        (script.attempts (k + 1)).seconds := by
    simp [timeline, RetryEvent.seconds]
  unfold RetryPolicy.worstCaseSeconds
  push_cast at hattempts
  rw [hsum]
  linarith

end Time

/-! ## The whole call -/

/-- What `call_with_retry` promises. -/
structure CallSpec {ε α : Type} (script : Script ε α) (retryOn : ε → Bool) (policy : RetryPolicy)
    (name : String) (call : Job.End RetryLog (CallError ε) α) : Prop where
  /-- The operation is invoked up to the first outcome that is not retried, `max_attempts` times at most. -/
  invocations : ∀ n, SettlesFirstAt (CallError.errors retryOn) (fun k => (script.attempts k).passedOn) n →
    call.state.invocations = min n policy.maxAttempts
  all : (∀ n, ¬SettlesFirstAt (CallError.errors retryOn) (fun k => (script.attempts k).passedOn) n) →
    call.state.invocations = policy.maxAttempts
  settled : ∀ n, SettlesFirstAt (CallError.errors retryOn) (fun k => (script.attempts k).passedOn) n →
    n ≤ policy.maxAttempts → call.result = (script.attempts n).passedOn
  exhausted : (∀ n, SettlesFirstAt (CallError.errors retryOn) (fun k => (script.attempts k).passedOn) n →
      policy.maxAttempts < n) →
    ∃ e, (script.attempts policy.maxAttempts).outcome = .error e ∧
      call.result = .error (.exhausted name policy.maxAttempts (.attempt e))
  /-- One pause between any two consecutive attempts. -/
  events : call.state.events = timeline script policy call.state.invocations
  pauses : ∀ k, 1 ≤ k → k < call.state.invocations →
    policy.exponential k / 2 ≤ policy.backoffDelay k (script.rand k) ∧
      policy.backoffDelay k (script.rand k) ≤ policy.exponential k
  elapsed : call.state.elapsed ≤ policy.worstCaseSeconds
  reachable : call.result ≠ .error .assertionError

section Spec
variable {ε α : Type} {script : Script ε α} {retryOn : ε → Bool} {policy : RetryPolicy} {name : String}

theorem passedOn_error {a : Attempt ε α} {e : CallError ε} (h : a.passedOn = .error e) :
    ∃ e', a.outcome = .error e' ∧ e = .attempt e' := by
  unfold Attempt.passedOn at h
  cases ho : a.outcome with
  | ok x => rw [ho] at h; cases h
  | error e' =>
      rw [ho] at h
      cases h
      exact ⟨e', rfl, rfl⟩

theorem result_ne_assertionError {m : Nat} {r : Except (CallError ε) α}
    (h : LoopEnds (CallError.errors retryOn) policy name (fun k => (script.attempts k).passedOn) m r) :
    r ≠ .error .assertionError := by
  intro hr
  rcases h.result with ⟨-, hr'⟩ | ⟨-, e, -, -, hr'⟩
  · obtain ⟨e', -, he⟩ := passedOn_error (hr'.symm.trans hr)
    cases he
  · cases hr'.symm.trans hr

theorem callWithRetry_spec (hbase : 0 ≤ policy.baseDelay) (hmax : 0 ≤ policy.maxDelay)
    (hrand : ∀ k, 0 ≤ script.rand k ∧ script.rand k ≤ 1)
    (htime : ∀ k, (script.attempts k).seconds ≤ policy.attemptTimeout) :
    CallSpec script retryOn policy name (callScripted script retryOn policy name) := by
  obtain ⟨m, h, hlog⟩ := callScripted_ends script retryOn policy name
  have hinvocations : (callScripted script retryOn policy name).state.invocations = m :=
    congrArg RetryLog.invocations hlog
  have hevents : (callScripted script retryOn policy name).state.events = timeline script policy m :=
    congrArg RetryLog.events hlog
  refine ⟨fun n hn => ?_, fun hnone => ?_, fun n hn hlen => ?_, fun hlate => ?_, ?_,
    fun k _ _ => backoffDelay_bounds hbase hmax k (hrand k), ?_, result_ne_assertionError h⟩
  · rw [hinvocations]
    rcases h.settles_or with ⟨hm, -⟩ | ⟨rfl, hlate, -⟩
    · rw [hn.unique hm]
      exact (min_eq_left h.le).symm
    · exact (min_eq_right (hlate n hn).le).symm
  · rcases h.settles_or with ⟨hm, -⟩ | ⟨rfl, -, -⟩
    · exact absurd hm (hnone m)
    · exact hinvocations
  · rcases h.settles_or with ⟨hm, hr⟩ | ⟨-, hlate, -⟩
    · rw [hr, hn.unique hm]
    · exact absurd (hlate n hn) (Nat.not_lt.mpr hlen)
  · rcases h.settles_or with ⟨hm, -⟩ | ⟨rfl, -, e, ho, -, hr⟩
    · exact absurd (hlate m hm) (Nat.not_lt.mpr h.le)
    · obtain ⟨e', ho', rfl⟩ := passedOn_error ho
      exact ⟨e', ho', hr⟩
  · rw [hinvocations, hevents]
  · unfold RetryLog.elapsed
    rw [hevents]
    exact sum_timeline_le hbase hmax hrand htime h.pos h.le

end Spec

/-- A timeout, a lost connection, and then a value. -/
def flakyScript : Script String Nat where
  attempts k := if k = 1 then ⟨.error .timeout, 2⟩
    else if k = 2 then ⟨.error (.raised "ConnectionError"), 1⟩
    else ⟨.ok 72, 1⟩
  rand _ := 1

theorem flaky_attempts : 1 ≤ 3 := by decide

theorem flaky_timeout : (0 : Rat) < 2 := by decide

def flakyPolicy : RetryPolicy := ⟨3, 2, 1, 2, flaky_attempts, flaky_timeout⟩

theorem flakyScript_spec : CallSpec flakyScript (fun e => e = "ConnectionError") flakyPolicy
    "redis.hgetall" (callScripted flakyScript (fun e => e = "ConnectionError") flakyPolicy
      "redis.hgetall") :=
  callWithRetry_spec (by decide) (by decide) (fun _ => ⟨zero_le_one, le_rfl⟩) fun k => by
    show (if k = 1 then _ else if k = 2 then _ else _ : Attempt String Nat).seconds ≤ 2
    split_ifs <;> decide

end FleetManagement
