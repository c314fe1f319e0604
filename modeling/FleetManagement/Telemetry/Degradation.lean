import FleetManagement.Services.Resilience
import FleetManagement.Telemetry.Positions

/-!
# The state of a vehicle while Redis fails

What `get_vehicle_state` answers for every sequence of outcomes of its Redis reads and every content of
the database.
-/

namespace FleetManagement

/-! ## Outcomes of Redis -/

/-- The reads of Redis end as scripted, counted from 1; everything else is done by the backend. -/
structure Replay where
  backend : Backend
  reads : Nat
  /-- How often the database was asked. -/
  queries : Nat

def Replay.start (db : Database) : Replay := ⟨⟨db, none, Redis.empty, []⟩, 0, 0⟩

/-- `none` is the empty hash. -/
abbrev RedisOutcomes := Nat → Except RedisError (Option VehicleHash)

def replayed (outcomes : RedisOutcomes) : Device Replay Circumstance Command Command.Answer Failure
  | .hgetall _, _, s => ((outcomes (s.reads + 1)).mapError .redis, { s with reads := s.reads + 1 })
  | .selectLatestReading id, c, s =>
      let (r, backend) := device (.selectLatestReading id) c s.backend
      (r, { s with backend, queries := s.queries + 1 })
  | w, c, s =>
      let (r, backend) := device w c s.backend
      (r, { s with backend })

/-- PostgreSQL answers, and `rand` is `random.random()`. -/
def answering (rand : Nat → Rat) : Nat → Circumstance := fun n => { Circumstance.calm with random := rand n }

/-- `get_vehicle_state` with a policy. -/
def stateRun (db : Database) (outcomes : RedisOutcomes) (rand : Nat → Rat) (vehicleId : Int)
    (policy : RetryPolicy) : Job.End Replay Failure VehicleStateRead :=
  (getVehicleState vehicleId (some policy)).eval (replayed outcomes) (answering rand)
    (Replay.start db) 0

/-! ## What is asked of the answer -/

/-- A transient error or a timeout. -/
def RedisError.IsTransient (e : RedisError) : Prop :=
  e = .attemptTimedOut ∨ e ∈ redisTransientErrors

/-- `n` is the position of the first non-transient outcome within the attempts. -/
structure FirstWithin (policy : RetryPolicy) (outcomes : RedisOutcomes) (n : Nat) : Prop where
  pos : 1 ≤ n
  le : n ≤ policy.maxAttempts
  settles : ∀ e, outcomes n = .error e → ¬e.IsTransient
  transient : ∀ k, 1 ≤ k → k < n → ∃ e, outcomes k = .error e ∧ e.IsTransient

def AllTransient (policy : RetryPolicy) (outcomes : RedisOutcomes) : Prop :=
  ∀ k, 1 ≤ k → k ≤ policy.maxAttempts → ∃ e, outcomes k = .error e ∧ e.IsTransient

/-- The newest stored reading of the vehicle. -/
def Database.IsNewest (db : Database) (vehicleId : Int) (r : TelemetryReading) : Prop :=
  r ∈ db.telemetryReadings.rows ∧ r.vehicleId = vehicleId ∧
    ∀ q ∈ db.telemetryReadings.rows, q.vehicleId = vehicleId → q.recordedAt ≤ r.recordedAt

def Database.HasReading (db : Database) (vehicleId : Int) : Prop :=
  ∃ r ∈ db.telemetryReadings.rows, r.vehicleId = vehicleId

/-- What is asked of a request that ends with `r`, after `reads` reads of Redis and `queries` of the
database. -/
structure StateSpec (db : Database) (outcomes : RedisOutcomes) (vehicleId : Int) (policy : RetryPolicy)
    (r : Except Failure VehicleStateRead) (reads queries : Nat) : Prop where
  cache : (∃ state, r = .ok state ∧ state.source = .cache ∧ state.degraded = false) ↔
    ∃ n hash, FirstWithin policy outcomes n ∧ outcomes n = .ok (some hash)
  cached : ∀ n hash, FirstWithin policy outcomes n → outcomes n = .ok (some hash) →
    r = .ok (fromCache vehicleId hash)
  stored : (∃ reading, db.IsNewest vehicleId reading ∧ r = .ok (fromReading reading false)) ↔
    (∃ n, FirstWithin policy outcomes n ∧ outcomes n = .ok none) ∧ db.HasReading vehicleId
  notFound : r = .error (noTelemetry vehicleId) ↔
    (∃ n, FirstWithin policy outcomes n ∧ outcomes n = .ok none) ∧ ¬db.HasReading vehicleId
  degraded : (∃ reading, db.IsNewest vehicleId reading ∧ r = .ok (fromReading reading true)) ↔
    AllTransient policy outcomes ∧ db.HasReading vehicleId
  unavailable : r = .error (stateUnavailable vehicleId) ↔
    AllTransient policy outcomes ∧ ¬db.HasReading vehicleId
  /-- Any other error propagates at once, and the database is not asked. -/
  other : ∀ n e, FirstWithin policy outcomes n → outcomes n = .error e →
    r = .error (.redis e) ∧ reads = n ∧ queries = 0
  contained : ∀ e, e.IsTransient → r ≠ .error (.redis e)

/-! ## The reads of Redis -/

section Reads
variable {db : Database} {outcomes : RedisOutcomes} {rand : Nat → Rat} {vehicleId : Int}
  {policy : RetryPolicy}

theorem retryErrors_transient (e : RedisError) :
    (Failure.retryErrors Failure.isTransient).retried (.redis e) ↔ e.IsTransient := by
  simp [Failure.retryErrors, Failure.isTransient, RedisError.IsTransient]

theorem settles_mapError {o : Except RedisError (Option VehicleHash)} :
    Settles (Failure.retryErrors Failure.isTransient) (o.mapError Failure.redis) ↔
      ∀ e, o = .error e → ¬e.IsTransient := by
  cases o with
  | ok cached => exact ⟨fun _ e h => (by cases h), fun _ => settles_ok cached⟩
  | error e =>
      rw [show (Except.error e : Except RedisError (Option VehicleHash)).mapError Failure.redis =
        .error (.redis e) from rfl, settles_error, ← Bool.not_eq_true, retryErrors_transient]
      exact ⟨fun h e' he => (by cases he; exact h), fun h => h e rfl⟩

/-- The Redis read, when it has ended after `m` attempts. -/
theorem ensures_redisRead {n : Nat} :
    Job.Ensures (replayed outcomes) (answering rand)
      (EndsIn (Failure.retryErrors Failure.isTransient) policy "redis.hgetall"
        (fun k => (outcomes k).mapError .redis) fun m s => s = ⟨(Replay.start db).backend, m, 0⟩)
      (callWithRetry (ask (.hgetall (vehicleStateKey vehicleId))) policy Failure.isTransient
        "redis.hgetall") (Replay.start db) n := by
  unfold callWithRetry
  rw [retryFrom_eq_retryLoop]
  refine ensures_callWithRetry (I := fun m s => s = ⟨(Replay.start db).backend, m, 0⟩) ?_ ?_ rfl
  · rintro k _ n rfl
    exact (Job.ensures_perform (w := Command.hgetall _)).mpr ⟨rfl, rfl⟩
  · rintro k _ n rfl
    refine Job.ensures_bind.mpr ((Job.ensures_perform (w := Command.random)).mpr ?_)
    exact (Job.ensures_perform (w := Command.sleep _)).mpr ⟨rfl, rfl⟩

theorem firstWithin_of_settlesFirstAt {m : Nat}
    (h : SettlesFirstAt (Failure.retryErrors Failure.isTransient)
      (fun k => (outcomes k).mapError Failure.redis) m) (hle : m ≤ policy.maxAttempts) :
    FirstWithin policy outcomes m := by
  refine ⟨h.pos, hle, settles_mapError.mp h.settles, fun k hk hlt => ?_⟩
  have hretried := h.retried k hk hlt
  rw [settles_mapError] at hretried
  push Not at hretried
  exact hretried

theorem allTransient_of_exhausted {m : Nat} {e : Failure}
    (h : ∀ k, 1 ≤ k → k < m → ¬Settles (Failure.retryErrors Failure.isTransient)
      ((outcomes k).mapError Failure.redis)) (hm : m = policy.maxAttempts)
    (ho : (outcomes m).mapError Failure.redis = .error e)
    (he : (Failure.retryErrors Failure.isTransient).retried e) : AllTransient policy outcomes := by
  intro k hk hle
  rcases Nat.lt_or_eq_of_le hle with hlt | rfl
  · have hretried := h k hk (by omega)
    rw [settles_mapError] at hretried
    push Not at hretried
    exact hretried
  · rw [hm] at ho
    cases hk : outcomes policy.maxAttempts with
    | ok cached => rw [hk] at ho; cases ho
    | error e' =>
        rw [hk] at ho
        cases ho
        exact ⟨e', rfl, (retryErrors_transient e').mp he⟩

/-! ## The answer -/

/-- The newest reading of the vehicle as the fallback to the database serves it. -/
def lookedUp (db : Database) (vehicleId : Int) (degraded : Bool) (missing : Failure) :
    Except Failure VehicleStateRead :=
  if isInteger vehicleId then
    answered missing ((db.newestReading vehicleId).map fun reading => fromReading reading degraded)
  else .error (.error .dataError)

/-- How a request ends. -/
inductive StateEnds (db : Database) (outcomes : RedisOutcomes) (vehicleId : Int) (policy : RetryPolicy) :
    Except Failure VehicleStateRead → Nat → Nat → Prop where
  | cached {n reads queries : Nat} {hash : VehicleHash} (first : FirstWithin policy outcomes n)
      (outcome : outcomes n = .ok (some hash)) :
      StateEnds db outcomes vehicleId policy (.ok (fromCache vehicleId hash)) reads queries
  | missed {n reads queries : Nat} (first : FirstWithin policy outcomes n)
      (outcome : outcomes n = .ok none) :
      StateEnds db outcomes vehicleId policy (lookedUp db vehicleId false (noTelemetry vehicleId))
        reads queries
  | failed {n : Nat} {e : RedisError} (first : FirstWithin policy outcomes n)
      (outcome : outcomes n = .error e) : StateEnds db outcomes vehicleId policy (.error (.redis e)) n 0
  | exhausted {reads queries : Nat} (all : AllTransient policy outcomes) :
      StateEnds db outcomes vehicleId policy (lookedUp db vehicleId true (stateUnavailable vehicleId))
        reads queries

theorem replayed_selectLatestReading (m n : Nat) :
    (replayed outcomes (.selectLatestReading vehicleId) (answering rand n)
      ⟨(Replay.start db).backend, m, 0⟩).1 =
      if isInteger vehicleId then .ok (db.newestReading vehicleId) else .error (.error .dataError) := by
  show (device (.selectLatestReading vehicleId) (answering rand n) (Replay.start db).backend).1 = _
  by_cases hi : isInteger vehicleId
  · rw [if_pos hi, device_selectLatestReading rfl hi]
    rfl
  · rw [if_neg hi]
    have hint : integer vehicleId = .error .dataError := if_neg hi
    simp [device, Backend.onDatabase, answering, Circumstance.calm, Database.selectLatestReading, hint,
      Except.mapError, bind, Except.bind]

/-- The fallback to the database. -/
theorem ensures_fallback {m n : Nat} (degraded : Bool) (missing : Failure) :
    Job.Ensures (replayed outcomes) (answering rand)
      (fun r _ _ => r = lookedUp db vehicleId degraded missing)
      (do match ← ask (.selectLatestReading vehicleId) with
          | none => .raise missing
          | some reading => return fromReading reading degraded)
      ⟨(Replay.start db).backend, m, 0⟩ n := by
  refine Job.ensures_bind.mpr ((Job.ensures_perform (w := Command.selectLatestReading vehicleId)).mpr ?_)
  rw [replayed_selectLatestReading]
  unfold lookedUp
  by_cases hi : isInteger vehicleId
  · rw [if_pos hi, if_pos hi]
    cases db.newestReading vehicleId with
    | none => exact rfl
    | some reading => exact rfl
  · rw [if_neg hi, if_neg hi]

end Reads

theorem stateRun_ends (db : Database) (outcomes : RedisOutcomes) (rand : Nat → Rat) (vehicleId : Int)
    (policy : RetryPolicy) : StateEnds db outcomes vehicleId policy
      (stateRun db outcomes rand vehicleId policy).result
      (stateRun db outcomes rand vehicleId policy).state.reads
      (stateRun db outcomes rand vehicleId policy).state.queries := by
  show Job.Ensures (replayed outcomes) (answering rand)
    (fun r s _ => StateEnds db outcomes vehicleId policy r s.reads s.queries) _ _ _
  unfold getVehicleState
  refine Job.ensures_bind.mpr (Job.ensures_attempt.mpr (ensures_redisRead.mono ?_))
  rintro r s n ⟨m, h, rfl⟩
  rcases h.settles_or with ⟨hm, rfl⟩ | ⟨hm, -, e, ho, he, rfl⟩
  · have hfirst := firstWithin_of_settlesFirstAt hm h.le
    cases ho : outcomes m with
    | error e => exact .failed hfirst ho
    | ok cached =>
        cases cached with
        | some hash => exact .cached hfirst ho
        | none =>
            refine (ensures_fallback false (noTelemetry vehicleId)).mono ?_
            rintro _ s n rfl
            exact .missed hfirst ho
  · have hall := allTransient_of_exhausted h.retried hm ho he
    refine (ensures_fallback true (stateUnavailable vehicleId)).mono ?_
    rintro _ s n rfl
    exact .exhausted hall

/-! ## When the answer is right -/

section Spec
variable {db : Database} {outcomes : RedisOutcomes} {vehicleId : Int} {policy : RetryPolicy}
  {r : Except Failure VehicleStateRead} {m n reads queries : Nat}

theorem FirstWithin.unique (hm : FirstWithin policy outcomes m) (hn : FirstWithin policy outcomes n) :
    m = n := by
  rcases Nat.lt_trichotomy m n with hlt | rfl | hlt
  · obtain ⟨e, ho, he⟩ := hn.transient m hm.pos hlt
    exact absurd he (hm.settles e ho)
  · rfl
  · obtain ⟨e, ho, he⟩ := hm.transient n hn.pos hlt
    exact absurd he (hn.settles e ho)

theorem FirstWithin.not_all (hn : FirstWithin policy outcomes n) : ¬AllTransient policy outcomes := by
  intro hall
  obtain ⟨e, ho, he⟩ := hall n hn.pos hn.le
  exact hn.settles e ho he

/-- Only one outcome is the first one. -/
theorem FirstWithin.outcome_eq (hm : FirstWithin policy outcomes m) (hn : FirstWithin policy outcomes n)
    {o o' : Except RedisError (Option VehicleHash)} (ho : outcomes m = o) (ho' : outcomes n = o') :
    o = o' := by
  rw [← ho, ← ho', hm.unique hn]

theorem isNewest_of_newestReading {reading : TelemetryReading}
    (h : db.newestReading vehicleId = some reading) : db.IsNewest vehicleId reading := by
  have hmem := List.mem_filter.mp (Query.newest?_mem h)
  exact ⟨hmem.1, of_decide_eq_true hmem.2, fun q hq hid =>
    Query.newest?_max h q (List.mem_filter.mpr ⟨hq, decide_eq_true hid⟩)⟩

theorem newestReading_eq_none : db.newestReading vehicleId = none ↔ ¬db.HasReading vehicleId := by
  unfold Database.newestReading Database.HasReading
  rw [Query.newest?_eq_none, List.filter_eq_nil_iff]
  simp

variable (db) in
/-- What the fallback serves, for an id that the column can hold. -/
theorem lookedUp_cases (hi : isInteger vehicleId) (served : Bool) (missing : Failure) :
    (db.HasReading vehicleId ∧ ∃ reading, db.IsNewest vehicleId reading ∧
      lookedUp db vehicleId served missing = .ok (fromReading reading served)) ∨
    (¬db.HasReading vehicleId ∧ lookedUp db vehicleId served missing = .error missing) := by
  unfold lookedUp
  rw [if_pos hi]
  cases hr : db.newestReading vehicleId with
  | none => exact .inr ⟨newestReading_eq_none.mp hr, rfl⟩
  | some reading =>
      have hsome : db.HasReading vehicleId := by
        by_contra hnone
        rw [newestReading_eq_none.mpr hnone] at hr
        cases hr
      exact .inl ⟨hsome, reading, isNewest_of_newestReading hr, rfl⟩

theorem fromReading_ne_fromCache {reading : TelemetryReading} {served : Bool} {hash : VehicleHash} :
    (.ok (fromReading reading served) : Except Failure VehicleStateRead) ≠
      .ok (fromCache vehicleId hash) := by
  intro h
  cases congrArg VehicleStateRead.source (Except.ok.inj h)

variable (db) in
/-- An answer of the fallback is none of Redis. -/
theorem lookedUp_ne (hi : isInteger vehicleId) (served : Bool) (missing : Failure) :
    (∀ state, lookedUp db vehicleId served missing = .ok state → state.source = .database) ∧
    (∀ reading, lookedUp db vehicleId served missing ≠ .ok (fromReading reading !served)) ∧
    ∀ e, lookedUp db vehicleId served missing = .error e → e = missing := by
  rcases lookedUp_cases db hi served missing with ⟨-, reading, -, hr⟩ | ⟨-, hr⟩
  · rw [hr]
    refine ⟨fun state h => ?_, fun reading' h => ?_, fun e h => by cases h⟩
    · rw [← Except.ok.inj h]
      rfl
    · have hdegraded := congrArg VehicleStateRead.degraded (Except.ok.inj h)
      cases served <;> cases hdegraded
  · rw [hr]
    exact ⟨fun state h => (by cases h), fun reading h => (by cases h), fun e h => (Except.error.inj h).symm⟩

variable (db) in
/-- The fallback serves a reading exactly if the vehicle has one. -/
theorem lookedUp_iff (hi : isInteger vehicleId) (served : Bool) (missing : Failure) :
    ((∃ reading, db.IsNewest vehicleId reading ∧
      lookedUp db vehicleId served missing = .ok (fromReading reading served)) ↔ db.HasReading vehicleId) ∧
    (lookedUp db vehicleId served missing = .error missing ↔ ¬db.HasReading vehicleId) := by
  rcases lookedUp_cases db hi served missing with ⟨hhas, reading, hnew, hr⟩ | ⟨hnone, hr⟩
  · rw [hr]
    exact ⟨iff_of_true ⟨reading, hnew, rfl⟩ hhas, iff_of_false (fun h => by cases h) (not_not.mpr hhas)⟩
  · rw [hr]
    exact ⟨iff_of_false (fun ⟨_, _, h⟩ => by cases h) hnone, iff_of_true rfl hnone⟩

theorem StateEnds.spec (h : StateEnds db outcomes vehicleId policy r reads queries)
    (hfits : isInteger vehicleId ∨ ∃ n, FirstWithin policy outcomes n ∧ outcomes n ≠ .ok none) :
    StateSpec db outcomes vehicleId policy r reads queries := by
  cases h with
  | @cached n _ _ hash first outcome =>
      have hempty : ¬∃ n, FirstWithin policy outcomes n ∧ outcomes n = .ok none := by
        rintro ⟨k, hk, ho⟩
        cases first.outcome_eq hk outcome ho
      exact
        { cache := iff_of_true ⟨_, rfl, rfl, rfl⟩ ⟨n, hash, first, outcome⟩
          cached := fun k hash' hk ho => by cases first.outcome_eq hk outcome ho; rfl
          stored := iff_of_false (fun ⟨_, _, hr⟩ => fromReading_ne_fromCache hr.symm) fun h => hempty h.1
          notFound := iff_of_false (fun hr => by cases hr) fun h => hempty h.1
          degraded := iff_of_false (fun ⟨_, _, hr⟩ => fromReading_ne_fromCache hr.symm)
            fun h => first.not_all h.1
          unavailable := iff_of_false (fun hr => by cases hr) fun h => first.not_all h.1
          other := fun k e hk ho => by cases first.outcome_eq hk outcome ho
          contained := fun e _ hr => by cases hr }
  | @failed n e first outcome =>
      have hempty : ¬∃ n, FirstWithin policy outcomes n ∧ outcomes n = .ok none := by
        rintro ⟨k, hk, ho⟩
        cases first.outcome_eq hk outcome ho
      exact
        { cache := iff_of_false (fun ⟨_, hr, _⟩ => by cases hr)
            fun ⟨k, _, hk, ho⟩ => by cases first.outcome_eq hk outcome ho
          cached := fun k hash' hk ho => by cases first.outcome_eq hk outcome ho
          stored := iff_of_false (fun ⟨_, _, hr⟩ => by cases hr) fun h => hempty h.1
          notFound := iff_of_false (fun hr => by cases hr) fun h => hempty h.1
          degraded := iff_of_false (fun ⟨_, _, hr⟩ => by cases hr) fun h => first.not_all h.1
          unavailable := iff_of_false (fun hr => by cases hr) fun h => first.not_all h.1
          other := fun k e' hk ho => by
            cases first.outcome_eq hk outcome ho
            exact ⟨rfl, first.unique hk, rfl⟩
          contained := fun e' he' hr => by
            cases hr
            exact first.settles e outcome he' }
  | @missed n _ _ first outcome =>
      have hi : isInteger vehicleId := hfits.resolve_right fun ⟨k, hk, ho⟩ =>
        ho (hk.unique first ▸ outcome)
      obtain ⟨hsource, hserved, hmissing⟩ :=
        lookedUp_ne db hi false (noTelemetry vehicleId)
      obtain ⟨hstored, hnone⟩ :=
        lookedUp_iff db hi false (noTelemetry vehicleId)
      have hempty : ∃ n, FirstWithin policy outcomes n ∧ outcomes n = .ok none := ⟨n, first, outcome⟩
      exact
        { cache := iff_of_false (fun ⟨state, hr, hs, _⟩ => by cases (hsource state hr).symm.trans hs)
            fun ⟨k, _, hk, ho⟩ => by cases first.outcome_eq hk outcome ho
          cached := fun k hash hk ho => by cases first.outcome_eq hk outcome ho
          stored := hstored.trans ⟨fun h => ⟨hempty, h⟩, fun h => h.2⟩
          notFound := hnone.trans ⟨fun h => ⟨hempty, h⟩, fun h => h.2⟩
          degraded := iff_of_false (fun ⟨reading, _, hr⟩ => hserved reading hr) fun h => first.not_all h.1
          unavailable := iff_of_false (fun hr => by cases hmissing _ hr) fun h => first.not_all h.1
          other := fun k e hk ho => by cases first.outcome_eq hk outcome ho
          contained := fun e _ hr => by cases hmissing _ hr }
  | @exhausted _ _ all =>
      have hi : isInteger vehicleId := hfits.resolve_right fun ⟨k, hk, _⟩ => hk.not_all all
      obtain ⟨hsource, hserved, hmissing⟩ :=
        lookedUp_ne db hi true (stateUnavailable vehicleId)
      obtain ⟨hstored, hnone⟩ :=
        lookedUp_iff db hi true (stateUnavailable vehicleId)
      exact
        { cache := iff_of_false (fun ⟨state, hr, hs, _⟩ => by cases (hsource state hr).symm.trans hs)
            fun ⟨_, _, hk, _⟩ => hk.not_all all
          cached := fun k hash hk _ => absurd all hk.not_all
          stored := iff_of_false (fun ⟨reading, _, hr⟩ => hserved reading hr)
            fun ⟨⟨_, hk, _⟩, _⟩ => hk.not_all all
          notFound := iff_of_false (fun hr => by cases hmissing _ hr) fun ⟨⟨_, hk, _⟩, _⟩ => hk.not_all all
          degraded := hstored.trans ⟨fun h => ⟨all, h⟩, fun h => h.2⟩
          unavailable := hnone.trans ⟨fun h => ⟨all, h⟩, fun h => h.2⟩
          other := fun k e hk _ => absurd all hk.not_all
          contained := fun e _ hr => by cases hmissing _ hr }

/-- An id that the column cannot hold has no right answer from the database. -/
theorem not_spec_of_overflow (hi : ¬isInteger vehicleId) {served : Bool} {missing : Failure}
    (h : (∃ n, FirstWithin policy outcomes n ∧ outcomes n = .ok none) ∨ AllTransient policy outcomes) :
    ¬StateSpec db outcomes vehicleId policy (lookedUp db vehicleId served missing) reads queries := by
  intro hspec
  unfold lookedUp at hspec
  rw [if_neg hi] at hspec
  by_cases hhas : db.HasReading vehicleId
  · rcases h with hempty | hall
    · obtain ⟨reading, -, hr⟩ := hspec.stored.mpr ⟨hempty, hhas⟩
      cases hr
    · obtain ⟨reading, -, hr⟩ := hspec.degraded.mpr ⟨hall, hhas⟩
      cases hr
  · rcases h with hempty | hall
    · cases hspec.notFound.mpr ⟨hempty, hhas⟩
    · cases hspec.unavailable.mpr ⟨hall, hhas⟩

/-- The answer is right exactly if the database is not asked for an id that its column cannot hold. -/
theorem vehicleState_spec_iff (db : Database) (outcomes : RedisOutcomes) (rand : Nat → Rat)
    (vehicleId : Int) (policy : RetryPolicy) :
    StateSpec db outcomes vehicleId policy (stateRun db outcomes rand vehicleId policy).result
      (stateRun db outcomes rand vehicleId policy).state.reads
      (stateRun db outcomes rand vehicleId policy).state.queries ↔
    isInteger vehicleId ∨ ∃ n, FirstWithin policy outcomes n ∧ outcomes n ≠ .ok none := by
  have hends := stateRun_ends db outcomes rand vehicleId policy
  refine ⟨fun hspec => ?_, hends.spec⟩
  by_contra hnot
  obtain ⟨hi, hfirst⟩ := not_or.mp hnot
  generalize (stateRun db outcomes rand vehicleId policy).result = r at hends hspec
  generalize (stateRun db outcomes rand vehicleId policy).state.reads = reads at hends hspec
  generalize (stateRun db outcomes rand vehicleId policy).state.queries = queries at hends hspec
  cases hends with
  | cached first outcome => exact hfirst ⟨_, first, by rw [outcome]; simp⟩
  | failed first outcome => exact hfirst ⟨_, first, by rw [outcome]; simp⟩
  | missed first outcome => exact not_spec_of_overflow hi (.inl ⟨_, first, outcome⟩) hspec
  | exhausted all => exact not_spec_of_overflow hi (.inr all) hspec

/-- Redis answers with the empty hash, and the id is one more than the column can hold. -/
theorem large_id_has_no_answer : ¬StateSpec Database.empty (fun _ => .ok none) 2147483648 samplePolicy
    (stateRun Database.empty (fun _ => .ok none) (fun _ => 0) 2147483648 samplePolicy).result
    (stateRun Database.empty (fun _ => .ok none) (fun _ => 0) 2147483648 samplePolicy).state.reads
    (stateRun Database.empty (fun _ => .ok none) (fun _ => 0) 2147483648 samplePolicy).state.queries := by
  intro hspec
  have hempty : ∃ n, FirstWithin samplePolicy (fun _ => .ok none) n ∧
      (fun _ => .ok none : RedisOutcomes) n = .ok none :=
    ⟨1, ⟨le_rfl, sample_attempts.trans le_rfl, fun e h => (by cases h), fun k hk hlt => by omega⟩, rfl⟩
  have hnone : ¬Database.empty.HasReading 2147483648 := by
    rintro ⟨reading, hmem, -⟩
    cases hmem
  cases hspec.notFound.mpr ⟨hempty, hnone⟩

end Spec

end FleetManagement
