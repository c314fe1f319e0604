import FleetManagement.Library.Runs
import FleetManagement.Telemetry.Worker

/-!
# Workers at one cache

Any number of workers that execute `update_vehicle_state` at the same time. The `HGET` of a worker and
its `HSET` are two commands, between which the commands of other workers can take effect.
-/

namespace FleetManagement

/-! ## `update_vehicle_state`, command by command -/

/-- What is left of `update_vehicle_state` once its `HSET` is answered. -/
def afterWrite : Except Failure Unit → Work Bool
  | .ok _ => .ret true
  | .error e => .raise e

/-- What is left of `update_vehicle_state` once its `HGET` is answered. -/
def afterRead (m : TelemetryMessage) : Except Failure (Option AwareDatetime) → Work Bool
  | .ok cachedAt =>
      if cachedAt.any fun t => m.recordedAt.instant ≤ t.instant then .ret false
      else .call (.hset (vehicleStateKey m.vehicleId) m.mapping) afterWrite
  | .error e => .raise e

theorem updateVehicleState_eq (m : TelemetryMessage) :
    updateVehicleState m = .call (.hget (vehicleStateKey m.vehicleId)) (afterRead m) := by
  have hwrite : ∀ x : Except Failure Unit, (Job.ofExcept x : Work Unit) >>= (fun _ => .ret true) =
      afterWrite x := by
    rintro (_ | _) <;> rfl
  have hread : ∀ x, (Job.ofExcept x : Work (Option AwareDatetime)) >>= (fun cachedAt =>
      if cachedAt.any fun t => m.recordedAt.instant ≤ t.instant then .ret false
      else .call (.hset (vehicleStateKey m.vehicleId) m.mapping)
        fun y => (Job.ofExcept y : Work Unit) >>= fun _ => .ret true) = afterRead m x := by
    rintro (_ | _)
    · rfl
    · simp only [hwrite]
      rfl
  exact congrArg _ (funext hread)

section Device
variable {c : Circumstance}

/-- The command does not fail before it takes effect. -/
def Circumstance.takesEffect (c : Circumstance) : Prop := ∀ e, c.redis ≠ some (.before, e)

theorem device_hget_steady (key : String) (s : Backend) (hc : c.restarts = false) :
    ((device (.hget key) c s).1 = .ok ((s.redis key).map (·.recordedAt)) ∨
      ∃ e, (device (.hget key) c s).1 = .error e) ∧ (device (.hget key) c s).2.redis = s.redis := by
  have hafter : s.redis.after c = s.redis := Redis.after_of_steady hc
  rcases device_hget key c s with ⟨-, hd⟩ | ⟨-, e, hd⟩
  · rw [hd, hafter]
    exact ⟨Or.inl rfl, hafter⟩
  · rw [hd]
    exact ⟨Or.inr ⟨_, rfl⟩, hafter⟩

theorem device_hset_steady (key : String) (mapping : VehicleHash) (s : Backend)
    (hc : c.restarts = false) :
    (c.takesEffect ∧
      (device (.hset key mapping) c s).2.redis = Function.update s.redis key (some mapping)) ∨
    (¬ c.takesEffect ∧ (device (.hset key mapping) c s).2.redis = s.redis) := by
  have hafter : s.redis.after c = s.redis := Redis.after_of_steady hc
  rcases hr : c.redis with _ | ⟨_ | _, e⟩
  · exact Or.inl ⟨by simp [Circumstance.takesEffect, hr],
      by simp [device, Backend.onRedis, Backend.afterRestart, hr, hafter]⟩
  · exact Or.inr ⟨by simp [Circumstance.takesEffect, hr],
      by simp [device, Backend.onRedis, Backend.afterRestart, hr, hafter]⟩
  · exact Or.inl ⟨by simp [Circumstance.takesEffect, hr],
      by simp [device, Backend.onRedis, Backend.afterRestart, hr, hafter]⟩

end Device

/-! ## Workers -/

abbrev CacheWorkers (ι : Type) := JobPool ι Backend Circumstance Command Command.Answer Failure Bool

inductive CacheAction (ι : Type) where
  /-- Worker `i` gets the message, unless it is at work. -/
  | start (i : ι) (m : TelemetryMessage)
  /-- The next command of worker `i`, which fails as `failure` says. -/
  | command (i : ι) (failure : Option (Moment × RedisError))

def commandFails (failure : Option (Moment × RedisError)) : Circumstance := ⟨false, none, failure, 0⟩

/-- Every state in `redis` has one in `redis'` that is not older. -/
def Redis.NotOlder (redis redis' : Redis) : Prop := ∀ key cached, redis key = some cached →
  ∃ cached', redis' key = some cached' ∧ cached.recordedAt.instant ≤ cached'.recordedAt.instant

theorem Redis.NotOlder.refl (redis : Redis) : redis.NotOlder redis :=
  fun _ cached h => ⟨cached, h, le_refl _⟩

theorem Redis.NotOlder.trans {redis redis' redis'' : Redis} (h : redis.NotOlder redis')
    (h' : redis'.NotOlder redis'') : redis.NotOlder redis'' := by
  intro key cached hcached
  obtain ⟨cached', hcached', hle⟩ := h key cached hcached
  obtain ⟨cached'', hcached'', hle'⟩ := h' key cached' hcached'
  exact ⟨cached'', hcached'', hle.trans hle'⟩

namespace CacheWorkers
variable {ι : Type} [DecidableEq ι]

def step (p : CacheWorkers ι) : CacheAction ι → CacheWorkers ι
  | .start i m => p.start i (updateVehicleState m)
  | .command i failure => JobPool.step device p i (commandFails failure)

/-- The call is an `HSET` of `mapping` under `key` that took effect. -/
def Wrote (e : ι × Command × Circumstance) (key : String) (mapping : VehicleHash) : Prop :=
  e.2.1 = .hset key mapping ∧ e.2.2.takesEffect

/-- Since its `HGET`, no other worker has written a newer state under the key that the worker writes. -/
def Unraced (p : CacheWorkers ι) : CacheAction ι → Prop
  | .start _ _ => True
  | .command i failure => ∀ key mapping k, p.jobs i = some (.call (.hset key mapping) k) →
      (commandFails failure).takesEffect → ∀ e ∈ p.sinceLast i, ∀ mapping', Wrote e key mapping' →
        mapping'.recordedAt.instant ≤ mapping.recordedAt.instant

/-- Worker `i` will write the state of `m`. Its `HGET` found no state or an older one, and what the cache
has since then was written by others. -/
structure Writing (p : CacheWorkers ι) (i : ι) (m : TelemetryMessage) : Prop where
  job : p.jobs i = some (.call (.hset (vehicleStateKey m.vehicleId) m.mapping) afterWrite)
  cached : ∀ cached, p.state.redis (vehicleStateKey m.vehicleId) = some cached →
    cached.recordedAt.instant < m.recordedAt.instant ∨
      ∃ e ∈ p.sinceLast i, Wrote e (vehicleStateKey m.vehicleId) cached

/-- How far worker `i` is. -/
inductive Stage (p : CacheWorkers ι) (i : ι) : Prop where
  | resting (h : ∀ w k, p.jobs i ≠ some (.call w k))
  | reading (m : TelemetryMessage) (h : p.jobs i = some (updateVehicleState m))
  | writing (m : TelemetryMessage) (h : p.Writing i m)

variable {p p' : CacheWorkers ι} {i j : ι} {c : Circumstance}

/-- The actions of others leave a worker where it is. -/
theorem Stage.mono (h : Stage p i) (hjobs : p'.jobs i = p.jobs i)
    (hsince : ∀ e ∈ p.sinceLast i, e ∈ p'.sinceLast i)
    (hredis : ∀ key cached, p'.state.redis key = some cached → p.state.redis key = some cached ∨
      ∃ e ∈ p'.sinceLast i, Wrote e key cached) : Stage p' i := by
  cases h with
  | resting h => exact .resting (hjobs ▸ h)
  | reading m h => exact .reading m (hjobs ▸ h)
  | writing m h =>
      refine .writing m ⟨hjobs ▸ h.job, fun cached hc => ?_⟩
      rcases hredis _ cached hc with hc | hwrote
      · rcases h.cached cached hc with hlt | ⟨e, he, hwrote⟩
        · exact Or.inl hlt
        · exact Or.inr ⟨e, hsince e he, hwrote⟩
      · exact Or.inr hwrote

theorem Stage.idle (h : p.jobs i = none) : Stage p i := .resting fun w k => by rw [h]; simp

theorem afterWrite_ne_call (x : Except Failure Unit) (w : Command)
    (k : Except Failure w.Answer → Work Bool) : afterWrite x ≠ .call w k := by
  cases x <;> simp [afterWrite]

/-- A worker changes Redis only with the `HSET` that it is at. -/
theorem Stage.redis (h : Stage p i) (hc : c.restarts = false) :
    (JobPool.step device p i c).state.redis = p.state.redis ∨
    ∃ m, p.Writing i m ∧ c.takesEffect ∧ (JobPool.step device p i c).state.redis = p.state.redis.store m ∧
      (JobPool.step device p i c).log = (i, .hset (vehicleStateKey m.vehicleId) m.mapping, c) :: p.log := by
  rcases JobPool.step_cases device p i c with ⟨w, k, hi, hstep⟩ | ⟨-, hstep⟩
  · rw [hstep]
    cases h with
    | resting h => exact absurd hi (h w k)
    | reading m h =>
        rw [updateVehicleState_eq, hi] at h
        cases h
        exact Or.inl (device_hget_steady _ _ hc).2
    | writing m h =>
        cases hi.symm.trans h.job
        rcases device_hset_steady (vehicleStateKey m.vehicleId) m.mapping p.state hc with
          ⟨heffect, hd⟩ | ⟨-, hd⟩
        · exact Or.inr ⟨m, h, heffect, hd, rfl⟩
        · exact Or.inl hd
  · rw [hstep]
    exact Or.inl rfl

/-- The next command of a worker: its `HGET`, after which it rests or will write, or its `HSET`. -/
theorem Stage.command (h : Stage p i) (hc : c.restarts = false) :
    Stage (JobPool.step device p i c) i := by
  rcases JobPool.step_cases device p i c with ⟨w, k, hi, hstep⟩ | ⟨-, hstep⟩
  · have hjob : (JobPool.step device p i c).jobs i = some (k (device w c p.state).1) := by
      rw [hstep]
      exact Function.update_self _ _ _
    have hrest : (∀ w' k', k (device w c p.state).1 ≠ .call w' k') → Stage (JobPool.step device p i c) i :=
      fun hne => .resting fun w' k' => by rw [hjob]; simpa using hne w' k'
    cases h with
    | resting h => exact absurd hi (h w k)
    | reading m h =>
        rw [updateVehicleState_eq, hi] at h
        cases h
        obtain ⟨hread, hredis⟩ := device_hget_steady (vehicleStateKey m.vehicleId) p.state hc
        rcases hread with hread | ⟨e, hread⟩
        · rw [hread] at hjob hrest
          by_cases hnew : ((p.state.redis (vehicleStateKey m.vehicleId)).map (·.recordedAt)).any
              fun t => m.recordedAt.instant ≤ t.instant
          · rw [afterRead, if_pos hnew] at hrest
            exact hrest fun w' k' => by simp
          · rw [afterRead, if_neg hnew] at hjob
            refine .writing m ⟨hjob, fun cached hcached => Or.inl ?_⟩
            rw [hstep] at hcached
            have hcached : p.state.redis _ = some cached := hredis ▸ hcached
            rw [hcached] at hnew
            simpa using hnew
        · rw [hread] at hrest
          exact hrest fun w' k' => by simp [afterRead]
    | writing m h =>
        cases hi.symm.trans h.job
        exact hrest (afterWrite_ne_call _)
  · exact .idle (by rw [hstep]; exact Function.update_self _ _ _)

/-- A command of another worker. -/
theorem Stage.other (h : Stage p i) (hj : Stage p j) (hij : i ≠ j) (hc : c.restarts = false) :
    Stage (JobPool.step device p j c) i := by
  have hjobs : (JobPool.step device p j c).jobs i = p.jobs i := by
    rcases JobPool.step_cases device p j c with ⟨w, k, -, hstep⟩ | ⟨-, hstep⟩
    · rw [hstep]
      exact Function.update_of_ne hij _ _
    · rw [hstep]
      exact Function.update_of_ne hij _ _
  have hsince : ∀ e ∈ p.sinceLast i, e ∈ (JobPool.step device p j c).sinceLast i := by
    intro e he
    rcases JobPool.step_cases device p j c with ⟨w, k, -, hstep⟩ | ⟨-, hstep⟩
    · rw [JobPool.sinceLast_of_ne (congrArg JobPool.log hstep) (Ne.symm hij)]
      exact List.mem_cons_of_mem _ he
    · rw [hstep]
      exact he
  refine h.mono hjobs hsince fun key cached hcached => ?_
  rcases hj.redis hc with hredis | ⟨m, -, heffect, hredis, hlog⟩
  · exact Or.inl (hredis ▸ hcached)
  · rw [hredis] at hcached
    by_cases hk : key = vehicleStateKey m.vehicleId
    · subst hk
      rw [Redis.store_self] at hcached
      cases hcached
      rw [JobPool.sinceLast_of_ne hlog (Ne.symm hij)]
      exact Or.inr ⟨_, List.mem_cons_self, rfl, heffect⟩
    · exact Or.inl ((Redis.store_of_ne hk).symm.trans hcached)

theorem Stage.step (h : ∀ i, Stage p i) (a : CacheAction ι) (i : ι) : Stage (p.step a) i := by
  cases a with
  | start j m =>
      have hsame : ∀ k, (p.start j (updateVehicleState m)).jobs k = p.jobs k →
          Stage (p.start j (updateVehicleState m)) k := by
        intro k hk
        refine (h k).mono hk (fun e he => ?_) fun key cached hcached => Or.inl ?_
        · rw [JobPool.sinceLast, JobPool.log_start]
          exact he
        · rwa [JobPool.state_start] at hcached
      by_cases hij : i = j
      · subst hij
        rcases JobPool.jobs_start_self p i (updateVehicleState m) with hjobs | hjobs
        · exact hsame i hjobs
        · exact .reading m hjobs
      · exact hsame i (JobPool.jobs_start_of_ne _ hij)
  | command j failure =>
      by_cases hij : i = j
      · subst hij
        exact (h i).command rfl
      · exact (h i).other (h j) hij rfl

/-- A write that no one raced is of a state that is not older. -/
theorem notOlder_of_unraced (h : ∀ i, Stage p i) {a : CacheAction ι} (ha : p.Unraced a) :
    p.state.redis.NotOlder (p.step a).state.redis := by
  cases a with
  | start i m =>
      show Redis.NotOlder _ (p.start i (updateVehicleState m)).state.redis
      rw [JobPool.state_start]
      exact Redis.NotOlder.refl _
  | command i failure =>
      show Redis.NotOlder _ (JobPool.step device p i (commandFails failure)).state.redis
      rcases (h i).redis (c := commandFails failure) rfl with hredis | ⟨m, hm, heffect, hredis, -⟩
      · rw [hredis]
        exact Redis.NotOlder.refl _
      · rw [hredis]
        intro key cached hcached
        by_cases hk : key = vehicleStateKey m.vehicleId
        · subst hk
          refine ⟨m.mapping, Redis.store_self, ?_⟩
          rcases hm.cached cached hcached with hlt | ⟨e, he, hwrote⟩
          · exact hlt.le
          · exact ha _ _ _ hm.job heffect e he cached hwrote
        · exact ⟨cached, (Redis.store_of_ne hk).trans hcached, le_refl _⟩

/-- The cache has no older states than the ones that were written. -/
def Recorded (p : CacheWorkers ι) : Prop := ∀ e ∈ p.log, ∀ key mapping, Wrote e key mapping →
  ∃ cached, p.state.redis key = some cached ∧
    mapping.recordedAt.instant ≤ cached.recordedAt.instant

/-- An `HSET` that takes effect. -/
theorem step_hset {failure : Option (Moment × RedisError)} {key : String} {mapping : VehicleHash}
    {k : Except Failure Unit → Work Bool} (hi : p.jobs i = some (.call (.hset key mapping) k))
    (heffect : (commandFails failure).takesEffect) :
    (p.step (.command i failure)).state.redis key = some mapping := by
  show (JobPool.step device p i (commandFails failure)).state.redis key = some mapping
  rcases JobPool.step_cases device p i (commandFails failure) with ⟨w, k', hi', hstep⟩ | ⟨hne, -⟩
  · cases hi.symm.trans hi'
    rw [hstep]
    rcases device_hset_steady (c := commandFails failure) key mapping p.state rfl with ⟨-, hd⟩ | ⟨hno, -⟩
    · exact (congrFun hd key).trans (Function.update_self _ _ _)
    · exact absurd heffect hno
  · exact absurd hi (hne _ _)

theorem Recorded.step (h : p.Recorded) {a : CacheAction ι}
    (ha : p.state.redis.NotOlder (p.step a).state.redis) : (p.step a).Recorded := by
  intro e he key mapping hwrote
  have hold : e ∈ p.log → ∃ cached, (p.step a).state.redis key = some cached ∧
      mapping.recordedAt.instant ≤ cached.recordedAt.instant := by
    intro he
    obtain ⟨cached, hcached, hle⟩ := h e he key mapping hwrote
    obtain ⟨cached', hcached', hle'⟩ := ha key cached hcached
    exact ⟨cached', hcached', hle.trans hle'⟩
  cases a with
  | start i m => exact hold (by rwa [CacheWorkers.step, JobPool.log_start] at he)
  | command i failure =>
      rcases JobPool.step_cases device p i (commandFails failure) with ⟨w, k, hi, hstep⟩ | ⟨-, hstep⟩
      · have hlog : (p.step (.command i failure)).log = (i, w, commandFails failure) :: p.log :=
          congrArg JobPool.log hstep
        rw [hlog] at he
        rcases List.mem_cons.mp he with rfl | he
        · obtain ⟨rfl, heffect⟩ := hwrote
          exact ⟨mapping, step_hset hi heffect, le_refl _⟩
        · exact hold he
      · exact hold (by rwa [CacheWorkers.step, hstep] at he)

/-- Where nothing has got older so far, a write that was raced is of an older state. -/
theorem Recorded.unraced (h : p.Recorded) {a : CacheAction ι}
    (ha : p.state.redis.NotOlder (p.step a).state.redis) : p.Unraced a := by
  cases a with
  | start i m => trivial
  | command i failure =>
      intro key mapping k hi heffect e he mapping' hwrote
      obtain ⟨cached, hcached, hle⟩ := h e (JobPool.mem_log_of_sinceLast he) key mapping' hwrote
      obtain ⟨cached', hcached', hle'⟩ := ha key cached hcached
      rw [step_hset hi heffect] at hcached'
      cases hcached'
      exact hle.trans hle'

/-- In a run of any number of workers, `recorded_at` never decreases under any key exactly when no write
is raced by a newer one. -/
theorem recordedAt_never_decreases_iff (s : Backend) (as : List (CacheAction ι)) :
    (∀ p q, Runs.VisitsThen step (JobPool.init s) as p q → p.state.redis.NotOlder q.state.redis) ↔
      ∀ p a, Runs.Takes step (JobPool.init s) as p a → p.Unraced a := by
  constructor
  · intro hnever p a ha
    have hrecorded : p.Recorded :=
      Runs.invariant_of_guarded (fun p a hp ha => Recorded.step hp ha) (fun e he => by cases he)
        (fun p a ha => hnever p _ ha.visitsThen_step) p ha.visits
    exact hrecorded.unraced (hnever p _ ha.visitsThen_step)
  · intro hok
    exact Runs.relation_of_guarded (J := fun p => ∀ i, Stage p i)
      (R := fun p q => p.state.redis.NotOlder q.state.redis)
      (fun p => Redis.NotOlder.refl _) (fun p q r => Redis.NotOlder.trans)
      (fun p a hp _ => Stage.step hp a) (fun p a hp ha => notOlder_of_unraced hp ha)
      (fun i => .idle rfl) hok

theorem sampleMessage_ranges : (0 : Int) < 1 ∧ ((-90 : Rat) ≤ 49 ∧ (49 : Rat) ≤ 90) ∧
    ((-180 : Rat) ≤ 24 ∧ (24 : Rat) ≤ 180) ∧ (0 : Rat) ≤ 72 ∧ (72 : Rat) ≤ 100 := by
  decide

def sampleMessage (recordedAt : AwareDatetime) : TelemetryMessage :=
  ⟨1, recordedAt, 49, 24, 72, true, sampleMessage_ranges.1, sampleMessage_ranges.2.1,
    sampleMessage_ranges.2.2.1, sampleMessage_ranges.2.2.2⟩

/-- Two workers read the empty cache; the one with the older message writes last. -/
def racedRun : List (CacheAction Bool) :=
  [.start false (sampleMessage (utcClock 1789466700000000)),
    .start true (sampleMessage (utcClock 1789466400000000)),
    .command false none, .command true none, .command false none, .command true none]

theorem racedRun_decreases : ∃ p q, Runs.VisitsThen step
    (JobPool.init ⟨oneVehicle, none, Redis.empty, []⟩) racedRun p q ∧
      ¬ p.state.redis.NotOlder q.state.redis := by
  refine ⟨_, _, ⟨racedRun.take 5, racedRun.drop 5, List.prefix_refl _, rfl, rfl⟩, fun hnever => ?_⟩
  obtain ⟨cached, hcached, hle⟩ := hnever (vehicleStateKey 1)
    (sampleMessage (utcClock 1789466700000000)).mapping rfl
  cases hcached
  exact absurd hle (by decide)

end CacheWorkers

end FleetManagement
