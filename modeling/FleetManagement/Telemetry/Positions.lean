import FleetManagement.Services.VehicleState
import FleetManagement.Telemetry.Worker

/-!
# The map and the single vehicle

`get_fleet_positions` reads Redis in one pipeline and the database in one query; `get_vehicle_state` reads
one hash and one row. Both show the same for every vehicle.
-/

namespace FleetManagement

/-! ## Environments -/

/-- PostgreSQL and Redis answer every call, and Redis keeps its data. -/
def Healthy (env : Nat → Circumstance) : Prop :=
  ∀ n, (env n).restarts = false ∧ (env n).database = none ∧ (env n).redis = none

/-- PostgreSQL answers every call, and every call of Redis fails with one of `errors`. -/
def RedisDown (errors : List RedisError) (env : Nat → Circumstance) : Prop :=
  ∀ n, (env n).database = none ∧ ∃ moment, ∃ e ∈ errors, (env n).redis = some (moment, e)

/-! ## What is known about a vehicle -/

/-- The newest reading of the vehicle, as `latest_reading` finds it. -/
def Database.newestReading (db : Database) (vehicleId : Int) : Option TelemetryReading :=
  Query.newest? (·.recordedAt) (db.telemetryReadings.rows.filter (·.vehicleId = vehicleId))

/-- The cached state of a vehicle, else its newest reading. -/
def known (cached : Option VehicleHash) (reading : Option TelemetryReading) (degraded : Bool)
    (vehicleId : Int) : Option VehicleStateRead :=
  match cached, reading with
  | some hash, _ => some (fromCache vehicleId hash)
  | none, some reading => some (fromReading reading degraded)
  | none, none => none

theorem placeAll_eq (cached : Int → Option VehicleHash) (readings : Int → Option TelemetryReading)
    (degraded : Bool) (vehicles : List Vehicle) :
    placeAll cached readings degraded vehicles =
      (vehicles.filterMap fun v => (known (cached v.id) (readings v.id) degraded v.id).map (position v),
        (vehicles.filter fun v => known (cached v.id) (readings v.id) degraded v.id = none).map (·.id)) := by
  induction vehicles with
  | nil => rfl
  | cons v vehicles ih =>
      rw [placeAll, ih]
      cases hc : cached v.id with
      | some hash => simp [known, hc]
      | none => cases hr : readings v.id <;> simp [known, hc, hr]

theorem Database.selectVehicles_eq (db : Database) : db.selectVehicles = db.vehicles.rows :=
  (db.vehicles.sorted.imp fun h => Int.le_of_lt h).insertionSort_eq

theorem isInteger_of_vehicle {db : Database} {v : Vehicle} (h : v ∈ db.vehicles.rows) :
    isInteger v.id := by
  have hissued := db.vehicles.issued v h
  have hbounded := db.vehicles.bounded
  simp only [Keyed.key, Keyed.maxKey, maxInteger] at hissued hbounded
  simp only [isInteger, decide_eq_true_eq]
  omega

theorem nodup_vehicleIds (db : Database) : (db.vehicles.rows.map (·.id)).Nodup := db.vehicles.nodup_keys

/-! ## The two queries for readings -/

theorem forM_integer {ids : List Int} (h : ∀ id ∈ ids, isInteger id) :
    ids.forM integer = .ok () := by
  induction ids with
  | nil => rfl
  | cons id ids ih =>
      have hid : integer id = .ok () := if_pos (h id List.mem_cons_self)
      show (integer id >>= fun _ => ids.forM integer) = .ok ()
      rw [hid]
      exact ih fun i hi => h i (List.mem_cons_of_mem _ hi)

/-- The dictionary of `_latest_readings` has what `latest_reading` finds. -/
theorem dict_newestEach {db : Database} (hunique : db.UniqueReadings) {ids : List Int} {id : Int}
    (hid : id ∈ ids) :
    Query.dict ((Query.newestEach (·.vehicleId) (·.recordedAt)
      (db.telemetryReadings.rows.filter (·.vehicleId ∈ ids))).map
        fun reading => (reading.vehicleId, reading)) id = db.newestReading id := by
  rw [Query.dict_map (Query.nodup_newestEach _), Query.find?_newestEach, List.filter_filter]
  · rw [Database.newestReading]
    congr 1
    refine List.filter_congr fun r _ => ?_
    by_cases hr : r.vehicleId = id
    · simp [hr, hid]
    · simp [hr]
  · intro p hp q hq hpid hqid hpq
    exact hunique p (List.mem_of_mem_filter hp) q (List.mem_of_mem_filter hq) (hpid.trans hqid.symm) hpq

/-! ## Reads that are answered, and reads of a Redis that is down -/

section Reads
variable {c : Circumstance} {s : Backend}

theorem device_selectVehicles (hc : c.database = none) :
    device .selectVehicles c s = (.ok s.view.selectVehicles, s) := by
  simp [device, Backend.onDatabase, hc, Except.mapError]

theorem device_selectLatestReading (hc : c.database = none) {id : Int} (hi : isInteger id) :
    device (.selectLatestReading id) c s = (.ok (s.view.newestReading id), s) := by
  have hint : integer id = .ok () := if_pos hi
  simp [device, Backend.onDatabase, hc, Database.selectLatestReading, hint, Database.newestReading,
    Except.mapError, bind, Except.bind, pure, Except.pure]

theorem device_selectLatestReadings (hc : c.database = none) {ids : List Int}
    (hi : ∀ id ∈ ids, isInteger id) :
    device (.selectLatestReadings ids) c s = (.ok (Query.newestEach (·.vehicleId) (·.recordedAt)
      (s.view.telemetryReadings.rows.filter (·.vehicleId ∈ ids))), s) := by
  simp [device, Backend.onDatabase, hc, Database.selectLatestReadings, forM_integer hi,
    Except.mapError, bind, Except.bind, pure, Except.pure]

theorem device_hgetall (hc : c.restarts = false ∧ c.database = none ∧ c.redis = none) (key : String) :
    device (.hgetall key) c s = (.ok (s.redis key), s) := by
  simp [device, Backend.onRedis, Backend.afterRestart, Redis.after, hc]

theorem device_pipelineHgetall (hc : c.restarts = false ∧ c.database = none ∧ c.redis = none)
    (keys : List String) : device (.pipelineHgetall keys) c s = (.ok (keys.map s.redis), s) := by
  simp [device, Backend.onRedis, Backend.afterRestart, Redis.after, hc]

theorem device_hgetall_down {moment : Moment} {e : RedisError} (hc : c.redis = some (moment, e))
    (key : String) : device (.hgetall key) c s = (.error (.redis e), s.afterRestart c) := by
  cases moment <;> simp [device, Backend.onRedis, hc]

theorem device_pipelineHgetall_down {moment : Moment} {e : RedisError}
    (hc : c.redis = some (moment, e)) (keys : List String) :
    device (.pipelineHgetall keys) c s = (.error (.redis e), s.afterRestart c) := by
  cases moment <;> simp [device, Backend.onRedis, hc]

end Reads

/-! ## One vehicle -/

/-- A state, or the exception for a vehicle of which nothing is known. -/
def answered (missing : Failure) : Option VehicleStateRead → Except Failure VehicleStateRead
  | some state => .ok state
  | none => .error missing

def noTelemetry (vehicleId : Int) : Failure :=
  .error (.notFound s!"No telemetry for vehicle {vehicleId}")

def stateUnavailable (vehicleId : Int) : Failure :=
  .dependencyUnavailable s!"State of vehicle {vehicleId} is temporarily unavailable"

section One
variable {env : Nat → Circumstance} {s : Backend} {n : Nat} {vehicleId : Int}

theorem ensures_stateFrom (hdb : (env n).database = none) (hi : isInteger vehicleId)
    (cached : Option VehicleHash) :
    Job.Ensures device env (fun r _ _ => r = answered (noTelemetry vehicleId)
      (known cached (s.view.newestReading vehicleId) false vehicleId)) (stateFrom vehicleId cached) s n := by
  cases cached with
  | some hash => exact rfl
  | none =>
      refine Job.ensures_bind.mpr ((ensures_ask (.selectLatestReading vehicleId)).mpr ?_)
      rw [device_selectLatestReading hdb hi]
      cases hr : s.view.newestReading vehicleId with
      | none => exact rfl
      | some reading => exact rfl

theorem ensures_getVehicleState (henv : Healthy env) (hi : isInteger vehicleId)
    (policy : Option RetryPolicy) :
    Job.Ensures device env (fun r _ _ => r = answered (noTelemetry vehicleId)
      (known (s.redis (vehicleStateKey vehicleId)) (s.view.newestReading vehicleId) false vehicleId))
      (getVehicleState vehicleId policy) s n := by
  unfold getVehicleState
  cases policy with
  | none =>
      refine Job.ensures_bind.mpr ((ensures_ask (.hgetall _)).mpr ?_)
      rw [device_hgetall (henv n)]
      exact ensures_stateFrom (henv _).2.1 hi _
  | some policy =>
      obtain ⟨k, hk⟩ := Nat.exists_eq_add_of_le' policy.maxAttempts_pos
      have hcall : Job.Ensures device env (fun r s' n' => r = .ok (s.redis (vehicleStateKey vehicleId)) ∧
          s' = s) (callWithRetry (ask (.hgetall (vehicleStateKey vehicleId))) policy Failure.isTransient
            "redis.hgetall") s n := by
        unfold callWithRetry
        rw [hk]
        refine Job.ensures_bind.mpr (Job.ensures_attempt.mpr ((ensures_ask (.hgetall _)).mpr ?_))
        rw [device_hgetall (henv n)]
        exact ⟨rfl, rfl⟩
      refine Job.ensures_bind.mpr (Job.ensures_attempt.mpr (hcall.mono ?_))
      rintro _ _ n' ⟨rfl, rfl⟩
      exact ensures_stateFrom (henv _).2.1 hi _

/-- A retry loop over a Redis that is down uses up its attempts. -/
theorem ensures_retryFrom_down {errors : List RedisError} (henv : RedisDown errors env)
    (herrors : ∀ e ∈ errors, e = .attemptTimedOut ∨ e ∈ redisTransientErrors) {policy : RetryPolicy}
    {key name : String} {attempt left : Nat} (h : attempt + left = policy.maxAttempts) :
    Job.Ensures device env (fun r s' _ => (∃ e, r = .error (.retryExhausted name policy.maxAttempts e)) ∧
      s'.view = s.view)
      (retryFrom (ask (.hgetall key)) policy Failure.isTransient name attempt (left + 1)) s n := by
  have hretry : ∀ e ∈ errors, Failure.redis e = .redis .attemptTimedOut ∨ (Failure.redis e).isTransient :=
    fun e he => (herrors e he).imp (congrArg Failure.redis) fun h => by simpa [Failure.isTransient] using h
  induction left generalizing attempt s n with
  | zero =>
      obtain ⟨-, moment, e, he, hc⟩ := henv n
      refine Job.ensures_bind.mpr (Job.ensures_attempt.mpr ((ensures_ask (.hgetall key)).mpr ?_))
      rw [device_hgetall_down hc]
      simp only [if_pos (hretry e he), if_pos (show attempt = policy.maxAttempts by omega)]
      exact ⟨⟨_, by rw [show attempt = policy.maxAttempts by omega]; rfl⟩, rfl⟩
  | succ left ih =>
      obtain ⟨-, moment, e, he, hc⟩ := henv n
      refine Job.ensures_bind.mpr (Job.ensures_attempt.mpr ((ensures_ask (.hgetall key)).mpr ?_))
      rw [device_hgetall_down hc]
      simp only [if_pos (hretry e he), if_neg (show ¬ attempt = policy.maxAttempts by omega)]
      refine Job.ensures_bind.mpr ((ensures_ask .random).mpr ?_)
      refine Job.ensures_bind.mpr ((ensures_ask (.sleep _)).mpr ?_)
      exact ih (by omega)

theorem ensures_getVehicleState_down {errors : List RedisError} (henv : RedisDown errors env)
    (herrors : ∀ e ∈ errors, e = .attemptTimedOut ∨ e ∈ redisTransientErrors)
    (hi : isInteger vehicleId) (policy : RetryPolicy) :
    Job.Ensures device env (fun r _ _ => r = answered (stateUnavailable vehicleId)
      (known none (s.view.newestReading vehicleId) true vehicleId))
      (getVehicleState vehicleId (some policy)) s n := by
  obtain ⟨k, hk⟩ := Nat.exists_eq_add_of_le' policy.maxAttempts_pos
  unfold getVehicleState
  refine Job.ensures_bind.mpr (Job.ensures_attempt.mpr ?_)
  unfold callWithRetry
  rw [hk]
  refine (ensures_retryFrom_down henv herrors (by omega)).mono ?_
  rintro _ s' n' ⟨⟨e, rfl⟩, hview⟩
  refine Job.ensures_bind.mpr ((ensures_ask (.selectLatestReading vehicleId)).mpr ?_)
  rw [device_selectLatestReading (henv n').1 hi, hview]
  cases hr : s.view.newestReading vehicleId with
  | none => exact rfl
  | some reading => exact rfl

end One

/-! ## The map -/

section Map
variable {env : Nat → Circumstance} {db : Database}

/-- The places of all vehicles of `db`, where `cached` is what Redis answered. -/
def places (db : Database) (cached : Int → Option VehicleHash) (degraded : Bool) : FleetPositionsRead where
  positions := db.vehicles.rows.filterMap fun v =>
    (known (cached v.id) (db.newestReading v.id) degraded v.id).map (position v)
  withoutTelemetry := (db.vehicles.rows.filter fun v =>
    known (cached v.id) (db.newestReading v.id) degraded v.id = none).map (·.id)
  degraded

theorem known_congr {cached : Option VehicleHash} {r r' : Option TelemetryReading} {degraded : Bool}
    {id : Int} (h : cached = none → r = r') : known cached r degraded id = known cached r' degraded id := by
  cases cached with
  | some hash => rfl
  | none => rw [h rfl]

theorem ensures_latestReadings (hunique : db.UniqueReadings) {ids : List Int}
    (hi : ∀ id ∈ ids, isInteger id) {s : Backend} {n : Nat} (hs : s.view = db)
    (hdb : (env n).database = none) :
    Job.Ensures device env (fun r _ _ => ∃ readings, r = .ok readings ∧
      ∀ id ∈ ids, readings id = db.newestReading id) (latestReadings ids) s n := by
  unfold latestReadings
  split
  · rename_i hnil
    exact ⟨_, rfl, fun id hid => by rw [hnil] at hid; cases hid⟩
  · refine Job.ensures_bind.mpr ((ensures_ask (.selectLatestReadings ids)).mpr ?_)
    rw [device_selectLatestReadings hdb hi, hs]
    exact ⟨_, rfl, fun id hid => dict_newestEach hunique hid⟩

/-- The end of `get_fleet_positions`, once the Redis read is over. -/
theorem ensures_places (hunique : db.UniqueReadings) {cached : Int → Option VehicleHash} {s : Backend}
    {n : Nat} (hs : s.view = db) (hdb : (env n).database = none) (degraded : Bool) :
    Job.Ensures device env (fun r _ _ => r = .ok (places db cached degraded))
      (do
        let readings ← latestReadings
          ((db.vehicles.rows.map (·.id)).filter fun id => cached id = none)
        let (positions, withoutTelemetry) := placeAll cached readings degraded db.vehicles.rows
        return { positions, withoutTelemetry, degraded }) s n := by
  have hi : ∀ id ∈ (db.vehicles.rows.map (·.id)).filter fun id => cached id = none, isInteger id := by
    intro id hid
    obtain ⟨v, hv, rfl⟩ := List.mem_map.mp (List.mem_of_mem_filter hid)
    exact isInteger_of_vehicle hv
  refine Job.ensures_bind.mpr ((ensures_latestReadings hunique hi hs hdb).mono ?_)
  rintro _ s' n' ⟨readings, rfl, hreadings⟩
  have hknown : ∀ v ∈ db.vehicles.rows, known (cached v.id) (readings v.id) degraded v.id =
      known (cached v.id) (db.newestReading v.id) degraded v.id := by
    intro v hv
    refine known_congr fun hc => hreadings _ (List.mem_filter.mpr ⟨List.mem_map_of_mem hv, ?_⟩)
    simp [hc]
  show Except.ok _ = Except.ok (places db cached degraded)
  rw [placeAll_eq, places]
  congr 2
  · exact List.filterMap_congr fun v hv => by rw [hknown v hv]
  · exact congrArg _ (List.filter_congr fun v hv => by rw [hknown v hv])

theorem places_congr {cached cached' : Int → Option VehicleHash} {degraded : Bool}
    (h : ∀ v ∈ db.vehicles.rows, cached v.id = cached' v.id) :
    places db cached degraded = places db cached' degraded := by
  unfold places
  congr 1
  · exact List.filterMap_congr fun v hv => by rw [h v hv]
  · exact congrArg _ (List.filter_congr fun v hv => by rw [h v hv])

/-- The dictionary of `_cached_states` has what Redis has for the vehicles. -/
theorem dict_cachedStates (redis : Redis) {ids : List Int} (hnd : ids.Nodup) {id : Int} (hid : id ∈ ids) :
    Query.dict ((ids.zip ((ids.map vehicleStateKey).map redis)).filterMap
      fun e => e.2.map fun cached => (e.1, cached)) id = redis (vehicleStateKey id) := by
  rw [List.map_map, ← List.map_prod_left_eq_zip, List.filterMap_map]
  exact Query.dict_filterMap (fun id => redis (vehicleStateKey id)) hnd hid

theorem ensures_cachedStatesIfUp (henv : Healthy env) {ids : List Int} (hnd : ids.Nodup) {s : Backend}
    {n : Nat} :
    Job.Ensures device env (fun r s' _ => ∃ cached, r = .ok (cached, false) ∧ s' = s ∧
      ∀ id ∈ ids, cached id = s.redis (vehicleStateKey id)) (cachedStatesIfUp ids) s n := by
  unfold cachedStatesIfUp
  split
  · rename_i hnil
    exact ⟨_, rfl, rfl, fun id hid => by rw [hnil] at hid; cases hid⟩
  · refine Job.ensures_bind.mpr (Job.ensures_attempt.mpr ?_)
    refine Job.ensures_bind.mpr ((ensures_ask (.pipelineHgetall _)).mpr ?_)
    rw [device_pipelineHgetall (henv _)]
    exact ⟨_, rfl, rfl, fun id hid => dict_cachedStates s.redis hnd hid⟩

theorem ensures_cachedStatesIfUp_down (henv : RedisDown redisTransientErrors env) {ids : List Int}
    (hne : ids ≠ []) {s : Backend} {n : Nat} :
    Job.Ensures device env (fun r s' _ => r = .ok (Query.dict [], true) ∧ s'.view = s.view)
      (cachedStatesIfUp ids) s n := by
  obtain ⟨-, moment, e, he, hc⟩ := henv n
  have htransient : (Failure.redis e).isTransient := by simpa [Failure.isTransient] using he
  unfold cachedStatesIfUp
  rw [if_neg hne]
  refine Job.ensures_bind.mpr (Job.ensures_attempt.mpr ?_)
  refine Job.ensures_bind.mpr ((ensures_ask (.pipelineHgetall _)).mpr ?_)
  rw [device_pipelineHgetall_down hc]
  simp only [if_pos htransient]
  exact ⟨rfl, rfl⟩

theorem ensures_getFleetPositions (hunique : db.UniqueReadings) (henv : Healthy env) {s : Backend}
    {n : Nat} (hs : s.view = db) :
    Job.Ensures device env (fun r _ _ => r = .ok (places db (fun id => s.redis (vehicleStateKey id)) false))
      getFleetPositions s n := by
  unfold getFleetPositions
  refine Job.ensures_bind.mpr ((ensures_ask .selectVehicles).mpr ?_)
  rw [device_selectVehicles (henv n).2.1, hs, Database.selectVehicles_eq]
  refine Job.ensures_bind.mpr ((ensures_cachedStatesIfUp henv (nodup_vehicleIds db)).mono ?_)
  rintro _ _ n' ⟨cached, rfl, rfl, hcached⟩
  rw [← places_congr fun v hv => hcached v.id (List.mem_map_of_mem hv)]
  exact ensures_places hunique hs (henv n').2.1 false

theorem ensures_getFleetPositions_down (hunique : db.UniqueReadings)
    (henv : RedisDown redisTransientErrors env) (hne : db.vehicles.rows ≠ []) {s : Backend}
    {n : Nat} (hs : s.view = db) :
    Job.Ensures device env (fun r _ _ => r = .ok (places db (fun _ => none) true))
      getFleetPositions s n := by
  have hids : db.vehicles.rows.map (·.id) ≠ [] := by simpa using hne
  unfold getFleetPositions
  refine Job.ensures_bind.mpr ((ensures_ask .selectVehicles).mpr ?_)
  rw [device_selectVehicles (henv n).1, hs, Database.selectVehicles_eq]
  refine Job.ensures_bind.mpr ((ensures_cachedStatesIfUp_down henv hids).mono ?_)
  rintro _ s' n' ⟨rfl, hview⟩
  exact ensures_places hunique (hview.trans hs) (henv n').1 true

end Map

/-! ## The map shows each vehicle as its own endpoint does -/

/-- The position has the data of the state. -/
def VehiclePositionRead.Shows (p : VehiclePositionRead) (state : VehicleStateRead) : Prop :=
  p.vehicleId = state.vehicleId ∧ p.recordedAt = state.recordedAt ∧ p.latitude = state.latitude ∧
    p.longitude = state.longitude ∧ p.fuelLevel = state.fuelLevel ∧ p.isLocked = state.isLocked ∧
    p.source = state.source

/-- The map `r` of `vehicles` agrees with what the single-vehicle endpoint answers, where `missing` are
the exceptions for a vehicle of which nothing is known. -/
structure Pointwise (vehicles : List Vehicle) (r : FleetPositionsRead)
    (state : Int → Except Failure VehicleStateRead) (missing : Failure → Prop) : Prop where
  listed : ∀ v ∈ vehicles, (∃ p ∈ r.positions, p.vehicleId = v.id) ↔ ∃ st, state v.id = .ok st
  same : ∀ v ∈ vehicles, ∀ p ∈ r.positions, p.vehicleId = v.id →
    ∀ st, state v.id = .ok st → p.Shows st
  degraded : ∀ v ∈ vehicles, ∀ st, state v.id = .ok st → st.degraded = r.degraded
  absent : ∀ v ∈ vehicles, v.id ∈ r.withoutTelemetry ↔ ∃ e, missing e ∧ state v.id = .error e
  once : (r.positions.map (·.vehicleId) ++ r.withoutTelemetry).Perm (vehicles.map (·.id))
  positions_ordered : (r.positions.map (·.vehicleId)).Pairwise (· < ·)
  withoutTelemetry_ordered : r.withoutTelemetry.Pairwise (· < ·)

theorem known_vehicleId {cached : Option VehicleHash} {db : Database} {degraded : Bool} {id : Int}
    {st : VehicleStateRead} (h : known cached (db.newestReading id) degraded id = some st) :
    st.vehicleId = id := by
  cases cached with
  | some hash => cases h; rfl
  | none =>
      cases hr : db.newestReading id with
      | none => rw [hr] at h; cases h
      | some reading =>
          rw [hr] at h
          cases h
          show reading.vehicleId = id
          simpa using List.of_mem_filter (Query.newest?_mem hr)

section Pointwise
variable {db : Database} {cached : Int → Option VehicleHash} {degraded : Bool}

theorem mem_positions {p : VehiclePositionRead} :
    p ∈ (places db cached degraded).positions ↔ ∃ v ∈ db.vehicles.rows, ∃ st,
      known (cached v.id) (db.newestReading v.id) degraded v.id = some st ∧ p = position v st := by
  simp only [places, List.mem_filterMap, Option.map_eq_some_iff]
  constructor
  · rintro ⟨v, hv, st, hst, rfl⟩
    exact ⟨v, hv, st, hst, rfl⟩
  · rintro ⟨v, hv, st, hst, rfl⟩
    exact ⟨v, hv, st, hst, rfl⟩

theorem mem_withoutTelemetry {id : Int} :
    id ∈ (places db cached degraded).withoutTelemetry ↔ ∃ v ∈ db.vehicles.rows,
      known (cached v.id) (db.newestReading v.id) degraded v.id = none ∧ v.id = id := by
  simp only [places, List.mem_map, List.mem_filter, decide_eq_true_eq, and_assoc]

theorem positions_ids : (places db cached degraded).positions.map (·.vehicleId) =
    (db.vehicles.rows.filter fun v =>
      (known (cached v.id) (db.newestReading v.id) degraded v.id).isSome).map (·.id) := by
  simp only [places]
  induction db.vehicles.rows with
  | nil => rfl
  | cons v vehicles ih =>
      cases hk : known (cached v.id) (db.newestReading v.id) degraded v.id with
      | none => simpa [hk] using ih
      | some st => simpa [hk, position] using ih

theorem eq_of_vehicleId {v w : Vehicle} (hv : v ∈ db.vehicles.rows) (hw : w ∈ db.vehicles.rows)
    (h : v.id = w.id) : v = w := Table.eq_of_key hv hw h

theorem answered_ok {missing : Failure} {known : Option VehicleStateRead} {st : VehicleStateRead} :
    answered missing known = .ok st ↔ known = some st := by
  cases known <;> simp [answered]

theorem answered_error {missing e : Failure} {known : Option VehicleStateRead} :
    answered missing known = .error e ↔ known = none ∧ e = missing := by
  cases known <;> simp [answered, eq_comm]

theorem ids_ordered (p : Vehicle → Bool) : ((db.vehicles.rows.filter p).map (·.id)).Pairwise (· < ·) :=
  List.pairwise_map.mpr (db.vehicles.sorted.sublist List.filter_sublist)

theorem places_pointwise {state : Int → Except Failure VehicleStateRead} {missing : Failure → Prop}
    (absence : Int → Failure) (hmissing : ∀ id, missing (absence id))
    (hdegraded : degraded = true → ∀ id, cached id = none)
    (hstate : ∀ v ∈ db.vehicles.rows, state v.id =
      answered (absence v.id) (known (cached v.id) (db.newestReading v.id) degraded v.id)) :
    Pointwise db.vehicles.rows (places db cached degraded) state missing where
  listed := by
    intro v hv
    rw [hstate v hv]
    simp only [answered_ok]
    constructor
    · rintro ⟨p, hp, hpv⟩
      obtain ⟨w, hw, st, hst, rfl⟩ := mem_positions.mp hp
      cases eq_of_vehicleId hw hv hpv
      exact ⟨st, hst⟩
    · rintro ⟨st, hst⟩
      exact ⟨position v st, mem_positions.mpr ⟨v, hv, st, hst, rfl⟩, rfl⟩
  same := by
    intro v hv p hp hpv st hst
    rw [hstate v hv, answered_ok] at hst
    obtain ⟨w, hw, st', hst', rfl⟩ := mem_positions.mp hp
    cases eq_of_vehicleId hw hv hpv
    cases hst.symm.trans hst'
    exact ⟨(known_vehicleId hst).symm, rfl, rfl, rfl, rfl, rfl, rfl⟩
  degraded := by
    intro v hv st hst
    rw [hstate v hv, answered_ok] at hst
    cases hc : cached v.id with
    | some hash =>
        rw [hc] at hst
        cases hst
        cases degraded with
        | false => rfl
        | true => rw [hdegraded rfl] at hc; cases hc
    | none =>
        rw [hc] at hst
        cases hr : db.newestReading v.id with
        | none => rw [hr] at hst; cases hst
        | some reading => rw [hr] at hst; cases hst; rfl
  absent := by
    intro v hv
    rw [hstate v hv, mem_withoutTelemetry]
    simp only [answered_error]
    constructor
    · rintro ⟨w, hw, hnone, hwv⟩
      cases eq_of_vehicleId hw hv hwv
      exact ⟨_, hmissing v.id, hnone, rfl⟩
    · rintro ⟨e, -, hnone, -⟩
      exact ⟨v, hv, hnone, rfl⟩
  once := by
    rw [positions_ids, places, ← List.map_append]
    refine List.Perm.map _ ?_
    have hperm := List.filter_append_perm (fun v : Vehicle =>
      (known (cached v.id) (db.newestReading v.id) degraded v.id).isSome) db.vehicles.rows
    refine List.Perm.trans (List.Perm.append_left _ (List.Perm.of_eq ?_)) hperm
    exact List.filter_congr fun v _ => by
      cases known (cached v.id) (db.newestReading v.id) degraded v.id <;> rfl
  positions_ordered := by
    rw [positions_ids]
    exact ids_ordered _
  withoutTelemetry_ordered := ids_ordered _

end Pointwise

/-- The answer of `GET /vehicles/positions`, and that of `GET /vehicles/{id}/state`. -/
def fleetPositions (env : Nat → Circumstance) (db : Database) (redis : Redis) :
    Except Failure FleetPositionsRead :=
  (getFleetPositions.eval device env ⟨db, none, redis, []⟩ 0).result

def vehicleState (env : Nat → Circumstance) (db : Database) (redis : Redis)
    (policy : Option RetryPolicy) (vehicleId : Int) : Except Failure VehicleStateRead :=
  ((getVehicleState vehicleId policy).eval device env ⟨db, none, redis, []⟩ 0).result

/-- The map is the pointwise image of the single-vehicle endpoint: while Redis answers, and while every
call of Redis fails transiently. -/
theorem fleetPositions_pointwise (db : Database) (hunique : db.UniqueReadings) (redis : Redis)
    (env : Nat → Circumstance) (envs : Int → Nat → Circumstance) :
    (Healthy env → (∀ id, Healthy (envs id)) → ∀ policy : Option RetryPolicy,
      ∃ r, fleetPositions env db redis = .ok r ∧ r.degraded = false ∧
        Pointwise db.vehicles.rows r (fun id => vehicleState (envs id) db redis policy id)
          fun e => ∃ detail, e = .error (.notFound detail)) ∧
    (RedisDown redisTransientErrors env →
      (∀ id, RedisDown (.attemptTimedOut :: redisTransientErrors) (envs id)) →
      db.vehicles.rows ≠ [] → ∀ policy : RetryPolicy,
      ∃ r, fleetPositions env db redis = .ok r ∧ r.degraded = true ∧
        Pointwise db.vehicles.rows r (fun id => vehicleState (envs id) db redis (some policy) id)
          fun e => ∃ detail, e = .dependencyUnavailable detail) := by
  constructor
  · intro henv henvs policy
    have hfleet := ensures_getFleetPositions (s := ⟨db, none, redis, []⟩) (n := 0) hunique henv rfl
    refine ⟨_, hfleet, rfl, places_pointwise noTelemetry (fun id => ⟨_, rfl⟩)
      (fun h => by cases h) fun v hv => ?_⟩
    exact ensures_getVehicleState (s := ⟨db, none, redis, []⟩) (n := 0) (henvs v.id)
      (isInteger_of_vehicle hv) policy
  · intro henv henvs hne policy
    have hfleet := ensures_getFleetPositions_down (s := ⟨db, none, redis, []⟩) (n := 0) hunique henv
      hne rfl
    refine ⟨_, hfleet, rfl, places_pointwise stateUnavailable (fun id => ⟨_, rfl⟩)
      (fun _ _ => rfl) fun v hv => ?_⟩
    exact ensures_getVehicleState_down (s := ⟨db, none, redis, []⟩) (n := 0) (henvs v.id)
      (fun e he => List.mem_cons.mp he) (isInteger_of_vehicle hv) policy

/-- Vehicle `1` is cached, vehicle `2` has a reading and vehicle `3` is silent. -/
def threeVehicles : Database :=
  (Database.seeded [.insertStation ⟨0, "Lviv, Svobody 1", 5⟩,
    .insertVehicle ⟨0, "BC1234AA", "Skoda Octavia", .available, 1⟩,
    .insertVehicle ⟨0, "BC5678BB", "Renault Zoe", .available, 1⟩,
    .insertVehicle ⟨0, "BC9012CC", "Renault Zoe", .available, 1⟩]).recording
      (sampleBody 2 (utcClock 1789466400000000) 60)

def firstCached : Redis := Redis.empty.caching (sampleBody 1 (utcClock 1789466700000000) 70)

def redisUnreachable : Circumstance := ⟨false, none, some (.before, .connectionError), 0⟩

theorem sample_attempts : 1 ≤ 3 := by decide

theorem sample_timeout : (0 : Rat) < 2 := by decide

def samplePolicy : RetryPolicy := ⟨3, 2, 1, 2, sample_attempts, sample_timeout⟩

theorem threeVehicles_pointwise :
    (∃ r, fleetPositions (fun _ => .calm) threeVehicles firstCached = .ok r ∧ r.degraded = false ∧
      Pointwise threeVehicles.vehicles.rows r
        (fun id => vehicleState (fun _ => .calm) threeVehicles firstCached none id)
        fun e => ∃ detail, e = .error (.notFound detail)) ∧
    ∃ r, fleetPositions (fun _ => redisUnreachable) threeVehicles firstCached = .ok r ∧
      r.degraded = true ∧ Pointwise threeVehicles.vehicles.rows r
        (fun id => vehicleState (fun _ => redisUnreachable) threeVehicles firstCached
          (some samplePolicy) id)
        fun e => ∃ detail, e = .dependencyUnavailable detail := by
  have hunique : threeVehicles.UniqueReadings := by unfold Database.UniqueReadings; decide
  constructor
  · exact (fleetPositions_pointwise threeVehicles hunique firstCached (fun _ => .calm)
      fun _ _ => .calm).1 (fun _ => ⟨rfl, rfl, rfl⟩) (fun _ _ => ⟨rfl, rfl, rfl⟩) none
  · exact (fleetPositions_pointwise threeVehicles hunique firstCached (fun _ => redisUnreachable)
      fun _ _ => redisUnreachable).2 (fun _ => ⟨rfl, _, _, by decide, rfl⟩)
      (fun _ _ => ⟨rfl, _, _, by decide, rfl⟩) (by decide) _

end FleetManagement
