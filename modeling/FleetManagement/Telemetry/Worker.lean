import FleetManagement.Telemetry.Backend
import Mathlib.Tactic.IntervalCases

/-!
# The telemetry worker

`telemetry.processor` and `handle_message` of `telemetry.worker`, and what one delivery does. The log
output is left out.
-/

namespace FleetManagement

def TelemetryMessage.mapping (m : TelemetryMessage) : VehicleHash :=
  ⟨m.recordedAt, m.latitude, m.longitude, m.fuelLevel, if m.isLocked then 1 else 0⟩

def saveReading (message : TelemetryMessage) : Work Bool := do
  match ← ask (.getVehicle message.vehicleId) with
  | none => .raise (.error (.notFound s!"Vehicle {message.vehicleId} not found"))
  | some _ => do
      let rowcount ← ask (.insertReading message)
      ask .commit
      return rowcount = 1

def updateVehicleState (message : TelemetryMessage) : Work Bool := do
  let key := vehicleStateKey message.vehicleId
  let cachedAt ← ask (.hget key)
  if cachedAt.any fun t => message.recordedAt.instant ≤ t.instant then
    return false
  else do
    ask (.hset key message.mapping)
    return true

/-- `async with session_factory() as db`. -/
def withSession {α : Type} (t : Work α) : Work α := do
  let result ← t.attempt
  ask .closeSession
  Job.ofExcept result

def nackDelaySeconds : Rat := 1

section Handler
variable {Body Json : Type} (pydantic : Pydantic Body Json)

def handleMessage (body : Body) : Work Unit := do
  match TelemetryMessage.modelValidateJson pydantic body with
  | none => ask (.settle (.reject false))
  | some telemetry =>
      let processed : Work Bool := do
        let _ ← withSession (saveReading telemetry)
        updateVehicleState telemetry
      match ← processed.attempt with
      | .ok _ => ask (.settle .ack)
      | .error (.error (.notFound _)) => ask (.settle (.reject false))
      | .error _ => do
          ask (.sleep nackDelaySeconds)
          ask (.settle (.nack true))

end Handler

/-! ## Storing a reading -/

/-- The message is one of a known vehicle and `save_reading` turns `db` into `db'`. -/
def Stores (m : TelemetryMessage) (db db' : Database) : Prop :=
  (db.vehicles.find? m.vehicleId).isSome ∧ ∃ rowcount, db.insertReading m = .ok (db', rowcount)

/-- The values of the message fit their columns, and the sequence has a key left for the row. -/
def Fits (m : TelemetryMessage) (db : Database) : Prop :=
  isInteger m.vehicleId ∧ representable m.recordedAt.instant ∧
    db.telemetryReadings.seq < Keyed.maxKey TelemetryReading

section Insert
variable {m : TelemetryMessage} {db db' : Database} {n : Nat}

theorem insertReading_unfit (h : ¬ Fits m db) : db.insertReading m = .error .dataError := by
  unfold Database.insertReading integer timestamptz
  by_cases hi : isInteger m.vehicleId
  · by_cases hr : representable m.recordedAt.instant
    · have hs : ¬ db.telemetryReadings.seq < Keyed.maxKey TelemetryReading := fun hs => h ⟨hi, hr, hs⟩
      simp [hi, hr, hs, bind, Except.bind, throw, throwThe, MonadExceptOf.throw]
    · simp [hi, hr, bind, Except.bind]
  · simp [hi, bind, Except.bind]

theorem insertReading_conflict (h : Fits m db) (hany : db.telemetryReadings.rows.any m.recordedIn) :
    db.insertReading m =
      .ok (db.withTelemetryReadings (db.telemetryReadings.advance h.2.2), 0) := by
  unfold Database.insertReading integer timestamptz
  simp only [h.1, h.2.1, h.2.2, hany, if_true, dif_pos, bind, Except.bind, pure, Except.pure]

theorem insertReading_new (h : Fits m db) (hany : db.telemetryReadings.rows.any m.recordedIn = false) :
    db.insertReading m = if (db.vehicles.find? m.vehicleId).isSome then
      .ok (db.withTelemetryReadings (db.telemetryReadings.insert h.2.2 m.reading m.key_reading), 1)
      else .error .integrityError := by
  unfold Database.insertReading integer timestamptz references
  simp only [h.1, h.2.1, h.2.2, hany, if_true, dif_pos, Bool.false_eq_true, if_false, bind, Except.bind,
    pure, Except.pure]
  cases (db.vehicles.find? m.vehicleId).isSome with
  | true => rfl
  | false => rfl

theorem insertReading_cases (h : db.insertReading m = .ok (db', n)) :
    (∃ hs, db' = db.withTelemetryReadings (db.telemetryReadings.advance hs) ∧
      db.telemetryReadings.rows.any m.recordedIn) ∨
    (∃ hs, db' = db.withTelemetryReadings (db.telemetryReadings.insert hs m.reading m.key_reading) ∧
      db.telemetryReadings.rows.any m.recordedIn = false) := by
  by_cases hfit : Fits m db
  · cases hany : db.telemetryReadings.rows.any m.recordedIn with
    | true =>
        rw [insertReading_conflict hfit hany] at h
        cases h
        exact Or.inl ⟨hfit.2.2, rfl, rfl⟩
    | false =>
        rw [insertReading_new hfit hany] at h
        split at h
        · cases h
          exact Or.inr ⟨hfit.2.2, rfl, rfl⟩
        · cases h
  · rw [insertReading_unfit hfit] at h
    cases h

/-- For a known vehicle, only values that do not fit are refused. -/
theorem insertReading_error {e : Error} (hv : (db.vehicles.find? m.vehicleId).isSome)
    (h : db.insertReading m = .error e) : e = .dataError ∧ ¬ Fits m db := by
  by_cases hfit : Fits m db
  · cases hany : db.telemetryReadings.rows.any m.recordedIn with
    | true => rw [insertReading_conflict hfit hany] at h; cases h
    | false => rw [insertReading_new hfit hany, if_pos hv] at h; cases h
  · rw [insertReading_unfit hfit] at h
    exact ⟨(Except.error.inj h).symm, hfit⟩

theorem getVehicle_cases (db : Database) (id : Int) :
    (isInteger id ∧ db.getVehicle id = .ok (db.vehicles.find? id)) ∨
      (isInteger id = false ∧ db.getVehicle id = .error .dataError) := by
  unfold Database.getVehicle integer
  cases hi : isInteger id with
  | true => exact Or.inl ⟨rfl, rfl⟩
  | false => exact Or.inr ⟨rfl, rfl⟩

end Insert

section Stores
variable {m : TelemetryMessage} {db db' : Database}

theorem Stores.fits (h : Stores m db db') : Fits m db := by
  obtain ⟨_, _, h⟩ := h
  by_contra hfit
  rw [insertReading_unfit hfit] at h
  cases h

theorem Stores.vehicles (h : Stores m db db') : db'.vehicles = db.vehicles := by
  obtain ⟨_, _, h⟩ := h
  rcases insertReading_cases h with ⟨hs, rfl, -⟩ | ⟨hs, rfl, -⟩
  · rfl
  · rfl

/-- The message was stored before, or it is the new last row. -/
theorem Stores.rows (h : Stores m db db') :
    (db'.telemetryReadings.rows = db.telemetryReadings.rows ∧
      ∃ r ∈ db.telemetryReadings.rows, m.recordedIn r) ∨
    (∃ id, db'.telemetryReadings.rows = db.telemetryReadings.rows ++ [m.reading id] ∧
      ∀ r ∈ db.telemetryReadings.rows, m.recordedIn r = false) := by
  obtain ⟨_, _, h⟩ := h
  rcases insertReading_cases h with ⟨hs, rfl, hany⟩ | ⟨hs, rfl, hnone⟩
  · exact Or.inl ⟨rfl, by simpa using hany⟩
  · exact Or.inr ⟨_, rfl, by simpa using hnone⟩

end Stores

/-! ## What `save_reading` does -/

def Failure.isNotFound : Failure → Bool
  | .error (.notFound _) => true
  | _ => false

/-- `save_reading` refuses the message on a database that works. -/
def Refused (m : TelemetryMessage) (db : Database) : Prop :=
  isInteger m.vehicleId = false ∨ ((db.vehicles.find? m.vehicleId).isSome ∧ ¬ Fits m db)

/-- The result of `save_reading` on `db`, and the database after it; `calm` says that no operation
failed. -/
inductive Saved (calm : Prop) (m : TelemetryMessage) (db : Database) :
    Except Failure Bool → Database → Prop where
  | unknown (hi : isInteger m.vehicleId) (h : db.vehicles.find? m.vehicleId = none) :
      Saved calm m db (.error (.error (.notFound s!"Vehicle {m.vehicleId} not found"))) db
  | failed {e : Failure} (he : e.isNotFound = false) (hc : ¬ calm ∨ Refused m db) :
      Saved calm m db (.error e) db
  | stored {db' : Database} {r : Except Failure Bool} (h : Stores m db db')
      (hr : ∀ e, r = .error e → e.isNotFound = false ∧ ¬ calm) : Saved calm m db r db'

/-- The calls `n`, `n + 1` and `n + 2` find the database at work. -/
def databaseWorks (env : Nat → Circumstance) (n : Nat) : Prop :=
  (env n).database = none ∧ (env (n + 1)).database = none ∧ (env (n + 2)).database = none

section Spec
variable {m : TelemetryMessage} {env : Nat → Circumstance} {s : Backend} {n : Nat}

theorem device_getVehicle (id : Int) (c : Circumstance) (s : Backend) :
    (c.database = none ∧ isInteger id ∧
      device (.getVehicle id) c s = (.ok (s.view.vehicles.find? id), s)) ∨
    ∃ e, Failure.isNotFound (.error e) = false ∧ (c.database ≠ none ∨ isInteger id = false) ∧
      device (.getVehicle id) c s = (.error (.error e), s) := by
  rcases hc : c.database with _ | _ | _
  · rcases getVehicle_cases s.view id with ⟨hi, hget⟩ | ⟨hi, hget⟩
    · exact Or.inl ⟨rfl, hi, by simp [device, Backend.onDatabase, hc, hget, Except.mapError]⟩
    · refine Or.inr ⟨.dataError, rfl, Or.inr hi, ?_⟩
      simp [device, Backend.onDatabase, hc, hget, Except.mapError]
  · exact Or.inr ⟨.operationalError, rfl, by simp, by simp [device, Backend.onDatabase, hc]⟩
  · exact Or.inr ⟨.operationalError, rfl, by simp, by simp [device, Backend.onDatabase, hc]⟩

theorem device_insertReading {m : TelemetryMessage} (c : Circumstance) {s : Backend}
    (hv : (s.view.vehicles.find? m.vehicleId).isSome) :
    (c.database = none ∧ ∃ db' rowcount, s.view.insertReading m = .ok (db', rowcount) ∧
      device (.insertReading m) c s = (.ok rowcount, { s with transaction := some db' })) ∨
    ∃ e t, Failure.isNotFound (.error e) = false ∧ (c.database ≠ none ∨ ¬ Fits m s.view) ∧
      device (.insertReading m) c s = (.error (.error e), { s with transaction := t }) := by
  cases hins : s.view.insertReading m with
  | ok r =>
      rcases hc : c.database with _ | _ | _
      · refine Or.inl ⟨rfl, r.1, r.2, rfl, ?_⟩
        simp [device, Backend.onDatabase, hc, hins, Except.mapError]
      · refine Or.inr ⟨.operationalError, s.transaction, rfl, by simp, ?_⟩
        simp [device, Backend.onDatabase, hc]
      · refine Or.inr ⟨.operationalError, some r.1, rfl, by simp, ?_⟩
        simp [device, Backend.onDatabase, hc, hins]
  | error e =>
      obtain ⟨rfl, hfit⟩ := insertReading_error hv hins
      rcases hc : c.database with _ | _ | _
      · refine Or.inr ⟨.dataError, s.transaction, rfl, Or.inr hfit, ?_⟩
        simp [device, Backend.onDatabase, hc, hins, Except.mapError]
      · refine Or.inr ⟨.operationalError, s.transaction, rfl, Or.inr hfit, ?_⟩
        simp [device, Backend.onDatabase, hc]
      · refine Or.inr ⟨.operationalError, s.transaction, rfl, Or.inr hfit, ?_⟩
        simp [device, Backend.onDatabase, hc, hins]

/-- A commit that fails may have taken place. -/
theorem device_commit (c : Circumstance) (s : Backend) :
    (c.database = none ∧
      device .commit c s = (.ok (), { s with db := s.view, transaction := none })) ∨
    (c.database ≠ none ∧ device .commit c s = (.error (.error .operationalError), s)) ∨
    (c.database ≠ none ∧ device .commit c s =
      (.error (.error .operationalError), { s with db := s.view, transaction := none })) := by
  rcases hc : c.database with _ | _ | _
  · exact Or.inl ⟨rfl, by simp [device, Backend.onDatabase, hc, Except.mapError]⟩
  · exact Or.inr (Or.inl ⟨by simp, by simp [device, Backend.onDatabase, hc]⟩)
  · exact Or.inr (Or.inr ⟨by simp, by simp [device, Backend.onDatabase, hc]⟩)

theorem ensures_saveReading (ht : s.transaction = none) :
    Job.Ensures device env (fun r s' n' => ∃ db' t, s' = { s with db := db', transaction := t } ∧
      Saved (databaseWorks env n) m s.db r db' ∧ ∀ b, r = .ok b → n' = n + 3 ∧ databaseWorks env n)
      (saveReading m) s n := by
  have hview : s.view = s.db := by rw [Backend.view, ht]; rfl
  unfold saveReading
  rw [Job.ensures_bind, ensures_ask]
  rcases device_getVehicle m.vehicleId (env n) s with ⟨hcalm, hi, hd⟩ | ⟨e, he, hc, hd⟩
  · rw [hd, hview]
    cases hv : s.db.vehicles.find? m.vehicleId with
    | none => exact ⟨s.db, s.transaction, rfl, .unknown hi hv, fun _ h => by cases h⟩
    | some v =>
        have hknown : (s.db.vehicles.find? m.vehicleId).isSome := by rw [hv]; rfl
        refine Job.ensures_bind.mpr ((ensures_ask (.insertReading m)).mpr ?_)
        rcases device_insertReading (env (n + 1)) (hview ▸ hknown) with
          ⟨hcalm₁, db', rows, hins, hd⟩ | ⟨e, t, he, hc, hd⟩
        · rw [hview] at hins
          have hstores : Stores m s.db db' := ⟨hknown, rows, hins⟩
          rw [hd]
          refine Job.ensures_bind.mpr ((ensures_ask .commit).mpr ?_)
          rcases device_commit (env (n + 1 + 1)) { s with transaction := some db' } with
            ⟨hcalm₂, hd⟩ | ⟨hc, hd⟩ | ⟨hc, hd⟩
          · rw [hd]
            refine Job.ensures_ret.mpr ⟨db', none, rfl, ?_, fun b _ => ⟨rfl, hcalm, hcalm₁, hcalm₂⟩⟩
            exact .stored hstores fun _ h => by cases h
          · rw [hd]
            exact ⟨s.db, some db', rfl, .failed rfl (Or.inl fun h => hc h.2.2), fun _ h => by cases h⟩
          · rw [hd]
            refine ⟨db', none, rfl, .stored hstores fun _ h => ?_, fun _ h => by cases h⟩
            cases h
            exact ⟨rfl, fun h => hc h.2.2⟩
        · rw [hd]
          refine ⟨s.db, t, rfl, .failed he (hc.imp (fun hc h => hc h.2.1) fun hfit => ?_),
            fun _ h => by cases h⟩
          exact Or.inr ⟨hknown, hview ▸ hfit⟩
  · rw [hd]
    exact ⟨s.db, s.transaction, rfl, .failed he (hc.imp (fun hc h => hc h.1) Or.inl), fun _ h => by cases h⟩

theorem ensures_withSession {α : Type} {t : Work α} {Q : Except Failure α → Backend → Nat → Prop}
    (h : Job.Ensures device env (fun r s' n' => Q r { s' with transaction := none } (n' + 1)) t s n) :
    Job.Ensures device env Q (withSession t) s n := by
  unfold withSession
  refine Job.ensures_bind.mpr (Job.ensures_attempt.mpr (h.mono fun r s' n' hQ => ?_))
  exact Job.ensures_bind.mpr ((ensures_ask .closeSession).mpr (Job.ensures_ofExcept.mpr hQ))

end Spec

/-! ## What `update_vehicle_state` does -/

/-- The cached state is at least as recent as the message. -/
def Redis.upToDate (redis : Redis) (m : TelemetryMessage) : Bool :=
  (redis (vehicleStateKey m.vehicleId)).any fun cached => m.recordedAt.instant ≤ cached.recordedAt.instant

def Redis.store (redis : Redis) (m : TelemetryMessage) : Redis :=
  Function.update redis (vehicleStateKey m.vehicleId) (some m.mapping)

theorem Redis.store_self {redis : Redis} {m : TelemetryMessage} :
    redis.store m (vehicleStateKey m.vehicleId) = some m.mapping :=
  Function.update_self _ _ _

theorem Redis.store_of_ne {redis : Redis} {m : TelemetryMessage} {key : String}
    (h : key ≠ vehicleStateKey m.vehicleId) : redis.store m key = redis key :=
  Function.update_of_ne h _ _

/-- The result of `update_vehicle_state` on `redis`, whose `HGET` meets the circumstances `c` and whose
`HSET` meets `c'`, and the content of Redis after it. -/
inductive CacheUpdate (m : TelemetryMessage) (c c' : Circumstance) (redis : Redis) :
    Except Failure Bool → Redis → Prop where
  | unread {e : RedisError} (hc : c.redis ≠ none) :
      CacheUpdate m c c' redis (.error (.redis e)) (redis.after c)
  | upToDate (h : (redis.after c).upToDate m) : CacheUpdate m c c' redis (.ok false) (redis.after c)
  | unwritten {e : RedisError} (hc' : c'.redis ≠ none) :
      CacheUpdate m c c' redis (.error (.redis e)) ((redis.after c).after c')
  | written {r : Except Failure Bool}
      (hr : r = .ok true ∨ (c'.redis ≠ none ∧ ∃ e, r = .error (.redis e)))
      (h : (redis.after c).upToDate m = false) (hc : c.redis = none) (hc' : ∀ e, c'.redis ≠ some (.before, e)) :
      CacheUpdate m c c' redis r (((redis.after c).after c').store m)

section Spec
variable {m : TelemetryMessage} {env : Nat → Circumstance} {s : Backend} {n : Nat}

theorem device_hget (key : String) (c : Circumstance) (s : Backend) :
    (c.redis = none ∧ device (.hget key) c s =
      (.ok ((s.redis.after c key).map (·.recordedAt)), s.afterRestart c)) ∨
    (c.redis ≠ none ∧ ∃ e, device (.hget key) c s = (.error (.redis e), s.afterRestart c)) := by
  rcases hc : c.redis with _ | ⟨_ | _, e⟩
  · exact Or.inl ⟨rfl, by simp [device, Backend.onRedis, Backend.afterRestart, hc]⟩
  · exact Or.inr ⟨by simp, e, by simp [device, Backend.onRedis, hc]⟩
  · exact Or.inr ⟨by simp, e, by simp [device, Backend.onRedis, hc]⟩

/-- An `HSET` that fails may have taken place. -/
theorem device_hset (key : String) (mapping : VehicleHash) (c : Circumstance) (s : Backend) :
    ((∀ e, c.redis ≠ some (.before, e)) ∧ ∃ r, (r = .ok () ∨ (c.redis ≠ none ∧ ∃ e, r = .error (.redis e))) ∧
      device (.hset key mapping) c s = (r, { s.afterRestart c with
        redis := Function.update (s.redis.after c) key (some mapping) })) ∨
    (c.redis ≠ none ∧ ∃ e, device (.hset key mapping) c s = (.error (.redis e), s.afterRestart c)) := by
  rcases hc : c.redis with _ | ⟨_ | _, e⟩
  · refine Or.inl ⟨by simp, .ok (), Or.inl rfl, ?_⟩
    simp [device, Backend.onRedis, Backend.afterRestart, hc]
  · exact Or.inr ⟨by simp, e, by simp [device, Backend.onRedis, hc]⟩
  · refine Or.inl ⟨by simp, .error (.redis e), Or.inr ⟨by simp, e, rfl⟩, ?_⟩
    simp [device, Backend.onRedis, Backend.afterRestart, hc]

theorem ensures_updateVehicleState :
    Job.Ensures device env (fun r s' _ => ∃ redis', s' = { s with redis := redis' } ∧
      CacheUpdate m (env n) (env (n + 1)) s.redis r redis') (updateVehicleState m) s n := by
  unfold updateVehicleState
  refine Job.ensures_bind.mpr ((ensures_ask (.hget _)).mpr ?_)
  rcases device_hget (vehicleStateKey m.vehicleId) (env n) s with ⟨hc, hd⟩ | ⟨hc, e, hd⟩
  · rw [hd]
    have hcached : (((s.redis.after (env n) (vehicleStateKey m.vehicleId)).map (·.recordedAt)).any
        fun t => m.recordedAt.instant ≤ t.instant) = (s.redis.after (env n)).upToDate m := by
      rw [Option.any_map]; rfl
    cases hnew : (s.redis.after (env n)).upToDate m with
    | true =>
        simp only [hcached, hnew, if_true]
        exact ⟨_, rfl, .upToDate hnew⟩
    | false =>
        simp only [hcached, hnew, Bool.false_eq_true, if_false]
        refine Job.ensures_bind.mpr ((ensures_ask (.hset _ _)).mpr ?_)
        rcases device_hset (vehicleStateKey m.vehicleId) m.mapping (env (n + 1)) (s.afterRestart (env n))
          with ⟨hc', r, hr, hd⟩ | ⟨hc', e, hd⟩
        · rw [hd]
          rcases hr with rfl | ⟨hfail, e, rfl⟩
          · exact ⟨_, rfl, .written (Or.inl rfl) hnew hc hc'⟩
          · exact ⟨_, rfl, .written (Or.inr ⟨hfail, e, rfl⟩) hnew hc hc'⟩
        · rw [hd]
          exact ⟨_, rfl, .unwritten hc'⟩
  · rw [hd]
    exact ⟨_, rfl, .unread hc⟩

end Spec

/-! ## What a delivery does -/

def settlementOf : Except Failure Bool → Settlement
  | .ok _ => .ack
  | .error _ => .nack true

/-- How the delivery of the message is settled, and the database and Redis after it. The calls of the
delivery are numbered from `0`: three of the database, the end of the session, and two of Redis. -/
inductive Handled (env : Nat → Circumstance) (m : TelemetryMessage) (db : Database) (redis : Redis) :
    Settlement → Database → Redis → Prop where
  | rejected (hi : isInteger m.vehicleId) (h : db.vehicles.find? m.vehicleId = none) :
      Handled env m db redis (.reject false) db redis
  | failed (h : ¬ databaseWorks env 0 ∨ Refused m db) : Handled env m db redis (.nack true) db redis
  | stored {db' : Database} (h : Stores m db db') (hdb : ¬ databaseWorks env 0) :
      Handled env m db redis (.nack true) db' redis
  | cached {db' : Database} {redis' : Redis} {r : Except Failure Bool} (h : Stores m db db')
      (hdb : databaseWorks env 0) (hc : CacheUpdate m (env 4) (env 5) redis r redis') :
      Handled env m db redis (settlementOf r) db' redis'

section Spec
variable {Body Json : Type} {pydantic : Pydantic Body Json} {body : Body} {m : TelemetryMessage}
  {env : Nat → Circumstance} {s : Backend} {n : Nat}

theorem CacheUpdate.isNotFound {c c' : Circumstance} {redis redis' : Redis} {e : Failure}
    (h : CacheUpdate m c c' redis (.error e) redis') : e.isNotFound = false := by
  cases h with
  | unread => rfl
  | unwritten => rfl
  | written hr =>
      rcases hr with hr | ⟨-, e, hr⟩
      · cases hr
      · cases hr; rfl

theorem CacheUpdate.settlementOf_eq_ack {c c' : Circumstance} {redis redis' : Redis}
    {r : Except Failure Bool} (h : CacheUpdate m c c' redis r redis') (hc : c.redis = none)
    (hc' : c'.redis = none) : settlementOf r = .ack := by
  cases h with
  | unread h => exact absurd hc h
  | upToDate => rfl
  | unwritten h => exact absurd hc' h
  | written hr =>
      rcases hr with rfl | ⟨h, -⟩
      · rfl
      · exact absurd hc' h

theorem ensures_invalid (env : Nat → Circumstance)
    (hv : TelemetryMessage.modelValidateJson pydantic body = none) :
    Job.Ensures device env (fun _ s' _ => s' = { s with settled := s.settled ++ [.reject false] })
      (handleMessage pydantic body) s n := by
  unfold handleMessage
  rw [hv]
  exact (ensures_ask (.settle (.reject false))).mpr rfl

/-- The end of `handle_message` after the body of the `try` has ended with `r`. -/
theorem ensures_settle {r : Except Failure Bool} (hr : ∀ e, r = .error e → e.isNotFound = false) :
    Job.Ensures device env (fun _ s' _ => s' = { s with settled := s.settled ++ [settlementOf r] })
      (match r with
        | .ok _ => ask (.settle .ack)
        | .error (.error (.notFound _)) => ask (.settle (.reject false))
        | .error _ => do
            ask (.sleep nackDelaySeconds)
            ask (.settle (.nack true))) s n := by
  split
  · exact (ensures_ask (.settle .ack)).mpr rfl
  · cases hr _ rfl
  · refine Job.ensures_bind.mpr ((ensures_ask (.sleep _)).mpr ?_)
    exact (ensures_ask (.settle (.nack true))).mpr rfl

theorem ensures_handleMessage (env : Nat → Circumstance)
    (hv : TelemetryMessage.modelValidateJson pydantic body = some m)
    (ht : s.transaction = none) :
    Job.Ensures device env (fun _ s' _ => ∃ x db' redis', Handled env m s.db s.redis x db' redis' ∧
      s' = ⟨db', none, redis', s.settled ++ [x]⟩) (handleMessage pydantic body) s 0 := by
  unfold handleMessage
  rw [hv]
  refine Job.ensures_bind.mpr (Job.ensures_attempt.mpr (Job.ensures_bind.mpr ?_))
  refine ensures_withSession ((ensures_saveReading ht).mono ?_)
  rintro r _ n' ⟨db', t, rfl, hsaved, hcalm⟩
  cases r with
  | error e =>
      cases hsaved with
      | unknown hi h =>
          exact (ensures_ask (.settle (.reject false))).mpr ⟨_, _, _, .rejected hi h, rfl⟩
      | failed he hc =>
          refine (ensures_settle (fun e' h => Except.error.inj h ▸ he)).mono ?_
          rintro _ _ _ rfl
          exact ⟨_, _, _, .failed hc, rfl⟩
      | stored h hr =>
          refine (ensures_settle fun e' h' => (hr e' h').1).mono ?_
          rintro _ _ _ rfl
          exact ⟨_, _, _, .stored h (hr e rfl).2, rfl⟩
  | ok b =>
      obtain ⟨rfl, hdb⟩ := hcalm b rfl
      cases hsaved with
      | stored h hr =>
          refine ensures_updateVehicleState.mono ?_
          rintro r _ n' ⟨redis', rfl, hc⟩
          refine (ensures_settle (fun e he => ?_)).mono ?_
          · subst he; exact hc.isNotFound
          · rintro _ _ _ rfl
            exact ⟨_, _, _, .cached h hdb hc, rfl⟩

end Spec

/-! ## Bodies for examples -/

/-- The values that the members of a telemetry body have. -/
inductive SampleValue where
  | number (q : Rat)
  | timestamp (t : AwareDatetime)
  | boolean (b : Bool)

/-- Bodies given by the members of their JSON objects. -/
def samplePydantic : Pydantic (List (String × SampleValue)) SampleValue where
  loads := some
  int
    | .number q => if q.den = 1 then some q.num else none
    | _ => none
  awareDatetime
    | .timestamp t => some t
    | _ => none
  float
    | .number q => some q
    | _ => none
  bool
    | .boolean b => some b
    | _ => none

theorem clamp_range (i : DateTime) :
    datetimeMin ≤ max datetimeMin (min i datetimeMax) ∧
      max datetimeMin (min i datetimeMax) ≤ datetimeMax :=
  ⟨le_max_left _ _, max_le (by decide) (min_le_right _ _)⟩

theorem zero_offset_range : -oneDay < 0 ∧ (0 : Int) < oneDay := by decide

/-- A clock in UTC. -/
def utcClock (i : DateTime) : AwareDatetime :=
  ⟨max datetimeMin (min i datetimeMax), 0, clamp_range i, zero_offset_range⟩

def sampleBody (vehicleId : Int) (recordedAt : AwareDatetime) (fuelLevel : Rat) :
    List (String × SampleValue) :=
  [("vehicle_id", .number vehicleId), ("recorded_at", .timestamp recordedAt),
    ("latitude", .number 49), ("longitude", .number 24), ("fuel_level", .number fuelLevel),
    ("is_locked", .boolean true)]

theorem sampleBody_message {vehicleId : Int} {recordedAt : AwareDatetime} {fuelLevel : Rat}
    {m : TelemetryMessage}
    (h : TelemetryMessage.modelValidateJson samplePydantic (sampleBody vehicleId recordedAt fuelLevel) =
      some m) :
    m.recordedAt = recordedAt ∧ m.latitude = 49 ∧ m.longitude = 24 ∧ m.fuelLevel = fuelLevel ∧
      m.isLocked = true := by
  obtain ⟨members, hmembers, -, hrecordedAt, hlatitude, hlongitude, hfuelLevel, hisLocked, -⟩ :=
    TelemetryMessage.modelValidateJson_some h
  cases hmembers
  exact ⟨(Option.some.inj hrecordedAt).symm, (Option.some.inj hlatitude).symm,
    (Option.some.inj hlongitude).symm, (Option.some.inj hfuelLevel).symm, (Option.some.inj hisLocked).symm⟩

/-- A database with one vehicle, whose id is `1`. -/
def oneVehicle : Database :=
  Database.seeded [.insertStation ⟨0, "Lviv, Svobody 1", 5⟩,
    .insertVehicle ⟨0, "BC1234AA", "Skoda Octavia", .available, 1⟩]

/-- Stores the reading of a body, where the database takes it. -/
def Database.recording (db : Database) (body : List (String × SampleValue)) : Database :=
  match (TelemetryMessage.modelValidateJson samplePydantic body).map db.insertReading with
  | some (.ok (db', _)) => db'
  | _ => db

/-- Caches the state of a body. -/
def Redis.caching (redis : Redis) (body : List (String × SampleValue)) : Redis :=
  match TelemetryMessage.modelValidateJson samplePydantic body with
  | some m => redis.store m
  | none => redis

end FleetManagement
