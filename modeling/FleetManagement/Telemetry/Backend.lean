import FleetManagement.Database
import FleetManagement.Library.Job
import FleetManagement.Library.Query
import FleetManagement.Telemetry.Schemas

/-!
# PostgreSQL, Redis and the broker

What the telemetry worker and the vehicle state service ask of the outside world. Any single operation
can fail before or after it took effect, and Redis can be restarted, which empties it.
-/

namespace FleetManagement

/-- The hash of a vehicle. Timestamps and numbers are written as text that parses back to them. -/
structure VehicleHash where
  recordedAt : AwareDatetime
  latitude : Rat
  longitude : Rat
  fuelLevel : Rat
  isLocked : Int
  deriving DecidableEq

abbrev Redis := String → Option VehicleHash

def Redis.empty : Redis := fun _ => none

def vehicleStateKey (vehicleId : Int) : String := s!"vehicle:{vehicleId}:state"

/-- The digits of a positive number determine it. -/
theorem vehicleStateKey_inj {a b : Int} (ha : 0 < a) (hb : 0 < b) :
    vehicleStateKey a = vehicleStateKey b ↔ a = b := by
  constructor
  · intro h
    have hrepr : a.repr = b.repr := by simpa [vehicleStateKey] using h
    rw [Int.repr_eq_if, Int.repr_eq_if, if_pos ha.le, if_pos hb.le] at hrepr
    have hdigits := congrArg (fun text => Nat.ofDigitChars 10 text.toList 0) hrepr
    simp only [Nat.toList_repr, Nat.ofDigitChars_ten_toDigits] at hdigits
    omega
  · rintro rfl
    rfl

/-! ## Failures -/

inductive RedisError where
  | connectionError | timeoutError | responseError
  /-- `asyncio.wait_for` gives the attempt up. -/
  | attemptTimedOut
  deriving DecidableEq, Repr

/-- The exceptions that the telemetry code meets; `error` has those of the database and the domain. -/
inductive Failure where
  | error (e : Error)
  | redis (e : RedisError)
  | retryExhausted (operation : String) (attempts : Nat) (lastError : Failure)
  | dependencyUnavailable (detail : String)
  | assertionError
  deriving DecidableEq, Repr

inductive Moment where
  | before | after
  deriving DecidableEq, Repr

/-- What the environment decides at one call. -/
structure Circumstance where
  /-- Redis was restarted since the last call. -/
  restarts : Bool
  database : Option Moment
  redis : Option (Moment × RedisError)
  /-- `random.random()`. -/
  random : Rat

def Circumstance.calm : Circumstance := ⟨false, none, none, 0⟩

/-- A restart empties Redis. -/
def Redis.after (redis : Redis) (c : Circumstance) : Redis := if c.restarts then .empty else redis

theorem Redis.after_of_steady {redis : Redis} {c : Circumstance} (h : c.restarts = false) :
    redis.after c = redis := by
  simp [Redis.after, h]

/-! ## Operations -/

inductive Settlement where
  | ack
  | reject (requeue : Bool)
  | nack (requeue : Bool)
  deriving DecidableEq, Repr

inductive Command where
  | getVehicle (id : Int)
  /-- `INSERT ... ON CONFLICT ON CONSTRAINT uq_telemetry_vehicle_recorded_at DO NOTHING`. -/
  | insertReading (message : TelemetryMessage)
  | commit
  | closeSession
  | selectVehicles
  | selectLatestReading (vehicleId : Int)
  | selectLatestReadings (vehicleIds : List Int)
  /-- `HGET key recorded_at`. -/
  | hget (key : String)
  | hset (key : String) (mapping : VehicleHash)
  | hgetall (key : String)
  | pipelineHgetall (keys : List String)
  | sleep (seconds : Rat)
  | random
  | settle (settlement : Settlement)

@[reducible] def Command.Answer : Command → Type
  | .getVehicle _ => Option Vehicle
  | .insertReading _ => Nat
  | .commit => Unit
  | .closeSession => Unit
  | .selectVehicles => List Vehicle
  | .selectLatestReading _ => Option TelemetryReading
  | .selectLatestReadings _ => List TelemetryReading
  | .hget _ => Option AwareDatetime
  | .hset _ _ => Unit
  | .hgetall _ => Option VehicleHash
  | .pipelineHgetall _ => List (Option VehicleHash)
  | .sleep _ => Unit
  | .random => Rat
  | .settle _ => Unit

abbrev Work (α : Type) := Job Command Command.Answer Failure α

def ask (w : Command) : Work w.Answer := Job.perform w

structure Backend where
  db : Database
  /-- The database as the open transaction sees it, once it has written. -/
  transaction : Option Database
  redis : Redis
  /-- How the current delivery was settled. -/
  settled : List Settlement

/-! ## The table of readings -/

def TelemetryMessage.reading (m : TelemetryMessage) (id : Int) : TelemetryReading :=
  ⟨id, m.vehicleId, m.recordedAt.instant, m.latitude, m.longitude, m.fuelLevel, m.isLocked⟩

theorem TelemetryMessage.key_reading (m : TelemetryMessage) (id : Int) :
    Keyed.key (m.reading id) = id := rfl

/-- The rows that conflict with the message under `uq_telemetry_vehicle_recorded_at`. -/
def TelemetryMessage.recordedIn (m : TelemetryMessage) (r : TelemetryReading) : Bool :=
  r.vehicleId = m.vehicleId ∧ r.recordedAt = m.recordedAt.instant

/-- The driver sends a timestamp in UTC. -/
def timestamptz (t : AwareDatetime) : Except Error Unit :=
  if representable t.instant then .ok () else .error .dataError

namespace Database
variable (db : Database)

def insertReading (m : TelemetryMessage) : Except Error (Database × Nat) := do
  integer m.vehicleId
  timestamptz m.recordedAt
  if h : db.telemetryReadings.seq < Keyed.maxKey TelemetryReading then
    if db.telemetryReadings.rows.any m.recordedIn then
      return (db.withTelemetryReadings (db.telemetryReadings.advance h), 0)
    else
      references db.vehicles m.vehicleId
      return (db.withTelemetryReadings (db.telemetryReadings.insert h m.reading m.key_reading), 1)
  else throw .dataError

/-- The constraint `uq_telemetry_vehicle_recorded_at`. -/
def UniqueReadings : Prop :=
  ∀ p ∈ db.telemetryReadings.rows, ∀ q ∈ db.telemetryReadings.rows,
    p.vehicleId = q.vehicleId → p.recordedAt = q.recordedAt → p = q

def getVehicle (id : Int) : Except Error (Option Vehicle) := do
  integer id
  return db.vehicles.find? id

def selectVehicles : List Vehicle := db.vehicles.rows.insertionSort fun v w => v.id ≤ w.id

def selectLatestReading (vehicleId : Int) : Except Error (Option TelemetryReading) := do
  integer vehicleId
  return Query.newest? (·.recordedAt) (db.telemetryReadings.rows.filter (·.vehicleId = vehicleId))

def selectLatestReadings (vehicleIds : List Int) : Except Error (List TelemetryReading) := do
  vehicleIds.forM integer
  return Query.newestEach (·.vehicleId) (·.recordedAt)
    (db.telemetryReadings.rows.filter (·.vehicleId ∈ vehicleIds))

end Database

/-! ## What an operation does -/

namespace Backend
variable (s : Backend) (c : Circumstance)

/-- The database as the session sees it. -/
def view : Database := s.transaction.getD s.db

def afterRestart : Backend := { s with redis := s.redis.after c }

/-- An operation of the database with the outcome `r`, which fails as `c` says. -/
def onDatabase {α : Type} (r : Except Error α × Backend) : Except Failure α × Backend :=
  match c.database with
  | none => (r.1.mapError Failure.error, r.2)
  | some .before => (.error (.error .operationalError), s)
  | some .after => (.error (.error .operationalError), r.2)

/-- An operation of Redis, which succeeds with the outcome `r` or fails as `c` says. -/
def onRedis {α : Type} (r : α × Backend) : Except Failure α × Backend :=
  match c.redis with
  | none => (.ok r.1, r.2)
  | some (.before, e) => (.error (.redis e), s)
  | some (.after, e) => (.error (.redis e), r.2)

end Backend

/-- The broker is reached and the clock runs in all circumstances. -/
def device : Device Backend Circumstance Command Command.Answer Failure
  | .getVehicle id, c, s => s.onDatabase c (s.view.getVehicle id, s)
  | .insertReading m, c, s =>
      s.onDatabase c <| match s.view.insertReading m with
        | .ok (db, rowcount) => (.ok rowcount, { s with transaction := some db })
        | .error e => (.error e, s)
  | .commit, c, s => s.onDatabase c (.ok (), { s with db := s.view, transaction := none })
  | .closeSession, _, s => (.ok (), { s with transaction := none })
  | .selectVehicles, c, s => s.onDatabase c (.ok s.view.selectVehicles, s)
  | .selectLatestReading id, c, s => s.onDatabase c (s.view.selectLatestReading id, s)
  | .selectLatestReadings ids, c, s => s.onDatabase c (s.view.selectLatestReadings ids, s)
  | .hget key, c, s =>
      let s := s.afterRestart c
      s.onRedis c ((s.redis key).map (·.recordedAt), s)
  | .hset key mapping, c, s =>
      let s := s.afterRestart c
      s.onRedis c ((), { s with redis := Function.update s.redis key (some mapping) })
  | .hgetall key, c, s =>
      let s := s.afterRestart c
      s.onRedis c (s.redis key, s)
  | .pipelineHgetall keys, c, s =>
      let s := s.afterRestart c
      s.onRedis c (keys.map s.redis, s)
  | .sleep _, _, s => (.ok (), s)
  | .random, c, s => (.ok c.random, s)
  | .settle settlement, _, s => (.ok (), { s with settled := s.settled ++ [settlement] })

theorem ensures_ask {env : Nat → Circumstance} {s : Backend} {n : Nat} (w : Command)
    {Q : Except Failure w.Answer → Backend → Nat → Prop} :
    Job.Ensures device env Q (ask w) s n ↔ Q (device w (env n) s).1 (device w (env n) s).2 (n + 1) :=
  Job.ensures_perform

end FleetManagement
