import FleetManagement.Telemetry.Backend

/-!
# The state of vehicles

`vehicle_state_service` and the retry loop of `resilience`. Whether an attempt takes longer than its
timeout is up to the environment.
-/

namespace FleetManagement

structure RetryPolicy where
  maxAttempts : Nat
  attemptTimeout : Rat
  baseDelay : Rat
  maxDelay : Rat
  maxAttempts_pos : 1 ≤ maxAttempts
  attemptTimeout_pos : 0 < attemptTimeout

def RetryPolicy.backoffDelay (p : RetryPolicy) (attempt : Nat) (rand : Rat) : Rat :=
  let exponential := min p.maxDelay (p.baseDelay * 2 ^ (attempt - 1))
  exponential / 2 + rand * exponential / 2

section Retry
variable {α : Type} (operation : Work α) (policy : RetryPolicy) (retryOn : Failure → Bool)
  (name : String)

/-- The loop of `call_with_retry` from `attempt` on, with `left` attempts to go. -/
def retryFrom : (attempt left : Nat) → Work α
  | _, 0 => .raise .assertionError
  | attempt, left + 1 => do
      match ← operation.attempt with
      | .ok a => return a
      | .error e =>
          if e = .redis .attemptTimedOut ∨ retryOn e then
            if attempt = policy.maxAttempts then .raise (.retryExhausted name attempt e)
            else do
              let rand ← ask .random
              ask (.sleep (policy.backoffDelay attempt rand))
              retryFrom (attempt + 1) left
          else .raise e

def callWithRetry : Work α := retryFrom operation policy retryOn name 1 policy.maxAttempts

end Retry

inductive StateSource where
  | cache | database
  deriving DecidableEq, Repr

structure VehicleStateRead where
  vehicleId : Int
  recordedAt : DateTime
  latitude : Rat
  longitude : Rat
  fuelLevel : Rat
  isLocked : Bool
  source : StateSource
  degraded : Bool := false
  deriving DecidableEq

structure VehiclePositionRead where
  vehicleId : Int
  licensePlate : String
  model : String
  status : VehicleStatus
  stationId : Int
  recordedAt : DateTime
  latitude : Rat
  longitude : Rat
  fuelLevel : Rat
  isLocked : Bool
  source : StateSource
  deriving DecidableEq

structure FleetPositionsRead where
  positions : List VehiclePositionRead
  withoutTelemetry : List Int
  degraded : Bool := false
  deriving DecidableEq

/-- `REDIS_TRANSIENT_ERRORS`. -/
def redisTransientErrors : List RedisError := [.connectionError, .timeoutError]

def Failure.isTransient : Failure → Bool
  | .redis e => e ∈ redisTransientErrors
  | _ => false

def fromCache (vehicleId : Int) (cached : VehicleHash) : VehicleStateRead where
  vehicleId
  recordedAt := cached.recordedAt.instant
  latitude := cached.latitude
  longitude := cached.longitude
  fuelLevel := cached.fuelLevel
  isLocked := cached.isLocked = 1
  source := .cache

def fromReading (reading : TelemetryReading) (degraded : Bool) : VehicleStateRead where
  vehicleId := reading.vehicleId
  recordedAt := reading.recordedAt
  latitude := reading.latitude
  longitude := reading.longitude
  fuelLevel := reading.fuelLevel
  isLocked := reading.isLocked
  source := .database
  degraded

/-- What `get_vehicle_state` answers once the Redis read has succeeded. -/
def stateFrom (vehicleId : Int) : Option VehicleHash → Work VehicleStateRead
  | some cached => return fromCache vehicleId cached
  | none => do
      match ← ask (.selectLatestReading vehicleId) with
      | none => .raise (.error (.notFound s!"No telemetry for vehicle {vehicleId}"))
      | some reading => return fromReading reading false

def getVehicleState (vehicleId : Int) (policy : Option RetryPolicy) : Work VehicleStateRead := do
  let key := vehicleStateKey vehicleId
  match policy with
  | none => do
      let cached ← ask (.hgetall key)
      stateFrom vehicleId cached
  | some policy =>
      match ← (callWithRetry (ask (.hgetall key)) policy Failure.isTransient "redis.hgetall").attempt with
      | .ok cached => stateFrom vehicleId cached
      | .error (.retryExhausted _ _ _) => do
          match ← ask (.selectLatestReading vehicleId) with
          | none => .raise (.dependencyUnavailable
              s!"State of vehicle {vehicleId} is temporarily unavailable")
          | some reading => return fromReading reading true
      | .error e => .raise e

def latestReadings (vehicleIds : List Int) : Work (Int → Option TelemetryReading) := do
  if vehicleIds = [] then
    return Query.dict []
  else do
    let rows ← ask (.selectLatestReadings vehicleIds)
    return Query.dict (rows.map fun reading => (reading.vehicleId, reading))

def cachedStates (vehicleIds : List Int) : Work (Int → Option VehicleHash) := do
  let results ← ask (.pipelineHgetall (vehicleIds.map vehicleStateKey))
  return Query.dict ((vehicleIds.zip results).filterMap fun e => e.2.map fun cached => (e.1, cached))

def position (vehicle : Vehicle) (state : VehicleStateRead) : VehiclePositionRead where
  vehicleId := vehicle.id
  licensePlate := vehicle.licensePlate
  model := vehicle.model
  status := vehicle.status
  stationId := vehicle.stationId
  recordedAt := state.recordedAt
  latitude := state.latitude
  longitude := state.longitude
  fuelLevel := state.fuelLevel
  isLocked := state.isLocked
  source := state.source

/-- The loop of `get_fleet_positions` over the vehicles. -/
def placeAll (cached : Int → Option VehicleHash) (readings : Int → Option TelemetryReading)
    (degraded : Bool) : List Vehicle → List VehiclePositionRead × List Int
  | [] => ([], [])
  | vehicle :: vehicles =>
      let (positions, withoutTelemetry) := placeAll cached readings degraded vehicles
      match cached vehicle.id, readings vehicle.id with
      | some hash, _ =>
          (position vehicle (fromCache vehicle.id hash) :: positions, withoutTelemetry)
      | none, some reading =>
          (position vehicle (fromReading reading degraded) :: positions, withoutTelemetry)
      | none, none => (positions, vehicle.id :: withoutTelemetry)

/-- The `try` of `get_fleet_positions`: what is cached, and whether Redis is down. -/
def cachedStatesIfUp (ids : List Int) : Work ((Int → Option VehicleHash) × Bool) := do
  if ids = [] then
    return (Query.dict [], false)
  else
    match ← (cachedStates ids).attempt with
    | .ok cached => return (cached, false)
    | .error e => if e.isTransient then return (Query.dict [], true) else .raise e

def getFleetPositions : Work FleetPositionsRead := do
  let vehicles ← ask .selectVehicles
  let ids := vehicles.map (·.id)
  let (cached, degraded) ← cachedStatesIfUp ids
  let readings ← latestReadings (ids.filter fun id => cached id = none)
  let (positions, withoutTelemetry) := placeAll cached readings degraded vehicles
  return { positions, withoutTelemetry, degraded }

end FleetManagement
