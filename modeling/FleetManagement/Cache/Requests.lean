import FleetManagement.Cache.Backend

/-!
# Requests that use the list cache

`fleet_management.cache`, and the routes of `api.vehicles`, `api.stations` and `api.rentals` that read a
list through the cache or invalidate it. What pydantic writes for a list of rows is a parameter.
-/

namespace FleetManagement

structure CacheSettings where
  listCacheEnabled : Bool
  listCacheTtlSeconds : Int

/-- `TypeAdapter(list[...]).dump_json(...).decode()` -/
structure Adapters where
  vehicles : List Vehicle → String
  stations : List Station → String

def stationsListKey : String := "cache:stations:list"

def vehiclesListKey : String := "cache:vehicles:list"

/-- `try: t except RedisError: handler` -/
def exceptRedisError {α : Type} (t handler : SiteJob α) : SiteJob α := do
  match ← t.attempt with
  | .ok a => pure a
  | .error (.redis e) => if e.isRedisError then handler else .raise (.redis e)
  | .error e => .raise e

def readThroughJson {ρ : Type} (settings : CacheSettings) (key : String) (dumpJson : List ρ → String)
    (load : SiteJob (List ρ)) : SiteJob String := do
  if settings.listCacheEnabled = false then return dumpJson (← load)
  else
    match ← exceptRedisError (onCache (.get key)) (pure none) with
    | some cached => return cached
    | none =>
        let payload := dumpJson (← load)
        exceptRedisError (onCache (.set key payload settings.listCacheTtlSeconds)) (pure ())
        return payload

def invalidate (keys : List String) : SiteJob Unit :=
  exceptRedisError (onCache (.delete keys)) (pure ())

/-- `select(Station).order_by(Station.id)` -/
def Database.selectStations (db : Database) : List Station :=
  db.stations.rows.insertionSort fun s t => s.id ≤ t.id

def loadAll {ρ : Type} (rows : Database → List ρ) : Db (List ρ) := do return rows (← Tx.select)

def listVehicles (settings : CacheSettings) (adapters : Adapters) : SiteJob String :=
  readThroughJson settings vehiclesListKey adapters.vehicles
    (onDatabase (loadAll Database.selectVehicles))

def listStations (settings : CacheSettings) (adapters : Adapters) : SiteJob String :=
  readThroughJson settings stationsListKey adapters.stations
    (onDatabase (loadAll Database.selectStations))

/-- The route of a fleet request. -/
def FleetRequest.cachedRoute : FleetRequest → SiteJob FleetRead
  | .createStation address capacity => do
      let station ← onDatabase (FleetManagement.createStation address capacity)
      invalidate [stationsListKey]
      return .station station
  | .createVehicle licensePlate model stationId => do
      let vehicle ← onDatabase (FleetManagement.createVehicle licensePlate model stationId)
      invalidate [vehiclesListKey]
      return .vehicle vehicle
  | .createRenter fullName licenseNumber => do
      return .renter (← onDatabase (FleetManagement.createRenter fullName licenseNumber))
  | .rental (.startRental renterId vehicleId) => do
      let rental ← onDatabase (FleetManagement.startRental renterId vehicleId)
      -- The vehicle changed status, so the cached list is stale.
      invalidate [vehiclesListKey]
      return .rental (← onDatabase (startedRead rental))
  | .rental (.endRental rentalId endStationId) => do
      let rental ← onDatabase (FleetManagement.endRental rentalId endStationId)
      invalidate [vehiclesListKey]
      return .rental (← onDatabase (endedRead rental))

inductive SiteRequest where
  | listVehicles
  | listStations
  | fleet (request : FleetRequest)
  deriving DecidableEq, Repr

inductive SiteResponse where
  | json (body : String)
  | fleet (read : FleetRead)
  deriving DecidableEq, Repr

/-- `get_db`: the session is closed when the route has ended. -/
def getDb {α : Type} (t : SiteJob α) : SiteJob α := do
  let result ← t.attempt
  let () ← Job.perform (Sum.inl .close : SiteCommand)
  Job.ofExcept result

def SiteRequest.route (settings : CacheSettings) (adapters : Adapters) :
    SiteRequest → SiteJob SiteResponse
  | .listVehicles => do return .json (← FleetManagement.listVehicles settings adapters)
  | .listStations => do return .json (← FleetManagement.listStations settings adapters)
  | .fleet request => do return .fleet (← request.cachedRoute)

def SiteRequest.serve (settings : CacheSettings) (adapters : Adapters) (r : SiteRequest) :
    SiteJob SiteResponse :=
  getDb (r.route settings adapters)

end FleetManagement
