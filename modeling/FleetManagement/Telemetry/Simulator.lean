import FleetManagement.Models
import FleetManagement.Library.Runs
import FleetManagement.Telemetry.Schemas
import Mathlib.Algebra.Order.Field.Basic
import Mathlib.Algebra.Order.Floor.Defs
import Mathlib.Logic.Function.Basic

/-!
# The telemetry simulator

`telemetry/simulator.py` with exact arithmetic: which vehicles it knows, where they are, and how a listing of
the API changes that. The functions of `math` and the random numbers are parameters.
-/

namespace FleetManagement

/-- What the simulator uses of `math`. -/
structure Trig (K : Type) where
  pi : K
  cos : K → K
  sin : K → K
  atan2 : K → K → K
  hypot : K → K → K

/-- `random.Random`: the numbers of `random()` and the draws of `choice`. -/
structure Rng (K : Type) [Zero K] [One K] [LE K] [LT K] where
  unit : Nat → { x : K // 0 ≤ x ∧ x < 1 }
  index : Nat → Nat
  drawn : Nat

inductive Bank where
  | right | left
  deriving DecidableEq, Repr

/-- `HUBS`, in ten-thousandths of a degree. -/
def hubs : Bank → List (Int × Int)
  | .right => [(504501, 305241), (504392, 305167), (504325, 305165), (504410, 304890), (504620, 304822),
      (504659, 305153), (504729, 305048), (504864, 304979), (505013, 304983), (504549, 304459),
      (504588, 304199), (504277, 305389), (504130, 305244), (504049, 305167)]
  | .left => [(504518, 305982), (504559, 306126), (504618, 306303), (504647, 306457), (503980, 306342),
      (503953, 306163), (504013, 306526)]

/-- `ALL_HUBS` -/
def allHubs : List (Bank × Int × Int) :=
  (hubs .right).map (fun p => (.right, p)) ++ (hubs .left).map (fun p => (.left, p))

def stationHub (stationId : Int) : Bank × Int × Int :=
  allHubs.getD ((stationId - 1) % allHubs.length).toNat (.right, 0, 0)

structure SimVehicle (K : Type) where
  vehicleId : Int
  stationId : Int
  status : VehicleStatus
  latitude : K
  longitude : K
  heading : K
  speed : K
  fuelLevel : K
  bank : Bank := .right
  target : Option (K × K) := none

def SimVehicle.driving {K : Type} (v : SimVehicle K) : Bool := v.status = .rented

/-- What the simulator reads of an entry of `GET /vehicles`. -/
structure VehicleEntry where
  id : Int
  stationId : Int
  status : VehicleStatus
  deriving DecidableEq, Repr

/-- A listing of the API has every vehicle once. -/
structure ApiListing where
  entries : List VehicleEntry
  nodup : (entries.map (·.id)).Nodup

section Model
variable {K : Type} [Field K] [LinearOrder K] [IsStrictOrderedRing K]

def point (hub : Int × Int) : K × K := ((hub.1 : K) / 10000, (hub.2 : K) / 10000)

/-! ## Random numbers -/

def Rng.uniform (rng : Rng K) (a b : K) : K × Rng K :=
  (a + (b - a) * (rng.unit rng.drawn).val, { rng with drawn := rng.drawn + 1 })

/-- `rng.choice`, which raises on an empty list. -/
def Rng.choice {α : Type} (rng : Rng K) (options : List α) : Option (α × Rng K) :=
  (options[rng.index rng.drawn % options.length]?).map fun a => (a, { rng with drawn := rng.drawn + 1 })

/-! ## Geometry -/

variable (trig : Trig K)

/-- `EARTH_RADIUS_M` -/
def earthRadiusM : K := 6371000

/-- `STATION_SPREAD_M` -/
def stationSpreadM : K := 40

/-- `ARRIVAL_M` -/
def arrivalM : K := 25

/-- `DRIVE_SPEED_MPS` -/
def driveSpeedMps : K × K := (7, 14)

def fuelUsePerKm : K := 6 / 10

def fuelRechargePerTick : K := 5 / 100

def degrees (x : K) : K := x * 180 / trig.pi

def radians (x : K) : K := x * trig.pi / 180

def offset (lat lon north east : K) : K × K :=
  (lat + degrees trig (north / earthRadiusM),
    lon + degrees trig (east / (earthRadiusM * trig.cos (radians trig lat))))

def distanceM (lat1 lon1 lat2 lon2 : K) : K :=
  trig.hypot (radians trig (lat2 - lat1) * earthRadiusM)
    (radians trig (lon2 - lon1) * earthRadiusM * trig.cos (radians trig lat1))

def bearingRad (lat1 lon1 lat2 lon2 : K) : K :=
  trig.atan2 (radians trig (lon2 - lon1) * trig.cos (radians trig lat1)) (radians trig (lat2 - lat1))

/-! ## Steps -/

def parkAtStation (v : SimVehicle K) (rng : Rng K) : SimVehicle K × Rng K :=
  let (bank, hub) := stationHub v.stationId
  let (lat, lon) : K × K := point hub
  let (north, rng) := rng.uniform (-1) 1
  let (east, rng) := rng.uniform (-1) 1
  let (latitude, longitude) := offset trig lat lon (north * stationSpreadM) (east * stationSpreadM)
  ({ v with bank, latitude, longitude, speed := 0, target := none }, rng)

def pickTarget (v : SimVehicle K) (rng : Rng K) : Option ((K × K) × Rng K) :=
  rng.choice (((hubs v.bank).map point).filter fun hub =>
    arrivalM * 4 < distanceM trig v.latitude v.longitude hub.1 hub.2)

/-- `advance`; `none` where it raises, before it has changed anything. -/
def advance (v : SimVehicle K) (dt : K) (rng : Rng K) : Option (SimVehicle K × Rng K) :=
  if !v.driving then some ({ v with speed := 0, fuelLevel := min 100 (v.fuelLevel + fuelRechargePerTick) }, rng)
  else do
    let (target, speed, rng) ← match v.target with
      | some target => pure (target, v.speed, rng)
      | none => do
          let (target, rng) ← pickTarget trig v rng
          let (speed, rng) := rng.uniform driveSpeedMps.1 driveSpeedMps.2
          pure (target, speed, rng)
    let remaining := distanceM trig v.latitude v.longitude target.1 target.2
    let step := min (speed * dt) remaining
    let heading := bearingRad trig v.latitude v.longitude target.1 target.2
    let (latitude, longitude) :=
      offset trig v.latitude v.longitude (step * trig.cos heading) (step * trig.sin heading)
    let fuelLevel := max 0 (v.fuelLevel - fuelUsePerKm * step / 1000)
    let target := if remaining - step ≤ arrivalM then none else some target
    return ({ v with latitude, longitude, heading, speed, fuelLevel, target }, rng)

/-- What `advance` makes of a rented vehicle with this target and speed. -/
def SimVehicle.driven (v : SimVehicle K) (dt : K) (target : K × K) (speed : K) : SimVehicle K :=
  let remaining := distanceM trig v.latitude v.longitude target.1 target.2
  let step := min (speed * dt) remaining
  let heading := bearingRad trig v.latitude v.longitude target.1 target.2
  let position := offset trig v.latitude v.longitude (step * trig.cos heading) (step * trig.sin heading)
  let fuelLevel := max 0 (v.fuelLevel - fuelUsePerKm * step / 1000)
  let target := if remaining - step ≤ arrivalM then none else some target
  { v with latitude := position.1, longitude := position.2, heading, speed, fuelLevel, target }

/-- What an entry makes of the vehicle with its id. -/
def syncVehicle (data : VehicleEntry) (known : Option (SimVehicle K)) (rng : Rng K) :
    SimVehicle K × Rng K :=
  match known with
  | none =>
      let (heading, rng) := rng.uniform 0 (2 * trig.pi)
      let (fuelLevel, rng) := rng.uniform 40 100
      parkAtStation trig
        { vehicleId := data.id, stationId := data.stationId, status := data.status,
          latitude := 0, longitude := 0, heading, speed := 0, fuelLevel } rng
  | some v =>
      let returned := v.driving && data.status ≠ .rented
      let v := { v with status := data.status, stationId := data.stationId }
      if returned then parkAtStation trig v rng else (v, rng)

abbrev SimFleet (K : Type) := Int → Option (SimVehicle K)

def syncFleet (fleet : SimFleet K) (vehicles : List VehicleEntry) (rng : Rng K) : SimFleet K × Rng K :=
  vehicles.foldl (fun (fleet, rng) data =>
    let (v, rng) := syncVehicle trig data (fleet data.id) rng
    (Function.update fleet data.id (some v), rng)) (fleet, rng)

/-! ## Runs -/

structure SimWorld (K : Type) [Zero K] [One K] [LE K] [LT K] where
  fleet : SimFleet K
  rng : Rng K
  /-- The latest listing. -/
  listed : List VehicleEntry

inductive SimEvent (K : Type) where
  | sync (listing : ApiListing)
  | advance (id : Int) (dt : K)

def SimWorld.start (rng : Rng K) : SimWorld K := ⟨fun _ => none, rng, []⟩

def SimWorld.step (w : SimWorld K) : SimEvent K → SimWorld K
  | .sync listing =>
      let (fleet, rng) := syncFleet trig w.fleet listing.entries w.rng
      ⟨fleet, rng, listing.entries⟩
  | .advance id dt =>
      match (w.fleet id).bind fun v => FleetManagement.advance trig v dt w.rng with
      | some (v, rng) => { w with fleet := Function.update w.fleet id (some v), rng }
      | none => w

/-! ## Messages -/

/-- `round(x, digits)`: ties go to the even neighbour. -/
def roundTo [FloorRing K] (digits : Nat) (x : K) : Rat :=
  let scaled := x * 10 ^ digits
  let floor := ⌊scaled⌋
  let rest := scaled - floor
  let rounded := if rest < 1 / 2 ∨ (rest = 1 / 2 ∧ floor % 2 = 0) then floor else floor + 1
  rounded / 10 ^ digits

/-- `to_message`; `none` is a validation error. -/
def toMessage [FloorRing K] (v : SimVehicle K) (now : AwareDatetime) : Option TelemetryMessage :=
  let latitude := roundTo 6 v.latitude
  let longitude := roundTo 6 v.longitude
  let fuelLevel := roundTo 1 v.fuelLevel
  if h : 0 < v.vehicleId ∧ (-90 ≤ latitude ∧ latitude ≤ 90) ∧ (-180 ≤ longitude ∧ longitude ≤ 180) ∧
      (0 ≤ fuelLevel ∧ fuelLevel ≤ 100) then
    some ⟨v.vehicleId, now, latitude, longitude, fuelLevel, !v.driving, h.1, h.2.1, h.2.2.1, h.2.2.2⟩
  else none

/-! ## The loop -/

/-- `REFRESH_EVERY_TICKS` -/
def refreshEveryTicks : Nat := 5

/-- The locals of `run` and what it has published. A dict keeps its keys in the order of insertion. -/
structure SimLoop (K : Type) [Zero K] [One K] [LE K] [LT K] where
  world : SimWorld K
  ids : List Int
  tick : Nat
  published : List TelemetryMessage

/-- What a tick reads: the listing, or `none` for an `OSError`, and the clock. -/
structure SimTick where
  fetched : Option ApiListing
  now : AwareDatetime

def SimLoop.start (rng : Rng K) : SimLoop K := ⟨.start rng, [], 0, []⟩

/-- The keys of the fleet after a listing. -/
def insertKeys (ids : List Int) (entries : List VehicleEntry) : List Int :=
  entries.foldl (fun ids data => if data.id ∈ ids then ids else ids ++ [data.id]) ids

def SimLoop.refresh (s : SimLoop K) (listing : ApiListing) : SimLoop K where
  world := s.world.step trig (.sync listing)
  ids := insertKeys s.ids listing.entries
  tick := s.tick
  published := s.published

/-- `for vehicle in fleet.values()`; `none` where it raises. -/
def publishReadings [FloorRing K] (interval : K) (now : AwareDatetime) :
    List Int → SimWorld K → Option (SimWorld K × List TelemetryMessage)
  | [], w => some (w, [])
  | id :: ids, w => do
      let v ← w.fleet id
      let (v, rng) ← advance trig v interval w.rng
      let message ← toMessage v now
      let (w, messages) ←
        publishReadings interval now ids { w with fleet := Function.update w.fleet id (some v), rng }
      return (w, message :: messages)

def SimLoop.step [FloorRing K] (interval : K) (s : SimLoop K) (t : SimTick) : Option (SimLoop K) := do
  let s := if s.tick % refreshEveryTicks = 0 then t.fetched.elim s (s.refresh trig) else s
  let (world, messages) ← publishReadings trig interval t.now s.ids s.world
  return { s with world, tick := s.tick + 1, published := s.published ++ messages }

end Model

end FleetManagement
