import FleetManagement.Api.Fleet
import Mathlib.Algebra.Field.Rat
import Mathlib.Data.List.Sort

/-!
# What the rental routes answer

`rental_service.calculate_cost` in exact arithmetic, and the routes of `api.rentals` that show a cost.
-/

namespace FleetManagement

/-- `round(x, 2)`: ties go to the even neighbour. -/
def round2 (x : Rat) : Rat :=
  let cents := x * 100
  let floor := cents.floor
  let rest := cents - floor
  let rounded := if rest < 1 / 2 ∨ (rest = 1 / 2 ∧ floor % 2 = 0) then floor else floor + 1
  rounded / 100

def ratePerHour : Rat := 5

def minBillableHours : Int := 1

def calculateCost (startedAt endedAt : DateTime) : Rat :=
  let durationHours : Rat := ((endedAt - startedAt : Int) : Rat) / 1000000 / 3600
  let billableHours := max durationHours.ceil minBillableHours
  round2 (billableHours * ratePerHour)

structure RentalRead where
  id : Int
  renterId : Int
  vehicleId : Int
  startStationId : Int
  endStationId : Option Int
  startedAt : DateTime
  endedAt : Option DateTime
  status : RentalStatus
  cost : Option Rat
  deriving DecidableEq, Repr

/-- `RentalRead.model_validate(rental).model_copy(update={"cost": cost})` -/
def RentalRead.modelValidate (r : Rental) (cost : Option Rat) : RentalRead :=
  { id := r.id, renterId := r.renterId, vehicleId := r.vehicleId, startStationId := r.startStationId,
    endStationId := r.endStationId, startedAt := r.startedAt, endedAt := r.endedAt, status := r.status,
    cost }

def rentalWithCost (r : Rental) : Db RentalRead := do
  if r.status = .cancelled then pure (.modelValidate r none)
  else
    match r.endedAt with
    | some endedAt => pure (.modelValidate r (some (calculateCost r.startedAt endedAt)))
    | none => return .modelValidate r (some (calculateCost r.startedAt (← now)))

def rentalsWithCost : List Rental → Db (List RentalRead)
  | [] => pure []
  | r :: rentals => do return (← rentalWithCost r) :: (← rentalsWithCost rentals)

/-- `ORDER BY started_at DESC` -/
def newestFirst (rentals : List Rental) : List Rental :=
  rentals.insertionSort fun a b => b.startedAt ≤ a.startedAt

/-- `GET /rentals` -/
def listRentals : Db (List RentalRead) := do
  rentalsWithCost (newestFirst (← Tx.select).rentals.rows)

def completedRentalRevenue (r : Rental) : Rat :=
  match r.endedAt with
  | none => 0
  | some endedAt => calculateCost r.startedAt endedAt

structure RentalsSummary where
  active : Nat
  completed : Nat
  cancelled : Nat
  totalRevenue : Rat
  deriving DecidableEq, Repr

def summarize (rentals : List Rental) : RentalsSummary where
  active := rentals.countP fun r => r.status = .active
  completed := rentals.countP fun r => r.status = .completed
  cancelled := rentals.countP fun r => r.status = .cancelled
  totalRevenue :=
    round2 ((rentals.filter fun r => r.status = .completed).map completedRentalRevenue).sum

/-- `GET /rentals/summary` -/
def rentalsSummary : Db RentalsSummary := do return summarize (← Tx.select).rentals.rows

/-- The response of `POST /rentals/start`. -/
def startedRead (r : Rental) : Db RentalRead := pure (.modelValidate r none)

/-- The response of `POST /rentals/{rental_id}/end`, where a missing end makes the subtraction raise. -/
def endedRead (r : Rental) : Db RentalRead :=
  match r.endedAt with
  | none => throw .attributeError
  | some endedAt => pure (.modelValidate r (some (calculateCost r.startedAt endedAt)))

/-- What a fleet route answers. -/
inductive FleetRead where
  | station (row : Station)
  | vehicle (row : Vehicle)
  | renter (row : Renter)
  | rental (read : RentalRead)
  deriving DecidableEq, Repr

def FleetRequest.read : FleetRequest → FleetResponse → Db FleetRead
  | _, .station row => pure (.station row)
  | _, .vehicle row => pure (.vehicle row)
  | _, .renter row => pure (.renter row)
  | .rental (.endRental ..), .rental row => do return .rental (← endedRead row)
  | _, .rental row => do return .rental (← startedRead row)

/-- The route of a fleet request. -/
def FleetRequest.route (r : FleetRequest) : Db FleetRead := do r.read (← r.handler)

end FleetManagement
