import FleetManagement.Services.Station

/-!
# Starting and ending rentals

`rental_service.start_rental` and `rental_service.end_rental`. The ORM writes a column back only where
its value differs from the one that the session loaded.
-/

namespace FleetManagement

/-- The columns of a vehicle that a session has changed. -/
def Vehicle.changes (loaded v : Vehicle) : VehicleSet where
  status := dirty loaded.status v.status
  stationId := dirty loaded.stationId v.stationId

def Rental.changes (loaded r : Rental) : RentalSet where
  endStationId := dirty loaded.endStationId r.endStationId
  endedAt := dirty loaded.endedAt r.endedAt
  status := dirty loaded.status r.status

/-- The flush of `start_rental`: the new rental and the vehicle that the session loaded. -/
def startFlush (renterId vehicleId : Int) (vehicle : Vehicle) (startedAt : DateTime) : List Stmt :=
  [.insertRental
    { id := 0, renterId, vehicleId, startStationId := vehicle.stationId, endStationId := none,
      startedAt, endedAt := none, status := .active },
   .updateVehicle vehicle.id (vehicle.changes { vehicle with status := .rented })]

def startRental (renterId vehicleId : Int) : Db Rental := do
  match ← get Database.vehicles vehicleId with
  | none => throw (.notFound s!"Vehicle {vehicleId} not found")
  | some vehicle =>
      if vehicle.status ≠ .available then
        throw (.vehicleNotAvailable s!"Vehicle {vehicleId} is not available")
      else
        let db ← Tx.commitAll (startFlush renterId vehicleId vehicle (← now))
        refresh Database.rentals db.rentals.seq

/-- The flush of `end_rental`: the rental and the vehicle that the session loaded. -/
def endFlush (rental : Rental) (vehicle : Vehicle) (endStationId : Int) (endedAt : DateTime) :
    List Stmt :=
  [.updateRental rental.id (rental.changes
    { rental with endedAt := some endedAt, endStationId := some endStationId, status := .completed }),
   .updateVehicle vehicle.id (vehicle.changes
    { vehicle with status := .available, stationId := endStationId })]

def endRental (rentalId endStationId : Int) : Db Rental := do
  match ← get Database.rentals rentalId with
  | none => throw (.notFound s!"Rental {rentalId} not found")
  | some rental =>
      if rental.status ≠ .active then
        throw (.vehicleNotAvailable s!"Rental {rentalId} is not active")
      else if ← hasFreeSlot endStationId then
        match ← get Database.vehicles rental.vehicleId with
        | none => throw .attributeError
        | some vehicle =>
            let _ ← Tx.commitAll (endFlush rental vehicle endStationId (← now))
            refresh Database.rentals rental.id
      else throw (.stationFull s!"Station {endStationId} has no free slots")

/-! ## Requests -/

inductive RentalRequest where
  | startRental (renterId vehicleId : Int)
  | endRental (rentalId endStationId : Int)
  deriving DecidableEq, Repr

def RentalRequest.handler : RentalRequest → Db Rental
  | .startRental renterId vehicleId => FleetManagement.startRental renterId vehicleId
  | .endRental rentalId endStationId => FleetManagement.endRental rentalId endStationId

end FleetManagement
