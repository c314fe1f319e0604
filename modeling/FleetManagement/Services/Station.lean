import FleetManagement.Database

/-!
# Stations and their occupancy

`station_service`: a vehicle occupies a slot of its station unless it is rented.
-/

namespace FleetManagement

def getStation (stationId : Int) : Db Station := do
  match ← get Database.stations stationId with
  | none => throw (.notFound s!"Station {stationId} not found")
  | some station => pure station

def Vehicle.parkedAt (stationId : Int) (v : Vehicle) : Bool :=
  v.stationId = stationId ∧ v.status ≠ .rented

def Database.parked (db : Database) (stationId : Int) : Nat :=
  db.vehicles.count (Vehicle.parkedAt stationId)

def countParkedVehicles (stationId : Int) : Db Nat := do
  return (← Tx.select).parked stationId

def hasFreeSlot (stationId : Int) : Db Bool := do
  let station ← getStation stationId
  let parked ← countParkedVehicles stationId
  return decide (parked < station.capacity)

end FleetManagement
