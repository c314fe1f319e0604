import FleetManagement.Services.Rental

/-!
# The fleet routes

The handlers of `api.stations`, `api.vehicles`, `api.renters` and `api.rentals` that write to the
database. The cached lists that they invalidate are no part of the database.
-/

namespace FleetManagement

def createStation (address : String) (capacity : Int) : Db Station := do
  let db ← Tx.commitAll [.insertStation { id := 0, address, capacity }]
  refresh Database.stations db.stations.seq

/-- The row that `create_vehicle` inserts, with the default status. -/
def newVehicle (licensePlate model : String) (stationId : Int) : Vehicle :=
  { id := 0, licensePlate, model, status := .available, stationId }

def createVehicle (licensePlate model : String) (stationId : Int) : Db Vehicle := do
  let _ ← getStation stationId
  let db ← Tx.commitAll [.insertVehicle (newVehicle licensePlate model stationId)]
  refresh Database.vehicles db.vehicles.seq

def createRenter (fullName licenseNumber : String) : Db Renter := do
  let db ← Tx.commitAll [.insertRenter { id := 0, fullName, licenseNumber, userId := none }]
  refresh Database.renters db.renters.seq

inductive FleetRequest where
  | createStation (address : String) (capacity : Int)
  | createVehicle (licensePlate model : String) (stationId : Int)
  | createRenter (fullName licenseNumber : String)
  | rental (request : RentalRequest)
  deriving DecidableEq, Repr

inductive FleetResponse where
  | station (row : Station)
  | vehicle (row : Vehicle)
  | renter (row : Renter)
  | rental (row : Rental)
  deriving DecidableEq, Repr

def FleetRequest.handler : FleetRequest → Db FleetResponse
  | .createStation address capacity => do
      return .station (← FleetManagement.createStation address capacity)
  | .createVehicle licensePlate model stationId => do
      return .vehicle (← FleetManagement.createVehicle licensePlate model stationId)
  | .createRenter fullName licenseNumber => do
      return .renter (← FleetManagement.createRenter fullName licenseNumber)
  | .rental request => do return .rental (← request.handler)

/-! ## One request after another -/

structure History where
  db : Database
  created : List Vehicle

def History.empty : History := ⟨Database.empty, []⟩

/-- Serves one request to its end; `env` decides what each of its steps draws and whether it fails. -/
def serve (h : History) (a : FleetRequest × (Nat → Choice Draw Error)) : History :=
  let db := (a.1.handler.eval dialect a.2 ⟨h.db, [], 0⟩).2.store
  ⟨db, h.created ++ db.vehicles.rows.filter fun v => (h.db.vehicles.seq : Int) < v.id⟩

end FleetManagement
