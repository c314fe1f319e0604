import FleetManagement.Lemmas.Statements
import FleetManagement.Services.Rental

/-!
# What the rental service commits

The effect of the two flushes of `rental_service`, first for whatever the session had loaded, then for
a session that loaded what is committed.
-/

namespace FleetManagement

variable {db db' : Database}

def startedRental (renterId vehicleId stationId : Int) (startedAt : DateTime) (id : Int) : Rental :=
  { id, renterId, vehicleId, startStationId := stationId, endStationId := none, startedAt,
    endedAt := none, status := .active }

theorem startedRental_key {renterId vehicleId stationId : Int} {t : DateTime} (id : Int) :
    Keyed.key (startedRental renterId vehicleId stationId t id) = id := rfl

def Vehicle.takeOut (v : Vehicle) : Vehicle := { v with status := .rented }

theorem Vehicle.key_takeOut (v : Vehicle) : Keyed.key v.takeOut = Keyed.key v := rfl

def Database.started (db : Database) (hseq : db.rentals.seq < Keyed.maxKey Rental)
    (renterId vehicleId stationId : Int) (t : DateTime) : Database :=
  (db.withRentals (db.rentals.insert hseq (startedRental renterId vehicleId stationId t)
    startedRental_key)).withVehicles (db.vehicles.update vehicleId Vehicle.takeOut Vehicle.key_takeOut)

section Started
variable (hseq : db.rentals.seq < Keyed.maxKey Rental) (renterId vehicleId stationId : Int)
  (t : DateTime)

@[simp] theorem Database.started_stations :
    (db.started hseq renterId vehicleId stationId t).stations = db.stations := rfl

@[simp] theorem Database.started_vehicles :
    (db.started hseq renterId vehicleId stationId t).vehicles =
      db.vehicles.update vehicleId Vehicle.takeOut Vehicle.key_takeOut := rfl

@[simp] theorem Database.started_rentals :
    (db.started hseq renterId vehicleId stationId t).rentals =
      db.rentals.insert hseq (startedRental renterId vehicleId stationId t) startedRental_key := rfl

end Started

theorem Vehicle.changes_rented {vehicle : Vehicle} (h : vehicle.status = .available) :
    (vehicle.changes { vehicle with status := .rented }).on = Vehicle.takeOut := by
  funext w
  simp [Vehicle.changes, VehicleSet.on, Vehicle.takeOut, dirty, h]

/-- A committed `start_rental` adds one ACTIVE rental and writes the status of one vehicle. -/
theorem startFlush_ok {renterId vehicleId : Int} {vehicle : Vehicle} {t : DateTime}
    (hid : vehicle.id = vehicleId) (hs : vehicle.status = .available)
    (h : dialect.applyAll (startFlush renterId vehicleId vehicle t) db = .ok db') :
    (∃ v, db.vehicles.find? vehicleId = some v) ∧ (∃ r, db.renters.find? renterId = some r) ∧ ∃ hseq,
      db' = db.started hseq renterId vehicleId vehicle.stationId t := by
  subst hid
  obtain ⟨u, hu, hu'⟩ := dialect.applyAll_pair_ok.mp h
  obtain ⟨hc, hseq, rfl⟩ := insertRental_ok.mp hu
  obtain ⟨-, hv, rfl⟩ := updateVehicle_ok.mp hu'
  obtain ⟨_, hr, -⟩ := bind_eq_ok.mp hc
  refine ⟨hv, references_ok.mp hr, hseq, ?_⟩
  simp only [Database.withRentals_vehicles, Vehicle.changes_rented hs]
  rfl

def endedRental (rental : Rental) (stationId : Int) (endedAt : DateTime) : RentalSet :=
  rental.changes
    { rental with endedAt := some endedAt, endStationId := some stationId, status := .completed }

def returnedVehicle (vehicle : Vehicle) (stationId : Int) : VehicleSet :=
  vehicle.changes { vehicle with status := .available, stationId }

/-- A committed `end_rental` writes the changed columns of one rental and of one vehicle. -/
theorem endFlush_ok {rental : Rental} {vehicle : Vehicle} {stationId : Int} {t : DateTime}
    (h : dialect.applyAll (endFlush rental vehicle stationId t) db = .ok db') :
    (∃ r, db.rentals.find? rental.id = some r) ∧ (∃ v, db.vehicles.find? vehicle.id = some v) ∧
      db' = (db.withRentals (db.rentals.update rental.id (endedRental rental stationId t).on
          (RentalSet.key_on _))).withVehicles
        (db.vehicles.update vehicle.id (returnedVehicle vehicle stationId).on (VehicleSet.key_on _)) := by
  obtain ⟨u, hu, hu'⟩ := dialect.applyAll_pair_ok.mp h
  obtain ⟨-, hr, rfl⟩ := updateRental_ok.mp hu
  obtain ⟨-, hv, rfl⟩ := updateVehicle_ok.mp hu'
  exact ⟨hr, hv, rfl⟩

/-! ## A return that loaded what is committed -/

def Rental.complete (stationId : Int) (endedAt : DateTime) (r : Rental) : Rental :=
  { r with endedAt := some endedAt, endStationId := some stationId, status := .completed }

theorem Rental.key_complete (stationId : Int) (t : DateTime) (r : Rental) :
    Keyed.key (r.complete stationId t) = Keyed.key r := rfl

def Vehicle.bringBack (stationId : Int) (v : Vehicle) : Vehicle :=
  { v with status := .available, stationId }

theorem Vehicle.key_bringBack (stationId : Int) (v : Vehicle) :
    Keyed.key (v.bringBack stationId) = Keyed.key v := rfl

def Database.ended (db : Database) (rentalId vehicleId stationId : Int) (t : DateTime) : Database :=
  (db.withRentals (db.rentals.update rentalId (Rental.complete stationId t)
    (Rental.key_complete stationId t))).withVehicles
      (db.vehicles.update vehicleId (Vehicle.bringBack stationId) (Vehicle.key_bringBack stationId))

section Ended
variable (rentalId vehicleId stationId : Int) (t : DateTime)

@[simp] theorem Database.ended_stations :
    (db.ended rentalId vehicleId stationId t).stations = db.stations := rfl

@[simp] theorem Database.ended_vehicles :
    (db.ended rentalId vehicleId stationId t).vehicles =
      db.vehicles.update vehicleId (Vehicle.bringBack stationId) (Vehicle.key_bringBack stationId) := rfl

@[simp] theorem Database.ended_rentals :
    (db.ended rentalId vehicleId stationId t).rentals =
      db.rentals.update rentalId (Rental.complete stationId t) (Rental.key_complete stationId t) := rfl

end Ended

theorem update_endedRental {rental : Rental} {stationId : Int} {t : DateTime}
    (h : db.rentals.find? rental.id = some rental) :
    db.rentals.update rental.id (endedRental rental stationId t).on (RentalSet.key_on _) =
      db.rentals.update rental.id (Rental.complete stationId t) (Rental.key_complete stationId t) :=
  Table.update_congr _ (Rental.key_complete stationId t) h
    (by simp [endedRental, Rental.changes, RentalSet.on, Rental.complete])

theorem update_returnedVehicle {vehicle : Vehicle} {stationId : Int}
    (h : db.vehicles.find? vehicle.id = some vehicle) :
    db.vehicles.update vehicle.id (returnedVehicle vehicle stationId).on (VehicleSet.key_on _) =
      db.vehicles.update vehicle.id (Vehicle.bringBack stationId) (Vehicle.key_bringBack stationId) :=
  Table.update_congr _ (Vehicle.key_bringBack stationId) h
    (by simp [returnedVehicle, Vehicle.changes, VehicleSet.on, Vehicle.bringBack])

theorem endFlush_ok_of_current {rental : Rental} {vehicle : Vehicle} {stationId : Int} {t : DateTime}
    (hr : db.rentals.find? rental.id = some rental) (hv : db.vehicles.find? vehicle.id = some vehicle)
    (h : dialect.applyAll (endFlush rental vehicle stationId t) db = .ok db') :
    db' = db.ended rental.id vehicle.id stationId t := by
  obtain ⟨-, -, rfl⟩ := endFlush_ok h
  rw [update_endedRental hr, update_returnedVehicle hv]
  rfl

end FleetManagement
