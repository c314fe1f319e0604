import FleetManagement.Rentals.Custody

/-!
# Occupancy and the rental ledger

The number of vehicles that are parked at a station is the balance of the vehicles created there and the
rentals that ended and started there.
-/

namespace FleetManagement

def Database.startedAt (db : Database) (stationId : Int) : Nat :=
  db.rentals.count fun r => r.startStationId = stationId

def Database.endedAt (db : Database) (stationId : Int) : Nat :=
  db.rentals.count fun r => r.status = .completed ∧ r.endStationId = some stationId

def History.createdAt (h : History) (stationId : Int) : Nat :=
  h.created.countP fun v => v.stationId = stationId

def History.balance (h : History) (stationId : Int) : Int :=
  h.createdAt stationId + h.db.endedAt stationId - h.db.startedAt stationId

section Counts
variable {db : Database}

theorem parked_started {vehicleId : Int} {vehicle : Vehicle} (hseq) (renterId : Int) (t : DateTime)
    (hv : db.vehicles.find? vehicleId = some vehicle) (hs : vehicle.status = .available) (s : Int) :
    (db.started hseq renterId vehicleId vehicle.stationId t).parked s +
      (if vehicle.stationId = s then 1 else 0) = db.parked s := by
  have hcount := Table.count_update Vehicle.key_takeOut (Vehicle.parkedAt s) hv
  have hout : vehicle.takeOut.parkedAt s = false := by simp [Vehicle.parkedAt, Vehicle.takeOut]
  rw [hout] at hcount
  rw [Database.parked, Database.started_vehicles]
  by_cases hst : vehicle.stationId = s
  · have hin : vehicle.parkedAt s = true := by simp [Vehicle.parkedAt, hs, hst]
    rw [hin] at hcount
    rw [if_pos hst]; exact hcount
  · have hin : vehicle.parkedAt s = false := by simp [Vehicle.parkedAt, hst]
    rw [hin] at hcount
    rw [if_neg hst]; exact hcount

theorem parked_ended {vehicleId stationId : Int} {vehicle : Vehicle} (rentalId : Int) (t : DateTime)
    (hv : db.vehicles.find? vehicleId = some vehicle) (hs : vehicle.status = .rented) (s : Int) :
    (db.ended rentalId vehicleId stationId t).parked s =
      db.parked s + if stationId = s then 1 else 0 := by
  have hcount := Table.count_update (Vehicle.key_bringBack stationId) (Vehicle.parkedAt s) hv
  have hout : vehicle.parkedAt s = false := by simp [Vehicle.parkedAt, hs]
  rw [hout] at hcount
  rw [Database.parked, Database.ended_vehicles]
  refine hcount.trans (congrArg (db.parked s + ·) ?_)
  by_cases hst : stationId = s <;> simp [Vehicle.parkedAt, Vehicle.bringBack, hst]

theorem startedAt_started (hseq) (renterId vehicleId stationId : Int) (t : DateTime) (s : Int) :
    (db.started hseq renterId vehicleId stationId t).startedAt s =
      db.startedAt s + if stationId = s then 1 else 0 := by
  simp only [Database.startedAt, Database.started_rentals, Table.count_insert]
  by_cases hst : stationId = s <;> simp [startedRental, hst]

theorem endedAt_started (hseq) (renterId vehicleId stationId : Int) (t : DateTime) (s : Int) :
    (db.started hseq renterId vehicleId stationId t).endedAt s = db.endedAt s := by
  simp only [Database.endedAt, Database.started_rentals, Table.count_insert]
  simp [startedRental]

theorem startedAt_ended {rentalId : Int} {rental : Rental} (vehicleId stationId : Int) (t : DateTime)
    (hr : db.rentals.find? rentalId = some rental) (s : Int) :
    (db.ended rentalId vehicleId stationId t).startedAt s = db.startedAt s := by
  have hcount := Table.count_update (Rental.key_complete stationId t)
    (fun r => decide (r.startStationId = s)) hr
  exact Nat.add_right_cancel hcount

theorem endedAt_ended {rentalId : Int} {rental : Rental} (vehicleId stationId : Int) (t : DateTime)
    (hr : db.rentals.find? rentalId = some rental) (ha : rental.status = .active) (s : Int) :
    (db.ended rentalId vehicleId stationId t).endedAt s =
      db.endedAt s + if stationId = s then 1 else 0 := by
  have hcount := Table.count_update (Rental.key_complete stationId t)
    (fun r => decide (r.status = .completed ∧ r.endStationId = some s)) hr
  have hopen : decide (rental.status = .completed ∧ rental.endStationId = some s) = false := by simp [ha]
  rw [hopen] at hcount
  refine hcount.trans (congrArg (db.endedAt s + ·) ?_)
  by_cases hst : stationId = s <;> simp [Rental.complete, hst]

theorem createdAt_concat (h : History) (row : Vehicle) (s : Int) :
    (History.mk db (h.created ++ [row])).createdAt s =
      h.createdAt s + if row.stationId = s then 1 else 0 := by
  simp only [History.createdAt, List.countP_append]
  by_cases hst : row.stationId = s <;> simp [hst]

end Counts

/-! ## The invariant -/

structure LedgerInv (h : History) : Prop where
  custody : CustodyInv h.db h.created
  balanced : ∀ s, h.db.parked s + h.db.startedAt s = h.createdAt s + h.db.endedAt s

theorem LedgerInv.served {h h' : History} {r : FleetRequest} (hinv : LedgerInv h)
    (hserved : Served h r h') : LedgerInv h' := by
  refine ⟨hinv.custody.served hserved, fun s => ?_⟩
  have hbal := hinv.balanced s
  cases hserved with
  | rejected => exact hbal
  | createStation hseq => exact hbal
  | @createVehicle licensePlate model stationId _ hseq hst hcheck =>
      have hparked := parked_createVehicle (newVehicle licensePlate model stationId) rfl hseq s
      rw [hparked, createdAt_concat]
      have hsame : ∀ t, (h.db.withVehicles t).startedAt s = h.db.startedAt s ∧
          (h.db.withVehicles t).endedAt s = h.db.endedAt s := fun _ => ⟨rfl, rfl⟩
      rw [(hsame _).1, (hsame _).2]
      simp only [newVehicle]
      omega
  | createRenter hseq => exact hbal
  | @startRental renterId _ _ t hseq hv hs =>
      simp only [History.createdAt] at hbal ⊢
      rw [startedAt_started, endedAt_started]
      have hparked := parked_started hseq renterId t hv hs s
      omega
  | endRental hr ha hst hfree hv =>
      have hrented := hinv.custody.rented_of_active (Table.mem_of_find? hr) ha hv
      simp only [History.createdAt] at hbal ⊢
      rw [startedAt_ended _ _ _ hr, endedAt_ended _ _ _ hr ha, parked_ended _ _ hv hrented]
      omega

theorem ledgerInv_of_visits {requests : List (FleetRequest × (Nat → Choice Draw Error))} {h : History}
    (hv : Runs.Visits serve .empty requests h) : LedgerInv h := by
  refine Runs.invariant_of_step (fun h a hinv => hinv.served (serve_served h a)) ⟨?_, fun _ => rfl⟩ h hv
  exact custodyInv_of_visits (Runs.Visits.first _ [])

/-- Over every sequence of requests from the empty database, the vehicles parked at a station are the
balance of its ledger, and `has_free_slot` compares that balance with the capacity. -/
theorem occupancy_reconciles (requests : List (FleetRequest × (Nat → Choice Draw Error))) (h : History)
    (hvisits : Runs.Visits serve .empty requests h) :
    (∀ stationId, (h.db.parked stationId : Int) = h.balance stationId) ∧
    ∀ station ∈ h.db.stations.rows, ∀ draws,
      ((hasFreeSlot station.id).eval dialect (Tx.calmly draws) ⟨h.db, [], 0⟩).1 =
        .ok (decide (h.balance station.id < station.capacity)) := by
  have hbal : ∀ stationId, (h.db.parked stationId : Int) = h.balance stationId := by
    intro stationId
    have heq := (ledgerInv_of_visits hvisits).balanced stationId
    simp only [History.balance]
    omega
  refine ⟨hbal, fun station hst draws => ?_⟩
  have hfound : h.db.stations.find? station.id = some station := Table.find?_key hst
  rw [eval_hasFreeSlot hfound, hbal]

theorem fleetDay_occupancy_reconciles :
    (∀ stationId, ((Runs.run serve .empty fleetDay).db.parked stationId : Int) =
      (Runs.run serve .empty fleetDay).balance stationId) ∧
    ∀ station ∈ (Runs.run serve .empty fleetDay).db.stations.rows, ∀ draws,
      ((hasFreeSlot station.id).eval dialect (Tx.calmly draws)
        ⟨(Runs.run serve .empty fleetDay).db, [], 0⟩).1 =
          .ok (decide ((Runs.run serve .empty fleetDay).balance station.id < station.capacity)) :=
  occupancy_reconciles fleetDay _ (Runs.Visits.last _ _)

end FleetManagement
