import FleetManagement.Lemmas.Handlers
import FleetManagement.Rentals.Flush

/-!
# Fleet requests one after another

What a request that is served alone does to the database: nothing, or the one transaction of its route.
-/

namespace FleetManagement

/-- `Served h r h'`: serving the request `r` alone takes `h` to `h'`. -/
inductive Served (h : History) : FleetRequest → History → Prop where
  | rejected (r : FleetRequest) : Served h r h
  | createStation {address : String} {capacity : Int} (hseq) :
      Served h (.createStation address capacity)
        ⟨h.db.withStations (h.db.stations.insert hseq (fun id => ⟨id, address, capacity⟩) fun _ => rfl),
          h.created⟩
  | createVehicle {licensePlate model : String} {stationId : Int} {station : Station} (hseq)
      (hst : h.db.stations.find? stationId = some station)
      (hcheck : (newVehicle licensePlate model stationId).check h.db = .ok ()) :
      Served h (.createVehicle licensePlate model stationId)
        ⟨h.db.withVehicles (h.db.vehicles.insert hseq
            (fun id => { newVehicle licensePlate model stationId with id }) fun _ => rfl),
          h.created ++ [{ newVehicle licensePlate model stationId with id := h.db.vehicles.seq + 1 }]⟩
  | createRenter {fullName licenseNumber : String} (hseq) :
      Served h (.createRenter fullName licenseNumber)
        ⟨h.db.withRenters (h.db.renters.insert hseq (fun id => ⟨id, fullName, licenseNumber, none⟩)
            fun _ => rfl), h.created⟩
  | startRental {renterId vehicleId : Int} {vehicle : Vehicle} {t : DateTime} (hseq)
      (hv : h.db.vehicles.find? vehicleId = some vehicle) (hs : vehicle.status = .available) :
      Served h (.rental (.startRental renterId vehicleId))
        ⟨h.db.started hseq renterId vehicleId vehicle.stationId t, h.created⟩
  | endRental {rentalId stationId : Int} {rental : Rental} {vehicle : Vehicle} {station : Station}
      {t : DateTime} (hr : h.db.rentals.find? rentalId = some rental) (ha : rental.status = .active)
      (hst : h.db.stations.find? stationId = some station)
      (hfree : (h.db.parked stationId : Int) < station.capacity)
      (hv : h.db.vehicles.find? rental.vehicleId = some vehicle) :
      Served h (.rental (.endRental rentalId stationId))
        ⟨h.db.ended rentalId rental.vehicleId stationId t, h.created⟩

/-- What a request commits to the database `s` when it runs alone. -/
def FleetCommit (s : Database) : FleetRequest → List Stmt → Prop
  | .createStation address capacity, ws => ws = [.insertStation { id := 0, address, capacity }]
  | .createVehicle licensePlate model stationId, ws =>
      ws = [.insertVehicle (newVehicle licensePlate model stationId)] ∧
        ∃ station, s.stations.find? stationId = some station
  | .createRenter fullName licenseNumber, ws =>
      ws = [.insertRenter { id := 0, fullName, licenseNumber, userId := none }]
  | .rental (.startRental renterId vehicleId), ws =>
      ∃ vehicle t, ws = startFlush renterId vehicleId vehicle t ∧
        s.vehicles.find? vehicleId = some vehicle ∧ vehicle.status = .available
  | .rental (.endRental rentalId stationId), ws =>
      ∃ rental vehicle station t, ws = endFlush rental vehicle stationId t ∧
        s.rentals.find? rentalId = some rental ∧ rental.status = .active ∧
        s.stations.find? stationId = some station ∧ (s.parked stationId : Int) < station.capacity ∧
        s.vehicles.find? rental.vehicleId = some vehicle

theorem handler_fleetCommit (r : FleetRequest) (s : Database) :
    Tx.Meets dialect (fun _ => True) Eq (fun s' ws => s' = s ∧ FleetCommit s r ws) r.handler s [] := by
  cases r with
  | createStation address capacity =>
      exact (createStation_meets fun t _ hst => ⟨hst.symm, rfl⟩).map _
  | createVehicle licensePlate model stationId =>
      refine (createVehicle_meets fun t u station _ hst hs _ htu => ?_).map _
      subst hst; subst htu
      exact ⟨rfl, rfl, station, hs⟩
  | createRenter fullName licenseNumber =>
      exact (createRenter_meets fun t _ hst => ⟨hst.symm, rfl⟩).map _
  | rental request =>
      cases request with
      | startRental renterId vehicleId =>
          refine (startRental_meets fun t u vehicle d _ hst hv hs htu => ?_).map _
          subst hst; subst htu
          exact ⟨rfl, vehicle, d, rfl, hv, hs⟩
      | endRental rentalId stationId =>
          refine (endRental_meets fun t t₁ t₂ u w rental station vehicle d _ hst hr ha _ h₁ hs _ h₂ hf _
            h₃ hv h₄ => ?_).map _
          subst hst; subst h₁; subst h₂; subst h₃; subst h₄
          exact ⟨rfl, rental, vehicle, station, d, rfl, hr, ha, hs, hf, hv⟩

/-! ## The vehicles that a request creates -/

theorem fresh_of_same_keys {t u : Table Vehicle} (hu : u.seq = t.seq) :
    (u.rows.filter fun v => (t.seq : Int) < v.id) = [] := by
  refine List.filter_eq_nil_iff.mpr fun v hv => ?_
  have hle : v.id ≤ u.seq := (u.issued v hv).2
  simp only [decide_eq_true_eq]
  omega

theorem fresh_insert {t : Table Vehicle} (h mk hk) :
    ((t.insert h mk hk).rows.filter fun v => (t.seq : Int) < v.id) = [mk (t.seq + 1)] := by
  have hid : (mk (t.seq + 1)).id = t.seq + 1 := hk _
  rw [Table.filter_insert, fresh_of_same_keys rfl, hid, if_pos (by simp only [decide_eq_true_eq]; omega)]
  rfl

/-! ## What a request commits -/

theorem served_of_commit {h : History} {r : FleetRequest} {db' : Database}
    (hc : Tx.Commit dialect (fun s => FleetCommit s r) h.db db') :
    Served h r ⟨db', h.created ++ db'.vehicles.rows.filter fun v => (h.db.vehicles.seq : Int) < v.id⟩ := by
  obtain ⟨ws, hws, happ⟩ := hc
  cases r with
  | createStation address capacity =>
      cases hws
      obtain ⟨-, hseq, rfl⟩ := insertStation_ok.mp (dialect.applyAll_singleton_ok.mp happ)
      simp only [Database.withStations_vehicles, fresh_of_same_keys, List.append_nil]
      exact .createStation hseq
  | createVehicle licensePlate model stationId =>
      obtain ⟨rfl, station, hst⟩ := hws
      obtain ⟨hcheck, hseq, rfl⟩ := insertVehicle_ok.mp (dialect.applyAll_singleton_ok.mp happ)
      simp only [Database.withVehicles_vehicles, fresh_insert]
      exact .createVehicle hseq hst hcheck
  | createRenter fullName licenseNumber =>
      cases hws
      obtain ⟨-, hseq, rfl⟩ := insertRenter_ok.mp (dialect.applyAll_singleton_ok.mp happ)
      simp only [Database.withRenters_vehicles, fresh_of_same_keys, List.append_nil]
      exact .createRenter hseq
  | rental request =>
      cases request with
      | startRental renterId vehicleId =>
          obtain ⟨vehicle, t, rfl, hv, hs⟩ := hws
          obtain ⟨-, -, hseq, rfl⟩ := startFlush_ok (Table.key_of_find? hv) hs happ
          simp only [Database.started_vehicles, fresh_of_same_keys (Table.seq_update _ _ _ _),
            List.append_nil]
          exact .startRental hseq hv hs
      | endRental rentalId stationId =>
          obtain ⟨rental, vehicle, station, t, rfl, hr, ha, hst, hfree, hv⟩ := hws
          obtain rfl : rental.id = rentalId := Table.key_of_find? hr
          have hvid : vehicle.id = rental.vehicleId := Table.key_of_find? hv
          obtain rfl := endFlush_ok_of_current hr (hvid ▸ hv) happ
          simp only [hvid, Database.ended_vehicles, fresh_of_same_keys (Table.seq_update _ _ _ _),
            List.append_nil]
          exact .endRental hr ha hst hfree hv

/-- Serving a request alone leaves the history as it is or extends it by what the request does. -/
theorem serve_served (h : History) (a : FleetRequest × (Nat → Choice Draw Error)) :
    Served h a.1 (serve h a) := by
  rcases Tx.eval_once a.2 0 (handler_fleetCommit a.1 h.db) with heq | hc
  · have hsame : serve h a = h := by
      simp only [serve, heq]
      rw [fresh_of_same_keys rfl, List.append_nil]
    rw [hsame]
    exact .rejected a.1
  · obtain ⟨ws, hws, happ⟩ := hc
    exact served_of_commit ⟨ws, hws, happ⟩

/-! ## What served requests do to the occupancy -/

theorem parked_createVehicle {db : Database} (row : Vehicle) (hs : row.status = .available) (hseq)
    (s : Int) : (db.withVehicles (db.vehicles.insert hseq (fun id => { row with id }) fun _ => rfl)).parked
      s = db.parked s + if row.stationId = s then 1 else 0 := by
  simp only [Database.parked, Database.withVehicles_vehicles, Table.count_insert]
  by_cases hrow : row.stationId = s <;> simp [Vehicle.parkedAt, hs, hrow]

end FleetManagement
