import FleetManagement.Rentals.History
import FleetManagement.Rentals.Occupancy

/-!
# The capacity of stations, request after request

`end_rental` checks for a free slot and `create_vehicle` does not, so the capacity holds exactly as
long as new vehicles happen to find a free slot.
-/

namespace FleetManagement

abbrev SoundRequest : Type :=
  { r : FleetRequest // ∀ address capacity, r = .createStation address capacity → 0 ≤ capacity }

def serveCalmly (h : History) (a : SoundRequest × (Nat → Draw)) : History :=
  serve h (a.1.val, Tx.calmly a.2)

/-- A vehicle that the request is about to create finds a free slot at its station. -/
def CreatesIntoFreeSlot (h : History) (a : SoundRequest × (Nat → Draw)) : Prop :=
  ∀ licensePlate model stationId, a.1.val = .createVehicle licensePlate model stationId →
    (newVehicle licensePlate model stationId).check h.db = .ok () →
    h.db.vehicles.seq < Keyed.maxKey Vehicle →
    ∀ s ∈ h.db.stations.rows, s.id = stationId → (h.db.parked stationId : Int) < s.capacity

structure CapacityInv (db : Database) : Prop where
  within : db.WithinCapacity
  placed : ∀ v ∈ db.vehicles.rows, ∃ s, db.stations.find? v.stationId = some s

theorem CapacityInv.parked_eq_zero {db : Database} (h : CapacityInv db) {stationId : Int}
    (hs : db.stations.find? stationId = none) : db.parked stationId = 0 := by
  refine Table.count_eq_zero.mpr fun v hv hat => ?_
  simp only [Vehicle.parkedAt, decide_eq_true_eq] at hat
  obtain ⟨s, hfound⟩ := h.placed v hv
  rw [hat.1, hs] at hfound; cases hfound

theorem CapacityInv.createStation {db : Database} {address : String} {capacity : Int}
    (h : CapacityInv db) (hcap : 0 ≤ capacity) (hseq) : CapacityInv (db.withStations
      (db.stations.insert hseq (fun id => ⟨id, address, capacity⟩) fun _ => rfl)) where
  within := by
    intro s hs
    rcases List.mem_append.mp hs with hs | hs
    · exact h.within s hs
    · rw [List.mem_singleton.mp hs]
      have hzero : db.parked (db.stations.seq + 1) = 0 :=
        h.parked_eq_zero (Table.find?_fresh (by omega))
      have hsame : (db.withStations (db.stations.insert hseq (fun id => ⟨id, address, capacity⟩)
        fun _ => rfl)).parked (db.stations.seq + 1) = db.parked (db.stations.seq + 1) := rfl
      rw [hsame, hzero]
      exact hcap
  placed := by
    intro v hv
    obtain ⟨s, hs⟩ := h.placed v hv
    exact ⟨s, Table.find?_insert_of_some hs⟩

/-- The invariant survives a request that finds a free slot for the vehicle that it creates. -/
theorem CapacityInv.served {h h' : History} {r : FleetRequest} (hinv : CapacityInv h.db)
    (hserved : Served h r h') (hsound : ∀ address capacity, r = .createStation address capacity →
      0 ≤ capacity)
    (hfree : ∀ licensePlate model stationId, r = .createVehicle licensePlate model stationId →
      (newVehicle licensePlate model stationId).check h.db = .ok () →
      h.db.vehicles.seq < Keyed.maxKey Vehicle →
      ∀ s ∈ h.db.stations.rows, s.id = stationId → (h.db.parked stationId : Int) < s.capacity) :
    CapacityInv h'.db := by
  cases hserved with
  | rejected => exact hinv
  | createStation hseq => exact hinv.createStation (hsound _ _ rfl) hseq
  | @createVehicle _ _ stationId _ hseq hst hcheck =>
      refine ⟨fun s hs => ?_, fun v hv => ?_⟩
      · rw [parked_createVehicle _ rfl]
        split
        · rename_i hid
          have hid : s.id = stationId := hid.symm
          have hlt := hfree _ _ _ rfl hcheck hseq s hs hid
          rw [hid]
          push_cast; omega
        · exact hinv.within s hs
      · rcases List.mem_append.mp hv with hv | hv
        · exact hinv.placed v hv
        · rw [List.mem_singleton.mp hv]; exact ⟨_, hst⟩
  | createRenter hseq => exact ⟨hinv.within, hinv.placed⟩
  | @startRental _ vehicleId vehicle _ hseq hv hs =>
      constructor
      · refine (withinCapacity_update Vehicle.key_takeOut hv ?_ ?_
          hinv.within).mpr fun hne => absurd rfl hne
        · rfl
        · rfl
      · exact Table.forall_mem_update Vehicle.key_takeOut
          (fun w hw _ => hinv.placed w hw) fun u hu => hinv.placed u (Table.mem_of_find? hu)
  | @endRental _ stationId rental vehicle station _ hr ha hst hroom hv =>
      constructor
      · refine (withinCapacity_update (Vehicle.key_bringBack stationId) hv ?_ ?_
          hinv.within).mpr fun _ s hs hsid => ?_
        · rfl
        · rfl
        · have hstation : s.id = stationId := hsid
          obtain rfl : s = station := Table.eq_of_key hs (Table.mem_of_find? hst)
            (hsid.trans (Table.key_of_find? hst).symm)
          have hvid : vehicle.id = rental.vehicleId := Table.key_of_find? hv
          have hle : h.db.parkedOthers vehicle.id s.id ≤ h.db.parked s.id := by
            rw [Database.parked, Table.count_eq_others _ hv, hvid]
            exact Nat.le_add_right _ _
          rw [← hstation] at hroom
          exact Int.lt_of_le_of_lt (Int.ofNat_le.mpr hle) hroom
      · exact Table.forall_mem_update (Vehicle.key_bringBack stationId)
          (fun w hw _ => hinv.placed w hw) fun u hu => ⟨station, hst⟩

/-! ## A vehicle without a slot -/

/-- A `create_vehicle` request that passes every check of the database stores its vehicle. -/
theorem serveCalmly_createVehicle {h : History} {a : SoundRequest × (Nat → Draw)}
    {licensePlate model : String} {stationId : Int}
    (ha : a.1.val = .createVehicle licensePlate model stationId)
    (hcheck : (newVehicle licensePlate model stationId).check h.db = .ok ())
    (hseq : h.db.vehicles.seq < Keyed.maxKey Vehicle) :
    (serveCalmly h a).db = h.db.withVehicles (h.db.vehicles.insert hseq
      (fun id => { newVehicle licensePlate model stationId with id }) fun _ => rfl) := by
  obtain ⟨station, hst⟩ : ∃ s, h.db.stations.find? stationId = some s := by
    obtain ⟨_, -, hrest⟩ := bind_eq_ok.mp hcheck
    obtain ⟨_, -, hrest⟩ := bind_eq_ok.mp hrest
    obtain ⟨_, -, hrest⟩ := bind_eq_ok.mp hrest
    exact references_ok.mp hrest
  have happ : dialect.applyAll ([] ++ [.insertVehicle (newVehicle licensePlate model stationId)]) h.db =
      .ok (h.db.withVehicles (h.db.vehicles.insert hseq
        (fun id => { newVehicle licensePlate model stationId with id }) fun _ => rfl)) :=
    dialect.applyAll_singleton_ok.mpr (insertVehicle_ok.mpr ⟨hcheck, hseq, rfl⟩)
  simp only [serveCalmly, serve, ha, FleetRequest.handler, FleetManagement.createVehicle]
  rw [Tx.bind_assoc, eval_getStation hst, Tx.bind_assoc, Tx.eval_commitAll happ]
  exact eval_refresh_store

theorem CapacityInv.createsIntoFreeSlot {h : History} {a : SoundRequest × (Nat → Draw)}
    (hw : (serveCalmly h a).db.WithinCapacity) : CreatesIntoFreeSlot h a := by
  intro licensePlate model stationId ha hcheck hseq s hs hid
  rw [serveCalmly_createVehicle ha hcheck hseq] at hw
  have hle := hw s hs
  have hid' : (newVehicle licensePlate model stationId).stationId = s.id := hid.symm
  rw [parked_createVehicle _ rfl, if_pos hid', hid] at hle
  push_cast at hle
  omega

/-- Over every sequence of requests from the empty database, no station is filled beyond its capacity
exactly when every vehicle is created at a station with a free slot. -/
theorem withinCapacity_iff_createsIntoFreeSlot (requests : List (SoundRequest × (Nat → Draw))) :
    (∀ h, Runs.Visits serveCalmly .empty requests h → h.db.WithinCapacity) ↔
    ∀ h a, Runs.Takes serveCalmly .empty requests h a → CreatesIntoFreeSlot h a := by
  have hempty : CapacityInv History.empty.db :=
    ⟨fun s hs => absurd hs List.not_mem_nil, fun v hv => absurd hv List.not_mem_nil⟩
  refine Runs.invariant_iff_guarded (J := fun h : History => CapacityInv h.db) (fun h hinv => hinv.within)
    (fun h a hinv hok => ?_) (fun h a _ hw => CapacityInv.createsIntoFreeSlot hw) hempty
  exact hinv.served (serve_served h (a.1.val, Tx.calmly a.2)) a.1.property hok

def quietDraws : Nat → Draw := fun _ => ⟨1, zeroUuid, "", ""⟩

def createdWithoutSlot : List (SoundRequest × (Nat → Draw)) :=
  [(⟨.createStation "Station street 1" 0, by rintro _ _ ⟨⟩; decide⟩, quietDraws),
   (⟨.createVehicle "AA1234BB" "Skoda Fabia" 1, by rintro _ _ ⟨⟩⟩, quietDraws)]

theorem created_without_slot_overfills :
    ¬ ∀ h, Runs.Visits serveCalmly .empty createdWithoutSlot h → h.db.WithinCapacity := by
  intro h
  have hlast := h _ (Runs.Visits.last _ _)
  unfold Database.WithinCapacity at hlast
  exact absurd hlast (by decide)

end FleetManagement
