import FleetManagement.Lemmas.Outcomes

/-!
# How the fleet routes end among other requests
-/

namespace FleetManagement

variable {V : Database → Prop} {B : Error → Prop} {s : Database} {E : Error → Database → Prop}

/-! ## Stations -/

theorem among_getStation (hE : Tolerates B E) {stationId : Int} {Q : Station → Database → List Stmt → Prop}
    (hnone : (∃ t, V t ∧ t.stations.find? stationId = none) →
      ∀ t, E (.notFound s!"Station {stationId} not found") t)
    (h : ∀ t station, V t → s.Keeps t → t.stations.find? stationId = some station → Q station t []) :
    Among V B E Q (getStation stationId) s [] := by
  unfold getStation
  refine Tx.rely_bind (among_get hE fun t _ hV hst => ?_)
  cases hrow : t.stations.find? stationId with
  | none => exact hnone ⟨t, hV, hrow⟩ t
  | some station => exact h t station hV hst hrow

/-- The station has no free slot, by its capacity and its vehicles in two states of the run. -/
def StationFull (V : Database → Prop) (stationId : Int) : Prop :=
  ∃ t t' station, V t ∧ V t' ∧ t.stations.find? stationId = some station ∧
    station.capacity ≤ (t'.parked stationId : Int)

theorem among_hasFreeSlot (hE : Tolerates B E) {stationId : Int} {Q : Bool → Database → List Stmt → Prop}
    (hnone : (∃ t, V t ∧ t.stations.find? stationId = none) →
      ∀ t, E (.notFound s!"Station {stationId} not found") t)
    (hfree : ∀ t, s.Keeps t → (∃ station, t.stations.find? stationId = some station) → Q true t [])
    (hfull : ∀ t, StationFull V stationId → Q false t []) :
    Among V B E Q (hasFreeSlot stationId) s [] := by
  unfold hasFreeSlot countParkedVehicles
  refine Tx.rely_bind (among_getStation hE hnone fun t station hV hst hstation => ?_)
  refine Tx.rely_bind (Tx.rely_bind (among_select hE fun t' _ hV' htt' => ?_))
  by_cases hslot : (t'.parked stationId : Int) < station.capacity
  · obtain ⟨station', hstation', -⟩ := htt'.stations stationId station hstation
    have hQ := hfree t' (Keeps.trans _ _ _ hst htt') ⟨station', hstation'⟩
    rwa [← decide_eq_true hslot] at hQ
  · have hQ := hfull t' ⟨t, t', station, hV, hV', hstation, by omega⟩
    rwa [← decide_eq_false hslot] at hQ

theorem retained {ρ : Type} [Keyed ρ] {rel : ρ → ρ → Prop} {t u : Table ρ} (h : t.Retains rel u) {i : Int}
    (hi : ∃ r, t.find? i = some r) (hnone : u.find? i = none) : False := by
  obtain ⟨r, hr⟩ := hi
  obtain ⟨q, hq, -⟩ := h i r hr
  rw [hnone] at hq
  cases hq

theorem among_createStation (hE : Tolerates B E) {address : String} {capacity : Int}
    {Q : Station → Database → List Stmt → Prop} (h : ∀ row u, Q row u []) :
    Among V B E Q (createStation address capacity) s [] := by
  unfold createStation
  refine Tx.rely_bind (among_commit hE (by simp [Stmt.keepsEnds]) (fun t u _ _ hu _ => ?_) fun t _ _ _ =>
    fails_applyAll_singleton (fails_insertStation (hE.data t)))
  obtain ⟨-, hseq, rfl⟩ := insertStation_ok.mp (dialect.applyAll_singleton_ok.mp hu)
  refine among_refresh hE (fun v row _ _ _ => h row v) fun v huv hnone => (retained huv.stations ?_ hnone).elim
  exact ⟨_, Table.find?_eq_some.mpr ⟨List.mem_append.mpr (Or.inr (List.mem_singleton_self _)), rfl⟩⟩

theorem among_createVehicle (hE : Tolerates B E) {licensePlate model : String} {stationId : Int}
    {Q : Vehicle → Database → List Stmt → Prop}
    (hnone : (∃ t, V t ∧ t.stations.find? stationId = none) →
      ∀ t, E (.notFound s!"Station {stationId} not found") t)
    (htaken : (∃ t, V t ∧ ∃ v ∈ t.vehicles.rows, v.licensePlate = licensePlate) → ∀ t, E .integrityError t)
    (h : ∀ row u, Q row u []) : Among V B E Q (createVehicle licensePlate model stationId) s [] := by
  unfold createVehicle
  refine Tx.rely_bind (among_getStation hE hnone fun t station _ hst hstation => ?_)
  refine Tx.rely_bind (among_commit hE (by simp [Stmt.keepsEnds]) (fun t' u _ _ hu _ => ?_)
    fun t' _ hV' htt' => fails_applyAll_singleton (fails_insertVehicle (hE.data t') (fun hplate => ?_)
      fun hgone => (retained htt'.stations ⟨station, hstation⟩ hgone).elim))
  · obtain ⟨-, hseq, rfl⟩ := insertVehicle_ok.mp (dialect.applyAll_singleton_ok.mp hu)
    refine among_refresh hE (fun v row _ _ _ => h row v) fun v huv hnone => (retained huv.vehicles ?_ hnone).elim
    exact ⟨_, Table.find?_eq_some.mpr ⟨List.mem_append.mpr (Or.inr (List.mem_singleton_self _)), rfl⟩⟩
  · exact htaken ⟨t', hV', hplate⟩ t'

theorem among_createRenter (hE : Tolerates B E) {fullName licenseNumber : String}
    {Q : Renter → Database → List Stmt → Prop}
    (htaken : (∃ t, V t ∧ ∃ r ∈ t.renters.rows, r.licenseNumber = licenseNumber) → ∀ t, E .integrityError t)
    (h : ∀ row u, Q row u []) : Among V B E Q (createRenter fullName licenseNumber) s [] := by
  unfold createRenter
  refine Tx.rely_bind (among_commit hE (by simp [Stmt.keepsEnds]) (fun t' u _ _ hu _ => ?_)
    fun t' _ hV' _ => fails_applyAll_singleton (fails_insertRenter (hE.data t')
      (fun hlicense => htaken ⟨t', hV', hlicense⟩ t') ?_ ?_))
  · obtain ⟨-, hseq, rfl⟩ := insertRenter_ok.mp (dialect.applyAll_singleton_ok.mp hu)
    refine among_refresh hE (fun v row _ _ _ => h row v) fun v huv hnone => (retained huv.renters ?_ hnone).elim
    exact ⟨_, Table.find?_eq_some.mpr ⟨List.mem_append.mpr (Or.inr (List.mem_singleton_self _)), rfl⟩⟩
  · rintro ⟨r, -, hne, heq⟩
    exact absurd heq hne
  · rintro ⟨u, hu, -⟩
    cases hu

/-! ## Rentals -/

theorem among_startRental (hE : Tolerates B E) {renterId vehicleId : Int}
    {Q : Rental → Database → List Stmt → Prop}
    (hnone : (∃ t, V t ∧ t.vehicles.find? vehicleId = none) →
      ∀ t, E (.notFound s!"Vehicle {vehicleId} not found") t)
    (hbusy : (∃ t vehicle, V t ∧ t.vehicles.find? vehicleId = some vehicle ∧ vehicle.status ≠ .available) →
      ∀ t, E (.vehicleNotAvailable s!"Vehicle {vehicleId} is not available") t)
    (hrenter : (∃ t, V t ∧ t.renters.find? renterId = none) → ∀ t, E .integrityError t)
    (h : ∀ row u, Q row u []) : Among V B E Q (startRental renterId vehicleId) s [] := by
  unfold startRental
  refine Tx.rely_bind (among_get hE fun t ht hV hst => ?_)
  cases hrow : t.vehicles.find? vehicleId with
  | none => exact hnone ⟨t, hV, hrow⟩ t
  | some vehicle =>
      simp only
      split
      · rename_i hstatus
        exact hbusy ⟨t, vehicle, hV, hrow, hstatus⟩ t
      · have hid : vehicle.id = vehicleId := Table.key_of_find? hrow
        have hstation := ht.vehicleStation vehicle (Table.mem_of_find? hrow) vehicle.stationId rfl
        refine Tx.rely_bind (among_now fun now => Tx.rely_bind (among_commit hE
          (by simp [startFlush, Stmt.keepsEnds]) (fun t' u _ _ hu _ => ?_) fun t' _ hV' htt' => ?_))
        · obtain ⟨u', hu', hu⟩ := dialect.applyAll_pair_ok.mp hu
          obtain ⟨-, hseq, rfl⟩ := insertRental_ok.mp hu'
          have hkeeps := keeps_of_apply rfl hu
          obtain ⟨-, -, rfl⟩ := updateVehicle_ok.mp hu
          refine among_refresh hE (fun v row _ _ _ => h row v) fun v huv hgone =>
            (retained (Keeps.trans _ _ _ hkeeps huv).rentals ?_ hgone).elim
          exact ⟨_, Table.find?_eq_some.mpr ⟨List.mem_append.mpr (Or.inr (List.mem_singleton_self _)), rfl⟩⟩
        · refine fails_applyAll_cons (fails_insertRental (hE.data t') ?_ ?_ ?_ ?_) fun db' happ => ?_
          · exact fun hgone => hrenter ⟨t', hV', hgone⟩ t'
          · exact fun hgone => (retained htt'.vehicles ⟨vehicle, hrow⟩ hgone).elim
          · exact fun hgone => (retained htt'.stations hstation hgone).elim
          · exact fun i hi => by cases hi
          · have hkeeps := Keeps.trans _ _ _ htt' (keeps_of_apply rfl happ)
            refine fails_applyAll_singleton (fails_updateVehicle (fun i hi => ?_) fun hgone => ?_)
            · simp [Vehicle.changes] at hi
            · exact (retained hkeeps.vehicles ⟨vehicle, hid.symm ▸ hrow⟩ hgone).elim

/-- The end that is written, where it is not the one that was loaded, which stays. -/
theorem endedAt_ne_none {rental r : Rental} {now : DateTime} (h : rental.endedAt ≠ none → r.endedAt ≠ none) :
    (dirty rental.endedAt (some now)).getD r.endedAt ≠ none := by
  unfold dirty
  split
  · rename_i hsame
    exact h (by simp [← hsame])
  · simp

theorem among_endRental (hE : Tolerates B E) {rentalId stationId : Int}
    {Q : Rental → Database → List Stmt → Prop}
    (hnone : (∃ t, V t ∧ t.rentals.find? rentalId = none) →
      ∀ t, E (.notFound s!"Rental {rentalId} not found") t)
    (hover : (∃ t rental, V t ∧ t.rentals.find? rentalId = some rental ∧ rental.status ≠ .active) →
      ∀ t, E (.vehicleNotAvailable s!"Rental {rentalId} is not active") t)
    (hstation : (∃ t, V t ∧ t.stations.find? stationId = none) →
      ∀ t, E (.notFound s!"Station {stationId} not found") t)
    (hfull : StationFull V stationId → ∀ t, E (.stationFull s!"Station {stationId} has no free slots") t)
    (h : ∀ row u, row.endedAt ≠ none → Q row u []) : Among V B E Q (endRental rentalId stationId) s [] := by
  unfold endRental
  refine Tx.rely_bind (among_get hE fun t ht hV hst => ?_)
  cases hrow : t.rentals.find? rentalId with
  | none => exact hnone ⟨t, hV, hrow⟩ t
  | some rental =>
      obtain rfl : rental.id = rentalId := Table.key_of_find? hrow
      have hvehicle := ht.rentalVehicle rental (Table.mem_of_find? hrow) rental.vehicleId rfl
      simp only
      split
      · rename_i hactive
        exact hover ⟨t, rental, hV, hrow, hactive⟩ t
      refine Tx.rely_bind (among_hasFreeSlot hE hstation (fun t₁ htt₁ hexists => ?_) fun t₁ hno => hfull hno t₁)
      refine Tx.rely_bind (among_get hE fun t₂ _ _ htt₂ => ?_)
      have htt₂' := Keeps.trans _ _ _ htt₁ htt₂
      cases hv : t₂.vehicles.find? rental.vehicleId with
      | none => exact (retained htt₂'.vehicles hvehicle hv).elim
      | some vehicle =>
          have hid : vehicle.id = rental.vehicleId := Table.key_of_find? hv
          refine Tx.rely_bind (among_now fun now => Tx.rely_bind (among_commit hE ?_
            (fun t₃ u _ htt₃ hu _ => ?_) fun t₃ _ _ htt₃ => ?_))
          · simp [endFlush, Stmt.keepsEnds, Rental.changes, dirty]
          · -- The rental has ended in `u`, and so it has when it is read again.
            obtain ⟨r, hr, -, hends⟩ := (Keeps.trans _ _ _ htt₂' htt₃).rentals rental.id rental hrow
            obtain ⟨u', hu', hu⟩ := dialect.applyAll_pair_ok.mp hu
            have hkeeps := keeps_of_apply rfl hu
            obtain ⟨-, -, rfl⟩ := updateRental_ok.mp hu'
            let set := rental.changes
              { rental with endedAt := some now, endStationId := some stationId, status := .completed }
            have hself : (t₃.rentals.update rental.id set.on set.key_on).find? rental.id = some (set.on r) :=
              Table.find?_update_self hr
            have hlater : ∀ v, u.Keeps v → ∃ row, v.rentals.find? rental.id = some row ∧ row.endedAt ≠ none := by
              intro v huv
              obtain ⟨row, hfind, -, hrow⟩ := (Keeps.trans _ _ _ hkeeps huv).rentals rental.id _ hself
              exact ⟨row, hfind, hrow (endedAt_ne_none hends)⟩
            refine among_refresh hE (fun v row _ huv hfind => ?_) fun v huv hgone => ?_
            · obtain ⟨row', hfind', hrow'⟩ := hlater v huv
              rw [hfind] at hfind'
              cases hfind'
              exact h row v hrow'
            · obtain ⟨row', hfind', -⟩ := hlater v huv
              rw [hgone] at hfind'
              cases hfind'
          · have hat := Keeps.trans _ _ _ htt₂ htt₃
            refine fails_applyAll_cons (fails_updateRental (fun i hi hgone => ?_) fun hgone => ?_)
              fun db' happ => ?_
            · obtain rfl : stationId = i := Option.some.inj (eq_of_dirty hi)
              exact (retained hat.stations hexists hgone).elim
            · exact (retained (Keeps.trans _ _ _ htt₂' htt₃).rentals ⟨rental, hrow⟩ hgone).elim
            · obtain ⟨-, -, rfl⟩ := updateRental_ok.mp happ
              refine fails_applyAll_singleton (fails_updateVehicle (fun i hi hgone => ?_) fun hgone => ?_)
              · obtain rfl : stationId = i := eq_of_dirty hi
                exact (retained hat.stations hexists hgone).elim
              · exact (retained htt₃.vehicles ⟨vehicle, hid.symm ▸ hv⟩ hgone).elim

end FleetManagement
