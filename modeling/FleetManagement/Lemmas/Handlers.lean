import FleetManagement.Library.Locking
import FleetManagement.Api.Fleet

/-!
# What the fleet handlers guarantee

The rows that a handler decides on are rows that were committed when it read them; by the time it
commits, the store has moved on along `R`.
-/

namespace FleetManagement

variable {α : Type} {I : Database → Prop} {R : Database → Database → Prop}
  {Φ : Database → List Stmt → Prop} {s : Database}

theorem meets_integerParameter {id : Int} {f : Unit → Db α} {ws : List Stmt}
    (h : isInteger id = true → Tx.Meets dialect I R Φ (f ()) s ws) :
    Tx.Meets dialect I R Φ (integerParameter id >>= f) s ws := by
  unfold integerParameter
  split
  · rename_i hid; exact h hid
  · exact Tx.meets_raise _

theorem meets_get {ρ : Type} [Keyed ρ] {table : Database → Table ρ} {id : Int} {f : Option ρ → Db α}
    (h : ∀ t, I t → R s t → Tx.Meets dialect I R Φ (f ((table t).find? id)) t []) :
    Tx.Meets dialect I R Φ (get table id >>= f) s [] := by
  unfold get
  rw [Tx.bind_assoc]
  refine meets_integerParameter fun _ => ?_
  rw [Tx.bind_assoc]
  refine Tx.meets_select fun t ht hst u hu => ?_
  cases hu
  exact h t ht hst

theorem meets_now {f : DateTime → Db α} {ws : List Stmt}
    (h : ∀ d, Tx.Meets dialect I R Φ (f d) s ws) : Tx.Meets dialect I R Φ (now >>= f) s ws := by
  unfold now
  rw [Tx.bind_assoc]
  exact Tx.meets_sample fun d => h d.now

theorem meets_refresh {ρ : Type} [Keyed ρ] {table : Database → Table ρ} {id : Int} :
    Tx.Meets dialect I R Φ (refresh table id) s [] := by
  unfold refresh
  refine Tx.meets_select fun t ht hst u hu => ?_
  split
  · exact Tx.meets_ret _
  · exact Tx.meets_raise _

theorem startRental_meets {renterId vehicleId : Int}
    (h : ∀ t u vehicle d, I t → R s t → t.vehicles.find? vehicleId = some vehicle →
      vehicle.status = .available → R t u → Φ u (startFlush renterId vehicleId vehicle d)) :
    Tx.Meets dialect I R Φ (startRental renterId vehicleId) s [] := by
  unfold startRental
  refine meets_get fun t ht hst => ?_
  cases hv : t.vehicles.find? vehicleId with
  | none => exact Tx.meets_raise _
  | some vehicle =>
      simp only
      split
      · exact Tx.meets_raise _
      · rename_i havail
        refine meets_now fun d => ?_
        refine Tx.meets_commitAll (fun u _ htu => ?_) fun u => meets_refresh
        exact h t u vehicle d ht hst hv (not_not.mp havail) htu

theorem meets_getStation {stationId : Int} {f : Station → Db α}
    (h : ∀ t station, I t → R s t → t.stations.find? stationId = some station →
      Tx.Meets dialect I R Φ (f station) t []) :
    Tx.Meets dialect I R Φ (getStation stationId >>= f) s [] := by
  unfold getStation
  rw [Tx.bind_assoc]
  refine meets_get fun t ht hst => ?_
  cases hs : t.stations.find? stationId with
  | none => exact Tx.meets_raise _
  | some station => exact h t station ht hst hs

theorem meets_hasFreeSlot {stationId : Int} {f : Bool → Db α}
    (h : ∀ t u station, I t → R s t → t.stations.find? stationId = some station → I u → R t u →
      Tx.Meets dialect I R Φ (f (decide ((u.parked stationId : Int) < station.capacity))) u []) :
    Tx.Meets dialect I R Φ (hasFreeSlot stationId >>= f) s [] := by
  unfold hasFreeSlot countParkedVehicles
  simp only [Tx.bind_assoc]
  refine meets_getStation fun t station ht hst hs => ?_
  refine Tx.meets_select fun u hu htu u' hu' => ?_
  cases hu'
  exact h t u station ht hst hs hu htu

/-- `end_rental` reads the rental at `t`, the station at `t₁`, its occupancy at `t₂` and the vehicle at
`u`, and commits to `w`. -/
theorem endRental_meets {rentalId stationId : Int}
    (h : ∀ t t₁ t₂ u w rental station vehicle d,
      I t → R s t → t.rentals.find? rentalId = some rental → rental.status = .active →
      I t₁ → R t t₁ → t₁.stations.find? stationId = some station →
      I t₂ → R t₁ t₂ → (t₂.parked stationId : Int) < station.capacity →
      I u → R t₂ u → u.vehicles.find? rental.vehicleId = some vehicle →
      R u w → Φ w (endFlush rental vehicle stationId d)) :
    Tx.Meets dialect I R Φ (endRental rentalId stationId) s [] := by
  unfold endRental
  refine meets_get fun t ht hst => ?_
  cases hr : t.rentals.find? rentalId with
  | none => exact Tx.meets_raise _
  | some rental =>
      simp only
      split
      · exact Tx.meets_raise _
      · rename_i hactive
        refine meets_hasFreeSlot fun t₁ t₂ station ht₁ h₁ hstation ht₂ h₂ => ?_
        split
        · rename_i hfree
          refine meets_get fun u hu h₃ => ?_
          cases hv : u.vehicles.find? rental.vehicleId with
          | none => exact Tx.meets_raise _
          | some vehicle =>
              refine meets_now fun d => ?_
              refine Tx.meets_commitAll (fun w _ huw => ?_) fun w => meets_refresh
              exact h t t₁ t₂ u w rental station vehicle d ht hst hr (not_not.mp hactive) ht₁ h₁ hstation
                ht₂ h₂ (of_decide_eq_true hfree) hu h₃ hv huw
        · exact Tx.meets_raise _

/-! ## What the handlers have seen -/

section Watched
variable {R : (RowKey → Prop) → Database → Database → Prop}
  {Φ : List Database → Database → List Stmt → (Except Error Database → Db α) → Prop} {held : RowKey → Prop}
  {seen : List Database} {ws : List Stmt}

theorem obeys_now {f : DateTime → Db α} (h : ∀ d, Tx.Obeys dialect I R Φ (f d) s ws held seen) :
    Tx.Obeys dialect I R Φ (now >>= f) s ws held seen := by
  unfold now
  rw [Tx.bind_assoc]
  exact Tx.obeys_sample fun d => h d.now

theorem obeys_integerParameter {id : Int} {f : Unit → Db α}
    (h : isInteger id = true → Tx.Obeys dialect I R Φ (f ()) s ws held seen) :
    Tx.Obeys dialect I R Φ (integerParameter id >>= f) s ws held seen := by
  unfold integerParameter
  split
  · rename_i hid; exact h hid
  · exact Tx.obeys_raise _

theorem obeys_get {ρ : Type} [Keyed ρ] {table : Database → Table ρ} {id : Int} {f : Option ρ → Db α}
    (h : ∀ t, I t → R held s t → Tx.Obeys dialect I R Φ (f ((table t).find? id)) t [] held (seen ++ [t])) :
    Tx.Obeys dialect I R Φ (get table id >>= f) s [] held seen := by
  unfold get
  rw [Tx.bind_assoc]
  refine obeys_integerParameter fun _ => ?_
  rw [Tx.bind_assoc]
  refine Tx.obeys_select fun t ht hst u hu => ?_
  cases hu
  exact h t ht hst

theorem obeys_refresh {ρ : Type} [Keyed ρ] {table : Database → Table ρ} {id : Int}
    {Ψ : List Database → Database → List Stmt → (Except Error Database → Db ρ) → Prop} :
    Tx.Obeys dialect I R Ψ (refresh table id) s ws held seen := by
  unfold refresh
  refine Tx.obeys_select fun t _ _ u hu => ?_
  split
  · exact Tx.obeys_ret _
  · exact Tx.obeys_raise _

theorem obeys_hasFreeSlot {stationId : Int} {f : Bool → Db α}
    (h : ∀ t u station, t.stations.find? stationId = some station →
      Tx.Obeys dialect I R Φ (f (decide ((u.parked stationId : Int) < station.capacity))) u [] held
        (seen ++ [t, u])) :
    Tx.Obeys dialect I R Φ (hasFreeSlot stationId >>= f) s [] held seen := by
  unfold hasFreeSlot getStation countParkedVehicles
  simp only [Tx.bind_assoc]
  refine obeys_get fun t _ _ => ?_
  cases hs : t.stations.find? stationId with
  | none => exact Tx.obeys_raise _
  | some station =>
      refine Tx.obeys_select fun u _ _ u' hu' => ?_
      cases hu'
      rw [List.append_assoc]
      exact h t u station hs

end Watched

section Rentals
variable {R : (RowKey → Prop) → Database → Database → Prop}
  {Φ : List Database → Database → List Stmt → (Except Error Database → Db Rental) → Prop}
  {held : RowKey → Prop}

theorem startRental_obeys {renterId vehicleId : Int}
    (h : ∀ t w vehicle d k, t.vehicles.find? vehicleId = some vehicle → vehicle.status = .available →
      Φ [t] w (startFlush renterId vehicleId vehicle d) k) :
    Tx.Obeys dialect I R Φ (startRental renterId vehicleId) s [] held [] := by
  unfold startRental
  refine obeys_get fun t _ _ => ?_
  cases hv : t.vehicles.find? vehicleId with
  | none => exact Tx.obeys_raise _
  | some vehicle =>
      simp only
      split
      · exact Tx.obeys_raise _
      · rename_i havail
        refine obeys_now fun d => Tx.obeys_commitAll (fun w _ _ => ?_) fun w => obeys_refresh
        exact h t w vehicle d _ hv (not_not.mp havail)

/-- `end_rental` has seen the rental in `t`, the station in `t₁`, its occupancy in `g` and the vehicle in
`u` when it commits. -/
theorem endRental_obeys {rentalId stationId : Int}
    (h : ∀ t t₁ g u w rental station vehicle d k, t.rentals.find? rentalId = some rental →
      t₁.stations.find? stationId = some station → (g.parked stationId : Int) < station.capacity →
      u.vehicles.find? rental.vehicleId = some vehicle →
      Φ [t, t₁, g, u] w (endFlush rental vehicle stationId d) k) :
    Tx.Obeys dialect I R Φ (endRental rentalId stationId) s [] held [] := by
  unfold endRental
  refine obeys_get fun t _ _ => ?_
  cases hr : t.rentals.find? rentalId with
  | none => exact Tx.obeys_raise _
  | some rental =>
      simp only
      split
      · exact Tx.obeys_raise _
      · refine obeys_hasFreeSlot fun t₁ g station hstation => ?_
        split
        · rename_i hfree
          refine obeys_get fun u _ _ => ?_
          cases hv : u.vehicles.find? rental.vehicleId with
          | none => exact Tx.obeys_raise _
          | some vehicle =>
              refine obeys_now fun d => Tx.obeys_commitAll (fun w _ _ => ?_) fun w => obeys_refresh
              exact h t t₁ g u w rental station vehicle d _ hr hstation (of_decide_eq_true hfree) hv
        · exact Tx.obeys_raise _

end Rentals

/-! ## Creating rows -/

theorem createStation_meets {address : String} {capacity : Int}
    (h : ∀ t, I t → R s t → Φ t [.insertStation { id := 0, address, capacity }]) :
    Tx.Meets dialect I R Φ (createStation address capacity) s [] :=
  Tx.meets_commitAll h fun _ => meets_refresh

theorem createVehicle_meets {licensePlate model : String} {stationId : Int}
    (h : ∀ t u station, I t → R s t → t.stations.find? stationId = some station → I u → R t u →
      Φ u [.insertVehicle (newVehicle licensePlate model stationId)]) :
    Tx.Meets dialect I R Φ (createVehicle licensePlate model stationId) s [] := by
  unfold createVehicle
  refine meets_getStation fun t station ht hst hs => ?_
  exact Tx.meets_commitAll (fun u hu htu => h t u station ht hst hs hu htu) fun _ => meets_refresh

theorem createRenter_meets {fullName licenseNumber : String}
    (h : ∀ t, I t → R s t →
      Φ t [.insertRenter { id := 0, fullName, licenseNumber, userId := none }]) :
    Tx.Meets dialect I R Φ (createRenter fullName licenseNumber) s [] :=
  Tx.meets_commitAll h fun _ => meets_refresh

/-- What follows a commit leaves the database as committed. -/
theorem eval_refresh_store {ρ β : Type} [Keyed ρ] {table : Database → Table ρ} {id : Int} {f : ρ → β}
    {env : Nat → Choice Draw Error} {n : Nat} :
    ((refresh table id >>= fun row => .ret (f row)).eval dialect env ⟨s, [], n⟩).2.store = s := by
  rcases Tx.eval_once (Φ := fun _ _ => False) env n (meets_refresh.map f) with heq | ⟨_, hfalse, -⟩
  · exact heq
  · exact hfalse.elim

/-! ## Reads of rows that exist, when no step fails -/

section Calm
variable {draws : Nat → Draw} {n : Nat}

theorem isInteger_of_find? {ρ : Type} [Keyed ρ] {t : Table ρ} {id : Int} {row : ρ}
    (hmax : Keyed.maxKey ρ ≤ maxInteger) (h : t.find? id = some row) : isInteger id = true := by
  obtain ⟨hpos, hle⟩ := Table.key_le_maxKey h
  have hmax' : (Keyed.maxKey ρ : Int) ≤ 2147483647 := Int.ofNat_le.mpr hmax
  simp only [isInteger, decide_eq_true_eq]
  omega

theorem eval_get {ρ : Type} [Keyed ρ] {table : Database → Table ρ} {id : Int} {row : ρ}
    {f : Option ρ → Db α} (hmax : Keyed.maxKey ρ ≤ maxInteger)
    (h : (table s).find? id = some row) :
    (get table id >>= f).eval dialect (Tx.calmly draws) ⟨s, [], n⟩ =
      (f (some row)).eval dialect (Tx.calmly draws) ⟨s, [], n + 1⟩ := by
  unfold get integerParameter
  rw [if_pos (isInteger_of_find? hmax h), Tx.bind_assoc, Tx.pure_eq, Tx.ret_bind, Tx.bind_assoc,
    Tx.eval_select rfl, Tx.pure_eq, Tx.ret_bind, h]

/-- A query by primary key fails, before it is sent, or answers. -/
theorem eval_get_cases (s : Database) (draws : Nat → Draw) (n : Nat) {ρ : Type} [Keyed ρ]
    (table : Database → Table ρ) (id : Int) :
    (get table id).eval dialect (Tx.calmly draws) ⟨s, [], n⟩ = (.error .dataError, ⟨s, [], n⟩) ∨
    (get table id).eval dialect (Tx.calmly draws) ⟨s, [], n⟩ =
      (.ok ((table s).find? id), ⟨s, [], n + 1⟩) := by
  unfold get integerParameter
  split
  · exact Or.inr rfl
  · exact Or.inl rfl

theorem eval_refresh {ρ : Type} [Keyed ρ] {table : Database → Table ρ} {id : Int} {row : ρ}
    (h : (table s).find? id = some row) :
    (refresh table id).eval dialect (Tx.calmly draws) ⟨s, [], n⟩ = (.ok row, ⟨s, [], n + 1⟩) := by
  unfold refresh
  rw [Tx.eval_select rfl, h]
  rfl

theorem eval_getStation {stationId : Int} {station : Station} {f : Station → Db α}
    (h : s.stations.find? stationId = some station) :
    (getStation stationId >>= f).eval dialect (Tx.calmly draws) ⟨s, [], n⟩ =
      (f station).eval dialect (Tx.calmly draws) ⟨s, [], n + 1⟩ := by
  unfold getStation
  rw [Tx.bind_assoc, eval_get (Nat.le_refl _) h]
  rfl

theorem eval_hasFreeSlot {stationId : Int} {station : Station}
    (h : s.stations.find? stationId = some station) :
    (hasFreeSlot stationId).eval dialect (Tx.calmly draws) ⟨s, [], n⟩ =
      (.ok (decide ((s.parked stationId : Int) < station.capacity)), ⟨s, [], n + 2⟩) := by
  unfold hasFreeSlot
  rw [eval_getStation h]
  rfl

end Calm

end FleetManagement
