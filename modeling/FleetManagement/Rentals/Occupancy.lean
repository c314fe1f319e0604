import FleetManagement.Rentals.Returns
import Mathlib.Data.Finset.Card

/-!
# Concurrent returns and the capacity of stations

`has_free_slot` counts the vehicles that are parked when it runs. A commit leaves the vehicle at the
station of its return, however many vehicles have been parked there since, so a station stays within its
capacity exactly as long as no return commits after others have taken the slots that it counted.
-/

namespace FleetManagement

/-- No station holds more parked vehicles than its capacity. -/
def Database.WithinCapacity (db : Database) : Prop :=
  ∀ s ∈ db.stations.rows, (db.parked s.id : Int) ≤ s.capacity

def Database.parkedOthers (db : Database) (vehicleId stationId : Int) : Nat :=
  db.vehicles.countOthers vehicleId (Vehicle.parkedAt stationId)

/-- The vehicle row `v` fits into its station beside the other vehicles. -/
def Database.Fits (db : Database) (v : Vehicle) : Prop :=
  v.status ≠ .rented → ∀ s ∈ db.stations.rows, s.id = v.stationId →
    (db.parkedOthers v.id s.id : Int) < s.capacity

/-- Writing a vehicle row keeps the stations within their capacity exactly when the row fits. -/
theorem withinCapacity_update {db db' : Database} {id : Int} {v : Vehicle} {f} (hf)
    (hv : db.vehicles.find? id = some v) (hst : db'.stations = db.stations)
    (hvs : db'.vehicles = db.vehicles.update id f hf) (h : db.WithinCapacity) :
    db'.WithinCapacity ↔ db.Fits (f v) := by
  obtain rfl : v.id = id := Table.key_of_find? hv
  have hid : (f v).id = v.id := hf v
  have hparked : ∀ s, db'.parked s = db.parkedOthers v.id s + ((f v).parkedAt s).toNat := fun s => by
    rw [Database.parked, hvs, Table.count_eq_others _ (Table.find?_update_self hv),
      Table.countOthers_update]
    rfl
  constructor
  · intro hw hne s hs hsid
    have hle := hw s (hst ▸ hs)
    have hat : (f v).parkedAt s.id = true := by simp [Vehicle.parkedAt, hne, hsid]
    rw [hparked, hat] at hle
    rw [hid]
    exact Int.lt_of_add_one_le (by simpa using hle)
  · intro hfits s hs
    rw [hst] at hs
    rw [hparked]
    cases hat : (f v).parkedAt s.id with
    | false =>
        have hle := h s hs
        rw [Database.parked, Table.count_eq_others _ hv] at hle
        simp only [Database.parkedOthers, Bool.toNat_false]
        omega
    | true =>
        simp only [Vehicle.parkedAt, decide_eq_true_eq] at hat
        have hlt := hfits hat.2 s hs hat.1.symm
        rw [hid] at hlt
        simp only [Bool.toNat_true]
        omega

/-! ## Slots that were free when they were counted -/

section Slots
variable {g s u db db' : Database} {vehicleId stationId : Int}

/-- The other vehicles that are parked at the station. -/
def Database.othersAt (db : Database) (vehicleId stationId : Int) : Finset Int :=
  ((db.vehicles.rows.filter fun v => v.id ≠ vehicleId ∧ v.parkedAt stationId).map Vehicle.id).toFinset

theorem card_othersAt : (db.othersAt vehicleId stationId).card = db.parkedOthers vehicleId stationId := by
  have hnodup : ((db.vehicles.rows.filter fun v => v.id ≠ vehicleId ∧ v.parkedAt stationId).map
      Vehicle.id).Nodup := db.vehicles.nodup_keys.sublist (List.filter_sublist.map _)
  rw [Database.othersAt, List.toFinset_card_of_nodup hnodup, List.length_map, ← List.countP_eq_length_filter]
  rfl

theorem parkedOthers_le : db.parkedOthers vehicleId stationId ≤ db.parked stationId :=
  List.countP_mono_left fun _ _ hv => (of_decide_eq_true hv).2

/-- The other vehicles that have come to the station between `g` and `s`. -/
def arrivals (g s : Database) (vehicleId stationId : Int) : Finset Int :=
  s.othersAt vehicleId stationId \ g.othersAt vehicleId stationId

def departures (g s : Database) (vehicleId stationId : Int) : Finset Int :=
  g.othersAt vehicleId stationId \ s.othersAt vehicleId stationId

/-- Where vehicles have come to the station since `g`, they are fewer than the slots that were free and
those that were given up since. -/
def SlotStaysFree (g s : Database) (vehicleId stationId : Int) : Prop :=
  arrivals g s vehicleId stationId ≠ ∅ → ∀ station ∈ s.stations.rows, station.id = stationId →
    ((arrivals g s vehicleId stationId).card : Int) <
      station.capacity - (g.othersAt vehicleId stationId).card + (departures g s vehicleId stationId).card

def HasSlot (db : Database) (vehicleId stationId : Int) : Prop :=
  ∀ station ∈ db.stations.rows, station.id = stationId →
    (db.parkedOthers vehicleId stationId : Int) < station.capacity

/-- A slot that was counted as free is free as long as no other vehicles have taken it. -/
theorem slotStaysFree_iff (hcount : ∀ station ∈ s.stations.rows, station.id = stationId →
    (g.parked stationId : Int) < station.capacity) :
    SlotStaysFree g s vehicleId stationId ↔ HasSlot s vehicleId stationId := by
  have hboth : (arrivals g s vehicleId stationId).card + (g.othersAt vehicleId stationId).card =
      (departures g s vehicleId stationId).card + (s.othersAt vehicleId stationId).card := by
    rw [arrivals, departures, Finset.card_sdiff_add_card, Finset.card_sdiff_add_card, Finset.union_comm]
  unfold SlotStaysFree HasSlot
  rw [← card_othersAt]
  constructor
  · intro h station hstation hid
    by_cases hnone : arrivals g s vehicleId stationId = ∅
    · have hle : (g.othersAt vehicleId stationId).card ≤ g.parked stationId :=
        card_othersAt.trans_le parkedOthers_le
      have hlt := hcount station hstation hid
      rw [hnone, Finset.card_empty] at hboth
      omega
    · have hlt := h hnone station hstation hid
      omega
  · intro h _ station hstation hid
    have hlt := h station hstation hid
    omega

/-- A return that has counted the station in `g` and loaded the vehicle in `u` leaves it, in `s`, where
there is a slot for it: at the station of the return, or where it was loaded RENTED at that station and has
been moved since, at the station that it was moved to. Where it was loaded AVAILABLE and is RENTED, it stays
RENTED. -/
def ReturnsToSlot (g u s : Database) (vehicleId stationId : Int) : Prop :=
  ∀ loaded cur, u.vehicles.find? vehicleId = some loaded → s.vehicles.find? vehicleId = some cur →
    (loaded.status = .available → cur.status ≠ .rented) →
      if loaded.stationId = stationId ∧ cur.stationId ≠ stationId then
        cur.status = .rented → HasSlot s vehicleId cur.stationId
      else SlotStaysFree g s vehicleId stationId

theorem hasSlot_of_parked {v : Vehicle} (h : s.WithinCapacity) (hv : s.vehicles.find? vehicleId = some v)
    (hs : v.status ≠ .rented) : HasSlot s vehicleId v.stationId := by
  intro station hstation hid
  have hle := h station hstation
  have hat : v.parkedAt v.stationId = true := by simp [Vehicle.parkedAt, hs]
  rw [hid, Database.parked, Table.count_eq_others _ hv, hat] at hle
  simp only [Database.parkedOthers, Bool.toNat_true] at hle ⊢
  omega

/-- The row that a return writes fits exactly if the return leaves the vehicle where there is a slot. -/
theorem fits_iff_returnsToSlot {loaded cur : Vehicle} (h : s.WithinCapacity)
    (hcount : ∀ station ∈ s.stations.rows, station.id = stationId →
      (g.parked stationId : Int) < station.capacity)
    (hu : u.vehicles.find? vehicleId = some loaded) (hv : s.vehicles.find? vehicleId = some cur) :
    s.Fits ((returnedVehicle loaded stationId).on cur) ↔ ReturnsToSlot g u s vehicleId stationId := by
  have hid : ((returnedVehicle loaded stationId).on cur).id = vehicleId := Table.key_of_find? hv
  have hstatus : ((returnedVehicle loaded stationId).on cur).status ≠ .rented ↔
      (loaded.status = .available → cur.status ≠ .rented) := by
    by_cases hs : loaded.status = .available
    · simp [returnedVehicle, Vehicle.changes, VehicleSet.on, dirty, hs]
    · simp [returnedVehicle, Vehicle.changes, VehicleSet.on, dirty, hs, Ne.symm hs]
  have hfits : s.Fits ((returnedVehicle loaded stationId).on cur) ↔
      ((loaded.status = .available → cur.status ≠ .rented) →
        HasSlot s vehicleId ((returnedVehicle loaded stationId).on cur).stationId) := by
    unfold Database.Fits HasSlot
    rw [hstatus, hid]
    refine imp_congr Iff.rfl (forall₂_congr fun station _ => forall_congr' fun hsid => ?_)
    rw [hsid]
  have hreturns : ReturnsToSlot g u s vehicleId stationId ↔
      ((loaded.status = .available → cur.status ≠ .rented) →
        if loaded.stationId = stationId ∧ cur.stationId ≠ stationId then
          cur.status = .rented → HasSlot s vehicleId cur.stationId
        else SlotStaysFree g s vehicleId stationId) := by
    refine ⟨fun h => h loaded cur hu hv, fun h loaded' cur' hu' hv' => ?_⟩
    obtain rfl := Option.some.inj (hu.symm.trans hu')
    obtain rfl := Option.some.inj (hv.symm.trans hv')
    exact h
  rw [hfits, hreturns]
  refine imp_congr_right fun _ => ?_
  split
  · rename_i hmoved
    obtain ⟨hloaded, hcur⟩ := hmoved
    have hstation : ((returnedVehicle loaded stationId).on cur).stationId = cur.stationId := by
      simp [returnedVehicle, Vehicle.changes, VehicleSet.on, dirty, hloaded]
    rw [hstation]
    refine ⟨fun hslot _ => hslot, fun hslot => ?_⟩
    by_cases hrented : cur.status = .rented
    · exact hslot hrented
    · exact hasSlot_of_parked h hv hrented
  · rename_i hmoved
    have hstation : ((returnedVehicle loaded stationId).on cur).stationId = stationId := by
      by_cases hloaded : loaded.stationId = stationId
      · have hcur : cur.stationId = stationId := by
          by_contra hne
          exact hmoved ⟨hloaded, hne⟩
        simp [returnedVehicle, Vehicle.changes, VehicleSet.on, dirty, hloaded, hcur]
      · simp [returnedVehicle, Vehicle.changes, VehicleSet.on, dirty, Ne.symm hloaded]
    rw [hstation, slotStaysFree_iff hcount]

end Slots

/-! ## What the requests commit -/

/-- A booking of a vehicle that was loaded AVAILABLE, or a return after a free slot was counted. -/
def RentalRequest.CommitsAfter (r : RentalRequest) (seen : List Database) (ws : List Stmt) : Prop :=
  match r with
  | .startRental renterId vehicleId => ∃ v t, ws = startFlush renterId vehicleId v t ∧
      v.id = vehicleId ∧ v.status = .available
  | .endRental rentalId stationId => ∃ t t₁ g u rental station v d, seen = [t, t₁, g, u] ∧
      ws = endFlush rental v stationId d ∧ t.rentals.find? rentalId = some rental ∧
      t₁.stations.find? stationId = some station ∧ (g.parked stationId : Int) < station.capacity ∧
      u.vehicles.find? rental.vehicleId = some v

theorem handler_commitsAfter {I : Database → Prop} {R : (RowKey → Prop) → Database → Database → Prop}
    {held : RowKey → Prop} {db : Database} (r : RentalRequest) :
    Tx.Obeys dialect I R (fun seen _ ws _ => r.CommitsAfter seen ws) r.handler db [] held [] := by
  cases r with
  | startRental renterId vehicleId =>
      exact startRental_obeys fun t w v d k hv hs => ⟨v, d, rfl, Table.key_of_find? hv, hs⟩
  | endRental rentalId stationId =>
      exact endRental_obeys fun t t₁ g u w rental station v d k hr hst hfree hv =>
        ⟨t, t₁, g, u, rental, station, v, d, rfl, rfl, hr, hst, hfree, hv⟩

section World
variable {ι : Type} {requests : ι → RentalRequest}

abbrev RentalWorld (ι : Type) := Watched ι Database Stmt RowKey Draw Error Rental

def rentalWorld (db : Database) (requests : ι → RentalRequest) : RentalWorld ι :=
  Watched.init db fun i => (requests i).handler

def SameStations (_ : RowKey → Prop) (s t : Database) : Prop := t.stations = s.stations

theorem SameStations.trans (held : RowKey → Prop) (s t u : Database) (h : SameStations held s t)
    (h' : SameStations held t u) : SameStations held s u := Eq.trans h' h

variable [DecidableEq ι]

structure OccupancyInv (requests : ι → RentalRequest) (w : RentalWorld ι) : Prop where
  within : w.pool.store.WithinCapacity
  commits : ∀ i, Watched.Safe dialect (fun _ => True) (fun _ _ _ => True)
    (fun i seen _ ws _ => (requests i).CommitsAfter seen ws) w i
  past : Watched.Recalls (fun _ => True) SameStations w

/-- A return that commits in this step leaves its vehicle where there is a slot, as the count that it made
and the commits since then have it. -/
def CommitsToSlot (requests : ι → RentalRequest) (w : RentalWorld ι) (a : ι × Choice Draw Error) : Prop :=
  ∀ rentalId stationId, requests a.1 = .endRental rentalId stationId →
    w.pool.publishes dialect a ≠ none → ∀ t t₁ g u rental, w.seen a.1 = [t, t₁, g, u] →
      t.rentals.find? rentalId = some rental →
        ReturnsToSlot g u w.pool.store rental.vehicleId stationId

variable {w : RentalWorld ι} {a : ι × Choice Draw Error}

/-- What a commit does to the stations, and when they stay within their capacity. -/
theorem OccupancyInv.publishes (hw : OccupancyInv requests w) {ws : List Stmt}
    (hpub : w.pool.publishes dialect a = some ws) :
    (w.step dialect a).pool.store.stations = w.pool.store.stations ∧
      ((w.step dialect a).pool.store.WithinCapacity ↔ CommitsToSlot requests w a) := by
  obtain ⟨_, hcommits, -⟩ := (hw.commits a.1).publishes (fun _ _ => trivial) trivial hpub
  obtain ⟨s, hs, hst, -⟩ := Pool.step_of_publishes hpub
  have hstore : (w.step dialect a).pool.store = s := hst
  rw [hstore]
  unfold CommitsToSlot
  cases hreq : requests a.1 with
  | startRental renterId vehicleId =>
      rw [hreq] at hcommits
      obtain ⟨v, d, rfl, hid, hav⟩ := hcommits
      obtain ⟨⟨cur, hcur⟩, -, hseq, rfl⟩ := startFlush_ok hid hav hs
      have hwithin : (w.pool.store.started hseq renterId vehicleId v.stationId d).WithinCapacity := by
        refine (withinCapacity_update Vehicle.key_takeOut hcur ?_ ?_ hw.within).mpr fun hne => absurd rfl hne
        · rfl
        · rfl
      exact ⟨rfl, fun _ _ _ hend => (by cases hend), fun _ => hwithin⟩
  | endRental rentalId stationId =>
      rw [hreq] at hcommits
      obtain ⟨t, t₁, g, u, rental, station, v, d, hseen, rfl, hr, hstation, hfree, hv⟩ := hcommits
      obtain ⟨-, ⟨cur, hcur⟩, rfl⟩ := endFlush_ok hs
      have hvid : v.id = rental.vehicleId := Table.key_of_find? hv
      rw [hvid] at hcur
      -- The capacity of the station is the one that the request has read.
      have hsame : w.pool.store.stations = t₁.stations :=
        (hw.past a.1 t₁ (by rw [hseen]; simp)).2
      have hcount : ∀ st ∈ w.pool.store.stations.rows, st.id = stationId →
          (g.parked stationId : Int) < st.capacity := by
        intro st hst hid
        rw [hsame] at hst
        obtain rfl : st = station := Table.eq_of_key hst (Table.mem_of_find? hstation)
          (hid.trans (Table.key_of_find? hstation).symm)
        exact hfree
      have hwithin : ((w.pool.store.withRentals (w.pool.store.rentals.update rental.id
          (endedRental rental stationId d).on (RentalSet.key_on _))).withVehicles
          (w.pool.store.vehicles.update v.id (returnedVehicle v stationId).on
            (VehicleSet.key_on _))).WithinCapacity ↔
          ReturnsToSlot g u w.pool.store rental.vehicleId stationId := by
        refine (withinCapacity_update (VehicleSet.key_on _) (hvid ▸ hcur) ?_ ?_ hw.within).trans
          (fits_iff_returnsToSlot hw.within hcount hv hcur)
        · rfl
        · rfl
      refine ⟨rfl, hwithin.trans ⟨fun h rentalId' stationId' hend _ t' t₁' g' u' rental' hseen' hr' => ?_,
        fun h => h rentalId stationId rfl (by simp [hpub]) t t₁ g u rental hseen hr⟩⟩
      cases hend
      rw [hseen] at hseen'
      cases hseen'
      obtain rfl := Option.some.inj (hr.symm.trans hr')
      exact h

theorem OccupancyInv.withinCapacity_step (hw : OccupancyInv requests w) :
    (w.step dialect a).pool.store.WithinCapacity ↔ CommitsToSlot requests w a := by
  cases hpub : w.pool.publishes dialect a with
  | none =>
      have hst : (w.step dialect a).pool.store = w.pool.store := (Pool.step_of_silent hpub).1
      rw [hst]
      exact ⟨fun _ _ _ _ hcommits => absurd hpub hcommits, fun _ => hw.within⟩
  | some ws => exact (hw.publishes hpub).2

theorem OccupancyInv.step (hw : OccupancyInv requests w) (hok : CommitsToSlot requests w a) :
    OccupancyInv requests (w.step dialect a) where
  within := hw.withinCapacity_step.mpr hok
  commits := Watched.safe_step (fun _ _ => trivial) (fun _ _ _ _ _ _ => trivial)
    (fun _ _ _ _ _ _ => trivial) trivial hw.commits fun _ _ _ _ => trivial
  past := by
    refine hw.past.step SameStations.trans trivial ?_
    cases hpub : w.pool.publishes dialect a with
    | none =>
        have hst : (w.step dialect a).pool.store = w.pool.store := (Pool.step_of_silent hpub).1
        exact congrArg Database.stations hst
    | some ws => exact (hw.publishes hpub).1

/-- Concurrent bookings and returns keep every station within its capacity exactly when no return commits
after the slots that it counted as free have been taken. -/
theorem withinCapacity_iff_commitsToSlot {db : Database} (h : db.WithinCapacity)
    (requests : ι → RentalRequest) (schedule : List (ι × Choice Draw Error)) :
    (∀ w, Runs.Visits (Watched.step dialect) (rentalWorld db requests) schedule w →
      w.pool.store.WithinCapacity) ↔
    ∀ w a, Runs.Takes (Watched.step dialect) (rentalWorld db requests) schedule w a →
      CommitsToSlot requests w a := by
  have hinit : OccupancyInv requests (rentalWorld db requests) :=
    ⟨h, fun i => Watched.safe_init (handler_commitsAfter (requests i)), Watched.recalls_init _ _⟩
  exact Runs.invariant_iff_guarded (J := OccupancyInv requests) (fun _ hw => hw.within)
    (fun _ _ hw hok => hw.step hok) (fun _ _ hw hnext => hw.withinCapacity_step.mp hnext) hinit

end World

/-! ## Two returns to the last free slot -/

/-- Vehicles 1 and 2 are on rentals 1 and 2; station 2 has a single slot, and it is free. -/
def lastSlot : Database :=
  .seeded [.insertStation ⟨0, "Station street 1", 5⟩, .insertStation ⟨0, "Station street 2", 1⟩,
    .insertVehicle ⟨0, "AA1234BB", "Skoda Fabia", .rented, 1⟩,
    .insertVehicle ⟨0, "AA1235BB", "Skoda Fabia", .rented, 1⟩,
    .insertRenter ⟨0, "Ivan Petrenko", "AB123456", none⟩,
    .insertRental (startedRental 1 1 1 1 0), .insertRental (startedRental 1 2 1 1 0)]

def returnsToStation2 (i : Nat) : RentalRequest := .endRental (i + 1) 2

/-- Both requests count the parked vehicles before either commits. -/
def overlappingReturns : List (Nat × Choice Draw Error) :=
  List.replicate 5 (0, stepAt 2) ++ List.replicate 5 (1, stepAt 3) ++ [(0, stepAt 4), (1, stepAt 5)]

theorem lastSlot_withinCapacity : lastSlot.WithinCapacity := by
  unfold Database.WithinCapacity
  decide

theorem overlapping_returns_overfill : lastSlot.WithinCapacity ∧
    ¬ ∀ w, Runs.Visits (Watched.step dialect) (rentalWorld lastSlot returnsToStation2)
      overlappingReturns w → w.pool.store.WithinCapacity := by
  refine ⟨lastSlot_withinCapacity, fun h => ?_⟩
  have hlast := h _ (Runs.Visits.last _ _)
  unfold Database.WithinCapacity at hlast
  exact absurd hlast (by decide)

theorem lastSlot_withinCapacity_iff :
    (∀ w, Runs.Visits (Watched.step dialect) (rentalWorld lastSlot returnsToStation2)
      overlappingReturns w → w.pool.store.WithinCapacity) ↔
    ∀ w a, Runs.Takes (Watched.step dialect) (rentalWorld lastSlot returnsToStation2)
      overlappingReturns w a → CommitsToSlot returnsToStation2 w a :=
  withinCapacity_iff_commitsToSlot lastSlot_withinCapacity returnsToStation2 overlappingReturns

end FleetManagement
