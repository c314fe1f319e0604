import FleetManagement.Rentals.Booking

/-!
# Concurrent returns

Any number of `end_rental` and `start_rental` requests at work on one database. A return writes back
what it decided on rows that it read without a lock, so a second return of the same rental can land
after the vehicle was rented again.
-/

namespace FleetManagement

def RentalRequest.ends (rentalId : Int) : RentalRequest → Bool
  | .startRental _ _ => false
  | .endRental id _ => id = rentalId

/-- A COMPLETED rental stays COMPLETED, with the same end. -/
def Database.KeepsReturns (db db' : Database) : Prop :=
  ∀ id r, db.rentals.find? id = some r → r.status = .completed →
    ∃ r', db'.rentals.find? id = some r' ∧ r'.status = .completed ∧
      r'.endStationId = r.endStationId ∧ r'.endedAt = r.endedAt

/-- Rentals are neither deleted nor moved to another vehicle nor reactivated. -/
def Database.KeepsRentals (db db' : Database) : Prop :=
  ∀ id r, db.rentals.find? id = some r → ∃ r', db'.rentals.find? id = some r' ∧
    r'.vehicleId = r.vehicleId ∧ (r'.status = .active → r.status = .active)

theorem KeepsRentals.refl (s : Database) : s.KeepsRentals s :=
  fun _ r hr => ⟨r, hr, rfl, id⟩

theorem KeepsRentals.trans (s t u : Database) (h : s.KeepsRentals t) (h' : t.KeepsRentals u) :
    s.KeepsRentals u := by
  intro id r hr
  obtain ⟨r', hr', hv, ha⟩ := h id r hr
  obtain ⟨r'', hr'', hv', ha'⟩ := h' id r' hr'
  exact ⟨r'', hr'', hv'.trans hv, fun h => ha (ha' h)⟩

theorem KeepsReturns.trans (s t u : Database) (h : s.KeepsReturns t) (h' : t.KeepsReturns u) :
    s.KeepsReturns u := by
  intro id r hr hc
  obtain ⟨r', hr', hc', hs, he⟩ := h id r hr hc
  obtain ⟨r'', hr'', hc'', hs', he'⟩ := h' id r' hr' hc'
  exact ⟨r'', hr'', hc'', hs'.trans hs, he'.trans he⟩

section Flush
variable {db db' : Database} {renterId vehicleId stationId : Int} {rental : Rental} {vehicle : Vehicle}
  {t : DateTime}

theorem rentals_startFlush (hv : vehicle.id = vehicleId) (hs : vehicle.status = .available)
    (h : dialect.applyAll (startFlush renterId vehicleId vehicle t) db = .ok db') {id : Int}
    {r : Rental} (hr : db.rentals.find? id = some r) : db'.rentals.find? id = some r := by
  obtain ⟨-, -, hseq, rfl⟩ := startFlush_ok hv hs h
  simp only [Database.started_rentals, Table.find?_insert_of_some hr]

theorem rentals_of_startFlush (hv : vehicle.id = vehicleId) (hs : vehicle.status = .available)
    (h : dialect.applyAll (startFlush renterId vehicleId vehicle t) db = .ok db') {id : Int}
    {r : Rental} (hr : db'.rentals.find? id = some r) (hne : r.status ≠ .active) :
    db.rentals.find? id = some r := by
  obtain ⟨-, -, hseq, rfl⟩ := startFlush_ok hv hs h
  simp only [Database.started_rentals, Table.find?_insert] at hr
  split at hr
  · cases hr; exact absurd rfl hne
  · exact hr

theorem rentals_endFlush_of_ne
    (h : dialect.applyAll (endFlush rental vehicle stationId t) db = .ok db') {id : Int}
    (hid : id ≠ rental.id) : db'.rentals.find? id = db.rentals.find? id := by
  obtain ⟨-, -, rfl⟩ := endFlush_ok h
  simp only [Database.withVehicles_rentals, Database.withRentals_rentals,
    Table.find?_update_of_ne hid]

theorem rentals_endFlush (hs : rental.status = .active)
    (h : dialect.applyAll (endFlush rental vehicle stationId t) db = .ok db') {r : Rental}
    (hr : db.rentals.find? rental.id = some r) :
    ∃ r', db'.rentals.find? rental.id = some r' ∧ r'.vehicleId = r.vehicleId ∧
      r'.status = .completed := by
  obtain ⟨-, -, rfl⟩ := endFlush_ok h
  refine ⟨(endedRental rental stationId t).on r, ?_, rfl, endedRental_status hs r⟩
  rw [Database.withVehicles_rentals, Database.withRentals_rentals, Table.find?_update_self hr]

theorem keepsRentals_startFlush (hv : vehicle.id = vehicleId) (hs : vehicle.status = .available)
    (h : dialect.applyAll (startFlush renterId vehicleId vehicle t) db = .ok db') :
    db.KeepsRentals db' := fun _ r hr => ⟨r, rentals_startFlush hv hs h hr, rfl, id⟩

theorem keepsRentals_endFlush (hs : rental.status = .active)
    (h : dialect.applyAll (endFlush rental vehicle stationId t) db = .ok db') :
    db.KeepsRentals db' := by
  intro id r hr
  by_cases hid : id = rental.id
  · subst hid
    obtain ⟨r', hr', hv, hc⟩ := rentals_endFlush hs h hr
    exact ⟨r', hr', hv, fun ha => by rw [hc] at ha; cases ha⟩
  · exact ⟨r, by rw [rentals_endFlush_of_ne h hid, hr], rfl, fun ha => ha⟩

theorem vacant_startFlush (hid : vehicle.id = vehicleId) (hs : vehicle.status = .available)
    (h : dialect.applyAll (startFlush renterId vehicleId vehicle t) db = .ok db') (hv : db.Vacant) :
    db'.Vacant := by
  intro v hav
  obtain ⟨hne, hav⟩ := (available_startFlush hid hs h v).mp hav
  rw [activeRentals_startFlush hid hs h, if_neg hne, hv v hav]

theorem vacant_endFlush {cur : Rental} (hs : rental.status = .active)
    (h : dialect.applyAll (endFlush rental vehicle stationId t) db = .ok db')
    (hcur : db.rentals.find? rental.id = some cur) (ha : cur.status = .active)
    (hid : vehicle.id = cur.vehicleId) (hone : db.activeRentals cur.vehicleId = 1) (hv : db.Vacant) :
    db'.Vacant := by
  intro v hav
  have hcount := activeRentals_endFlush hs h hcur v
  by_cases hvid : v = vehicle.id
  · have hfor : cur.activeFor v = true := by simp [Rental.activeFor, ha, hvid, hid]
    rw [hfor, hvid, hid, hone] at hcount
    rw [hvid, hid]
    exact Nat.succ.inj hcount
  · have hzero := hv v ((available_endFlush_of_ne h hvid).mp hav)
    omega

theorem keepsReturns_startFlush (hv : vehicle.id = vehicleId) (hs : vehicle.status = .available)
    (h : dialect.applyAll (startFlush renterId vehicleId vehicle t) db = .ok db') :
    db.KeepsReturns db' := fun _ r hr hc => ⟨r, rentals_startFlush hv hs h hr, hc, rfl, rfl⟩

theorem keepsReturns_endFlush {cur : Rental}
    (h : dialect.applyAll (endFlush rental vehicle stationId t) db = .ok db')
    (hcur : db.rentals.find? rental.id = some cur) (ha : cur.status = .active) :
    db.KeepsReturns db' := by
  intro id r hr hc
  have hid : id ≠ rental.id := by
    rintro rfl
    rw [hcur] at hr; cases hr
    rw [ha] at hc; cases hc
  exact ⟨r, by rw [rentals_endFlush_of_ne h hid, hr], hc, rfl, rfl⟩

end Flush

/-! ## The pool of bookings and returns -/

section Pool
variable {ι : Type} (db₀ : Database) (requests : ι → RentalRequest)

/-- What every request may rely on: AVAILABLE vehicles are vacant, and a rental that was not ACTIVE at
first is not ACTIVE. -/
def Relies (db : Database) : Prop :=
  db.Vacant ∧ ∀ id r, db₀.rentals.find? id = some r → r.status ≠ .active →
    ∃ r', db.rentals.find? id = some r' ∧ r'.status ≠ .active

/-- What request `i` commits: the return of a rental that it saw ACTIVE, or the booking of a vehicle that
it saw AVAILABLE. -/
def Commits (i : ι) (db : Database) (ws : List Stmt) : Prop :=
  match requests i with
  | .startRental renterId vehicleId => ∃ v t, ws = startFlush renterId vehicleId v t ∧
      v.id = vehicleId ∧ v.status = .available
  | .endRental rentalId stationId => ∃ rental v t cur, ws = endFlush rental v stationId t ∧
      rental.id = rentalId ∧ rental.status = .active ∧ v.id = rental.vehicleId ∧
      (∀ r, db₀.rentals.find? rentalId = some r → r.status = .active) ∧
      db.rentals.find? rentalId = some cur ∧ cur.vehicleId = rental.vehicleId ∧
      (cur.status = .active → v.status ≠ .available)

theorem Database.Vacant.status_ne {db : Database} (h : db.Vacant) {r : Rental} {v : Vehicle}
    (hr : r ∈ db.rentals.rows) (ha : r.status = .active) (hv : db.vehicles.find? r.vehicleId = some v) :
    v.status ≠ .available := by
  intro hs
  have hzero := h r.vehicleId ⟨v, hv, hs⟩
  have hpos : 0 < db.activeRentals r.vehicleId :=
    Table.count_pos.mpr ⟨r, hr, by simp [Rental.activeFor, ha]⟩
  omega

theorem handler_commits (i : ι) (db : Database) :
    Tx.Meets dialect (Relies db₀) Database.KeepsRentals (Commits db₀ requests i)
      (requests i).handler db [] := by
  cases hreq : requests i with
  | startRental renterId vehicleId =>
      refine startRental_meets fun t u v d _ _ hv hs _ => ?_
      simp only [Commits, hreq]
      exact ⟨v, d, rfl, Table.key_of_find? hv, hs⟩
  | endRental rentalId stationId =>
      refine endRental_meets fun t t₁ t₂ u w rental station v d ht _ hr ha _ h₁ _ _ h₂ _ hu h₃ hv huw => ?_
      have htu : t.KeepsRentals u := KeepsRentals.trans _ _ _ (KeepsRentals.trans _ _ _ h₁ h₂) h₃
      obtain ⟨r₁, hr₁, hv₁, ha₁⟩ := htu _ _ hr
      obtain ⟨r₂, hr₂, hv₂, ha₂⟩ := huw _ _ hr₁
      simp only [Commits, hreq]
      refine ⟨rental, v, d, r₂, rfl, Table.key_of_find? hr, ha, Table.key_of_find? hv, ?_, hr₂,
        hv₂.trans hv₁, fun hact => ?_⟩
      · intro r hr₀
        by_contra hne
        obtain ⟨r', hr', hne'⟩ := ht.2 _ _ hr₀ hne
        rw [hr] at hr'; cases hr'; exact hne' ha
      · rw [← hv₁] at hv
        exact hu.1.status_ne (Table.mem_of_find? hr₁) (ha₂ hact) hv

def rentalRequests : Pool ι Database Stmt RowKey Draw Error Rental :=
  Pool.init db₀ fun i => (requests i).handler

def completions (p : Pool ι Database Stmt RowKey Draw Error Rental) (rentalId : Int) : Nat :=
  p.log.countP fun e => (requests e.1).ends rentalId

/-- The invariant of the pool: a committed return is a return of a rental that is over, a rental that is
over has been over from the start or was returned, and no request has forgotten its checks. -/
structure ReturnInv (p : Pool ι Database Stmt RowKey Draw Error Rental) : Prop where
  relies : Relies db₀ p.store
  once : ∀ id, completions requests p id ≤ 1
  closed : ∀ id, 0 < completions requests p id → ∃ r, p.store.rentals.find? id = some r ∧
    r.status ≠ .active
  returned : ∀ id r, p.store.rentals.find? id = some r → r.status ≠ .active →
    (∃ r₀, db₀.rentals.find? id = some r₀ ∧ r₀.status ≠ .active) ∨ 0 < completions requests p id
  meets : p.AllMeet dialect (Relies db₀) Database.KeepsRentals (Commits db₀ requests)

/-- The `end_rental` request that commits in this step finds its rental ACTIVE, as the only ACTIVE rental
of its vehicle. -/
def ReturnsActive (p : Pool ι Database Stmt RowKey Draw Error Rental)
    (a : ι × Choice Draw Error) [DecidableEq ι] : Prop :=
  p.publishes dialect a ≠ none → ∀ rentalId, (requests a.1).ends rentalId →
    ∃ r, p.store.rentals.find? rentalId = some r ∧ r.status = .active ∧
      p.store.activeRentals r.vehicleId = 1

variable {db₀ requests}

theorem returnInv_init (h : db₀.Vacant) : ReturnInv db₀ requests (rentalRequests db₀ requests) where
  relies := ⟨h, fun _ r hr hne => ⟨r, hr, hne⟩⟩
  once _ := Nat.zero_le 1
  closed _ hpos := absurd hpos (Nat.lt_irrefl 0)
  returned _ r hr hne := Or.inl ⟨r, hr, hne⟩
  meets i := handler_commits db₀ requests i db₀

/-! ## One step -/

section Step
variable [DecidableEq ι] {p : Pool ι Database Stmt RowKey Draw Error Rental}
  {a : ι × Choice Draw Error}

theorem completions_step {ws : List Stmt} (h : (p.step dialect a).log = p.log ++ [(a.1, ws)]) (id : Int) :
    completions requests (p.step dialect a) id =
      completions requests p id + ((requests a.1).ends id).toNat := by
  unfold completions
  rw [h, List.countP_append]
  cases hend : (requests a.1).ends id <;> simp [hend]

theorem ReturnInv.publishes (hp : ReturnInv db₀ requests p) (h : p.publishes dialect a ≠ none) :
    ∃ ws, Commits db₀ requests a.1 p.store ws ∧
      dialect.applyAll ws p.store = .ok (p.step dialect a).store ∧
      ∀ id, completions requests (p.step dialect a) id =
        completions requests p id + ((requests a.1).ends id).toNat := by
  obtain ⟨ws, hws⟩ := Option.ne_none_iff_exists'.mp h
  obtain ⟨db', hdb, rfl, hlog⟩ := Pool.step_of_publishes hws
  exact ⟨ws, hp.meets.publishes KeepsRentals.refl hp.relies hws, hdb, completions_step hlog⟩

theorem ReturnInv.effect (hp : ReturnInv db₀ requests p) (hok : ReturnsActive requests p a) :
    p.store.KeepsRentals (p.step dialect a).store ∧ p.store.KeepsReturns (p.step dialect a).store ∧
      (p.step dialect a).store.Vacant ∧
      ∀ id, (completions requests (p.step dialect a) id = completions requests p id ∧
          ∀ r, (p.step dialect a).store.rentals.find? id = some r → r.status ≠ .active →
            p.store.rentals.find? id = some r) ∨
        (completions requests (p.step dialect a) id = completions requests p id + 1 ∧
          (∃ r, p.store.rentals.find? id = some r ∧ r.status = .active) ∧
          ∃ r, (p.step dialect a).store.rentals.find? id = some r ∧ r.status = .completed) := by
  by_cases h : p.publishes dialect a = none
  · obtain ⟨hst, hlog⟩ := Pool.step_of_silent h
    refine ⟨hst ▸ KeepsRentals.refl _, ?_, hst ▸ hp.relies.1, fun id => Or.inl ⟨?_, ?_⟩⟩
    · rw [hst]; exact fun _ r hr hc => ⟨r, hr, hc, rfl, rfl⟩
    · unfold completions; rw [hlog]
    · rw [hst]; exact fun r hr _ => hr
  · obtain ⟨ws, hcommits, hdb, hcount⟩ := hp.publishes h
    unfold Commits at hcommits
    cases hreq : requests a.1 with
    | startRental renterId vehicleId =>
        simp only [hreq, RentalRequest.ends] at hcommits hcount
        obtain ⟨v, t, rfl, hid, hs⟩ := hcommits
        refine ⟨keepsRentals_startFlush hid hs hdb, keepsReturns_startFlush hid hs hdb,
          vacant_startFlush hid hs hdb hp.relies.1, fun id => Or.inl ⟨hcount id, ?_⟩⟩
        exact fun r hr hne => rentals_of_startFlush hid hs hdb hr hne
    | endRental rentalId stationId =>
        obtain ⟨r, hr, ha, hone⟩ := hok h rentalId (by simp [hreq, RentalRequest.ends])
        simp only [hreq, RentalRequest.ends] at hcommits hcount
        obtain ⟨rental, v, t, cur, rfl, rfl, hs, hid, -, hcur, hveh, -⟩ := hcommits
        obtain rfl : r = cur := Option.some.inj (hr.symm.trans hcur)
        refine ⟨keepsRentals_endFlush hs hdb, keepsReturns_endFlush hdb hr ha,
          vacant_endFlush hs hdb hr ha (hid.trans hveh.symm) hone hp.relies.1, fun id => ?_⟩
        by_cases hne : id = rental.id
        · subst hne
          obtain ⟨r', hr', -, hc⟩ := rentals_endFlush hs hdb hr
          exact Or.inr ⟨by simp [hcount], ⟨r, hr, ha⟩, r', hr', hc⟩
        · refine Or.inl ⟨by simp [hcount, Ne.symm hne], fun r' hr' _ => ?_⟩
          rwa [rentals_endFlush_of_ne hdb hne] at hr'

theorem ReturnInv.step (hp : ReturnInv db₀ requests p) (hok : ReturnsActive requests p a) :
    ReturnInv db₀ requests (p.step dialect a) := by
  obtain ⟨hkeep, -, hvac, hid⟩ := hp.effect hok
  refine ⟨⟨hvac, fun id r₀ hr₀ hne => ?_⟩, fun id => ?_, fun id hpos => ?_, fun id r hr hne => ?_,
    hp.meets.step KeepsRentals.refl KeepsRentals.trans hp.relies hkeep⟩
  · obtain ⟨r, hr, hne⟩ := hp.relies.2 id r₀ hr₀ hne
    obtain ⟨r', hr', -, ha⟩ := hkeep id r hr
    exact ⟨r', hr', fun h => hne (ha h)⟩
  · rcases hid id with ⟨hc, -⟩ | ⟨hc, ⟨r, hr, ha⟩, -⟩
    · rw [hc]; exact hp.once id
    · -- The rental is still ACTIVE, so no return of it has been committed.
      have hzero : ¬ 0 < completions requests p id := fun hpos => by
        obtain ⟨r', hr', hne⟩ := hp.closed id hpos
        rw [hr] at hr'; cases hr'; exact hne ha
      omega
  · rcases hid id with ⟨hc, -⟩ | ⟨-, -, r, hr, hc⟩
    · obtain ⟨r, hr, hne⟩ := hp.closed id (hc ▸ hpos)
      obtain ⟨r', hr', -, ha⟩ := hkeep id r hr
      exact ⟨r', hr', fun h => hne (ha h)⟩
    · exact ⟨r, hr, fun h => by rw [hc] at h; cases h⟩
  · rcases hid id with ⟨hc, hback⟩ | ⟨hc, -⟩
    · rw [hc]; exact hp.returned id r (hback r hr hne) hne
    · exact Or.inr (by omega)

/-- A return that finds its rental over, or another ACTIVE rental of the vehicle, breaks the property. -/
theorem ReturnInv.returnsActive (hp : ReturnInv db₀ requests p)
    (hone : ∀ id, completions requests (p.step dialect a) id ≤ 1)
    (hvac : (p.step dialect a).store.Vacant) : ReturnsActive requests p a := by
  intro h rentalId hends
  obtain ⟨ws, hcommits, hdb, hcount⟩ := hp.publishes h
  have hle := hone rentalId
  rw [hcount, hends] at hle
  unfold Commits at hcommits
  cases hreq : requests a.1 with
  | startRental renterId vehicleId => simp [hreq, RentalRequest.ends] at hends
  | endRental id stationId =>
      simp only [hreq, RentalRequest.ends, decide_eq_true_eq] at hcommits hends
      subst hends
      obtain ⟨rental, v, t, cur, rfl, rfl, hs, hid, hfirst, hcur, hveh, hrented⟩ := hcommits
      by_cases ha : cur.status = .active
      · refine ⟨cur, hcur, ha, ?_⟩
        have hzero := hvac v.id (available_endFlush hdb (hrented ha))
        have hact := activeRentals_endFlush hs hdb hcur v.id
        have hfor : cur.activeFor v.id = true := by simp [Rental.activeFor, ha, hveh, hid]
        rw [hfor, hzero] at hact
        rw [hveh, ← hid, ← hact]; rfl
      · rcases hp.returned _ _ hcur ha with ⟨r, hr, hne⟩ | hpos
        · exact absurd (hfirst r hr) hne
        · simp only [Bool.toNat_true] at hle
          omega

end Step

/-! ## Whole runs -/

section Runs
variable [DecidableEq ι] {schedule : List (ι × Choice Draw Error)}

/-- What concurrent bookings and returns owe to the rentals and vehicles, over a whole run. -/
structure ReturnsOnce (db₀ : Database) (requests : ι → RentalRequest)
    (schedule : List (ι × Choice Draw Error)) : Prop where
  once : ∀ p, Runs.Visits (Pool.step dialect) (rentalRequests db₀ requests) schedule p →
    ∀ rentalId, completions requests p rentalId ≤ 1
  frozen : ∀ p q, Runs.VisitsThen (Pool.step dialect) (rentalRequests db₀ requests) schedule p q →
    p.store.KeepsReturns q.store
  vacant : ∀ p, Runs.Visits (Pool.step dialect) (rentalRequests db₀ requests) schedule p →
    p.store.Vacant

/-- Each rental is returned once and for all, and no AVAILABLE vehicle is on a rental, exactly when every
return commits while its rental is the one ACTIVE rental of its vehicle. -/
theorem returnsOnce_iff_returned_active (h : db₀.Vacant) :
    ReturnsOnce db₀ requests schedule ↔
    ∀ p a, Runs.Takes (Pool.step dialect) (rentalRequests db₀ requests) schedule p a →
      ReturnsActive requests p a := by
  have hinit : ReturnInv db₀ requests (rentalRequests db₀ requests) := returnInv_init h
  constructor
  · intro hsafe
    refine Runs.guarded_of_invariant (J := ReturnInv db₀ requests)
      (P := fun p => (∀ id, completions requests p id ≤ 1) ∧ p.store.Vacant)
      (fun p a hp hok => hp.step hok) (fun p a hp hP => hp.returnsActive hP.1 hP.2) hinit ?_
    exact fun p hp => ⟨hsafe.once p hp, hsafe.vacant p hp⟩
  · intro hok
    have hinv := Runs.invariant_of_guarded (J := ReturnInv db₀ requests)
      (fun p a hp hok => hp.step hok) hinit hok
    refine ⟨fun p hp => (hinv p hp).once, ?_, fun p hp => (hinv p hp).relies.1⟩
    exact Runs.relation_of_guarded (R := fun p q => p.store.KeepsReturns q.store)
      (fun p _ r hr hc => ⟨r, hr, hc, rfl, rfl⟩) (fun p q u => KeepsReturns.trans _ _ _)
      (fun p a hp hok => hp.step hok) (fun p a hp hok => (hp.effect hok).2.1) hinit hok

end Runs

end Pool

/-! ## A late second return -/

def rentedGarage : Database :=
  garage.started (by decide) 1 1 1 1

/-- Two returns of rental 1 and a new booking of vehicle 1. -/
def lateReturn : Nat → RentalRequest
  | 0 => .endRental 1 1
  | 1 => .endRental 1 1
  | _ => .startRental 1 1

/-- Both returns read rental 1 as ACTIVE; the second one lands after the vehicle was booked again. -/
def lateReturnSchedule : List (Nat × Choice Draw Error) :=
  (List.replicate 5 (1, stepAt 2)) ++ (List.replicate 6 (0, stepAt 3)) ++
    (List.replicate 3 (2, stepAt 4)) ++ [(1, stepAt 5)]

theorem rentedGarage_vacant : rentedGarage.Vacant := by
  rintro v ⟨w, hw, hs⟩
  have hall : ∀ q ∈ rentedGarage.vehicles.rows, q.status = .rented := by decide
  rw [hall w (Table.mem_of_find? hw)] at hs
  cases hs

theorem late_return_completes_twice : rentedGarage.Vacant ∧
    ¬ ReturnsOnce rentedGarage lateReturn lateReturnSchedule := by
  refine ⟨rentedGarage_vacant, fun h => ?_⟩
  exact absurd (h.once _ (Runs.Visits.last _ _) 1) (by decide)

theorem rentedGarage_returnsOnce_iff :
    ReturnsOnce rentedGarage lateReturn lateReturnSchedule ↔
    ∀ p a, Runs.Takes (Pool.step dialect) (rentalRequests rentedGarage lateReturn) lateReturnSchedule p a →
      ReturnsActive lateReturn p a :=
  returnsOnce_iff_returned_active rentedGarage_vacant

end FleetManagement
