import FleetManagement.Lemmas.Handlers
import FleetManagement.Rentals.Flush

/-!
# Concurrent bookings

Any number of `start_rental` requests at work on one database. None of them locks the vehicle row that
it checks, so a vehicle is booked once exactly as long as no request commits a booking that another
request has overtaken.
-/

namespace FleetManagement

def Rental.activeFor (vehicleId : Int) (r : Rental) : Bool :=
  r.vehicleId = vehicleId ∧ r.status = .active

def Database.activeRentals (db : Database) (vehicleId : Int) : Nat :=
  db.rentals.count (Rental.activeFor vehicleId)

def Database.Available (db : Database) (vehicleId : Int) : Prop :=
  ∃ v, db.vehicles.find? vehicleId = some v ∧ v.status = .available

/-- No ACTIVE rental refers to an AVAILABLE vehicle. -/
def Database.Vacant (db : Database) : Prop := ∀ v, db.Available v → db.activeRentals v = 0

structure Database.BookedOnce (db : Database) : Prop where
  once : ∀ v, db.activeRentals v ≤ 1
  vacant : db.Vacant

section Flush
variable {db db' : Database} {renterId vehicleId : Int} {vehicle : Vehicle} {t : DateTime}

theorem activeRentals_startFlush (hid : vehicle.id = vehicleId) (hs : vehicle.status = .available)
    (h : dialect.applyAll (startFlush renterId vehicleId vehicle t) db = .ok db') (v : Int) :
    db'.activeRentals v = db.activeRentals v + if v = vehicleId then 1 else 0 := by
  obtain ⟨-, -, hseq, rfl⟩ := startFlush_ok hid hs h
  simp only [Database.activeRentals, Database.started_rentals, Table.count_insert]
  by_cases hv : vehicleId = v <;> simp [Rental.activeFor, startedRental, hv, Ne.symm]

theorem available_startFlush (hid : vehicle.id = vehicleId) (hs : vehicle.status = .available)
    (h : dialect.applyAll (startFlush renterId vehicleId vehicle t) db = .ok db') (v : Int) :
    db'.Available v ↔ v ≠ vehicleId ∧ db.Available v := by
  obtain ⟨⟨w, hw⟩, -, hseq, rfl⟩ := startFlush_ok hid hs h
  simp only [Database.Available, Database.started_vehicles]
  by_cases hv : v = vehicleId
  · subst hv
    simp [Table.find?_update_self hw, Vehicle.takeOut]
  · simp [Table.find?_update_of_ne hv, hv]

/-! ## The effect of a returned rental -/

theorem endedRental_status {rental : Rental} {stationId : Int} (hs : rental.status = .active)
    (r : Rental) : ((endedRental rental stationId t).on r).status = .completed := by
  simp [endedRental, Rental.changes, RentalSet.on, dirty, hs]

theorem activeRentals_endFlush {rental cur : Rental} {stationId : Int} (hs : rental.status = .active)
    (h : dialect.applyAll (endFlush rental vehicle stationId t) db = .ok db')
    (hcur : db.rentals.find? rental.id = some cur) (v : Int) :
    db'.activeRentals v + (cur.activeFor v).toNat = db.activeRentals v := by
  obtain ⟨-, -, rfl⟩ := endFlush_ok h
  have hdone : ((endedRental rental stationId t).on cur).activeFor v = false := by
    simp [Rental.activeFor, endedRental_status hs]
  simp only [Database.activeRentals, Database.withVehicles_rentals, Database.withRentals_rentals]
  rw [Table.count_update _ _ hcur, hdone]
  rfl

theorem available_endFlush_of_ne {rental : Rental} {stationId : Int}
    (h : dialect.applyAll (endFlush rental vehicle stationId t) db = .ok db') {v : Int}
    (hv : v ≠ vehicle.id) : db'.Available v ↔ db.Available v := by
  obtain ⟨-, -, rfl⟩ := endFlush_ok h
  simp only [Database.Available, Database.withVehicles_vehicles, Table.find?_update_of_ne hv]

theorem available_endFlush {rental : Rental} {stationId : Int}
    (h : dialect.applyAll (endFlush rental vehicle stationId t) db = .ok db')
    (hv : vehicle.status ≠ .available) : db'.Available vehicle.id := by
  obtain ⟨-, ⟨w, hw⟩, rfl⟩ := endFlush_ok h
  refine ⟨(returnedVehicle vehicle stationId).on w, ?_, ?_⟩
  · rw [Database.withVehicles_vehicles, Table.find?_update_self hw]
  · simp [returnedVehicle, Vehicle.changes, VehicleSet.on, dirty, Ne.symm hv]

end Flush

/-! ## The pool of bookings -/

section Bookings
variable {ι : Type} (renter vehicle : ι → Int)

def Database.Bookable (db : Database) (vehicleId : Int) : Prop :=
  db.Available vehicleId ∨ 1 ≤ db.activeRentals vehicleId

def Database.KeepsBookable (db db' : Database) : Prop := ∀ v, db.Bookable v → db'.Bookable v

/-- What request `i` commits: a booking of a vehicle row that it saw AVAILABLE. -/
def Books (i : ι) (db : Database) (ws : List Stmt) : Prop :=
  ∃ v t, ws = startFlush (renter i) (vehicle i) v t ∧ v.id = vehicle i ∧ v.status = .available ∧
    db.Bookable (vehicle i)

theorem KeepsBookable.trans (s t u : Database) (h : s.KeepsBookable t) (h' : t.KeepsBookable u) :
    s.KeepsBookable u := fun v hv => h' v (h v hv)

theorem startRental_books (i : ι) (db : Database) :
    Tx.Meets dialect (fun _ => True) Database.KeepsBookable (Books renter vehicle i)
      (startRental (renter i) (vehicle i)) db [] := by
  refine startRental_meets fun t u v d _ _ hv hs htu => ?_
  exact ⟨v, d, rfl, Table.key_of_find? hv, hs, htu _ (Or.inl ⟨v, hv, hs⟩)⟩

def bookings (db : Database) : Pool ι Database Stmt RowKey Draw Error Rental :=
  Pool.init db fun i => startRental (renter i) (vehicle i)

/-- The invariant of the pool: bookings are consistent, and no request has forgotten its check. -/
def BookingInv (p : Pool ι Database Stmt RowKey Draw Error Rental) : Prop :=
  p.store.BookedOnce ∧
    p.AllMeet dialect (fun _ => True) Database.KeepsBookable (Books renter vehicle)

theorem bookingInv_init {db : Database} (h : db.BookedOnce) :
    BookingInv renter vehicle (bookings renter vehicle db) :=
  ⟨h, fun i => startRental_books renter vehicle i db⟩

variable [DecidableEq ι]

/-- The request that commits in this step finds its vehicle still AVAILABLE. -/
def BooksAvailable (p : Pool ι Database Stmt RowKey Draw Error Rental)
    (a : ι × Choice Draw Error) : Prop :=
  p.publishes dialect a ≠ none → p.store.Available (vehicle a.1)

variable {renter vehicle} {p : Pool ι Database Stmt RowKey Draw Error Rental}
  {a : ι × Choice Draw Error}

theorem BookingInv.publishes (hp : BookingInv renter vehicle p) (h : p.publishes dialect a ≠ none) :
    (∀ v, (p.step dialect a).store.activeRentals v =
      p.store.activeRentals v + if v = vehicle a.1 then 1 else 0) ∧
    (∀ v, (p.step dialect a).store.Available v ↔ v ≠ vehicle a.1 ∧ p.store.Available v) ∧
    p.store.Bookable (vehicle a.1) := by
  obtain ⟨ws, hws⟩ := Option.ne_none_iff_exists'.mp h
  obtain ⟨v, t, rfl, hid, hs, hb⟩ := hp.2.publishes (fun _ _ => id) trivial hws
  obtain ⟨db', hdb, hst, -⟩ := Pool.step_of_publishes hws
  rw [hst]
  exact ⟨activeRentals_startFlush hid hs hdb, available_startFlush hid hs hdb, hb⟩

theorem BookingInv.step (hp : BookingInv renter vehicle p) (hok : BooksAvailable vehicle p a) :
    BookingInv renter vehicle (p.step dialect a) := by
  by_cases h : p.publishes dialect a = none
  · have hst := (Pool.step_of_silent h).1
    refine ⟨by rw [hst]; exact hp.1, hp.2.step (fun _ _ => id) KeepsBookable.trans trivial ?_⟩
    rw [hst]; exact fun _ => id
  · obtain ⟨hact, hav, -⟩ := hp.publishes h
    have hzero := hp.1.vacant _ (hok h)
    refine ⟨⟨fun v => ?_, fun v hv => ?_⟩, hp.2.step (fun _ _ => id) KeepsBookable.trans trivial ?_⟩
    · rw [hact]
      split
      · rename_i hv; rw [hv, hzero]
      · exact hp.1.once v
    · obtain ⟨hne, hv⟩ := (hav v).mp hv
      rw [hact, if_neg hne, hp.1.vacant v hv]
    · intro v hv
      by_cases hne : v = vehicle a.1
      · right; rw [hact, if_pos hne]; exact Nat.le_add_left 1 _
      · rcases hv with hv | hv
        · exact Or.inl ((hav v).mpr ⟨hne, hv⟩)
        · right; rw [hact]; exact Nat.le_add_right_of_le hv

/-- A commit that finds its vehicle no longer AVAILABLE books it a second time. -/
theorem BookingInv.booksAvailable (hp : BookingInv renter vehicle p)
    (h : ∀ v, (p.step dialect a).store.activeRentals v ≤ 1) : BooksAvailable vehicle p a := by
  intro hpub
  obtain ⟨hact, -, hb⟩ := hp.publishes hpub
  have hle := h (vehicle a.1)
  rw [hact, if_pos rfl] at hle
  rcases hb with hb | hb
  · exact hb
  · omega

/-- Every committed state has at most one ACTIVE rental per vehicle exactly when every booking commits
while its vehicle is AVAILABLE. -/
theorem one_active_rental_iff_booked_available {db : Database} (hdb : db.BookedOnce)
    (schedule : List (ι × Choice Draw Error)) :
    (∀ p, Runs.Visits (Pool.step dialect) (bookings renter vehicle db) schedule p →
      ∀ v, p.store.activeRentals v ≤ 1) ↔
    ∀ p a, Runs.Takes (Pool.step dialect) (bookings renter vehicle db) schedule p a →
      BooksAvailable vehicle p a :=
  Runs.invariant_iff_guarded (fun _ hp => hp.1.once) (fun _ _ hp hok => hp.step hok)
    (fun _ _ hp h => hp.booksAvailable h) (bookingInv_init renter vehicle hdb)

end Bookings

/-! ## Two overlapping bookings -/

theorem bookedOnce_of_no_rentals {db : Database} (h : db.rentals.rows = []) : db.BookedOnce := by
  have hzero : ∀ v, db.activeRentals v = 0 := fun v => by
    rw [Database.activeRentals, Table.count, h]; rfl
  exact ⟨fun v => (hzero v).trans_le (Nat.zero_le 1), fun v _ => hzero v⟩

/-- One station with five slots, one vehicle parked there and one renter. -/
def garage : Database :=
  .seeded [.insertStation ⟨0, "Station street 1", 5⟩,
    .insertVehicle ⟨0, "AA1234BB", "Skoda Fabia", .available, 1⟩,
    .insertRenter ⟨0, "Ivan Petrenko", "AB123456", none⟩]

/-- Two requests for vehicle 1: both read it before either commits. -/
def overlappingBookings : List (Nat × Choice Draw Error) :=
  [(0, stepAt 1), (1, stepAt 2), (0, stepAt 3), (0, stepAt 4), (1, stepAt 5), (1, stepAt 6)]

theorem overlapping_bookings_both_commit :
    garage.BookedOnce ∧ ¬ ∀ p, Runs.Visits (Pool.step dialect)
      (bookings (fun _ => 1) (fun _ => 1) garage) overlappingBookings p →
        ∀ v, p.store.activeRentals v ≤ 1 := by
  refine ⟨bookedOnce_of_no_rentals rfl, fun h => ?_⟩
  exact absurd (h _ (Runs.Visits.last _ _) 1) (by decide)

theorem garage_one_active_rental_iff :
    (∀ p, Runs.Visits (Pool.step dialect) (bookings (fun _ => 1) (fun _ => 1) garage)
      overlappingBookings p → ∀ v, p.store.activeRentals v ≤ 1) ↔
    ∀ p a, Runs.Takes (Pool.step dialect) (bookings (fun _ => 1) (fun _ => 1) garage)
      overlappingBookings p a → BooksAvailable (fun _ => 1) p a :=
  one_active_rental_iff_booked_available (bookedOnce_of_no_rentals rfl) overlappingBookings

end FleetManagement
