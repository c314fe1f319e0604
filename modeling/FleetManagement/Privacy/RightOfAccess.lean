import FleetManagement.Lemmas.Handlers
import FleetManagement.Services.Export

/-!
# Complete and isolated exports

An export lists the rows that are linked to its subject, all of them and once each, and it is determined
by these rows.
-/

namespace FleetManagement

/-! ## The unique constraints of the schema -/

/-- No two rows of the table have the same key `f`; rows without one do not count. -/
def UniqueBy {ρ κ : Type} [Keyed ρ] (t : Table ρ) (f : ρ → Option κ) : Prop :=
  ∀ a ∈ t.rows, ∀ b ∈ t.rows, f a = f b → (f a).isSome = true → a = b

structure Database.MeetsUnique (db : Database) : Prop where
  licensePlate : UniqueBy db.vehicles fun v => some v.licensePlate
  licenseNumber : UniqueBy db.renters fun r => some r.licenseNumber
  renterOfUser : UniqueBy db.renters fun r => r.userId
  email : UniqueBy db.users fun u => some u.email
  consent : UniqueBy db.userConsents fun c => some (c.userId, c.purpose)
  reading : UniqueBy db.telemetryReadings fun r => some (r.vehicleId, r.recordedAt)

/-! ## What is linked to a subject -/

/-- The rental belongs to the renter of the user `u`. -/
def Database.RentalOf (db : Database) (u : Int) (rental : Rental) : Prop :=
  ∃ renter ∈ db.renters.rows, renter.userId = some u ∧ rental.renterId = renter.id

section Export
variable {db db' : Database} {u : Int}

/-! ## The renter and the rentals -/

theorem rentersOf_toList (h : db.MeetsUnique) (u : Int) :
    ∃ o : Option Renter, db.renters.rows.filter (fun r => r.userId = some u) = Option.toList o := by
  match hl : db.renters.rows.filter fun r => r.userId = some u with
  | [] => exact ⟨none, hl⟩
  | [r] => exact ⟨some r, hl⟩
  | a :: b :: l =>
      have hmem : ∀ r ∈ a :: b :: l, r ∈ db.renters.rows ∧ r.userId = some u := by
        intro r hr
        rw [← hl] at hr
        simpa using hr
      obtain ⟨ha, hua⟩ := hmem a (by simp)
      obtain ⟨hb, hub⟩ := hmem b (by simp)
      obtain rfl : a = b := h.renterOfUser a ha b hb (hua.trans hub.symm) (by simp [hua])
      have hsorted := db.renters.sorted.filter fun r => decide (r.userId = some u)
      rw [hl, List.pairwise_cons] at hsorted
      exact absurd (hsorted.1 a (by simp)) (Int.lt_irrefl _)

theorem mem_rentersOf {o : Option Renter}
    (h : db.renters.rows.filter (fun r => r.userId = some u) = Option.toList o) (r : Renter) :
    o = some r ↔ r ∈ db.renters.rows ∧ r.userId = some u := by
  have hmem : r ∈ Option.toList o ↔ r ∈ db.renters.rows ∧ r.userId = some u := by
    rw [← h]; simp
  exact (Option.mem_toList.symm.trans hmem)

theorem mem_consentsOf (c : UserConsent) :
    c ∈ db.consentsOf u ↔ c ∈ db.userConsents.rows ∧ c.userId = u := by
  have hall : c.purpose ∈ ConsentPurpose.all := by cases c.purpose <;> decide
  unfold Database.consentsOf Database.consentsFor
  simp only [List.mem_flatMap, List.mem_filter, decide_eq_true_eq]
  constructor
  · rintro ⟨purpose, -, hrow, huser, -⟩; exact ⟨hrow, huser⟩
  · rintro ⟨hrow, huser⟩; exact ⟨c.purpose, hall, hrow, huser, rfl⟩

theorem nodup_consentsOf (db : Database) (u : Int) : (db.consentsOf u).Nodup := by
  have hrows : db.userConsents.rows.Nodup := List.Nodup.of_map _ db.userConsents.nodup_keys
  refine List.nodup_flatMap.mpr ⟨fun purpose _ => hrows.filter _, ?_⟩
  refine List.Pairwise.imp (fun {p q} hpq => ?_) (show ConsentPurpose.all.Pairwise (· ≠ ·) by decide)
  intro c hp hq
  have hp := (of_decide_eq_true (List.mem_filter.mp hp).2).2
  have hq := (of_decide_eq_true (List.mem_filter.mp hq).2).2
  exact hpq (hp.symm.trans hq)

end Export

/-- Two accounts with a renter and a rental each. -/
def twoRenters : Database :=
  .seeded [.insertStation ⟨0, "Kyiv, Central Station", 5⟩,
    .insertVehicle (newVehicle "AA1234BB" "Skoda Fabia" 1),
    .insertUser ⟨0, "ira@fleet.org", "secret$", "Ira Bondar", .user, some "+380501112233", true, 0, none⟩,
    .insertUser ⟨0, "oleh@fleet.org", "secret$", "Oleh Melnyk", .user, none, true, 0, none⟩,
    .insertRenter ⟨0, "Oleh Melnyk", "BX-2", some 2⟩,
    .insertRenter ⟨0, "Ira Bondar", "BX-1", some 1⟩,
    .insertRental ⟨0, 1, 1, 1, some 1, 0, some 60, .completed⟩,
    .insertRental ⟨0, 2, 1, 1, none, 120, none, .active⟩,
    .insertUserActivity ⟨0, 1, "login", 100, none, some "curl"⟩,
    .insertUserConsent (newConsent 1 .marketingEmail "2026-01" "web" 110)]

end FleetManagement
