import FleetManagement.Database

/-!
# What an accepted statement does
-/

namespace FleetManagement

open Keyed (key maxKey)

theorem bind_eq_ok {ε α β : Type} {x : Except ε α} {f : α → Except ε β} {b : β} :
    x >>= f = .ok b ↔ ∃ a, x = .ok a ∧ f a = .ok b := by
  cases x with
  | error e => simp [bind, Except.bind]
  | ok a => simp [bind, Except.bind]

/-! ## Checks -/

theorem references_ok {ρ : Type} [Keyed ρ] {t : Table ρ} {i : Int} :
    references t i = .ok () ↔ ∃ r, t.find? i = some r := by
  simp [references, Option.isSome_iff_exists]

theorem unique_ok {ρ : Type} [Keyed ρ] {t : Table ρ} {p : ρ → Bool} :
    unique t p = .ok () ↔ t.rows.filter p = [] := by
  simp [unique, List.filter_eq_nil_iff]

theorem insertRow_ok {ρ : Type} [Keyed ρ] {t u : Table ρ} {mk : Int → ρ} {hk} :
    insertRow t mk hk = .ok u ↔ ∃ h, u = t.insert h mk hk := by
  unfold insertRow
  split
  · rename_i h; simp [h, eq_comm]
  · rename_i h; simp [h]

theorem updateRow_ok {ρ : Type} [Keyed ρ] {t u : Table ρ} {i : Int} {f : ρ → ρ} {hf} :
    updateRow t i f hf = .ok u ↔ (∃ r, t.find? i = some r) ∧ u = t.update i f hf := by
  unfold updateRow
  cases t.find? i <;> simp [eq_comm]

/-! ## Statements -/

section Statements
variable {db db' : Database}

theorem checked_insert {ρ : Type} [Keyed ρ] {c : Except Error Unit} {t : Table ρ}
    {set : Table ρ → Database} {mk : Int → ρ} {hk} :
    (do c; return set (← insertRow t mk hk)) = .ok db' ↔
      c = .ok () ∧ ∃ h, db' = set (t.insert h mk hk) := by
  simp only [bind_eq_ok, insertRow_ok]
  constructor
  · rintro ⟨_, hc, _, ⟨h, rfl⟩, h'⟩
    exact ⟨hc, h, (Except.ok.inj h').symm⟩
  · rintro ⟨hc, h, rfl⟩
    exact ⟨(), hc, _, ⟨h, rfl⟩, rfl⟩

theorem checked_update {ρ : Type} [Keyed ρ] {c : Except Error Unit} {t : Table ρ}
    {set : Table ρ → Database} {i : Int} {f : ρ → ρ} {hf} :
    (do c; return set (← updateRow t i f hf)) = .ok db' ↔
      c = .ok () ∧ (∃ r, t.find? i = some r) ∧ db' = set (t.update i f hf) := by
  simp only [bind_eq_ok, updateRow_ok]
  constructor
  · rintro ⟨_, hc, _, ⟨hr, rfl⟩, h'⟩
    exact ⟨hc, hr, (Except.ok.inj h').symm⟩
  · rintro ⟨hc, hr, rfl⟩
    exact ⟨(), hc, _, ⟨hr, rfl⟩, rfl⟩

theorem insertStation_ok {row : Station} :
    dialect.apply (.insertStation row) db = .ok db' ↔ row.check = .ok () ∧ ∃ h,
      db' = db.withStations (db.stations.insert h (fun id => { row with id }) fun _ => rfl) :=
  checked_insert

theorem insertVehicle_ok {row : Vehicle} :
    dialect.apply (.insertVehicle row) db = .ok db' ↔ row.check db = .ok () ∧ ∃ h,
      db' = db.withVehicles (db.vehicles.insert h (fun id => { row with id }) fun _ => rfl) :=
  checked_insert

theorem insertRenter_ok {row : Renter} :
    dialect.apply (.insertRenter row) db = .ok db' ↔ row.check db = .ok () ∧ ∃ h,
      db' = db.withRenters (db.renters.insert h (fun id => { row with id }) fun _ => rfl) :=
  checked_insert

theorem insertRental_ok {row : Rental} :
    dialect.apply (.insertRental row) db = .ok db' ↔ row.check db = .ok () ∧ ∃ h,
      db' = db.withRentals (db.rentals.insert h (fun id => { row with id }) fun _ => rfl) :=
  checked_insert

theorem insertUser_ok {row : User} :
    dialect.apply (.insertUser row) db = .ok db' ↔ row.check db = .ok () ∧ ∃ h,
      db' = db.withUsers (db.users.insert h (fun id => { row with id }) fun _ => rfl) :=
  checked_insert

theorem insertUserConsent_ok {row : UserConsent} :
    dialect.apply (.insertUserConsent row) db = .ok db' ↔ row.check db = .ok () ∧ ∃ h,
      db' = db.withUserConsents (db.userConsents.insert h (fun id => { row with id }) fun _ => rfl) :=
  checked_insert

theorem insertConsentHistory_ok {row : ConsentHistory} :
    dialect.apply (.insertConsentHistory row) db = .ok db' ↔ row.check db = .ok () ∧ ∃ h,
      db' = db.withConsentHistory (db.consentHistory.insert h (fun id => { row with id }) fun _ => rfl) :=
  checked_insert

theorem insertUserActivity_ok {row : UserActivity} :
    dialect.apply (.insertUserActivity row) db = .ok db' ↔ row.check db = .ok () ∧ ∃ h,
      db' = db.withUserActivity (db.userActivity.insert h (fun id => { row with id }) fun _ => rfl) :=
  checked_insert

theorem insertAuditEvent_ok {row : AuditEvent} :
    dialect.apply (.insertAuditEvent row) db = .ok db' ↔ row.check = .ok () ∧ ∃ h,
      db' = db.withAuditEvents (db.auditEvents.insert h (fun id => { row with id }) fun _ => rfl) :=
  checked_insert

theorem insertMarketingMessage_ok {row : MarketingMessage} :
    dialect.apply (.insertMarketingMessage row) db = .ok db' ↔ row.check db = .ok () ∧ ∃ h,
      db' = db.withMarketingMessages
        (db.marketingMessages.insert h (fun id => { row with id }) fun _ => rfl) :=
  checked_insert

theorem insertAnalyticsEvent_ok {row : AnalyticsEvent} :
    dialect.apply (.insertAnalyticsEvent row) db = .ok db' ↔ row.check db = .ok () ∧ ∃ h,
      db' = db.withAnalyticsEvents
        (db.analyticsEvents.insert h (fun id => { row with id }) fun _ => rfl) :=
  checked_insert

theorem updateVehicle_ok {id : Int} {set : VehicleSet} :
    dialect.apply (.updateVehicle id set) db = .ok db' ↔ set.check db = .ok () ∧
      (∃ r, db.vehicles.find? id = some r) ∧
      db' = db.withVehicles (db.vehicles.update id set.on set.key_on) :=
  checked_update

theorem updateRental_ok {id : Int} {set : RentalSet} :
    dialect.apply (.updateRental id set) db = .ok db' ↔ set.check db = .ok () ∧
      (∃ r, db.rentals.find? id = some r) ∧
      db' = db.withRentals (db.rentals.update id set.on set.key_on) :=
  checked_update

theorem updateUser_ok {id : Int} {set : UserSet} :
    dialect.apply (.updateUser id set) db = .ok db' ↔ set.check db id = .ok () ∧
      (∃ r, db.users.find? id = some r) ∧
      db' = db.withUsers (db.users.update id set.on set.key_on) :=
  checked_update

theorem updateRenter_ok {id : Int} {set : RenterSet} :
    dialect.apply (.updateRenter id set) db = .ok db' ↔ set.check db id = .ok () ∧
      (∃ r, db.renters.find? id = some r) ∧
      db' = db.withRenters (db.renters.update id set.on set.key_on) :=
  checked_update

theorem updateUserConsent_ok {id : Int} {set : UserConsentSet} :
    dialect.apply (.updateUserConsent id set) db = .ok db' ↔ set.check = .ok () ∧
      (∃ r, db.userConsents.find? id = some r) ∧
      db' = db.withUserConsents (db.userConsents.update id set.on set.key_on) :=
  checked_update

theorem updateMarketingMessage_ok {id : Int} {set : MarketingMessageSet} :
    dialect.apply (.updateMarketingMessage id set) db = .ok db' ↔
      (∃ r, db.marketingMessages.find? id = some r) ∧
      db' = db.withMarketingMessages (db.marketingMessages.update id set.on set.key_on) := by
  show (do return db.withMarketingMessages (← updateRow _ id set.on set.key_on)) = .ok db' ↔ _
  simp only [bind_eq_ok, updateRow_ok]
  constructor
  · rintro ⟨_, ⟨hr, rfl⟩, h⟩
    exact ⟨hr, (Except.ok.inj h).symm⟩
  · rintro ⟨hr, rfl⟩
    exact ⟨_, ⟨hr, rfl⟩, rfl⟩

end Statements

end FleetManagement
