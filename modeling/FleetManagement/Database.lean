import FleetManagement.Library.Tx
import FleetManagement.Models
import Mathlib.Tactic.Simps.Basic

/-!
# The database and its statements

The tables, the statements that the ORM emits, and the constraints that PostgreSQL checks for each of
them: column types, unique constraints and foreign keys. A statement that fails a check raises.
-/

namespace FleetManagement

inductive Error where
  | notFound (detail : String)
  | vehicleNotAvailable (detail : String)
  | stationFull (detail : String)
  | emailAlreadyRegistered (detail : String)
  | consentDenied (purpose reason : String)
  | http (status : Nat) (detail : String)
  | validationError
  | integrityError
  | dataError
  | staleDataError
  | multipleResultsFound
  | attributeError
  | operationalError
  deriving DecidableEq, Repr

structure Database where
  stations : Table Station
  vehicles : Table Vehicle
  renters : Table Renter
  rentals : Table Rental
  telemetryReadings : Table TelemetryReading
  users : Table User
  userConsents : Table UserConsent
  consentHistory : Table ConsentHistory
  userActivity : Table UserActivity
  auditEvents : Table AuditEvent
  marketingMessages : Table MarketingMessage
  analyticsEvents : Table AnalyticsEvent

def Database.empty : Database where
  stations := .empty
  vehicles := .empty
  renters := .empty
  rentals := .empty
  telemetryReadings := .empty
  users := .empty
  userConsents := .empty
  consentHistory := .empty
  userActivity := .empty
  auditEvents := .empty
  marketingMessages := .empty
  analyticsEvents := .empty

section Setters
variable (db : Database)

@[simps] def Database.withStations (t : Table Station) : Database := { db with stations := t }

@[simps] def Database.withVehicles (t : Table Vehicle) : Database := { db with vehicles := t }

@[simps] def Database.withRenters (t : Table Renter) : Database := { db with renters := t }

@[simps] def Database.withRentals (t : Table Rental) : Database := { db with rentals := t }

@[simps] def Database.withTelemetryReadings (t : Table TelemetryReading) : Database :=
  { db with telemetryReadings := t }

@[simps] def Database.withUsers (t : Table User) : Database := { db with users := t }

@[simps] def Database.withUserConsents (t : Table UserConsent) : Database :=
  { db with userConsents := t }

@[simps] def Database.withConsentHistory (t : Table ConsentHistory) : Database :=
  { db with consentHistory := t }

@[simps] def Database.withUserActivity (t : Table UserActivity) : Database :=
  { db with userActivity := t }

@[simps] def Database.withAuditEvents (t : Table AuditEvent) : Database :=
  { db with auditEvents := t }

@[simps] def Database.withMarketingMessages (t : Table MarketingMessage) : Database :=
  { db with marketingMessages := t }

@[simps] def Database.withAnalyticsEvents (t : Table AnalyticsEvent) : Database :=
  { db with analyticsEvents := t }

end Setters

/-! ## Statements

An `INSERT` takes its `id` from the sequence, so the `id` of the row in the statement is not used. An
`UPDATE` addresses its row by primary key and sets the columns that are given. -/

structure VehicleSet where
  status : Option VehicleStatus := none
  stationId : Option Int := none
  deriving DecidableEq, Repr

structure RentalSet where
  endStationId : Option (Option Int) := none
  endedAt : Option (Option DateTime) := none
  status : Option RentalStatus := none
  deriving DecidableEq, Repr

structure UserSet where
  email : Option String := none
  hashedPassword : Option String := none
  fullName : Option String := none
  phone : Option (Option String) := none
  isActive : Option Bool := none
  anonymizedAt : Option (Option DateTime) := none
  deriving DecidableEq, Repr

structure RenterSet where
  fullName : Option String := none
  licenseNumber : Option String := none
  deriving DecidableEq, Repr

structure UserConsentSet where
  status : Option ConsentStatus := none
  policyVersion : Option String := none
  grantedAt : Option (Option DateTime) := none
  withdrawnAt : Option (Option DateTime) := none
  updatedAt : Option DateTime := none
  source : Option String := none
  deriving DecidableEq, Repr

structure MarketingMessageSet where
  status : Option MarketingStatus := none
  processedAt : Option (Option DateTime) := none
  deriving DecidableEq, Repr

def VehicleSet.on (s : VehicleSet) (v : Vehicle) : Vehicle :=
  { v with status := s.status.getD v.status, stationId := s.stationId.getD v.stationId }

theorem VehicleSet.key_on (s : VehicleSet) (v : Vehicle) : Keyed.key (s.on v) = Keyed.key v := rfl

def RentalSet.on (s : RentalSet) (r : Rental) : Rental :=
  { r with
    endStationId := s.endStationId.getD r.endStationId
    endedAt := s.endedAt.getD r.endedAt
    status := s.status.getD r.status }

theorem RentalSet.key_on (s : RentalSet) (r : Rental) : Keyed.key (s.on r) = Keyed.key r := rfl

def UserSet.on (s : UserSet) (u : User) : User :=
  { u with
    email := s.email.getD u.email
    hashedPassword := s.hashedPassword.getD u.hashedPassword
    fullName := s.fullName.getD u.fullName
    phone := s.phone.getD u.phone
    isActive := s.isActive.getD u.isActive
    anonymizedAt := s.anonymizedAt.getD u.anonymizedAt }

theorem UserSet.key_on (s : UserSet) (u : User) : Keyed.key (s.on u) = Keyed.key u := rfl

def RenterSet.on (s : RenterSet) (r : Renter) : Renter :=
  { r with
    fullName := s.fullName.getD r.fullName
    licenseNumber := s.licenseNumber.getD r.licenseNumber }

theorem RenterSet.key_on (s : RenterSet) (r : Renter) : Keyed.key (s.on r) = Keyed.key r := rfl

def UserConsentSet.on (s : UserConsentSet) (c : UserConsent) : UserConsent :=
  { c with
    status := s.status.getD c.status
    policyVersion := s.policyVersion.getD c.policyVersion
    grantedAt := s.grantedAt.getD c.grantedAt
    withdrawnAt := s.withdrawnAt.getD c.withdrawnAt
    updatedAt := s.updatedAt.getD c.updatedAt
    source := s.source.getD c.source }

theorem UserConsentSet.key_on (s : UserConsentSet) (c : UserConsent) :
    Keyed.key (s.on c) = Keyed.key c := rfl

def MarketingMessageSet.on (s : MarketingMessageSet) (m : MarketingMessage) : MarketingMessage :=
  { m with
    status := s.status.getD m.status
    processedAt := s.processedAt.getD m.processedAt }

theorem MarketingMessageSet.key_on (s : MarketingMessageSet) (m : MarketingMessage) :
    Keyed.key (s.on m) = Keyed.key m := rfl

inductive Stmt where
  | insertStation (row : Station)
  | insertVehicle (row : Vehicle)
  | insertRenter (row : Renter)
  | insertRental (row : Rental)
  | insertUser (row : User)
  | insertUserConsent (row : UserConsent)
  | insertConsentHistory (row : ConsentHistory)
  | insertUserActivity (row : UserActivity)
  | insertAuditEvent (row : AuditEvent)
  | insertMarketingMessage (row : MarketingMessage)
  | insertAnalyticsEvent (row : AnalyticsEvent)
  | updateVehicle (id : Int) (set : VehicleSet)
  | updateRental (id : Int) (set : RentalSet)
  | updateUser (id : Int) (set : UserSet)
  | updateRenter (id : Int) (set : RenterSet)
  | updateUserConsent (id : Int) (set : UserConsentSet)
  | updateMarketingMessage (id : Int) (set : MarketingMessageSet)
  | deleteUserActivity (userId : Int)
  | deleteMarketingMessages (userId : Int)
  | deleteAnalyticsEvents (userId : Int)
  deriving DecidableEq, Repr

/-! ## Constraints -/

def isInteger (i : Int) : Bool := -2147483648 ≤ i ∧ i ≤ 2147483647

def integer (i : Int) : Except Error Unit := if isInteger i then .ok () else .error .dataError

/-- A `VARCHAR(n)` value: no NUL character, and at most `n` characters. -/
def varchar (n : Nat) (s : String) : Except Error Unit :=
  if s.length ≤ n ∧ '\x00' ∉ s.toList then .ok () else .error .dataError

/-- A nullable column, or a column that an `UPDATE` may leave alone. -/
def optional {α : Type} (check : α → Except Error Unit) : Option α → Except Error Unit
  | none => .ok ()
  | some a => check a

def unique {ρ : Type} [Keyed ρ] (t : Table ρ) (p : ρ → Bool) : Except Error Unit :=
  if t.rows.any p then .error .integrityError else .ok ()

def references {ρ : Type} [Keyed ρ] (t : Table ρ) (i : Int) : Except Error Unit :=
  if (t.find? i).isSome then .ok () else .error .integrityError

def insertRow {ρ : Type} [Keyed ρ] (t : Table ρ) (mk : Int → ρ) (hk : ∀ i, Keyed.key (mk i) = i) :
    Except Error (Table ρ) :=
  if h : t.seq < Keyed.maxKey ρ then .ok (t.insert h mk hk) else .error .dataError

def updateRow {ρ : Type} [Keyed ρ] (t : Table ρ) (i : Int) (f : ρ → ρ)
    (hf : ∀ r, Keyed.key (f r) = Keyed.key r) : Except Error (Table ρ) :=
  if (t.find? i).isSome then .ok (t.update i f hf) else .error .staleDataError

def Station.check (row : Station) : Except Error Unit := do
  varchar 200 row.address
  integer row.capacity

def Vehicle.check (db : Database) (row : Vehicle) : Except Error Unit := do
  varchar 20 row.licensePlate
  varchar 100 row.model
  unique db.vehicles (·.licensePlate = row.licensePlate)
  references db.stations row.stationId

def Renter.check (db : Database) (row : Renter) : Except Error Unit := do
  varchar 150 row.fullName
  varchar 50 row.licenseNumber
  unique db.renters (·.licenseNumber = row.licenseNumber)
  optional (fun u => unique db.renters (·.userId = some u)) row.userId
  optional (references db.users) row.userId

def Rental.check (db : Database) (row : Rental) : Except Error Unit := do
  references db.renters row.renterId
  references db.vehicles row.vehicleId
  references db.stations row.startStationId
  optional (references db.stations) row.endStationId

def User.check (db : Database) (row : User) : Except Error Unit := do
  varchar 254 row.email
  varchar 255 row.hashedPassword
  varchar 150 row.fullName
  optional (varchar 32) row.phone
  unique db.users (·.email = row.email)

def UserConsent.check (db : Database) (row : UserConsent) : Except Error Unit := do
  varchar 20 row.policyVersion
  varchar 50 row.source
  unique db.userConsents fun c => c.userId = row.userId ∧ c.purpose = row.purpose
  references db.users row.userId

def ConsentHistory.check (db : Database) (row : ConsentHistory) : Except Error Unit := do
  varchar 20 row.policyVersion
  varchar 50 row.source
  references db.users row.userId

def UserActivity.check (db : Database) (row : UserActivity) : Except Error Unit := do
  varchar 64 row.action
  optional (varchar 45) row.ipAddress
  optional (varchar 255) row.userAgent
  references db.users row.userId

def AuditEvent.check (row : AuditEvent) : Except Error Unit := do
  varchar 64 row.eventType
  optional integer row.actorId
  optional integer row.subjectId
  varchar 64 row.result
  varchar 64 row.correlationId

def MarketingMessage.check (db : Database) (row : MarketingMessage) : Except Error Unit := do
  varchar 64 row.campaign
  references db.users row.userId

def AnalyticsEvent.check (db : Database) (row : AnalyticsEvent) : Except Error Unit := do
  varchar 64 row.eventName
  references db.users row.userId

def VehicleSet.check (db : Database) (set : VehicleSet) : Except Error Unit :=
  optional (references db.stations) set.stationId

def RentalSet.check (db : Database) (set : RentalSet) : Except Error Unit :=
  optional (optional (references db.stations)) set.endStationId

def UserSet.check (db : Database) (id : Int) (set : UserSet) : Except Error Unit := do
  optional (varchar 254) set.email
  optional (varchar 255) set.hashedPassword
  optional (varchar 150) set.fullName
  optional (optional (varchar 32)) set.phone
  optional (fun e => unique db.users fun u => u.id ≠ id ∧ u.email = e) set.email

def RenterSet.check (db : Database) (id : Int) (set : RenterSet) : Except Error Unit := do
  optional (varchar 150) set.fullName
  optional (varchar 50) set.licenseNumber
  optional (fun l => unique db.renters fun r => r.id ≠ id ∧ r.licenseNumber = l) set.licenseNumber

def UserConsentSet.check (set : UserConsentSet) : Except Error Unit := do
  optional (varchar 20) set.policyVersion
  optional (varchar 50) set.source

/-! ## What a statement does -/

def Stmt.apply : Stmt → Database → Except Error Database
  | .insertStation row, db => do
      row.check
      return db.withStations (← insertRow db.stations (fun id => { row with id }) fun _ => rfl)
  | .insertVehicle row, db => do
      row.check db
      return db.withVehicles (← insertRow db.vehicles (fun id => { row with id }) fun _ => rfl)
  | .insertRenter row, db => do
      row.check db
      return db.withRenters (← insertRow db.renters (fun id => { row with id }) fun _ => rfl)
  | .insertRental row, db => do
      row.check db
      return db.withRentals (← insertRow db.rentals (fun id => { row with id }) fun _ => rfl)
  | .insertUser row, db => do
      row.check db
      return db.withUsers (← insertRow db.users (fun id => { row with id }) fun _ => rfl)
  | .insertUserConsent row, db => do
      row.check db
      return db.withUserConsents
        (← insertRow db.userConsents (fun id => { row with id }) fun _ => rfl)
  | .insertConsentHistory row, db => do
      row.check db
      return db.withConsentHistory
        (← insertRow db.consentHistory (fun id => { row with id }) fun _ => rfl)
  | .insertUserActivity row, db => do
      row.check db
      return db.withUserActivity (← insertRow db.userActivity (fun id => { row with id }) fun _ => rfl)
  | .insertAuditEvent row, db => do
      row.check
      return db.withAuditEvents (← insertRow db.auditEvents (fun id => { row with id }) fun _ => rfl)
  | .insertMarketingMessage row, db => do
      row.check db
      return db.withMarketingMessages
        (← insertRow db.marketingMessages (fun id => { row with id }) fun _ => rfl)
  | .insertAnalyticsEvent row, db => do
      row.check db
      return db.withAnalyticsEvents
        (← insertRow db.analyticsEvents (fun id => { row with id }) fun _ => rfl)
  | .updateVehicle id set, db => do
      set.check db
      return db.withVehicles (← updateRow db.vehicles id set.on set.key_on)
  | .updateRental id set, db => do
      set.check db
      return db.withRentals (← updateRow db.rentals id set.on set.key_on)
  | .updateUser id set, db => do
      set.check db id
      return db.withUsers (← updateRow db.users id set.on set.key_on)
  | .updateRenter id set, db => do
      set.check db id
      return db.withRenters (← updateRow db.renters id set.on set.key_on)
  | .updateUserConsent id set, db => do
      set.check
      return db.withUserConsents (← updateRow db.userConsents id set.on set.key_on)
  | .updateMarketingMessage id set, db => do
      return db.withMarketingMessages (← updateRow db.marketingMessages id set.on set.key_on)
  | .deleteUserActivity userId, db =>
      .ok (db.withUserActivity (db.userActivity.deleteWhere (·.userId = userId)))
  | .deleteMarketingMessages userId, db =>
      .ok (db.withMarketingMessages (db.marketingMessages.deleteWhere (·.userId = userId)))
  | .deleteAnalyticsEvents userId, db =>
      .ok (db.withAnalyticsEvents (db.analyticsEvents.deleteWhere (·.userId = userId)))

def Stmt.rowcount : Stmt → Database → Nat
  | .deleteUserActivity userId, db => db.userActivity.count (·.userId = userId)
  | .deleteMarketingMessages userId, db => db.marketingMessages.count (·.userId = userId)
  | .deleteAnalyticsEvents userId, db => db.analyticsEvents.count (·.userId = userId)
  | _, _ => 1

inductive RowKey where
  | vehicle (id : Int)
  | rental (id : Int)
  | user (id : Int)
  | renter (id : Int)
  | userConsent (id : Int)
  | marketingMessage (id : Int)
  deriving DecidableEq, Repr

/-- The existing rows whose locks a statement takes. -/
def Stmt.touches : Stmt → List RowKey
  | .updateVehicle id _ => [.vehicle id]
  | .updateRental id _ => [.rental id]
  | .updateUser id _ => [.user id]
  | .updateRenter id _ => [.renter id]
  | .updateUserConsent id _ => [.userConsent id]
  | .updateMarketingMessage id _ => [.marketingMessage id]
  | _ => []

def dialect : Dialect Database Stmt RowKey Error := ⟨Stmt.apply, Stmt.rowcount, Stmt.touches⟩

/-! ## Handlers -/

/-- `uuid.uuid4().hex`: 32 lower-case hexadecimal digits. -/
structure UuidHex where
  val : String
  length_eq : val.length = 32
  hex : val.toList.all fun c => ('0' ≤ c ∧ c ≤ '9') ∨ ('a' ≤ c ∧ c ≤ 'f')

structure Draw where
  now : DateTime
  uuid : UuidHex
  /-- `secrets.token_urlsafe`. -/
  token : String
  /-- The salt of a password hash. -/
  salt : String

abbrev Db (α : Type) := Tx Database Stmt RowKey Draw Error α

/-- A query parameter that is compared with an `INTEGER` column. -/
def integerParameter (id : Int) : Db Unit := if isInteger id then pure () else throw .dataError

/-- `db.get` of a row that the session has not loaded. -/
def get {ρ : Type} [Keyed ρ] (table : Database → Table ρ) (id : Int) : Db (Option ρ) := do
  integerParameter id
  let db ← Tx.select
  pure ((table db).find? id)

/-- `db.refresh` of a row that the session has just written. -/
def refresh {ρ : Type} [Keyed ρ] (table : Database → Table ρ) (id : Int) : Db ρ := do
  match (table (← Tx.select)).find? id with
  | some row => pure row
  | none => throw .staleDataError

/-- `datetime.utcnow()` and `datetime.now(UTC)`. -/
def now : Db DateTime := do return (← Tx.sample).now

def uuid4 : Db UuidHex := do return (← Tx.sample).uuid

/-! ## Environments for examples -/

def Database.seeded (ws : List Stmt) : Database :=
  match dialect.applyAll ws .empty with
  | .ok db => db
  | .error _ => .empty

def zeroUuid : UuidHex := ⟨"00000000000000000000000000000000", by decide, by decide⟩

def stepAt (t : DateTime) : Choice Draw Error := Choice.calm ⟨t, zeroUuid, "", ""⟩

end FleetManagement
