import FleetManagement.Services.Consent

/-!
# The right of access

`export_service` and the export schemas of `schemas_privacy`: the personal data of one subject, section
by section.
-/

namespace FleetManagement

def UserRole.value : UserRole → String
  | .admin => "admin"
  | .user => "user"

def RentalStatus.value : RentalStatus → String
  | .active => "active"
  | .completed => "completed"
  | .cancelled => "cancelled"

def MarketingStatus.value : MarketingStatus → String
  | .queued => "QUEUED"
  | .sent => "SENT"
  | .skipped => "SKIPPED"

/-! ## Sections -/

structure ProfileSection where
  id : Int
  email : String
  fullName : String
  phone : Option String
  createdAt : DateTime
  deriving DecidableEq, Repr

structure SettingsSection where
  role : String
  isActive : Bool
  anonymized : Bool
  deriving DecidableEq, Repr

structure RenterProfileSection where
  id : Int
  fullName : String
  licenseNumber : String
  deriving DecidableEq, Repr

structure ActivityItem where
  action : String
  occurredAt : DateTime
  ipAddress : Option String
  userAgent : Option String
  deriving DecidableEq, Repr

structure RentalItem where
  id : Int
  vehicleId : Int
  startStationId : Int
  endStationId : Option Int
  startedAt : DateTime
  endedAt : Option DateTime
  status : String
  deriving DecidableEq, Repr

structure ConsentCurrentItem where
  purpose : ConsentPurpose
  status : ConsentStatus
  policyVersion : String
  grantedAt : Option DateTime
  withdrawnAt : Option DateTime
  updatedAt : DateTime
  source : String
  deriving DecidableEq, Repr

structure ConsentHistoryItem where
  purpose : ConsentPurpose
  action : ConsentAction
  policyVersion : String
  source : String
  occurredAt : DateTime
  deriving DecidableEq, Repr

structure ConsentsSection where
  current : List ConsentCurrentItem
  history : List ConsentHistoryItem
  deriving DecidableEq, Repr

structure MarketingItem where
  campaign : String
  status : String
  createdAt : DateTime
  processedAt : Option DateTime
  deriving DecidableEq, Repr

structure AnalyticsItem where
  eventName : String
  occurredAt : DateTime
  deriving DecidableEq, Repr

structure Omission where
  category : String
  reason : String
  deriving DecidableEq, Repr

structure PersonalDataExport where
  schemaVersion : String
  generatedAt : String
  subjectId : Int
  dataCategories : List String
  profile : ProfileSection
  settings : SettingsSection
  renterProfile : Option RenterProfileSection
  activity : List ActivityItem
  rentals : List RentalItem
  consents : ConsentsSection
  marketingMessages : List MarketingItem
  analyticsEvents : List AnalyticsItem
  omissions : List Omission
  deriving DecidableEq, Repr

/-! ## Sections from rows, by the attributes that the schemas name -/

def ProfileSection.modelValidate (u : User) : ProfileSection :=
  { id := u.id, email := u.email, fullName := u.fullName, phone := u.phone, createdAt := u.createdAt }

def RenterProfileSection.modelValidate (r : Renter) : RenterProfileSection :=
  { id := r.id, fullName := r.fullName, licenseNumber := r.licenseNumber }

def ActivityItem.modelValidate (a : UserActivity) : ActivityItem :=
  { action := a.action, occurredAt := a.occurredAt, ipAddress := a.ipAddress, userAgent := a.userAgent }

def RentalItem.modelValidate (r : Rental) : RentalItem :=
  { id := r.id, vehicleId := r.vehicleId, startStationId := r.startStationId,
    endStationId := r.endStationId, startedAt := r.startedAt, endedAt := r.endedAt,
    status := r.status.value }

def ConsentCurrentItem.modelValidate (c : UserConsent) : ConsentCurrentItem :=
  { purpose := c.purpose, status := c.status, policyVersion := c.policyVersion,
    grantedAt := c.grantedAt, withdrawnAt := c.withdrawnAt, updatedAt := c.updatedAt,
    source := c.source }

def ConsentHistoryItem.modelValidate (h : ConsentHistory) : ConsentHistoryItem :=
  { purpose := h.purpose, action := h.action, policyVersion := h.policyVersion, source := h.source,
    occurredAt := h.occurredAt }

def MarketingItem.modelValidate (m : MarketingMessage) : MarketingItem :=
  { campaign := m.campaign, status := m.status.value, createdAt := m.createdAt,
    processedAt := m.processedAt }

def AnalyticsItem.modelValidate (e : AnalyticsEvent) : AnalyticsItem :=
  { eventName := e.eventName, occurredAt := e.occurredAt }

/-! ## `export_service` -/

def exportSchemaVersion : String := "1.0"

def dataCategories : List String :=
  ["profile", "settings", "renter_profile", "activity", "rentals", "consents", "marketing_messages",
    "analytics_events"]

def omissions : List Omission :=
  [{ category := "credentials"
     reason := "Password hash and tokens are security data, not personal data of the subject." },
   { category := "telemetry"
     reason := "Vehicle telemetry describes vehicles and is not linked to a subject." },
   { category := "audit_events"
     reason := "Audit trail holds only ids and results, kept for accountability." }]

/-- A decimal numeral of at least `n` digits. -/
def zeroPadded (n value : Nat) : String :=
  let digits := Nat.toDigits 10 value
  String.ofList (List.replicate (n - digits.length) '0' ++ digits)

/-- Year, month and day of a day that is counted from the epoch, in the proleptic Gregorian calendar. -/
def civilDate (day : Int) : Int × Nat × Nat :=
  let z := day + 719468
  let era := z.fdiv 146097
  let doe := (z - era * 146097).toNat
  let yoe := (doe - doe / 1460 + doe / 36524 - doe / 146096) / 365
  let doy := doe - (365 * yoe + yoe / 4 - yoe / 100)
  let mp := (5 * doy + 2) / 153
  let month := if mp < 10 then mp + 3 else mp - 9
  (yoe + era * 400 + (if month ≤ 2 then 1 else 0), month, doy - (153 * mp + 2) / 5 + 1)

/-- `utc_iso`: `%Y-%m-%dT%H:%M:%S.%f` without the last three digits, and `Z`. -/
def utcIso (moment : DateTime) : String :=
  let ms := moment.fdiv 1000
  let (year, month, day) := civilDate (ms.fdiv 86400000)
  let rest := (ms.fmod 86400000).toNat
  let date := s!"{zeroPadded 4 year.toNat}-{zeroPadded 2 month}-{zeroPadded 2 day}"
  let time := s!"{zeroPadded 2 (rest / 3600000)}:{zeroPadded 2 (rest / 60000 % 60)}"
  s!"{date}T{time}:{zeroPadded 2 (rest / 1000 % 60)}.{zeroPadded 3 (rest % 1000)}Z"

/-- `_all` over a `SELECT` with this condition, in the order of the ids. -/
def all {ρ : Type} [Keyed ρ] (table : Database → Table ρ) (p : ρ → Bool) : Db (List ρ) := do
  return (table (← Tx.select)).rows.filter p

def rentalsOf (renter : Option Renter) : Db (List Rental) :=
  match renter with
  | none => pure []
  | some renter => all Database.rentals fun r => r.renterId = renter.id

def buildExport (subject : User) : Db PersonalDataExport := do
  let uid := subject.id
  let renter ← scalarOneOrNone (← all Database.renters fun r => r.userId = some uid)
  let activity ← all Database.userActivity fun a => a.userId = uid
  let marketing ← all Database.marketingMessages fun m => m.userId = uid
  let analytics ← all Database.analyticsEvents fun e => e.userId = uid
  let history ← listHistory uid
  let generatedAt := utcIso (← now)
  let rentals ← rentalsOf renter
  let current ← listCurrent uid
  pure {
    schemaVersion := exportSchemaVersion
    generatedAt
    subjectId := uid
    dataCategories
    profile := .modelValidate subject
    settings := {
      role := subject.role.value
      isActive := subject.isActive
      anonymized := subject.anonymizedAt.isSome }
    renterProfile := renter.map .modelValidate
    activity := activity.map .modelValidate
    rentals := rentals.map .modelValidate
    consents := {
      current := current.map .modelValidate
      history := history.map .modelValidate }
    marketingMessages := marketing.map .modelValidate
    analyticsEvents := analytics.map .modelValidate
    omissions }

end FleetManagement
