import FleetManagement.Library.Table

/-!
# The mapped classes

One structure for each table of `fleet_management.models`, with the columns of the table. Floating-point
columns are modelled by rationals and timestamps by the microseconds since the epoch.
-/

namespace FleetManagement

/-- A `datetime`, in microseconds since the epoch. -/
abbrev DateTime := Int

inductive VehicleStatus where
  | available | rented | maintenance
  deriving DecidableEq, Repr

inductive RentalStatus where
  | active | completed | cancelled
  deriving DecidableEq, Repr

inductive UserRole where
  | admin | user
  deriving DecidableEq, Repr

inductive ConsentPurpose where
  | marketingEmail | optionalAnalytics | personalization
  deriving DecidableEq, Repr

def ConsentPurpose.value : ConsentPurpose → String
  | .marketingEmail => "MARKETING_EMAIL"
  | .optionalAnalytics => "OPTIONAL_ANALYTICS"
  | .personalization => "PERSONALIZATION"

inductive ConsentStatus where
  | granted | withdrawn
  deriving DecidableEq, Repr

inductive ConsentAction where
  | grant | revoke
  deriving DecidableEq, Repr

inductive MarketingStatus where
  | queued | sent | skipped
  deriving DecidableEq, Repr

/-! ## Fleet tables -/

structure Station where
  id : Int
  address : String
  capacity : Int
  deriving DecidableEq, Repr

structure Vehicle where
  id : Int
  licensePlate : String
  model : String
  status : VehicleStatus
  stationId : Int
  deriving DecidableEq, Repr

structure Renter where
  id : Int
  fullName : String
  licenseNumber : String
  userId : Option Int
  deriving DecidableEq, Repr

structure Rental where
  id : Int
  renterId : Int
  vehicleId : Int
  startStationId : Int
  endStationId : Option Int
  startedAt : DateTime
  endedAt : Option DateTime
  status : RentalStatus
  deriving DecidableEq, Repr

structure TelemetryReading where
  id : Int
  vehicleId : Int
  recordedAt : DateTime
  latitude : Rat
  longitude : Rat
  fuelLevel : Rat
  isLocked : Bool
  deriving DecidableEq, Repr

/-! ## Account and privacy tables -/

structure User where
  id : Int
  email : String
  hashedPassword : String
  fullName : String
  role : UserRole
  phone : Option String
  isActive : Bool
  createdAt : DateTime
  anonymizedAt : Option DateTime
  deriving DecidableEq, Repr

/-- The current consent state: one row for each user and purpose. -/
structure UserConsent where
  id : Int
  userId : Int
  purpose : ConsentPurpose
  status : ConsentStatus
  policyVersion : String
  grantedAt : Option DateTime
  withdrawnAt : Option DateTime
  updatedAt : DateTime
  source : String
  deriving DecidableEq, Repr

structure ConsentHistory where
  id : Int
  userId : Int
  purpose : ConsentPurpose
  action : ConsentAction
  policyVersion : String
  source : String
  occurredAt : DateTime
  deriving DecidableEq, Repr

structure UserActivity where
  id : Int
  userId : Int
  action : String
  occurredAt : DateTime
  ipAddress : Option String
  userAgent : Option String
  deriving DecidableEq, Repr

structure AuditEvent where
  id : Int
  eventType : String
  actorId : Option Int
  subjectId : Option Int
  result : String
  correlationId : String
  occurredAt : DateTime
  deriving DecidableEq, Repr

structure MarketingMessage where
  id : Int
  userId : Int
  campaign : String
  status : MarketingStatus
  createdAt : DateTime
  processedAt : Option DateTime
  deriving DecidableEq, Repr

structure AnalyticsEvent where
  id : Int
  userId : Int
  eventName : String
  occurredAt : DateTime
  deriving DecidableEq, Repr

/-! ## Primary keys -/

/-- The largest value of an `INTEGER` column. -/
def maxInteger : Nat := 2147483647

instance : Keyed Station := ⟨(·.id), maxInteger⟩
instance : Keyed Vehicle := ⟨(·.id), maxInteger⟩
instance : Keyed Renter := ⟨(·.id), maxInteger⟩
instance : Keyed Rental := ⟨(·.id), maxInteger⟩
instance : Keyed TelemetryReading := ⟨(·.id), 9223372036854775807⟩
instance : Keyed User := ⟨(·.id), maxInteger⟩
instance : Keyed UserConsent := ⟨(·.id), maxInteger⟩
instance : Keyed ConsentHistory := ⟨(·.id), maxInteger⟩
instance : Keyed UserActivity := ⟨(·.id), maxInteger⟩
instance : Keyed AuditEvent := ⟨(·.id), maxInteger⟩
instance : Keyed MarketingMessage := ⟨(·.id), maxInteger⟩
instance : Keyed AnalyticsEvent := ⟨(·.id), maxInteger⟩

end FleetManagement
