import FleetManagement.Models
import Mathlib.Algebra.Order.Field.Rat

/-!
# Telemetry messages

`telemetry.schemas`. What pydantic does with a body and with a single JSON value is a parameter; the
fields, their bounds and the ban on other fields are those of `TelemetryMessage`.
-/

namespace FleetManagement

/-- `datetime.min` and `datetime.max`. -/
def datetimeMin : DateTime := -62135596800000000

def datetimeMax : DateTime := 253402300799999999

def oneDay : Int := 86400000000

/-- An aware `datetime`: the time that its clock shows, and the offset of the clock from UTC. -/
structure AwareDatetime where
  localTime : DateTime
  offset : Int
  localTime_range : datetimeMin ≤ localTime ∧ localTime ≤ datetimeMax
  offset_range : -oneDay < offset ∧ offset < oneDay
  deriving DecidableEq

/-- Aware datetimes are compared as instants, which need not be in the range of `datetime`. -/
def AwareDatetime.instant (t : AwareDatetime) : DateTime := t.localTime - t.offset

/-- The instant is a `datetime` in UTC. -/
def representable (i : DateTime) : Bool := datetimeMin ≤ i ∧ i ≤ datetimeMax

structure TelemetryMessage where
  vehicleId : Int
  recordedAt : AwareDatetime
  latitude : Rat
  longitude : Rat
  fuelLevel : Rat
  isLocked : Bool
  vehicleId_pos : 0 < vehicleId
  latitude_range : -90 ≤ latitude ∧ latitude ≤ 90
  longitude_range : -180 ≤ longitude ∧ longitude ≤ 180
  fuelLevel_range : 0 ≤ fuelLevel ∧ fuelLevel ≤ 100
  deriving DecidableEq

/-- What pydantic makes of a body and of the values in it; `none` is a validation error. -/
structure Pydantic (Body Json : Type) where
  /-- The members of the JSON object that the body holds. -/
  loads : Body → Option (List (String × Json))
  int : Json → Option Int
  awareDatetime : Json → Option AwareDatetime
  float : Json → Option Rat
  bool : Json → Option Bool

namespace TelemetryMessage

def modelFields : List String :=
  ["vehicle_id", "recorded_at", "latitude", "longitude", "fuel_level", "is_locked"]

variable {Body Json : Type} (pydantic : Pydantic Body Json)

def modelValidateJson (body : Body) : Option TelemetryMessage := do
  let members ← pydantic.loads body
  let vehicleId ← members.lookup "vehicle_id" >>= pydantic.int
  let recordedAt ← members.lookup "recorded_at" >>= pydantic.awareDatetime
  let latitude ← members.lookup "latitude" >>= pydantic.float
  let longitude ← members.lookup "longitude" >>= pydantic.float
  let fuelLevel ← members.lookup "fuel_level" >>= pydantic.float
  let isLocked ← members.lookup "is_locked" >>= pydantic.bool
  if h : 0 < vehicleId ∧ (-90 ≤ latitude ∧ latitude ≤ 90) ∧ (-180 ≤ longitude ∧ longitude ≤ 180) ∧
      (0 ≤ fuelLevel ∧ fuelLevel ≤ 100) ∧ ∀ m ∈ members, m.1 ∈ modelFields then
    some ⟨vehicleId, recordedAt, latitude, longitude, fuelLevel, isLocked, h.1, h.2.1, h.2.2.1,
      h.2.2.2.1⟩
  else none

/-- A message has the members of its body, and no others are there. -/
theorem modelValidateJson_some {pydantic : Pydantic Body Json} {body : Body} {m : TelemetryMessage}
    (h : modelValidateJson pydantic body = some m) :
    ∃ members, pydantic.loads body = some members ∧
      members.lookup "vehicle_id" >>= pydantic.int = some m.vehicleId ∧
      members.lookup "recorded_at" >>= pydantic.awareDatetime = some m.recordedAt ∧
      members.lookup "latitude" >>= pydantic.float = some m.latitude ∧
      members.lookup "longitude" >>= pydantic.float = some m.longitude ∧
      members.lookup "fuel_level" >>= pydantic.float = some m.fuelLevel ∧
      members.lookup "is_locked" >>= pydantic.bool = some m.isLocked ∧
      ∀ e ∈ members, e.1 ∈ modelFields := by
  unfold modelValidateJson at h
  obtain ⟨members, hmembers, h⟩ := Option.bind_eq_some_iff.mp h
  obtain ⟨vehicleId, hvehicleId, h⟩ := Option.bind_eq_some_iff.mp h
  obtain ⟨recordedAt, hrecordedAt, h⟩ := Option.bind_eq_some_iff.mp h
  obtain ⟨latitude, hlatitude, h⟩ := Option.bind_eq_some_iff.mp h
  obtain ⟨longitude, hlongitude, h⟩ := Option.bind_eq_some_iff.mp h
  obtain ⟨fuelLevel, hfuelLevel, h⟩ := Option.bind_eq_some_iff.mp h
  obtain ⟨isLocked, hisLocked, h⟩ := Option.bind_eq_some_iff.mp h
  split at h
  · rename_i hvalid
    cases h
    exact ⟨members, hmembers, hvehicleId, hrecordedAt, hlatitude, hlongitude, hfuelLevel, hisLocked,
      hvalid.2.2.2.2⟩
  · cases h

end TelemetryMessage

end FleetManagement
