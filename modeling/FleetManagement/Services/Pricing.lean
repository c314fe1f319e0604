import FleetManagement.Library.Bisect
import Mathlib.Algebra.Order.Field.Rat

/-!
# Discounts

The pricing of `rental_service`: tables that map evaluated conditions to amounts. A key that is missing in
a table read with `[...]` raises `KeyError`, which is `none` here.
-/

namespace FleetManagement

/-- A `dict`, whose first entry for a key counts. -/
abbrev Lookup (κ ν : Type) := List (κ × ν)

structure DiscountContext where
  rentalCount : Int
  isVip : Bool
  vehicleType : String
  stationZones : List String
  hasCoupon : Bool
  isWeekend : Bool
  isHoliday : Bool
  isCorporate : Bool := false
  isNight : Bool := false
  tripHours : Rat := 0
  isBirthday : Bool := false
  returnedCharged : Bool := false

abbrev Amount := DiscountContext → Option Int

/-- The values of a rule's conditions, in its order. -/
abbrev ConditionKey := DiscountContext → List Bool

def flat (amount : Int) : Amount := fun _ => some amount

def noDiscount : Amount := flat 0

structure SurchargeRule where
  key : ConditionKey
  /-- The keys that earn a discount. -/
  table : Lookup (List Bool) Amount

def SurchargeRule.amount (rule : SurchargeRule) : Amount := fun c =>
  (rule.table.lookup (rule.key c)).getD noDiscount c

end FleetManagement
