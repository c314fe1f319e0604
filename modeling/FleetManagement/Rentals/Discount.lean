import FleetManagement.Services.Pricing
import Mathlib.Algebra.BigOperators.Group.List.Basic

/-!
# Discounts by table and by branches

The tables of `calculate_discount` against the branches that they replaced.
-/

namespace FleetManagement

/-! ## The branches -/

section Rules
variable (c : DiscountContext)

end Rules

/-! ## The whole discount -/

end FleetManagement
