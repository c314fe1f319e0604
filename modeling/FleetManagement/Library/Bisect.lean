import Mathlib.Data.List.Sort

/-!
# Bisection

The insertion point of a value in a sorted list, found by halving.
-/

namespace Bisect

variable {α : Type*} [LinearOrder α] {a : List α} {x : α} {lo hi : Nat}

end Bisect
