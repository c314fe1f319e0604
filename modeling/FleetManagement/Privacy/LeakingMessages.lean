import FleetManagement.Privacy.EscapedTexts
import FleetManagement.Privacy.FaithfulLines

/-!
# Messages of untangled records

The message is formatted with the sanitized arguments and sanitized as a whole. What the arguments can add to a
tangle is told by the message in which each of them is an `@` or nothing.
-/

namespace FleetManagement

open PyFormat

/-! ## Templates -/

section Templates
variable (t : TextTables)

def LogArgs.allTexts (p : Text → Bool) : LogArgs → Bool
  | .none => true
  | .tuple items => PyValue.everyTexts p items
  | .dict items => PyValue.itemsTexts p items

end Templates

section Messages
variable {t : TextTables} {key msg text p q : Text} {v r : PyValue} {args args' : LogArgs} {record : LogRecord}

/-! ## Sanitized texts -/

end Messages

end FleetManagement
