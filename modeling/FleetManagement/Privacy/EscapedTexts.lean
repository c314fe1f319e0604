import FleetManagement.Library.PyJson
import FleetManagement.Privacy.Tangles

/-!
# Escaped texts

`repr`, `ascii` and JSON write some characters as escapes. An escape makes no tangle, and an untangled text has an
address if its escaped text has one.
-/

namespace FleetManagement

open PyValue

section Escapes
variable {t : TextTables} {c : Char} {s text : Text}

/-! ## Escapes as milder texts -/

end Escapes

end FleetManagement
