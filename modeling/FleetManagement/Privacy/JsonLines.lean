import FleetManagement.Library.PyDict
import FleetManagement.Library.PyJson
import FleetManagement.Privacy.LogRecords
import Mathlib.Data.Char
import Mathlib.Data.List.Lex
import Mathlib.Data.List.Sort

/-!
# JSON log lines

`JsonSanitizingFormatter` of `fleet_management.privacy.logging_setup`, and the records that `logging` makes.
-/

namespace FleetManagement

/-! ## Making records -/

/-- The attributes of a fresh record. -/
def recordAttrs : List Text :=
  ["name", "msg", "args", "levelname", "levelno", "pathname", "filename", "module", "exc_info", "exc_text",
    "stack_info", "lineno", "funcName", "created", "msecs", "relativeCreated", "thread", "threadName",
    "processName", "process", "taskName"].map String.toList

/-- What a call of a logger passes on. A traceback has at least the line of its exception. -/
structure LogCall where
  name : Text
  levelname : Text
  created : Text
  msg : Text
  /-- The arguments as `LogRecord` keeps them: a single mapping is taken out of its tuple. -/
  args : LogArgs := .none
  excInfo : Option { s : Text // s ≠ [] } := none
  stackInfo : Option Text := none
  extra : List (Text × PyValue) := []
  distinct : (extra.map Prod.fst).Nodup
  /-- The items of `extra` under keys that are no strings. -/
  unnamed : List (PyValue × PyValue) := []

def LogCall.record (call : LogCall) : LogRecord where
  name := call.name
  levelname := call.levelname
  created := call.created
  msg := call.msg
  args := call.args
  excInfo := call.excInfo.map Subtype.val
  stackInfo := call.stackInfo
  unnamed := call.unnamed

/-- The names of attributes that the layer itself gives a record. -/
def ownAttrs : List Text := ["correlation_id", "_pii_sanitized"].map String.toList

/-- `rv.__dict__[key] = value` -/
def LogRecord.setAttr (record : LogRecord) (key : Text) (value : PyValue) : LogRecord :=
  if key = "correlation_id".toList then { record with correlationId := value }
  else if key = "_pii_sanitized".toList then { record with piiSanitized := value }
  else { record with extra := record.extra ++ [(key, value)] }

def addExtra (record : LogRecord) : List (Text × PyValue) → Except PyError LogRecord
  | [] => return record
  | (key, value) :: extra =>
      if key = "message".toList ∨ key = "asctime".toList ∨ key ∈ recordAttrs then throw .keyError
      else addExtra (record.setAttr key value) extra

/-- `Logger.makeRecord` -/
def makeRecord (call : LogCall) : Except PyError LogRecord := addExtra call.record call.extra

/-! ## Formatting -/

section Formatting
variable (t : TextTables)

/-- The fields that every line has. -/
def LogRecord.fields (record : LogRecord) (message : Text) : List (Text × PyValue) :=
  [("timestamp".toList, .str record.created), ("level".toList, .str record.levelname),
    ("logger".toList, .str record.name), ("correlation_id".toList, record.correlationId),
    ("message".toList, .str message)]

/-- The extras in the order of `_extra_keys`. -/
def LogRecord.extraItems (record : LogRecord) : List (Text × PyValue) :=
  record.extra.mergeSort fun p q => decide (p.1 ≤ q.1)

def LogRecord.exceptionItems (record : LogRecord) : List (Text × PyValue) :=
  match record.excText with
  | some s => if s = [] then [] else [("exception".toList, .str s)]
  | none => []

def LogRecord.payload (record : LogRecord) (message : Text) : List (Text × PyValue) :=
  PyDict.update (PyDict.update (record.fields message) record.extraItems) record.exceptionItems

def named (items : List (Text × PyValue)) : List (PyValue × PyValue) := items.map fun p => (.str p.1, p.2)

/-- The payload with what has no name. Strings and other keys cannot be sorted together. -/
def LogRecord.lineItems (record : LogRecord) (message : Text) : Except PyError (List (PyValue × PyValue)) :=
  if record.unnamed.isEmpty then return named (record.payload message)
  else if record.extra.isEmpty then
    return named (record.fields message) ++ record.unnamed ++ named record.exceptionItems
  else throw .typeError

/-- The members of the JSON object of a line. -/
def jsonMembers (context : Option Text) (record : LogRecord) : Except PyError (List (Text × Json)) := do
  let record ← sanitizeRecord t context record
  let message ← record.getMessage t
  PyValue.itemsToJson t.isPrintable (← record.lineItems message)

/-- `JsonSanitizingFormatter.format` -/
def formatJson (context : Option Text) (record : LogRecord) : Except PyError Text :=
  return Json.dumps false (.obj (← jsonMembers t context record))

end Formatting

end FleetManagement
