import FleetManagement.Privacy.Values

/-!
# Log records

`fleet_management.privacy.logging_setup`: a record is sanitized in place before any handler writes it.
-/

namespace FleetManagement

inductive LogArgs where
  | none
  | tuple (items : List PyValue)
  | dict (items : List (PyValue × PyValue))

/-- What the layer reads of a record. -/
structure LogRecord where
  name : Text
  levelname : Text
  /-- The time of the record, in the format of ISO 8601. -/
  created : Text
  msg : Text
  args : LogArgs := .none
  /-- The traceback of `exc_info`. -/
  excInfo : Option Text := none
  excText : Option Text := none
  stackInfo : Option Text := none
  correlationId : PyValue := .none
  /-- `_pii_sanitized` -/
  piiSanitized : PyValue := .bool false
  /-- The attributes that `extra` adds. -/
  extra : List (Text × PyValue) := []
  /-- What `extra` adds under keys that are no strings, in the order of `sorted`. -/
  unnamed : List (PyValue × PyValue) := []

/-- The truth of a value. -/
def truthy : PyValue → Bool
  | .none => false
  | .bool b => b
  | .int n => n != 0
  | .float repr _ => !(["0.0".toList, "-0.0".toList].contains repr)
  | .str s => !s.isEmpty
  | .dict items => !items.isEmpty
  | .list items | .tuple items | .namedTuple _ _ _ items | .set items | .frozenset items => !items.isEmpty
  | _ => true

def LogArgs.truthy : LogArgs → Bool
  | .none => false
  | .tuple items => !items.isEmpty
  | .dict items => !items.isEmpty

/-! ## Messages -/

section Sanitizing
variable (t : TextTables)

/-- `msg % args` -/
def LogArgs.format (msg : Text) : LogArgs → Except PyError Text
  | .none => .ok msg
  | .tuple items => PyFormat.formatTuple t.isPrintable t.number msg items
  | .dict items => PyFormat.formatDict t.isPrintable t.number msg items

def LogRecord.getMessage (record : LogRecord) : Except PyError Text :=
  if record.args.truthy then record.args.format t record.msg else .ok record.msg

/-- `_safe_message` -/
def safeMessage (record : LogRecord) : Except PyError Text :=
  match record.getMessage t with
  | .error .typeError | .error .valueError => .ok record.msg
  | result => result

/-! ## Sanitizing -/

/-- `_sanitize_args` -/
def sanitizeArgs : LogArgs → Except PyError LogArgs
  | .dict items => return .dict (← sanitizeItems t items)
  | .tuple items => return .tuple (← sanitizeValues t items)
  | .none => return .none

/-- What the record's arguments are when the message is formatted. -/
def cleanArgs (args : LogArgs) : Except PyError LogArgs :=
  if args.truthy then sanitizeArgs t args else return args

/-- `_sanitize_extra`, where the value of the key in the sanitized dictionary is the sanitized item. -/
def sanitizeExtra (key : Text) (value : PyValue) : Except PyError PyValue := do
  match ← sanitizeItem t key value with
  | .exception object => return .str (sanitizeText t.toCharTables object.str)
  | cleaned => return cleaned

def sanitizeExtras : List (Text × PyValue) → Except PyError (List (Text × PyValue))
  | [] => return []
  | (key, value) :: extra => return (key, ← sanitizeExtra t key value) :: (← sanitizeExtras extra)

/-- Keys that are no strings cannot be sorted with strings, nor be set as attributes. -/
def LogRecord.setUnnamed (record : LogRecord) : Except PyError Unit :=
  match record.unnamed with
  | [] => return ()
  | (key, value) :: _ => do
      if record.extra.isEmpty then let _ ← sanitizeExtra t (keyText t key) value
      throw .typeError

/-- Which identifier the record gets, where `context` is that of the request. -/
def LogRecord.correlation (context : Option Text) (record : LogRecord) : PyValue :=
  if truthy record.correlationId then record.correlationId
  else
    match context with
    | some id => if id = [] then .str "-".toList else .str id
    | none => .str "-".toList

def sanitizeRecord (context : Option Text) (record : LogRecord) : Except PyError LogRecord := do
  let record := { record with correlationId := record.correlation context }
  if truthy record.piiSanitized then return record
  let args ← cleanArgs t record.args
  let message ← safeMessage t { record with args }
  let text := sanitizeText t.toCharTables
  let raw := match record.excText with
    | some s => if s = [] then record.excInfo else some s
    | none => record.excInfo
  record.setUnnamed t
  let extra ← sanitizeExtras t record.extra
  return { record with
    msg := text message
    args := .none
    excText := if raw.isSome then raw.map text else record.excText
    stackInfo := record.stackInfo.map fun s => if s = [] then s else text s
    extra := extra
    piiSanitized := .bool true }

end Sanitizing

end FleetManagement
