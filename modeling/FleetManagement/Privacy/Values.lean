import FleetManagement.Library.PyFormat
import FleetManagement.Privacy.Sanitizer

/-!
# Sanitizing values

`fleet_management.privacy.sanitizer` on nested structures.
-/

namespace FleetManagement

/-- What strings take from the Unicode tables besides, and the texts of numbers. -/
structure TextTables extends CharTables where
  lower : Text → Text
  isPrintable : Char → Bool
  number : PyFormat.Spec → Char → PyValue → Text
  lower_ascii : ∀ s : Text, (∀ c ∈ s, c.toNat < 128) → lower s = s.map Char.toLower
  printable_ascii : ∀ c : Char, c.toNat < 128 → isPrintable c = (32 ≤ c.toNat && c.toNat != 127)

/-- `_NAME_KEYS` -/
def nameKeys : List Text :=
  ["full_name", "first_name", "last_name", "license_number"].map String.toList

section Values
variable (t : TextTables)

def isSecretKey (key : Text) : Bool := (secretKeyRe t.toCharTables).fullmatch key

def isNameKey (key : Text) : Bool := nameKeys.contains (t.lower key)

/-- `str` of a dictionary's key. -/
def keyText (k : PyValue) : Text := k.toStr t.isPrintable

mutual
def sanitizeItem (key : Text) (value : PyValue) : Except PyError PyValue :=
  if isSecretKey t key then return .str redacted
  else
    match value with
    | .str s => if isNameKey t key then return .str (maskName s) else sanitizeValue (.str s)
    | value => sanitizeValue value
termination_by 2 * value.weight + 1

def sanitizeValue (value : PyValue) : Except PyError PyValue :=
  match value with
  | .str s => return .str (sanitizeText t.toCharTables s)
  | .dict items => return .dict (← sanitizeItems items)
  | .list items => return .list (← sanitizeValues items)
  | .tuple items => return .tuple (← sanitizeValues items)
  -- The only argument is a generator that has not run.
  | .namedTuple name fields defaults _ => PyValue.construct name fields defaults [.generator]
  | .set items => do return .set (← PyValue.distinct (← sanitizeValues items))
  | .frozenset items => do return .frozenset (← PyValue.distinct (← sanitizeValues items))
  | .model _ (.ok dump) => sanitizeValue dump
  | .model _ (.error e) => throw e
  | .dataclass object fields =>
      match _h : PyValue.asdict (.dataclass object fields) with
      | .ok d => sanitizeValue d
      | .error e => throw e
  | value => return value
termination_by 2 * value.weight
decreasing_by
  all_goals simp only [PyValue.weight]
  · omega
  · omega
  · omega
  · omega
  · omega
  · omega
  · have := PyValue.weight_asdict_dataclass _h
    simp only [PyValue.weight] at this
    omega

def sanitizeValues (values : List PyValue) : Except PyError (List PyValue) :=
  match values with
  | [] => return []
  | v :: vs => return (← sanitizeValue v) :: (← sanitizeValues vs)
termination_by 2 * PyValue.allWeight values
decreasing_by
  all_goals
    simp only [PyValue.allWeight]
    have := PyValue.weight_pos v
    have := PyValue.allWeight_pos vs
    omega

def sanitizeItems (items : List (PyValue × PyValue)) : Except PyError (List (PyValue × PyValue)) :=
  match items with
  | [] => return []
  | (k, v) :: items => return (k, ← sanitizeItem (keyText t k) v) :: (← sanitizeItems items)
termination_by 2 * PyValue.itemsWeight items
decreasing_by
  all_goals
    simp only [PyValue.itemsWeight]
    have := PyValue.weight_pos k
    have := PyValue.itemsWeight_pos items
    omega
end

/-! ## One step -/

variable {t : TextTables} {key : Text} {v : PyValue}

theorem sanitizeItem_secret (h : isSecretKey t key = true) : sanitizeItem t key v = .ok (.str redacted) := by
  rw [sanitizeItem.eq_def, if_pos h]
  rfl

theorem sanitizeItem_name {s : Text} (hno : isSecretKey t key = false) (h : isNameKey t key = true) :
    sanitizeItem t key (.str s) = .ok (.str (maskName s)) := by
  rw [sanitizeItem.eq_def, hno, h]
  rfl

theorem sanitizeItem_other (hno : isSecretKey t key = false) (h : isNameKey t key = true → ∀ s, v ≠ .str s) :
    sanitizeItem t key v = sanitizeValue t v := by
  rw [sanitizeItem.eq_def, hno]
  cases v with
  | str s =>
      cases hname : isNameKey t key with
      | true => exact absurd rfl (h hname s)
      | false => rfl
  | _ => rfl

theorem sanitizeValue_str (s : Text) : sanitizeValue t (.str s) = .ok (.str (sanitizeText t.toCharTables s)) := by
  rw [sanitizeValue]
  rfl

theorem sanitizeValue_dataclass (object : PyInstance) (fields : List (Text × PyValue)) :
    sanitizeValue t (.dataclass object fields) =
      (PyValue.asdict (.dataclass object fields) >>= sanitizeValue t) := by
  rw [sanitizeValue]
  split
  · rename_i d hd
    rw [hd]
    rfl
  · rename_i e he
    rw [he]
    rfl

end Values

/-! ## The tables of ASCII -/

def asciiText : TextTables where
  toCharTables := asciiTables
  lower s := s.map Char.toLower
  isPrintable c := 32 ≤ c.toNat && c.toNat != 127
  number _ _ v := v.repr fun _ => true
  lower_ascii _ _ := rfl
  printable_ascii _ _ := rfl

end FleetManagement
