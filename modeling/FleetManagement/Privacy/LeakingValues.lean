import FleetManagement.Library.JsonText
import FleetManagement.Privacy.EscapedTexts
import FleetManagement.Privacy.WritableValues

/-!
# Values that leak an address

In which values an address stays readable. No text that is sanitized leaks it, unless it is tangled; what leaks it
is what is written without being sanitized.
-/

namespace FleetManagement

/-- The JSON text of the string has the word. -/
def ShownIn (a s : Text) : Prop := a <:+: s.flatMap (Json.escape false)

instance (a s : Text) : Decidable (ShownIn a s) :=
  inferInstanceAs (Decidable (a <:+: s.flatMap (Json.escape false)))

/-- The JSON text of the value as it is has the word. -/
def Carries (t : TextTables) (a : Text) (v : PyValue) : Prop :=
  ∃ j, v.toJson t.isPrintable = .ok j ∧ j.Has false a

/-- What leaks from a value within a set, which is written as its text. -/
inductive LeaksRepr (t : TextTables) (a : Text) : PyValue → Prop where
  | float {repr : Text} {kind : PyFloat} (h : ShownIn a repr) : LeaksRepr t a (.float repr kind)
  | exception {object : PyInstance} (h : ShownIn a object.repr) : LeaksRepr t a (.exception object)
  | tuple {items : List PyValue} {v : PyValue} (hv : v ∈ items) (h : LeaksRepr t a v) : LeaksRepr t a (.tuple items)
  | frozenset {items : List PyValue} {v : PyValue} (hv : v ∈ items) (h : LeaksRepr t a v) :
      LeaksRepr t a (.frozenset items)
  /-- The named tuple that its type makes of one argument. -/
  | namedTuple {name : Text} {fields : List Text} {defaults items : List PyValue}
      (h : ShownIn a (PyValue.repr t.isPrintable (.namedTuple name fields defaults
        (.generator :: defaults.drop (1 + defaults.length - fields.length))))) :
      LeaksRepr t a (.namedTuple name fields defaults items)
  | model {object : PyInstance} {dump : PyValue} (h : LeaksRepr t a dump) : LeaksRepr t a (.model object (.ok dump))

/-- What leaks from a value: the texts in it that are written as they are. -/
inductive Leaks (t : TextTables) (a : Text) : PyValue → Prop where
  | float {repr : Text} {kind : PyFloat} (h : a <:+: PyValue.floatText repr kind) : Leaks t a (.float repr kind)
  /-- The text of an exception is written as it is. -/
  | exception {object : PyInstance} (h : ShownIn a object.str) : Leaks t a (.exception object)
  /-- So are the keys of dictionaries, secret or not. -/
  | key {items : List (PyValue × PyValue)} {p : PyValue × PyValue} {key : Text} (hp : p ∈ items)
      (hkey : p.1.keyJson = .ok key) (h : ShownIn a key) : Leaks t a (.dict items)
  | value {items : List (PyValue × PyValue)} {p : PyValue × PyValue} (hp : p ∈ items)
      (hsecret : isSecretKey t (keyText t p.1) = false) (h : Leaks t a p.2) : Leaks t a (.dict items)
  | list {items : List PyValue} {v : PyValue} (hv : v ∈ items) (h : Leaks t a v) : Leaks t a (.list items)
  | tuple {items : List PyValue} {v : PyValue} (hv : v ∈ items) (h : Leaks t a v) : Leaks t a (.tuple items)
  /-- A named tuple keeps the defaults of all its fields but the first. -/
  | namedTuple {name : Text} {fields : List Text} {defaults items : List PyValue} {v : PyValue}
      (hv : v ∈ defaults.drop (1 + defaults.length - fields.length)) (h : Carries t a v) :
      Leaks t a (.namedTuple name fields defaults items)
  | set {items : List PyValue} {v : PyValue} (hv : v ∈ items) (h : LeaksRepr t a v) : Leaks t a (.set items)
  | frozenset {items : List PyValue} {v : PyValue} (hv : v ∈ items) (h : LeaksRepr t a v) :
      Leaks t a (.frozenset items)
  | dataclass {object : PyInstance} {fields : List (Text × PyValue)} {d : PyValue}
      (hd : PyValue.asdict (.dataclass object fields) = .ok d) (h : Leaks t a d) :
      Leaks t a (.dataclass object fields)
  | model {object : PyInstance} {dump : PyValue} (h : Leaks t a dump) : Leaks t a (.model object (.ok dump))

section Leaking
variable {t : TextTables} {a key : Text} {v r : PyValue} {j : Json}

/-! ## Addresses -/

/-- What an item of a dictionary, or an extra, leaks by its value. -/
def LeaksUnder (t : TextTables) (a key : Text) (v : PyValue) : Prop := isSecretKey t key = false ∧ Leaks t a v

end Leaking

end FleetManagement
