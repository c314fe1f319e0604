import FleetManagement.Library.Json
import FleetManagement.Library.PyValue
import Mathlib.Data.List.Forall2

/-!
# Values as JSON

What `json.dumps` with `default=str` makes of a value.
-/

namespace PyValue

/-- `float.__repr__` with the names that JSON texts have for what is not finite. -/
def floatText (repr : List Char) : PyFloat → List Char
  | .finite => repr
  | .infinite => if repr.head? = some '-' then "-Infinity".toList else "Infinity".toList
  | .nan => "NaN".toList

/-- The text of a dictionary's key. -/
def keyJson : PyValue → Except PyError (List Char)
  | .str s => .ok s
  | .float repr kind => .ok (floatText repr kind)
  | .bool b => .ok (if b then "true".toList else "false".toList)
  | .none => .ok "null".toList
  | .int n => .ok (toString n).toList
  | _ => .error .typeError

section Encoding
variable (isPrintable : Char → Bool)

mutual
def toJson : PyValue → Except PyError Json
  | .none => .ok .null
  | .bool b => .ok (.bool b)
  | .int n => .ok (.int n)
  | .float repr kind => .ok (.float (floatText repr kind))
  | .str s => .ok (.str s)
  | .dict items => return .obj (← itemsToJson items)
  | .list items | .tuple items | .namedTuple _ _ _ items => return .arr (← allToJson items)
  | .exception object | .dataclass object _ | .model object _ => .ok (.str object.str)
  | .set items => .ok (.str (repr isPrintable (.set items)))
  | .frozenset items => .ok (.str (repr isPrintable (.frozenset items)))
  | .generator => .ok (.str (repr isPrintable .generator))

def allToJson : List PyValue → Except PyError (List Json)
  | [] => return []
  | v :: vs => return (← toJson v) :: (← allToJson vs)

def itemsToJson : List (PyValue × PyValue) → Except PyError (List (List Char × Json))
  | [] => return []
  | (k, v) :: items => return (← keyJson k, ← toJson v) :: (← itemsToJson items)
end

end Encoding

/-! ## Elements -/

variable {isPrintable : Char → Bool}

theorem allToJson_ok {vs : List PyValue} {js : List Json} :
    allToJson isPrintable vs = .ok js ↔ List.Forall₂ (fun v j => toJson isPrintable v = .ok j) vs js := by
  refine listed_ok (by rw [allToJson]; rfl) fun v vs js => ?_
  rw [allToJson, bind_ok]
  constructor
  · rintro ⟨j, hj, h⟩
    obtain ⟨js', hjs, h⟩ := bind_ok.mp h
    exact ⟨j, js', hj, hjs, (Except.ok.inj h).symm⟩
  · rintro ⟨j, js', hj, hjs, rfl⟩
    exact ⟨j, hj, bind_ok.mpr ⟨js', hjs, rfl⟩⟩

theorem itemsToJson_ok {items : List (PyValue × PyValue)} {members : List (List Char × Json)} :
    itemsToJson isPrintable items = .ok members ↔ List.Forall₂
      (fun p m => keyJson p.1 = .ok m.1 ∧ toJson isPrintable p.2 = .ok m.2) items members := by
  refine listed_ok (by rw [itemsToJson]; rfl) fun p items members => ?_
  obtain ⟨k, v⟩ := p
  rw [itemsToJson, bind_ok]
  constructor
  · rintro ⟨key, hkey, h⟩
    obtain ⟨j, hj, h⟩ := bind_ok.mp h
    obtain ⟨members', hmembers, h⟩ := bind_ok.mp h
    exact ⟨(key, j), members', ⟨hkey, hj⟩, hmembers, (Except.ok.inj h).symm⟩
  · rintro ⟨⟨key, j⟩, members', ⟨hkey, hj⟩, hmembers, rfl⟩
    exact ⟨key, hkey, bind_ok.mpr ⟨j, hj, bind_ok.mpr ⟨members', hmembers, rfl⟩⟩⟩

end PyValue
