import Mathlib.Algebra.Ring.Nat
import Mathlib.Data.List.Forall2
import Mathlib.Data.List.Basic

/-!
# Values of Python

The values of a program, with what the standard library makes of them: hashes, copies, texts and the
dictionaries of dataclasses. The interpreter's limits on depth and digits are left out.
-/

inductive PyError where
  | typeError
  | valueError
  | keyError
  | overflowError
  deriving DecidableEq

/-- What an object answers to `str`, `repr`, `hash` and `copy.deepcopy`. -/
structure PyInstance where
  str : List Char
  repr : List Char
  hashable : Bool
  copyable : Bool
  deriving DecidableEq

inductive PyFloat where
  | finite
  | infinite
  | nan
  deriving DecidableEq

/-- A set lists its elements in some order; one that is listed twice counts once. -/
inductive PyValue where
  | none
  | bool (b : Bool)
  | int (n : Int)
  | float (repr : List Char) (kind : PyFloat)
  | str (s : List Char)
  | exception (object : PyInstance)
  | dict (items : List (PyValue × PyValue))
  | list (items : List PyValue)
  | tuple (items : List PyValue)
  /-- With the names of the fields and the defaults of the last ones. -/
  | namedTuple (name : List Char) (fields : List (List Char)) (defaults items : List PyValue)
  | set (items : List PyValue)
  | frozenset (items : List PyValue)
  | dataclass (object : PyInstance) (fields : List (List Char × PyValue))
  /-- An object with the answer of its `model_dump`. -/
  | model (object : PyInstance) (dump : Except PyError PyValue)
  | generator

namespace PyValue

/-! ## Hashes and copies -/

mutual
/-- `hash` succeeds. -/
def hashable : PyValue → Bool
  | .dict _ | .list _ | .set _ => false
  | .tuple items | .namedTuple _ _ _ items => allHashable items
  | .exception object | .dataclass object _ | .model object _ => object.hashable
  | _ => true

def allHashable : List PyValue → Bool
  | [] => true
  | v :: vs => v.hashable && allHashable vs
end

mutual
/-- `copy.deepcopy` succeeds. -/
def copies : PyValue → Bool
  | .exception object | .model object _ => object.copyable
  | .dict items => itemsCopy items
  | .list items | .tuple items | .namedTuple _ _ _ items | .set items | .frozenset items => allCopy items
  | .dataclass object fields => object.copyable && fieldsCopy fields
  | .generator => false
  | _ => true

def allCopy : List PyValue → Bool
  | [] => true
  | v :: vs => v.copies && allCopy vs

def itemsCopy : List (PyValue × PyValue) → Bool
  | [] => true
  | (k, v) :: items => k.copies && v.copies && itemsCopy items

def fieldsCopy : List (List Char × PyValue) → Bool
  | [] => true
  | (_, v) :: fields => v.copies && fieldsCopy fields
end

/-- `set(items)` and `frozenset(items)` -/
def distinct (items : List PyValue) : Except PyError (List PyValue) :=
  if allHashable items then .ok items else .error .typeError

/-- The call of a named tuple's type with some arguments. -/
def construct (name : List Char) (fields : List (List Char)) (defaults args : List PyValue) :
    Except PyError PyValue :=
  if args.length ≤ fields.length ∧ fields.length ≤ args.length + defaults.length then
    .ok (.namedTuple name fields defaults
      (args ++ defaults.drop (args.length + defaults.length - fields.length)))
  else .error .typeError

/-! ## Dictionaries of dataclasses -/

mutual
/-- `dataclasses.asdict`, which goes into dataclasses, lists, tuples and dictionaries, and copies the rest. -/
def asdict : PyValue → Except PyError PyValue
  | .dataclass _ fields => return .dict (← asdictFields fields)
  | .list items => return .list (← asdictAll items)
  | .dict items => return .dict (← asdictItems items)
  | .tuple items => return .tuple (← asdictAll items)
  | .namedTuple name fields defaults items => return .namedTuple name fields defaults (← asdictAll items)
  | v => if v.copies then return v else throw .typeError

def asdictAll : List PyValue → Except PyError (List PyValue)
  | [] => return []
  | v :: vs => return (← asdict v) :: (← asdictAll vs)

def asdictItems : List (PyValue × PyValue) → Except PyError (List (PyValue × PyValue))
  | [] => return []
  | (k, v) :: items => do
    let k ← asdict k
    let v ← asdict v
    if k.hashable then return (k, v) :: (← asdictItems items) else throw .typeError

def asdictFields : List (List Char × PyValue) → Except PyError (List (PyValue × PyValue))
  | [] => return []
  | (name, v) :: fields => return (.str name, ← asdict v) :: (← asdictFields fields)
end

/-! ## Sizes -/

mutual
/-- A size that the conversion of a dataclass to a dictionary makes smaller. -/
def weight : PyValue → Nat
  | .dict items => 1 + itemsWeight items
  | .list items | .tuple items | .namedTuple _ _ _ items | .set items | .frozenset items =>
      1 + allWeight items
  | .dataclass _ fields => 2 + fieldsWeight fields
  | .model _ (.ok dump) => 1 + dump.weight
  | _ => 1

def allWeight : List PyValue → Nat
  | [] => 1
  | v :: vs => v.weight + allWeight vs

def itemsWeight : List (PyValue × PyValue) → Nat
  | [] => 1
  | (k, v) :: items => k.weight + v.weight + itemsWeight items

def fieldsWeight : List (List Char × PyValue) → Nat
  | [] => 1
  | (_, v) :: fields => 1 + v.weight + fieldsWeight fields
end

theorem weight_pos (v : PyValue) : 0 < v.weight := by
  unfold weight
  split <;> omega

theorem allWeight_pos (vs : List PyValue) : 0 < allWeight vs := by
  unfold allWeight
  split
  · omega
  · rename_i v _
    have := weight_pos v
    omega

theorem itemsWeight_pos (items : List (PyValue × PyValue)) : 0 < itemsWeight items := by
  unfold itemsWeight
  split
  · omega
  · rename_i k _ _
    have := weight_pos k
    omega

theorem weight_of_mem {v : PyValue} {vs : List PyValue} (h : v ∈ vs) : v.weight < allWeight vs := by
  induction vs with
  | nil => cases h
  | cons w vs ih =>
      simp only [allWeight]
      rcases List.mem_cons.mp h with rfl | h
      · have := allWeight_pos vs
        omega
      · have := ih h
        omega

theorem weight_of_mem_items {items : List (PyValue × PyValue)} {p : PyValue × PyValue} (h : p ∈ items) :
    p.2.weight < itemsWeight items := by
  induction items with
  | nil => cases h
  | cons q items ih =>
      simp only [itemsWeight]
      rcases List.mem_cons.mp h with rfl | h
      · have := itemsWeight_pos items
        omega
      · have := ih h
        omega

theorem bind_ok {α β : Type} {x : Except PyError α} {f : α → Except PyError β} {b : β} :
    (x >>= f) = .ok b ↔ ∃ a, x = .ok a ∧ f a = .ok b := by
  cases x with
  | error e => simp [bind, Except.bind]
  | ok a => simp [bind, Except.bind]

/-- A function that goes through a list returns if and only if every element has its part of the result. -/
theorem listed_ok {α β : Type} {f : List α → Except PyError (List β)} {R : α → β → Prop} (hnil : f [] = .ok [])
    (hcons : ∀ a as bs, f (a :: as) = .ok bs ↔ ∃ b bs', R a b ∧ f as = .ok bs' ∧ bs = b :: bs') {as : List α}
    {bs : List β} : f as = .ok bs ↔ List.Forall₂ R as bs := by
  induction as generalizing bs with
  | nil =>
      rw [hnil, List.forall₂_nil_left_iff]
      exact ⟨fun h => (Except.ok.inj h).symm, fun h => congrArg Except.ok h.symm⟩
  | cons a as ih =>
      rw [hcons, List.forall₂_cons_left_iff]
      simp only [ih]

mutual
theorem weight_asdict : (v : PyValue) → {d : PyValue} → asdict v = .ok d → d.weight ≤ v.weight
  | .dataclass _ fields, d, h => by
      obtain ⟨items, hitems, hd⟩ := bind_ok.mp h
      cases hd
      have := itemsWeight_asdictFields fields hitems
      simp only [weight]
      omega
  | .list items, d, h | .tuple items, d, h | .namedTuple _ _ _ items, d, h => by
      obtain ⟨vs, hvs, hd⟩ := bind_ok.mp h
      cases hd
      have := allWeight_asdictAll items hvs
      simp only [weight]
      omega
  | .dict items, d, h => by
      obtain ⟨ds, hds, hd⟩ := bind_ok.mp h
      cases hd
      have := itemsWeight_asdictItems items hds
      simp only [weight]
      omega
  | .none, d, h | .bool _, d, h | .int _, d, h | .float _ _, d, h | .str _, d, h | .exception _, d, h
  | .set _, d, h | .frozenset _, d, h | .model _ _, d, h | .generator, d, h => by
      simp only [asdict] at h
      split at h
      · cases h
        exact Nat.le_refl _
      · cases h

theorem allWeight_asdictAll :
    (vs : List PyValue) → {ds : List PyValue} → asdictAll vs = .ok ds → allWeight ds ≤ allWeight vs
  | [], ds, h => by
      cases h
      exact Nat.le_refl _
  | v :: vs, ds, h => by
      obtain ⟨d, hd, h⟩ := bind_ok.mp h
      obtain ⟨ds', hds, h⟩ := bind_ok.mp h
      cases h
      have := weight_asdict v hd
      have := allWeight_asdictAll vs hds
      simp only [allWeight]
      omega

theorem itemsWeight_asdictItems : (items : List (PyValue × PyValue)) →
    {ds : List (PyValue × PyValue)} → asdictItems items = .ok ds → itemsWeight ds ≤ itemsWeight items
  | [], ds, h => by
      cases h
      exact Nat.le_refl _
  | (k, v) :: items, ds, h => by
      obtain ⟨k', hk, h⟩ := bind_ok.mp h
      obtain ⟨v', hv, h⟩ := bind_ok.mp h
      split at h
      · obtain ⟨ds', hds, h⟩ := bind_ok.mp h
        cases h
        have := weight_asdict k hk
        have := weight_asdict v hv
        have := itemsWeight_asdictItems items hds
        simp only [itemsWeight]
        omega
      · cases h

theorem itemsWeight_asdictFields : (fields : List (List Char × PyValue)) →
    {ds : List (PyValue × PyValue)} → asdictFields fields = .ok ds → itemsWeight ds ≤ fieldsWeight fields
  | [], ds, h => by
      cases h
      exact Nat.le_refl _
  | (name, v) :: fields, ds, h => by
      obtain ⟨v', hv, h⟩ := bind_ok.mp h
      obtain ⟨ds', hds, h⟩ := bind_ok.mp h
      cases h
      have := weight_asdict v hv
      have := itemsWeight_asdictFields fields hds
      simp only [itemsWeight, fieldsWeight, weight]
      omega
end

theorem weight_asdict_dataclass {object : PyInstance} {fields : List (List Char × PyValue)} {d : PyValue}
    (h : asdict (.dataclass object fields) = .ok d) : d.weight < (PyValue.dataclass object fields).weight := by
  obtain ⟨items, hitems, hd⟩ := bind_ok.mp h
  cases hd
  have := itemsWeight_asdictFields fields hitems
  simp only [weight]
  omega

/-! ## Texts -/

def hexText (width n : Nat) : List Char := (List.range width).reverse.map fun i => (n / 16 ^ i % 16).digitChar

/-- An escape of a character by its number. -/
def escapeNumber (c : Char) : List Char :=
  if c.toNat < 0x100 then "\\x".toList ++ hexText 2 c.toNat
  else if c.toNat < 0x10000 then "\\u".toList ++ hexText 4 c.toNat
  else "\\U".toList ++ hexText 8 c.toNat

section Texts
variable (isPrintable : Char → Bool)

def reprChar (q c : Char) : List Char :=
  if c = q ∨ c = '\\' then ['\\', c]
  else if c = '\n' then "\\n".toList
  else if c = '\r' then "\\r".toList
  else if c = '\t' then "\\t".toList
  else if isPrintable c then [c]
  else escapeNumber c

def reprStr (s : List Char) : List Char :=
  let q := if s.contains '\'' && !s.contains '"' then '"' else '\''
  q :: (s.flatMap (reprChar isPrintable q) ++ [q])

mutual
/-- `repr` -/
def repr : PyValue → List Char
  | .none => "None".toList
  | .bool b => if b then "True".toList else "False".toList
  | .int n => (toString n).toList
  | .float repr _ => repr
  | .str s => reprStr isPrintable s
  | .exception object | .dataclass object _ | .model object _ => object.repr
  | .dict items => '\x7b' :: (reprItems items ++ ['\x7d'])
  | .list items => '[' :: (reprAll items ++ [']'])
  | .tuple [v] => '(' :: (v.repr ++ ",)".toList)
  | .tuple items => '(' :: (reprAll items ++ [')'])
  | .namedTuple name fields _ items => name ++ '(' :: (reprFields fields items ++ [')'])
  | .set [] => "set()".toList
  | .set items => '\x7b' :: (reprAll items ++ ['\x7d'])
  | .frozenset [] => "frozenset()".toList
  | .frozenset items => "frozenset(\x7b".toList ++ (reprAll items ++ "\x7d)".toList)
  -- The address is left out.
  | .generator => "<generator object>".toList

def reprAll : List PyValue → List Char
  | [] => []
  | [v] => v.repr
  | v :: vs => v.repr ++ (", ".toList ++ reprAll vs)

def reprItems : List (PyValue × PyValue) → List Char
  | [] => []
  | [(k, v)] => k.repr ++ (": ".toList ++ v.repr)
  | (k, v) :: items => k.repr ++ (": ".toList ++ v.repr) ++ (", ".toList ++ reprItems items)

def reprFields : List (List Char) → List PyValue → List Char
  | [name], [v] => name ++ '=' :: v.repr
  | name :: names, v :: vs => name ++ '=' :: (v.repr ++ (", ".toList ++ reprFields names vs))
  | _, _ => []
end

/-- `str` -/
def toStr : PyValue → List Char
  | .str s => s
  | .exception object | .dataclass object _ | .model object _ => object.str
  | v => v.repr isPrintable

/-- `ascii` -/
def ascii (v : PyValue) : List Char :=
  (v.repr isPrintable).flatMap fun c => if c.toNat < 128 then [c] else escapeNumber c

end Texts

end PyValue
