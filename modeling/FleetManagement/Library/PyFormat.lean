import FleetManagement.Library.PyValue
import Mathlib.Data.List.Forall2

/-!
# Formatting with `%`

The `%` operator of strings as a machine that reads the format character by character. Which error it ends in
depends on the kinds of its operands only.
-/

namespace PyFormat

/-- What a conversion can ask of its operand. -/
inductive Operand where
  | integer (n : Int)
  | infinite
  | nan
  | finite
  | character
  | other
  deriving DecidableEq

structure Spec where
  flags : List Char := []
  width : Int := 0
  precision : Option Int := none

/-- How operands are seen, and the texts of their conversions. -/
structure Formatter (α : Type) where
  operand : α → Operand
  render : Spec → Char → α → List Char

/-- How far a conversion has been read. -/
inductive Phase where
  | text
  | start
  | key (depth : Nat) (read : List Char)
  | flags (spec : Spec)
  | width (n : Nat) (spec : Spec)
  | widthGiven (spec : Spec)
  | dot (spec : Spec)
  | precision (n : Nat) (spec : Spec)
  | precisionGiven (spec : Spec)
  | conversion (spec : Spec)

structure Progress (α : Type) where
  out : List Char
  phase : Phase
  /-- The arguments to come. -/
  pending : List α

/-! ## Conversions -/

/-- An integer that is too large for a float. -/
def beyondFloat (n : Int) : Bool := decide (2 ^ 1024 - 2 ^ 970 ≤ n.natAbs)

/-- "precision too large" for the digits of an integer: more than `INT_MAX - 3` -/
def precisionError (spec : Spec) : Option PyError :=
  if spec.precision.any fun p => 2147483644 < p then some .overflowError else none

def conversionError (spec : Spec) (c : Char) (operand : Operand) : Option PyError :=
  if "sra".toList.contains c then none
  else if "diu".toList.contains c then
    match operand with
    | .integer _ | .finite => precisionError spec
    | .infinite => some .overflowError
    | .nan => some .valueError
    | _ => some .typeError
  else if "oxX".toList.contains c then
    match operand with
    | .integer _ => precisionError spec
    | _ => some .typeError
  else if "eEfFgG".toList.contains c then
    match operand with
    | .integer n => if beyondFloat n then some .overflowError else none
    | .finite | .infinite | .nan => none
    | _ => some .typeError
  else if c = 'c' then
    match operand with
    | .integer n => if 0 ≤ n ∧ n < 0x110000 then none else some .overflowError
    | .character => none
    | _ => some .typeError
  else some .valueError

section Machine
variable {α : Type} (F : Formatter α) (mapping : Option (List Char → Option α))

def convert (spec : Spec) (c : Char) (s : Progress α) : Except PyError (Progress α) :=
  match s.pending with
  | [] => .error .typeError
  | v :: pending =>
      match conversionError spec c (F.operand v) with
      | some e => .error e
      | none => .ok ⟨s.out ++ F.render spec c v, .text, pending⟩

/-- After the precision. -/
def onModifier (spec : Spec) (c : Char) (s : Progress α) : Except PyError (Progress α) :=
  if "hlL".toList.contains c then .ok { s with phase := .conversion spec } else convert F spec c s

/-- After the width. -/
def onDot (spec : Spec) (c : Char) (s : Progress α) : Except PyError (Progress α) :=
  if c = '.' then .ok { s with phase := .dot spec } else onModifier F spec c s

/-- The integer that a `*` stands for. -/
def star (bound : Nat) (next : Int → Phase) (s : Progress α) : Except PyError (Progress α) :=
  match s.pending with
  | [] => .error .typeError
  | v :: pending =>
      match F.operand v with
      | .integer n =>
          if -bound ≤ n ∧ n < bound then .ok { s with phase := next n, pending } else .error .overflowError
      | _ => .error .typeError

def digitOf (c : Char) : Nat := c.toNat - '0'.toNat

def onFlag (spec : Spec) (c : Char) (s : Progress α) : Except PyError (Progress α) :=
  if "-+ #0".toList.contains c then .ok { s with phase := .flags { spec with flags := c :: spec.flags } }
  else if c = '*' then star F (2 ^ 63) (fun n => .widthGiven { spec with width := n }) s
  else if c.isDigit then .ok { s with phase := .width (digitOf c) spec }
  else onDot F spec c s

def step (s : Progress α) (c : Char) : Except PyError (Progress α) :=
  match s.phase with
  | .text => if c = '%' then .ok { s with phase := .start } else .ok { s with out := s.out ++ [c] }
  | .start =>
      if c = '%' then .ok { s with out := s.out ++ [c], phase := .text }
      else if c = '(' then
        if mapping.isSome then .ok { s with phase := .key 1 [] } else .error .typeError
      else onFlag F {} c s
  | .key depth read =>
      if c = ')' ∧ depth = 1 then
        match mapping.bind fun lookup => lookup read.reverse with
        | some v => .ok { s with phase := .flags {}, pending := [v] }
        | none => .error .keyError
      else
        let depth := if c = '(' then depth + 1 else if c = ')' then depth - 1 else depth
        .ok { s with phase := .key depth (c :: read) }
  | .flags spec => onFlag F spec c s
  | .width n spec =>
      if c.isDigit then
        if 10 * n + digitOf c < 2 ^ 63 then .ok { s with phase := .width (10 * n + digitOf c) spec }
        else .error .valueError
      else onDot F { spec with width := n } c s
  | .widthGiven spec => onDot F spec c s
  | .dot spec =>
      if c = '*' then star F (2 ^ 31) (fun n => .precisionGiven { spec with precision := some n }) s
      else if c.isDigit then .ok { s with phase := .precision (digitOf c) spec }
      else onModifier F { spec with precision := some 0 } c s
  | .precision n spec =>
      if c.isDigit then
        if 10 * n + digitOf c < 2 ^ 31 then .ok { s with phase := .precision (10 * n + digitOf c) spec }
        else .error .valueError
      else onModifier F { spec with precision := some (n : Int) } c s
  | .precisionGiven spec => onModifier F spec c s
  | .conversion spec => convert F spec c s

def finish (s : Progress α) : Except PyError (List Char) :=
  match s.phase with
  | .text => if mapping.isNone ∧ !s.pending.isEmpty then .error .typeError else .ok s.out
  | _ => .error .valueError

/-- `format % args`, for the arguments of a tuple or for the value of a mapping. -/
def percent (pending : List α) (format : List Char) : Except PyError (List Char) := do
  finish mapping (← format.foldlM (step F mapping) ⟨[], .text, pending⟩)

end Machine

/-! ## Values -/

def operandOf : PyValue → Operand
  | .bool b => .integer (if b then 1 else 0)
  | .int n => .integer n
  | .float _ .finite => .finite
  | .float _ .infinite => .infinite
  | .float _ .nan => .nan
  | .str [_] => .character
  | _ => .other

/-- The precision and the width of a text. -/
def fit (spec : Spec) (text : List Char) : List Char :=
  let text := match spec.precision with
    | some p => text.take p.toNat
    | none => text
  let fill := List.replicate (spec.width.natAbs - text.length) ' '
  if spec.flags.contains '-' ∨ spec.width < 0 then text ++ fill else fill ++ text

/-- The value under a string. -/
def lookupStr (items : List (PyValue × PyValue)) (key : List Char) : Option PyValue :=
  items.findSome? fun
    | (.str s, v) => if s = key then some v else none
    | _ => none

section Values
variable (isPrintable : Char → Bool) (number : Spec → Char → PyValue → List Char)

/-- How values are formatted, where `number` gives the texts of numbers. -/
def formatter : Formatter PyValue where
  operand := operandOf
  render spec c v :=
    if c = 's' then fit spec (v.toStr isPrintable)
    else if c = 'r' then fit spec (v.repr isPrintable)
    else if c = 'a' then fit spec (v.ascii isPrintable)
    else number spec c v

/-- `format % items` for a tuple. -/
def formatTuple (format : List Char) (items : List PyValue) : Except PyError (List Char) :=
  percent (formatter isPrintable number) none items format

/-- `format % items` for a dictionary, which is also the operand of a conversion without a key. -/
def formatDict (format : List Char) (items : List (PyValue × PyValue)) : Except PyError (List Char) :=
  percent (formatter isPrintable number) (some (lookupStr items)) [.dict items] format

end Values

/-! ## The same operands -/

section Congruence
variable {α β : Type} {F : Formatter α} {G : Formatter β} {mapping : Option (List Char → Option α)}
  {mapping' : Option (List Char → Option β)}

/-- Both succeed, with related results, or both fail with the same error. -/
def SameOutcome {γ δ : Type} (R : γ → δ → Prop) : Except PyError γ → Except PyError δ → Prop
  | .ok a, .ok b => R a b
  | .error e, .error e' => e = e'
  | _, _ => False

/-- A relation of texts that goes from the parts to the whole. -/
structure Additive (S : List Char → List Char → Prop) : Prop where
  nil : S [] []
  char : ∀ c, S [c] [c]
  append : ∀ {u u' v v' : List Char}, S u u' → S v v' → S (u ++ v) (u' ++ v')

variable (F G) (S : List Char → List Char → Prop)

/-- Operands of the same kind, with related texts. -/
structure SameOperand (v : α) (w : β) : Prop where
  kind : F.operand v = G.operand w
  texts : ∀ spec c, conversionError spec c (F.operand v) = none → S (F.render spec c v) (G.render spec c w)

def SameOperands (vs : List α) (ws : List β) : Prop := List.Forall₂ (SameOperand F G S) vs ws

/-- Equally far, with the same operands to come. -/
def Alike (s : Progress α) (s' : Progress β) : Prop :=
  s.phase = s'.phase ∧ S s.out s'.out ∧ SameOperands F G S s.pending s'.pending

/-- Both are tuples, or both have the same keys, with the same operands. -/
def SameMapping : Option (List Char → Option α) → Option (List Char → Option β) → Prop
  | some lookup, some lookup' => ∀ key, Option.Rel (SameOperand F G S) (lookup key) (lookup' key)
  | none, none => True
  | _, _ => False

variable {F G S} {s : Progress α} {s' : Progress β} {c : Char}

theorem convert_alike (hS : Additive S) (h : Alike F G S s s') (spec : Spec) :
    SameOutcome (Alike F G S) (convert F spec c s) (convert G spec c s') := by
  obtain ⟨-, hout, hpending⟩ := h
  unfold convert
  rcases hs : s.pending with _ | ⟨v, vs⟩ <;> rcases hs' : s'.pending with _ | ⟨w, ws⟩ <;>
    rw [hs, hs'] at hpending
  · rfl
  · cases hpending
  · cases hpending
  · obtain ⟨hvw, htail⟩ := List.forall₂_cons.mp hpending
    have htexts := hvw.texts spec c
    simp only [hvw.kind] at htexts ⊢
    cases herror : conversionError spec c (G.operand w) with
    | none => exact ⟨rfl, hS.append hout (htexts herror), htail⟩
    | some e => exact rfl

theorem onModifier_alike (hS : Additive S) (h : Alike F G S s s') (spec : Spec) :
    SameOutcome (Alike F G S) (onModifier F spec c s) (onModifier G spec c s') := by
  unfold onModifier
  split
  · exact ⟨rfl, h.2⟩
  · exact convert_alike hS h spec

theorem onDot_alike (hS : Additive S) (h : Alike F G S s s') (spec : Spec) :
    SameOutcome (Alike F G S) (onDot F spec c s) (onDot G spec c s') := by
  unfold onDot
  split
  · exact ⟨rfl, h.2⟩
  · exact onModifier_alike hS h spec

theorem star_alike (h : Alike F G S s s') (bound : Nat) (next : Int → Phase) :
    SameOutcome (Alike F G S) (star F bound next s) (star G bound next s') := by
  obtain ⟨-, hout, hpending⟩ := h
  unfold star
  rcases hs : s.pending with _ | ⟨v, vs⟩ <;> rcases hs' : s'.pending with _ | ⟨w, ws⟩ <;>
    rw [hs, hs'] at hpending
  · rfl
  · cases hpending
  · cases hpending
  · obtain ⟨hvw, htail⟩ := List.forall₂_cons.mp hpending
    simp only [hvw.kind]
    cases G.operand w with
    | integer n =>
        simp only
        split
        · exact ⟨rfl, hout, htail⟩
        · rfl
    | _ => rfl

theorem onFlag_alike (hS : Additive S) (h : Alike F G S s s') (spec : Spec) :
    SameOutcome (Alike F G S) (onFlag F spec c s) (onFlag G spec c s') := by
  unfold onFlag
  split
  · exact ⟨rfl, h.2⟩
  split
  · exact star_alike h _ _
  split
  · exact ⟨rfl, h.2⟩
  · exact onDot_alike hS h spec

/-- A step looks at the kinds of the operands only. -/
theorem step_alike (hS : Additive S) (hmapping : SameMapping F G S mapping mapping') (h : Alike F G S s s') :
    SameOutcome (Alike F G S) (step F mapping s c) (step G mapping' s' c) := by
  obtain ⟨hphase, hout, hpending⟩ := h
  unfold step
  rw [hphase]
  cases hs : s'.phase with
  | text =>
      simp only
      split
      · exact ⟨rfl, hout, hpending⟩
      · exact ⟨rfl, hS.append hout (hS.char c), hpending⟩
  | start =>
      simp only
      split
      · exact ⟨rfl, hS.append hout (hS.char c), hpending⟩
      split
      · cases mapping <;> cases mapping' <;> first | exact absurd hmapping id | rfl | exact ⟨rfl, hout, hpending⟩
      · exact onFlag_alike hS ⟨hphase, hout, hpending⟩ _
  | key depth read =>
      simp only
      split
      · cases mapping with
        | none =>
            cases mapping' with
            | none => rfl
            | some lookup' => exact absurd hmapping id
        | some lookup =>
            cases mapping' with
            | none => exact absurd hmapping id
            | some lookup' =>
                have hrel := hmapping read.reverse
                simp only [Option.bind_some]
                revert hrel
                cases lookup read.reverse <;> cases lookup' read.reverse <;> intro hrel <;> cases hrel
                · rfl
                · rename_i hvw
                  exact ⟨rfl, hout, .cons hvw .nil⟩
      · exact ⟨rfl, hout, hpending⟩
  | flags spec => exact onFlag_alike hS ⟨hphase, hout, hpending⟩ _
  | width n spec =>
      simp only
      split
      · split
        · exact ⟨rfl, hout, hpending⟩
        · rfl
      · exact onDot_alike hS ⟨hphase, hout, hpending⟩ _
  | widthGiven spec => exact onDot_alike hS ⟨hphase, hout, hpending⟩ _
  | dot spec =>
      simp only
      split
      · exact star_alike ⟨hphase, hout, hpending⟩ _ _
      split
      · exact ⟨rfl, hout, hpending⟩
      · exact onModifier_alike hS ⟨hphase, hout, hpending⟩ _
  | precision n spec =>
      simp only
      split
      · split
        · exact ⟨rfl, hout, hpending⟩
        · rfl
      · exact onModifier_alike hS ⟨hphase, hout, hpending⟩ _
  | precisionGiven spec => exact onModifier_alike hS ⟨hphase, hout, hpending⟩ _
  | conversion spec => exact convert_alike hS ⟨hphase, hout, hpending⟩ _

theorem foldlM_alike (hS : Additive S) (hmapping : SameMapping F G S mapping mapping') (format : List Char)
    (h : Alike F G S s s') :
    SameOutcome (Alike F G S) (format.foldlM (step F mapping) s) (format.foldlM (step G mapping') s') := by
  induction format generalizing s s' with
  | nil => exact h
  | cons c format ih =>
      rw [List.foldlM_cons, List.foldlM_cons]
      have hstep := step_alike (c := c) hS hmapping h
      revert hstep
      cases step F mapping s c <;> cases step G mapping' s' c <;> intro hstep
      · exact hstep
      · exact absurd hstep id
      · exact absurd hstep id
      · exact ih hstep

theorem finish_alike (hmapping : SameMapping F G S mapping mapping') (h : Alike F G S s s') :
    SameOutcome S (finish mapping s) (finish mapping' s') := by
  obtain ⟨hphase, hout, hpending⟩ := h
  have hempty : s.pending.isEmpty = s'.pending.isEmpty := by
    rcases hs : s.pending with _ | ⟨v, vs⟩ <;> rcases hs' : s'.pending with _ | ⟨w, ws⟩ <;>
      rw [hs, hs'] at hpending <;> first | rfl | cases hpending
  have hnone : mapping.isNone = mapping'.isNone := by
    cases mapping <;> cases mapping' <;> first | rfl | exact absurd hmapping id
  unfold finish
  rw [hphase, hempty, hnone]
  cases s'.phase with
  | text =>
      simp only
      split
      · rfl
      · exact hout
  | _ => rfl

/-- Whether formatting fails, and how, depends on the kinds of the operands only. Related texts of the operands
make related results. -/
theorem percent_alike {pending : List α} {pending' : List β} (hS : Additive S)
    (hmapping : SameMapping F G S mapping mapping') (h : SameOperands F G S pending pending') (format : List Char) :
    SameOutcome S (percent F mapping pending format) (percent G mapping' pending' format) := by
  have hstart : Alike F G S ⟨[], .text, pending⟩ ⟨[], .text, pending'⟩ := ⟨rfl, hS.nil, h⟩
  have hfold := foldlM_alike hS hmapping format hstart
  unfold percent
  revert hfold
  cases format.foldlM (step F mapping) ⟨[], .text, pending⟩ <;>
    cases format.foldlM (step G mapping') ⟨[], .text, pending'⟩ <;> intro hfold
  · exact hfold
  · exact absurd hfold id
  · exact absurd hfold id
  · exact finish_alike hmapping hfold

end Congruence

end PyFormat
