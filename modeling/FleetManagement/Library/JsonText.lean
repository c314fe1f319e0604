import FleetManagement.Library.Json
import Mathlib.Data.List.Infix

/-!
# Words in JSON texts

Where a word stands in the text of a JSON value. A word has none of the punctuation of JSON, so it stands within
one string or one number.
-/

namespace Json

theorem infix_append_cons {α : Type} {a u v : List α} {s : α} (hs : s ∉ a) (hne : a ≠ []) :
    a <:+: u ++ s :: v ↔ a <:+: u ∨ a <:+: v := by
  constructor
  · rintro ⟨l, r, h⟩
    rw [List.append_assoc] at h
    rcases List.append_eq_append_iff.mp h with ⟨m, rfl, hrest⟩ | ⟨m, rfl, hrest⟩
    · rcases List.append_eq_append_iff.mp hrest with ⟨m', rfl, -⟩ | ⟨m', rfl, hlast⟩
      · exact .inl ⟨l, m', by simp⟩
      · cases m' with
        | nil => exact .inl ⟨l, [], by simp⟩
        | cons x m' =>
            obtain rfl : s = x := (List.cons.inj hlast).1
            exact absurd (by simp) hs
    · cases m with
      | nil =>
          cases a with
          | nil => exact absurd rfl hne
          | cons x a =>
              obtain rfl : s = x := (List.cons.inj hrest).1
              exact absurd List.mem_cons_self hs
      | cons x m =>
          rw [List.cons_append, List.cons.injEq] at hrest
          exact .inr ⟨m, r, by simp [hrest.2]⟩
  · rintro (h | h)
    · exact h.trans (List.prefix_append _ _).isInfix
    · exact h.trans ((List.suffix_cons s v).trans (List.suffix_append _ _)).isInfix

def punctuation : List Char := "\",: []\x7b\x7d".toList

/-- A word without punctuation, and with a character that no number and no name of JSON has. -/
structure Word (a : List Char) : Prop where
  plain : ∀ c ∈ a, c ∉ punctuation
  mark : ∃ c ∈ a, c ∉ "-0123456789aeflnrstu".toList

mutual
/-- The word is in a string, a number or a name of a member. -/
def Has (ascii : Bool) (a : List Char) : Json → Prop
  | .null | .bool _ | .int _ => False
  | .float repr => a <:+: repr
  | .str s => a <:+: s.flatMap (escape ascii)
  | .arr items => AnyHas ascii a items
  | .obj members => MemberHas ascii a members

def AnyHas (ascii : Bool) (a : List Char) : List Json → Prop
  | [] => False
  | x :: xs => Has ascii a x ∨ AnyHas ascii a xs

def MemberHas (ascii : Bool) (a : List Char) : List (List Char × Json) → Prop
  | [] => False
  | (k, x) :: ms => (a <:+: k.flatMap (escape ascii) ∨ Has ascii a x) ∨ MemberHas ascii a ms
end

variable {ascii : Bool} {a u v : List Char}

theorem Word.ne_nil (ha : Word a) : a ≠ [] := by
  rintro rfl
  obtain ⟨c, hc, -⟩ := ha.mark
  cases hc

theorem Word.split (ha : Word a) {s : Char} (hs : s ∈ punctuation) :
    a <:+: u ++ s :: v ↔ a <:+: u ∨ a <:+: v :=
  infix_append_cons (fun h => ha.plain s h hs) ha.ne_nil

theorem Word.split_first (ha : Word a) {s : Char} (hs : s ∈ punctuation) : a <:+: s :: v ↔ a <:+: v := by
  have hsplit : a <:+: [] ++ s :: v ↔ a <:+: [] ∨ a <:+: v := ha.split hs
  simpa [ha.ne_nil] using hsplit

theorem Word.split_last (ha : Word a) {s : Char} (hs : s ∈ punctuation) : a <:+: u ++ [s] ↔ a <:+: u := by
  simpa [ha.ne_nil] using ha.split (v := []) hs

theorem Word.not_infix (ha : Word a) (hu : ∀ c ∈ u, c ∈ "-0123456789aeflnrstu".toList) : ¬ a <:+: u := by
  intro h
  obtain ⟨c, hc, hno⟩ := ha.mark
  exact hno (hu c (h.subset hc))

theorem mem_of_isDigit {c : Char} (h : c.isDigit = true) : c ∈ "-0123456789aeflnrstu".toList := by
  have hall : ∀ n < 58, 48 ≤ n → Char.ofNat n ∈ "-0123456789aeflnrstu".toList := by decide
  simp only [Char.isDigit, Bool.and_eq_true, decide_eq_true_eq] at h
  obtain ⟨hlow, hhigh⟩ := h
  rw [ge_iff_le, UInt32.le_iff_toNat_le] at hlow
  rw [UInt32.le_iff_toNat_le] at hhigh
  rw [← Char.ofNat_toNat c]
  exact hall c.toNat (Nat.lt_succ_of_le hhigh) hlow

theorem mem_toString_int {n : Int} {c : Char} (h : c ∈ (toString n).toList) :
    c ∈ "-0123456789aeflnrstu".toList := by
  have hdigit : ∀ m : Nat, c ∈ (toString m).toList → c ∈ "-0123456789aeflnrstu".toList := fun m hm => by
    rw [Nat.toString_eq_ofList_toDigits, String.toList_ofList] at hm
    exact mem_of_isDigit (Nat.isDigit_of_mem_toDigits (by decide) le_rfl hm)
  cases n with
  | ofNat m => exact hdigit m h
  | negSucc m =>
      have hsign : (toString (Int.negSucc m)).toList = '-' :: (toString (m + 1)).toList := by
        show ("-" ++ toString (m + 1)).toList = _
        rw [String.toList_append]
        rfl
      rw [hsign] at h
      rcases List.mem_cons.mp h with rfl | h
      · decide
      · exact hdigit _ h

theorem infix_quote (ha : Word a) {s : List Char} : a <:+: quote ascii s ↔ a <:+: s.flatMap (escape ascii) := by
  rw [quote, ha.split_first (by decide), ha.split_last (by decide)]

mutual
theorem infix_dumps (ha : Word a) : (x : Json) → (a <:+: dumps ascii x ↔ Has ascii a x)
  | .null => by
      have hno : ¬ a <:+: "null".toList := ha.not_infix (by decide)
      simpa [dumps, Has] using hno
  | .bool b => by
      have hno : ¬ a <:+: dumps ascii (.bool b) := by
        cases b with
        | false => exact ha.not_infix (u := "false".toList) (by decide)
        | true => exact ha.not_infix (u := "true".toList) (by decide)
      simpa [Has] using hno
  | .int n => by
      have hno : ¬ a <:+: dumps ascii (.int n) := ha.not_infix fun c hc => mem_toString_int hc
      simpa [Has] using hno
  | .float repr => by simp [dumps, Has]
  | .str s => by
      rw [dumps, Has]
      exact infix_quote ha
  | .arr items => by
      rw [dumps, Has, ha.split_first (by decide), ha.split_last (by decide)]
      exact infix_dumpsItems ha items
  | .obj members => by
      rw [dumps, Has, ha.split_first (by decide), ha.split_last (by decide)]
      exact infix_dumpsMembers ha members

theorem infix_dumpsItems (ha : Word a) : (xs : List Json) → (a <:+: dumpsItems ascii xs ↔ AnyHas ascii a xs)
  | [] => by simp [dumpsItems, AnyHas, ha.ne_nil]
  | [x] => by
      rw [dumpsItems, AnyHas, AnyHas, or_false]
      exact infix_dumps ha x
  | x :: y :: xs => by
      have hcomma : ", ".toList ++ dumpsItems ascii (y :: xs) = ',' :: ' ' :: dumpsItems ascii (y :: xs) := rfl
      rw [dumpsItems, AnyHas, hcomma, ha.split (by decide), ha.split_first (by decide), infix_dumps ha x,
        infix_dumpsItems ha (y :: xs)]
      simp

theorem infix_dumpsMembers (ha : Word a) :
    (ms : List (List Char × Json)) → (a <:+: dumpsMembers ascii ms ↔ MemberHas ascii a ms)
  | [] => by simp [dumpsMembers, MemberHas, ha.ne_nil]
  | [(k, x)] => by
      have hcolon : ": ".toList ++ dumps ascii x = ':' :: ' ' :: dumps ascii x := rfl
      rw [dumpsMembers, MemberHas, MemberHas, or_false, hcolon, ha.split (by decide), ha.split_first (by decide),
        infix_quote ha, infix_dumps ha x]
  | (k, x) :: m :: ms => by
      have hcolon : ": ".toList ++ dumps ascii x = ':' :: ' ' :: dumps ascii x := rfl
      have hcomma : ", ".toList ++ dumpsMembers ascii (m :: ms) = ',' :: ' ' :: dumpsMembers ascii (m :: ms) := rfl
      rw [dumpsMembers, MemberHas, hcolon, hcomma, ha.split (by decide), ha.split (by decide),
        ha.split_first (by decide), ha.split_first (by decide), infix_quote ha, infix_dumps ha x,
        infix_dumpsMembers ha (m :: ms)]
      simp
end

end Json
