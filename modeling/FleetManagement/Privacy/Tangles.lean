import FleetManagement.Library.PyTexts
import FleetManagement.Privacy.SharedDomains
import FleetManagement.Privacy.Values

/-!
# Tangled texts

An address can outlive the sanitizing of its text where it shares its domain with another one, and where the
escape of a character before the `@` reads as a local part. No pass makes a tangle.
-/

namespace FleetManagement

open Regex

/-- What an `@` would meet at the end of a text. -/
inductive Trail where
  | clear
  /-- A character that is not printable, whose escape ends in a letter or a digit. -/
  | escaped
  /-- An `@`, and nothing but characters of domains since. -/
  | joined
  /-- An earlier `@` of the text met one of these. -/
  | tangled
  deriving DecidableEq

def Trail.level : Trail → Nat
  | clear => 0
  | escaped => 1
  | joined => 2
  | tangled => 3

section Reading
variable (t : TextTables)

def Trail.next (s : Trail) (c : Char) : Trail :=
  if s = tangled then tangled
  else if c = '@' then if s = clear then joined else tangled
  else if t.isPrintable c = false then escaped
  else if s = joined ∧ (isLabel c ∨ c = '.') then joined
  else clear

def Trail.read (s : Trail) (text : Text) : Trail := text.foldl (next t) s

/-- The text `p` can be read instead of `q`: no `@` meets more, and no characters are new to be watched. -/
structure Milder (p q : Text) : Prop where
  read : ∀ s s' : Trail, s.level ≤ s'.level → (s.read t p).level ≤ (s'.read t q).level
  marks : ∀ c ∈ p, c = '@' ∨ t.isPrintable c = false → c ∈ q

end Reading

section Tangles
variable {t : TextTables} {c : Char} {p p' q q' text : Text} {s s' : Trail}

/-! ## Reading -/

theorem Trail.read_append (s : Trail) (u v : Text) : s.read t (u ++ v) = (s.read t u).read t v := List.foldl_append

theorem Trail.level_next (h : s.level ≤ s'.level) (c : Char) : (s.next t c).level ≤ (s'.next t c).level := by
  by_cases hat : c = '@'
  · cases s <;> cases s' <;> first | exact absurd h (by decide) | simp [next, hat, level]
  cases hprint : t.isPrintable c with
  | false => cases s <;> cases s' <;> first | exact absurd h (by decide) | simp [next, hat, hprint, level]
  | true =>
      by_cases hdomain : isLabel c = true ∨ c = '.'
      · cases s <;> cases s' <;> first | exact absurd h (by decide) | simp [next, hat, hprint, hdomain, level]
      · cases s <;> cases s' <;> first | exact absurd h (by decide) | simp [next, hat, hprint, hdomain, level]

theorem Trail.level_read (h : s.level ≤ s'.level) (text : Text) : (s.read t text).level ≤ (s'.read t text).level := by
  induction text generalizing s s' with
  | nil => exact h
  | cons c text ih => exact ih (level_next h c)

theorem Milder.refl (p : Text) : Milder t p p := ⟨fun _ _ h => Trail.level_read h p, fun _ hc _ => hc⟩

theorem Milder.append (h : Milder t p q) (h' : Milder t p' q') : Milder t (p ++ p') (q ++ q') where
  read s s' hs := by
    rw [Trail.read_append, Trail.read_append]
    exact h'.read _ _ (h.read s s' hs)
  marks c hc hmark := by
    rcases List.mem_append.mp hc with hc | hc
    · exact List.mem_append_left _ (h.marks c hc hmark)
    · exact List.mem_append_right _ (h'.marks c hc hmark)

theorem Milder.trans {r : Text} (h : Milder t p q) (h' : Milder t q r) : Milder t p r where
  read s s' hs := (h.read s s le_rfl).trans (h'.read s s' hs)
  marks c hc hmark := h'.marks c (h.marks c hc hmark) hmark

theorem Milder.flatMap {f : Char → Text} (h : ∀ c, Milder t (f c) [c]) (text : Text) :
    Milder t (text.flatMap f) text := by
  induction text with
  | nil => exact .refl []
  | cons c text ih => exact (h c).append ih

end Tangles

end FleetManagement
