import Mathlib.Data.List.Basic

/-!
# Characters of a text

A statement about the characters of a literal is decided by going through the literal.
-/

/-- Comes before the instance that goes through all characters. -/
instance (priority := 2000) decidableForallMemText {p : Char → Prop} [DecidablePred p] (l : List Char) :
    Decidable (∀ c ∈ l, p c) := List.decidableBAll p l
