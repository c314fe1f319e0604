import FleetManagement.Library.Patches
import FleetManagement.Privacy.TokenFree

/-!
# Addresses that share a domain

Where a domain is also the name of the next address, a scan can mask only one of the two. The passes before the
scan make no two addresses share a domain.
-/

namespace FleetManagement

open Regex

/-- The domain of an address of the text is directly followed by an `@` and another domain. -/
def SharesDomain (text : Text) : Prop := ∃ left x dom right,
  text = left ++ x :: '@' :: (dom ++ '@' :: right) ∧ isLocal x ∧ domainRe.Matches dom ∧ startsDomain right

/-- Two addresses that share a domain, up to the last dot. -/
structure SharedStart (w : Text) (x : Char) (dom label : Text) : Prop where
  word : w = x :: '@' :: (dom ++ '@' :: (label ++ ['.']))
  first : isLocal x
  domain : domainRe.Matches dom
  ne_nil : label ≠ []
  label : ∀ c ∈ label, isLabel c

section Shared
variable {t : CharTables} {text w dom label : Text} {x : Char}

theorem SharedStart.last (h : SharedStart w x dom label) : w.getLast? = some '.' := by
  rw [h.word, show x :: '@' :: (dom ++ '@' :: (label ++ ['.'])) = (x :: '@' :: (dom ++ '@' :: label)) ++ ['.'] by simp,
    List.getLast?_concat]

theorem SharedStart.chars (h : SharedStart w x dom label) {c : Char} (hc : c ∈ w) : isLocal c ∨ c = '@' := by
  have hdot : isLocal '.' = true := by decide
  rw [h.word] at hc
  simp only [List.mem_cons, List.mem_append, List.not_mem_nil, or_false] at hc
  rcases hc with rfl | rfl | hc | rfl | hc | rfl
  · exact .inl h.first
  · exact .inr rfl
  · rcases (isDomain_of_matches h.domain).chars c hc with hc | rfl
    · exact .inl (isLocal_of_isLabel hc)
    · exact .inl hdot
  · exact .inr rfl
  · exact .inl (isLocal_of_isLabel (h.label c hc))
  · exact .inl hdot

/-- Only the scan for addresses can find something in the text. -/
structure Untouched (t : CharTables) (text : Text) : Prop where
  secrets : (secretKvRe t).search text = false
  bearers : (bearerRe t).search text = false
  tokens : (jwtRe t).search text = false
  hashes : (hashRe t).search text = false
  names : (nameKvRe t).search text = false
  digits : (text.filter t.isDigit).length < 9

instance (t : CharTables) (text : Text) : Decidable (Untouched t text) :=
  decidable_of_iff ((secretKvRe t).search text = false ∧ (bearerRe t).search text = false ∧
      (jwtRe t).search text = false ∧ (hashRe t).search text = false ∧ (nameKvRe t).search text = false ∧
      (text.filter t.isDigit).length < 9)
    ⟨fun ⟨h₁, h₂, h₃, h₄, h₅, h₆⟩ => ⟨h₁, h₂, h₃, h₄, h₅, h₆⟩,
      fun h => ⟨h.secrets, h.bearers, h.tokens, h.hashes, h.names, h.digits⟩⟩

theorem Untouched.redactText (h : Untouched t text) : redactText t text = text := by
  simp only [FleetManagement.redactText, sub_of_search _ h.secrets, sub_of_search _ h.bearers,
    sub_of_search _ h.tokens, sub_of_search _ h.hashes, sub_of_search _ h.names]

theorem flatMap_kept {g : Piece Char → Text} (hg : ∀ x, g (.kept x) = [x]) (run : Text) :
    (run.map Piece.kept).flatMap g = run := by
  rw [List.flatMap_map, List.flatMap_congr fun x _ => hg x, List.flatMap_singleton']

end Shared

end FleetManagement
