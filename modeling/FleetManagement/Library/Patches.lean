import FleetManagement.Library.RegexScan

/-!
# Replaced parts

A text of which some parts are kept and others are replaced. A word of the new text that stays apart from what
was put in is a word of the old text.
-/

inductive Patch (α : Type) where
  | kept (x : α)
  | replaced (before after : List α)

namespace Patch

variable {α : Type}

def old : Patch α → List α
  | kept x => [x]
  | replaced before _ => before

def new : Patch α → List α
  | kept x => [x]
  | replaced _ after => after

/-- The word neither reaches into the text `b` nor begins in it. -/
structure Apart (w b : List α) : Prop where
  reaches : ∀ v, v <:+ w → v ≠ [] → ¬ v <+: b ∧ ¬ b <+: v
  begins : ∀ u, u <:+ b → u ≠ [] → ¬ u <+: w ∧ ¬ w <+: u

section Words
variable {w b l r : List α} {x y z : α} {ps qs : List (Patch α)}

theorem Apart.of_last (hw : w.getLast? = some x) (hb : b.getLast? = some z) (hx : x ∉ b) (hz : z ∉ w) :
    Apart w b where
  reaches v hv hne := by
    refine ⟨fun h => hx (h.subset (List.mem_of_getLast? ?_)),
      fun h => hz (hv.subset (h.subset (List.mem_of_getLast? hb)))⟩
    obtain ⟨u, rfl⟩ := hv
    rwa [List.getLast?_append_of_ne_nil _ hne] at hw
  begins u hu hne := by
    refine ⟨fun h => hz (h.subset (List.mem_of_getLast? ?_)),
      fun h => hx (hu.subset (h.subset (List.mem_of_getLast? hw)))⟩
    obtain ⟨v, rfl⟩ := hu
    rwa [List.getLast?_append_of_ne_nil _ hne] at hb

theorem Apart.of_ends (hfirst : b.head? = some y) (hlast : b.getLast? = some z) (hy : y ∉ w) (hz : z ∉ w)
    (hw : ¬ w <:+: b) : Apart w b where
  reaches v hv hne := by
    constructor
    · intro h
      obtain ⟨c, v, rfl⟩ := List.exists_cons_of_ne_nil hne
      obtain ⟨s, rfl⟩ := h
      obtain rfl : c = y := Option.some.inj hfirst
      exact hy (hv.subset List.mem_cons_self)
    · exact fun h => hy (hv.subset (h.subset (List.mem_of_head? hfirst)))
  begins u hu hne := by
    refine ⟨fun h => hz (h.subset (List.mem_of_getLast? ?_)), fun h => hw (h.isInfix.trans hu.isInfix)⟩
    obtain ⟨v, rfl⟩ := hu
    rwa [List.getLast?_append_of_ne_nil _ hne] at hlast

theorem prefix_of_patched {v : List α} (h : ∀ a b, .replaced a b ∈ ps → Apart w b) (hv : v <:+ w)
    (hnew : ps.flatMap new = v ++ r) : ∃ qs, qs <:+ ps ∧ ps.flatMap old = v ++ qs.flatMap old ∧ r = qs.flatMap new := by
  induction v generalizing ps with
  | nil => exact ⟨ps, List.suffix_rfl, rfl, hnew.symm⟩
  | cons x v ih =>
      cases ps with
      | nil => cases hnew
      | cons p ps =>
          cases p with
          | kept y =>
              obtain ⟨rfl, hlater⟩ := List.cons.inj hnew
              obtain ⟨qs, hqs, hold, hr⟩ := ih (fun a b hab => h a b (List.mem_cons_of_mem _ hab))
                ((List.suffix_cons y v).trans hv) hlater
              exact ⟨qs, hqs.trans (List.suffix_cons _ ps), congrArg (List.cons y) hold, hr⟩
          | replaced a b =>
              have hapart := (h a b List.mem_cons_self).reaches _ hv (List.cons_ne_nil x v)
              have hboth : b ++ ps.flatMap new = (x :: v) ++ r := hnew
              rcases List.append_eq_append_iff.mp hboth with ⟨m, hm, -⟩ | ⟨m, hm, -⟩
              · exact absurd ⟨m, hm.symm⟩ hapart.2
              · exact absurd ⟨m, hm.symm⟩ hapart.1

/-- A word that stays apart from the replacements stands in the old text, before what the rest was. -/
theorem word_of_patched (hne : w ≠ []) (h : ∀ a b, .replaced a b ∈ ps → Apart w b)
    (hnew : ps.flatMap new = l ++ (w ++ r)) :
    ∃ l' qs, qs <:+ ps ∧ ps.flatMap old = l' ++ (w ++ qs.flatMap old) ∧ r = qs.flatMap new := by
  induction ps generalizing l with
  | nil => exact absurd (by simpa using hnew.symm) fun hnil : l = [] ∧ w = [] ∧ r = [] => hne hnil.2.1
  | cons p ps ih =>
      have hlater : ∀ l, ps.flatMap new = l ++ (w ++ r) →
          ∃ l' qs, qs <:+ p :: ps ∧ (p :: ps).flatMap old = l' ++ (w ++ qs.flatMap old) ∧ r = qs.flatMap new :=
        fun l hl => by
          obtain ⟨l', qs, hqs, hold, hr⟩ := ih (fun a b hab => h a b (List.mem_cons_of_mem _ hab)) hl
          exact ⟨p.old ++ l', qs, hqs.trans (List.suffix_cons p ps),
            by rw [List.flatMap_cons, hold, List.append_assoc], hr⟩
      cases l with
      | nil =>
          obtain ⟨qs, hqs, hold, hr⟩ := prefix_of_patched h List.suffix_rfl hnew
          exact ⟨[], qs, hqs, hold, hr⟩
      | cons y l =>
          cases p with
          | kept z => exact hlater l (List.cons.inj hnew).2
          | replaced a b =>
              have hboth : b ++ ps.flatMap new = (y :: l) ++ (w ++ r) := hnew
              rcases List.append_eq_append_iff.mp hboth with ⟨m, -, hm⟩ | ⟨m, hb, hm⟩
              · exact hlater m hm
              · cases m with
                | nil => exact hlater [] hm.symm
                | cons z m =>
                    have hapart := (h a b List.mem_cons_self).begins _ ⟨y :: l, hb.symm⟩ (List.cons_ne_nil z m)
                    rcases List.append_eq_append_iff.mp hm with ⟨s, hs, -⟩ | ⟨s, hs, -⟩
                    · exact absurd ⟨s, hs.symm⟩ hapart.2
                    · exact absurd ⟨s, hs.symm⟩ hapart.1

theorem suffix_of_patched (hne : w ≠ []) (h : ∀ a b, .replaced a b ∈ ps → Apart w b) (hnew : ps.flatMap new = l ++ w) :
    ∃ l', ps.flatMap old = l' ++ w := by
  obtain ⟨l', qs, hqs, hold, hr⟩ := word_of_patched (r := []) hne h (by rw [hnew, List.append_nil])
  cases qs with
  | nil => exact ⟨l', by simpa using hold⟩
  | cons q qs =>
      cases q with
      | kept x => cases hr
      | replaced a b =>
          obtain rfl : b = [] := (List.append_eq_nil_iff.mp hr.symm).1
          exact absurd List.nil_prefix ((h a [] (hqs.subset List.mem_cons_self)).reaches w List.suffix_rfl hne).2

theorem infix_of_patched (hne : w ≠ []) (h : ∀ a b, .replaced a b ∈ ps → Apart w b)
    (hnew : w <:+: ps.flatMap new) : w <:+: ps.flatMap old := by
  obtain ⟨l, r, hsplit⟩ := hnew
  obtain ⟨l', qs, -, hold, -⟩ := word_of_patched hne h (by rw [← List.append_assoc]; exact hsplit.symm)
  exact ⟨l', qs.flatMap old, by rw [hold, List.append_assoc]⟩

/-- What was put in for what is there. -/
def swap : Patch α → Patch α
  | kept x => kept x
  | replaced before after => replaced after before

theorem flatMap_swap (ps : List (Patch α)) : (ps.map swap).flatMap old = ps.flatMap new ∧
    (ps.map swap).flatMap new = ps.flatMap old := by
  induction ps with
  | nil => exact ⟨rfl, rfl⟩
  | cons p ps ih =>
      simp only [List.map_cons, List.flatMap_cons, ih.1, ih.2]
      cases p <;> exact ⟨rfl, rfl⟩

theorem apart_swap (h : ∀ a b, .replaced a b ∈ ps → Apart w a) : ∀ a b, .replaced a b ∈ ps.map swap → Apart w b := by
  intro a b hab
  obtain ⟨p, hp, hswap⟩ := List.mem_map.mp hab
  cases p with
  | kept x => cases hswap
  | replaced before after =>
      cases hswap
      exact h _ _ hp

/-- A word that stays apart from what is replaced is kept. -/
theorem infix_of_replaced (hne : w ≠ []) (h : ∀ a b, .replaced a b ∈ ps → Apart w a) (hold : w <:+: ps.flatMap old) :
    w <:+: ps.flatMap new := by
  rw [← (flatMap_swap ps).2] at hold
  exact (flatMap_swap ps).1 ▸ infix_of_patched hne (apart_swap h) hold

end Words

/-! ## Substitutions -/

section Substitutions
variable {w text : List α} [DecidableEq α] {r : Regex α} {f : Regex.Match α → List α} {P : List α → List α → Prop}

omit [DecidableEq α] in
theorem flatMap_kept {g : Patch α → List α} (hg : ∀ x, g (.kept x) = [x]) (w : List α) :
    (w.map Patch.kept).flatMap g = w := by
  rw [List.flatMap_map, List.flatMap_congr fun x _ => hg x, List.flatMap_singleton']

end Substitutions

end Patch
