import FleetManagement.Privacy.Masks

/-!
# Numbers that stay masked

The last digits of a masked number make no number with what follows, unless seven digits follow the number. The
dates that a pass leaves are left by the next pass, too.
-/

namespace FleetManagement

open Regex

section Numbers
variable (t : CharTables)

/-- `\d(?:[\s().-]?\d){8,}[\s().-]\d(?:[\s().-]?\d){6,}` -/
def longNumberRe : Regex Char :=
  .chain [digit t, .rep (phoneGroupRe t) 8 none true, .one (isSeparator t), digit t, .rep (phoneGroupRe t) 6 none true]

end Numbers

section Phones
variable {t : CharTables} {c c' d : Cursor Char} {ps : List (Piece Char)} {w r : Text} {us : List Text}

/-! ## The preferred match -/

theorem phoneGroup_matches {u : Text} (h : PhoneGroup t u) : (phoneGroupRe t).Matches u := by
  cases h with
  | @digit x hx => exact ⟨[], [x], matches_opt.mpr (.inl rfl), ⟨x, hx, rfl⟩, rfl⟩
  | @separated s x hs hx => exact ⟨[s], [x], matches_opt.mpr (.inr ⟨s, hs, rfl⟩), ⟨x, hx, rfl⟩, rfl⟩

theorem phone_way {plus : Text} {e : Char} (hword : PhoneWord t plus e us) (hc : c.rest = plus ++ e :: us.flatten ++ r)
    (hjoins : joins t c.before.head? = false) (hnext : r.head?.any t.isWord = false) :
    ∃ d ∈ (phoneRe t).ways c, Reads c d (plus ++ e :: us.flatten) := by
  have hgroup : (phoneGroupRe t).Plain ∧ ¬ (phoneGroupRe t).Matches [] := by
    refine ⟨⟨⟨trivial, one_not_nil⟩, trivial⟩, ?_⟩
    rintro ⟨u, v, -, ⟨x, -, rfl⟩, h⟩
    simp at h
  have hplus : (opt (literal "+")).Matches plus := by
    rcases hword.plus with rfl | rfl
    · exact matches_opt.mpr (.inl rfl)
    · exact matches_opt.mpr (.inr (literal_matches.mpr rfl))
  have hgroups : (Regex.rep (phoneGroupRe t) 8 (some 14) true).Matches us.flatten :=
    ⟨us, hword.min, fun n hn => by cases hn; exact hword.max, fun u hu => phoneGroup_matches (hword.groups u hu), rfl⟩
  obtain ⟨c₁, hc₁, hread₁⟩ := ways_complete (c := c) (r := opt (literal "+")) ⟨trivial, one_not_nil⟩ hplus
    ⟨e :: us.flatten ++ r, by rw [hc]; simp⟩
  have hrest₁ : c₁.rest = e :: us.flatten ++ r :=
    List.append_cancel_left (hread₁.rest.symm.trans (by rw [hc]; simp))
  obtain ⟨c₂, hc₂, hread₂⟩ := ways_complete (c := c₁) (r := digit t) trivial (w := [e]) ⟨e, hword.digit, rfl⟩
    ⟨us.flatten ++ r, by rw [hrest₁]; simp⟩
  have hrest₂ : c₂.rest = us.flatten ++ r := List.append_cancel_left (hread₂.rest.symm.trans (by rw [hrest₁]; simp))
  obtain ⟨c₃, hc₃, hread₃⟩ := ways_complete (c := c₂) (r := .rep (phoneGroupRe t) 8 (some 14) true) hgroup hgroups
    ⟨r, hrest₂.symm⟩
  have hrest₃ : c₃.rest = r := List.append_cancel_left (hread₃.rest.symm.trans hrest₂)
  refine ⟨c₃, mem_ways_seq.mpr ⟨c, mem_ways_assert.mpr ⟨rfl, ?_⟩, mem_ways_seq.mpr ⟨c₁, hc₁, mem_ways_seq.mpr ⟨c₂, hc₂,
    mem_ways_seq.mpr ⟨c₃, hc₃, mem_ways_assert.mpr ⟨rfl, ?_⟩⟩⟩⟩⟩, ?_⟩
  · rw [← joins, hjoins]
    rfl
  · rw [hrest₃, hnext]
    rfl
  · simpa using hread₁.trans (hread₂.trans hread₃)

/-! ## What follows a number -/

theorem last_of_groups (hus : ∀ u ∈ us, PhoneGroup t u) (hne : us ≠ []) (before : Text) :
    ∃ e ∈ (us.flatten.reverse ++ before).head?, t.isDigit e = true := by
  rcases List.eq_nil_or_concat us with rfl | ⟨vs, u, rfl⟩
  · exact absurd rfl hne
  · obtain ⟨init, e, rfl, he⟩ := (hus u (by simp)).hit.last
    exact ⟨e, by simp, he⟩

theorem PhoneWord.all {plus : Text} {y : Char} (h : PhoneWord t plus y us) : ∀ u ∈ [y] :: us, PhoneGroup t u :=
  List.forall_mem_cons.mpr ⟨.digit h.digit, h.groups⟩

/-- A number ends with a digit. -/
theorem PhoneWord.last {plus : Text} {y : Char} (h : PhoneWord t plus y us) (before : Text) :
    ∃ e ∈ ((plus ++ y :: us.flatten).reverse ++ before).head?, t.isDigit e = true := by
  have hlast := last_of_groups h.all (List.cons_ne_nil _ _) (plus.reverse ++ before)
  simpa using hlast

theorem longNumber_search {text : Text} (h : (longNumberRe t).search text = false) (hw : (longNumberRe t).Matches w) :
    ¬ w <:+: text := by
  have hplain : (longNumberRe t).Plain := by
    have hgroup : ¬ (phoneGroupRe t).Matches [] := by
      rintro ⟨u, v, -, ⟨x, -, rfl⟩, h⟩
      simp at h
    have hgroups : (phoneGroupRe t).Plain := ⟨⟨trivial, one_not_nil⟩, trivial⟩
    exact ⟨trivial, ⟨hgroups, hgroup⟩, trivial, trivial, hgroups, hgroup⟩
  rintro ⟨u, v, rfl⟩
  have hfound := (search_iff hplain).mpr ⟨u, w, v, List.append_assoc u w v, hw⟩
  rw [h] at hfound
  cases hfound

theorem figures_of_longNumber (hw : (longNumberRe t).Matches w) : Figures t w := by
  obtain ⟨_, _, ⟨e, he, rfl⟩, ⟨_, _, ⟨us, -, -, hus, rfl⟩, ⟨_, _, ⟨s, hs, rfl⟩, ⟨_, _, ⟨x, hx, rfl⟩,
    ⟨vs, -, -, hvs, rfl⟩, rfl⟩, rfl⟩, rfl⟩, rfl⟩ := hw
  have hgroups : ∀ u ∈ us ++ [s, x] :: vs, PhoneGroup t u := fun u hu => by
    rcases List.mem_append.mp hu with hu | hu
    · exact phoneGroup_of_matches (hus u hu)
    rcases List.mem_cons.mp hu with rfl | hu
    · exact .separated hs hx
    · exact phoneGroup_of_matches (hvs u hu)
  have hall := figures_of_groups he hgroups
  simpa using hall

end Phones

end FleetManagement
