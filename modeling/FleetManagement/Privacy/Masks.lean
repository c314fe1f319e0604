import FleetManagement.Library.Patches
import FleetManagement.Privacy.SharedDomains
import FleetManagement.Privacy.TokenFree

/-!
# Masks

What the passes put in the place of parts of their matches, and the words of a masked text that were words of the
text before.
-/

namespace FleetManagement

open Regex

/-- What a pass puts in the place of a part of its match. -/
inductive Mask (t : CharTables) : Text → Prop where
  | placeholder : Mask t redacted
  | bearer : Mask t ("Bearer ".toList ++ redacted)
  | quoted {q : Char} (hq : q = '"' ∨ q = '\'') : Mask t (redacted ++ [q])
  | name {q : Char} (hq : q = '"' ∨ q = '\'') : Mask t ("***".toList ++ [q])
  | address : Mask t "***@".toList
  | number {ds : Text} (hds : ∀ d ∈ ds, t.isDigit d = true) : Mask t ("***".toList ++ ds)

/-- No letter and no underscore has a case variant but characters of words, and none that is a digit. -/
def FoldsLetters (t : CharTables) : Prop := ∀ a ∈ "abcdefghijklmnopqrstuvwxyz_".toList, ∀ c, t.sameCase a c = true →
  t.isWord c = true ∧ t.isDigit c = false

/-- A word such as a key with the separator after it: it begins with a letter, and ends with a colon or an equals
sign, with white space or a quote after it. -/
structure Lead (t : CharTables) (w : Text) : Prop where
  first : ∃ c w', w = c :: w' ∧ t.isWord c = true ∧ t.isDigit c = false
  marks : ∀ c ∈ "[]*@".toList, c ∉ w
  sign : ':' ∈ w ∨ '=' ∈ w
  ends : ∀ v, v <:+ w → v ≠ [] → (∃ c ∈ v, c ∈ ":=\"'".toList) ∨ ∀ c ∈ v, t.isSpace c = true

/-- Digits and what may stand between the digits of a number. -/
structure Figures (t : CharTables) (w : Text) : Prop where
  chars : ∀ c ∈ w, t.isDigit c = true ∨ isSeparator t c = true
  last : ∃ w' d, w = w' ++ [d] ∧ t.isDigit d = true

/-- What may follow a separator as the value of a secret key. -/
def opensValue (t : CharTables) (c : Char) : Bool := !(t.isSpace c || ",;\x7d&]".toList.contains c)

/-- A part of a match that no quotes and brackets stand in. -/
structure Bare (t : CharTables) (a : Text) : Prop where
  first : ∃ c ∈ a.head?, opensValue t c = true
  marks : ∀ c ∈ "[\"'".toList, c ∉ a
  other : ∃ c ∈ a, c ∉ redacted

section Masks
variable {t : CharTables} {w a b text : Text} {m : Match Char}

/-! ## Words apart from masks -/

/-- The parts of a mask: what ends in a mark, and a quote or digits. -/
theorem Mask.parts (hb : Mask t b) : ∃ core tail x, b = core ++ tail ∧ core.getLast? = some x ∧ x ∈ "]*@".toList ∧
    (∀ c ∈ core, c ∉ ":=\"'".toList ∧ t.isDigit c = false) ∧
    ((∃ q, (q = '"' ∨ q = '\'') ∧ tail = [q]) ∨ ∀ d ∈ tail, t.isDigit d = true) ∧
    ((∃ core', core = "Bearer ".toList ++ '[' :: core') ∨ ∃ c core', core = c :: core' ∧ c ∈ "[*".toList) := by
  have hascii : ∀ c ∈ "[]*@REDACTEDBearer ".toList, c ∉ ":=\"'".toList ∧ c.toNat < 128 ∧ c.isDigit = false := by
    decide
  have hcore : ∀ core : Text, (∀ c ∈ core, c ∈ "[]*@REDACTEDBearer ".toList) →
      ∀ c ∈ core, c ∉ ":=\"'".toList ∧ t.isDigit c = false := fun core hin c hc => by
    obtain ⟨hother, hsmall, hdigit⟩ := hascii c (hin c hc)
    exact ⟨hother, not_isDigit_of hsmall hdigit⟩
  cases hb with
  | placeholder =>
      exact ⟨redacted, [], ']', by simp, by decide, by decide, hcore _ (by decide), .inr (by simp),
        .inr ⟨'[', "REDACTED]".toList, rfl, by decide⟩⟩
  | bearer =>
      exact ⟨"Bearer ".toList ++ redacted, [], ']', by simp, by decide, by decide, hcore _ (by decide), .inr (by simp),
        .inl ⟨"REDACTED]".toList, rfl⟩⟩
  | @quoted q hq =>
      exact ⟨redacted, [q], ']', rfl, by decide, by decide, hcore _ (by decide), .inl ⟨q, hq, rfl⟩,
        .inr ⟨'[', "REDACTED]".toList, rfl, by decide⟩⟩
  | @name q hq =>
      exact ⟨"***".toList, [q], '*', rfl, by decide, by decide, hcore _ (by decide), .inl ⟨q, hq, rfl⟩,
        .inr ⟨'*', "**".toList, rfl, by decide⟩⟩
  | address =>
      exact ⟨"***@".toList, [], '@', by simp, by decide, by decide, hcore _ (by decide), .inr (by simp),
        .inr ⟨'*', "**@".toList, rfl, by decide⟩⟩
  | @number ds hds =>
      exact ⟨"***".toList, ds, '*', rfl, by decide, by decide, hcore _ (by decide), .inr hds,
        .inr ⟨'*', "**".toList, rfl, by decide⟩⟩

theorem Mask.head (hb : Mask t b) : ∃ y b', b = y :: b' ∧ ¬ (y = '"' ∨ y = '\'') := by
  cases hb with
  | placeholder => exact ⟨'[', "REDACTED]".toList, rfl, by decide⟩
  | bearer => exact ⟨'B', "earer ".toList ++ redacted, rfl, by decide⟩
  | @quoted q hq => exact ⟨'[', "REDACTED]".toList ++ [q], rfl, by decide⟩
  | @name q hq => exact ⟨'*', "**".toList ++ [q], rfl, by decide⟩
  | address => exact ⟨'*', "**@".toList, rfl, by decide⟩
  | @number ds hds => exact ⟨'*', "**".toList ++ ds, rfl, by decide⟩

/-- A suffix of a mask has one of its marks, or is a suffix of its tail. -/
theorem suffix_parts {core tail u : Text} {x : Char} (hx : core.getLast? = some x) (hu : u <:+ core ++ tail) :
    x ∈ u ∨ u <:+ tail := by
  rcases List.suffix_or_suffix_of_suffix hu (List.suffix_append core tail) with h | ⟨v, rfl⟩
  · exact .inr h
  · cases v with
    | nil => exact .inr List.suffix_rfl
    | cons y v =>
        obtain ⟨z, hz⟩ := hu
        rw [← List.append_assoc, List.append_left_inj] at hz
        rw [← hz, List.getLast?_append_of_ne_nil _ (List.cons_ne_nil y v)] at hx
        exact .inl (List.mem_append_left _ (List.mem_of_getLast? hx))

/-- A key with its separator neither reaches into a mask nor begins in one. -/
theorem Lead.apart (hw : Lead t w) (hb : Mask t b) : Patch.Apart w b := by
  obtain ⟨core, tail, x, rfl, hx, hmark, hcore, htail, hfront⟩ := hb.parts
  obtain ⟨c, w', hw', hword, hdigit⟩ := hw.first
  have hmarks : ∀ y ∈ "]*@".toList, y ∈ "[]*@".toList := by decide
  have hno : x ∉ w := hw.marks x (hmarks x hmark)
  have hxcore : x ∈ core := List.mem_of_getLast? hx
  have hquotes : ∀ q, q = '"' ∨ q = '\'' → t.isWord q = false ∧ t.isDigit q = false := by
    rintro q (rfl | rfl)
    · exact ⟨not_isWord_of (by decide) (by decide), not_isDigit_of (by decide) (by decide)⟩
    · exact ⟨not_isWord_of (by decide) (by decide), not_isDigit_of (by decide) (by decide)⟩
  have hsign : ∀ y ∈ ":=".toList, y ∉ core ++ tail := by
    intro y hy hmem
    have hsigns : ∀ y ∈ ":=".toList, y ∈ ":=\"'".toList ∧ y ≠ '"' ∧ y ≠ '\'' ∧ y.toNat < 128 ∧ y.isDigit = false := by
      decide
    obtain ⟨hy, hne, hne', hsmall, hfigure⟩ := hsigns y hy
    rcases List.mem_append.mp hmem with hmem | hmem
    · exact (hcore y hmem).1 hy
    rcases htail with ⟨q, hq, rfl⟩ | hds
    · obtain rfl := List.mem_singleton.mp hmem
      exact hq.elim hne hne'
    · exact absurd (hds y hmem) (by rw [not_isDigit_of hsmall hfigure]; exact Bool.false_ne_true)
  constructor
  · intro v hv hne
    refine ⟨fun hstart => ?_, fun hstart => hno (hv.subset (hstart.subset (List.mem_append_left _ hxcore)))⟩
    obtain ⟨y, v, rfl⟩ := List.exists_cons_of_ne_nil hne
    rcases hfront with ⟨core', rfl⟩ | ⟨z, core', rfl, hz⟩
    · rcases hw.ends _ hv hne with ⟨s, hs, hend⟩ | hspace
      · have hbearer : "Bearer [".toList <+: ("Bearer ".toList ++ '[' :: core') ++ tail := ⟨core' ++ tail, by simp⟩
        have hother : ∀ s ∈ "Bearer [".toList, s ∉ ":=\"'".toList := by decide
        rcases List.prefix_or_prefix_of_prefix hstart hbearer with h | h
        · exact hother s (h.subset hs) hend
        · exact hw.marks '[' (by decide) (hv.subset (h.subset (by decide)))
      · obtain ⟨rfl, -⟩ := List.cons_prefix_cons.mp hstart
        have hB := hspace _ List.mem_cons_self
        rw [not_isSpace_of (by decide) (by decide)] at hB
        cases hB
    · obtain ⟨rfl, -⟩ := List.cons_prefix_cons.mp hstart
      have hbegins : ∀ y ∈ "[*".toList, y ∈ "[]*@".toList := by decide
      exact hw.marks y (hbegins y hz) (hv.subset List.mem_cons_self)
  · intro u hu hne
    constructor
    · intro hstart
      rcases suffix_parts hx hu with hin | hin
      · exact hno (hstart.subset hin)
      obtain ⟨y, u, rfl⟩ := List.exists_cons_of_ne_nil hne
      rw [hw'] at hstart
      obtain ⟨rfl, -⟩ := List.cons_prefix_cons.mp hstart
      rcases htail with ⟨q, hq, rfl⟩ | hds
      · obtain rfl := List.mem_singleton.mp (hin.subset List.mem_cons_self)
        rw [(hquotes y hq).1] at hword
        cases hword
      · rw [hds y (hin.subset List.mem_cons_self)] at hdigit
        cases hdigit
    · intro hstart
      rcases hw.sign with hs | hs
      · exact hsign ':' (by decide) (hu.subset (hstart.subset hs))
      · exact hsign '=' (by decide) (hu.subset (hstart.subset hs))

theorem Figures.marks (hw : Figures t w) {c : Char} (hc : c ∈ "[]*@\"':=".toList) : c ∉ w := by
  intro hmem
  have hascii : ∀ c ∈ "[]*@\"':=".toList, c.toNat < 128 ∧ c.isDigit = false ∧ asciiSpaces.contains c = false ∧
      "().-".toList.contains c = false := by decide
  obtain ⟨hsmall, hdigit, hspace, hother⟩ := hascii c hc
  rcases hw.chars c hmem with h | h
  · rw [not_isDigit_of hsmall hdigit] at h
    cases h
  · rw [isSeparator, not_isSpace_of hsmall hspace, hother] at h
    cases h

/-- The digits of a number neither reach into a mask without digits nor begin in one. -/
theorem Figures.apart (hw : Figures t w) (hb : Mask t b) (hno : ∀ c ∈ b, t.isDigit c = false) : Patch.Apart w b := by
  obtain ⟨w', d, hlast, hd⟩ := hw.last
  have hmark : ∀ c ∈ "]*@\"'".toList, c ∉ w := fun c hc =>
    hw.marks ((by decide : ∀ c ∈ "]*@\"'".toList, c ∈ "[]*@\"':=".toList) c hc)
  have hlast' : w.getLast? = some d := by rw [hlast, List.getLast?_concat]
  have hdb : d ∉ b := fun hmem => by
    rw [hno d hmem] at hd
    cases hd
  cases hb with
  | placeholder => exact .of_last hlast' (z := ']') (by decide) hdb (hmark _ (by decide))
  | bearer => exact .of_last hlast' (z := ']') (by decide) hdb (hmark _ (by decide))
  | @quoted q hq =>
      refine .of_last hlast' (z := q) List.getLast?_concat hdb (hmark q ?_)
      rcases hq with rfl | rfl <;> decide
  | @name q hq =>
      refine .of_last hlast' (z := q) List.getLast?_concat hdb (hmark q ?_)
      rcases hq with rfl | rfl <;> decide
  | address => exact .of_last hlast' (z := '@') (by decide) hdb (hmark _ (by decide))
  | @number ds hds =>
      cases ds with
      | nil => exact .of_last hlast' (z := '*') (by decide) hdb (hmark _ (by decide))
      | cons d' ds =>
          have hfigure := hno d' (by simp)
          rw [hds d' List.mem_cons_self] at hfigure
          cases hfigure

/-! ## The passes -/

theorem opensValue_of {c : Char} (hsmall : c.toNat < 128) (hspace : asciiSpaces.contains c = false)
    (hother : ",;\x7d&]".toList.contains c = false) : opensValue t c = true := by
  rw [opensValue, not_isSpace_of hsmall hspace, hother]
  rfl

theorem figures_of_groups {d : Char} {us : List Text} (hd : t.isDigit d = true) (hus : ∀ u ∈ us, PhoneGroup t u) :
    Figures t (d :: us.flatten) where
  chars c hc := by
    rcases List.mem_cons.mp hc with rfl | hc
    · exact .inl hd
    obtain ⟨u, hu, hc⟩ := List.mem_flatten.mp hc
    cases hus u hu with
    | digit he =>
        obtain rfl := List.mem_singleton.mp hc
        exact .inl he
    | separated hs he =>
        rcases List.mem_cons.mp hc with rfl | hc
        · exact .inr hs
        · obtain rfl := List.mem_singleton.mp hc
          exact .inl he
  last := by
    rcases List.eq_nil_or_concat us with rfl | ⟨vs, u, rfl⟩
    · exact ⟨[], d, rfl, hd⟩
    · obtain ⟨init, e, rfl, he⟩ := (hus u (by simp)).hit.last
      exact ⟨d :: (vs.flatten ++ init), e, by simp, he⟩

end Masks

end FleetManagement
