import FleetManagement.Privacy.EmbeddedSecrets
import FleetManagement.Privacy.EmailMasking
import Mathlib.Data.List.DropRight

/-!
# Values that are longer than a match

A value with quotes in it is longer than what the redaction takes of it: blocks of quotes and blanks stay in
the text, all but one for each pass.
-/

namespace FleetManagement

open Regex

/-- `\"'x ` -/
def tailBlock : Text := ['\\', '"', '\'', 'x', ' ']

section Blocks
variable {t : CharTables}

theorem tailBlock_suffix {s : Text} (hs : s <:+ tailBlock) (hne : s ≠ []) :
    (∃ y s', s = y :: s' ∧ y ∈ punctuation) ∨ s = ['x', ' '] := by
  rw [← List.mem_tails] at hs
  simp only [tailBlock, List.tails, List.mem_cons, List.not_mem_nil, or_false] at hs
  rcases hs with rfl | rfl | rfl | rfl | rfl | rfl
  · exact Or.inl ⟨'\\', _, rfl, by decide⟩
  · exact Or.inl ⟨'"', _, rfl, by decide⟩
  · exact Or.inl ⟨'\'', _, rfl, by decide⟩
  · exact Or.inr rfl
  · exact Or.inl ⟨' ', _, rfl, by decide⟩
  · exact absurd rfl hne

/-- A pattern that reads no punctuation, and something else than an `x`, has no word at the front of the
block. -/
theorem no_word_in_tailBlock {r : Regex Char} (havoid : ∀ c ∈ punctuation, r.Avoids c)
    (hneeds : r.Needs fun c => c ≠ 'x') {s rest u v : Text} (hs : s <:+ tailBlock) (hne : s ≠ [])
    (hu : r.Matches u) : s ++ rest ≠ u ++ v := by
  intro hsplit
  obtain ⟨x, hx, hxne⟩ := hu.exists_of_needs hneeds
  cases u with
  | nil => cases hx
  | cons y u =>
      rcases tailBlock_suffix hs hne with ⟨z, s', rfl, hz⟩ | rfl
      · obtain ⟨rfl, -⟩ := List.cons.inj hsplit
        exact not_mem_of_avoids (havoid z hz) hu List.mem_cons_self
      · obtain ⟨rfl, hafter⟩ := List.cons.inj hsplit
        cases u with
        | nil =>
            rw [List.mem_singleton] at hx
            exact hxne hx
        | cons z u =>
            obtain ⟨rfl, -⟩ := List.cons.inj hafter
            exact not_mem_of_avoids (havoid ' ' (by decide)) hu (by simp)

/-- A match with no backslash ends before the block. -/
theorem ends_of_no_backslash {r : Regex Char} (hr : ∀ w, r.Matches w → '\\' ∉ w) {c d : Cursor Char}
    {u w rest : Text} (hd : (r.ways c).head? = some d) (hc : c.rest = u ++ (tailBlock ++ rest))
    (hread : Reads c d w) : w.length ≤ u.length + tailBlock.length := by
  obtain ⟨w', hw, hread'⟩ := ways_sound (List.mem_of_mem_head? hd)
  obtain rfl : w = w' := List.append_cancel_right (hread.rest.symm.trans hread'.rest)
  have hno := hr w hw
  rcases List.append_eq_append_iff.mp (hc.symm.trans hread.rest) with ⟨a, rfl, ha⟩ | ⟨a, rfl, -⟩
  · cases a with
    | nil => simp
    | cons x a =>
        obtain ⟨rfl, -⟩ := List.cons.inj ha
        exact absurd (by simp) hno
  · simp only [List.length_append]
    omega

theorem anyCase_needs_other {s : String} {a : Char} (hs : a ∈ s.toList) (ha : a ∈ "abcflpstw".toList) :
    (anyCase t s).Needs fun c => c ≠ 'x' := by
  refine needs_chain (List.mem_map.mpr ⟨a, hs, rfl⟩) fun x (hx : t.sameCase a x = true) => ?_
  have hascii : ∀ a ∈ "abcflpstw".toList, a.toNat < 128 ∧ (a.toLower == 'x'.toLower) = false := by decide
  rintro rfl
  obtain ⟨ha, hne⟩ := hascii a ha
  rw [t.sameCase_ascii a 'x' ha (by decide), hne] at hx
  cases hx

theorem literal_needs_other {s : String} {a : Char} (hs : a ∈ s.toList) (ha : a ≠ 'x') :
    (literal s).Needs fun c => c ≠ 'x' :=
  needs_chain (List.mem_map.mpr ⟨a, hs, rfl⟩) fun x hx => by rwa [beq_iff_eq.mp hx]

theorem literal_avoids {s : String} {c : Char} (hc : c ∉ s.toList) : (literal s).Avoids c := by
  refine avoids_chain fun r hr => ?_
  obtain ⟨a, ha, rfl⟩ := List.mem_map.mp hr
  exact beq_eq_false_iff_ne.mpr fun h => hc (h ▸ ha)

/-! ## The patterns without values -/

theorem head?_none_of_words {r : Regex Char} {c : Cursor Char} (h : ∀ w rest, r.Matches w → c.rest ≠ w ++ rest) :
    (r.ways c).head? = none := by
  cases hd : (r.ways c).head? with
  | none => rfl
  | some d =>
      obtain ⟨w, hw, hread⟩ := ways_sound (List.mem_of_mem_head? hd)
      exact absurd hread.rest (h w d.rest hw)

/-- A pattern that begins with a word, after an assertion or not, and that reads no backslash. -/
theorem blocks_of_word {r word : Regex Char} (havoid : ∀ c ∈ punctuation, word.Avoids c)
    (hneeds : word.Needs fun c => c ≠ 'x') (hbegin : ∀ w, r.Matches w → ∃ u v, word.Matches u ∧ w = u ++ v)
    (hback : ∀ w, r.Matches w → '\\' ∉ w) : Blocks r tailBlock where
  nonempty h := by
    obtain ⟨u, v, hu, hsplit⟩ := hbegin [] h
    obtain ⟨x, hx, -⟩ := hu.exists_of_needs hneeds
    rw [(List.append_eq_nil_iff.mp hsplit.symm).1] at hx
    cases hx
  begins s hs hne c rest hc := head?_none_of_words fun w rest' hw hsplit => by
    obtain ⟨u, v, hu, rfl⟩ := hbegin w hw
    rw [hc, List.append_assoc] at hsplit
    exact no_word_in_tailBlock havoid hneeds hs hne hu hsplit
  ends c d u w rest hd _ hc hread := ends_of_no_backslash hback hd hc hread

theorem bearer_blocks : Blocks (bearerRe t) tailBlock := by
  have hword : ∀ c ∈ punctuation, (anyCase t "bearer").Avoids c := fun c hc =>
    anyCase_avoids (s := "bearer") (by decide) hc
  refine blocks_of_word hword (anyCase_needs_other (s := "bearer") (a := 'b') (by decide) (by decide)) ?_ ?_
  · rintro w ⟨_, _, rfl, ⟨u, v, hu, -, rfl⟩, rfl⟩
    exact ⟨u, v, hu, rfl⟩
  · rintro w ⟨_, v, rfl, hv, rfl⟩
    have hspace : t.isSpace '\\' = false := not_isSpace_of (by decide) (by decide)
    have hletter : anyCaseLetter t '\\' = false := by
      rw [anyCaseLetter, List.any_eq_false]
      intro a ha
      have hascii : ∀ a ∈ "abcdefghijklmnopqrstuvwxyz".toList,
          a.toNat < 128 ∧ (a.toLower == '\\'.toLower) = false := by decide +kernel
      obtain ⟨hlt, hne⟩ := hascii a ha
      rw [t.sameCase_ascii a '\\' hlt (by decide), hne]
      simp
    have hother : ('\\'.isDigit || "._~+/=-".toList.contains '\\') = false := by decide
    have hlast : (anyCaseLetter t '\\' || '\\'.isDigit || "._~+/=-".toList.contains '\\') = false := by
      rw [hletter]; exact hother
    exact not_mem_of_avoids
      (r := .chain [anyCase t "bearer", .plus (space t),
        .plus (.one fun c => anyCaseLetter t c || c.isDigit || "._~+/=-".toList.contains c)])
      ⟨hword '\\' (by decide), ⟨hspace, one_not_nil⟩, hlast, one_not_nil⟩ hv

theorem jwt_blocks : Blocks (jwtRe t) tailBlock := by
  have hword : ∀ c ∈ punctuation, (literal "eyJ").Avoids c := fun c hc =>
    literal_avoids (s := "eyJ") (by rintro hmem; revert c; decide)
  refine blocks_of_word hword (literal_needs_other (s := "eyJ") (a := 'e') (by decide) (by decide)) ?_ ?_
  · rintro w ⟨_, _, rfl, ⟨u, v, hu, -, rfl⟩, rfl⟩
    exact ⟨u, v, hu, rfl⟩
  · rintro w ⟨_, v, rfl, hv, rfl⟩
    have hpart : base64Url '\\' = false := by decide
    have hdot : (literal ".").Avoids '\\' := literal_avoids (s := ".") (by decide)
    exact not_mem_of_avoids
      (r := .chain [literal "eyJ", .plus (.one base64Url), literal ".", .plus (.one base64Url), literal ".",
        .star (.one base64Url)])
      ⟨hword '\\' (by decide), ⟨hpart, one_not_nil⟩, hdot, ⟨hpart, one_not_nil⟩, hdot, hpart, one_not_nil⟩ hv

theorem hash_blocks : Blocks (hashRe t) tailBlock := by
  have hword : ∀ c ∈ punctuation, (literal "$argon2").Avoids c := fun c hc =>
    literal_avoids (s := "$argon2") (by rintro hmem; revert c; decide)
  refine blocks_of_word hword (literal_needs_other (s := "$argon2") (a := '$') (by decide) (by decide)) ?_ ?_
  · rintro w ⟨u, v, hu, -, rfl⟩
    exact ⟨u, v, hu, rfl⟩
  · intro w hw
    have hpart : (t.isWord '\\' || "$=,+/.-".toList.contains '\\') = false := by
      rw [not_isWord_of (by decide) (by decide)]; decide
    exact not_mem_of_avoids (r := hashRe t) ⟨hword '\\' (by decide), hpart, one_not_nil⟩ hw

theorem email_blocks : Blocks emailRe tailBlock where
  nonempty := email_not_empty
  begins s hs hne c rest hc := head?_none_of_words fun w rest' hw hsplit => by
    obtain ⟨x, l, dom, rfl, hx, hl, -⟩ := email_word hw
    have hpunctuation : ∀ y ∈ punctuation, isLocal y = false := by decide
    rw [hc] at hsplit
    rcases tailBlock_suffix hs hne with ⟨y, s', rfl, hy⟩ | rfl
    · obtain ⟨rfl, -⟩ := List.cons.inj hsplit
      rw [hpunctuation y hy] at hx
      cases hx
    · obtain ⟨-, hafter⟩ := List.cons.inj hsplit
      cases l with
      | nil => cases hafter
      | cons y l =>
          obtain ⟨rfl, -⟩ := List.cons.inj hafter
          exact absurd (hl ' ' List.mem_cons_self) (by decide)
  ends c d u w rest hd _ hc hread := ends_of_no_backslash (fun w hw => by
    obtain ⟨x, l, dom, rfl, hx, hl, hdom⟩ := email_word hw
    have hlocal : isLocal '\\' = false := by decide
    have hdomain : ¬ (isLabel '\\' ∨ '\\' = '.') := by decide
    simp only [List.mem_cons, List.mem_append, not_or]
    refine ⟨?_, fun h => ?_, by decide, fun h => hdomain (hdom.chars _ h)⟩
    · rintro rfl
      rw [hlocal] at hx
      cases hx
    · have hback := hl _ h
      rw [hlocal] at hback
      cases hback) hd hc hread

theorem phone_blocks : Blocks (phoneRe t) tailBlock where
  nonempty h := by
    obtain ⟨init, d, hw, -⟩ := (phoneHit_of_matches h).last
    simp at hw
  begins s hs hne c rest hc := by
    have hnone : (phoneRe t).ways c = [] := by
      have hno : ∀ y, y ∈ punctuation ∨ y = 'x' → t.isDigit y = false ∧ y ≠ '+' := by
        have hascii : ∀ y ∈ 'x' :: punctuation, y.toNat < 128 ∧ y.isDigit = false ∧ y ≠ '+' := by decide
        intro y hy
        obtain ⟨hlt, hdigit, hplus⟩ := hascii y (List.mem_cons.mpr hy.symm)
        exact ⟨not_isDigit_of hlt hdigit, hplus⟩
      have hfirst : ∃ y rest', c.rest = y :: rest' ∧ (y ∈ punctuation ∨ y = 'x') := by
        rcases tailBlock_suffix hs hne with ⟨y, s', rfl, hy⟩ | rfl
        · exact ⟨y, _, hc, Or.inl hy⟩
        · exact ⟨'x', _, hc, Or.inr rfl⟩
      obtain ⟨y, rest', hy, hmem⟩ := hfirst
      refine phone_ways_nil (fun e he => ?_) fun e v hv => ?_
      · rw [hy, List.head?_cons, Option.mem_some_iff] at he
        exact he ▸ (hno y hmem).1
      · exact absurd (List.cons.inj (hy.symm.trans hv)).1 (hno y hmem).2
    rw [hnone]
    rfl
  ends c d u w rest hd _ hc hread := ends_of_no_backslash (fun w hw => by
    obtain ⟨plus, e, us, rfl, hword⟩ := exists_phoneWord hw
    have hdigit : t.isDigit '\\' = false := not_isDigit_of (by decide) (by decide)
    have hsep : isSeparator t '\\' = false := by
      rw [isSeparator, not_isSpace_of (by decide) (by decide)]; decide
    simp only [List.mem_cons, List.mem_append, not_or]
    refine ⟨by rcases hword.plus with h | h <;> rw [h] <;> decide, ?_, fun h => ?_⟩
    · rintro rfl
      have he := hword.digit
      rw [hdigit] at he
      cases he
    · obtain ⟨g, hg, hmem⟩ := List.mem_flatten.mp h
      have hgroup := hword.groups g hg
      cases hgroup with
      | digit he =>
          rw [List.mem_singleton] at hmem
          rw [← hmem, hdigit] at he
          cases he
      | separated hs he =>
          simp only [List.mem_cons, List.not_mem_nil, or_false] at hmem
          rcases hmem with rfl | rfl
          · rw [hsep] at hs; cases hs
          · rw [hdigit] at he; cases he) hd hc hread

/-! ## The patterns with quoted values -/

/-- A text that is closed by its first quote does not go on after a quote. -/
theorem nothing_after_quote {q : Char} {body a w : Text} (hbody : q ∉ body)
    (h : body ++ [q] = a ++ q :: w) : w = [] := by
  rcases List.append_eq_append_iff.mp h with ⟨m, rfl, hm⟩ | ⟨m, rfl, hm⟩
  · cases m with
    | nil => exact (List.cons.inj hm).2.symm
    | cons x m => exact absurd (congrArg List.length hm) (by simp)
  · cases m with
    | nil => exact (List.cons.inj hm).2
    | cons x m =>
        obtain ⟨rfl, -⟩ := List.cons.inj hm
        exact absurd (by simp) hbody

/-- A closed text ends before the block does. -/
theorem not_closed_over_block {q : Char} {body a rest : Text} (hq : q = '"' ∨ q = '\'') (hbody : q ∉ body) :
    q :: (body ++ [q]) ≠ a ++ (tailBlock ++ rest) := by
  intro h
  cases a with
  | nil =>
      have hfirst := (List.cons.inj h).1
      rcases hq with rfl | rfl <;> cases hfirst
  | cons y a =>
      have h := (List.cons.inj h).2
      rcases hq with rfl | rfl
      · have hnil := nothing_after_quote (a := a ++ ['\\']) (w := '\'' :: 'x' :: ' ' :: rest) hbody
          (by rw [h]; simp [tailBlock])
        cases hnil
      · have hnil := nothing_after_quote (a := a ++ ['\\', '"']) (w := 'x' :: ' ' :: rest) hbody
          (by rw [h]; simp [tailBlock])
        cases hnil

/-- A prefix with no backslash stands before the block. -/
theorem prefix_of_no_backslash {u v a rest : Text} (hu : '\\' ∉ u) (h : u ++ v = a ++ (tailBlock ++ rest)) :
    ∃ a', a = u ++ a' ∧ v = a' ++ (tailBlock ++ rest) := by
  rcases List.append_eq_append_iff.mp h with ⟨m, rfl, hm⟩ | ⟨m, rfl, hm⟩
  · exact ⟨m, rfl, hm⟩
  · cases m with
    | nil => exact ⟨[], by simp, by simpa using hm.symm⟩
    | cons x m =>
        obtain ⟨rfl, -⟩ := List.cons.inj hm
        exact absurd (by simp) hu

/-- A word of a quoted text. -/
theorem quoted_word {q : Char} {w : Text} (h : (quoted q).Matches w) : ∃ body, w = q :: (body ++ [q]) ∧ q ∉ body := by
  obtain ⟨_, _, ⟨x, hx, rfl⟩, ⟨body, _, hbody, ⟨y, hy, rfl⟩, rfl⟩, rfl⟩ := h
  rw [beq_iff_eq] at hx hy
  subst hx hy
  refine ⟨body, rfl, fun hmem => ?_⟩
  have hne := matches_star_one.mp hbody _ hmem
  simp at hne

theorem secretValue_not_over_block {w a rest : Text} (h : (secretValue t).Matches w) :
    w ≠ a ++ (tailBlock ++ rest) := by
  intro hw
  rw [secretValue_eq] at h
  rcases h with h | h | ⟨u, v, hu, hv, rfl⟩
  · obtain ⟨body, rfl, hbody⟩ := quoted_word h
    exact not_closed_over_block (Or.inl rfl) hbody hw
  · obtain ⟨body, rfl, hbody⟩ := quoted_word h
    exact not_closed_over_block (Or.inr rfl) hbody hw
  · have hspace : t.isSpace '\\' = false := not_isSpace_of (by decide) (by decide)
    have hno : '\\' ∉ u := by
      rcases matches_opt.mp hu with rfl | hu
      · simp
      · refine not_mem_of_avoids (r := .seq (.anyOf (anyCase t "bearer") [anyCase t "basic"]) (.plus (space t)))
          ⟨⟨?_, ?_⟩, hspace, one_not_nil⟩ hu
        · exact anyCase_avoids (s := "bearer") (by decide) (by decide)
        · exact anyCase_avoids (s := "basic") (by decide) (by decide)
    obtain ⟨a', -, rfl⟩ := prefix_of_no_backslash hno hw
    have hblank := (matches_plus_one.mp hv).2 ' ' (by simp [tailBlock])
    have hisSpace : t.isSpace ' ' = true := by rw [t.space_ascii ' ' (by decide)]; decide
    rw [hisSpace] at hblank
    cases hblank

theorem secretKey_needs_other : (secretKeyRe t).Needs fun c => c ≠ 'x' := by
  have hapi : (Regex.chain [anyCase t "api", .opt (chars "_-"), anyCase t "key"]).Needs fun c => c ≠ 'x' :=
    Or.inl (anyCase_needs_other (s := "api") (a := 'a') (by decide) (by decide))
  refine Or.inr (Or.inl (needs_anyOf ?_))
  simp only [List.forall_mem_cons]
  refine ⟨?_, ?_, ?_, ?_, hapi, ?_, ?_, ?_, by simp⟩
  · exact anyCase_needs_other (s := "password") (a := 'p') (by decide) (by decide)
  · exact anyCase_needs_other (s := "passwd") (a := 'p') (by decide) (by decide)
  · exact anyCase_needs_other (s := "pwd") (a := 'p') (by decide) (by decide)
  · exact anyCase_needs_other (s := "token") (a := 't') (by decide) (by decide)
  · exact anyCase_needs_other (s := "secret") (a := 's') (by decide) (by decide)
  · exact anyCase_needs_other (s := "authorization") (a := 'a') (by decide) (by decide)
  · exact anyCase_needs_other (s := "credential") (a := 'c') (by decide) (by decide)

theorem separator_avoids_backslash : (separator t).Avoids '\\' := by
  have hspace : t.isSpace '\\' = false := not_isSpace_of (by decide) (by decide)
  exact ⟨⟨show "\"'".toList.contains '\\' = false by decide, one_not_nil⟩, ⟨hspace, one_not_nil⟩,
    show ":=".toList.contains '\\' = false by decide, hspace, one_not_nil⟩

/-- A match that reaches beyond the block covers it. -/
theorem length_le_of_not_over {c d : Cursor Char} {u w rest : Text} (hc : c.rest = u ++ (tailBlock ++ rest))
    (hread : Reads c d w) (hno : ∀ rest', w ≠ u ++ (tailBlock ++ rest')) :
    w.length ≤ u.length + tailBlock.length := by
  by_contra hlt
  rw [not_le] at hlt
  have hprefix : u ++ tailBlock <+: w := by
    refine List.prefix_of_prefix_length_le (show _ <+: c.rest from ⟨rest, by rw [hc]; simp⟩)
      ⟨d.rest, hread.rest.symm⟩ ?_
    rw [List.length_append]
    exact hlt.le
  obtain ⟨rest', hrest'⟩ := hprefix
  exact hno rest' (by rw [← hrest']; simp)

theorem secretKv_blocks : Blocks (secretKvRe t) tailBlock where
  nonempty := secretKv_not_nil
  begins s hs hne c rest hc := by
    cases hd : ((secretKvRe t).ways c).head? with
    | none => rfl
    | some d =>
        obtain ⟨u, v, e, -, hu, -, hsplit, -⟩ := secretKv_head hd
        rw [hc] at hsplit
        exact absurd hsplit
          (no_word_in_tailBlock (fun c hc => secretKey_avoids hc) secretKey_needs_other hs hne hu)
  ends c d u w rest hd _ hc hread := by
    refine length_le_of_not_over hc hread fun rest' hw => ?_
    obtain ⟨w', ⟨k, _, hk, ⟨v, val, hv, hval, rfl⟩, rfl⟩, hread'⟩ := ways_sound (List.mem_of_mem_head? hd)
    obtain rfl : w = k ++ (v ++ val) := List.append_cancel_right (hread.rest.symm.trans hread'.rest)
    have hkno : '\\' ∉ k := not_mem_of_avoids (secretKey_avoids (t := t) (by decide)) hk
    obtain ⟨a, rfl, hrest⟩ := prefix_of_no_backslash hkno hw
    obtain ⟨a', rfl, hrest'⟩ := prefix_of_no_backslash (not_mem_of_avoids separator_avoids_backslash hv) hrest
    exact secretValue_not_over_block hval hrest'

/-- The names whose values are masked. -/
def nameKey (t : CharTables) : Regex Char :=
  .anyOf (anyCase t "full_name") [anyCase t "first_name", anyCase t "last_name", anyCase t "license_number"]

/-- The preferred match: a name, a separator and a text that is closed by the next quote of its kind. -/
theorem nameKv_head {c d : Cursor Char} (h : ((nameKvRe t).ways c).head? = some d) :
    ∃ o k v q w, (o = [] ∨ o = ['"'] ∨ o = ['\'']) ∧ (nameKey t).Matches k ∧ (separator t).Matches v ∧
      (q = '"' ∨ q = '\'') ∧ q ∉ w ∧ c.rest = o ++ (k ++ (v ++ q :: (w ++ q :: d.rest))) ∧
      d.groups = ("val", w) :: ("q", [q]) :: ("key", o ++ (k ++ v)) :: c.groups ∧ '\n' ∉ w := by
  have hquotes : ∀ c ∈ "\"'".toList, c = '"' ∨ c = '\'' := by decide
  obtain ⟨e₁, he₁, h⟩ := exists_of_head?_flatMap h
  obtain ⟨e₂, he₂, h⟩ := exists_of_head?_flatMap h
  obtain ⟨c₁, key, hc₁, ⟨o, _, ho, ⟨k, v, hk, hv, rfl⟩, rfl⟩, hread, rfl⟩ := mem_ways_group.mp he₁
  have hkey : c₁.groups = c.groups := groups_of_noGroups (by
    simp [separator, anyCase, anyOf, chain, NoGroups, Regex.star, opt, chars, space]) hc₁
  obtain ⟨c₂, _, hc₂, ⟨q, hq, rfl⟩, hread', rfl⟩ := mem_ways_group.mp he₂
  have hquote : c₂.groups = (c₁.setGroup "key" (o ++ (k ++ v))).groups :=
    groups_of_noGroups (by simp [chars, NoGroups]) hc₂
  have hq := hquotes q (List.contains_iff_mem.mp hq)
  have hval : ((iterate (Regex.one fun c => c != '\n').ways false 0 c₂.rest.length (c₂.setGroup "q" [q])).flatMap
      fun e => (Regex.backref "q").ways (e.setGroup "val" ((c₂.setGroup "q" [q]).upTo e))).head? = some d := by
    rw [← List.flatMap_map]
    exact h
  obtain ⟨w, hw, hlast, hfirst, hline⟩ := head?_flatMap_lazy hval
  have hback : ∀ u, (Regex.backref "q").ways
      (((c₂.setGroup "q" [q]).advance u).setGroup "val" ((c₂.setGroup "q" [q]).upTo ((c₂.setGroup "q" [q]).advance u))) =
      if [q].isPrefixOf (c₂.advance u).rest then
        [(((c₂.setGroup "q" [q]).advance u).setGroup "val"
          ((c₂.setGroup "q" [q]).upTo ((c₂.setGroup "q" [q]).advance u))).advance [q]] else [] := fun u => rfl
  obtain ⟨after, hafter⟩ := hw
  have hafter : c₂.rest = w ++ after := hafter.symm
  rw [hback, rest_advance hafter] at hlast
  split at hlast
  swap
  · cases hlast
  rename_i hprefix
  obtain ⟨rest, rfl⟩ := List.isPrefixOf_iff_prefix.mp hprefix
  cases hlast
  refine ⟨o, k, v, q, w, ?_, hk, hv, hq, ?_, ?_, ?_, fun hmem => absurd (hline '\n' hmem) (by decide)⟩
  · rcases matches_opt.mp ho with rfl | ⟨x, hx, rfl⟩
    · exact Or.inl rfl
    · rcases hquotes x (List.contains_iff_mem.mp hx) with rfl | rfl
      · exact Or.inr (Or.inl rfl)
      · exact Or.inr (Or.inr rfl)
  · intro hmem
    obtain ⟨u, u', rfl⟩ := List.mem_iff_append.mp hmem
    have hno := hfirst u (q :: u') rfl (List.cons_ne_nil q u')
    rw [hback, rest_advance (show _ = u ++ (q :: u' ++ ([q] ++ rest)) by rw [hafter]; simp)] at hno
    simp at hno
  · have hend : (((c₂.setGroup "q" [q]).advance w).advance [q]).rest = rest := by
      refine rest_advance ?_
      exact rest_advance hafter
    rw [hread.rest, show c₁.rest = [q] ++ c₂.rest from hread'.rest, hafter]
    simp only [List.append_assoc, List.singleton_append]
    congr 5
    exact congrArg (List.cons q) hend.symm
  · show ("val", (c₂.setGroup "q" [q]).upTo ((c₂.setGroup "q" [q]).advance w)) :: ("q", [q]) :: c₂.groups = _
    rw [(reads_advance ⟨_, hafter.symm⟩ : Reads (c₂.setGroup "q" [q]) _ w).upTo, hquote]
    show _ :: _ :: ("key", o ++ (k ++ v)) :: c₁.groups = _
    rw [hkey]

theorem nameKey_needs_other : (nameKey t).Needs fun c => c ≠ 'x' := by
  refine needs_anyOf ?_
  simp only [List.forall_mem_cons]
  refine ⟨?_, ?_, ?_, ?_, by simp⟩
  · exact anyCase_needs_other (s := "full_name") (a := 'f') (by decide) (by decide)
  · exact anyCase_needs_other (s := "first_name") (a := 'f') (by decide) (by decide)
  · exact anyCase_needs_other (s := "last_name") (a := 'l') (by decide) (by decide)
  · exact anyCase_needs_other (s := "license_number") (a := 'l') (by decide) (by decide)

theorem nameKey_avoids {c : Char} (hc : c ∈ punctuation) : (nameKey t).Avoids c := by
  refine avoids_anyOf ?_
  simp only [List.forall_mem_cons]
  refine ⟨?_, ?_, ?_, ?_, by simp⟩
  · exact anyCase_avoids (s := "full_name") (by decide) hc
  · exact anyCase_avoids (s := "first_name") (by decide) hc
  · exact anyCase_avoids (s := "last_name") (by decide) hc
  · exact anyCase_avoids (s := "license_number") (by decide) hc

theorem nameKv_blocks : Blocks (nameKvRe t) tailBlock where
  nonempty := by
    rintro ⟨_, v, ⟨o, _, -, ⟨k, _, hk, -, rfl⟩, rfl⟩, -, hsplit⟩
    obtain ⟨x, hx, -⟩ := Matches.exists_of_needs (r := nameKey t) nameKey_needs_other hk
    have hmem : x ∈ ([] : Text) := by rw [hsplit]; simp [hx]
    cases hmem
  begins s hs hne c rest hc := by
    cases hd : ((nameKvRe t).ways c).head? with
    | none => rfl
    | some d =>
        obtain ⟨o, k, v, q, w, ho, hk, -, -, -, hsplit, -⟩ := nameKv_head hd
        have hno : ∀ {s : Text}, s <:+ tailBlock → s ≠ [] → s ++ rest ≠ k ++ (v ++ q :: (w ++ q :: d.rest)) :=
          fun hs hne => no_word_in_tailBlock (fun c hc => nameKey_avoids hc) nameKey_needs_other hs hne hk
        rw [hc] at hsplit
        cases s with
        | nil => exact absurd rfl hne
        | cons y s =>
            have hafter : ∀ x, o = [x] → ¬ [x] <:+ tailBlock → False := fun x hx hlast => by
              rw [hx] at hsplit
              obtain ⟨rfl, hrest⟩ := List.cons.inj hsplit
              refine hno ((List.suffix_cons y s).trans hs) ?_ hrest
              rintro rfl
              exact hlast hs
            rcases ho with rfl | ho | ho
            · exact absurd hsplit (hno hs hne)
            · exact (hafter '"' ho (by decide)).elim
            · exact (hafter '\'' ho (by decide)).elim
  ends c d u w rest hd _ hc hread := by
    refine length_le_of_not_over hc hread fun rest' hw => ?_
    obtain ⟨o, k, v, q, body, ho, hk, hv, hq, hbody, hsplit, -⟩ := nameKv_head hd
    obtain rfl : w = o ++ (k ++ (v ++ q :: (body ++ [q]))) := by
      refine List.append_cancel_right (hread.rest.symm.trans ?_)
      rw [hsplit]; simp
    have hono : '\\' ∉ o := by rcases ho with h | h | h <;> rw [h] <;> decide
    obtain ⟨a, rfl, h₁⟩ := prefix_of_no_backslash hono hw
    obtain ⟨a', rfl, h₂⟩ :=
      prefix_of_no_backslash (not_mem_of_avoids (nameKey_avoids (t := t) (by decide)) hk) h₁
    obtain ⟨a'', rfl, h₃⟩ := prefix_of_no_backslash (not_mem_of_avoids separator_avoids_backslash hv) h₂
    exact not_closed_over_block hq hbody h₃

end Blocks

/-! ## The sanitized text of an object -/

section Objects
variable (t : CharTables)

/-- Every pass takes one block at most. -/
theorem sanitizeText_keeps_blocks (pre post : Text) (n : Nat) : ∃ pre' post',
    sanitizeText t (pre ++ ((List.replicate (n + 7) tailBlock).flatten ++ post)) =
      pre' ++ ((List.replicate n tailBlock).flatten ++ post') := by
  obtain ⟨pre₁, post₁, h₁⟩ := sub_keeps_blocks (secretKv_blocks (t := t)) redactSecretKv pre post (n + 6)
  obtain ⟨pre₂, post₂, h₂⟩ :=
    sub_keeps_blocks (bearer_blocks (t := t)) (fun _ => "Bearer ".toList ++ redacted) pre₁ post₁ (n + 5)
  obtain ⟨pre₃, post₃, h₃⟩ := sub_keeps_blocks (jwt_blocks (t := t)) (fun _ => redacted) pre₂ post₂ (n + 4)
  obtain ⟨pre₄, post₄, h₄⟩ := sub_keeps_blocks (hash_blocks (t := t)) (fun _ => redacted) pre₃ post₃ (n + 3)
  obtain ⟨pre₅, post₅, h₅⟩ := sub_keeps_blocks (nameKv_blocks (t := t)) maskNameKv pre₄ post₄ (n + 2)
  obtain ⟨pre₆, post₆, h₆⟩ := sub_keeps_blocks email_blocks
    (fun m => m.group "1" ++ "***@".toList ++ m.group "2") pre₅ post₅ (n + 1)
  obtain ⟨pre₇, post₇, h₇⟩ := sub_keeps_blocks (phone_blocks (t := t)) (maskPhoneMatch t) pre₆ post₆ n
  refine ⟨pre₇, post₇, ?_⟩
  simp only [sanitizeText, redactText, maskEmail, maskPhone]
  rw [h₁, h₂, h₃, h₄, h₅, h₆, h₇]

/-- `json.dumps` of an object with the member `k: v` between others. -/
def objectText (before : List (Text × Json)) (k v : Text) (after : List (Text × Json)) : Text :=
  (Json.obj (before ++ (k, .str v) :: after)).dumps true

/-- The key characters at the end of the encoded key. -/
def keyEnd (k : Text) : Text := (k.flatMap (Json.escape true)).rtakeWhile (isKeyChar t)

theorem objectText_eq (before : List (Text × Json)) (k : Text) (after : List (Text × Json)) :
    ∃ post, ∀ v, objectText before k v after = '\x7b' :: Json.membersFront true before ++
      '"' :: (k.flatMap (Json.escape true) ++
        ('"' :: ':' :: ' ' :: '"' :: (v.flatMap (Json.escape true) ++ '"' :: post))) := by
  obtain ⟨right, hall⟩ := Json.dumpsMembers_append true before k after
  refine ⟨right ++ ['\x7d'], fun v => ?_⟩
  rw [objectText, Json.dumps, hall]
  simp [Json.quote, Json.dumps]

/-- For every object there is a value that shows in the sanitized text. -/
theorem exists_values_that_show (before : List (Text × Json)) (k : Text) (after : List (Text × Json)) :
    ∃ v v', sanitizeText t (objectText before k v after) ≠ sanitizeText t (objectText before k v' after) := by
  obtain ⟨post, htext⟩ := objectText_eq before k after
  have hescape : ∀ n, (List.replicate n ['"', '\'', 'x', ' ']).flatten.flatMap (Json.escape true) =
      (List.replicate n tailBlock).flatten := fun n => by
    induction n with
    | zero => rfl
    | succ n ih =>
        have hblock : ['"', '\'', 'x', ' '].flatMap (Json.escape true) = tailBlock := by decide
        rw [List.replicate_succ, List.replicate_succ, List.flatten_cons, List.flatten_cons, List.flatMap_append, ih,
          hblock]
  have hlength : ∀ n, (List.replicate n tailBlock).flatten.length = n * 5 := fun n => by
    simp [tailBlock, List.length_flatten]
  -- Blocks for more characters than the text without a value has.
  let short := (sanitizeText t (objectText before k [] after)).length
  refine ⟨(List.replicate (short + 1 + 7) ['"', '\'', 'x', ' ']).flatten, [], fun h => ?_⟩
  obtain ⟨pre', post', hkept⟩ := sanitizeText_keeps_blocks t
    ('\x7b' :: Json.membersFront true before ++ '"' :: (k.flatMap (Json.escape true) ++ ['"', ':', ' ', '"']))
    ('"' :: post) (short + 1)
  rw [htext, hescape] at h
  have hsplit : '\x7b' :: Json.membersFront true before ++ '"' :: (k.flatMap (Json.escape true) ++
      ('"' :: ':' :: ' ' :: '"' :: ((List.replicate (short + 1 + 7) tailBlock).flatten ++ '"' :: post))) =
      '\x7b' :: Json.membersFront true before ++ '"' :: (k.flatMap (Json.escape true) ++ ['"', ':', ' ', '"']) ++
        ((List.replicate (short + 1 + 7) tailBlock).flatten ++ '"' :: post) := by simp
  rw [hsplit, hkept] at h
  have hcount := congrArg List.length h
  simp only [List.length_append, hlength] at hcount
  change _ = short at hcount
  omega

section Keys
variable {t} {k : Text} (hk : (secretKeyRe t).fullmatch k)
include hk

theorem secretKey_matches : (secretKeyRe t).Matches k := by
  obtain ⟨d, hd, hend⟩ := List.any_eq_true.mp hk
  obtain ⟨w, hw, hread⟩ := ways_sound hd
  have hrest : k = w ++ d.rest := hread.rest
  rw [List.isEmpty_iff.mp hend, List.append_nil] at hrest
  exact hrest ▸ hw

theorem isKeyChar_of_secretKey {c : Char} (hc : c ∈ k) (hascii : c.toNat < 128) : isKeyChar t c = true := by
  by_contra hno
  exact not_mem_of_avoids (secretKey_avoids_of hascii (Bool.not_eq_true _ ▸ hno)) (secretKey_matches hk) hc

/-- A character of ASCII of a secret key stands for itself. -/
theorem escape_of_secretKey {c : Char} (hc : c ∈ k) (hascii : c.toNat < 128) : Json.escape true c = [c] := by
  have hkey := isKeyChar_of_secretKey hk hc hascii
  rw [isKeyChar, t.word_ascii c hascii] at hkey
  have hrange : ∀ n < 128, ((Char.ofNat n).isAlphanum || Char.ofNat n == '_' || Char.ofNat n == '-') = true →
      32 ≤ n ∧ n ≤ 126 ∧ Char.ofNat n ≠ '"' ∧ Char.ofNat n ≠ '\\' := by decide +kernel
  have hall := hrange c.toNat hascii
  rw [Char.ofNat_toNat] at hall
  obtain ⟨hlow, hhigh, hquote, hback⟩ := hall hkey
  exact Json.escape_printable hlow hhigh hquote hback

/-- An encoded key has key characters and the backslashes of its escapes. -/
theorem encoded_key_chars {d : Char} (hd : d ∈ k.flatMap (Json.escape true)) : isKeyChar t d ∨ d = '\\' := by
  obtain ⟨c, hc, hd⟩ := List.mem_flatMap.mp hd
  by_cases hascii : c.toNat < 128
  · rw [escape_of_secretKey hk hc hascii, List.mem_singleton] at hd
    exact Or.inl (hd ▸ isKeyChar_of_secretKey hk hc hascii)
  · rw [Json.escape_beyond (by omega)] at hd
    have hletters : ∀ d ∈ 'u' :: "0123456789abcdef".toList, d.toNat < 128 ∧ (d.isAlphanum || d == '_') = true := by
      decide
    have hword : d ∈ 'u' :: "0123456789abcdef".toList → isKeyChar t d = true := fun hd => by
      rw [isKeyChar, t.word_ascii d (hletters d hd).1, (hletters d hd).2, Bool.true_or]
    rcases Json.mem_unicodeEscape hd with rfl | rfl | hhex
    · exact Or.inr rfl
    · exact Or.inl (hword (by simp))
    · exact Or.inl (hword (List.mem_cons_of_mem _ (List.contains_iff_mem.mp hhex)))

/-- In ASCII the encoded key is the key. -/
theorem keyEnd_of_ascii (hascii : ∀ c ∈ k, c.toNat < 128) : keyEnd t k = k := by
  have hsame : k.flatMap (Json.escape true) = k := by
    conv_rhs => rw [← List.flatMap_singleton' k]
    exact List.flatMap_congr fun c hc => escape_of_secretKey hk hc (hascii c hc)
  rw [keyEnd, hsame]
  exact List.rtakeWhile_eq_self_iff.mpr fun c hc => isKeyChar_of_secretKey hk hc (hascii c hc)

theorem member_of_object (hend : (secretKeyRe t).fullmatch (keyEnd t k)) {before : List (Text × Json)} {v v' : Text}
    (hv : '"' ∉ v) (hv' : '"' ∉ v')
    (hquote : LeavesOpen t ('\x7b' :: Json.membersFront true before) → '\'' ∉ v ∧ '\'' ∉ v') :
    Member t ('\x7b' :: Json.membersFront true before)
      ((k.flatMap (Json.escape true)).rdropWhile (isKeyChar t)) (keyEnd t k)
      (v.flatMap (Json.escape true)) (v'.flatMap (Json.escape true)) := by
  have hencoded : ∀ {q : Char} {w : Text}, q = '"' ∨ q = '\'' → q ∉ w → q ∉ w.flatMap (Json.escape true) :=
    fun {q w} hq hw hmem => by
      obtain ⟨c, hc, hmem⟩ := List.mem_flatMap.mp hmem
      exact Json.not_mem_escape hq (fun hcq => hw (hcq ▸ hc)) hmem
  have hmid : ∀ c ∈ (k.flatMap (Json.escape true)).rdropWhile (isKeyChar t), isKeyChar t c ∨ c = '\\' :=
    fun c hc => encoded_key_chars hk ((List.rdropWhile_prefix _ _).subset hc)
  refine ⟨?_, hmid, fun c hc => ?_, hend, fun c hc => List.mem_rtakeWhile_imp hc, hencoded (Or.inl rfl) hv,
    hencoded (Or.inl rfl) hv', fun hopen => (hquote hopen).imp (hencoded (Or.inr rfl)) (hencoded (Or.inr rfl))⟩
  · cases before with
    | nil => exact Or.inl rfl
    | cons m ms => exact Or.inr ⟨'\x7b' :: Json.dumpsMembers true (m :: ms), rfl⟩
  · refine (hmid c (List.mem_of_getLast? hc)).resolve_left fun hkey => ?_
    have hne : (k.flatMap (Json.escape true)).rdropWhile (isKeyChar t) ≠ [] := List.ne_nil_of_mem (List.mem_of_getLast? hc)
    have hlast := List.rdropWhile_last_not (isKeyChar t) (k.flatMap (Json.escape true)) hne
    rw [List.getLast?_eq_some_getLast hne, Option.mem_def, Option.some.injEq] at hc
    rw [hc, hkey] at hlast
    exact hlast rfl

end Keys

/-- A secret value shows in the sanitized text of an object for some values. It does not show for values
without a double quote, where no apostrophe of a value closes one that a value before the key left open, and
the key is in ASCII or a match can begin with what the encoding leaves at its end. -/
theorem secret_value_influence {k : Text} (hk : (secretKeyRe t).fullmatch k) (before after : List (Text × Json)) :
    (∃ v v', sanitizeText t (objectText before k v after) ≠ sanitizeText t (objectText before k v' after)) ∧
    ((∀ c ∈ k, c.toNat < 128) ∨ (secretKeyRe t).fullmatch (keyEnd t k) → ∀ v v', '"' ∉ v → '"' ∉ v' →
      (LeavesOpen t ('\x7b' :: Json.membersFront true before) → '\'' ∉ v ∧ '\'' ∉ v') →
      sanitizeText t (objectText before k v after) = sanitizeText t (objectText before k v' after)) := by
  refine ⟨exists_values_that_show t before k after, fun hkey v v' hv hv' hquote => ?_⟩
  have hend : (secretKeyRe t).fullmatch (keyEnd t k) := by
    rcases hkey with hascii | hend
    · rwa [keyEnd_of_ascii hk hascii]
    · exact hend
  obtain ⟨post, htext⟩ := objectText_eq before k after
  have hagree := redactSecrets_agree post (member_of_object hk hend hv hv' hquote)
  have hsplit : ∀ w, '\x7b' :: Json.membersFront true before ++
      '"' :: ((k.flatMap (Json.escape true)).rdropWhile (isKeyChar t) ++ secretTail (keyEnd t k) w post) =
      '\x7b' :: Json.membersFront true before ++ '"' :: (k.flatMap (Json.escape true) ++
        ('"' :: ':' :: ' ' :: '"' :: (w ++ '"' :: post))) := fun w => by
    rw [secretTail, ← List.append_assoc (List.rdropWhile _ _), keyEnd, List.rdropWhile_append_rtakeWhile]
  rw [hsplit, hsplit, ← htext, ← htext] at hagree
  simp only [sanitizeText, redactText, hagree]

/-- The name before the password, with an apostrophe that opens no value. -/
def brien : List (Text × Json) := [("name".toList, .str "O'Brien".toList)]

theorem brien_closed : ¬ LeavesOpen asciiTables ('\x7b' :: Json.membersFront true brien) := by
  rintro ⟨f, k, v, w, htext, -, hv, -⟩
  have hsplit : "\x7b\"name\": \"O".toList ++ '\'' :: "Brien\", ".toList = (f ++ (k ++ v)) ++ '\'' :: w := by
    rw [show '\x7b' :: Json.membersFront true brien = "\x7b\"name\": \"O'Brien\", ".toList by decide] at htext
    simpa using htext
  obtain ⟨hfront, -⟩ := (List.append_cons_inj_of_notMem (by decide) (by decide)).mp hsplit
  -- A separator does not end with a letter.
  obtain ⟨q, s₁, x, s₂, rfl, -, -, hx, hs₂⟩ := separator_word hv
  have hlast : (x :: s₂).getLast? = some 'O' := by
    have h := congrArg List.getLast? hfront
    rw [show f ++ (k ++ (q ++ (s₁ ++ x :: s₂))) = (f ++ (k ++ (q ++ s₁))) ++ x :: s₂ by simp,
      List.getLast?_append_of_ne_nil _ (List.cons_ne_nil x s₂)] at h
    exact h.symm
  rcases List.mem_cons.mp (List.mem_of_getLast? hlast) with rfl | hmem
  · rcases hx with h | h <;> cases h
  · exact absurd (hs₂ _ hmem) (by decide)

theorem password_value_influence :
    (∃ v v', sanitizeText asciiTables (objectText brien "password".toList v []) ≠
      sanitizeText asciiTables (objectText brien "password".toList v' [])) ∧
    sanitizeText asciiTables (objectText brien "password".toList "hunter2".toList []) =
      sanitizeText asciiTables (objectText brien "password".toList "it's me".toList []) := by
  have hk : (secretKeyRe asciiTables).fullmatch "password".toList = true := by decide +kernel
  obtain ⟨hshow, hhide⟩ := secret_value_influence asciiTables hk brien []
  exact ⟨hshow, hhide (Or.inl (by decide)) _ _ (by decide) (by decide) fun h => absurd h brien_closed⟩

/-- What comes after an escaped quote is left in the text. -/
theorem quote_in_secret_leaks : (secretKeyRe asciiTables).fullmatch "password".toList = true ∧
    sanitizeText asciiTables (objectText [] "password".toList "ab\"cd".toList []) ≠
      sanitizeText asciiTables (objectText [] "password".toList "ab\"ef".toList []) := by
  decide +kernel

end Objects

end FleetManagement
