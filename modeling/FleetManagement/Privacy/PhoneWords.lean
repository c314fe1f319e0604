import FleetManagement.Privacy.Sanitizer
import FleetManagement.Library.RegexScan

/-!
# Phone numbers in a text

What the pattern of phone numbers matches and what a match is replaced by.
-/

namespace FleetManagement

open Regex

theorem literal_matches {s : String} {w : Text} : (literal s).Matches w ↔ w = s.toList := by
  unfold literal
  rw [matches_chain_map_one]
  constructor
  · intro h
    generalize s.toList = as at h
    induction h with
    | nil => rfl
    | cons hax _ ih => rw [beq_iff_eq.mp hax, ih]
  · rintro rfl
    induction s.toList with
    | nil => exact .nil
    | cons a as ih => exact .cons (beq_self_eq_true a) ih

section Phones
variable {t : CharTables}

theorem not_isDigit_of {c : Char} (hc : c.toNat < 128) (h : c.isDigit = false) : t.isDigit c = false := by
  rw [t.digit_ascii c hc, h]

theorem not_isWord_of {c : Char} (hc : c.toNat < 128) (h : (c.isAlphanum || c == '_') = false) :
    t.isWord c = false := by
  rw [t.word_ascii c hc, h]

theorem not_isSpace_of {c : Char} (hc : c.toNat < 128) (h : asciiSpaces.contains c = false) :
    t.isSpace c = false := by
  rw [t.space_ascii c hc, h]

/-- `[\s().-]` -/
def isSeparator (t : CharTables) (c : Char) : Bool := t.isSpace c || "().-".toList.contains c

theorem not_isSeparator_at : isSeparator t '@' = false := by
  rw [isSeparator, not_isSpace_of (by decide) (by decide)]
  decide

/-- A digit is no separator. -/
theorem not_isSeparator_of_digit {d : Char} (hd : t.isDigit d) : isSeparator t d = false := by
  rw [isSeparator, t.not_space_of_word d (t.word_of_digit d hd), Bool.false_or]
  refine Bool.eq_false_iff.mpr fun h => ?_
  have hno : ∀ c ∈ "().-".toList, c.toNat < 128 ∧ c.isDigit = false := by decide
  obtain ⟨hascii, hdigit⟩ := hno d (List.contains_iff_mem.mp h)
  rw [t.digit_ascii d hascii, hdigit] at hd
  cases hd

/-! ## Words of the pattern -/

/-- A digit, with a separator before it or without. -/
inductive PhoneGroup (t : CharTables) : Text → Prop
  | digit {d : Char} (hd : t.isDigit d) : PhoneGroup t [d]
  | separated {c d : Char} (hc : isSeparator t c) (hd : t.isDigit d) : PhoneGroup t [c, d]

/-- A phone number of the pattern: a sign or none, a digit and the groups after it. -/
structure PhoneWord (t : CharTables) (plus : Text) (d : Char) (us : List Text) : Prop where
  plus : plus = [] ∨ plus = ['+']
  digit : t.isDigit d
  groups : ∀ u ∈ us, PhoneGroup t u
  min : 8 ≤ us.length
  max : us.length ≤ 14

/-- `[\s().-]?\d` -/
def phoneGroupRe (t : CharTables) : Regex Char := .seq (.opt (.one (isSeparator t))) (digit t)

theorem phoneGroup_of_matches {u : Text} (h : (phoneGroupRe t).Matches u) : PhoneGroup t u := by
  obtain ⟨_, _, hsep, ⟨d, hd, rfl⟩, rfl⟩ := h
  rcases matches_opt.mp hsep with rfl | ⟨c, hc, rfl⟩
  · exact .digit hd
  · exact .separated hc hd

theorem exists_phoneWord {w : Text} (h : (phoneRe t).Matches w) :
    ∃ plus d us, w = plus ++ d :: us.flatten ∧ PhoneWord t plus d us := by
  obtain ⟨_, _, rfl, ⟨plus, _, hplus, ⟨_, _, ⟨d, hd, rfl⟩, ⟨_, _, ⟨us, hmin, hmax, hgroups, rfl⟩, rfl, rfl⟩,
    rfl⟩, rfl⟩, rfl⟩ := h
  refine ⟨plus, d, us, by simp, ?_, hd, fun u hu => phoneGroup_of_matches (hgroups u hu), hmin, hmax 14 rfl⟩
  rcases matches_opt.mp hplus with rfl | hplus
  · exact Or.inl rfl
  · exact Or.inr (literal_matches.mp hplus)

/-- A group has one digit. -/
theorem digits_of_groups {us : List Text} (h : ∀ u ∈ us, PhoneGroup t u) :
    (us.flatten.filter t.isDigit).length = us.length := by
  induction us with
  | nil => rfl
  | cons u us ih =>
      obtain ⟨hu, hus⟩ := List.forall_mem_cons.mp h
      rw [List.flatten_cons, List.filter_append, List.length_append, ih hus]
      cases hu with
      | digit hd => simp [hd]; omega
      | @separated c d hc hd =>
          have hsep : t.isDigit c = false := by
            refine Bool.eq_false_iff.mpr fun hdigit => ?_
            rw [not_isSeparator_of_digit hdigit] at hc
            cases hc
          simp [hd, hsep]; omega

theorem PhoneWord.digits {plus : Text} {d : Char} {us : List Text} (h : PhoneWord t plus d us) :
    ((plus ++ d :: us.flatten).filter t.isDigit).length = us.length + 1 := by
  have hplus : plus.filter t.isDigit = [] := by
    rcases h.plus with rfl | rfl
    · rfl
    · simp [not_isDigit_of (t := t) (c := '+') (by decide) (by decide)]
  rw [List.filter_append, hplus, List.nil_append, List.filter_cons_of_pos h.digit, List.length_cons,
    digits_of_groups h.groups]

/-- What a match of the pattern has: no `@`, and a digit at its end. -/
structure PhoneHit (t : CharTables) (w : Text) : Prop where
  noAt : '@' ∉ w
  last : ∃ init d, w = init ++ [d] ∧ t.isDigit d

theorem digit_ne_at {d : Char} (hd : t.isDigit d) : '@' ≠ d := by
  rintro rfl
  rw [not_isDigit_of (by decide) (by decide)] at hd
  cases hd

theorem PhoneGroup.hit {u : Text} (h : PhoneGroup t u) : PhoneHit t u := by
  cases h with
  | @digit d hd => exact ⟨by simpa using digit_ne_at hd, [], d, rfl, hd⟩
  | @separated c d hc hd =>
      have hsep : '@' ≠ c := by
        rintro rfl
        rw [not_isSeparator_at] at hc
        cases hc
      exact ⟨by simpa using ⟨hsep, digit_ne_at hd⟩, [c], d, rfl, hd⟩

theorem PhoneWord.hit {plus : Text} {d : Char} {us : List Text} (h : PhoneWord t plus d us) :
    PhoneHit t (plus ++ d :: us.flatten) := by
  have hplus : '@' ∉ plus := by rcases h.plus with rfl | rfl <;> decide
  have hgroups : '@' ∉ us.flatten := by
    intro hmem
    obtain ⟨u, hu, hmem⟩ := List.mem_flatten.mp hmem
    exact (h.groups u hu).hit.noAt hmem
  refine ⟨by simp [digit_ne_at h.digit, hplus, hgroups], ?_⟩
  rcases List.eq_nil_or_concat us with rfl | ⟨vs, u, rfl⟩
  · exact absurd h.min (by simp)
  · obtain ⟨init, e, rfl, he⟩ := (h.groups u (by simp)).hit.last
    exact ⟨plus ++ d :: (vs.flatten ++ init), e, by simp, he⟩

theorem phoneHit_of_matches {w : Text} (h : (phoneRe t).Matches w) : PhoneHit t w := by
  obtain ⟨plus, d, us, rfl, hw⟩ := exists_phoneWord h
  exact hw.hit

/-! ## The scan -/

/-- What stands before a position keeps a number from beginning there. -/
def joins (t : CharTables) (prev : Option Char) : Bool := prev.any fun c => t.isWord c || c == '+'

/-- A phone number begins with a digit, or with a sign and a digit. -/
theorem phone_ways_nil {c : Cursor Char} (hdigit : ∀ d ∈ c.rest.head?, t.isDigit d = false)
    (hsign : ∀ d rest, c.rest = '+' :: d :: rest → t.isDigit d = false) : (phoneRe t).ways c = [] := by
  refine List.eq_nil_iff_forall_not_mem.mpr fun e he => ?_
  obtain ⟨w, hw, hread⟩ := ways_sound he
  obtain ⟨plus, d, us, rfl, hword⟩ := exists_phoneWord hw
  have hd := hword.digit
  have hrest := hread.rest
  rcases hword.plus with rfl | rfl
  · rw [hdigit d (by rw [hrest]; rfl)] at hd
    cases hd
  · rw [hsign d _ hrest] at hd
    cases hd

theorem head?_phoneGroup_ways {u : Text} (hu : PhoneGroup t u) {c : Cursor Char} (h : u <+: c.rest) :
    ((phoneGroupRe t).ways c).head? = some (c.advance u) := by
  obtain ⟨rest, hrest⟩ := h
  cases hu with
  | @digit d hd =>
      have hnone : (Regex.one (isSeparator t)).ways c = [] :=
        ways_one_of_not (by simp [← hrest, not_isSeparator_of_digit hd])
      exact head?_ways_seq (head?_ways_opt_nil hnone) (head?_ways_one hrest.symm hd)
  | @separated s d hs hd =>
      have hafter : (c.advance [s]).rest = d :: rest := rest_advance hrest.symm
      rw [show [s, d] = [s] ++ [d] from rfl, ← advance_append]
      exact head?_ways_seq (head?_ways_opt (head?_ways_one hrest.symm hs)) (head?_ways_one hafter hd)

theorem phoneGroup_ways_nil {c : Cursor Char} (h : ∀ e ∈ c.rest, t.isDigit e = false) :
    (phoneGroupRe t).ways c = [] := by
  refine List.eq_nil_iff_forall_not_mem.mpr fun e he => ?_
  obtain ⟨w, hw, hread⟩ := ways_sound he
  have hone : (w.filter t.isDigit).length = 1 := by
    have hcount := digits_of_groups (List.forall_mem_singleton.mpr (phoneGroup_of_matches hw))
    simpa using hcount
  have hnone : w.filter t.isDigit = [] := by
    simpa [List.filter_eq_nil_iff] using fun d hd => h d (hread.rest ▸ List.mem_append_left _ hd)
  rw [hnone] at hone
  cases hone

/-- A phone number with no digit after it is taken as a whole. -/
theorem head?_phone_ways {plus right : Text} {d : Char} {us : List Text} (hword : PhoneWord t plus d us)
    {c : Cursor Char} (hc : c.rest = plus ++ (d :: us.flatten ++ right)) (hjoins : joins t c.before.head? = false)
    (hright : ∀ e ∈ right, t.isDigit e = false) (hnext : right.head?.any t.isWord = false) :
    ((phoneRe t).ways c).head? = some (c.advance (plus ++ d :: us.flatten)) := by
  have hplus : ((Regex.opt (literal "+")).ways c).head? = some (c.advance plus) := by
    rcases hword.plus with rfl | rfl
    · refine head?_ways_opt_nil (ways_one_of_not fun x hx => ?_)
      rw [hc, List.nil_append, List.cons_append, List.head?_cons, Option.mem_some_iff] at hx
      subst hx
      refine Bool.eq_false_iff.mpr fun hplus => ?_
      have hd := hword.digit
      rw [beq_iff_eq.mp hplus, not_isDigit_of (by decide) (by decide)] at hd
      cases hd
    · exact head?_ways_opt (head?_ways_one hc (by decide))
  have hafter : (c.advance plus).rest = d :: (us.flatten ++ right) := rest_advance hc
  have hgroups : (c.advance (plus ++ [d])).rest = us.flatten ++ right := rest_advance (by rw [hc]; simp)
  have hend : (c.advance (plus ++ [d] ++ us.flatten)).rest = right := rest_advance (by rw [hc]; simp)
  have hrep : ((Regex.rep (phoneGroupRe t) 8 (some 14) true).ways (c.advance (plus ++ [d]))).head? =
      some (c.advance (plus ++ [d] ++ us.flatten)) := by
    rw [← advance_append c (plus ++ [d])]
    refine head?_iterate (fun u hu e he => head?_phoneGroup_ways (hword.groups u hu) he) hword.min hword.max
      ⟨right, hgroups.symm⟩ (phoneGroup_ways_nil ?_)
    rw [advance_append, hend]
    exact hright
  have hdigit : ((digit t).ways (c.advance plus)).head? = some (c.advance (plus ++ [d])) := by
    rw [← advance_append]
    exact head?_ways_one hafter hword.digit
  have hlast : ((Regex.assert fun _ next => !next.any t.isWord).ways
      (c.advance (plus ++ [d] ++ us.flatten))).head? = some (c.advance (plus ++ [d] ++ us.flatten)) :=
    head?_ways_assert (by rw [hend, hnext]; rfl)
  have hfirst : ((Regex.assert fun prev _ => !joins t prev).ways c).head? = some c :=
    head?_ways_assert (by rw [hjoins]; rfl)
  have hall := head?_ways_seq hfirst (head?_ways_seq hplus (head?_ways_seq hdigit (head?_ways_seq hrep hlast)))
  rw [List.append_assoc] at hall
  exact hall

/-- What masking makes of a piece of the scan for phone numbers. -/
def phoneOut (t : CharTables) : Piece Char → Text
  | .kept x => [x]
  | .hit m => maskPhoneMatch t m

theorem maskPhone_eq (text : Text) : maskPhone t text = ((phoneRe t).pieces text).flatMap (phoneOut t) := by
  refine List.flatMap_congr fun p _ => ?_
  cases p <;> rfl

/-- A text with one phone number, which begins at the first place where one can begin. -/
theorem maskPhone_of_word {pre plus right : Text} {d : Char} {us : List Text} (hword : PhoneWord t plus d us)
    (hpre : ∀ e ∈ pre, t.isDigit e = false)
    (hsign : ∀ u e v, pre ++ (plus ++ (d :: us.flatten ++ right)) = u ++ '+' :: e :: v →
      u.length < pre.length → t.isDigit e = false)
    (hjoins : joins t pre.getLast? = false) (hright : ∀ e ∈ right, t.isDigit e = false)
    (hnext : right.head?.any t.isWord = false) : maskPhone t (pre ++ (plus ++ (d :: us.flatten ++ right))) =
      pre ++ (maskPhoneMatch t ⟨plus ++ d :: us.flatten, []⟩ ++ right) := by
  generalize htext : pre ++ (plus ++ (d :: us.flatten ++ right)) = text at hsign
  have hstart : (Cursor.start text).rest = pre ++ (plus ++ (d :: us.flatten ++ right)) := htext.symm
  have hat : ((Cursor.start text).advance pre).rest = plus ++ (d :: us.flatten ++ right) := rest_advance hstart
  have hend : (((Cursor.start text).advance pre).advance (plus ++ d :: us.flatten)).rest = right :=
    rest_advance (by rw [hat]; simp)
  have hrest : ∀ u v, right = u ++ v →
      ((((Cursor.start text).advance pre).advance (plus ++ d :: us.flatten)).advance u).rest = v :=
    fun u v h => rest_advance (hend.trans h)
  have hafter : Scans (phoneRe t) (((Cursor.start text).advance pre).advance (plus ++ d :: us.flatten))
      (right.map .kept ++ []) := by
    refine scans_kept (fun u v hsplit hv => phone_ways_nil ?_ ?_) ⟨[], by rw [hend]; simp⟩
      (.done (hrest right [] (by simp)))
    · intro e he
      rw [show _ = v from hrest u v hsplit] at he
      exact hright e (hsplit ▸ List.mem_append_right u (List.mem_of_mem_head? he))
    · intro e rest he
      rw [show _ = v from hrest u v hsplit] at he
      exact hright e (by rw [hsplit, he]; simp)
  have hhit : ((phoneRe t).ways { (Cursor.start text).advance pre with groups := [] }).head? =
      some (((Cursor.start text).advance pre).advance (plus ++ d :: us.flatten)) := by
    refine head?_phone_ways hword hat ?_ hright hnext
    simpa [Cursor.advance, Cursor.start] using hjoins
  have hscan : Scans (phoneRe t) (.start text)
      (pre.map .kept ++ .hit ⟨plus ++ d :: us.flatten, []⟩ :: (right.map .kept ++ [])) := by
    refine scans_kept (fun u v hsplit hv => ?_) ⟨_, hstart.symm⟩
      (.hit hhit (reads_advance ⟨right, by rw [hat]; simp⟩) (by simp) hafter)
    have hu : ((Cursor.start text).advance u).rest = v ++ (plus ++ (d :: us.flatten ++ right)) :=
      rest_advance (by rw [hstart, hsplit, List.append_assoc])
    cases v with
    | nil => exact absurd rfl hv
    | cons x v =>
        refine phone_ways_nil (fun e he => ?_) fun e rest he => ?_
        · rw [show _ = _ from hu, List.cons_append, List.head?_cons, Option.mem_some_iff] at he
          exact hpre e (by rw [hsplit, he]; simp)
        · refine hsign u e rest ?_ (by rw [hsplit]; simp)
          rw [← show _ = '+' :: e :: rest from he, show _ = _ from hu, ← List.append_assoc, ← hsplit]
          exact htext.symm
  rw [maskPhone_eq, (scans_pieces (phoneRe t) text).unique hscan]
  simp [phoneOut, List.flatMap_map]

end Phones

end FleetManagement