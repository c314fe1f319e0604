import FleetManagement.Privacy.PhoneWords
import FleetManagement.Api.Privacy
import Mathlib.Data.List.DropRight

/-!
# Registered phone numbers in masked text

Which of the phone numbers that a registration accepts are masked where they stand in a text.
-/

namespace FleetManagement

open Regex

def digitsOf (w : Text) : Text := w.filter Char.isDigit

def lastTwo (w : Text) : Text := w.drop (w.length - 2)

/-- From the first digit to the last. -/
def digitSpan (p : Text) : Text := (p.dropWhile fun c => !c.isDigit).rdropWhile fun c => !c.isDigit

/-- Of two characters side by side one is a digit. -/
def singleSeparators : Text → Bool
  | a :: b :: rest => (a.isDigit || b.isDigit) && singleSeparators (b :: rest)
  | _ => true

/-- A plus sign directly before the first digit. -/
def isSigned (p : Text) : Bool := p.head? = some '+' && p.tail.head?.any Char.isDigit

/-- The phone numbers that the pattern of the masking takes as a whole, and that it does not take for a date;
or there is nothing to mask. -/
def Maskable (t : CharTables) (p : Text) : Prop :=
  (digitsOf p).length ≤ 2 ∨
    (9 ≤ (digitsOf p).length ∧ (digitsOf p).length ≤ 15 ∧ singleSeparators (digitSpan p) ∧
      (isSigned p ∨ (isoDateRe t).matchesAt (digitSpan p) = false))

/-! ## The text of a registered phone number -/

/-- `[0-9 ()-]` -/
def isPhoneChar (c : Char) : Bool := c.isDigit || c = ' ' || c = '(' || c = ')' || c = '-'

theorem exists_sign_of_isPhone {p : String} (h : isPhone p) : ∃ sign body, p.toList = sign ++ body ∧
    (sign = [] ∨ sign = ['+']) ∧ ∀ c ∈ body, isPhoneChar c := by
  simp only [isPhone, Bool.decide_and, Bool.and_eq_true, decide_eq_true_eq, List.all_eq_true] at h
  obtain ⟨-, -, hall⟩ := h
  by_cases hsign : p.toList.head? = some '+'
  · rw [if_pos hsign] at hall
    obtain ⟨body, hbody⟩ := List.head?_eq_some_iff.mp hsign
    rw [hbody] at hall
    exact ⟨['+'], body, hbody, Or.inr rfl, hall⟩
  · rw [if_neg hsign] at hall
    exact ⟨[], p.toList, rfl, Or.inl rfl, hall⟩

theorem toNat_lt_of_isDigit {c : Char} (h : c.isDigit) : c.toNat < 128 := by
  have hle : c ≤ '9' := by
    simp only [Char.isDigit, Bool.and_eq_true, decide_eq_true_eq] at h
    exact h.2
  have hval : c.toNat ≤ '9'.toNat := hle
  exact hval.trans_lt (by decide)

section Characters
variable {t : CharTables} {c : Char}

theorem toNat_lt_of_isPhoneChar (h : isPhoneChar c) : c.toNat < 128 := by
  simp only [isPhoneChar, Bool.or_eq_true, decide_eq_true_eq] at h
  rcases h with (((h | rfl) | rfl) | rfl) | rfl
  · exact toNat_lt_of_isDigit h
  all_goals decide

theorem isDigit_of_isPhoneChar (h : isPhoneChar c) : t.isDigit c = c.isDigit :=
  t.digit_ascii c (toNat_lt_of_isPhoneChar h)

/-- Every character of a phone number that is no digit is a separator, and it is no sign and no word. -/
theorem isSeparator_of_isPhoneChar (h : isPhoneChar c) (hd : c.isDigit = false) :
    isSeparator t c ∧ t.isWord c = false ∧ c ≠ '+' := by
  simp only [isPhoneChar, hd, Bool.or_eq_true, decide_eq_true_eq] at h
  rcases h with (((h | rfl) | rfl) | rfl) | rfl
  · cases h
  · refine ⟨?_, not_isWord_of (by decide) (by decide), by decide⟩
    rw [isSeparator, t.space_ascii _ (by decide)]
    decide
  all_goals
    refine ⟨?_, not_isWord_of (by decide) (by decide), by decide⟩
    simp [isSeparator]

end Characters

/-! ## Groups of digits -/

section Groups
variable {t : CharTables}

/-- Digits with single separators between them are groups. -/
theorem exists_groups {d : Char} {rest : Text} (hrest : ∀ c ∈ rest, isPhoneChar c)
    (hsingle : singleSeparators (d :: rest)) (hlast : ∀ c ∈ (d :: rest).getLast?, c.isDigit) :
    ∃ us : List Text, rest = us.flatten ∧ ∀ u ∈ us, PhoneGroup t u := by
  match rest with
  | [] => exact ⟨[], rfl, by simp⟩
  | [e] =>
      have he : e.isDigit := by simpa using hlast
      refine ⟨[[e]], rfl, fun u hu => ?_⟩
      obtain rfl := List.mem_singleton.mp hu
      exact .digit (by rw [isDigit_of_isPhoneChar (hrest e List.mem_cons_self), he])
  | e :: f :: rest =>
      obtain ⟨he, hrest⟩ := List.forall_mem_cons.mp hrest
      obtain ⟨hf, hafter⟩ := List.forall_mem_cons.mp hrest
      have hsingle := (Bool.and_eq_true_iff.mp hsingle).2
      cases hdigit : e.isDigit with
      | true =>
          obtain ⟨us, husrest, hus⟩ := exists_groups hrest hsingle (by simpa using hlast)
          refine ⟨[e] :: us, by simp [husrest], List.forall_mem_cons.mpr ⟨.digit ?_, hus⟩⟩
          rw [isDigit_of_isPhoneChar he, hdigit]
      | false =>
          obtain ⟨hfdigit, hsingle⟩ := Bool.and_eq_true_iff.mp hsingle
          rw [hdigit, Bool.false_or] at hfdigit
          obtain ⟨us, husrest, hus⟩ := exists_groups hafter hsingle (by simpa using hlast)
          refine ⟨[e, f] :: us, by simp [husrest], List.forall_mem_cons.mpr ⟨.separated ?_ ?_, hus⟩⟩
          · exact (isSeparator_of_isPhoneChar he hdigit).1
          · rw [isDigit_of_isPhoneChar hf, hfdigit]

theorem singleSeparators_of_groups {d : Char} {us : List Text} (hd : d.isDigit)
    (hus : ∀ u ∈ us, PhoneGroup t u) (hchars : ∀ c ∈ us.flatten, t.isDigit c = c.isDigit) :
    singleSeparators (d :: us.flatten) := by
  induction us generalizing d with
  | nil => rfl
  | cons u us ih =>
      obtain ⟨hu, hlater⟩ := List.forall_mem_cons.mp hus
      rw [List.flatten_cons, List.forall_mem_append] at hchars
      have hdigit : ∀ e ∈ u, t.isDigit e → e.isDigit := fun e he hdigit => by
        rw [← hchars.1 e he, hdigit]
      cases hu with
      | @digit e he =>
          have hsingle := ih (hdigit e (by simp) he) hlater hchars.2
          simp [singleSeparators, hd, hsingle]
      | @separated c e hc he =>
          have hsingle := ih (hdigit e (by simp) he) hlater hchars.2
          simp [singleSeparators, hd, hdigit e (by simp) he, hsingle]

end Groups

/-! ## The span of the digits -/

theorem digitsOf_append (u v : Text) : digitsOf (u ++ v) = digitsOf u ++ digitsOf v := List.filter_append ..

theorem digitsOf_eq_nil {w : Text} : digitsOf w = [] ↔ ∀ c ∈ w, c.isDigit = false := by
  simp [digitsOf, List.filter_eq_nil_iff]

theorem digitSpan_eq {left w right : Text} {d : Char} (hleft : digitsOf left = [])
    (hright : digitsOf right = []) (hd : d.isDigit) (hlast : ∀ c ∈ (d :: w).getLast?, c.isDigit) :
    digitSpan (left ++ (d :: w ++ right)) = d :: w := by
  have hdrop : (left ++ (d :: w ++ right)).dropWhile (fun c => !c.isDigit) = d :: w ++ right := by
    rw [List.dropWhile_append_of_pos fun c hc => by simp [digitsOf_eq_nil.mp hleft c hc]]
    simp [hd]
  have hback : right.reverse.dropWhile (fun c => !c.isDigit) = [] :=
    List.dropWhile_eq_nil_iff.mpr fun c hc => by simp [digitsOf_eq_nil.mp hright c (List.mem_reverse.mp hc)]
  rw [digitSpan, hdrop, List.rdropWhile, List.reverse_append, List.dropWhile_append, hback]
  obtain ⟨init, e, hsplit⟩ := List.eq_nil_or_concat (d :: w) |>.resolve_left (List.cons_ne_nil d w)
  rw [List.concat_eq_append] at hsplit
  rw [hsplit, List.getLast?_concat] at hlast
  rw [hsplit]
  simp [hlast e rfl]

/-- A text with a digit is the span of its digits with other characters around. -/
theorem exists_digitSpan {p : Text} (h : digitsOf p ≠ []) : ∃ left d w right,
    p = left ++ (d :: w ++ right) ∧ digitsOf left = [] ∧ digitsOf right = [] ∧ d.isDigit ∧
      (∀ c ∈ (d :: w).getLast?, c.isDigit) ∧ digitSpan p = d :: w := by
  have hsplit : p = p.takeWhile (fun c => !c.isDigit) ++ p.dropWhile (fun c => !c.isDigit) :=
    List.takeWhile_append_dropWhile.symm
  have hleft : digitsOf (p.takeWhile fun c => !c.isDigit) = [] :=
    digitsOf_eq_nil.mpr fun c hc => by simpa using List.mem_takeWhile_imp hc
  cases hrest : p.dropWhile (fun c => !c.isDigit) with
  | nil =>
      rw [hrest, List.append_nil] at hsplit
      exact absurd (hsplit ▸ hleft) h
  | cons d rest =>
      have hd : d.isDigit := by
        have hhead := List.head?_dropWhile_not (fun c : Char => !c.isDigit) p
        simpa [hrest] using hhead
      have hback := List.rdropWhile_append_rtakeWhile (p := fun c : Char => !c.isDigit) (l := d :: rest)
      have hright : digitsOf ((d :: rest).rtakeWhile fun c => !c.isDigit) = [] :=
        digitsOf_eq_nil.mpr fun c hc => by simpa using List.mem_rtakeWhile_imp hc
      cases hspan : (d :: rest).rdropWhile (fun c => !c.isDigit) with
      | nil =>
          have hno := List.rdropWhile_eq_nil_iff.mp hspan d List.mem_cons_self
          simp [hd] at hno
      | cons e w =>
          rw [hspan] at hback
          obtain ⟨rfl, -⟩ := List.cons.inj hback
          have hlast : ∀ c ∈ (e :: w).getLast?, c.isDigit := by
            have hno := List.rdropWhile_last_not (fun c : Char => !c.isDigit) (e :: rest)
              (by rw [hspan]; exact List.cons_ne_nil e w)
            simp only [hspan] at hno
            intro c hc
            rw [List.getLast?_eq_some_getLast (List.cons_ne_nil e w), Option.mem_def, Option.some.injEq] at hc
            rw [← hc]
            simpa using hno
          refine ⟨_, e, w, _, ?_, hleft, hright, hd, hlast, ?_⟩
          · rw [hback, ← hrest]; exact hsplit
          · rw [digitSpan, hrest, hspan]

/-! ## Passes that find nothing -/

/-- The characters of `phone=` and a registered phone number. -/
def phoneTextChars : Text := "phone=+0123456789 ()-".toList

theorem mem_of_isDigit {c : Char} (h : c.isDigit) : c ∈ "0123456789".toList := by
  simp only [Char.isDigit, Bool.and_eq_true, decide_eq_true_eq, ge_iff_le] at h
  have hlow : 48 ≤ c.toNat := h.1
  have hhigh : c.toNat ≤ 57 := h.2
  have hall : ∀ n, 48 ≤ n → n ≤ 57 → Char.ofNat n ∈ "0123456789".toList := by decide
  have hmem := hall c.toNat hlow hhigh
  rwa [Char.ofNat_toNat] at hmem

theorem mem_of_isPhoneChar {c : Char} (h : isPhoneChar c) : c ∈ phoneTextChars := by
  simp only [isPhoneChar, Bool.or_eq_true, decide_eq_true_eq] at h
  rcases h with (((h | rfl) | rfl) | rfl) | rfl
  · have hdigits : ∀ c ∈ "0123456789".toList, c ∈ phoneTextChars := by decide
    exact hdigits c (mem_of_isDigit h)
  all_goals decide

section Passes
variable {t : CharTables} {text : Text}

theorem needs_anyCase {s : String} {a : Char} (hs : a ∈ s.toList) (ha : a ∈ "swtacb".toList) :
    (anyCase t s).Needs fun x => x ∉ phoneTextChars := by
  refine needs_chain (List.mem_map.mpr ⟨a, hs, rfl⟩) fun x (hsame : t.sameCase a x = true) hx => ?_
  have hascii : ∀ a ∈ "swtacb".toList, ∀ x ∈ phoneTextChars,
      a.toNat < 128 ∧ x.toNat < 128 ∧ (a.toLower == x.toLower) = false := by decide
  obtain ⟨ha, hx, hne⟩ := hascii a ha x hx
  rw [t.sameCase_ascii a x ha hx, hne] at hsame
  cases hsame

theorem needs_literal {s : String} {a : Char} (hs : a ∈ s.toList) (ha : a ∉ phoneTextChars) :
    (literal s).Needs fun x => x ∉ phoneTextChars :=
  needs_chain (List.mem_map.mpr ⟨a, hs, rfl⟩) fun x hx => by rwa [beq_iff_eq.mp hx]

theorem secretKey_needs : (secretKeyRe t).Needs fun x => x ∉ phoneTextChars := by
  have hapi : (Regex.chain [anyCase t "api", .opt (chars "_-"), anyCase t "key"]).Needs fun x =>
      x ∉ phoneTextChars :=
    needs_chain List.mem_cons_self (needs_anyCase (s := "api") (a := 'a') (by decide) (by decide))
  refine Or.inr (Or.inl (needs_anyOf ?_))
  simp only [List.forall_mem_cons]
  refine ⟨?_, ?_, ?_, ?_, hapi, ?_, ?_, ?_, by simp⟩
  · exact needs_anyCase (s := "password") (a := 's') (by decide) (by decide)
  · exact needs_anyCase (s := "passwd") (a := 's') (by decide) (by decide)
  · exact needs_anyCase (s := "pwd") (a := 'w') (by decide) (by decide)
  · exact needs_anyCase (s := "token") (a := 't') (by decide) (by decide)
  · exact needs_anyCase (s := "secret") (a := 's') (by decide) (by decide)
  · exact needs_anyCase (s := "authorization") (a := 'a') (by decide) (by decide)
  · exact needs_anyCase (s := "credential") (a := 'c') (by decide) (by decide)

/-- Only the pass over phone numbers finds something where no other character stands. -/
theorem sanitizeText_of_phoneTextChars (htext : ∀ x ∈ text, x ∈ phoneTextChars) :
    sanitizeText t text = maskPhone t text := by
  have hno : ∀ x ∈ text, ¬ x ∉ phoneTextChars := fun x hx h => h (htext x hx)
  have hquote : (chars "\"'").Needs fun x => x ∉ phoneTextChars := by
    intro x hx
    have hboth : ∀ x ∈ "\"'".toList, x ∉ phoneTextChars := by decide
    exact hboth x (List.contains_iff_mem.mp hx)
  have hkv : (secretKvRe t).Needs fun x => x ∉ phoneTextChars := Or.inl secretKey_needs
  have hbearer : (bearerRe t).Needs fun x => x ∉ phoneTextChars :=
    Or.inr (Or.inl (needs_anyCase (s := "bearer") (a := 'b') (by decide) (by decide)))
  have hjwt : (jwtRe t).Needs fun x => x ∉ phoneTextChars :=
    Or.inr (Or.inl (needs_literal (s := "eyJ") (a := 'y') (by decide) (by decide)))
  have hhash : (hashRe t).Needs fun x => x ∉ phoneTextChars :=
    Or.inl (needs_literal (s := "$argon2") (a := '$') (by decide) (by decide))
  have hname : (nameKvRe t).Needs fun x => x ∉ phoneTextChars := Or.inr (Or.inl hquote)
  have hemail : emailRe.Needs fun x => x ∉ phoneTextChars :=
    Or.inr (Or.inr (Or.inl (needs_literal (s := "@") (a := '@') (by decide) (by decide))))
  simp only [sanitizeText, redactText, maskEmail, sub_of_needs hkv _ hno, sub_of_needs hbearer _ hno,
    sub_of_needs hjwt _ hno, sub_of_needs hhash _ hno, sub_of_needs hname _ hno, sub_of_needs hemail _ hno]

end Passes

/-! ## Digits that are left -/

section Digits
variable {t : CharTables} {m : Match Char}

theorem isDigit_of_mem {c : Char} (h : c ∈ phoneTextChars) : t.isDigit c = c.isDigit := by
  have hascii : ∀ c ∈ phoneTextChars, c.toNat < 128 := by decide
  exact t.digit_ascii c (hascii c h)

theorem filter_isDigit {w : Text} (h : ∀ c ∈ w, c ∈ phoneTextChars) : w.filter t.isDigit = digitsOf w :=
  List.filter_congr fun c hc => isDigit_of_mem (h c hc)

theorem digitsOf_of_digits {w : Text} (h : ∀ c ∈ w, c.isDigit) : digitsOf w = w := List.filter_eq_self.mpr h

theorem length_lastTwo (w : Text) : (lastTwo w).length = min w.length 2 := by
  rw [lastTwo, List.length_drop]; omega

/-- The last two digits of a masked number are left. -/
theorem digitsOf_masked (hm : ∀ c ∈ m.text, c ∈ phoneTextChars)
    (hiso : (isoDateRe t).matchesAt m.text = false) :
    digitsOf (maskPhoneMatch t m) = lastTwo (digitsOf m.text) := by
  have hlast : digitsOf (lastTwo (digitsOf m.text)) = lastTwo (digitsOf m.text) :=
    digitsOf_of_digits fun c hc => (List.mem_filter.mp (List.mem_of_mem_drop hc)).2
  have hstars : digitsOf "***".toList = [] := by decide
  have hplus : digitsOf (if m.text.head? = some '+' then ['+'] else []) = [] := by split <;> rfl
  simp only [maskPhoneMatch, hiso, filter_isDigit hm, Bool.false_eq_true, if_false]
  rw [digitsOf_append, digitsOf_append, hstars, hplus]
  exact hlast

theorem PhoneWord.length_digitsOf {plus : Text} {d : Char} {us : List Text} (h : PhoneWord t plus d us)
    (hchars : ∀ c ∈ plus ++ d :: us.flatten, c ∈ phoneTextChars) :
    (digitsOf (plus ++ d :: us.flatten)).length = us.length + 1 := by
  rw [← filter_isDigit (t := t) hchars, h.digits]

/-- A date is left with all its digits. -/
theorem digitsOf_date (hiso : (isoDateRe t).matchesAt m.text = true) :
    digitsOf (maskPhoneMatch t m) = digitsOf m.text := by
  simp only [maskPhoneMatch, hiso, if_true]

theorem two_le_digitsOf_masked (hmatch : (phoneRe t).Matches m.text) (hm : ∀ c ∈ m.text, c ∈ phoneTextChars) :
    2 ≤ (digitsOf (maskPhoneMatch t m)).length := by
  obtain ⟨plus, d, us, hw, hword⟩ := exists_phoneWord hmatch
  have hcount : (digitsOf m.text).length = us.length + 1 := by
    rw [hw] at hm ⊢; exact hword.length_digitsOf hm
  have hmin := hword.min
  cases hiso : (isoDateRe t).matchesAt m.text with
  | true => rw [digitsOf_date hiso]; omega
  | false => rw [digitsOf_masked hm hiso, length_lastTwo]; omega

/-- Pieces that leave no digit have none. -/
theorem digitsOf_pieces {ps : List (Piece Char)} (hps : ∀ m, .hit m ∈ ps → (phoneRe t).Matches m.text)
    (hchars : ∀ c ∈ ps.flatMap Piece.text, c ∈ phoneTextChars) (h : digitsOf (ps.flatMap (phoneOut t)) = []) :
    digitsOf (ps.flatMap Piece.text) = [] := by
  induction ps with
  | nil => rfl
  | cons p ps ih =>
      rw [List.flatMap_cons, digitsOf_append, List.append_eq_nil_iff] at h
      rw [List.flatMap_cons, List.forall_mem_append] at hchars
      have hlater := ih (fun m hm => hps m (List.mem_cons_of_mem _ hm)) hchars.2 h.2
      rw [List.flatMap_cons, digitsOf_append, hlater, List.append_nil]
      cases p with
      | kept x => exact h.1
      | hit m =>
          have htwo := two_le_digitsOf_masked (hps m List.mem_cons_self) hchars.1
          rw [show digitsOf (maskPhoneMatch t m) = [] from h.1] at htwo
          exact absurd htwo (by simp)

theorem isoDate_of_sign (w : Text) : (isoDateRe t).matchesAt ('+' :: w) = false := by
  refine Bool.eq_false_iff.mpr fun h => ?_
  simp only [matchesAt, Bool.not_eq_true', List.isEmpty_eq_false_iff] at h
  obtain ⟨e, he⟩ := List.exists_mem_of_ne_nil _ h
  obtain ⟨_, ⟨u, v, hu, -, rfl⟩, hread⟩ := ways_sound he
  obtain ⟨hmin, -, hdigits⟩ := matches_rep_one.mp hu
  cases u with
  | nil => simp at hmin
  | cons x u =>
      obtain ⟨rfl, -⟩ : '+' = x ∧ _ := List.cons.inj hread.rest
      have hx := hdigits '+' List.mem_cons_self
      rw [not_isDigit_of (by decide) (by decide)] at hx
      cases hx

end Digits

/-! ## Registered numbers -/

section Registered
variable {t : CharTables} {p : Text}

/-- The text that a registration accepts: a sign or none, and characters of a phone number. -/
def IsPhoneText (p : Text) : Prop :=
  ∃ sign body, p = sign ++ body ∧ (sign = [] ∨ sign = ['+']) ∧ ∀ c ∈ body, isPhoneChar c

theorem IsPhoneText.mem_text (hp : IsPhoneText p) {c : Char} (hc : c ∈ "phone=".toList ++ p) :
    c ∈ phoneTextChars := by
  obtain ⟨sign, body, rfl, hsign, hbody⟩ := hp
  have hname : ∀ c ∈ "phone=".toList, c ∈ phoneTextChars := by decide
  rcases List.mem_append.mp hc with hc | hc
  · exact hname c hc
  · rcases List.mem_append.mp hc with hc | hc
    · rcases hsign with rfl | rfl
      · cases hc
      · obtain rfl := List.mem_singleton.mp hc
        decide
    · exact mem_of_isPhoneChar (hbody c hc)

/-- A character of the number that is no sign at its front. -/
theorem IsPhoneText.isPhoneChar_of_ne (hp : IsPhoneText p) {c : Char} (hc : c ∈ p) (hne : c ≠ '+') :
    isPhoneChar c := by
  obtain ⟨sign, body, rfl, hsign, hbody⟩ := hp
  rcases List.mem_append.mp hc with hc | hc
  · rcases hsign with rfl | rfl
    · cases hc
    · exact absurd (List.mem_singleton.mp hc) hne
  · exact hbody c hc

theorem IsPhoneText.isDigit_of_mem (hp : IsPhoneText p) {c : Char} (hc : c ∈ p) : t.isDigit c = c.isDigit :=
  FleetManagement.isDigit_of_mem (hp.mem_text (List.mem_append_right _ hc))

/-- A sign stands at the front of the number only. -/
theorem IsPhoneText.sign_at (hp : IsPhoneText p) {u v : Text} (h : "phone=".toList ++ p = u ++ '+' :: v) :
    u = "phone=".toList ∧ p = '+' :: v := by
  obtain ⟨sign, body, rfl, hsign, hbody⟩ := hp
  have hname : '+' ∉ "phone=".toList := by decide
  have hno : '+' ∉ body := fun hmem => absurd (hbody '+' hmem) (by decide)
  rcases hsign with rfl | rfl
  · have hmem : '+' ∈ "phone=".toList ++ ([] ++ body) := by rw [h]; simp
    exact absurd hmem (by simp only [List.nil_append, List.mem_append, hname, hno, or_self, not_false_eq_true])
  · obtain ⟨rfl, -, rfl⟩ := (List.append_cons_inj_of_notMem hname hno).mp h
    exact ⟨rfl, rfl⟩

theorem digitsOf_name (w : Text) : digitsOf ("phone=".toList ++ w) = digitsOf w := by
  rw [digitsOf_append]; rfl

/-- Where at most two digits are left, the number is one that the masking takes as a whole. -/
theorem maskable_of_masked (hp : IsPhoneText p)
    (h : (digitsOf (maskPhone t ("phone=".toList ++ p))).length ≤ 2) : Maskable t p := by
  by_cases hfew : (digitsOf p).length ≤ 2
  · exact Or.inl hfew
  refine Or.inr ?_
  have hscan := scans_pieces (phoneRe t) ("phone=".toList ++ p)
  have htext := hscan.text
  have hmatch : ∀ m, .hit m ∈ (phoneRe t).pieces ("phone=".toList ++ p) → (phoneRe t).Matches m.text :=
    fun m hm => hscan.matches_of_hit hm
  rw [maskPhone_eq] at h
  generalize (phoneRe t).pieces ("phone=".toList ++ p) = ps at h htext hmatch
  have htext : ps.flatMap Piece.text = "phone=".toList ++ p := htext
  have hhit : ∃ m, .hit m ∈ ps := by
    by_contra hno
    have hkept : ps.flatMap (phoneOut t) = ps.flatMap Piece.text := by
      refine List.flatMap_congr fun piece hpiece => ?_
      cases piece with
      | kept x => rfl
      | hit m => exact absurd ⟨m, hpiece⟩ hno
    rw [hkept, htext, digitsOf_name] at h
    exact hfew h
  obtain ⟨m, hm⟩ := hhit
  obtain ⟨before, after, rfl⟩ := List.mem_iff_append.mp hm
  simp only [List.flatMap_append, List.flatMap_cons, digitsOf_append, List.length_append, Piece.text,
    phoneOut] at h htext
  have hchars : ∀ c ∈ before.flatMap Piece.text ++ (m.text ++ after.flatMap Piece.text), c ∈ phoneTextChars :=
    fun c hc => hp.mem_text (htext ▸ hc)
  simp only [List.forall_mem_append] at hchars
  obtain ⟨hbefore, hnumber, hafter⟩ := hchars
  -- Two digits are left of the match, so no other ones stand around it.
  have htwo := two_le_digitsOf_masked (hmatch m hm) hnumber
  have hleft : digitsOf (before.flatMap Piece.text) = [] :=
    digitsOf_pieces (fun m hm => hmatch m (by simp [hm])) hbefore (List.length_eq_zero_iff.mp (by omega))
  have hright : digitsOf (after.flatMap Piece.text) = [] :=
    digitsOf_pieces (fun m hm => hmatch m (by simp [hm])) hafter (List.length_eq_zero_iff.mp (by omega))
  obtain ⟨plus, d, us, hw, hword⟩ := exists_phoneWord (hmatch m hm)
  rw [hw] at hnumber htext
  have hcount := hword.length_digitsOf hnumber
  have hmin := hword.min
  have hmax := hword.max
  have hiso : (isoDateRe t).matchesAt m.text = false := by
    refine Bool.eq_false_iff.mpr fun hiso => ?_
    rw [digitsOf_date hiso, hw] at h
    omega
  have hdigit : ∀ c ∈ plus ++ d :: us.flatten, t.isDigit c = c.isDigit := fun c hc => isDigit_of_mem (hnumber c hc)
  have hd : d.isDigit := by rw [← hdigit d (by simp)]; exact hword.digit
  have hplus : digitsOf plus = [] := by rcases hword.plus with rfl | rfl <;> rfl
  -- The match lies in the number.
  obtain ⟨a, ha, hpa⟩ : ∃ a, before.flatMap Piece.text ++ plus = "phone=".toList ++ a ∧
      p = a ++ (d :: us.flatten ++ after.flatMap Piece.text) := by
    have hsplit : "phone=".toList ++ p =
        (before.flatMap Piece.text ++ plus) ++ (d :: us.flatten ++ after.flatMap Piece.text) := by
      rw [← htext]; simp
    rcases List.append_eq_append_iff.mp hsplit with ⟨a, ha, hpa⟩ | ⟨a, ha, hpa⟩
    · exact ⟨a, ha, hpa⟩
    · cases a with
      | nil => exact ⟨[], by simpa using ha.symm, by simpa using hpa.symm⟩
      | cons x a =>
          obtain ⟨rfl, -⟩ := List.cons.inj hpa
          have hname : ∀ c ∈ "phone=".toList, c.isDigit = false := by decide
          rw [hname d (by rw [ha]; simp)] at hd
          cases hd
  have hfront : digitsOf a = [] := by
    have hall : digitsOf ("phone=".toList ++ a) = [] := by rw [← ha, digitsOf_append, hleft, hplus]; rfl
    rwa [digitsOf_name] at hall
  have hlast : ∀ c ∈ (d :: us.flatten).getLast?, c.isDigit := by
    obtain ⟨init, e, hinit, he⟩ := hword.hit.last
    have hlast : (d :: us.flatten).getLast? = some e := by
      have hall := congrArg List.getLast? hinit
      rwa [List.getLast?_append_cons, List.getLast?_concat] at hall
    intro c hc
    rw [hlast, Option.mem_some_iff] at hc
    subst hc
    rw [← hdigit e (by rw [hinit]; simp)]
    exact he
  have hspan : digitSpan p = d :: us.flatten := by rw [hpa]; exact digitSpan_eq hfront hright hd hlast
  have hdigits : (digitsOf p).length = us.length + 1 := by
    rw [hpa, digitsOf_append, digitsOf_append, hfront, hright, List.append_nil, List.nil_append, ← hcount,
      digitsOf_append, hplus, List.nil_append]
  refine ⟨by omega, by omega, ?_, ?_⟩
  · rw [hspan]
    exact singleSeparators_of_groups hd hword.groups fun c hc => hdigit c (by simp [hc])
  · rcases hword.plus with rfl | rfl
    · refine Or.inr ?_
      rw [hspan]
      rw [hw] at hiso
      exact hiso
    · have hsign : "phone=".toList ++ p =
          before.flatMap Piece.text ++ '+' :: (d :: us.flatten ++ after.flatMap Piece.text) := by
        rw [← htext]; simp
      refine Or.inl ?_
      rw [(hp.sign_at hsign).2]
      simp [isSigned, hd]

theorem isSigned_iff : isSigned p = true ↔ ∃ d rest, p = '+' :: d :: rest ∧ d.isDigit := by
  match p with
  | [] => simp [isSigned]
  | [c] => simp [isSigned]
  | c :: d :: rest =>
      simp only [isSigned, List.head?_cons, List.tail_cons, Option.any_some, Bool.and_eq_true,
        decide_eq_true_eq, Option.some.injEq, List.cons.injEq]
      constructor
      · rintro ⟨rfl, hd⟩; exact ⟨d, rest, ⟨rfl, rfl, rfl⟩, hd⟩
      · rintro ⟨_, _, ⟨rfl, rfl, rfl⟩, hd⟩; exact ⟨rfl, hd⟩

/-- Where the number has few digits, nothing is masked. -/
theorem maskPhone_of_few (hp : IsPhoneText p) (h : (digitsOf p).length ≤ 2) :
    maskPhone t ("phone=".toList ++ p) = "phone=".toList ++ p := by
  refine sub_of_no_word _ fun w hpart hw => ?_
  obtain ⟨plus, d, us, rfl, hword⟩ := exists_phoneWord hw
  have hcount := hword.length_digitsOf fun c hc => hp.mem_text (hpart.subset hc)
  have hle : (digitsOf (plus ++ d :: us.flatten)).length ≤ (digitsOf ("phone=".toList ++ p)).length :=
    (hpart.sublist.filter _).length_le
  rw [digitsOf_name, hcount] at hle
  have hmin := hword.min
  omega

/-- A number whose digits are groups, with the characters around them. -/
structure PhoneLayout (t : CharTables) (p left : Text) (d : Char) (us : List Text) (right : Text) : Prop where
  split : p = left ++ (d :: us.flatten ++ right)
  digits_left : digitsOf left = []
  digits_right : digitsOf right = []
  digit : d.isDigit
  groups : ∀ u ∈ us, PhoneGroup t u
  span : digitSpan p = d :: us.flatten
  after : ∀ c ∈ us.flatten ++ right, isPhoneChar c

/-- A sign does not stand between the digits or after them. -/
theorem isPhoneChar_after (hp : IsPhoneText p) {left w right : Text} {d : Char}
    (hsplit : p = left ++ (d :: w ++ right)) {c : Char} (hc : c ∈ w ++ right) : isPhoneChar c := by
  refine hp.isPhoneChar_of_ne (by rw [hsplit]; simp only [List.mem_append, List.mem_cons] at hc ⊢; tauto) ?_
  rintro rfl
  obtain ⟨u, v, huv⟩ := List.mem_iff_append.mp hc
  have hat : "phone=".toList ++ p = ("phone=".toList ++ left ++ d :: u) ++ '+' :: v := by
    rw [hsplit, List.cons_append, huv]; simp
  have hlength := congrArg List.length (hp.sign_at hat).1
  simp only [List.length_append, List.length_cons] at hlength
  omega

theorem exists_layout (hp : IsPhoneText p) (hdigits : digitsOf p ≠ [])
    (hsingle : singleSeparators (digitSpan p)) : ∃ left d us right, PhoneLayout t p left d us right := by
  obtain ⟨left, d, w, right, hsplit, hleft, hright, hd, hlast, hspan⟩ := exists_digitSpan hdigits
  rw [hspan] at hsingle
  have hbody : ∀ c ∈ w ++ right, isPhoneChar c := fun c hc => isPhoneChar_after hp hsplit hc
  obtain ⟨us, rfl, hus⟩ := exists_groups (t := t) (fun c hc => hbody c (by simp [hc])) hsingle hlast
  exact ⟨left, d, us, right, hsplit, hleft, hright, hd, hus, hspan, hbody⟩

namespace PhoneLayout
variable {left right : Text} {d : Char} {us : List Text} (h : PhoneLayout t p left d us right)
include h

theorem digitsOf_eq : digitsOf p = digitsOf (d :: us.flatten) := by
  rw [h.split, digitsOf_append, digitsOf_append, h.digits_left, h.digits_right]; simp

theorem mem_span {c : Char} (hc : c ∈ d :: us.flatten) : c ∈ p := by
  rw [h.split]
  exact List.mem_append_right _ (List.mem_append_left _ hc)

theorem word (hp : IsPhoneText p) (hmin : 9 ≤ (digitsOf p).length) (hmax : (digitsOf p).length ≤ 15) {plus : Text}
    (hplus : plus = [] ∨ plus = ['+']) : PhoneWord t plus d us := by
  have hcount : (digitsOf (d :: us.flatten)).length = us.length + 1 := by
    have hgroups := digits_of_groups h.groups
    rw [filter_isDigit fun c hc => hp.mem_text (List.mem_append_right _ (h.mem_span (List.mem_cons_of_mem d hc)))]
      at hgroups
    simp only [digitsOf, List.filter_cons_of_pos h.digit, List.length_cons] at hgroups ⊢
    rw [hgroups]
  rw [h.digitsOf_eq, hcount] at hmin hmax
  exact ⟨hplus, by rw [hp.isDigit_of_mem (h.mem_span List.mem_cons_self), h.digit], h.groups, by omega, by omega⟩

theorem not_isDigit_right (hp : IsPhoneText p) : ∀ e ∈ right, t.isDigit e = false := fun e he => by
  rw [hp.isDigit_of_mem (by rw [h.split]; simp [he]), digitsOf_eq_nil.mp h.digits_right e he]

theorem not_isWord_next : right.head?.any t.isWord = false := by
  have hafter := h.after
  have hright := h.digits_right
  cases right with
  | nil => rfl
  | cons e right =>
      exact (isSeparator_of_isPhoneChar (hafter e (by simp)) (digitsOf_eq_nil.mp hright e (by simp))).2.1

end PhoneLayout

theorem not_isDigit_name : ∀ e ∈ "phone=".toList, t.isDigit e = false := by
  have hname : ∀ e ∈ "phone=".toList, e ∈ phoneTextChars ∧ e.isDigit = false := by decide
  exact fun e he => by rw [isDigit_of_mem (hname e he).1, (hname e he).2]

theorem joins_name : joins t "phone=".toList.getLast? = false := by
  have hequals : joins t (some '=') = false := by
    simp [joins, not_isWord_of (t := t) (c := '=') (by decide) (by decide)]
  exact hequals

section Masked
variable {left right : Text} {d : Char} {us : List Text} (hp : IsPhoneText p)
  (h : PhoneLayout t p left d us right) (hmin : 9 ≤ (digitsOf p).length) (hmax : (digitsOf p).length ≤ 15)
include hp h hmin hmax

/-- A number with a sign before its digits is masked with the sign. -/
theorem maskPhone_of_signed (hsigned : isSigned p) : maskPhone t ("phone=".toList ++ p) =
    "phone=".toList ++ (maskPhoneMatch t ⟨'+' :: d :: us.flatten, []⟩ ++ right) := by
  obtain ⟨e, rest, hp', he⟩ := isSigned_iff.mp hsigned
  have hsplit := h.split
  have hleft := h.digits_left
  obtain rfl : left = ['+'] := by
    match left, hp'.symm.trans hsplit, hleft with
    | [], hsplit, _ =>
        have hd := h.digit
        rw [← (List.cons.inj hsplit).1] at hd
        exact absurd hd (by decide)
    | [c], hsplit, _ => rw [(List.cons.inj hsplit).1]
    | c :: c' :: left, hsplit, hleft =>
        obtain ⟨-, hsplit⟩ := List.cons.inj hsplit
        rw [(List.cons.inj hsplit).1, digitsOf_eq_nil.mp hleft c' (by simp)] at he
        cases he
  have hmask := maskPhone_of_word (h.word hp hmin hmax (Or.inr rfl)) not_isDigit_name (fun u e v huv hlt => by
    rw [← hsplit] at huv
    rw [(hp.sign_at huv).1] at hlt
    exact absurd hlt (lt_irrefl _)) joins_name (h.not_isDigit_right hp) h.not_isWord_next
  rwa [← hsplit] at hmask

/-- A number with no sign before its digits is masked from its first digit on. -/
theorem maskPhone_of_unsigned (hsigned : isSigned p = false) : maskPhone t ("phone=".toList ++ p) =
    "phone=".toList ++ left ++ (maskPhoneMatch t ⟨d :: us.flatten, []⟩ ++ right) := by
  have hnot : ∀ u e v, "phone=".toList ++ p = u ++ '+' :: e :: v → e.isDigit = false := fun u e v huv => by
    refine Bool.eq_false_iff.mpr fun he => ?_
    rw [isSigned_iff.mpr ⟨e, v, (hp.sign_at huv).2, he⟩] at hsigned
    cases hsigned
  have hpre : ∀ e ∈ "phone=".toList ++ left, t.isDigit e = false := by
    refine List.forall_mem_append.mpr ⟨not_isDigit_name, fun e he => ?_⟩
    rw [hp.isDigit_of_mem (by rw [h.split]; simp [he]), digitsOf_eq_nil.mp h.digits_left e he]
  have hjoins : joins t ("phone=".toList ++ left).getLast? = false := by
    have hsplit := h.split
    have hleft := h.digits_left
    rcases List.eq_nil_or_concat left with rfl | ⟨init, x, rfl⟩
    · exact joins_name
    · rw [List.concat_eq_append] at hsplit hleft
      have hx : isPhoneChar x := by
        refine hp.isPhoneChar_of_ne (by rw [hsplit]; simp) ?_
        rintro rfl
        have hd := hnot ("phone=".toList ++ init) d (us.flatten ++ right) (by rw [hsplit]; simp)
        rw [h.digit] at hd
        cases hd
      obtain ⟨-, hxword, hxsign⟩ :=
        isSeparator_of_isPhoneChar (t := t) hx (digitsOf_eq_nil.mp hleft x (by simp))
      rw [List.concat_eq_append, ← List.append_assoc, List.getLast?_concat]
      simp [joins, hxword, hxsign]
  have hmask := maskPhone_of_word (h.word hp hmin hmax (Or.inl rfl)) hpre (fun u e v huv _ => by
    have huv : "phone=".toList ++ p = u ++ '+' :: e :: v := by rw [← huv, h.split]; simp
    have he : e ∈ phoneTextChars := hp.mem_text (by rw [huv]; simp)
    rw [isDigit_of_mem he, hnot u e v huv]) hjoins (h.not_isDigit_right hp) h.not_isWord_next
  rwa [List.append_assoc, List.nil_append, ← h.split] at hmask

end Masked

/-- A number that the masking takes as a whole leaves its last two digits. -/
theorem digitsOf_of_maskable (hp : IsPhoneText p) (h : Maskable t p) :
    digitsOf (maskPhone t ("phone=".toList ++ p)) = lastTwo (digitsOf p) := by
  rcases h with hfew | ⟨hmin, hmax, hsingle, hiso⟩
  · rw [maskPhone_of_few hp hfew, digitsOf_name, lastTwo, Nat.sub_eq_zero_of_le hfew, List.drop_zero]
  obtain ⟨left, d, us, right, h⟩ :=
    exists_layout (t := t) hp (fun hnil => by simp [hnil] at hmin) hsingle
  have hmem : ∀ c ∈ d :: us.flatten, c ∈ phoneTextChars := fun c hc =>
    hp.mem_text (List.mem_append_right _ (h.mem_span hc))
  cases hsigned : isSigned p with
  | true =>
      rw [maskPhone_of_signed hp h hmin hmax hsigned, digitsOf_name, digitsOf_append, h.digits_right, List.append_nil,
        digitsOf_masked (m := ⟨'+' :: d :: us.flatten, []⟩) (List.forall_mem_cons.mpr ⟨by decide, hmem⟩)
          (isoDate_of_sign _), h.digitsOf_eq]
      rfl
  | false =>
      rw [h.span, hsigned] at hiso
      rw [maskPhone_of_unsigned hp h hmin hmax hsigned, List.append_assoc, digitsOf_name, digitsOf_append,
        digitsOf_append, h.digits_left, h.digits_right, List.append_nil, List.nil_append,
        digitsOf_masked (m := ⟨d :: us.flatten, []⟩) hmem (hiso.resolve_left (by simp)), h.digitsOf_eq]

/-- The masked text has at most the last two digits of a registered number if and only if the number is one
that the masking takes as a whole. -/
theorem registered_phone_masked_iff (t : CharTables) (p : String) (hp : isPhone p) :
    (digitsOf (sanitizeText t ("phone=".toList ++ p.toList))).Sublist (lastTwo (digitsOf p.toList)) ↔
      Maskable t p.toList := by
  have hp : IsPhoneText p.toList := exists_sign_of_isPhone hp
  rw [sanitizeText_of_phoneTextChars fun c hc => hp.mem_text hc]
  constructor
  · intro h
    refine maskable_of_masked hp (h.length_le.trans ?_)
    rw [length_lastTwo]
    exact Nat.min_le_right ..
  · intro h
    rw [digitsOf_of_maskable hp h]

theorem international_phone_masked :
    (digitsOf (sanitizeText asciiTables ("phone=".toList ++ "+380 50 123-45-67".toList))).Sublist
      (lastTwo (digitsOf "+380 50 123-45-67".toList)) :=
  (registered_phone_masked_iff asciiTables "+380 50 123-45-67" (by decide)).mpr
    (Or.inr ⟨by decide, by decide, by decide, Or.inl (by decide)⟩)

/-- Two separators side by side keep a number from being masked. -/
theorem parenthesized_phone_leaks : isPhone "+380 (50) 123-45-67" ∧
    ¬ (digitsOf (sanitizeText asciiTables ("phone=".toList ++ "+380 (50) 123-45-67".toList))).Sublist
      (lastTwo (digitsOf "+380 (50) 123-45-67".toList)) := by
  decide +kernel

end Registered

end FleetManagement
