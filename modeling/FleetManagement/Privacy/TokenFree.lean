import FleetManagement.Library.RegexTokens
import FleetManagement.Privacy.Hits

/-!
# No token survives

After its own pass a text has no bearer token, JSON web token or password hash, and no later pass makes one:
every placeholder has a character that stops the tokens under way, and no token begins after it.
-/

namespace FleetManagement

open Regex

/-- `[A-Za-z0-9._~+/=-]` under `re.IGNORECASE` -/
def bearerChar (t : CharTables) (c : Char) : Bool :=
  anyCaseLetter t c || c.isDigit || "._~+/=-".toList.contains c

/-- `[\w$=,+/.-]` -/
def hashChar (t : CharTables) (c : Char) : Bool := t.isWord c || "$=,+/.-".toList.contains c

/-- What may stand before a word. -/
def opensWord (t : CharTables) (prev : Option Char) : Bool := !prev.any t.isWord

def bearerToken (t : CharTables) : Token Char where
  opens := opensWord t
  parts := Token.ones t.sameCase "bearer".toList ++ [⟨t.isSpace, true⟩, ⟨bearerChar t, true⟩]

def isChar (a c : Char) : Bool := c == a

def jwtToken (t : CharTables) : Token Char where
  opens := opensWord t
  parts := Token.ones isChar "eyJ".toList ++
    [⟨base64Url, true⟩, ⟨isChar '.', false⟩, ⟨base64Url, true⟩, ⟨isChar '.', false⟩]

def hashToken (t : CharTables) : Token Char where
  opens _ := true
  parts := Token.ones isChar "$argon2".toList ++ [⟨hashChar t, true⟩]

section Tokens
variable {t : CharTables} {T : Token Char}

/-! ## Characters -/

/-- The characters of the placeholders that stop a token. -/
def marks : Text := "[]*@\"'".toList

theorem sameCase_letter {a : Char} (ha : a ∈ "abcdefghijklmnopqrstuvwxyz".toList) {c : Char}
    (hc : c ∈ marks) : t.sameCase a c = false := by
  have hascii : ∀ a ∈ "abcdefghijklmnopqrstuvwxyz".toList, ∀ c ∈ marks, a.toNat < 128 ∧ c.toNat < 128 ∧
      (a.toLower == c.toLower) = false := by decide
  obtain ⟨ha, hc, hne⟩ := hascii a ha c hc
  rw [t.sameCase_ascii a c ha hc, hne]

theorem not_isWord_mark {c : Char} (hc : c ∈ marks) : t.isWord c = false := by
  have hascii : ∀ c ∈ marks, c.toNat < 128 ∧ (c.isAlphanum || c == '_') = false := by decide
  exact not_isWord_of (hascii c hc).1 (hascii c hc).2

theorem not_isSpace_mark {c : Char} (hc : c ∈ marks) : t.isSpace c = false := by
  have hascii : ∀ c ∈ marks, c.toNat < 128 ∧ asciiSpaces.contains c = false := by decide
  exact not_isSpace_of (hascii c hc).1 (hascii c hc).2

theorem not_bearerChar_mark {c : Char} (hc : c ∈ marks) : bearerChar t c = false := by
  have hletter : anyCaseLetter t c = false := by
    refine Bool.eq_false_iff.mpr fun h => ?_
    obtain ⟨a, ha, hac⟩ := List.any_eq_true.mp h
    rw [sameCase_letter ha hc] at hac
    cases hac
  have hascii : ∀ c ∈ marks, c.isDigit = false ∧ "._~+/=-".toList.contains c = false := by decide
  rw [bearerChar, hletter, (hascii c hc).1, (hascii c hc).2]
  rfl

theorem not_hashChar_mark {c : Char} (hc : c ∈ marks) : hashChar t c = false := by
  have hascii : ∀ c ∈ marks, "$=,+/.-".toList.contains c = false := by decide
  rw [hashChar, not_isWord_mark hc, hascii c hc]
  rfl

theorem not_base64Url_mark {c : Char} (hc : c ∈ marks) : base64Url c = false := by
  have hascii : ∀ c ∈ marks, base64Url c = false := by decide
  exact hascii c hc

theorem mem_ones {q : Char → Char → Bool} {as : Text} {p : TokenPart Char} (h : p ∈ Token.ones q as) :
    ∃ a ∈ as, p.test = q a := by
  obtain ⟨a, ha, rfl⟩ := List.mem_map.mp h
  exact ⟨a, ha, rfl⟩

theorem isChar_mark {as : Text} (has : ∀ a ∈ as, a ∉ marks) {c : Char} (hc : c ∈ marks) {p : TokenPart Char}
    (hp : p ∈ Token.ones isChar as) : p.test c = false := by
  obtain ⟨a, ha, hq⟩ := mem_ones hp
  rw [hq]
  refine beq_eq_false_iff_ne.mpr ?_
  rintro rfl
  exact has c ha hc

theorem bearer_lacks {c : Char} (hc : c ∈ marks) : (bearerToken t).Lacks c := by
  intro p hp
  rcases List.mem_append.mp hp with hp | hp
  · obtain ⟨a, ha, hq⟩ := mem_ones hp
    have hletters : ∀ a ∈ "bearer".toList, a ∈ "abcdefghijklmnopqrstuvwxyz".toList := by decide
    rw [hq]
    exact sameCase_letter (hletters a ha) hc
  · simp only [List.mem_cons, List.not_mem_nil, or_false] at hp
    rcases hp with rfl | rfl
    · exact not_isSpace_mark hc
    · exact not_bearerChar_mark hc

theorem jwt_lacks {c : Char} (hc : c ∈ marks) : (jwtToken t).Lacks c := by
  intro p hp
  have hdot : isChar '.' c = false := beq_eq_false_iff_ne.mpr fun h => absurd (h ▸ hc) (by decide)
  rcases List.mem_append.mp hp with hp | hp
  · exact isChar_mark (by decide) hc hp
  · simp only [List.mem_cons, List.not_mem_nil, or_false] at hp
    rcases hp with rfl | rfl | rfl | rfl
    · exact not_base64Url_mark hc
    · exact hdot
    · exact not_base64Url_mark hc
    · exact hdot

theorem hash_lacks {c : Char} (hc : c ∈ marks) : (hashToken t).Lacks c := by
  intro p hp
  rcases List.mem_append.mp hp with hp | hp
  · exact isChar_mark (by decide) hc hp
  · rw [List.mem_singleton] at hp
    subst hp
    exact not_hashChar_mark hc

/-! ## Where a token begins -/

theorem not_step {p : TokenPart Char} {ps qs : List (TokenPart Char)} {c : Char} (hc : p.test c = false) :
    ¬ Token.Step (p :: ps) c qs := by
  intro h
  cases h with
  | last hx => rw [hc] at hx; cases hx
  | again hx => rw [hc] at hx; cases hx

theorem shuns_of {p : TokenPart Char} {ps : List (TokenPart Char)} (hparts : T.parts = p :: ps) {c : Char}
    (hc : p.test c = false) : T.Shuns c := by
  intro qs h
  rw [hparts] at h
  exact not_step hc h

/-- `b` has no case variant but `B`. -/
def OnlyAsciiB (t : CharTables) : Prop := ∀ c, t.sameCase 'b' c = true → c = 'b' ∨ c = 'B'

theorem bearer_shuns (hb : OnlyAsciiB t) {c : Char} (hc : c ≠ 'b' ∧ c ≠ 'B') : (bearerToken t).Shuns c :=
  shuns_of rfl (Bool.eq_false_iff.mpr fun h => (hb c h).elim hc.1 hc.2)

theorem jwt_shuns {c : Char} (hc : c ≠ 'e') : (jwtToken t).Shuns c := shuns_of rfl (beq_eq_false_iff_ne.mpr hc)

theorem hash_shuns {c : Char} (hc : c ≠ '$') : (hashToken t).Shuns c := shuns_of rfl (beq_eq_false_iff_ne.mpr hc)

/-- None of the placeholders takes part in a token. -/
structure Sealed (t : CharTables) (T : Token Char) : Prop where
  parts : T.parts ≠ []
  lacks : ∀ c ∈ marks, T.Lacks c
  shuns : ∀ c ∈ "*REDACTED]".toList, T.Shuns c
  digits : ∀ c, t.isDigit c = true → T.Shuns c
  words : ∀ a b, t.isWord a = true → t.isWord b = true → T.opens (some a) = T.opens (some b)

theorem ne_of_isDigit {c a : Char} (hc : t.isDigit c = true) (ha : a.toNat < 128 ∧ a.isDigit = false) :
    c ≠ a := by
  rintro rfl
  rw [t.digit_ascii c ha.1, ha.2] at hc
  cases hc

theorem opensWord_words (a b : Char) (ha : t.isWord a = true) (hb : t.isWord b = true) :
    opensWord t (some a) = opensWord t (some b) := by simp [opensWord, ha, hb]

theorem bearer_sealed (hb : OnlyAsciiB t) : Sealed t (bearerToken t) where
  parts := List.cons_ne_nil _ _
  lacks _ hc := bearer_lacks hc
  shuns c hc := by
    have hother : ∀ c ∈ "*REDACTED]".toList, c ≠ 'b' ∧ c ≠ 'B' := by decide
    exact bearer_shuns hb (hother c hc)
  digits _ hc := bearer_shuns hb ⟨ne_of_isDigit hc (by decide), ne_of_isDigit hc (by decide)⟩
  words := opensWord_words

theorem jwt_sealed : Sealed t (jwtToken t) where
  parts := List.cons_ne_nil _ _
  lacks _ hc := jwt_lacks hc
  shuns c hc := by
    have hother : ∀ c ∈ "*REDACTED]".toList, c ≠ 'e' := by decide
    exact jwt_shuns (hother c hc)
  digits _ hc := jwt_shuns (ne_of_isDigit hc (by decide))
  words := opensWord_words

theorem hash_sealed : Sealed t (hashToken t) where
  parts := List.cons_ne_nil _ _
  lacks _ hc := hash_lacks hc
  shuns c hc := by
    have hother : ∀ c ∈ "*REDACTED]".toList, c ≠ '$' := by decide
    exact hash_shuns (hother c hc)
  digits _ hc := hash_shuns (ne_of_isDigit hc (by decide))
  words _ _ _ _ := rfl

/-! ## The patterns -/

theorem toNat_lt_of_isUpper_or {c : Char} (h : c = 'b' ∨ c = 'B') :
    c.toNat < 128 ∧ (c.isAlphanum || c == '_') = true := by
  rcases h with rfl | rfl <;> decide

theorem boundary_of_word {prev next : Option Char} (h : next.any t.isWord = true) :
    (prev.any t.isWord != next.any t.isWord) = opensWord t prev := by
  rw [h, opensWord]
  cases prev.any t.isWord <;> rfl

theorem bearer_recognizes (hb : OnlyAsciiB t) : Recognizes (bearerRe t) (bearerToken t) := by
  have hplain : (chain [anyCase t "bearer", plus (space t), plus (.one (bearerChar t))]).Plain :=
    ⟨anyCase_plain, one_plain.1, one_plain.1⟩
  have hbegun : Token.Begun (chain [anyCase t "bearer", plus (space t), plus (.one (bearerChar t))])
      (bearerToken t).parts :=
    Token.begun_cons Token.spelled_ones
      (Token.begun_cons Token.spelled_plus (Token.begun_of_spelled Token.spelled_plus))
  refine recognizes_of_assert (List.cons_ne_nil _ _) hplain ?_ hbegun fun prev rest h => boundary_of_word ?_
  · simp only [chain, minLength, plus]
    omega
  · cases h with
    | @step _ _ x _ hx _ =>
        cases hx with
        | last hx =>
            obtain ⟨hascii, hword⟩ := toNat_lt_of_isUpper_or (hb x hx)
            simp [t.word_ascii x hascii, hword]
        | again _ hmany => cases hmany

theorem jwt_recognizes : Recognizes (jwtRe t) (jwtToken t) := by
  have hplain : (chain [literal "eyJ", plus (.one base64Url), literal ".", plus (.one base64Url), literal ".",
      Regex.star (.one base64Url)]).Plain :=
    ⟨⟨trivial, trivial, trivial⟩, one_plain.1, trivial, one_plain.1, trivial, one_plain.2⟩
  have hbegun : Token.Begun (chain [literal "eyJ", plus (.one base64Url), literal ".", plus (.one base64Url),
      literal ".", Regex.star (.one base64Url)]) (jwtToken t).parts :=
    Token.begun_cons (Token.spelled_ones (q := isChar)) (Token.begun_cons Token.spelled_plus
      (Token.begun_cons (Token.spelled_ones (q := isChar) (l := ['.'])) (Token.begun_cons Token.spelled_plus
        (Token.begun_cons (Token.spelled_ones (q := isChar) (l := ['.'])) Token.begun_star))))
  refine recognizes_of_assert (List.cons_ne_nil _ _) hplain ?_ hbegun fun prev rest h => boundary_of_word ?_
  · simp only [chain, minLength, plus]
    omega
  · cases h with
    | @step _ _ x _ hx _ =>
        cases hx with
        | last hx =>
            obtain rfl : x = 'e' := beq_iff_eq.mp hx
            simp [t.word_ascii 'e' (by decide)]
        | again _ hmany => cases hmany

theorem hash_recognizes : Recognizes (hashRe t) (hashToken t) := by
  refine recognizes_of_plain (List.cons_ne_nil _ _) ⟨?_, one_plain.1⟩ ?_
    (Token.begun_cons (Token.spelled_ones (q := isChar)) (Token.begun_of_spelled Token.spelled_plus))
  · exact ⟨trivial, trivial, trivial, trivial, trivial, trivial, trivial⟩
  · simp only [hashRe, chain, minLength, plus]
    omega

/-! ## What the passes write -/

section Passes
variable {out before rest w : Text} {c d : Cursor Char}

theorem idle_redacted (hT : Sealed t T) (h : T.Clean out) : T.Idle (redacted.reverse ++ out) := by
  have hopen := Token.idle_of_lacks h (hT.lacks '[' (by decide))
  have hrest := hopen.append (w := "REDACTED]".toList) fun c hc => hT.shuns c (List.mem_cons_of_mem _ hc)
  exact hrest

/-- The placeholder of a match that goes as far as it can. -/
theorem guarded_redacted (hT : Sealed t T) {r : Regex Char} {p : Char → Bool} (hr : Stops p r)
    (hp : ∀ c, p c = false → T.Shuns c) (hd : (r.ways c).head? = some d) (h : T.Guarded out before rest) :
    T.Guarded (redacted.reverse ++ out) d.before d.rest :=
  (idle_redacted hT h.clean).guarded _ _ fun _ => .inr fun x hx => hp x (hr c d hd x hx)

theorem guarded_name (hT : Sealed t T) (hd : ((nameKvRe t).ways { c with groups := [] }).head? = some d)
    (hread : Reads c d w) (hno : T.Absent c.before c.rest) (h : T.Guarded out c.before c.rest) :
    T.Guarded ((maskNameKv ⟨w, d.groups⟩).reverse ++ out) d.before d.rest := by
  obtain ⟨k, q, v, hhit⟩ := nameHit_of_head hd hread
  obtain rfl : w = k ++ q :: (v ++ [q]) := hhit.text
  rw [hhit.out, hread.before]
  rw [hread.rest] at h hno
  cases v with
  | nil => exact h.append hno
  | cons x v =>
      have hquote : q ∈ marks := by rcases hhit.quote with rfl | rfl <;> decide
      have hsplit : k ++ q :: (x :: v ++ [q]) ++ d.rest = (k ++ [q, x]) ++ (v ++ q :: d.rest) := by simp
      rw [hsplit] at h hno
      have hfirst := h.append hno
      have hstar := Token.idle_of_lacks hfirst.clean (hT.lacks '*' (by decide))
      have hstars := hstar.append (w := ['*', '*']) fun c hc => hT.shuns c (by
        simp only [List.mem_cons, List.not_mem_nil, or_false, or_self] at hc
        subst hc
        decide)
      have hclosed := Token.idle_of_lacks hstars.clean (hT.lacks q hquote)
      have hguarded := hclosed.guarded ((k ++ q :: (x :: v ++ [q])).reverse ++ c.before) d.rest
        fun hopens => .inl (by simpa using hopens)
      have hout : (k ++ q :: (maskName (x :: v) ++ [q])).reverse ++ out =
          q :: (['*', '*'].reverse ++ '*' :: ((k ++ [q, x]).reverse ++ out)) := by simp [maskName]
      rw [hout]
      exact hguarded

theorem guarded_email (hT : Sealed t T) (hd : (emailRe.ways { c with groups := [] }).head? = some d)
    (hread : Reads c d w) (hno : T.Absent c.before c.rest) (h : T.Guarded out c.before c.rest) :
    T.Guarded ((emailOut (.hit ⟨w, d.groups⟩)).reverse ++ out) d.before d.rest := by
  obtain ⟨x, l, dom, hhit⟩ := emailHit_of_head hd hread
  obtain rfl : w = x :: (l ++ '@' :: dom) := hhit.text
  rw [hhit.out, hread.before]
  rw [hread.rest] at h hno
  have hfirst : T.Guarded (x :: out) (x :: c.before) (l ++ '@' :: dom ++ d.rest) := h.kept (hno [] _ rfl)
  have hstar := Token.idle_of_lacks hfirst.clean (hT.lacks '*' (by decide))
  have hstars := hstar.append (w := ['*', '*']) fun c hc => hT.shuns c (by
    simp only [List.mem_cons, List.not_mem_nil, or_false, or_self] at hc
    subst hc
    decide)
  have hat := Token.idle_of_lacks hstars.clean (hT.lacks '@' (by decide))
  have hguarded := hat.guarded ((x :: (l ++ ['@'])).reverse ++ c.before) (dom ++ d.rest)
    fun hopens => .inl (by simpa using hopens)
  have hsplit : x :: (l ++ '@' :: dom) ++ d.rest = (x :: (l ++ ['@'])) ++ (dom ++ d.rest) := by simp
  rw [hsplit] at hno
  have hdomain := hguarded.append hno.later
  simpa using hdomain

/-- What a phone number is replaced by: its sign, stars and two of its digits, if it is no date. -/
theorem maskPhoneMatch_word {m : Match Char} {plus : Text} {e : Char} {us : List Text}
    (htext : m.text = plus ++ e :: us.flatten) (hw : PhoneWord t plus e us) :
    maskPhoneMatch t m = m.text ∨ ∃ z y, maskPhoneMatch t m = plus ++ ("***".toList ++ (z ++ [y])) ∧
      (∀ x ∈ z ++ [y], t.isDigit x = true) ∧ z.length = 1 := by
  unfold maskPhoneMatch
  dsimp only
  split
  · exact .inl rfl
  · refine .inr ?_
    have hsign : (if m.text.head? = some '+' then ['+'] else []) = plus := by
      rcases hw.plus with rfl | rfl
      · have hdigit : e ≠ '+' := ne_of_isDigit hw.digit (by decide)
        simp [htext, hdigit]
      · simp [htext]
    have hlength := hw.digits
    rw [← htext] at hlength
    have hmin := hw.min
    have hne : (m.text.filter t.isDigit).drop ((m.text.filter t.isDigit).length - 2) ≠ [] := by
      rw [ne_eq, List.drop_eq_nil_iff]
      omega
    obtain ⟨z, y, hzy⟩ := (List.eq_nil_or_concat _).resolve_left hne
    rw [List.concat_eq_append] at hzy
    refine ⟨z, y, ?_, fun x hx => ?_, ?_⟩
    · rw [hsign, hzy, List.append_assoc]
    · rw [← hzy] at hx
      exact (List.mem_filter.mp (List.mem_of_mem_drop hx)).2
    · have htwo := congrArg List.length hzy
      rw [List.length_drop, List.length_append, List.length_singleton] at htwo
      omega

theorem guarded_phone (hT : Sealed t T) (hd : ((phoneRe t).ways { c with groups := [] }).head? = some d)
    (hread : Reads c d w) (hno : T.Absent c.before c.rest) (h : T.Guarded out c.before c.rest) :
    T.Guarded ((maskPhoneMatch t ⟨w, d.groups⟩).reverse ++ out) d.before d.rest := by
  obtain ⟨w', hmatches, hread'⟩ := ways_sound (List.mem_of_mem_head? hd)
  obtain rfl : w = w' := List.append_cancel_right (hread.rest.symm.trans hread'.rest)
  obtain ⟨plus, e, us, hword, hw⟩ := exists_phoneWord hmatches
  rw [hread.before]
  rw [hread.rest] at h hno
  rcases maskPhoneMatch_word (m := ⟨w, d.groups⟩) hword hw with hsame | ⟨z, y, hout, hdigits, -⟩
  · rw [hsame]
    exact h.append hno
  · rw [hout]
    have hplus : T.Guarded (plus.reverse ++ out) (plus.reverse ++ c.before) (e :: us.flatten ++ d.rest) :=
      Token.Guarded.append (by rw [hword] at h; simpa using h) (by rw [hword] at hno; simpa using hno)
    have hstar := Token.idle_of_lacks hplus.clean (hT.lacks '*' (by decide))
    have hrest := hstar.append (w := ['*', '*'] ++ (z ++ [y])) fun x hx => by
      rcases List.mem_append.mp hx with hx | hx
      · simp only [List.mem_cons, List.not_mem_nil, or_false, or_self] at hx
        subst hx
        exact hT.shuns '*' (by decide)
      · exact hT.digits x (hdigits x hx)
    -- A number ends in a digit, before and after.
    obtain ⟨init, e', hlast, he'⟩ := (phoneHit_of_matches hmatches).last
    have hguarded := hrest.guarded (w.reverse ++ c.before) d.rest fun hopens => .inl (by
      have hsame := hT.words e' y (t.word_of_digit e' he') (t.word_of_digit y (hdigits y (by simp)))
      have hopens : T.opens (some y) = true := by simpa using hopens
      rw [← hsame] at hopens
      simpa [hlast] using hopens)
    simpa using hguarded

end Passes

/-! ## The bearer's own pass -/

/-- One token is under way at most, with the parts `ps` left. -/
def Only (T : Token Char) (out : Text) (ps : List (TokenPart Char)) : Prop :=
  T.Clean out ∧ ∀ qs, T.Live out qs → qs = ps

theorem Only.word {q : Char → Char → Bool} {as w out : Text} {ps : List (TokenPart Char)} (hps : ps ≠ [])
    (h : Only T out (Token.ones q as ++ ps)) (hw : w.length = as.length) (hshuns : ∀ c ∈ w, T.Shuns c) :
    Only T (w.reverse ++ out) ps := by
  induction w generalizing as out with
  | nil =>
      obtain rfl : as = [] := List.length_eq_zero_iff.mp hw.symm
      exact h
  | cons c w ih =>
      cases as with
      | nil => cases hw
      | cons a as =>
          obtain ⟨hc, hw'⟩ := List.forall_mem_cons.mp hshuns
          have hlive : ∀ qs, T.Live (c :: out) qs → qs = Token.ones q as ++ ps := fun qs hqs => by
            cases hqs with
            | first _ hx => exact absurd hx (hc qs)
            | next hlive hx =>
                obtain rfl := h.2 _ hlive
                cases hx with
                | last => rfl
                | again _ hmany => cases hmany
          have hnil : Token.ones q as ++ ps ≠ [] := List.append_ne_nil_of_right_ne_nil _ hps
          have hclean : T.Clean (c :: out) := Token.clean_cons h.1 fun hend => hnil (hlive [] hend).symm
          have hlater := ih ⟨hclean, hlive⟩ (Nat.succ.inj hw) hw'
          simpa using hlater

/-- What is left of a bearer token under way. -/
theorem bearer_left {out : Text} {ps : List (TokenPart Char)} (h : (bearerToken t).Live out ps) :
    ps <:+ Token.ones t.sameCase "earer".toList ++ [⟨t.isSpace, true⟩, ⟨bearerChar t, true⟩] := by
  induction h with
  | first _ hx =>
      cases hx with
      | last => exact List.suffix_rfl
      | again _ hmany => cases hmany
  | next _ hx ih =>
      cases hx with
      | last => exact (List.suffix_cons ..).trans ih
      | again => exact ih

theorem anyCaseLetter_of_b {c : Char} (h : t.sameCase 'b' c = true) : bearerChar t c = true := by
  have hletter : anyCaseLetter t c = true := List.any_eq_true.mpr ⟨'b', by decide, h⟩
  rw [bearerChar, hletter]
  rfl

theorem sameCase_lower {a c : Char} (ha : a.toNat < 128) (hc : c.toNat < 128) (hne : (a.toLower == c.toLower) = false) :
    t.sameCase a c = false := by rw [t.sameCase_ascii a c ha hc, hne]

/-- Only a token that begins with it goes on with the `B` of the placeholder. -/
theorem live_placeholder {out rest : Text} {x : Char} {ps : List (TokenPart Char)}
    (h : (bearerToken t).Live ('B' :: out) ps) (hx : t.sameCase 'b' x = true)
    (hlive : ∀ qs, (bearerToken t).Live out qs → ¬ Token.Spells qs (x :: rest)) :
    ps = Token.ones t.sameCase "earer".toList ++ [⟨t.isSpace, true⟩, ⟨bearerChar t, true⟩] := by
  cases h with
  | first _ hstep =>
      cases hstep with
      | last => rfl
      | again _ hmany => cases hmany
  | @next _ _ qs _ hqs hstep =>
      have hletter : ∀ a ∈ "earer".toList, t.sameCase a 'B' = false := fun a ha => by
        have hother : ∀ a ∈ "earer".toList, a.toNat < 128 ∧ (a.toLower == 'B'.toLower) = false := by decide
        exact sameCase_lower (hother a ha).1 (by decide) (hother a ha).2
      have hspace : t.isSpace 'B' = false := not_isSpace_of (by decide) (by decide)
      have hleft : qs <:+ [⟨t.sameCase 'e', false⟩, ⟨t.sameCase 'a', false⟩, ⟨t.sameCase 'r', false⟩,
        ⟨t.sameCase 'e', false⟩, ⟨t.sameCase 'r', false⟩, ⟨t.isSpace, true⟩, ⟨bearerChar t, true⟩] := bearer_left hqs
      simp only [List.suffix_cons_iff, List.suffix_nil] at hleft
      rcases hleft with rfl | rfl | rfl | rfl | rfl | rfl | rfl | rfl
      · exact absurd hstep (not_step (hletter _ (by decide)))
      · exact absurd hstep (not_step (hletter _ (by decide)))
      · exact absurd hstep (not_step (hletter _ (by decide)))
      · exact absurd hstep (not_step (hletter _ (by decide)))
      · exact absurd hstep (not_step (hletter _ (by decide)))
      · exact absurd hstep (not_step hspace)
      · exact absurd (.step (.last (anyCaseLetter_of_b hx)) (.done rest)) (hlive _ hqs)
      · cases hstep

/-- The placeholder of a bearer token completes none. -/
theorem guarded_bearer (hb : OnlyAsciiB t) {out : Text} {c d : Cursor Char}
    (hd : ((bearerRe t).ways { c with groups := [] }).head? = some d)
    (h : (bearerToken t).Guarded out c.before c.rest) :
    (bearerToken t).Guarded (("Bearer ".toList ++ redacted).reverse ++ out) d.before d.rest := by
  have hstart := ((bearer_recognizes hb).ways { c with groups := [] }).mp
    (List.ne_nil_of_mem (List.mem_of_mem_head? hd))
  obtain ⟨x, rest, hrest, hx⟩ : ∃ x rest, c.rest = x :: rest ∧ t.sameCase 'b' x = true := by
    generalize hc : c.rest = text at hstart
    cases hstart.2 with
    | @step _ _ x rest hx _ =>
        cases hx with
        | last hx => exact ⟨x, rest, rfl, hx⟩
        | again _ hmany => cases hmany
  rw [hrest] at h
  have hfirst : Only (bearerToken t) ('B' :: out)
      (Token.ones t.sameCase "earer".toList ++ [⟨t.isSpace, true⟩, ⟨bearerChar t, true⟩]) := by
    have hlive := fun qs (hqs : (bearerToken t).Live ('B' :: out) qs) => live_placeholder hqs hx h.live
    exact ⟨Token.clean_cons h.clean fun hend => List.cons_ne_nil _ _ (hlive [] hend).symm, hlive⟩
  have hother : ∀ c ∈ "earer".toList, c ≠ 'b' ∧ c ≠ 'B' := by decide
  have hword := hfirst.word (w := "earer".toList) (List.cons_ne_nil _ _) rfl fun c hc =>
    bearer_shuns hb (hother c hc)
  have hspace : (bearerToken t).Clean (' ' :: ("earer".toList.reverse ++ 'B' :: out)) := by
    refine Token.clean_cons hword.1 fun hend => ?_
    cases hend with
    | first _ hx => exact bearer_shuns hb (by decide) _ hx
    | next hlive hx =>
        obtain rfl := hword.2 _ hlive
        cases hx
  have hplaceholder := idle_redacted (bearer_sealed hb) hspace
  have hstops : Stops (bearerChar t) (bearerRe t) := stops_seq (stops_seq (stops_seq stops_rep))
  have hnext : ∀ y ∈ d.rest.head?, ∀ z, z = 'b' ∨ z = 'B' → y ≠ z := by
    rintro y hy z hz rfl
    have hsame : t.sameCase 'b' y = true := by
      rcases hz with rfl | rfl
      · exact t.sameCase_ascii 'b' 'b' (by decide) (by decide)
      · exact t.sameCase_ascii 'b' 'B' (by decide) (by decide)
    have hno := hstops _ d hd y hy
    rw [anyCaseLetter_of_b hsame] at hno
    cases hno
  have hguarded := hplaceholder.guarded d.before d.rest fun _ => .inr fun y hy =>
    bearer_shuns hb ⟨hnext y hy 'b' (.inl rfl), hnext y hy 'B' (.inr rfl)⟩
  exact hguarded

/-! ## All passes -/

section All
variable {text : Text}

/-- The passes after the redaction of hashes make no token. -/
theorem clean_masked (hT : Sealed t T) (h : T.Clean text.reverse) :
    T.Clean (maskPhone t (maskEmail ((nameKvRe t).sub maskNameKv text))).reverse := by
  have hname := clean_sub hT.parts h (r := nameKvRe t) (f := maskNameKv) fun c d w out hno hd hread hout =>
    guarded_name hT hd hread hno hout
  have hemail := clean_sub hT.parts hname (r := emailRe) (f := fun m => emailOut (.hit m))
    fun c d w out hno hd hread hout => guarded_email hT hd hread hno hout
  exact clean_sub hT.parts hemail fun c d w out hno hd hread hout => guarded_phone hT hd hread hno hout

theorem clean_redacted (hT : Sealed t T) {r : Regex Char} {p : Char → Bool} (hr : Stops p r)
    (hp : ∀ c, p c = false → T.Shuns c) (h : T.Clean text.reverse) :
    T.Clean (r.sub (fun _ => redacted) text).reverse :=
  clean_sub hT.parts h fun _ _ _ _ _ hd _ hout => guarded_redacted hT hr hp hd hout

theorem clean_redacted_own (hT : Sealed t T) {r : Regex Char} (hown : Recognizes r T) {p : Char → Bool}
    (hr : Stops p r) (hp : ∀ c, p c = false → T.Shuns c) :
    T.Clean (r.sub (fun _ => redacted) text).reverse :=
  clean_sub_own hown fun _ _ _ _ hd _ hout => guarded_redacted hT hr hp hd hout

theorem jwt_stops : Stops base64Url (jwtRe t) :=
  stops_seq (stops_seq (stops_seq (stops_seq (stops_seq (stops_seq stops_rep)))))

theorem hash_stops : Stops (hashChar t) (hashRe t) := stops_seq stops_rep

theorem ne_of_not {p : Char → Bool} {a c : Char} (ha : p a = true) (hc : p c = false) : c ≠ a := by
  rintro rfl
  rw [ha] at hc
  cases hc

theorem hashChar_word {c : Char} (hascii : c.toNat < 128) (hword : (c.isAlphanum || c == '_') = true) :
    hashChar t c = true := by rw [hashChar, t.word_ascii c hascii, hword]; rfl

theorem clean_bearer (hb : OnlyAsciiB t) (s : Text) : (bearerToken t).Clean (sanitizeText t s).reverse := by
  have hsealed := bearer_sealed hb
  refine clean_masked hsealed (clean_redacted hsealed hash_stops (fun c hc => bearer_shuns hb ⟨?_, ?_⟩)
    (clean_redacted hsealed jwt_stops (fun c hc => bearer_shuns hb ⟨?_, ?_⟩)
      (clean_sub_own (bearer_recognizes hb) fun _ _ _ _ hd _ hout => guarded_bearer hb hd hout)))
  · exact ne_of_not (hashChar_word (by decide) (by decide)) hc
  · exact ne_of_not (hashChar_word (by decide) (by decide)) hc
  · exact ne_of_not (by decide) hc
  · exact ne_of_not (by decide) hc

theorem clean_jwt (s : Text) : (jwtToken t).Clean (sanitizeText t s).reverse := by
  refine clean_masked jwt_sealed (clean_redacted jwt_sealed hash_stops (fun c hc => jwt_shuns ?_)
    (clean_redacted_own jwt_sealed jwt_recognizes jwt_stops fun c hc => jwt_shuns ?_))
  · exact ne_of_not (hashChar_word (by decide) (by decide)) hc
  · exact ne_of_not (by decide) hc

theorem clean_hash (s : Text) : (hashToken t).Clean (sanitizeText t s).reverse := by
  refine clean_masked hash_sealed (clean_redacted_own hash_sealed hash_recognizes hash_stops fun c hc =>
    hash_shuns (ne_of_not ?_ hc))
  simp [hashChar]

end All

end Tokens

/-- No token stands in a sanitized text, and none appears where kept text meets placeholders. -/
theorem sanitizeText_leaves_no_token (t : CharTables)
    (hb : ∀ c, t.sameCase 'b' c = true → c = 'b' ∨ c = 'B') (s : Text) :
    (jwtRe t).search (sanitizeText t s) = false ∧ (bearerRe t).search (sanitizeText t s) = false ∧
      (hashRe t).search (sanitizeText t s) = false :=
  ⟨search_of_clean jwt_recognizes (clean_jwt s), search_of_clean (bearer_recognizes hb) (clean_bearer hb s),
    search_of_clean hash_recognizes (clean_hash s)⟩

theorem asciiTables_onlyB (c : Char) (h : asciiTables.sameCase 'b' c = true) : c = 'b' ∨ c = 'B' := by
  have hlower : c.toLower = 'b' := (beq_iff_eq.mp h).symm
  unfold Char.toLower at hlower
  split at hlower
  · have hval : c.val + ('a'.val - 'A'.val) = 'b'.val := congrArg Char.val hlower
    have hupper : c.val = 'B'.val := by
      calc c.val = c.val + ('a'.val - 'A'.val) - ('a'.val - 'A'.val) := (UInt32.add_sub_cancel ..).symm
        _ = 'B'.val := by rw [hval]; decide
    exact .inr (Char.ext hupper)
  · exact .inl hlower

/-- A text with a token of each kind. -/
def tokenTrace : Text := "Bearer abc.def eyJh.eyJz.c2ln $argon2id$v=19 password=Bearer x".toList

theorem tokenTrace_leaves_no_token : (jwtRe asciiTables).search (sanitizeText asciiTables tokenTrace) = false ∧
    (bearerRe asciiTables).search (sanitizeText asciiTables tokenTrace) = false ∧
    (hashRe asciiTables).search (sanitizeText asciiTables tokenTrace) = false :=
  sanitizeText_leaves_no_token asciiTables asciiTables_onlyB tokenTrace

end FleetManagement
