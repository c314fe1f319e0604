import FleetManagement.Privacy.Masks

/-!
# Secrets that stay redacted

Where every value of a secret key is in quotes, it is redacted in quotes, and a second pass finds the placeholders
alone.
-/

namespace FleetManagement

open Regex

/-- Every value of a secret key that the pass for secrets finds is in quotes. -/
def valuesQuoted (t : CharTables) (s : Text) : Bool := ((secretKvRe t).pieces s).all fun
  | .kept _ => true
  | .hit m => quoteOf (m.group "val") != []

section Keywords
variable (t : CharTables)

/-- The words that make a key secret. -/
def keywordRe : Regex Char :=
  .anyOf (anyCase t "password") [anyCase t "passwd", anyCase t "pwd", anyCase t "token",
    .chain [anyCase t "api", .opt (chars "_-"), anyCase t "key"], anyCase t "secret",
    anyCase t "authorization", anyCase t "credential"]

/-- A secret key from its keyword on. -/
def keyTailRe : Regex Char := .seq (keywordRe t) (keyChars t)

end Keywords

section Secrets
variable {t : CharTables} {w k u v text : Text} {m : Match Char}

/-! ## Keys -/

theorem anyCase_word (hf : FoldsLetters t) {s : String}
    (hs : ∀ a ∈ s.toList, a ∈ "abcdefghijklmnopqrstuvwxyz_".toList) (h : (anyCase t s).Matches w) :
    w.length = s.toList.length ∧ ∀ c ∈ w, t.isWord c = true ∧ t.isDigit c = false := by
  have hall := matches_chain_map_one.mp h
  refine ⟨hall.length_eq.symm, fun c hc => ?_⟩
  obtain ⟨i, rfl⟩ := List.mem_iff_get.mp hc
  have hi : i.val < s.toList.length := hall.length_eq.symm ▸ i.isLt
  exact hf _ (hs _ (List.get_mem _ ⟨i, hi⟩)) _ (hall.get hi i.isLt)

/-- A word that begins with a letter and has characters of keys only. -/
structure KeyWord (t : CharTables) (w : Text) : Prop where
  first : ∃ c ∈ w.head?, t.isWord c = true ∧ t.isDigit c = false
  chars : ∀ c ∈ w, isKeyChar t c = true

theorem keyWord_of_anyCase (hf : FoldsLetters t) {s : String}
    (hs : ∀ a ∈ s.toList, a ∈ "abcdefghijklmnopqrstuvwxyz_".toList) (hne : s.toList ≠ [])
    (h : (anyCase t s).Matches w) : KeyWord t w := by
  obtain ⟨hlength, hchars⟩ := anyCase_word hf hs h
  refine ⟨?_, fun c hc => by rw [isKeyChar, (hchars c hc).1]; rfl⟩
  cases w with
  | nil => exact absurd (List.length_eq_zero_iff.mp hlength.symm) hne
  | cons c w => exact ⟨c, rfl, hchars c List.mem_cons_self⟩

theorem KeyWord.append (h : KeyWord t w) (hu : ∀ c ∈ u, isKeyChar t c = true) : KeyWord t (w ++ u) := by
  obtain ⟨c, hc, hfirst⟩ := h.first
  refine ⟨⟨c, ?_, hfirst⟩, fun d hd => (List.mem_append.mp hd).elim (h.chars d) (hu d)⟩
  rw [List.head?_append, Option.mem_def.mp hc]
  rfl

theorem keyWord_of_nameKey (hf : FoldsLetters t) (h : (nameKey t).Matches k) : KeyWord t k := by
  obtain ⟨r, hr, h⟩ := matches_anyOf.mp h
  simp only [List.mem_cons, List.not_mem_nil, or_false] at hr
  rcases hr with rfl | rfl | rfl | rfl
  · exact keyWord_of_anyCase hf (s := "full_name") (by decide) (by decide) h
  · exact keyWord_of_anyCase hf (s := "first_name") (by decide) (by decide) h
  · exact keyWord_of_anyCase hf (s := "last_name") (by decide) (by decide) h
  · exact keyWord_of_anyCase hf (s := "license_number") (by decide) (by decide) h

/-! ## Keys with separators -/

theorem not_isKeyChar_sign {c : Char} (hc : c ∈ ":=\"'[]*@".toList) : isKeyChar t c = false := by
  have hascii : ∀ c ∈ ":=\"'[]*@".toList, c.toNat < 128 ∧ (c.isAlphanum || c == '_') = false ∧ (c == '-') = false := by
    decide
  obtain ⟨hsmall, hword, hdash⟩ := hascii c hc
  rw [isKeyChar, not_isWord_of hsmall hword, hdash]
  rfl

theorem not_isSpace_sign {c : Char} (hc : c ∈ ":=\"'[]*@".toList) : t.isSpace c = false := by
  have hascii : ∀ c ∈ ":=\"'[]*@".toList, c.toNat < 128 ∧ asciiSpaces.contains c = false := by decide
  exact not_isSpace_of (hascii c hc).1 (hascii c hc).2

/-- Only white space follows the colon or equals sign of a separator. -/
theorem separator_split (hv : (separator t).Matches v) : ∃ o x s, v = o ++ x :: s ∧ (x = ':' ∨ x = '=') ∧
    (∀ c ∈ o, c = '"' ∨ c = '\'' ∨ t.isSpace c = true) ∧ ∀ c ∈ s, t.isSpace c = true := by
  obtain ⟨q, s, x, s', rfl, hq, hs, hx, hs'⟩ := separator_word hv
  refine ⟨q ++ s, x, s', by simp, hx, fun c hc => ?_, hs'⟩
  rcases List.mem_append.mp hc with hc | hc
  · rcases hq with rfl | rfl | rfl
    · cases hc
    · exact .inl (List.mem_singleton.mp hc)
    · exact .inr (.inl (List.mem_singleton.mp hc))
  · exact .inr (.inr (hs c hc))

theorem lead_of_keyWord (hk : KeyWord t k) (hv : (separator t).Matches v) : Lead t (k ++ v) := by
  obtain ⟨o, x, s, rfl, hx, ho, hs⟩ := separator_split hv
  have hsign : x ∈ ":=".toList := by rcases hx with rfl | rfl <;> decide
  refine ⟨?_, fun c hc hmem => ?_, ?_, fun u hu hne => ?_⟩
  · obtain ⟨c, hc, hfirst⟩ := hk.first
    cases k with
    | nil => cases hc
    | cons d k =>
        cases hc
        exact ⟨c, k ++ (o ++ x :: s), rfl, hfirst⟩
  · have hmarks : ∀ c ∈ "[]*@".toList, c ∈ ":=\"'[]*@".toList ∧ c ≠ '"' ∧ c ≠ '\'' ∧ c ∉ ":=".toList := by decide
    obtain ⟨hc, hne, hne', hother⟩ := hmarks c hc
    have hspace := not_isSpace_sign (t := t) hc
    rcases List.mem_append.mp hmem with hmem | hmem
    · have hkey := hk.chars c hmem
      rw [not_isKeyChar_sign hc] at hkey
      cases hkey
    rcases List.mem_append.mp hmem with hmem | hmem
    · rcases ho c hmem with rfl | rfl | h
      · exact hne rfl
      · exact hne' rfl
      · rw [hspace] at h
        cases h
    rcases List.mem_cons.mp hmem with rfl | hmem
    · exact hother hsign
    · have h := hs c hmem
      rw [hspace] at h
      cases h
  · rcases hx with rfl | rfl
    · exact .inl (by simp)
    · exact .inr (by simp)
  · have hsplit : k ++ (o ++ x :: s) = (k ++ (o ++ [x])) ++ s := by simp
    rw [hsplit] at hu
    rcases suffix_parts (x := x) (by simp) hu with hin | hin
    · refine .inl ⟨x, hin, ?_⟩
      rcases hx with rfl | rfl <;> decide
    · exact .inr fun c hc => hs c (hin.subset hc)

/-! ## The pass for secrets -/

section Scanning
variable {c : Cursor Char} {ps : List (Piece Char)} {r : Text} {x : Char}

end Scanning

theorem secret_eq (text : Text) :
    (secretKvRe t).sub redactSecretKv text = ((secretKvRe t).pieces text).flatMap secretOut := by
  refine List.flatMap_congr fun p _ => ?_
  cases p <;> rfl

/-- What is replaced does not reach into a placeholder. -/
theorem Bare.apart {a p : Text} {q : Char} (h : Bare t a) (hq : q = '"' ∨ q = '\'') (hfirst : p.head? = some '[')
    (hother : ∃ c ∈ a, c ∉ p) : Patch.Apart (p ++ [q]) a := by
  have hmark : q ∈ "[\"'".toList := by rcases hq with rfl | rfl <;> decide
  obtain ⟨p, rfl⟩ := List.head?_eq_some_iff.mp hfirst
  obtain ⟨c, hc, hother⟩ := hother
  have hno : c ∉ ('[' :: p) ++ [q] := fun hmem => by
    rcases List.mem_append.mp hmem with hmem | hmem
    · exact hother hmem
    · exact h.marks q hmark (List.mem_singleton.mp hmem ▸ hc)
  constructor
  · intro v hv hne
    refine ⟨fun hin => h.marks q hmark (hin.subset (List.mem_of_getLast? ?_)),
      fun hin => hno (hv.subset (hin.subset hc))⟩
    obtain ⟨u, hu⟩ := hv
    rw [← List.getLast?_append_of_ne_nil u hne, hu, List.getLast?_concat]
  · intro u hu hne
    have hbracket : '[' ∉ a := h.marks '[' (by decide)
    constructor
    · intro hin
      obtain ⟨y, u, rfl⟩ := List.exists_cons_of_ne_nil hne
      have hy : y = '[' := (List.cons_prefix_cons.mp hin).1
      exact hbracket (hu.subset (hy ▸ List.mem_cons_self))
    · exact fun hin => hbracket (hu.subset (hin.subset List.mem_cons_self))

theorem opensValue_of_isWord {c : Char} (hc : t.isWord c = true) : opensValue t c = true := by
  have hno : ∀ c ∈ ",;\x7d&]".toList, c.toNat < 128 ∧ (c.isAlphanum || c == '_') = false := by decide
  rw [opensValue, t.not_space_of_word c hc, Bool.false_or, Bool.not_eq_true']
  refine Bool.eq_false_iff.mpr fun h => ?_
  obtain ⟨hsmall, hword⟩ := hno c (List.contains_iff_mem.mp h)
  rw [not_isWord_of hsmall hword] at hc
  cases hc

theorem secretValue_first (hf : FoldsLetters t) (h : (secretValue t).Matches w) :
    ∃ x w', w = x :: w' ∧ opensValue t x = true := by
  have hquote : ∀ q ∈ "\"'".toList, opensValue t q = true := fun q hq => by
    have hascii : ∀ q ∈ "\"'".toList, q.toNat < 128 ∧ asciiSpaces.contains q = false ∧
        ",;\x7d&]".toList.contains q = false := by decide
    obtain ⟨hsmall, hspace, hother⟩ := hascii q hq
    exact opensValue_of hsmall hspace hother
  rw [secretValue_eq] at h
  rcases h with h | h | ⟨b, v, hb, hv, rfl⟩
  · obtain ⟨body, rfl, -⟩ := quoted_word h
    exact ⟨'"', _, rfl, hquote _ (by decide)⟩
  · obtain ⟨body, rfl, -⟩ := quoted_word h
    exact ⟨'\'', _, rfl, hquote _ (by decide)⟩
  · rcases matches_opt.mp hb with rfl | ⟨b₁, b₂, hb₁, -, rfl⟩
    · obtain ⟨hne, hv⟩ := matches_plus_one.mp hv
      obtain ⟨x, v, rfl⟩ := List.exists_cons_of_ne_nil hne
      exact ⟨x, v, rfl, hv x List.mem_cons_self⟩
    · have hword : KeyWord t b₁ := by
        rcases hb₁ with hb₁ | hb₁
        · exact keyWord_of_anyCase hf (s := "bearer") (by decide) (by decide) hb₁
        · exact keyWord_of_anyCase hf (s := "basic") (by decide) (by decide) hb₁
      obtain ⟨c, hc, hfirst, -⟩ := hword.first
      cases b₁ with
      | nil => cases hc
      | cons d b₁ =>
          cases hc
          exact ⟨c, _, rfl, opensValue_of_isWord hfirst⟩

/-- A value that begins with a quote goes up to the next one. -/
theorem secretValue_quoted {c d : Cursor Char} {q : Char} {b r : Text} (hq : q = '"' ∨ q = '\'') (hno : q ∉ b)
    (hrest : c.rest = q :: (b ++ q :: r)) (hd : ((secretValue t).ways c).head? = some d) :
    d = c.advance (q :: (b ++ [q])) := by
  have hquoted := ways_quoted hrest hno
  rw [secretValue_eq] at hd
  rcases hq with rfl | rfl
  · rw [ways, hquoted] at hd
    exact (Option.some.inj hd).symm
  · have hnone : (quoted '"').ways c = [] := ways_quoted_nil fun body hbody => by
      rw [hrest] at hbody
      exact absurd (List.cons.inj hbody).1 (by decide)
    rw [ways, hnone, List.nil_append, ways, hquoted] at hd
    exact (Option.some.inj hd).symm

theorem not_mem_redacted {q : Char} (hq : q = '"' ∨ q = '\'') : q ∉ redacted := by
  rcases hq with rfl | rfl <;> decide

/-- Where the value of a hit stands, and what it is if it begins with a quote. -/
theorem secretHit_at (hf : FoldsLetters t) {c d : Cursor Char}
    (hd : ((secretKvRe t).ways { c with groups := [] }).head? = some d) (hread : Reads c d w) :
    ∃ u k v w' x r, SecretHit t ⟨w, d.groups⟩ (u ++ k) v w' ∧ (keyTailRe t).Matches k ∧ opensValue t x = true ∧
      c.rest = u ++ ((k ++ v) ++ x :: r) ∧
      ∀ q b r', (q = '"' ∨ q = '\'') → q ∉ b → x :: r = q :: (b ++ q :: r') → w' = q :: (b ++ [q]) := by
  obtain ⟨u, v, w', e, d', hhit, hrest, hd', hread'⟩ := secretHit_of_head hd hread
  obtain ⟨u₁, k, -, hk, rfl⟩ := hhit.key
  obtain ⟨x, w'', rfl, hx⟩ := secretValue_first hf hhit.val
  refine ⟨u₁, k, v, x :: w'', x, w'' ++ d'.rest, hhit, hk, hx, ?_, fun q b r' hq hno hvalue => ?_⟩
  · rw [hrest, hread'.rest]
    simp
  · have hquoted : e.rest = (q :: (b ++ [q])) ++ r' := by
      rw [hread'.rest, List.cons_append, hvalue]
      simp
    have hend : d'.rest = r' := by
      rw [secretValue_quoted hq hno (show e.rest = q :: (b ++ q :: r') by simpa using hquoted) hd']
      exact rest_advance hquoted
    exact List.append_cancel_right ((hread'.rest.symm.trans hquoted).trans (by rw [hend]))

theorem secretHit_position (hf : FoldsLetters t) {before after : List (Piece Char)}
    (hsplit : (secretKvRe t).pieces text = before ++ .hit m :: after) :
    ∃ u k v w x r, SecretHit t m (u ++ k) v w ∧ (keyTailRe t).Matches k ∧ opensValue t x = true ∧
      text = (before.flatMap Piece.text ++ u) ++ ((k ++ v) ++ x :: r) ∧
      ∀ q b r', (q = '"' ∨ q = '\'') → q ∉ b → x :: r = q :: (b ++ q :: r') → w = q :: (b ++ [q]) := by
  have hscan := scans_pieces (secretKvRe t) text
  rw [hsplit] at hscan
  obtain ⟨c, hread, hc⟩ := hscan.split
  cases hc with
  | hit hd hw hne hafter =>
      obtain ⟨u, k, v, w, x, r, hhit, hk, hx, hrest, hvalue⟩ := secretHit_at hf hd hw
      refine ⟨u, k, v, w, x, r, hhit, hk, hx, ?_, hvalue⟩
      rw [show text = (Cursor.start text).rest from rfl, hread.rest, hrest]
      simp

theorem quoteOf_quoted {q : Char} {w : Text} (hq : q = '"' ∨ q = '\'') : quoteOf (q :: w) = [q] := by
  rcases hq with rfl | rfl <;> rfl

section Again
variable {c d e : Cursor Char} {ps : List (Piece Char)} {r : Text}

end Again

end Secrets

end FleetManagement
