import FleetManagement.Privacy.PhoneWords
import FleetManagement.Library.RegexCuts
import FleetManagement.Library.Json

/-!
# Secrets in JSON texts

When the value of a secret key has no influence on the sanitized text of a JSON object.
-/

namespace FleetManagement

open Regex

/-! ## Keys, separators and values -/

section Patterns
variable {t : CharTables}

/-- `[\w-]` -/
def isKeyChar (t : CharTables) (c : Char) : Bool := t.isWord c || c == '-'

/-- The punctuation of a JSON text, which no secret key has. -/
def punctuation : Text := "\",' \x7b\\:".toList

theorem not_isKeyChar_of_punctuation {c : Char} (h : c ∈ punctuation) : isKeyChar t c = false := by
  have hascii : ∀ c ∈ punctuation, c.toNat < 128 ∧ (c.isAlphanum || c == '_') = false ∧ (c == '-') = false := by
    decide
  obtain ⟨hc, hword, hdash⟩ := hascii c h
  rw [isKeyChar, not_isWord_of hc hword, hdash]
  rfl

theorem toNat_lt_of_punctuation {c : Char} (h : c ∈ punctuation) : c.toNat < 128 := by
  have hascii : ∀ c ∈ punctuation, c.toNat < 128 := by decide
  exact hascii c h

/-- A keyword has no character of ASCII but key characters. -/
theorem anyCase_avoids_of {s : String} (hs : ∀ a ∈ s.toList, a ∈ "abcdefghijklmnopqrstuvwxyz_".toList) {c : Char}
    (hc : c.toNat < 128) (hkey : isKeyChar t c = false) : (anyCase t s).Avoids c := by
  refine avoids_chain fun r hr => ?_
  obtain ⟨a, ha, rfl⟩ := List.mem_map.mp hr
  have hascii : ∀ a ∈ "abcdefghijklmnopqrstuvwxyz_".toList, ∀ n < 128,
      ((Char.ofNat n).isAlphanum || Char.ofNat n == '_') = false →
        a.toNat < 128 ∧ (a.toLower == (Char.ofNat n).toLower) = false := by decide +kernel
  have hword : (c.isAlphanum || c == '_') = false := by
    rw [← t.word_ascii c hc]
    exact (Bool.or_eq_false_iff.mp hkey).1
  obtain ⟨ha, hne⟩ := hascii a (hs a ha) c.toNat hc (by rwa [Char.ofNat_toNat])
  rw [Char.ofNat_toNat] at hne
  show t.sameCase a c = false
  rw [t.sameCase_ascii a c ha hc, hne]

theorem anyCase_avoids {s : String} (hs : ∀ a ∈ s.toList, a ∈ "abcdefghijklmnopqrstuvwxyz_".toList) {c : Char}
    (hc : c ∈ punctuation) : (anyCase t s).Avoids c :=
  anyCase_avoids_of hs (toNat_lt_of_punctuation hc) (not_isKeyChar_of_punctuation hc)

theorem anyCase_plain {s : String} : (anyCase t s).Plain := by
  refine plain_chain fun r hr => ?_
  obtain ⟨a, -, rfl⟩ := List.mem_map.mp hr
  trivial

theorem one_not_nil {p : Char → Bool} : ¬ (Regex.one p).Matches [] := by
  rintro ⟨x, -, h⟩
  cases h

theorem secretKey_avoids_of {c : Char} (hc : c.toNat < 128) (hkey : isKeyChar t c = false) :
    (secretKeyRe t).Avoids c := by
  have hkeys : (keyChars t).Avoids c := ⟨hkey, one_not_nil⟩
  have hmark : (Regex.opt (chars "_-")).Avoids c := by
    refine ⟨Bool.eq_false_iff.mpr fun hmem => ?_, one_not_nil⟩
    have hmarks : ∀ c ∈ "_-".toList, isKeyChar t c = true := by
      intro c hc
      have hascii : ∀ c ∈ "_-".toList, c.toNat < 128 ∧ ((c.isAlphanum || c == '_') || c == '-') = true := by decide
      rw [isKeyChar, t.word_ascii c (hascii c hc).1, (hascii c hc).2]
    rw [hmarks c (List.contains_iff_mem.mp hmem)] at hkey
    cases hkey
  have hapi : (Regex.chain [anyCase t "api", .opt (chars "_-"), anyCase t "key"]).Avoids c :=
    ⟨anyCase_avoids_of (s := "api") (by decide) hc hkey, hmark,
      anyCase_avoids_of (s := "key") (by decide) hc hkey⟩
  refine ⟨hkeys, avoids_anyOf ?_, hkeys⟩
  simp only [List.forall_mem_cons]
  refine ⟨?_, ?_, ?_, ?_, hapi, ?_, ?_, ?_, by simp⟩
  · exact anyCase_avoids_of (s := "password") (by decide) hc hkey
  · exact anyCase_avoids_of (s := "passwd") (by decide) hc hkey
  · exact anyCase_avoids_of (s := "pwd") (by decide) hc hkey
  · exact anyCase_avoids_of (s := "token") (by decide) hc hkey
  · exact anyCase_avoids_of (s := "secret") (by decide) hc hkey
  · exact anyCase_avoids_of (s := "authorization") (by decide) hc hkey
  · exact anyCase_avoids_of (s := "credential") (by decide) hc hkey

theorem secretKey_avoids {c : Char} (hc : c ∈ punctuation) : (secretKeyRe t).Avoids c :=
  secretKey_avoids_of (toNat_lt_of_punctuation hc) (not_isKeyChar_of_punctuation hc)

theorem secretKey_plain : (secretKeyRe t).Plain := by
  have hapi : (Regex.chain [anyCase t "api", .opt (chars "_-"), anyCase t "key"]).Plain :=
    ⟨anyCase_plain, ⟨trivial, one_not_nil⟩, anyCase_plain⟩
  refine ⟨⟨trivial, one_not_nil⟩, plain_anyOf ?_, ⟨trivial, one_not_nil⟩⟩
  simp only [List.forall_mem_cons]
  exact ⟨anyCase_plain, anyCase_plain, anyCase_plain, anyCase_plain, hapi, anyCase_plain, anyCase_plain,
    anyCase_plain, by simp⟩

theorem anyCase_needs {s : String} {a : Char} (ha : a ∈ s.toList) : (anyCase t s).Needs fun _ => True :=
  needs_chain (List.mem_map.mpr ⟨a, ha, rfl⟩) fun _ _ => trivial

theorem secretKey_ne_nil {u : Text} (h : (secretKeyRe t).Matches u) : u ≠ [] := by
  have hapi : (Regex.chain [anyCase t "api", .opt (chars "_-"), anyCase t "key"]).Needs fun _ => True :=
    Or.inl (anyCase_needs (s := "api") (a := 'a') (by decide))
  have hneeds : (secretKeyRe t).Needs fun _ => True := by
    refine Or.inr (Or.inl (needs_anyOf ?_))
    simp only [List.forall_mem_cons]
    refine ⟨?_, ?_, ?_, ?_, hapi, ?_, ?_, ?_, by simp⟩
    · exact anyCase_needs (s := "password") (a := 'p') (by decide)
    · exact anyCase_needs (s := "passwd") (a := 'p') (by decide)
    · exact anyCase_needs (s := "pwd") (a := 'p') (by decide)
    · exact anyCase_needs (s := "token") (a := 't') (by decide)
    · exact anyCase_needs (s := "secret") (a := 's') (by decide)
    · exact anyCase_needs (s := "authorization") (a := 'a') (by decide)
    · exact anyCase_needs (s := "credential") (a := 'c') (by decide)
  obtain ⟨x, hx, -⟩ := h.exists_of_needs hneeds
  exact List.ne_nil_of_mem hx

/-- A separator is a quote or none, white space, a colon or an equals sign, and white space. -/
theorem separator_word {v : Text} (h : (separator t).Matches v) : ∃ q s₁ x s₂, v = q ++ (s₁ ++ x :: s₂) ∧
    (q = [] ∨ q = ['"'] ∨ q = ['\'']) ∧ (∀ c ∈ s₁, t.isSpace c) ∧ (x = ':' ∨ x = '=') ∧ ∀ c ∈ s₂, t.isSpace c := by
  obtain ⟨q, _, hq, ⟨s₁, _, hs₁, ⟨_, s₂, ⟨x, hx, rfl⟩, hs₂, rfl⟩, rfl⟩, rfl⟩ := h
  refine ⟨q, s₁, x, s₂, by simp, ?_, matches_star_one.mp hs₁, ?_, matches_star_one.mp hs₂⟩
  · rcases matches_opt.mp hq with rfl | ⟨c, hc, rfl⟩
    · exact Or.inl rfl
    · have hquotes : ∀ c ∈ "\"'".toList, c = '"' ∨ c = '\'' := by decide
      rcases hquotes c (List.contains_iff_mem.mp hc) with rfl | rfl
      · exact Or.inr (Or.inl rfl)
      · exact Or.inr (Or.inr rfl)
  · have hcolon : ∀ c ∈ ":=".toList, c = ':' ∨ c = '=' := by decide
    exact hcolon x (List.contains_iff_mem.mp hx)

theorem not_isKeyChar_of_isSpace {c : Char} (h : t.isSpace c) : isKeyChar t c = false := by
  have hword : t.isWord c = false := by
    refine Bool.eq_false_iff.mpr fun hword => ?_
    rw [t.not_space_of_word c hword] at h
    cases h
  have hdash : (c == '-') = false := by
    refine beq_eq_false_iff_ne.mpr ?_
    rintro rfl
    rw [not_isSpace_of (by decide) (by decide)] at h
    cases h
  rw [isKeyChar, hword, hdash]
  rfl

theorem separator_head {v : Text} (h : (separator t).Matches v) :
    ∃ y v', v = y :: v' ∧ isKeyChar t y = false ∧ y ≠ '\\' := by
  obtain ⟨q, s₁, x, s₂, rfl, hq, hs₁, hx, -⟩ := separator_word h
  have hcolon : isKeyChar t x = false ∧ x ≠ '\\' := by
    rcases hx with rfl | rfl
    · exact ⟨not_isKeyChar_of_punctuation (by decide), by decide⟩
    · exact ⟨by rw [isKeyChar, not_isWord_of (by decide) (by decide)]; rfl, by decide⟩
  have hspace : ∀ y, t.isSpace y → isKeyChar t y = false ∧ y ≠ '\\' := fun y hy => by
    refine ⟨not_isKeyChar_of_isSpace hy, ?_⟩
    rintro rfl
    rw [not_isSpace_of (by decide) (by decide)] at hy
    cases hy
  rcases hq with rfl | rfl | rfl
  · cases s₁ with
    | nil => exact ⟨x, s₂, rfl, hcolon⟩
    | cons y s₁ => exact ⟨y, s₁ ++ x :: s₂, rfl, hspace y (hs₁ y List.mem_cons_self)⟩
  · exact ⟨'"', _, rfl, not_isKeyChar_of_punctuation (by decide), by decide⟩
  · exact ⟨'\'', _, rfl, not_isKeyChar_of_punctuation (by decide), by decide⟩

/-- `(?:(?:Bearer|Basic)\s+)?[^\s,;}&\]]+` -/
def bareValue (t : CharTables) : Regex Char :=
  .chain [.opt (.seq (.anyOf (anyCase t "bearer") [anyCase t "basic"]) (.plus (space t))),
    .plus (.one fun c => !(t.isSpace c || ",;\x7d&]".toList.contains c))]

theorem secretValue_eq : secretValue t = .alt (quoted '"') (.alt (quoted '\'') (bareValue t)) := by
  have hchars : ∀ (s : String) q, s.toList = [q] → chars s = .one fun c => c == q := fun s q hs => by
    simp only [chars, hs, List.contains_cons, List.contains_nil, Bool.or_false]
  rw [secretValue, hchars "\"" '"' rfl, hchars "'" '\'' rfl]
  rfl

/-- The preferred match: a key, a separator, and the preferred value after them. -/
theorem secretKv_head {c d : Cursor Char} (h : ((secretKvRe t).ways c).head? = some d) :
    ∃ u v e d', (secretKeyRe t).Matches u ∧ (separator t).Matches v ∧ c.rest = u ++ (v ++ e.rest) ∧
      e.groups = ("sep", v) :: ("key", u) :: c.groups ∧ ((secretValue t).ways e).head? = some d' ∧
      d = d'.setGroup "val" (e.upTo d') := by
  obtain ⟨e₁, he₁, h⟩ := exists_of_head?_flatMap h
  obtain ⟨e₂, he₂, h⟩ := exists_of_head?_flatMap h
  obtain ⟨c₁, u, hc₁, hu, hread, rfl⟩ := mem_ways_group.mp he₁
  obtain ⟨c₂, v, hc₂, hv, hread', rfl⟩ := mem_ways_group.mp he₂
  have hkey : c₁.groups = c.groups := groups_of_noGroups (by
    simp [secretKeyRe, keyChars, anyCase, anyOf, chain, NoGroups, Regex.star, opt, chars]) hc₁
  have hsep : c₂.groups = (c₁.setGroup "key" u).groups := groups_of_noGroups (by
    simp [separator, chain, NoGroups, Regex.star, opt, chars, space]) hc₂
  obtain ⟨d', hd', rfl⟩ : ∃ d', ((secretValue t).ways (c₂.setGroup "sep" v)).head? = some d' ∧
      d = d'.setGroup "val" ((c₂.setGroup "sep" v).upTo d') := by
    have h : (((secretValue t).ways (c₂.setGroup "sep" v)).map fun d =>
      d.setGroup "val" ((c₂.setGroup "sep" v).upTo d)).head? = some d := h
    rw [List.head?_map, Option.map_eq_some_iff] at h
    obtain ⟨d', hd', rfl⟩ := h
    exact ⟨d', hd', rfl⟩
  refine ⟨u, v, c₂.setGroup "sep" v, d', hu, hv, ?_, ?_, hd', rfl⟩
  · rw [hread.rest, show c₁.rest = (c₁.setGroup "key" u).rest from rfl, hread'.rest]
    rfl
  · simp only [Cursor.setGroup, hsep, hkey]

end Patterns

/-! ## One member of an object -/

/-- From the last characters of the key on: its closing quote, the colon, the quoted value and the rest. -/
def secretTail (run value post : Text) : Text := run ++ ('"' :: ':' :: ' ' :: '"' :: (value ++ '"' :: post))

section Heads
variable {t : CharTables} {c : Cursor Char}

/-- Where a text of key characters and an opening quote or a backslash stands, the key of a match ends before
it. -/
theorem no_secretKv_before {m rest : Text} {y : Char} (hm : ∀ x ∈ m, isKeyChar t x)
    (hy : y = '\\' ∨ (m = [] ∧ y ∈ punctuation)) (hc : c.rest = m ++ y :: rest) :
    ((secretKvRe t).ways c).head? = none := by
  cases hd : ((secretKvRe t).ways c).head? with
  | none => rfl
  | some d =>
      obtain ⟨u, v, e, -, hu, hv, hsplit, -⟩ := secretKv_head hd
      have hmem : y ∈ punctuation := by
        rcases hy with rfl | ⟨-, hy⟩
        · decide
        · exact hy
      have hno := not_mem_of_avoids (secretKey_avoids (t := t) hmem) hu
      rw [hc] at hsplit
      obtain ⟨m', rfl, hrest⟩ : ∃ m', m = u ++ m' ∧ v ++ e.rest = m' ++ y :: rest := by
        rcases List.append_eq_append_iff.mp hsplit with ⟨u', rfl, hu'⟩ | ⟨m', rfl, hm'⟩
        · cases u' with
          | nil => exact ⟨[], by simp, hu'.symm⟩
          | cons x u' =>
              obtain ⟨rfl, -⟩ := List.cons.inj hu'
              exact absurd (by simp) hno
        · exact ⟨m', rfl, hm'⟩
      obtain ⟨z, v', rfl, hz, hzback⟩ := separator_head hv
      cases m' with
      | nil =>
          obtain ⟨rfl, -⟩ := List.cons.inj hrest
          rcases hy with rfl | ⟨hnil, -⟩
          · exact absurd rfl hzback
          · exact absurd (List.append_eq_nil_iff.mp hnil).1 (secretKey_ne_nil hu)
      | cons x m' =>
          obtain ⟨rfl, -⟩ := List.cons.inj hrest
          rw [hm z (by simp)] at hz
          cases hz

/-- The value of a match begins with no blank. -/
theorem secretValue_head {w : Text} (h : (secretValue t).Matches w) : ∃ x w', w = x :: w' ∧ x ≠ ' ' := by
  have hspace : t.isSpace ' ' = true := by rw [t.space_ascii ' ' (by decide)]; decide
  rw [secretValue_eq] at h
  rcases h with ⟨_, _, ⟨x, hx, rfl⟩, -, rfl⟩ | ⟨_, _, ⟨x, hx, rfl⟩, -, rfl⟩ | ⟨u, v, hu, hv, rfl⟩
  · exact ⟨x, _, rfl, by rw [beq_iff_eq.mp hx]; decide⟩
  · exact ⟨x, _, rfl, by rw [beq_iff_eq.mp hx]; decide⟩
  · rcases matches_opt.mp hu with rfl | ⟨word, blanks, hword, -, rfl⟩
    · obtain ⟨hne, hv⟩ := matches_plus_one.mp hv
      cases v with
      | nil => exact absurd rfl hne
      | cons x v =>
          refine ⟨x, v, rfl, ?_⟩
          rintro rfl
          have hx := hv ' ' List.mem_cons_self
          rw [hspace] at hx
          cases hx
    · have havoid : (Regex.anyOf (anyCase t "bearer") [anyCase t "basic"]).Avoids ' ' :=
        ⟨anyCase_avoids (s := "bearer") (by decide) (by decide), anyCase_avoids (s := "basic") (by decide) (by decide)⟩
      have hne : word ≠ [] := by
        have hneeds : (Regex.anyOf (anyCase t "bearer") [anyCase t "basic"]).Needs fun _ => True :=
          ⟨anyCase_needs (s := "bearer") (a := 'b') (by decide), anyCase_needs (s := "basic") (a := 'b') (by decide)⟩
        obtain ⟨x, hx, -⟩ := hword.exists_of_needs hneeds
        exact List.ne_nil_of_mem hx
      have hno := not_mem_of_avoids havoid hword
      cases word with
      | nil => exact absurd rfl hne
      | cons x word => exact ⟨x, _, rfl, by rintro rfl; exact hno List.mem_cons_self⟩

theorem separator_plain : (separator t).Plain :=
  ⟨⟨trivial, one_not_nil⟩, ⟨trivial, one_not_nil⟩, trivial, trivial, one_not_nil⟩

theorem secretKv_plain : (secretKvRe t).Plain := by
  have hvalue : (secretValue t).Plain := by
    rw [secretValue_eq]
    have hbare : (bareValue t).Plain := by
      refine ⟨⟨⟨⟨anyCase_plain, anyCase_plain⟩, trivial, one_not_nil⟩, ?_⟩, trivial, one_not_nil⟩
      rintro ⟨u, v, -, hv, h⟩
      exact (matches_plus_one.mp hv).1 (List.append_eq_nil_iff.mp h.symm).2
    exact ⟨⟨trivial, ⟨trivial, one_not_nil⟩, trivial⟩, ⟨trivial, ⟨trivial, one_not_nil⟩, trivial⟩, hbare⟩
  exact ⟨secretKey_plain, separator_plain, hvalue⟩

theorem quoted_matches {q : Char} {body : Text} (h : q ∉ body) : (quoted q).Matches (q :: (body ++ [q])) := by
  refine ⟨[q], body ++ [q], ⟨q, beq_self_eq_true q, rfl⟩, ⟨body, [q], matches_star_one.mpr fun x hx => ?_,
    ⟨q, beq_self_eq_true q, rfl⟩, rfl⟩, rfl⟩
  exact bne_iff_ne.mpr fun hxq => h (hxq ▸ hx)

/-- The blank after a colon belongs to the separator. -/
theorem separator_in_json {v rest rest' : Text} (hv : (separator t).Matches v)
    (h : '"' :: ':' :: ' ' :: '"' :: rest = v ++ rest') (hrest : rest'.head? ≠ some ' ') : v = "\": ".toList := by
  have hspace : ∀ c ∈ "\":".toList, t.isSpace c = false := fun c hc => by
    have hascii : ∀ c ∈ "\":".toList, c.toNat < 128 ∧ asciiSpaces.contains c = false := by decide
    exact not_isSpace_of (hascii c hc).1 (hascii c hc).2
  obtain ⟨q, s₁, x, s₂, rfl, hq, hs₁, hx, hs₂⟩ := separator_word hv
  have hblank : ∀ {s : Text} {y : Char} {a b : Text}, (∀ c ∈ s, t.isSpace c) → y ∈ "\":".toList →
      s ++ a = y :: b → s = [] := fun {s y a b} hs hy hsplit => by
    cases s with
    | nil => rfl
    | cons z s =>
        obtain ⟨rfl, -⟩ := List.cons.inj hsplit
        have hz := hs z List.mem_cons_self
        rw [hspace z hy] at hz
        cases hz
  simp only [List.append_assoc, List.cons_append] at h
  rcases hq with rfl | rfl | rfl
  · obtain rfl := hblank hs₁ (by decide) h.symm
    rcases hx with rfl | rfl <;> cases h
  · simp only [List.cons_append, List.nil_append, List.cons.injEq, true_and] at h
    obtain rfl := hblank hs₁ (by decide) h.symm
    simp only [List.nil_append, List.cons.injEq] at h
    obtain ⟨rfl, h⟩ := h
    cases s₂ with
    | nil =>
        rw [List.nil_append] at h
        exact absurd (by rw [← h]; rfl) hrest
    | cons y s₂ =>
        obtain ⟨rfl, h⟩ := List.cons.inj h
        obtain rfl := hblank (y := '"') (fun c hc => hs₂ c (List.mem_cons_of_mem _ hc)) (by decide)
          (List.cons.inj h.symm).2
        rfl
  · cases h

/-- At the key itself the value is taken as a whole. -/
theorem secretKv_at_key {run value post : Text} (hrun : (secretKeyRe t).fullmatch run)
    (hkey : ∀ x ∈ run, isKeyChar t x) (hvalue : '"' ∉ value) (hc : c.rest = secretTail run value post) :
    ∃ d, ((secretKvRe t).ways c).head? = some d ∧ d.rest = post ∧
      d.groups = ("val", '"' :: (value ++ ['"'])) :: ("sep", "\": ".toList) :: ("key", run) :: c.groups := by
  have hword : (secretKeyRe t).Matches run := by
    obtain ⟨d, hd, hend⟩ := List.any_eq_true.mp hrun
    obtain ⟨w, hw, hread⟩ := ways_sound hd
    have hrest : run = w ++ d.rest := hread.rest
    rw [List.isEmpty_iff.mp hend, List.append_nil] at hrest
    exact hrest ▸ hw
  have hsep : (separator t).Matches "\": ".toList := by
    refine ⟨['"'], [':', ' '], matches_opt.mpr (Or.inr ⟨'"', by decide, rfl⟩), ⟨[], [':', ' '],
      matches_star_one.mpr (by simp), ⟨[':'], [' '], ⟨':', by decide, rfl⟩, matches_star_one.mpr ?_, rfl⟩, rfl⟩, rfl⟩
    have hspace : t.isSpace ' ' = true := by rw [t.space_ascii ' ' (by decide)]; decide
    simpa using hspace
  have hval : (secretValue t).Matches ('"' :: (value ++ ['"'])) := by
    rw [secretValue_eq]
    exact Or.inl (quoted_matches hvalue)
  have hmatch : (secretKvRe t).Matches (run ++ ("\": ".toList ++ '"' :: (value ++ ['"']))) :=
    ⟨run, _, hword, ⟨_, _, hsep, hval, rfl⟩, rfl⟩
  obtain ⟨e₀, he₀, -⟩ := ways_complete secretKv_plain (c := c) hmatch ⟨post, by rw [hc, secretTail]; simp⟩
  obtain ⟨d, hd⟩ := Option.isSome_iff_exists.mp (List.isSome_head?.mpr (List.ne_nil_of_mem he₀))
  refine ⟨d, hd, ?_⟩
  obtain ⟨u, v, e, d', hu, hv, hsplit, hgroups, hhead, rfl⟩ := secretKv_head hd
  have hhead' : e.rest.head? ≠ some ' ' := by
    obtain ⟨w, hw, hread⟩ := ways_sound (List.mem_of_mem_head? hhead)
    obtain ⟨x, w', rfl, hx⟩ := secretValue_head hw
    rw [hread.rest]
    simpa using hx
  obtain ⟨rfl, hrest⟩ : u = run ∧ '"' :: ':' :: ' ' :: '"' :: (value ++ '"' :: post) = v ++ e.rest := by
    have hno : '"' ∉ u := not_mem_of_avoids (secretKey_avoids (by decide)) hu
    obtain ⟨y, v', hy, hykey, -⟩ := separator_head hv
    rcases List.append_eq_append_iff.mp (hc.symm.trans hsplit) with ⟨m, rfl, hm⟩ | ⟨m, rfl, hm⟩
    · cases m with
      | nil => exact ⟨by simp, hm⟩
      | cons z m =>
          obtain ⟨rfl, -⟩ := List.cons.inj hm
          exact absurd (by simp) hno
    · cases m with
      | nil => exact ⟨by simp, hm.symm⟩
      | cons z m =>
          rw [hy, List.cons_append, List.cons_append] at hm
          obtain ⟨rfl, -⟩ := List.cons.inj hm
          rw [hkey y (by simp)] at hykey
          cases hykey
  obtain rfl := separator_in_json hv hrest hhead'
  have he : e.rest = '"' :: (value ++ '"' :: post) := by
    have hsame : "\": ".toList ++ e.rest = "\": ".toList ++ '"' :: (value ++ '"' :: post) := hrest.symm
    exact List.append_cancel_left hsame
  have hquoted : ((secretValue t).ways e).head? = some (e.advance ('"' :: (value ++ ['"']))) := by
    rw [secretValue_eq, ways, ways_quoted he hvalue]
    rfl
  obtain rfl := Option.some.inj (hhead.symm.trans hquoted)
  have hread : Reads e (e.advance ('"' :: (value ++ ['"']))) ('"' :: (value ++ ['"'])) :=
    reads_advance ⟨post, by rw [he]; simp⟩
  refine ⟨rest_advance (by rw [he]; simp), ?_⟩
  rw [Cursor.setGroup, hread.upTo, show (e.advance _).groups = e.groups from rfl, hgroups]

end Heads

/-! ## Two values of one member -/

/-- A secret value of the text begins with an apostrophe and is not closed. -/
def LeavesOpen (t : CharTables) (text : Text) : Prop := ∃ f k v w, text = f ++ (k ++ (v ++ '\'' :: w)) ∧
  (secretKeyRe t).Matches k ∧ (separator t).Matches v ∧ '\'' ∉ w

/-- A member of a JSON object: `front` and a quote stand before its key, which ends with the characters `run`
that a match can begin with, and the two values are closed by the quote after them. -/
structure Member (t : CharTables) (front mid run value value' : Text) : Prop where
  front_end : front = ['\x7b'] ∨ ∃ f, front = f ++ [',', ' ']
  mid_chars : ∀ c ∈ mid, isKeyChar t c ∨ c = '\\'
  mid_end : ∀ c ∈ mid.getLast?, c = '\\'
  run_matches : (secretKeyRe t).fullmatch run
  run_chars : ∀ c ∈ run, isKeyChar t c
  closed : '"' ∉ value
  closed' : '"' ∉ value'
  apostrophes : LeavesOpen t front → '\'' ∉ value ∧ '\'' ∉ value'

section Agreement
variable {t : CharTables} {front mid run value value' post : Text}

/-- After related steps: before the same characters of the member's text, or after both values. -/
def Level (front mid run value value' post : Text) (c d : Cursor Char) : Prop :=
  c.rest = d.rest ∨ ∃ z, z <:+ front ++ '"' :: mid ∧ c.rest = z ++ secretTail run value post ∧
    d.rest = z ++ secretTail run value' post

/-- What comes after the comma before the member. -/
def afterComma (mid run value post : Text) : Text := ' ' :: '"' :: (mid ++ secretTail run value post)

theorem level_of_comma {c d : Cursor Char} {w : Text} (hw : w ++ [',', ' '] <:+ front)
    (hc : c.rest = w ++ ',' :: afterComma mid run value post)
    (hd : d.rest = w ++ ',' :: afterComma mid run value' post) : Level front mid run value value' post c d := by
  refine Or.inr ⟨w ++ [',', ' '] ++ '"' :: mid, ?_, ?_, ?_⟩
  · obtain ⟨f, rfl⟩ := hw
    exact ⟨f, by simp⟩
  · rw [hc]; simp [afterComma]
  · rw [hd]; simp [afterComma]

/-- The preferred values at two positions: the same groups, the same first character and level ends. -/
structure ValuePair (front mid run value value' post : Text) (c d c' d' : Cursor Char) : Prop where
  groups : c'.groups = d'.groups
  first : (c.upTo c').take 1 = (d.upTo d').take 1
  level : Level front mid run value value' post c' d'

section Values
variable {c d : Cursor Char} {w : Text}

/-- A quoted value at two positions that agree up to the comma before the member. -/
theorem quoted_agree {q : Char} (hm : Member t front mid run value value') (hq : q = '"' ∨ q = '\'')
    (hw : w ++ [',', ' '] <:+ front) (hgroups : c.groups = d.groups)
    (hopen : ∀ w', w = '\'' :: w' → '\'' ∉ w' → LeavesOpen t front)
    (hc : c.rest = w ++ ',' :: afterComma mid run value post)
    (hd : d.rest = w ++ ',' :: afterComma mid run value' post) :
    List.Forall₂ (ValuePair front mid run value value' post c d) ((quoted q).ways c) ((quoted q).ways d) := by
  have hpair : ∀ {b r}, c.rest = q :: (b ++ q :: r) → q ∉ b → ∀ {e s}, d.rest = q :: (e ++ q :: s) → q ∉ e →
      (∀ c' d' : Cursor Char, c'.rest = r → d'.rest = s → Level front mid run value value' post c' d') →
      List.Forall₂ (ValuePair front mid run value value' post c d) ((quoted q).ways c) ((quoted q).ways d) := by
    intro b r hc hbody e s hd hbody' hlevel
    have hcread : Reads c (c.advance (q :: (b ++ [q]))) (q :: (b ++ [q])) :=
      reads_advance ⟨r, by rw [hc]; simp⟩
    have hdread : Reads d (d.advance (q :: (e ++ [q]))) (q :: (e ++ [q])) :=
      reads_advance ⟨s, by rw [hd]; simp⟩
    rw [ways_quoted hc hbody, ways_quoted hd hbody']
    refine .cons ⟨hgroups, by rw [hcread.upTo, hdread.upTo]; rfl, hlevel _ _ ?_ ?_⟩ .nil
    · exact rest_advance (by rw [hc]; simp)
    · exact rest_advance (by rw [hd]; simp)
  -- The quote is the first character, or there is no quoted value.
  cases w with
  | nil =>
      have hnone : ∀ {e : Cursor Char} {left : Text}, e.rest = ',' :: left → (quoted q).ways e = [] :=
        fun {e left} he => ways_quoted_nil fun body hbody => by
          rw [he] at hbody
          obtain ⟨rfl, -⟩ := List.cons.inj hbody
          rcases hq with h | h <;> cases h
      rw [hnone hc, hnone hd]
      exact .nil
  | cons x w =>
      by_cases hx : x = q
      swap
      · have hnone : ∀ {e : Cursor Char} {left : Text}, e.rest = x :: left → (quoted q).ways e = [] :=
          fun {e left} he => ways_quoted_nil fun body hbody => by
            rw [he] at hbody
            exact absurd (List.cons.inj hbody).1 hx
        rw [hnone hc, hnone hd]
        exact .nil
      subst hx
      by_cases hmem : x ∈ w
      · -- It is closed before the comma.
        obtain ⟨body, w', rfl, hbody⟩ := List.eq_append_cons_of_mem hmem
        refine hpair (b := body) (r := w' ++ ',' :: afterComma mid run value post)
          (s := w' ++ ',' :: afterComma mid run value' post) (by rw [hc]; simp) hbody (by rw [hd]; simp) hbody ?_
        refine fun c' d' hc' hd' => level_of_comma ?_ hc' hd'
        obtain ⟨f, hf⟩ := hw
        exact ⟨f ++ x :: (body ++ [x]), by rw [← hf]; simp⟩
      · rcases hq with rfl | rfl
        · -- It is closed by the quote before the key.
          have hbody : '"' ∉ w ++ [',', ' '] := by simpa using hmem
          refine hpair (r := mid ++ secretTail run value post) (s := mid ++ secretTail run value' post)
            (by rw [hc]; simp [afterComma]) hbody (by rw [hd]; simp [afterComma]) hbody ?_
          exact fun c' d' hc' hd' => Or.inr ⟨mid, ⟨front ++ ['"'], by simp⟩, hc', hd'⟩
        · -- It covers the member, or it is not closed.
          obtain ⟨hvalue, hvalue'⟩ := hm.apostrophes (hopen w rfl hmem)
          have hkeyChars : '\'' ∉ mid ++ run := by
            have hno : isKeyChar t '\'' = false := not_isKeyChar_of_punctuation (by decide)
            intro hmem
            rcases List.mem_append.mp hmem with hmem | hmem
            · rcases hm.mid_chars _ hmem with h | h
              · rw [hno] at h; cases h
              · cases h
            · have h := hm.run_chars _ hmem
              rw [hno] at h
              cases h
          rw [List.mem_append, not_or] at hkeyChars
          have hinner : ∀ {v : Text}, '\'' ∉ v →
              '\'' ∉ w ++ ',' :: ' ' :: '"' :: (mid ++ (run ++ '"' :: ':' :: ' ' :: '"' :: (v ++ ['"']))) :=
            fun {v} hv => by simp [hmem, hkeyChars.1, hkeyChars.2, hv]
          by_cases hpost : '\'' ∈ post
          · obtain ⟨p, post', rfl, hp⟩ := List.eq_append_cons_of_mem hpost
            refine hpair
              (b := w ++ ',' :: ' ' :: '"' :: (mid ++ (run ++ '"' :: ':' :: ' ' :: '"' :: (value ++ ['"']))) ++ p)
              (e := w ++ ',' :: ' ' :: '"' :: (mid ++ (run ++ '"' :: ':' :: ' ' :: '"' :: (value' ++ ['"']))) ++ p)
              (r := post') (s := post') ?_ ?_ ?_ ?_ fun c' d' hc' hd' => Or.inl (hc'.trans hd'.symm)
            · rw [hc]; simp [afterComma, secretTail]
            · rw [List.mem_append, not_or]; exact ⟨hinner hvalue, hp⟩
            · rw [hd]; simp [afterComma, secretTail]
            · rw [List.mem_append, not_or]; exact ⟨hinner hvalue', hp⟩
          · have hnone : ∀ {e : Cursor Char} {v : Text}, '\'' ∉ v →
                e.rest = '\'' :: w ++ ',' :: afterComma mid run v post → (quoted '\'').ways e = [] :=
              fun {e v} hv he => ways_quoted_nil fun body hbody => by
                rw [he, List.cons_append] at hbody
                obtain ⟨-, rfl⟩ := List.cons.inj hbody
                have hall := hinner hv
                simp only [afterComma, secretTail, List.mem_append, List.mem_cons, not_or] at hall ⊢
                simp_all
            rw [hnone hvalue hc, hnone hvalue' hd]
            exact .nil

theorem bareValue_avoids : (bareValue t).Avoids ',' := by
  have hspace : t.isSpace ',' = false := not_isSpace_of (by decide) (by decide)
  have hstop : (!(t.isSpace ',' || ",;\x7d&]".toList.contains ',')) = false := by rw [hspace]; decide
  refine ⟨⟨⟨⟨?_, ?_⟩, hspace, one_not_nil⟩, ?_⟩, hstop, one_not_nil⟩
  · exact anyCase_avoids (s := "bearer") (by decide) (by decide)
  · exact anyCase_avoids (s := "basic") (by decide) (by decide)
  · rintro ⟨u, v, -, hv, h⟩
    exact (matches_plus_one.mp hv).1 (List.append_eq_nil_iff.mp h.symm).2

/-- A position before the comma leaves a part of the text before the comma. -/
theorem suffix_of_comma {u : Text} {left : Text} {v : Text} (h : v ++ ',' :: left <:+ u ++ ',' :: left) :
    v <:+ u := by
  obtain ⟨f, hf⟩ := h
  rw [← List.append_assoc] at hf
  exact ⟨f, List.append_cancel_right hf⟩

theorem secretValue_agree (hm : Member t front mid run value value') (hw : w ++ [',', ' '] <:+ front)
    (h : Cut ',' (afterComma mid run value post) (afterComma mid run value' post) c d)
    (hopen : ∀ w', w = '\'' :: w' → '\'' ∉ w' → LeavesOpen t front)
    (hc : c.rest = w ++ ',' :: afterComma mid run value post)
    (hd : d.rest = w ++ ',' :: afterComma mid run value' post) :
    List.Forall₂ (ValuePair front mid run value value' post c d) ((secretValue t).ways c)
      ((secretValue t).ways d) := by
  have hbare : List.Forall₂ (ValuePair front mid run value value' post c d) ((bareValue t).ways c)
      ((bareValue t).ways d) := by
    have hsuffix : ∀ e ∈ (bareValue t).ways c, e.rest <:+ c.rest := fun e he => by
      obtain ⟨u, -, hread⟩ := ways_sound he
      exact ⟨u, hread.rest.symm⟩
    refine ((List.forall₂_and_left _ _).mpr ⟨hsuffix, ways_cut bareValue_avoids h⟩).imp fun e e' he => ?_
    obtain ⟨v, hv, hv'⟩ := he.2.split
    refine ⟨he.2.groups, by rw [h.upTo he.2], level_of_comma ?_ hv hv'⟩
    have hvw : v <:+ w := by
      have hrest := he.1
      rw [hc, hv] at hrest
      exact suffix_of_comma hrest
    obtain ⟨f, rfl⟩ := hvw
    obtain ⟨f', rfl⟩ := hw
    exact ⟨f' ++ f, by simp⟩
  rw [secretValue_eq]
  exact List.rel_append (quoted_agree hm (Or.inl rfl) hw h.groups hopen hc hd)
    (List.rel_append (quoted_agree hm (Or.inr rfl) hw h.groups hopen hc hd) hbare)

end Values

/-- Related ends of matches: the redaction is the same and the ends are level. -/
structure Agree (front mid run value value' post : Text) (c d : Cursor Char) : Prop where
  redaction : redactSecretKv ⟨[], c.groups⟩ = redactSecretKv ⟨[], d.groups⟩
  level : Level front mid run value value' post c d

/-- Before the comma before the member the matches are the same up to the value. -/
theorem secretKv_agree {c d : Cursor Char} {w : Text} (hm : Member t front mid run value value')
    (hw : w ++ [',', ' '] <:+ front)
    (h : Cut ',' (afterComma mid run value post) (afterComma mid run value' post) c d)
    (hc : c.rest = w ++ ',' :: afterComma mid run value post) :
    List.Forall₂ (Agree front mid run value value' post) ((secretKvRe t).ways c) ((secretKvRe t).ways d) := by
  have hspace : t.isSpace ',' = false := not_isSpace_of (by decide) (by decide)
  have hkey : (Regex.group "key" (secretKeyRe t)).Avoids ',' := secretKey_avoids (t := t) (by decide)
  have hsep : (Regex.group "sep" (separator t)).Avoids ',' :=
    ⟨⟨show "\"'".toList.contains ',' = false by decide, one_not_nil⟩, ⟨hspace, one_not_nil⟩,
      show ":=".toList.contains ',' = false by decide, hspace, one_not_nil⟩
  -- The positions after a part that reads no comma.
  have hpart : ∀ {r : Regex Char}, r.Avoids ',' → ∀ {a b : Cursor Char} {u : Text}, u ++ [',', ' '] <:+ front →
      a.rest = u ++ ',' :: afterComma mid run value post →
      Cut ',' (afterComma mid run value post) (afterComma mid run value' post) a b →
      List.Forall₂ (fun a' b' => (∃ x, r.Matches x ∧ a.rest = x ++ a'.rest) ∧
        Cut ',' (afterComma mid run value post) (afterComma mid run value' post) a' b') (r.ways a) (r.ways b) := by
    intro r hr a b u hu ha hab
    refine (List.forall₂_and_left _ _).mpr ⟨fun e he => ?_, ways_cut hr hab⟩
    obtain ⟨x, hx, hread⟩ := ways_sound he
    exact ⟨x, hx, hread.rest⟩
  have hnext : ∀ {a b a' b' : Cursor Char} {u x : Text}, u ++ [',', ' '] <:+ front →
      a.rest = u ++ ',' :: afterComma mid run value post → a.rest = x ++ a'.rest →
      Cut ',' (afterComma mid run value post) (afterComma mid run value' post) a' b' →
      ∃ u', u = x ++ u' ∧ u' ++ [',', ' '] <:+ front ∧ a'.rest = u' ++ ',' :: afterComma mid run value post ∧
        b'.rest = u' ++ ',' :: afterComma mid run value' post := by
    intro a b a' b' u x hu ha hx hcut
    obtain ⟨u', ha', hb'⟩ := hcut.split
    rw [ha, ha', ← List.append_assoc] at hx
    obtain rfl := List.append_cancel_right hx
    obtain ⟨f, rfl⟩ := hu
    exact ⟨u', rfl, ⟨f ++ x, by simp⟩, ha', hb'⟩
  refine List.rel_flatMap (hpart hkey hw hc h) fun a b hab => ?_
  obtain ⟨⟨k, hk, hread⟩, hcut⟩ := hab
  obtain ⟨u, rfl, hu, ha, hb⟩ := hnext (b := d) hw hc hread hcut
  refine List.rel_flatMap (hpart hsep hu ha hcut) fun a' b' hab' => ?_
  obtain ⟨⟨v, hv, hread'⟩, hcut'⟩ := hab'
  obtain ⟨u', rfl, hu', ha', hb'⟩ := hnext (b := b) hu ha hread' hcut'
  refine List.forall₂_map_left_iff.mpr (List.forall₂_map_right_iff.mpr ?_)
  have hopen : ∀ w', u' = '\'' :: w' → '\'' ∉ w' → LeavesOpen t front := by
    rintro w' rfl hno
    obtain ⟨f, rfl⟩ := hw
    exact ⟨f, k, v, w' ++ [',', ' '], by simp, hk, hv, by simpa using hno⟩
  refine (secretValue_agree hm hu' hcut' hopen ha' hb').imp fun e e' he => ⟨?_, he.level⟩
  simp only [redactSecretKv, Match.group, Cursor.setGroup, he.groups, List.lookup_cons]
  simp [he.first]

/-- The preferred matches at two positions before the same characters of the member's text. -/
theorem secretKv_step {c d : Cursor Char} {z : Text} (hm : Member t front mid run value value')
    (hz : z <:+ front ++ '"' :: mid) (hgroups : c.groups = d.groups)
    (hc : c.rest = z ++ secretTail run value post) (hd : d.rest = z ++ secretTail run value' post) :
    Option.Rel (Agree front mid run value value' post) ((secretKvRe t).ways c).head?
      ((secretKvRe t).ways d).head? := by
  have hnone : ∀ {m rest rest' : Text} {y : Char}, (∀ x ∈ m, isKeyChar t x) →
      (y = '\\' ∨ (m = [] ∧ y ∈ punctuation)) → c.rest = m ++ y :: rest → d.rest = m ++ y :: rest' →
      Option.Rel (Agree front mid run value value' post) ((secretKvRe t).ways c).head?
        ((secretKvRe t).ways d).head? := fun hm hy hc hd => by
    rw [no_secretKv_before hm hy hc, no_secretKv_before hm hy hd]
    exact .none
  have hcases : (∃ a, a <:+ front ∧ z = a ++ '"' :: mid) ∨ z <:+ mid := by
    obtain ⟨f, hf⟩ := hz
    rcases List.append_eq_append_iff.mp hf with ⟨a, rfl, ha⟩ | ⟨a, ha, hrest⟩
    · exact Or.inl ⟨a, ⟨f, rfl⟩, ha⟩
    · cases a with
      | nil => exact Or.inl ⟨[], List.nil_suffix, hrest.symm⟩
      | cons x a => exact Or.inr ⟨a, (List.cons.inj hrest).2.symm⟩
  rcases hcases with ⟨a, ha, rfl⟩ | hmid
  · -- Before the quote of the key.
    rw [List.append_assoc, List.cons_append] at hc hd
    rcases List.eq_nil_or_concat a with rfl | ⟨b, x, rfl⟩
    · exact hnone (m := []) (by simp) (Or.inr ⟨rfl, by decide⟩) hc hd
    rw [List.concat_eq_append] at ha hc hd
    obtain ⟨f, hf⟩ := ha
    rcases hm.front_end with hfront | ⟨f', hfront⟩
    · rw [hfront, ← List.append_assoc] at hf
      obtain ⟨hnil, hx⟩ := List.append_inj' (hf.trans (List.nil_append _).symm) rfl
      obtain rfl := (List.append_eq_nil_iff.mp hnil).2
      cases hx
      exact hnone (m := []) (by simp) (Or.inr ⟨rfl, by decide⟩) hc hd
    · have hsplit : (f ++ b) ++ [x] = (f' ++ [',']) ++ [' '] := by
        rw [List.append_assoc, hf, hfront]; simp
      obtain ⟨hb, hx⟩ := List.append_inj' hsplit rfl
      cases hx
      rcases List.eq_nil_or_concat b with rfl | ⟨w, y, rfl⟩
      · exact hnone (m := []) (by simp) (Or.inr ⟨rfl, by decide⟩) hc hd
      · rw [List.concat_eq_append, ← List.append_assoc] at hb
        obtain ⟨-, hy⟩ := List.append_inj' hb rfl
        cases hy
        have hc : c.rest = w ++ ',' :: afterComma mid run value post := by rw [hc]; simp [afterComma]
        have hd : d.rest = w ++ ',' :: afterComma mid run value' post := by rw [hd]; simp [afterComma]
        have hw : w ++ [',', ' '] <:+ front := ⟨f, by rw [← hf]; simp⟩
        exact forall₂_head? (secretKv_agree hm hw ⟨⟨w, hc, hd⟩, hgroups⟩ hc)
  · rcases List.eq_nil_or_concat z with rfl | ⟨b, x, rfl⟩
    · -- At the part of the key that the match begins with.
      obtain ⟨c', hc', hcrest, hcgroups⟩ := secretKv_at_key hm.run_matches hm.run_chars hm.closed hc
      obtain ⟨d', hd', hdrest, hdgroups⟩ := secretKv_at_key hm.run_matches hm.run_chars hm.closed' hd
      rw [hc', hd']
      refine .some ⟨?_, Or.inl (hcrest.trans hdrest.symm)⟩
      simp [redactSecretKv, Match.group, hcgroups, hdgroups, List.lookup_cons]
    · -- Inside an escape, or before one.
      have hback : '\\' ∈ b.concat x := by
        obtain ⟨f, rfl⟩ := hmid
        have hlast := hm.mid_end x (by simp)
        rw [hlast]
        simp
      obtain ⟨m, rest, hsplit, hmback⟩ := List.eq_append_cons_of_mem hback
      rw [hsplit] at hmid hc hd
      rw [List.append_assoc, List.cons_append] at hc hd
      refine hnone (fun y hy => ?_) (Or.inl rfl) hc hd
      refine (hm.mid_chars y (hmid.subset (by simp [hy]))).resolve_right ?_
      rintro rfl
      exact hmback hy

theorem secretKv_not_nil : ¬ (secretKvRe t).Matches [] := by
  rintro ⟨u, v, hu, -, h⟩
  exact secretKey_ne_nil hu (List.append_eq_nil_iff.mp h.symm).1

theorem secretKv_respects : (secretKvRe t).Respects fun _ _ => True := by
  simp [secretKvRe, secretKeyRe, separator, secretValue, keyChars, anyCase, chars, space, anyOf, chain, Regex.star,
    opt, plus, Respects]

/-- What the redaction makes of a piece of the scan for secrets. -/
def secretOut : Piece Char → Text
  | .kept x => [x]
  | .hit m => redactSecretKv m

/-- The scans of the two texts leave the same text. -/
theorem secretKv_scans {c d : Cursor Char} {z : Text} {ps qs : List (Piece Char)}
    (hm : Member t front mid run value value') (hz : z <:+ front ++ '"' :: mid)
    (hc : c.rest = z ++ secretTail run value post) (hd : d.rest = z ++ secretTail run value' post)
    (hps : Scans (secretKvRe t) c ps) (hqs : Scans (secretKvRe t) d qs) :
    ps.flatMap secretOut = qs.flatMap secretOut := by
  induction hn : z.length using Nat.strong_induction_on generalizing z c d ps qs with
  | _ n ih =>
      have hstep := secretKv_step (c := { c with groups := [] }) (d := { d with groups := [] }) hm hz rfl hc hd
      cases hps.step secretKv_not_nil with
      | done hnil =>
          rw [hc] at hnil
          simp [secretTail] at hnil
      | @kept x rest ps hx hno hps' =>
          cases hqs.step secretKv_not_nil with
          | done hnil =>
              rw [hd] at hnil
              simp [secretTail] at hnil
          | @kept y rest' qs hy hno' hqs' =>
              cases z with
              | nil =>
                  obtain ⟨e, he, -⟩ :=
                    secretKv_at_key (c := { c with groups := [] }) hm.run_matches hm.run_chars hm.closed hc
                  rw [hno] at he
                  cases he
              | cons x' z =>
                  obtain ⟨rfl, -⟩ := List.cons.inj (hx.symm.trans hc)
                  obtain ⟨rfl, -⟩ := List.cons.inj (hy.symm.trans hd)
                  have hlater := ih z.length (by rw [← hn]; simp) ((List.suffix_cons _ z).trans hz)
                    (rest_advance (w := [_]) hc) (rest_advance (w := [_]) hd) hps' hqs' rfl
                  rw [List.flatMap_cons, List.flatMap_cons, hlater]
          | hit hd' =>
              rw [hno, hd'] at hstep
              cases hstep
      | @hit e w ps he hread hw hps' =>
          cases hqs.step secretKv_not_nil with
          | done hnil =>
              rw [hd] at hnil
              simp [secretTail] at hnil
          | kept _ hno =>
              rw [he, hno] at hstep
              cases hstep
          | @hit e' w' qs he' hread' hw' hqs' =>
              rw [he, he'] at hstep
              cases hstep with
              | some hagree =>
                  have hout : secretOut (.hit ⟨w, e.groups⟩) = secretOut (.hit ⟨w', e'.groups⟩) := hagree.redaction
                  rw [List.flatMap_cons, List.flatMap_cons, hout]
                  rcases hagree.level with hrest | ⟨z', hz', hrest, hrest'⟩
                  · rw [hps'.of_rest secretKv_respects hqs' hrest]
                  · have hlt : z'.length < n := by
                      have hlength := congrArg List.length hread.rest
                      have hpos := List.length_pos_of_ne_nil hw
                      rw [hc, hrest] at hlength
                      simp only [List.length_append] at hlength
                      omega
                    rw [ih z'.length hlt hz' hrest hrest' hps' hqs' rfl]

end Agreement

/-- The text of two objects that differ in the value of one member has the same text after the redaction. -/
theorem redactSecrets_agree {t : CharTables} {front mid run value value' : Text} (post : Text)
    (hm : Member t front mid run value value') :
    (secretKvRe t).sub redactSecretKv (front ++ '"' :: (mid ++ secretTail run value post)) =
      (secretKvRe t).sub redactSecretKv (front ++ '"' :: (mid ++ secretTail run value' post)) := by
  have hsub : ∀ text, (secretKvRe t).sub redactSecretKv text = ((secretKvRe t).pieces text).flatMap secretOut :=
    fun text => List.flatMap_congr fun p _ => by cases p <;> rfl
  rw [hsub, hsub]
  have hstart : ∀ v, (Cursor.start (front ++ '"' :: (mid ++ secretTail run v post))).rest =
      (front ++ '"' :: mid) ++ secretTail run v post := fun v => by simp [Cursor.start]
  exact secretKv_scans hm List.suffix_rfl (hstart value) (hstart value') (scans_pieces _ _) (scans_pieces _ _)

end FleetManagement
