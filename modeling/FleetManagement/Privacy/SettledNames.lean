import FleetManagement.Privacy.SettledSecrets

/-!
# Names that stay masked

After the pass for names every name between quotes is masked, and the placeholders of secrets are left or masked as
names. The passes after it bring no name between quotes that was not there before, unless a number with a line break
in it is masked.
-/

namespace FleetManagement

open Regex

/-- Every name of the text that stands between quotes is masked. -/
def NamesMasked (t : CharTables) (text : Text) : Prop := ∀ l k v q w r, text = l ++ ((k ++ v) ++ q :: (w ++ q :: r)) →
  (nameKey t).Matches k → (separator t).Matches v → (q = '"' ∨ q = '\'') → q ∉ w → '\n' ∉ w → maskName w = w

section Names
variable {t : CharTables} {c : Cursor Char} {ps : List (Piece Char)} {k v w r text : Text} {q : Char} {m : Match Char}

/-! ## The pass for names -/

theorem nameKey_plain : (nameKey t).Plain := plain_anyOf (by simp [anyCase_plain])

theorem nameKv_ways (hk : (nameKey t).Matches k) (hv : (separator t).Matches v) (hq : q = '"' ∨ q = '\'')
    (hw : '\n' ∉ w) (hc : c.rest = (k ++ v) ++ q :: (w ++ q :: r)) : (nameKvRe t).ways c ≠ [] := by
  have hquote : "\"'".toList.contains q = true := by rcases hq with rfl | rfl <;> decide
  obtain ⟨c₁, hc₁, hread₁⟩ := ways_complete (c := c) (w := k ++ v)
    (r := .chain [.opt (chars "\"'"), nameKey t, separator t]) ⟨⟨trivial, one_not_nil⟩, nameKey_plain, separator_plain⟩
    ⟨[], k ++ v, matches_opt.mpr (.inl rfl), ⟨k, v, hk, hv, rfl⟩, rfl⟩ ⟨_, hc.symm⟩
  have hrest₁ : c₁.rest = q :: (w ++ q :: r) := List.append_cancel_left (hread₁.rest.symm.trans hc)
  obtain ⟨c₂, hc₂, hread₂⟩ := ways_complete (c := c₁.setGroup "key" (k ++ v)) (r := chars "\"'") trivial (w := [q])
    ⟨q, hquote, rfl⟩ ⟨_, hrest₁.symm⟩
  have hrest₂ : c₂.rest = w ++ q :: r := List.append_cancel_left (hread₂.rest.symm.trans hrest₁)
  have hline : (Regex.rep dot 0 none false).Matches w :=
    matches_rep_one.mpr ⟨Nat.zero_le _, by simp, fun x hx => bne_iff_ne.mpr fun h => hw (h ▸ hx)⟩
  obtain ⟨c₃, hc₃, hread₃⟩ := ways_complete (r := .rep dot 0 none false) (c := c₂.setGroup "q" [q])
    ⟨trivial, one_not_nil⟩ hline ⟨_, hrest₂.symm⟩
  have hrest₃ : c₃.rest = q :: r := List.append_cancel_left (hread₃.rest.symm.trans hrest₂)
  have hgroups : c₃.groups = ("q", [q]) :: c₂.groups :=
    groups_of_noGroups (by simp [dot, NoGroups]) hc₃
  have hback : (Regex.backref "q").ways (c₃.setGroup "val" w) = [(c₃.setGroup "val" w).advance [q]] := by
    simp [ways, Cursor.setGroup, hgroups, List.lookup_cons, hrest₃]
  refine List.ne_nil_of_mem (a := (c₃.setGroup "val" w).advance [q]) (mem_ways_seq.mpr ⟨c₁.setGroup "key" (k ++ v), ?_,
    mem_ways_seq.mpr ⟨c₂.setGroup "q" [q], ?_, mem_ways_seq.mpr ⟨c₃.setGroup "val" w, ?_, ?_⟩⟩⟩)
  · exact mem_ways_group.mpr ⟨c₁, _, hc₁, ⟨[], k ++ v, matches_opt.mpr (.inl rfl), ⟨k, v, hk, hv, rfl⟩, rfl⟩,
      hread₁, rfl⟩
  · exact mem_ways_group.mpr ⟨c₂, _, hc₂, ⟨q, hquote, rfl⟩, hread₂, rfl⟩
  · exact mem_ways_group.mpr ⟨c₃, _, hc₃, hline, hread₃, rfl⟩
  · show _ ∈ (Regex.backref "q").ways _
    rw [hback]
    exact List.mem_singleton_self _

/-! ## Keys and separators -/

/-- What a separator ends with. -/
def isSign (t : CharTables) (e : Char) : Prop := e = ':' ∨ e = '=' ∨ t.isSpace e = true

theorem not_isKeyChar_space {e : Char} (he : t.isSpace e = true) : isKeyChar t e = false := by
  refine Bool.eq_false_iff.mpr fun hkey => ?_
  rcases Bool.or_eq_true_iff.mp hkey with h | h
  · rw [t.not_space_of_word e h] at he
    cases he
  · obtain rfl := beq_iff_eq.mp h
    rw [not_isSpace_of (by decide) (by decide)] at he
    cases he

theorem not_isKeyChar_isSign {e : Char} (he : isSign t e) : isKeyChar t e = false := by
  rcases he with rfl | rfl | he
  · exact not_isKeyChar_sign (by decide)
  · exact not_isKeyChar_sign (by decide)
  · exact not_isKeyChar_space he

theorem not_isSign {e : Char} (he : e ∈ "[]*@\"'".toList) : ¬ isSign t e := by
  have hother : ∀ e ∈ "[]*@\"'".toList, e ∈ ":=\"'[]*@".toList ∧ e ≠ ':' ∧ e ≠ '=' := by decide
  obtain ⟨hmem, hcolon, hequals⟩ := hother e he
  rintro (h | h | h)
  · exact hcolon h
  · exact hequals h
  · rw [not_isSpace_sign hmem] at h
    cases h

theorem not_isSign_quote (hq : q = '"' ∨ q = '\'') : ¬ isSign t q := by
  rcases hq with rfl | rfl <;> exact not_isSign (by decide)

/-- A quote stands at the front of a separator only, and after it there are signs. -/
theorem separator_parts (hv : (separator t).Matches v) : ∃ o u, v = o ++ u ∧ (o = [] ∨ o = ['"'] ∨ o = ['\'']) ∧
    u ≠ [] ∧ ∀ e ∈ u, isSign t e := by
  obtain ⟨o, s, x, s', rfl, ho, hs, hx, hs'⟩ := separator_word hv
  refine ⟨o, s ++ x :: s', rfl, ho, by simp, fun e he => ?_⟩
  rcases List.mem_append.mp he with he | he
  · exact .inr (.inr (hs e he))
  rcases List.mem_cons.mp he with rfl | he
  · exact hx.elim .inl fun h => .inr (.inl h)
  · exact .inr (.inr (hs' e he))

theorem separator_last (hv : (separator t).Matches v) : ∃ u e, v = u ++ [e] ∧ isSign t e := by
  obtain ⟨o, u, rfl, -, hne, hu⟩ := separator_parts hv
  obtain ⟨u, e, rfl⟩ := (List.eq_nil_or_concat u).resolve_left hne
  exact ⟨o ++ u, e, by simp, hu e (by simp)⟩

theorem quote_first {a b : Text} (hv : (separator t).Matches v) (hq : q = '"' ∨ q = '\'') (hsplit : v = a ++ q :: b) :
    a = [] := by
  obtain ⟨o, u, rfl, ho, -, hu⟩ := separator_parts hv
  have hno : q ∉ u := fun hmem => not_isSign_quote hq (hu q hmem)
  rcases ho with rfl | ho | ho
  · exact absurd (show q ∈ u from by rw [show u = _ from hsplit]; simp) hno
  · rw [ho] at hsplit
    cases a with
    | nil => rfl
    | cons y a =>
        obtain ⟨-, hu'⟩ := List.cons.inj hsplit
        exact absurd (by rw [show u = _ from hu']; simp) hno
  · rw [ho] at hsplit
    cases a with
    | nil => rfl
    | cons y a =>
        obtain ⟨-, hu'⟩ := List.cons.inj hsplit
        exact absurd (by rw [show u = _ from hu']; simp) hno

theorem KeyWord.last (hk : KeyWord t k) : ∃ u e, k = u ++ [e] ∧ isKeyChar t e = true := by
  have hne : k ≠ [] := by
    rintro rfl
    obtain ⟨c, hc, -⟩ := hk.first
    cases hc
  obtain ⟨u, e, rfl⟩ := (List.eq_nil_or_concat k).resolve_left hne
  exact ⟨u, e, by simp, hk.chars e (by simp)⟩

section Positions
variable {k₀ w₀ l z lp rp : Text} {q₀ x : Char}

/-- The key of a hit ends with a sign, and no quote of it follows a sign. -/
theorem NameHit.key_last (h : NameHit t m k₀ q₀ w₀) : ∃ u e, k₀ = u ++ [e] ∧ isSign t e := by
  obtain ⟨o, n, v, rfl, -, -, hv⟩ := h.key
  obtain ⟨u, e, rfl, he⟩ := separator_last hv
  exact ⟨o ++ (n ++ u), e, by simp, he⟩

theorem no_quote_after_sign {o n a b : Text} {e : Char} (ho : o = [] ∨ o = ['"'] ∨ o = ['\'']) (hn : KeyWord t n)
    (hv : (separator t).Matches v) (he : isSign t e) (hq : q = '"' ∨ q = '\'') : o ++ (n ++ v) ≠ a ++ e :: q :: b := by
  intro hsplit
  have hfront : ∀ y ∈ o ++ n, ¬ isSign t y := fun y hy hsign => by
    rcases List.mem_append.mp hy with hy | hy
    · rcases ho with rfl | rfl | rfl
      · cases hy
      · exact not_isSign (by decide) (List.mem_singleton.mp hy ▸ hsign)
      · exact not_isSign (by decide) (List.mem_singleton.mp hy ▸ hsign)
    · have hno := hn.chars y hy
      rw [not_isKeyChar_isSign hsign] at hno
      cases hno
  rw [← List.append_assoc] at hsplit
  rcases List.append_eq_append_iff.mp hsplit with ⟨u, rfl, hrest⟩ | ⟨u, hu, hrest⟩
  · have hnil := quote_first (a := u ++ [e]) (b := b) hv hq (by rw [hrest]; simp)
    simp at hnil
  · cases u with
    | nil =>
        have hnil := quote_first (a := [e]) hv hq hrest.symm
        simp at hnil
    | cons y u =>
        obtain ⟨rfl, -⟩ := List.cons.inj hrest
        exact hfront e (hu ▸ by simp) he

theorem NameHit.no_quote_after_sign (hf : FoldsLetters t) (h : NameHit t m k₀ q₀ w₀) {a b : Text} {e : Char}
    (he : isSign t e) (hq : q = '"' ∨ q = '\'') : k₀ ≠ a ++ e :: q :: b := by
  obtain ⟨o, n, v, rfl, ho, hn, hv⟩ := h.key
  exact FleetManagement.no_quote_after_sign ho (keyWord_of_nameKey hf hn) hv he hq

end Positions

/-! ## Names after the pass -/

/-- What the pass makes of a piece of its scan. -/
def nameOut : Piece Char → Text
  | .kept x => [x]
  | .hit m => maskNameKv m

theorem KeyWord.head (hk : KeyWord t k) : ∃ c k', k = c :: k' := by
  obtain ⟨c, hc, -⟩ := hk.first
  cases k with
  | nil => cases hc
  | cons c k => exact ⟨c, k, rfl⟩

/-- After the opening quote stands the placeholder of a secret, masked where its key ends with that of a name. -/
inductive MaskedValue (t : CharTables) (key : Text) (q : Char) : Text → Prop where
  | placeholder {r : Text} : MaskedValue t key q (redacted ++ q :: r)
  | name {z n r : Text} (hkey : key = z ++ n) (hn : (nameKey t).Matches n) :
      MaskedValue t key q (maskName redacted ++ q :: r)

/-- Every value of a secret key in the text is a placeholder in quotes, or one that is masked as a name. -/
def SecretsMasked (t : CharTables) (text : Text) : Prop := ∀ l k v x r, text = l ++ ((k ++ v) ++ x :: r) →
  (keyTailRe t).Matches k → (separator t).Matches v → opensValue t x = true →
    (x = '"' ∨ x = '\'') ∧ MaskedValue t (l ++ k) x r

section Secrets
variable {k₀ w₀ u l n a a' v' : Text} {q₀ : Char}

theorem anyCase_first {s : String} {b : Char} (hs : s.toList.head? = some b) (h : (anyCase t s).Matches w) :
    ∃ c w', w = c :: w' ∧ t.sameCase b c = true := by
  have hall := matches_chain_map_one.mp h
  obtain ⟨bs, hbs⟩ := List.head?_eq_some_iff.mp hs
  rw [hbs] at hall
  cases hall with
  | cons hbc _ => exact ⟨_, _, rfl, hbc⟩

theorem nameKey_first (hn : (nameKey t).Matches n) : ∃ c n', n = c :: n' ∧ c ∉ redacted := by
  have hother : ∀ b ∈ "fl".toList, ∀ c, t.sameCase b c = true → c ∉ redacted := fun b hb c hsame hc => by
    have hascii : ∀ b ∈ "fl".toList, ∀ c ∈ redacted,
        b.toNat < 128 ∧ c.toNat < 128 ∧ (b.toLower == c.toLower) = false := by
      decide
    obtain ⟨hsmall, hsmall', hno⟩ := hascii b hb c hc
    rw [t.sameCase_ascii b c hsmall hsmall', hno] at hsame
    cases hsame
  obtain ⟨r, hr, hn⟩ := matches_anyOf.mp hn
  simp only [List.mem_cons, List.not_mem_nil, or_false] at hr
  have hfirst : ∃ b ∈ "fl".toList, ∃ c n', n = c :: n' ∧ t.sameCase b c = true := by
    rcases hr with rfl | rfl | rfl | rfl
    · exact ⟨'f', by decide, anyCase_first (s := "full_name") rfl hn⟩
    · exact ⟨'f', by decide, anyCase_first (s := "first_name") rfl hn⟩
    · exact ⟨'l', by decide, anyCase_first (s := "last_name") rfl hn⟩
    · exact ⟨'l', by decide, anyCase_first (s := "license_number") rfl hn⟩
  obtain ⟨b, hb, c, n', rfl, hsame⟩ := hfirst
  exact ⟨c, n', rfl, hother b hb c hsame⟩

theorem NameHit.no_bracket (hf : FoldsLetters t) (h : NameHit t m k₀ q₀ w₀) : '[' ∉ k₀ := by
  obtain ⟨o, n, v, rfl, ho, hn, hv⟩ := h.key
  have hno : '[' ∉ n ++ v := (lead_of_keyWord (keyWord_of_nameKey hf hn) hv).marks '[' (by decide)
  rcases ho with rfl | rfl | rfl <;> simpa using hno

end Secrets

end Names

end FleetManagement
