import FleetManagement.Privacy.SettledNames

/-!
# Secrets with the key of a name

Where the key of a secret is that of a name, too, the placeholder is masked. A second pass for secrets writes the
placeholder again, and the pass for names masks it in the same way.
-/

namespace FleetManagement

open Regex

/-- What a pass after the one for names may replace for the values of secrets to stay. -/
structure Spares (t : CharTables) (a b : Text) : Prop where
  mask : Mask t b
  bare : Bare t a
  other : ∃ c ∈ a, c ∉ maskName redacted
  fields : ∀ n v, (nameKey t).Matches n → (separator t).Matches v → Patch.Apart (n ++ v) a

/-- What is replaced are placeholders, and each of them stands in quotes after the key of a name. -/
def FieldPatches (t : CharTables) (g : Patch Char → Text) (front : Text) (ps : List (Patch Char)) : Prop :=
  ∀ p₁ a b p₂, ps = p₁ ++ .replaced a b :: p₂ → a = redacted ∧ b = maskName redacted ∧
    ∃ z n v q p₃, front ++ p₁.flatMap g = z ++ ((n ++ v) ++ [q]) ∧ (nameKey t).Matches n ∧
      (separator t).Matches v ∧ (q = '"' ∨ q = '\'') ∧ p₂ = .kept q :: p₃

section SharedKeys
variable {t : CharTables} {k n v w text : Text} {q x : Char} {m : Match Char} {ps : List (Patch Char)}

/-! ## The passes after the one for names -/

theorem nameKey_word (hn : (nameKey t).Matches n) :
    ∃ s ∈ ["full_name", "first_name", "last_name", "license_number"], (anyCase t s).Matches n := by
  obtain ⟨r, hr, hn⟩ := matches_anyOf.mp hn
  simp only [List.mem_cons, List.not_mem_nil, or_false] at hr
  rcases hr with rfl | rfl | rfl | rfl
  · exact ⟨_, by simp, hn⟩
  · exact ⟨_, by simp, hn⟩
  · exact ⟨_, by simp, hn⟩
  · exact ⟨_, by simp, hn⟩

theorem nameKey_chars (hf : FoldsLetters t) (hn : (nameKey t).Matches n) :
    9 ≤ n.length ∧ ∀ c ∈ n, t.isDigit c = false := by
  obtain ⟨s, hs, hn⟩ := nameKey_word hn
  have hletters : ∀ s ∈ ["full_name", "first_name", "last_name", "license_number"], 9 ≤ s.toList.length ∧
      ∀ a ∈ s.toList, a ∈ "abcdefghijklmnopqrstuvwxyz_".toList := by decide
  obtain ⟨hlength, hs⟩ := hletters s hs
  obtain ⟨hsame, hchars⟩ := anyCase_word hf hs hn
  exact ⟨hsame ▸ hlength, fun c hc => (hchars c hc).2⟩

section Fields
variable {g : Patch Char → Text} {front : Text}

theorem fieldPatches_kept (hg : ∀ x, g (.kept x) = [x]) (w : Text) (h : FieldPatches t g (front ++ w) ps) :
    FieldPatches t g front (w.map .kept ++ ps) := by
  intro p₁ a b p₂ hsplit
  rcases List.append_eq_append_iff.mp hsplit with ⟨p, rfl, hrest⟩ | ⟨p, hp, hrest⟩
  · obtain ⟨ha, hb, z, n, v, q, p₃, hends, hfield⟩ := h p a b p₂ hrest
    refine ⟨ha, hb, z, n, v, q, p₃, ?_, hfield⟩
    rw [← hends, List.flatMap_append, Patch.flatMap_kept hg, List.append_assoc]
  · cases p with
    | nil =>
        obtain ⟨ha, hb, z, n, v, q, p₃, hends, hfield⟩ := h [] a b p₂ hrest.symm
        refine ⟨ha, hb, z, n, v, q, p₃, ?_, hfield⟩
        rw [← hends, ← List.append_nil p₁, ← hp, Patch.flatMap_kept hg, List.flatMap_nil, List.append_nil]
    | cons r p =>
        obtain ⟨rfl, -⟩ := List.cons.inj hrest
        obtain ⟨y, -, hy⟩ := List.mem_map.mp (hp ▸ List.mem_append_right p₁ List.mem_cons_self)
        cases hy

theorem fieldPatches_field (hg : ∀ x, g (.kept x) = [x]) {z n v : Text} (hfront : front = z ++ ((n ++ v) ++ [q]))
    (hn : (nameKey t).Matches n) (hv : (separator t).Matches v) (hq : q = '"' ∨ q = '\'')
    (h : FieldPatches t g (front ++ (g (.replaced redacted (maskName redacted)) ++ [q])) ps) :
    FieldPatches t g front (.replaced redacted (maskName redacted) :: .kept q :: ps) := by
  intro p₁ a b p₂ hsplit
  cases p₁ with
  | nil =>
      obtain ⟨hpatch, hrest⟩ := List.cons.inj hsplit
      cases hpatch
      exact ⟨rfl, rfl, z, n, v, q, ps, by simpa using hfront, hn, hv, hq, hrest.symm⟩
  | cons p p₁ =>
      obtain ⟨rfl, hrest⟩ := List.cons.inj hsplit
      cases p₁ with
      | nil => cases hrest
      | cons p p₁ =>
          obtain ⟨rfl, hlater⟩ := List.cons.inj hrest
          obtain ⟨ha, hb, z, n, v, q', p₃, hends, hfield⟩ := h p₁ a b p₂ hlater
          refine ⟨ha, hb, z, n, v, q', p₃, ?_, hfield⟩
          rw [← hends]
          simp [hg]

/-- The pass for secrets writes the masked placeholders again. -/
theorem exists_fieldPatches (hf : FoldsLetters t) (h : SecretsMasked t text) {before qs : List (Piece Char)}
    (hpieces : (secretKvRe t).pieces text = before ++ qs) : ∃ ps : List (Patch Char),
      ps.flatMap Patch.old = qs.flatMap secretOut ∧ ps.flatMap Patch.new = qs.flatMap Piece.text ∧
        FieldPatches t Patch.new (before.flatMap Piece.text) ps := by
  induction qs generalizing before with
  | nil => exact ⟨[], rfl, rfl, fun p₁ a b p₂ hsplit => by simp at hsplit⟩
  | cons p qs ih =>
      have hnext : (secretKvRe t).pieces text = (before ++ [p]) ++ qs := by
        rw [hpieces]
        simp
      obtain ⟨ps, hold, hnew, hps⟩ := ih hnext
      rw [List.flatMap_append, List.flatMap_singleton] at hps
      have hsame : ∀ w, secretOut p = w → p.text = w → ∃ ps : List (Patch Char),
          ps.flatMap Patch.old = (p :: qs).flatMap secretOut ∧ ps.flatMap Patch.new = (p :: qs).flatMap Piece.text ∧
            FieldPatches t Patch.new (before.flatMap Piece.text) ps := fun w hout htext => by
        refine ⟨w.map .kept ++ ps, ?_, ?_, fieldPatches_kept (fun _ => rfl) w (htext ▸ hps)⟩
        · rw [List.flatMap_append, List.flatMap_cons, Patch.flatMap_kept fun _ => rfl, hold, hout]
        · rw [List.flatMap_append, List.flatMap_cons, Patch.flatMap_kept fun _ => rfl, hnew, htext]
      cases p with
      | kept x => exact hsame [x] rfl rfl
      | hit m =>
          obtain ⟨u, k, v, w, x, r, hhit, hk, hx, hposition, hvalue⟩ := secretHit_position hf hpieces
          obtain ⟨hq, hmasked⟩ := h _ k v x r hposition hk hhit.sep hx
          cases hmasked with
          | placeholder =>
              obtain rfl := hvalue x redacted _ hq (not_mem_redacted hq) rfl
              refine hsame _ (hhit.out.trans ?_) hhit.text
              rw [quoteOf_quoted hq]
              rfl
          | @name z n _ hkey hn =>
              have hno : x ∉ maskName redacted := by rcases hq with rfl | rfl <;> decide
              obtain rfl := hvalue x (maskName redacted) _ hq hno rfl
              have hout : secretOut (.hit m) = (((u ++ k) ++ v) ++ [x]) ++ (redacted ++ [x]) := by
                refine hhit.out.trans ?_
                rw [quoteOf_quoted hq]
                simp
              have htext : Piece.text (.hit m) = (((u ++ k) ++ v) ++ [x]) ++ (maskName redacted ++ [x]) := by
                refine hhit.text.trans ?_
                simp
              refine ⟨(((u ++ k) ++ v) ++ [x]).map .kept ++
                .replaced redacted (maskName redacted) :: .kept x :: ps, ?_, ?_, ?_⟩
              · rw [List.flatMap_append, List.flatMap_cons, List.flatMap_cons, List.flatMap_cons,
                  Patch.flatMap_kept fun _ => rfl, hold, hout]
                simp [Patch.old]
              · rw [List.flatMap_append, List.flatMap_cons, List.flatMap_cons, List.flatMap_cons,
                  Patch.flatMap_kept fun _ => rfl, hnew, htext]
                simp [Patch.new]
              · refine fieldPatches_kept (fun _ => rfl) _
                  (fieldPatches_field (fun _ => rfl) (z := z) ?_ hn hhit.sep hq ?_)
                · rw [show before.flatMap Piece.text ++ (((u ++ k) ++ v) ++ [x]) =
                    ((before.flatMap Piece.text ++ u) ++ k) ++ (v ++ [x]) by simp, hkey]
                  simp
                · rw [htext] at hps
                  simpa [Patch.new] using hps

theorem FieldPatches.eq (h : FieldPatches t g front ps) {a b : Text} (hab : .replaced a b ∈ ps) :
    a = redacted ∧ b = maskName redacted := by
  obtain ⟨p₁, p₂, hsplit⟩ := List.mem_iff_append.mp hab
  obtain ⟨ha, hb, -⟩ := h p₁ a b p₂ hsplit
  exact ⟨ha, hb⟩

theorem field_apart (hf : FoldsLetters t) (hn : (nameKey t).Matches n) (hv : (separator t).Matches v)
    (hq : q = '"' ∨ q = '\'') : Patch.Apart ((n ++ v) ++ [q]) (maskName redacted) := by
  have hlead := lead_of_keyWord (keyWord_of_nameKey hf hn) hv
  have hno : ∀ c ∈ "[*".toList, c ∉ (n ++ v) ++ [q] := fun c hc hmem => by
    have hmarks : ∀ c ∈ "[*".toList, c ∈ "[]*@".toList ∧ c ≠ '"' ∧ c ≠ '\'' := by decide
    obtain ⟨hmark, hdouble, hsingle⟩ := hmarks c hc
    rcases List.mem_append.mp hmem with hmem | hmem
    · exact hlead.marks c hmark hmem
    · obtain rfl := List.mem_singleton.mp hmem
      exact hq.elim hdouble hsingle
  refine .of_ends (y := '[') (z := '*') rfl rfl (hno _ (by decide)) (hno _ (by decide)) fun hin => ?_
  have hquote : q ∈ maskName redacted := hin.subset (by simp)
  rcases hq with rfl | rfl <;> exact absurd hquote (by decide)

theorem secret_again (hf : FoldsLetters t) (h : SecretsMasked t text) : ∃ ps : List (Patch Char),
    ps.flatMap Patch.old = (secretKvRe t).sub redactSecretKv text ∧ ps.flatMap Patch.new = text ∧
      FieldPatches t Patch.old [] ps := by
  obtain ⟨ps, hold, hnew, hps⟩ := exists_fieldPatches hf h (List.nil_append _).symm
  refine ⟨ps, hold.trans (secret_eq text).symm, hnew.trans (scans_pieces _ text).text, fun p₁ a b p₂ hsplit => ?_⟩
  obtain ⟨ha, hb, z, n, v, q, p₃, hends, hn, hv, hq, hp₂⟩ := hps p₁ a b p₂ hsplit
  have hfield : p₁.flatMap Patch.new = z ++ ((n ++ v) ++ [q]) := hends
  obtain ⟨z', hz'⟩ := Patch.suffix_of_patched (List.append_ne_nil_of_right_ne_nil _ (List.cons_ne_nil q []))
    (fun a b hab => (hps.eq (hsplit ▸ List.mem_append_left _ hab)).2 ▸ field_apart hf hn hv hq) hfield
  exact ⟨ha, hb, z', n, v, q, p₃, hz', hn, hv, hq, hp₂⟩

end Fields

theorem MaskedValue.body {key r : Text} (hq : q = '"' ∨ q = '\'') (h : MaskedValue t key q r) :
    ∃ b r', q ∉ b ∧ r = b ++ q :: r' := by
  cases h with
  | placeholder => exact ⟨redacted, _, not_mem_redacted hq, rfl⟩
  | name => exact ⟨maskName redacted, _, by rcases hq with rfl | rfl <;> decide, rfl⟩

/-- No token appears where the placeholders are written again. -/
theorem clean_secret_again {T : Token Char} (hf : FoldsLetters t) (hT : Sealed t T) (hparts : T.parts ≠ [])
    (h : SecretsMasked t text) (hclean : T.Clean text.reverse) :
    T.Clean ((secretKvRe t).sub redactSecretKv text).reverse := by
  have hall := (scans_pieces (secretKvRe t) text).clean (T := T) (f := redactSecretKv)
    (P := fun c => T.Absent c.before c.rest ∧ ∃ l, text = l ++ c.rest) (fun c d w hc hread => ?_)
    (fun c hc _ => hc.1 [] _ rfl) (fun c d w out hc hd hread hguarded => ?_)
    ⟨Token.absent_of_clean hparts (by simpa [Cursor.start] using hclean), [], rfl⟩
    (show T.Guarded [] [] text from guarded_start)
  · rwa [List.append_nil] at hall
  · obtain ⟨habsent, l, hl⟩ := hc
    rw [hread.rest] at habsent hl
    rw [hread.before]
    exact ⟨habsent.later, l ++ w, by rw [hl, List.append_assoc]⟩
  · obtain ⟨habsent, l, hl⟩ := hc
    obtain ⟨u, k, v, w', x, r, hhit, hk, hx, hrest, hvalue⟩ := secretHit_at hf hd hread
    obtain ⟨hq, hmasked⟩ := h (l ++ u) k v x r (by rw [hl, hrest]; simp) hk hhit.sep hx
    obtain ⟨b, r', hno, rfl⟩ := hmasked.body hq
    obtain rfl := hvalue x b r' hq hno rfl
    obtain rfl : w = (u ++ k) ++ (v ++ x :: (b ++ [x])) := hhit.text
    have hsplit : ((u ++ k) ++ (v ++ x :: (b ++ [x]))) ++ d.rest = ((u ++ k) ++ (v ++ [x])) ++ (b ++ x :: d.rest) := by
      simp
    rw [hread.rest, hsplit] at hguarded habsent
    have hfront := hguarded.append habsent
    have hquote : x ∈ marks := by rcases hq with rfl | rfl <;> decide
    have hclosed := Token.idle_of_lacks (idle_redacted hT hfront.clean).clean (hT.lacks x hquote)
    have hout : (redactSecretKv ⟨(u ++ k) ++ (v ++ x :: (b ++ [x])), d.groups⟩).reverse ++ out =
        x :: (redacted.reverse ++ (((u ++ k) ++ (v ++ [x])).reverse ++ out)) := by
      rw [hhit.out, quoteOf_quoted hq]
      simp
    rw [hout, hread.before]
    exact hclosed.guarded _ d.rest fun hopens => .inl (by simpa using hopens)

/-! ## The pass for names again -/

theorem nameKey_no_quote (hf : FoldsLetters t) (hn : (nameKey t).Matches n) (hq : q = '"' ∨ q = '\'') : q ∉ n :=
  fun hmem => by
    have hno : isKeyChar t q = false := by rcases hq with rfl | rfl <;> exact not_isKeyChar_sign (by decide)
    rw [(keyWord_of_nameKey hf hn).chars q hmem] at hno
    cases hno

theorem nameKey_apart (hf : FoldsLetters t) (hn : (nameKey t).Matches n) : Patch.Apart n redacted := by
  have hno : ∀ c ∈ "[]".toList, c ∉ n := fun c hc hmem => by
    have hsign : isKeyChar t c = false :=
      not_isKeyChar_sign ((by decide : ∀ c ∈ "[]".toList, c ∈ ":=\"'[]*@".toList) c hc)
    rw [(keyWord_of_nameKey hf hn).chars c hmem] at hsign
    cases hsign
  obtain ⟨c, n', rfl, hc⟩ := nameKey_first hn
  exact .of_ends (y := '[') (z := ']') rfl (by decide) (hno _ (by decide)) (hno _ (by decide)) fun hin =>
    hc (hin.subset List.mem_cons_self)

theorem maskName_length_le (w : Text) : (maskName w).length ≤ 4 := by cases w <;> simp [maskName]

/-- The key of a field that ends after a hit begins after it, unless it stands in the name. -/
theorem field_after_hit (hf : FoldsLetters t) {p z : Text} {q' : Char} (hhit : NameHit t m k q w)
    (hn : (nameKey t).Matches n) (hv : (separator t).Matches v)
    (h : (k ++ q :: (w ++ [q])) ++ p = z ++ ((n ++ v) ++ [q'])) (hno : ¬ n <:+: w) :
    ∃ z', p = z' ++ ((n ++ v) ++ [q']) := by
  have hquote := nameKey_no_quote hf hn hhit.quote
  obtain ⟨c, n', hc⟩ := (keyWord_of_nameKey hf hn).head
  have hfirst : ∀ r, (n ++ v) ++ [q'] ≠ q :: r := fun r heq => by
    rw [hc] at heq hquote
    obtain ⟨rfl, -⟩ := List.cons.inj heq
    exact hquote List.mem_cons_self
  rcases List.append_eq_append_iff.mp h with ⟨a, -, hp⟩ | ⟨a, ha, hrest⟩
  · exact ⟨a, hp⟩
  rcases List.eq_nil_or_concat a with rfl | ⟨a, e, rfl⟩
  · exact ⟨[], hrest.symm⟩
  exfalso
  rw [List.concat_eq_append] at ha hrest
  rcases List.append_eq_append_iff.mp ha with ⟨b, -, hb⟩ | ⟨b, hb, ha⟩
  · cases b with
    | nil =>
        rw [← List.nil_append (a ++ [e]), ← hb] at hrest
        exact hfirst _ hrest
    | cons y b =>
        -- The field would begin in the name, or with the quote after it.
        obtain ⟨-, hinner⟩ := List.cons.inj hb
        obtain ⟨rfl, he⟩ := List.append_inj' (show w ++ [q] = (b ++ a) ++ [e] by simpa using hinner) rfl
        obtain rfl : q = e := by simpa using he
        have hover : n ++ (v ++ [q']) = a ++ q :: p := by simpa using hrest
        rcases List.append_eq_append_iff.mp hover with ⟨i, rfl, -⟩ | ⟨i, hi, hend⟩
        · exact hno ⟨b, i, by simp⟩
        · cases i with
          | nil => exact hno ⟨b, [], by rw [hi]; simp⟩
          | cons y i =>
              obtain ⟨rfl, -⟩ := List.cons.inj hend
              exact hquote (hi ▸ by simp)
  · -- It would begin in the key, and the key's own quote would stand in it after a sign.
    rw [ha] at hrest
    obtain ⟨u, s, hlast, hs⟩ := hhit.key_last
    rcases List.eq_nil_or_concat b with rfl | ⟨b, d, rfl⟩
    · exact hfirst _ hrest
    rw [List.concat_eq_append] at hb hrest
    obtain ⟨-, hd⟩ := List.append_inj' (show u ++ [s] = (z ++ b) ++ [d] by rw [← hlast, hb, List.append_assoc]) rfl
    obtain rfl : s = d := by simpa using hd
    obtain ⟨r, y, hr⟩ := (List.eq_nil_or_concat (w ++ ([q] ++ p))).resolve_left (by simp)
    have hover : (n ++ v) ++ [q'] = (b ++ s :: q :: r) ++ [y] := by
      rw [hrest]
      simpa using hr
    exact no_quote_after_sign (.inl rfl) (keyWord_of_nameKey hf hn) hv hs hhit.quote (List.append_inj' hover rfl).1

section Placeholders
variable {u r : Text}

theorem split_at_quote (hps : ∀ a b, .replaced a b ∈ ps → a = redacted ∧ b = maskName redacted)
    (hq : q = '"' ∨ q = '\'') (h : ps.flatMap Patch.old = u ++ q :: r) :
    ∃ s₁ s₂, ps = s₁ ++ .kept q :: s₂ ∧ s₁.flatMap Patch.old = u ∧ s₂.flatMap Patch.old = r := by
  obtain ⟨s₁, p, s₂, l, r', rfl, hp, rfl, rfl⟩ := split_flatMap h
  cases p with
  | replaced a b =>
      obtain ⟨rfl, -⟩ := hps a b (by simp)
      exact absurd (show q ∈ redacted from (show redacted = _ from hp) ▸ by simp) (not_mem_redacted hq)
  | kept y =>
      cases l with
      | nil =>
          obtain ⟨rfl, rfl⟩ := List.cons.inj (show [y] = q :: r' from hp)
          exact ⟨s₁, s₂, rfl, by simp, rfl⟩
      | cons z l => simp [Patch.old] at hp

theorem new_eq_old (h : ∀ a b, .replaced a b ∉ ps) : ps.flatMap Patch.new = ps.flatMap Patch.old :=
  List.flatMap_congr fun p hp => by
    cases p with
    | kept x => rfl
    | replaced a b => exact absurd hp (h a b)

theorem eq_nil_of_new (hps : ∀ a b, .replaced a b ∈ ps → a = redacted ∧ b = maskName redacted)
    (h : ps.flatMap Patch.new = []) : ps = [] := by
  cases ps with
  | nil => rfl
  | cons p ps =>
      cases p with
      | kept x => cases h
      | replaced a b =>
          obtain ⟨-, rfl⟩ := hps a b List.mem_cons_self
          cases h

/-- A masked name is masked in the same way where it was a placeholder. -/
theorem maskName_old (hps : ∀ a b, .replaced a b ∈ ps → a = redacted ∧ b = maskName redacted)
    (h : maskName (ps.flatMap Patch.new) = ps.flatMap Patch.new) :
    maskName (ps.flatMap Patch.old) = ps.flatMap Patch.new := by
  by_cases hnone : ∀ a b, .replaced a b ∉ ps
  · rw [← new_eq_old hnone, h]
  · simp only [not_forall, not_not] at hnone
    obtain ⟨a, b, hab⟩ := hnone
    obtain ⟨rfl, rfl⟩ := hps a b hab
    obtain ⟨s₁, s₂, rfl⟩ := List.mem_iff_append.mp hab
    have hlength := maskName_length_le ((s₁ ++ .replaced redacted (maskName redacted) :: s₂).flatMap Patch.new)
    have hfour : (maskName redacted).length = 4 := by decide
    rw [h, List.flatMap_append, List.flatMap_cons, List.length_append, List.length_append,
      show Patch.new (.replaced redacted (maskName redacted)) = maskName redacted from rfl, hfour] at hlength
    have hs₁ : s₁ = [] := eq_nil_of_new (fun a b hab => hps a b (by simp [hab])) (List.length_eq_zero_iff.mp (by omega))
    have hs₂ : s₂ = [] := eq_nil_of_new (fun a b hab => hps a b (by simp [hab])) (List.length_eq_zero_iff.mp (by omega))
    rw [hs₁, hs₂]
    rfl

end Placeholders

/-- The pass for names masks the placeholders again. -/
theorem names_again (hf : FoldsLetters t) {c : Cursor Char} {qs : List (Piece Char)} (h : Scans (nameKvRe t) c qs)
    (hold : ps.flatMap Patch.old = c.rest) (hfields : FieldPatches t Patch.old [] ps)
    (hmasked : NamesMasked t (ps.flatMap Patch.new)) : qs.flatMap nameOut = ps.flatMap Patch.new := by
  induction h generalizing ps with
  | done hnil =>
      cases ps with
      | nil => rfl
      | cons p ps =>
          rw [hnil] at hold
          cases p with
          | kept x => cases hold
          | replaced a b =>
              obtain ⟨rfl, -⟩ := hfields.eq List.mem_cons_self
              cases hold
  | @kept c x qs hx hkept h ih =>
      have hnil := (Scans.kept hx hkept h).ways_nil_of_kept nameKv_blocks.nonempty
      obtain ⟨rest, hrest⟩ := hx
      cases ps with
      | nil => cases hrest.trans hold.symm
      | cons p ps =>
          cases p with
          | replaced a b =>
              obtain ⟨-, -, z, n, v, q, p₃, hends, -⟩ := hfields [] a b ps rfl
              simp at hends
          | kept y =>
              obtain ⟨rfl, hlater⟩ := List.cons.inj (hold.trans hrest.symm)
              refine congrArg (List.cons y) (ih (hlater.trans (rest_advance hrest.symm).symm) ?_ ?_)
              · intro p₁ a b p₂ hsplit
                obtain ⟨ha, hb, z, n, v, q, p₃, hends, hn, hv, hq, hp₂⟩ :=
                  hfields (.kept y :: p₁) a b p₂ (by rw [hsplit]; rfl)
                cases z with
                | cons y' z => exact ⟨ha, hb, z, n, v, q, p₃, (List.cons.inj hends).2, hn, hv, hq, hp₂⟩
                | nil =>
                    refine absurd hnil (nameKv_ways (w := redacted) (r := p₃.flatMap Patch.old) hn hv hq (by decide) ?_)
                    show c.rest = _
                    rw [← hold, hsplit, hp₂, ha]
                    have hfront : y :: p₁.flatMap Patch.old = (n ++ v) ++ [q] := hends
                    rw [List.flatMap_cons, List.flatMap_append, ← List.append_assoc,
                      show Patch.old (.kept y) ++ p₁.flatMap Patch.old = _ from hfront]
                    simp [Patch.old]
              · exact fun l k v q w r hsplit => hmasked (y :: l) k v q w r (congrArg (List.cons y) hsplit)
  | @hit c d w qs hd hread hne h ih =>
      obtain ⟨k, q, v, hhit⟩ := nameHit_of_head hd hread
      obtain rfl : w = k ++ q :: (v ++ [q]) := hhit.text
      have htext : ps.flatMap Patch.old = k ++ q :: (v ++ q :: d.rest) := by rw [hold, hread.rest]; simp
      have hps : ∀ a b, .replaced a b ∈ ps → a = redacted ∧ b = maskName redacted := fun a b hab => hfields.eq hab
      obtain ⟨s₁, s, rfl, hk, hrest⟩ := split_at_quote hps hhit.quote htext
      obtain ⟨s₂, s₃, rfl, hv, hafter⟩ := split_at_quote (fun a b hab => hps a b (by simp [hab])) hhit.quote hrest
      have hkey : s₁.flatMap Patch.new = k := by
        refine (new_eq_old fun a b hab => hhit.no_bracket hf ?_).trans hk
        obtain ⟨rfl, -⟩ := hps a b (by simp [hab])
        exact hk ▸ List.mem_flatMap.mpr ⟨_, hab, (by decide : '[' ∈ redacted)⟩
      have hchars : ∀ c ∈ s₂.flatMap Patch.new, c ∈ v ∨ c ∈ maskName redacted := fun c hc => by
        obtain ⟨p, hp, hc⟩ := List.mem_flatMap.mp hc
        cases p with
        | kept x => exact .inl (hv ▸ List.mem_flatMap.mpr ⟨_, hp, hc⟩)
        | replaced a b =>
            obtain ⟨-, rfl⟩ := hps a b (by simp [hp])
            exact .inr hc
      have hname : maskName (s₂.flatMap Patch.new) = s₂.flatMap Patch.new := by
        obtain ⟨o, n, v', hkey', -, hn, hv'⟩ := hhit.key
        refine hmasked o n v' q _ (s₃.flatMap Patch.new) ?_ hn hv' hhit.quote (fun hmem => ?_) fun hmem => ?_
        · rw [List.flatMap_append, hkey, hkey']
          simp [Patch.new]
        · rcases hchars q hmem with h | h
          · exact hhit.closed h
          · rcases hhit.quote with rfl | rfl <;> exact absurd h (by decide)
        · exact (hchars '\n' hmem).elim hhit.line (by decide)
      have hout : maskName v = s₂.flatMap Patch.new := hv ▸ maskName_old (fun a b hab => hps a b (by simp [hab])) hname
      have hlater := ih hafter ?_ ?_
      · show maskNameKv _ ++ qs.flatMap nameOut = _
        rw [hhit.out, hout, hlater, List.flatMap_append, hkey]
        simp [Patch.new]
      · intro p₁ a b p₂ hsplit
        obtain ⟨ha, hb, z, n, v', q', p₃, hends, hn, hv', hq', hp₂⟩ :=
          hfields (s₁ ++ .kept q :: (s₂ ++ .kept q :: p₁)) a b p₂ (by rw [hsplit]; simp)
        have hover : (k ++ q :: (v ++ [q])) ++ p₁.flatMap Patch.old = z ++ ((n ++ v') ++ [q']) := by
          rw [← hends, ← hk, ← hv]
          simp [Patch.old]
        have hno : ¬ n <:+: v := fun hin => by
          rw [← hv] at hin
          have hlong := (Patch.infix_of_replaced (fun hnil => by have := (nameKey_chars hf hn).1; simp [hnil] at this)
            (fun a b hab => (hps a b (by simp [hab])).1 ▸ nameKey_apart hf hn) hin).length_le
          have hshort := maskName_length_le (s₂.flatMap Patch.new)
          have hnine := (nameKey_chars hf hn).1
          rw [hname] at hshort
          omega
        obtain ⟨z', hz'⟩ := field_after_hit hf hhit hn hv' hover hno
        exact ⟨ha, hb, z', n, v', q', p₃, hz', hn, hv', hq', hp₂⟩
      · intro l k' v' q' w r hsplit
        refine hmasked ((k ++ q :: (s₂.flatMap Patch.new ++ [q])) ++ l) k' v' q' w r ?_
        rw [List.flatMap_append, hkey]
        simp [Patch.new, hsplit]

end SharedKeys

end FleetManagement
