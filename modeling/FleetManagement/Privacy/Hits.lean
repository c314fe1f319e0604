import FleetManagement.Privacy.EmailMasking
import FleetManagement.Privacy.SecretTails

/-!
# What the passes write

The matches of each pass of `sanitize_text` with the text that takes their place.
-/

namespace FleetManagement

open Regex

section Hits
variable {t : CharTables} {m : Match Char} {text w : Text} {c d : Cursor Char}

/-- The quote that a value begins with. -/
def quoteOf (w : Text) : Text := (w.take 1).filter fun c => c = '"' || c = '\''

structure SecretHit (t : CharTables) (m : Match Char) (u v w : Text) : Prop where
  key : (secretKeyRe t).Matches u
  sep : (separator t).Matches v
  val : (secretValue t).Matches w
  text : m.text = u ++ (v ++ w)
  group : m.group "val" = w
  out : redactSecretKv m = u ++ (v ++ (quoteOf w ++ (redacted ++ quoteOf w)))

theorem secretHit_of_head (hd : ((secretKvRe t).ways { c with groups := [] }).head? = some d) (hread : Reads c d w) :
    ∃ u v w' e d', SecretHit t ⟨w, d.groups⟩ u v w' ∧ c.rest = u ++ (v ++ e.rest) ∧
      ((secretValue t).ways e).head? = some d' ∧ Reads e d' w' := by
  obtain ⟨u, v, e, d', hu, hv, hrest, hgroups', hd', rfl⟩ := secretKv_head hd
  obtain ⟨w', hw, hread'⟩ := ways_sound (List.mem_of_mem_head? hd')
  have htext : w = u ++ (v ++ w') := by
    refine List.append_cancel_right (hread.rest.symm.trans (hrest.trans ?_))
    rw [hread'.rest]
    simp only [List.append_assoc]
    rfl
  have hnone : d'.groups = e.groups := groups_of_noGroups (by
    simp [secretValue, chars, anyCase, space, anyOf, chain, NoGroups, Regex.star, plus, opt])
    (List.mem_of_mem_head? hd')
  have hall : (d'.setGroup "val" (e.upTo d')).groups = [("val", w'), ("sep", v), ("key", u)] := by
    show ("val", e.upTo d') :: d'.groups = _
    rw [hread'.upTo, hnone, hgroups']
  refine ⟨u, v, w', e, d', ⟨hu, hv, hw, htext, ?_, ?_⟩, hrest, hd', hread'⟩
  · simp [Match.group, hall]
  · simp [redactSecretKv, Match.group, hall, quoteOf, List.lookup_cons]

theorem secretHit_of_mem (hm : .hit m ∈ (secretKvRe t).pieces text) : ∃ u v w, SecretHit t m u v w := by
  obtain ⟨c, d, hd, hread, hgroups⟩ := (scans_pieces _ text).exists_of_hit hm
  obtain ⟨u, v, w, -, -, hhit, -⟩ := secretHit_of_head hd hread
  exact ⟨u, v, w, by rwa [← hgroups] at hhit⟩

structure NameHit (t : CharTables) (m : Match Char) (k : Text) (q : Char) (w : Text) : Prop where
  key : ∃ o n v, k = o ++ (n ++ v) ∧ (o = [] ∨ o = ['"'] ∨ o = ['\'']) ∧ (nameKey t).Matches n ∧ (separator t).Matches v
  quote : q = '"' ∨ q = '\''
  closed : q ∉ w
  line : '\n' ∉ w
  text : m.text = k ++ q :: (w ++ [q])
  out : maskNameKv m = k ++ q :: (maskName w ++ [q])

theorem nameHit_of_head (hd : ((nameKvRe t).ways { c with groups := [] }).head? = some d) (hread : Reads c d w) :
    ∃ k q v, NameHit t ⟨w, d.groups⟩ k q v := by
  obtain ⟨o, k, v, q, w', ho, hk, hv, hq, hw, hrest, hgroups', hline⟩ := nameKv_head hd
  have htext : w = o ++ (k ++ v) ++ q :: (w' ++ [q]) := by
    refine List.append_cancel_right (hread.rest.symm.trans (hrest.trans ?_))
    simp
  have hall : d.groups = [("val", w'), ("q", [q]), ("key", o ++ (k ++ v))] := hgroups'
  refine ⟨o ++ (k ++ v), q, w', ⟨o, k, v, rfl, ho, hk, hv⟩, hq, hw, hline, htext, ?_⟩
  simp [maskNameKv, Match.group, hall, List.lookup_cons]

theorem nameHit_of_mem (hm : .hit m ∈ (nameKvRe t).pieces text) : ∃ k q w, NameHit t m k q w := by
  obtain ⟨c, d, hd, hread, hgroups⟩ := (scans_pieces _ text).exists_of_hit hm
  have hhit := nameHit_of_head hd hread
  rwa [← hgroups] at hhit

/-! ## Lengths -/

/-- A pass that leaves a text of one character as it is, and makes no other one such a text. -/
def KeepsLength (f : Text → Text) : Prop := ∀ s, f s = s ∨ 2 ≤ s.length ∧ 2 ≤ (f s).length

theorem KeepsLength.comp {f g : Text → Text} (hf : KeepsLength f) (hg : KeepsLength g) :
    KeepsLength fun s => g (f s) := by
  intro s
  dsimp only
  rcases hf s with hs | ⟨hs, hfs⟩
  · rw [hs]
    exact hg s
  · rcases hg (f s) with hsame | ⟨-, hgs⟩
    · rw [hsame]
      exact .inr ⟨hs, hfs⟩
    · exact .inr ⟨hs, hgs⟩

theorem keepsLength_sub {r : Regex Char} {f : Match Char → Text} (hr : 2 ≤ r.minLength)
    (hf : ∀ text m, .hit m ∈ r.pieces text → 2 ≤ (f m).length) : KeepsLength (r.sub f) :=
  fun s => sub_eq_or_length f s hr (hf s)

theorem length_phoneWord {w : Text} (h : (phoneRe t).Matches w) : 9 ≤ w.length := by
  obtain ⟨plus, d, us, rfl, hw⟩ := exists_phoneWord h
  have hdigits := hw.digits
  have hfilter := List.length_filter_le t.isDigit (plus ++ d :: us.flatten)
  have hmin := hw.min
  omega

theorem length_maskPhoneMatch (h : (phoneRe t).Matches m.text) : 2 ≤ (maskPhoneMatch t m).length := by
  have hlength := length_phoneWord h
  unfold maskPhoneMatch
  dsimp only
  split
  · omega
  · simp only [List.length_append, String.toList]
    show 2 ≤ _ + 3 + _
    omega

theorem length_redacted : redacted.length = 10 := by decide

theorem SecretHit.length {u v w : Text} (h : SecretHit t m u v w) : 2 ≤ (redactSecretKv m).length := by
  rw [h.out]
  simp only [List.length_append, length_redacted]
  omega

theorem NameHit.length {k w : Text} {q : Char} (h : NameHit t m k q w) : 2 ≤ (maskNameKv m).length := by
  rw [h.out]
  simp only [List.length_append, List.length_cons, List.length_nil]
  omega

theorem EmailHit.length {x : Char} {l dom : Text} (h : EmailHit m x l dom) : 2 ≤ (emailOut (.hit m)).length := by
  rw [h.out]
  simp only [List.length_cons]
  omega

theorem minLength_separator : (separator t).minLength = 1 := by
  simp [separator, minLength, chain, opt, Regex.star, chars]

theorem minLength_secretValue : 1 ≤ (secretValue t).minLength := by
  simp [secretValue, minLength, chain, anyOf, opt, Regex.star, plus, chars]

theorem two_le_secretKv : 2 ≤ (secretKvRe t).minLength := by
  have hvalue := minLength_secretValue (t := t)
  simp only [secretKvRe, chain, minLength, minLength_separator]
  omega

theorem two_le_nameKv : 2 ≤ (nameKvRe t).minLength := by
  simp [nameKvRe, chain, minLength, minLength_separator, chars, anyOf, anyCase]

theorem two_le_bearer : 2 ≤ (bearerRe t).minLength := by
  simp only [bearerRe, chain, minLength, plus, space]
  omega

theorem two_le_jwt : 2 ≤ (jwtRe t).minLength := by
  simp only [jwtRe, chain, minLength, plus]
  omega

theorem two_le_hash : 2 ≤ (hashRe t).minLength := by
  simp [hashRe, chain, minLength, plus, literal]

theorem two_le_email : 2 ≤ emailRe.minLength := by
  simp only [emailRe, chain, minLength, plus, domainRe]
  omega

theorem two_le_phone : 2 ≤ (phoneRe t).minLength := by
  simp only [phoneRe, chain, minLength, digit]
  omega

theorem keepsLength_redactText (t : CharTables) : KeepsLength (redactText t) := by
  have hsecret : KeepsLength ((secretKvRe t).sub redactSecretKv) :=
    keepsLength_sub two_le_secretKv fun text m hm => by
      obtain ⟨u, v, w, hhit⟩ := secretHit_of_mem hm
      exact hhit.length
  have hbearer : KeepsLength ((bearerRe t).sub fun _ => "Bearer ".toList ++ redacted) :=
    keepsLength_sub two_le_bearer fun _ _ _ => by decide
  have hjwt : KeepsLength ((jwtRe t).sub fun _ => redacted) :=
    keepsLength_sub two_le_jwt fun _ _ _ => by decide
  have hhash : KeepsLength ((hashRe t).sub fun _ => redacted) :=
    keepsLength_sub two_le_hash fun _ _ _ => by decide
  have hname : KeepsLength ((nameKvRe t).sub maskNameKv) :=
    keepsLength_sub two_le_nameKv fun text m hm => by
      obtain ⟨k, q, w, hhit⟩ := nameHit_of_mem hm
      exact hhit.length
  intro s
  exact ((((hsecret.comp hbearer).comp hjwt).comp hhash).comp hname) s

theorem keepsLength_sanitizeText (t : CharTables) : KeepsLength (sanitizeText t) := by
  have hemail : KeepsLength maskEmail :=
    keepsLength_sub two_le_email fun text m hm => by
      obtain ⟨x, l, dom, hhit⟩ := emailHit_of_scans (scans_pieces _ text) hm
      have hlength := hhit.length
      exact hlength
  have hphone : KeepsLength (maskPhone t) :=
    keepsLength_sub two_le_phone fun text m hm =>
      length_maskPhoneMatch ((scans_pieces _ text).matches_of_hit hm)
  intro s
  exact ((keepsLength_redactText t).comp hemail).comp hphone s

end Hits

end FleetManagement
