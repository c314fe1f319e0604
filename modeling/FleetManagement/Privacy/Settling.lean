import FleetManagement.Privacy.SettledNumbers
import FleetManagement.Privacy.SharedKeys

/-!
# Sanitizing twice

When a sanitized text is left as it is by another sanitizing.
-/

namespace FleetManagement

open Regex

/-- What the passes must not find for the masks of a text to stay. -/
structure Calm (t : CharTables) (text : Text) : Prop where
  lines : ∀ l k v q a e us b, text = l ++ ((k ++ v) ++ q :: (a ++ (e :: us.flatten ++ b))) → (nameKey t).Matches k →
    (separator t).Matches v → (q = '"' ∨ q = '\'') → PhoneWord t [] e us → q ∈ b → '\n' ∉ e :: us.flatten
  numbers : ∀ w, (longNumberRe t).Matches w → ¬ w <:+: text

/-- A mask without digits. -/
structure Blank (t : CharTables) (b : Text) : Prop where
  mask : Mask t b
  digits : ∀ c ∈ b, t.isDigit c = false

/-- Masks without digits in the place of parts of a text. A quote that they put after the text before them stood
in a part that they replace, or stands there still. -/
structure Masks (t : CharTables) (ps : List (Patch Char)) : Prop where
  blank : ∀ a b, .replaced a b ∈ ps → Blank t b
  quotes : ∀ ps₁ ps₂ q, ps = ps₁ ++ ps₂ → (q = '"' ∨ q = '\'') → (ps₁.flatMap Patch.new).getLast? ≠ some q →
    q ∈ ps₂.flatMap Patch.new → q ∈ ps₂.flatMap Patch.old

/-- The text `out` has masks in the place of parts of `text`. -/
def MaskedFrom (t : CharTables) (text out : Text) : Prop :=
  ∃ ps : List (Patch Char), ps.flatMap Patch.old = text ∧ ps.flatMap Patch.new = out ∧ Masks t ps

section Masks
variable {t : CharTables} {text out w : Text} {m : Match Char} {ps qs : List (Patch Char)}

theorem Masks.append (h : Masks t ps) (h' : Masks t qs) : Masks t (ps ++ qs) where
  blank a b hab := (List.mem_append.mp hab).elim (h.blank a b) (h'.blank a b)
  quotes ps₁ ps₂ q hsplit hq hlast hmem := by
    rcases List.append_eq_append_iff.mp hsplit with ⟨p, rfl, rfl⟩ | ⟨p, rfl, rfl⟩
    · cases p with
      | nil => exact h'.quotes [] ps₂ q rfl hq (by simp) hmem
      | cons r p =>
          refine h'.quotes (r :: p) ps₂ q rfl hq ?_ hmem
          have hne : (r :: p).flatMap Patch.new ≠ [] := by
            cases r with
            | kept x => exact List.cons_ne_nil _ _
            | replaced a b =>
                obtain ⟨y, b, rfl, -⟩ := (h'.blank a b (by simp)).mask.head
                exact List.cons_ne_nil _ _
          rwa [List.flatMap_append, List.getLast?_append_of_ne_nil _ hne] at hlast
    · rw [List.flatMap_append] at hmem ⊢
      rcases List.mem_append.mp hmem with hmem | hmem
      · exact List.mem_append_left _ (h.quotes ps₁ p q rfl hq hlast hmem)
      · exact List.mem_append_right _ (h'.quotes [] qs q rfl hq (by simp) hmem)

theorem figures_of_phoneWord {e : Char} {us : List Text} (h : PhoneWord t [] e us) : Figures t (e :: us.flatten) :=
  figures_of_groups h.digit h.groups

/-- No mask makes what the passes look for. -/
theorem Calm.masked (hf : FoldsLetters t) (h : Calm t text) (hm : MaskedFrom t text out) : Calm t out := by
  obtain ⟨ps, rfl, rfl, hps⟩ := hm
  have hfigures : ∀ {w}, Figures t w → ∀ a b, .replaced a b ∈ ps → Patch.Apart w b := fun hw a b hab =>
    hw.apart (hps.blank a b hab).mask (hps.blank a b hab).digits
  have hnonempty : ∀ {w}, Figures t w → w ≠ [] := fun hw => by
    obtain ⟨w', d, rfl, -⟩ := hw.last
    simp
  refine ⟨fun l k v q a e us b hsplit hk hv hq hword hb => ?_, fun w hw hin => ?_⟩
  · have hkey := keyWord_of_nameKey hf hk
    have hlead := lead_of_keyWord hkey hv
    have hfig := figures_of_phoneWord hword
    obtain ⟨c, k', rfl⟩ := hkey.head
    obtain ⟨l', ql, hql, hold, hrest⟩ :=
      Patch.word_of_patched (by simp) (fun a b hab => hlead.apart (hps.blank a b hab).mask) hsplit
    cases ql with
    | nil => cases hrest
    | cons p ql =>
        cases p with
        | replaced a b =>
            obtain ⟨y, b', rfl, hy⟩ := (hps.blank a b (hql.subset List.mem_cons_self)).mask.head
            obtain ⟨rfl, -⟩ := List.cons.inj hrest
            exact absurd hq hy
        | kept y =>
            obtain ⟨rfl, hvalue⟩ := List.cons.inj hrest
            obtain ⟨a', qb, hqb, hold', rfl⟩ := Patch.word_of_patched (hnonempty hfig)
              (fun a b hab => hfigures hfig a b (hql.subset (List.mem_cons_of_mem _ hab))) hvalue.symm
            refine h.lines l' (c :: k') v q a' e us (qb.flatMap Patch.old) ?_ hk hv hq hword ?_
            · rw [hold, List.flatMap_cons, hold']
              rfl
            -- The number ends with a digit, so the quote is none that stands directly before a mask.
            · obtain ⟨ps₁, rfl⟩ := hqb.trans ((List.suffix_cons _ _).trans hql)
              obtain ⟨w', d, hlast, hd⟩ := hfig.last
              have hnew : ps₁.flatMap Patch.new = (l ++ ((c :: k' ++ v) ++ q :: a)) ++ (w' ++ [d]) := by
                rw [List.flatMap_append, hlast] at hsplit
                exact List.append_cancel_right (hsplit.trans (by simp))
              refine hps.quotes ps₁ qb q rfl hq (fun hend => ?_) hb
              rw [hnew, ← List.append_assoc, List.getLast?_concat] at hend
              obtain rfl := Option.some.inj hend
              have hno : t.isDigit d = false := by
                rcases hq with rfl | rfl <;> exact not_isDigit_of (by decide) (by decide)
              rw [hd] at hno
              cases hno
  · have hfig := figures_of_longNumber hw
    exact h.numbers w hw (Patch.infix_of_patched (hnonempty hfig) (hfigures hfig) hin)

/-! ## The passes -/

/-- The placeholder of a secret, with the closing quote or without. -/
def Placeholder (b : Text) : Prop := b = redacted ∨ ∃ q, (q = '"' ∨ q = '\'') ∧ b = redacted ++ [q]

end Masks

/-! ## The condition -/

/-- What a text needs for all its masks to stay: every value of a secret key is in quotes, no two addresses share a
domain, no number between the opening quote of a name and another quote has a line break, and no number is followed
by seven digits more. -/
structure Settling (t : CharTables) (s : Text) : Prop where
  secrets : valuesQuoted t s = true
  domains : ¬ SharesDomain s
  names : ∀ l k v q a w b, s = l ++ ((k ++ v) ++ q :: (a ++ (w ++ b))) → (nameKey t).Matches k →
    (separator t).Matches v → (q = '"' ∨ q = '\'') → (phoneRe t).Matches w → q ∈ b → '\n' ∉ w
  numbers : (longNumberRe t).search s = false

section Twice
variable {t : CharTables} {s text : Text}

theorem phoneRe_of_word {e : Char} {us : List Text} (h : PhoneWord t [] e us) :
    (phoneRe t).Matches (e :: us.flatten) := by
  obtain ⟨d, hd, hread⟩ := phone_way (c := .start (e :: us.flatten)) (r := []) h (by simp [Cursor.start]) rfl rfl
  obtain ⟨w, hw, hread'⟩ := ways_sound hd
  obtain rfl : e :: us.flatten = w := List.append_cancel_right (hread.rest.symm.trans hread'.rest)
  exact hw

theorem Settling.calm (h : Settling t s) : Calm t s where
  lines l k v q a _ _ b hsplit hk hv hq hword hb :=
    h.names l k v q a _ b hsplit hk hv hq (phoneRe_of_word hword) hb
  numbers _ hw := longNumber_search h.numbers hw

/-- A text in which no pass but that for secrets finds anything to do, and that one only placeholders. -/
structure Settled (t : CharTables) (text : Text) : Prop where
  secrets : SecretsMasked t text
  bearers : (bearerToken t).Clean text.reverse
  tokens : (jwtToken t).Clean text.reverse
  hashes : (hashToken t).Clean text.reverse
  names : NamesMasked t text
  addresses : emailRe.search text = false
  numbers : maskPhone t text = text

theorem Settled.sanitizeText (hb : OnlyAsciiB t) (hf : FoldsLetters t) (h : Settled t text) :
    sanitizeText t text = text := by
  obtain ⟨ps, hold, hnew, hfields⟩ := secret_again hf h.secrets
  have hbearers := search_of_clean (bearer_recognizes hb)
    (clean_secret_again hf (bearer_sealed hb) (List.cons_ne_nil _ _) h.secrets h.bearers)
  have htokens := search_of_clean jwt_recognizes
    (clean_secret_again hf jwt_sealed (List.cons_ne_nil _ _) h.secrets h.tokens)
  have hhashes := search_of_clean hash_recognizes
    (clean_secret_again hf hash_sealed (List.cons_ne_nil _ _) h.secrets h.hashes)
  have hnames : (nameKvRe t).sub maskNameKv ((secretKvRe t).sub redactSecretKv text) = text := by
    refine Eq.trans (List.flatMap_congr fun p _ => ?_)
      ((names_again hf (scans_pieces (nameKvRe t) _) hold hfields (hnew ▸ h.names)).trans hnew)
    cases p <;> rfl
  have hemail : maskEmail text = text := sub_of_search _ h.addresses
  simp only [FleetManagement.sanitizeText, redactText, sub_of_search _ hbearers, sub_of_search _ htokens,
    sub_of_search _ hhashes, hnames, hemail, h.numbers]

/-- A word that stands in no placeholder. -/
structure Outside (w : Text) : Prop where
  marks : ∀ c ∈ "[]\"'".toList, c ∉ w
  other : ∃ c ∈ w, c ∉ redacted

theorem Outside.apart {w b : Text} (h : Outside w) (hb : Placeholder b) : Patch.Apart w b := by
  obtain ⟨c, hc, hother⟩ := h.other
  rcases hb with rfl | ⟨q, hq, rfl⟩
  · exact .of_ends (y := '[') (z := ']') rfl (by decide) (h.marks _ (by decide)) (h.marks _ (by decide))
      fun hin => hother (hin.subset hc)
  · have hmark : q ∈ "[]\"'".toList := by rcases hq with rfl | rfl <;> decide
    refine .of_ends (y := '[') (z := q) rfl List.getLast?_concat (h.marks _ (by decide)) (h.marks q hmark) fun hin => ?_
    rcases List.mem_append.mp (hin.subset hc) with hmem | hmem
    · exact hother hmem
    · exact h.marks q hmark (List.mem_singleton.mp hmem ▸ hc)

end Twice

/-- Shared domains, a number with digits after it, and a line break of a number within a name. -/
example : ∀ s ∈ ["a@b.c@d.e".toList, "123456789-1234567".toList, "full_name=\"+380\n501112233\"".toList],
    sanitizeText asciiTables (sanitizeText asciiTables s) ≠ sanitizeText asciiTables s := by
  decide +kernel

end FleetManagement
