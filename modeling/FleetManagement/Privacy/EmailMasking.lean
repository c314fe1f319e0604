import FleetManagement.Privacy.PhoneWords

/-!
# Addresses in masked text

A scan for addresses leaves the local part of each match masked. An `@` that directly follows a match can
still stand between the domain of that match and a domain of its own, and then an address is left.
-/

namespace FleetManagement

open Regex

/-! ## Where a domain begins -/

inductive DomainState where
  | first | label | dot
  deriving DecidableEq, Repr

/-- Reads a label, a dot and one more character of a label. -/
def readsDomain : DomainState → Text → Bool
  | _, [] => false
  | .first, c :: rest => isLabel c && readsDomain .label rest
  | .label, c :: rest => if isLabel c then readsDomain .label rest else c == '.' && readsDomain .dot rest
  | .dot, c :: _ => isLabel c

def startsDomain (text : Text) : Bool := readsDomain .first text

section Characters

theorem isLocal_of_isLabel {c : Char} (h : isLabel c) : isLocal c := by
  simp only [isLabel, Bool.or_eq_true, beq_iff_eq] at h
  rcases h with (h | h) | rfl
  · simp [isLocal, h]
  · simp [isLocal, h]
  · decide

theorem not_isLabel_dot : isLabel '.' = false := by decide

end Characters

theorem readsDomain_label {label rest : Text} (h : ∀ c ∈ label, isLabel c) :
    readsDomain .label (label ++ rest) = readsDomain .label rest := by
  induction label with
  | nil => rfl
  | cons c label ih =>
      obtain ⟨hc, hlabel⟩ := List.forall_mem_cons.mp h
      rw [List.cons_append, readsDomain, if_pos hc, ih hlabel]

theorem readsDomain_label_iff {text : Text} : readsDomain .label text = true ↔
    ∃ label d rest, (∀ c ∈ label, isLabel c) ∧ isLabel d ∧ text = label ++ '.' :: d :: rest := by
  constructor
  · intro h
    induction text with
    | nil => cases h
    | cons c text ih =>
        rw [readsDomain] at h
        split at h
        · rename_i hc
          obtain ⟨label, d, rest, hlabel, hd, rfl⟩ := ih h
          exact ⟨c :: label, d, rest, List.forall_mem_cons.mpr ⟨hc, hlabel⟩, hd, rfl⟩
        · simp only [Bool.and_eq_true, beq_iff_eq] at h
          obtain ⟨rfl, hdot⟩ := h
          cases text with
          | nil => cases hdot
          | cons d rest => exact ⟨[], d, rest, by simp, hdot, rfl⟩
  · rintro ⟨label, d, rest, hlabel, hd, rfl⟩
    rw [readsDomain_label hlabel, readsDomain, not_isLabel_dot]
    simpa [readsDomain] using hd

theorem startsDomain_iff {text : Text} : startsDomain text = true ↔
    ∃ label d rest, label ≠ [] ∧ (∀ c ∈ label, isLabel c) ∧ isLabel d ∧
      text = label ++ '.' :: d :: rest := by
  constructor
  · intro h
    cases text with
    | nil => cases h
    | cons c text =>
        simp only [startsDomain, readsDomain, Bool.and_eq_true] at h
        obtain ⟨label, d, rest, hlabel, hd, rfl⟩ := readsDomain_label_iff.mp h.2
        exact ⟨c :: label, d, rest, List.cons_ne_nil c label, List.forall_mem_cons.mpr ⟨h.1, hlabel⟩, hd, rfl⟩
  · rintro ⟨label, d, rest, hne, hlabel, hd, rfl⟩
    cases label with
    | nil => exact absurd rfl hne
    | cons c label =>
        obtain ⟨hc, hlabel⟩ := List.forall_mem_cons.mp hlabel
        simp only [startsDomain, List.cons_append, readsDomain, Bool.and_eq_true]
        exact ⟨hc, readsDomain_label_iff.mpr ⟨label, d, rest, hlabel, hd, rfl⟩⟩

/-! ## What the pattern matches -/

/-- A word of the domain pattern starts a domain, and its characters are dots and characters of labels. -/
structure IsDomain (dom : Text) : Prop where
  starts : ∀ rest, startsDomain (dom ++ rest)
  chars : ∀ c ∈ dom, isLabel c ∨ c = '.'
  last : ∃ init d, dom = init ++ [d] ∧ isLabel d

theorem isDomain_of_matches {dom : Text} (h : domainRe.Matches dom) : IsDomain dom := by
  obtain ⟨label, labels, hlabel, ⟨us, hus, -, hparts, rfl⟩, rfl⟩ := h
  obtain ⟨hne, hlabel⟩ := matches_plus_one.mp hlabel
  have hpart : ∀ u ∈ us, ∃ l, l ≠ [] ∧ (∀ c ∈ l, isLabel c) ∧ u = '.' :: l := by
    intro u hu
    obtain ⟨v, l, hv, hl, rfl⟩ := hparts u hu
    obtain rfl := literal_matches.mp hv
    exact ⟨l, (matches_plus_one.mp hl).1, (matches_plus_one.mp hl).2, rfl⟩
  refine ⟨fun rest => ?_, fun c hc => ?_, ?_⟩
  · cases us with
    | nil => simp at hus
    | cons u us =>
        obtain ⟨l, hl, hall, rfl⟩ := hpart u List.mem_cons_self
        cases l with
        | nil => exact absurd rfl hl
        | cons d l =>
            refine startsDomain_iff.mpr ⟨label, d, l ++ (us.flatten ++ rest), hne, hlabel,
              hall d List.mem_cons_self, ?_⟩
            simp
  · rcases List.mem_append.mp hc with hc | hc
    · exact Or.inl (hlabel c hc)
    · obtain ⟨u, hu, hc⟩ := List.mem_flatten.mp hc
      obtain ⟨l, -, hall, rfl⟩ := hpart u hu
      rcases List.mem_cons.mp hc with rfl | hc
      · exact Or.inr rfl
      · exact Or.inl (hall c hc)
  · rcases List.eq_nil_or_concat us with rfl | ⟨vs, u, rfl⟩
    · simp at hus
    · obtain ⟨l, hl, hall, rfl⟩ := hpart u (by simp)
      rcases List.eq_nil_or_concat l with rfl | ⟨l', d, rfl⟩
      · exact absurd rfl hl
      · exact ⟨label ++ (vs.flatten ++ '.' :: l'), d, by simp, hall d (by simp)⟩

theorem one_plain {p : Char → Bool} : (plus (.one p)).Plain ∧ (star (.one p)).Plain :=
  ⟨⟨trivial, by rintro ⟨x, -, h⟩; cases h⟩, trivial, by rintro ⟨x, -, h⟩; cases h⟩

/-- What a way of the address pattern reads and records. -/
theorem email_ways {c d : Cursor Char} (h : d ∈ emailRe.ways c) : ∃ x l dom,
    Reads c d (x :: (l ++ '@' :: dom)) ∧ isLocal x ∧ (∀ y ∈ l, isLocal y) ∧ domainRe.Matches dom ∧
      d.groups = ("2", dom) :: ("1", [x]) :: c.groups := by
  obtain ⟨e, he, h⟩ := mem_ways_seq.mp h
  obtain ⟨e₁, w, he₁, ⟨x, hx, rfl⟩, hfirst, rfl⟩ := mem_ways_group.mp he
  obtain ⟨e₂, he₂, h⟩ := mem_ways_seq.mp h
  obtain ⟨l, hl, hlocal⟩ := ways_sound he₂
  obtain ⟨e₃, he₃, h⟩ := mem_ways_seq.mp h
  obtain ⟨w, hw, hat⟩ := ways_sound he₃
  obtain rfl := literal_matches.mp hw
  obtain ⟨e₄, dom, he₄, hdom, hdomain, rfl⟩ := mem_ways_group.mp h
  have hstart : Reads c e₂ ([x] ++ l) := hfirst.trans ⟨hlocal.rest, hlocal.before⟩
  have hread := (hstart.trans hat).trans hdomain
  refine ⟨x, l, dom, ⟨?_, ?_⟩, hx, matches_star_one.mp hl, hdom, ?_⟩
  · have hrest := hread.rest
    simpa [Cursor.setGroup] using hrest
  · have hbefore := hread.before
    simpa [Cursor.setGroup] using hbefore
  · have hgroups : e₄.groups = e₁.groups.cons ("1", [x]) := by
      rw [groups_of_noGroups (by simp [domainRe, NoGroups, plus, literal, chain]) he₄,
        groups_of_noGroups (by simp [NoGroups, literal, chain]) he₃,
        groups_of_noGroups (by simp [NoGroups, Regex.star]) he₂]
      rfl
    have hone : e₁.groups = c.groups := groups_of_noGroups (by simp [NoGroups]) he₁
    simp only [Cursor.setGroup, hgroups, hone]

theorem email_word {w : Text} (h : emailRe.Matches w) : ∃ x l dom, w = x :: (l ++ '@' :: dom) ∧
    isLocal x ∧ (∀ y ∈ l, isLocal y) ∧ IsDomain dom := by
  obtain ⟨_, _, ⟨x, hx, rfl⟩, ⟨l, _, hl, ⟨at', dom, hat, hdom, rfl⟩, rfl⟩, rfl⟩ := h
  obtain rfl := literal_matches.mp hat
  exact ⟨x, l, dom, by simp, hx, matches_star_one.mp hl, isDomain_of_matches hdom⟩

/-- What masking makes of a piece of the scan for addresses. -/
def emailOut : Piece Char → Text
  | .kept x => [x]
  | .hit m => m.group "1" ++ "***@".toList ++ m.group "2"

/-- A hit of the scan for addresses. -/
structure EmailHit (m : Match Char) (x : Char) (l dom : Text) : Prop where
  text : m.text = x :: (l ++ '@' :: dom)
  out : emailOut (.hit m) = x :: '*' :: '*' :: '*' :: '@' :: dom
  first : isLocal x
  isLocal : ∀ y ∈ l, FleetManagement.isLocal y
  domain : domainRe.Matches dom

theorem emailHit_of_head {c d : Cursor Char} {w : Text}
    (hd : (emailRe.ways { c with groups := [] }).head? = some d) (hread : Reads c d w) :
    ∃ x l dom, EmailHit ⟨w, d.groups⟩ x l dom := by
  obtain ⟨x, l, dom, hread', hx, hl, hdom, hgroups⟩ := email_ways (List.mem_of_mem_head? hd)
  have hw : w = x :: (l ++ '@' :: dom) := List.append_cancel_right (hread.rest.symm.trans hread'.rest)
  refine ⟨x, l, dom, hw, ?_, hx, hl, hdom⟩
  simp only [emailOut, Match.group, hgroups]
  rfl

theorem emailHit_of_scans {c : Cursor Char} {ps : List (Piece Char)} (h : Scans emailRe c ps) {m : Match Char}
    (hm : .hit m ∈ ps) : ∃ x l dom, EmailHit m x l dom := by
  obtain ⟨c', d, hd, hread, hgroups⟩ := h.exists_of_hit hm
  have hhit := emailHit_of_head hd hread
  rwa [← hgroups] at hhit

section Phones
variable {t : CharTables} {ps : List (Piece Char)}

end Phones

/-! ## Addresses that are left -/

section Addresses
variable (t : CharTables)

theorem email_not_empty : ¬ emailRe.Matches [] := by
  intro h
  obtain ⟨x, l, dom, hw, -⟩ := email_word h
  cases hw

end Addresses

end FleetManagement
