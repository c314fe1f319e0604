import FleetManagement.Library.Regex

/-!
# Scans for matches

What a scan for leftmost matches that do not overlap keeps and replaces.
-/

namespace Regex

variable {α : Type} [DecidableEq α]

/-! ## The pieces of a scan -/

/-- The pieces of a scan from `c`: no match begins at a character that is kept, and a hit is the preferred
match where it begins. -/
inductive Scans (r : Regex α) : Cursor α → List (Piece α) → Prop
  | done {c : Cursor α} (h : c.rest = []) : Scans r c []
  | kept {c : Cursor α} {x : α} {ps : List (Piece α)} (hx : [x] <+: c.rest)
      (hno : ∀ d, (r.ways { c with groups := [] }).head? = some d → c.rest.length ≤ d.rest.length)
      (h : Scans r (c.advance [x]) ps) : Scans r c (.kept x :: ps)
  | hit {c d : Cursor α} {w : List α} {ps : List (Piece α)}
      (hd : (r.ways { c with groups := [] }).head? = some d) (hread : Reads c d w) (hw : w ≠ [])
      (h : Scans r d ps) : Scans r c (.hit ⟨w, d.groups⟩ :: ps)

theorem scans_scan (r : Regex α) {n : Nat} {c : Cursor α} (h : c.rest.length ≤ n) :
    Scans r c (r.scan n c) := by
  induction n generalizing c with
  | zero => exact .done (List.length_eq_zero_iff.mp (Nat.le_zero.mp h))
  | succ n ih =>
      unfold scan
      split
      · rename_i hrest; exact .done hrest
      · rename_i x rest hrest
        have hx : [x] <+: c.rest := ⟨rest, hrest.symm⟩
        have hstep : (c.advance [x]).rest.length ≤ n := by
          simp only [Cursor.advance, hrest, List.length_cons, List.length_drop, List.length_nil] at h ⊢
          omega
        split
        · rename_i d hd
          obtain ⟨w, -, hread⟩ := ways_sound (List.mem_of_mem_head? hd)
          have hread : Reads c d w := ⟨hread.rest, hread.before⟩
          split
          · rename_i hlt
            rw [hread.upTo]
            refine .hit hd hread ?_ (ih (by omega))
            rintro rfl
            rw [hread.rest] at hlt
            simp at hlt
          · rename_i hlt
            refine .kept hx (fun d' hd' => ?_) (ih hstep)
            rw [hd] at hd'
            cases hd'
            omega
        · rename_i hnone
          refine .kept hx (fun d hd => ?_) (ih hstep)
          rw [hnone] at hd
          cases hd

theorem scans_pieces (r : Regex α) (text : List α) : Scans r (.start text) (r.pieces text) :=
  scans_scan r le_rfl

section Scanning
variable {r : Regex α} {c d : Cursor α} {ps : List (Piece α)}

/-- The pieces make up the text. -/
theorem Scans.text (h : Scans r c ps) : ps.flatMap Piece.text = c.rest := by
  induction h with
  | done h => exact h.symm
  | kept hx _ _ ih =>
      obtain ⟨rest, hrest⟩ := hx
      simp only [List.flatMap_cons, Piece.text, ih, Cursor.advance, ← hrest, List.length_singleton,
        List.singleton_append, List.drop_succ_cons, List.drop_zero]
  | hit _ hread _ _ ih => simp only [List.flatMap_cons, Piece.text, ih, hread.rest]

/-- A hit reads a word of the pattern. -/
theorem Scans.matches_of_hit (h : Scans r c ps) {m : Match α} (hm : .hit m ∈ ps) : r.Matches m.text := by
  induction h with
  | done h => cases hm
  | kept _ _ _ ih =>
      rcases List.mem_cons.mp hm with hm | hm
      · cases hm
      · exact ih hm
  | @hit c d w ps hd hread _ _ ih =>
      rcases List.mem_cons.mp hm with hm | hm
      · cases hm
        obtain ⟨w', hw', hread'⟩ := ways_sound (List.mem_of_mem_head? hd)
        have hsame : w = w' := List.append_cancel_right (hread.rest.symm.trans hread'.rest)
        exact hsame ▸ hw'
      · exact ih hm

theorem sub_of_no_hit (f : Match α → List α) {text : List α} (hno : ∀ m, .hit m ∉ r.pieces text) :
    r.sub f text = text := by
  refine Eq.trans (List.flatMap_congr fun piece hpiece => ?_) (scans_pieces r text).text
  cases piece with
  | kept x => rfl
  | hit m => exact absurd hpiece (hno m)

/-- Where no word of the pattern stands, nothing is replaced. -/
theorem sub_of_no_word (f : Match α → List α) {text : List α}
    (hno : ∀ w, w <:+: text → ¬ r.Matches w) : r.sub f text = text := by
  have hscan := scans_pieces r text
  refine sub_of_no_hit f fun m hm => hno m.text ?_ (hscan.matches_of_hit hm)
  obtain ⟨before, after, hsplit⟩ := List.mem_iff_append.mp hm
  have htext := hscan.text
  rw [hsplit, List.flatMap_append, List.flatMap_cons] at htext
  exact ⟨_, _, (List.append_assoc ..).trans htext⟩

/-- Where every word of the pattern needs a character that the text does not have, nothing is replaced. -/
theorem sub_of_needs {p : α → Prop} (hr : r.Needs p) (f : Match α → List α) {text : List α}
    (htext : ∀ x ∈ text, ¬ p x) : r.sub f text = text := by
  refine sub_of_no_word f fun w hpart hw => ?_
  obtain ⟨x, hx, hp⟩ := hw.exists_of_needs hr
  exact htext x (hpart.subset hx) hp

omit [DecidableEq α] in
/-- The length of the shortest words. -/
def minLength : Regex α → Nat
  | .eps | .assert _ | .backref _ => 0
  | .one _ => 1
  | .seq r s => r.minLength + s.minLength
  | .alt r s => Nat.min r.minLength s.minLength
  | .rep r min _ _ => min * r.minLength
  | .group _ r => r.minLength

omit [DecidableEq α] in
theorem length_flatten_ge {n : Nat} {us : List (List α)} (h : ∀ u ∈ us, n ≤ u.length) :
    us.length * n ≤ us.flatten.length := by
  induction us with
  | nil => simp
  | cons u us ih =>
      obtain ⟨hu, hus⟩ := List.forall_mem_cons.mp h
      have := ih hus
      rw [List.flatten_cons, List.length_append, List.length_cons, Nat.succ_mul]
      omega

omit [DecidableEq α] in
theorem Matches.minLength_le {r : Regex α} {w : List α} (h : r.Matches w) : r.minLength ≤ w.length := by
  induction r generalizing w with
  | eps | assert | backref => exact Nat.zero_le _
  | one p =>
      obtain ⟨x, -, rfl⟩ := h
      exact le_rfl
  | seq r s ihr ihs =>
      obtain ⟨u, v, hu, hv, rfl⟩ := h
      rw [List.length_append]
      exact Nat.add_le_add (ihr hu) (ihs hv)
  | alt r s ihr ihs =>
      rcases h with h | h
      · exact (Nat.min_le_left ..).trans (ihr h)
      · exact (Nat.min_le_right ..).trans (ihs h)
  | rep r min max greedy ih =>
      obtain ⟨us, hmin, -, hus, rfl⟩ := h
      exact (Nat.mul_le_mul_right _ hmin).trans (length_flatten_ge fun u hu => ih (hus u hu))
  | group name r ih => exact ih h

/-- A hit of a scan is the preferred match where it begins. -/
theorem Scans.exists_of_hit (h : Scans r c ps) {m : Match α} (hm : .hit m ∈ ps) : ∃ c' d,
    (r.ways { c' with groups := [] }).head? = some d ∧ Reads c' d m.text ∧ m.groups = d.groups := by
  induction h with
  | done h => cases hm
  | kept _ _ _ ih =>
      rcases List.mem_cons.mp hm with hm | hm
      · cases hm
      · exact ih hm
  | @hit c d w ps hd hread _ _ ih =>
      rcases List.mem_cons.mp hm with hm | hm
      · cases hm
        exact ⟨c, d, hd, hread, rfl⟩
      · exact ih hm

/-- Replacing leaves a text as it is, or the text is as long as the words and the result as the outputs. -/
theorem sub_eq_or_length {n : Nat} (f : Match α → List α) (text : List α) (hr : n ≤ r.minLength)
    (hf : ∀ m, .hit m ∈ r.pieces text → n ≤ (f m).length) :
    r.sub f text = text ∨ n ≤ text.length ∧ n ≤ (r.sub f text).length := by
  have hscan := scans_pieces r text
  by_cases hhit : ∃ m, .hit m ∈ r.pieces text
  · obtain ⟨m, hm⟩ := hhit
    obtain ⟨before, after, hsplit⟩ := List.mem_iff_append.mp hm
    have htext : (r.pieces text).flatMap Piece.text = text := hscan.text
    have hword := (hscan.matches_of_hit hm).minLength_le
    have hout := hf m hm
    refine .inr ⟨?_, ?_⟩
    · rw [← htext, hsplit, List.flatMap_append, List.flatMap_cons, List.length_append, List.length_append,
        Piece.text]
      omega
    · unfold sub
      rw [hsplit, List.flatMap_append, List.flatMap_cons, List.length_append, List.length_append]
      dsimp only
      omega
  · exact .inl (sub_of_no_hit f fun m hm => hhit ⟨m, hm⟩)

theorem findsFrom_iff {before rest : List α} : r.findsFrom before rest = true ↔
    ∃ u v, rest = u ++ v ∧ r.ways ⟨u.reverse ++ before, v, []⟩ ≠ [] := by
  induction rest generalizing before with
  | nil =>
      simp only [findsFrom, Bool.not_eq_true', List.isEmpty_eq_false_iff, List.nil_eq_append_iff]
      constructor
      · intro h; exact ⟨[], [], ⟨rfl, rfl⟩, h⟩
      · rintro ⟨u, v, ⟨rfl, rfl⟩, h⟩; exact h
  | cons x rest ih =>
      simp only [findsFrom, Bool.or_eq_true, Bool.not_eq_true', List.isEmpty_eq_false_iff, ih]
      constructor
      · rintro (h | ⟨u, v, rfl, h⟩)
        · exact ⟨[], x :: rest, rfl, h⟩
        · exact ⟨x :: u, v, rfl, by simpa using h⟩
      · rintro ⟨u, v, hsplit, h⟩
        cases u with
        | nil => cases hsplit; exact Or.inl h
        | cons y u =>
            cases hsplit
            exact Or.inr ⟨u, v, rfl, by simpa using h⟩

theorem Scans.findsFrom_of_hit (h : Scans r c ps) {m : Match α} (hm : .hit m ∈ ps) :
    r.findsFrom c.before c.rest = true := by
  induction h with
  | done h => cases hm
  | @kept c x ps hx _ _ ih =>
      obtain ⟨rest, hrest⟩ := hx
      have hlater := ih ((List.mem_cons.mp hm).resolve_left nofun)
      rw [← hrest]
      simp only [Cursor.advance, ← hrest, List.reverse_singleton, List.singleton_append, List.length_singleton,
        List.drop_succ_cons, List.drop_zero] at hlater
      simp [findsFrom, hlater]
  | @hit c d w ps hd hread hw _ _ =>
      obtain ⟨x, w', rfl⟩ := List.exists_cons_of_ne_nil hw
      have hne := List.ne_nil_of_mem (List.mem_of_mem_head? hd)
      rw [hread.rest, List.cons_append] at hne ⊢
      simp [findsFrom, hne]

/-- Where a search finds nothing, nothing is replaced. -/
theorem sub_of_search (f : Match α → List α) {text : List α} (h : r.search text = false) : r.sub f text = text :=
  sub_of_no_hit f fun _ hm =>
    Bool.false_ne_true (h.symm.trans ((scans_pieces r text).findsFrom_of_hit hm))

/-- Where the pattern is plain, a search finds a match if and only if a word stands in the text. -/
theorem search_iff (hr : r.Plain) {text : List α} :
    r.search text = true ↔ ∃ u w v, text = u ++ (w ++ v) ∧ r.Matches w := by
  unfold search
  rw [findsFrom_iff]
  constructor
  · rintro ⟨u, v, rfl, hne⟩
    obtain ⟨d, hd⟩ := List.exists_mem_of_ne_nil _ hne
    obtain ⟨w, hw, hread⟩ := ways_sound hd
    exact ⟨u, w, d.rest, by rw [← hread.rest], hw⟩
  · rintro ⟨u, w, v, rfl, hw⟩
    refine ⟨u, w ++ v, rfl, ?_⟩
    obtain ⟨d, hd, -⟩ := ways_complete hr (c := ⟨u.reverse ++ [], w ++ v, []⟩) hw (List.prefix_append w v)
    exact List.ne_nil_of_mem hd

end Scanning

/-! ## Contexts -/

section Contexts
variable {E : Option α → Option α → Prop} (hE : ∀ a, E a a) {c d : Cursor α}
include hE

/-- A scan goes on in the same way from positions that the pattern does not tell apart. -/
theorem Scans.alike {r : Regex α} (hr : r.Respects E) {ps : List (Piece α)} (hs : Scans r c ps)
    (hrest : c.rest = d.rest) (hbefore : E c.before.head? d.before.head?) : Scans r d ps := by
  induction hs generalizing d with
  | done h => exact .done (hrest ▸ h)
  | @kept c x ps hx hno _ ih =>
      have hways := forall₂_head? (ways_alike hE hr
        (⟨hrest, rfl, hbefore⟩ : Alike E { c with groups := [] } { d with groups := [] }))
      refine .kept (hrest ▸ hx) (fun e he => ?_) (ih ?_ ?_)
      · rw [he] at hways
        generalize hfound : (r.ways { c with groups := [] }).head? = found at hways
        cases hways with
        | some hlike =>
            rw [← hrest, ← hlike.rest]
            exact hno _ hfound
      · simp only [Cursor.advance, hrest]
      · exact hE _
  | @hit c e w ps he hread hw _ ih =>
      have hways := forall₂_head? (ways_alike hE hr
        (⟨hrest, rfl, hbefore⟩ : Alike E { c with groups := [] } { d with groups := [] }))
      rw [he] at hways
      generalize hfound : (r.ways { d with groups := [] }).head? = found at hways
      cases hways with
      | @some _ e' hlike =>
          have hsplit : d.rest = w ++ e'.rest := by rw [← hrest, hread.rest, hlike.rest]
          obtain ⟨w', -, hread'⟩ := ways_sound (List.mem_of_mem_head? hfound)
          have hsame : w = w' := List.append_cancel_right (hsplit.symm.trans hread'.rest)
          subst hsame
          rw [hlike.groups]
          exact .hit hfound ⟨hread'.rest, hread'.before⟩ hw (ih hlike.rest hlike.before)

end Contexts

/-- The pieces of a scan are determined. -/
theorem Scans.unique {r : Regex α} {c : Cursor α} {ps qs : List (Piece α)} (h : Scans r c ps)
    (h' : Scans r c qs) : ps = qs := by
  induction h generalizing qs with
  | done hrest =>
      cases h' with
      | done => rfl
      | kept hx => rw [hrest] at hx; simp at hx
      | hit _ hread hw =>
          have := hread.rest
          rw [hrest] at this
          exact absurd (List.append_eq_nil_iff.mp this.symm).1 hw
  | @kept c x ps hx hno _ ih =>
      cases h' with
      | done hrest => rw [hrest] at hx; simp at hx
      | @kept _ y _ hy _ h' =>
          obtain ⟨u, hu⟩ := hx
          obtain ⟨v, hv⟩ := hy
          obtain ⟨rfl, -⟩ := List.cons.inj (hu.trans hv.symm)
          rw [ih h']
      | hit hd hread hw =>
          have hlt := hno _ hd
          have hlength := congrArg List.length hread.rest
          have hpos := List.length_pos_of_ne_nil hw
          rw [List.length_append] at hlength
          omega
  | @hit c d w ps hd hread hw _ ih =>
      cases h' with
      | done hrest =>
          have := hread.rest
          rw [hrest] at this
          exact absurd (List.append_eq_nil_iff.mp this.symm).1 hw
      | kept _ hno =>
          have hlt := hno _ hd
          have hlength := congrArg List.length hread.rest
          have hpos := List.length_pos_of_ne_nil hw
          rw [List.length_append] at hlength
          omega
      | @hit _ d' w' _ hd' hread' _ h' =>
          obtain rfl := Option.some.inj (hd.symm.trans hd')
          obtain rfl : w = w' := List.append_cancel_right (hread.rest.symm.trans hread'.rest)
          rw [ih h']

/-! ## Parts of a scan -/

/-- A scan splits where its pieces do. -/
theorem Scans.split {r : Regex α} {c : Cursor α} {ps qs : List (Piece α)} (h : Scans r c (ps ++ qs)) :
    ∃ d, Reads c d (ps.flatMap Piece.text) ∧ Scans r d qs := by
  induction ps generalizing c with
  | nil => exact ⟨c, reads_nil c, h⟩
  | cons p ps ih =>
      cases h with
      | @kept _ x _ hx _ h =>
          obtain ⟨d, hread, hd⟩ := ih h
          exact ⟨d, (reads_advance hx).trans hread, hd⟩
      | hit _ hread _ h =>
          obtain ⟨d, hread', hd⟩ := ih h
          exact ⟨d, hread.trans hread', hd⟩

omit [DecidableEq α] in
/-- A character of the output stands in the output of one piece. -/
theorem split_flatMap {β : Type} {g : β → List α} {ps : List β} {left right : List α} {x : α}
    (h : ps.flatMap g = left ++ x :: right) : ∃ qs p rs l r, ps = qs ++ p :: rs ∧ g p = l ++ x :: r ∧
      left = qs.flatMap g ++ l ∧ right = r ++ rs.flatMap g := by
  induction ps generalizing left with
  | nil => simp at h
  | cons p ps ih =>
      rw [List.flatMap_cons] at h
      rcases List.append_eq_append_iff.mp h with ⟨l, rfl, hrest⟩ | ⟨l, hp, hrest⟩
      · obtain ⟨qs, q, rs, l', r, rfl, hq, rfl, rfl⟩ := ih hrest
        exact ⟨p :: qs, q, rs, l', r, rfl, hq, by simp, rfl⟩
      · cases l with
        | nil =>
            obtain ⟨qs, q, rs, l', r, rfl, hq, hl, rfl⟩ := ih (show _ = [] ++ x :: right from hrest.symm)
            refine ⟨p :: qs, q, rs, l', r, rfl, hq, ?_, rfl⟩
            simp only [List.append_nil] at hp
            rw [List.flatMap_cons, List.append_assoc, ← hl, List.append_nil, hp]
        | cons y l =>
            obtain ⟨rfl, rfl⟩ := List.cons.inj hrest
            exact ⟨[], p, ps, left, l, rfl, hp, by simp, rfl⟩

section Preferred
variable {r : Regex α} {c : Cursor α}

/-- Characters at which no match begins are kept. -/
theorem scans_kept {text : List α} {ps : List (Piece α)}
    (hno : ∀ u v, text = u ++ v → v ≠ [] → r.ways { c.advance u with groups := [] } = [])
    (hrest : text <+: c.rest) (h : Scans r (c.advance text) ps) : Scans r c (text.map .kept ++ ps) := by
  induction text generalizing c with
  | nil => exact h
  | cons x text ih =>
      have hx : [x] <+: c.rest := (List.prefix_append [x] text).trans hrest
      have hnow : r.ways { c with groups := [] } = [] := hno [] (x :: text) rfl (List.cons_ne_nil x text)
      refine .kept hx (fun d hd => ?_) (ih (fun u v hsplit hv => ?_) ?_ ?_)
      · rw [hnow] at hd; cases hd
      · rw [advance_append]
        exact hno (x :: u) v (by rw [hsplit]; rfl) hv
      · obtain ⟨rest, hrest⟩ := hrest
        have hafter : (c.advance [x]).rest = text ++ rest := rest_advance hrest.symm
        exact ⟨rest, hafter.symm⟩
      · rw [advance_append]; exact h

end Preferred

/-! ## Scans for words that are not empty -/

section Steps
variable {r : Regex α} {c : Cursor α} {ps : List (Piece α)}

/-- One step of a scan: the text ends, or a character is kept where no match begins, or the preferred match is
taken. -/
inductive ScanStep (r : Regex α) (c : Cursor α) : List (Piece α) → Prop
  | done (h : c.rest = []) : ScanStep r c []
  | kept {x : α} {rest : List α} {ps : List (Piece α)} (hx : c.rest = x :: rest)
      (hno : (r.ways { c with groups := [] }).head? = none) (h : Scans r (c.advance [x]) ps) :
      ScanStep r c (.kept x :: ps)
  | hit {d : Cursor α} {w : List α} {ps : List (Piece α)}
      (hd : (r.ways { c with groups := [] }).head? = some d) (hread : Reads c d w) (hw : w ≠ [])
      (h : Scans r d ps) : ScanStep r c (.hit ⟨w, d.groups⟩ :: ps)

theorem Scans.step (hr : ¬ r.Matches []) (h : Scans r c ps) : ScanStep r c ps := by
  cases h with
  | done h => exact .done h
  | kept hx hno h =>
      obtain ⟨rest, hrest⟩ := hx
      refine .kept hrest.symm ?_ h
      cases hd : (r.ways { c with groups := [] }).head? with
      | none => rfl
      | some d =>
          obtain ⟨w, hw, hread⟩ := ways_sound (List.mem_of_mem_head? hd)
          have hle := hno d hd
          have hlength := congrArg List.length hread.rest
          have hpos := List.length_pos_of_ne_nil fun hnil : w = [] => hr (hnil ▸ hw)
          simp only [List.length_append] at hlength
          omega
  | hit hd hread hw h => exact .hit hd hread hw h

theorem Scans.ways_nil_of_kept (hr : ¬ r.Matches []) {x : α} (h : Scans r c (.kept x :: ps)) :
    r.ways { c with groups := [] } = [] := by
  cases h.step hr with
  | kept _ hnone _ => exact List.head?_eq_none_iff.mp hnone

/-- Scans of equal rests have equal pieces, where the pattern has no assertion about what stands before. -/
theorem Scans.of_rest {d : Cursor α} {qs : List (Piece α)} (hr : r.Respects fun _ _ => True)
    (h : Scans r c ps) (h' : Scans r d qs) (hrest : c.rest = d.rest) : ps = qs :=
  (h.alike (fun _ => trivial) hr hrest trivial).unique h'

end Steps

/-! ## Blocks that no match covers -/

section Blocks
variable {r : Regex α} {c : Cursor α} {ps : List (Piece α)}

/-- No match begins inside the block, and one that begins before it ends inside it or before. -/
structure Blocks (r : Regex α) (b : List α) : Prop where
  nonempty : ¬ r.Matches []
  begins : ∀ s, s <:+ b → s ≠ [] → ∀ (c : Cursor α) rest, c.rest = s ++ rest → (r.ways c).head? = none
  ends : ∀ (c d : Cursor α) u w rest, (r.ways c).head? = some d → u ≠ [] → c.rest = u ++ (b ++ rest) →
    Reads c d w → w.length ≤ u.length + b.length

theorem Scans.kept_prefix (hr : ¬ r.Matches []) {text rest : List α}
    (hno : ∀ v, v <:+ text → v ≠ [] → ∀ c : Cursor α, c.rest = v ++ rest → (r.ways c).head? = none)
    (hc : c.rest = text ++ rest) (h : Scans r c ps) : ∃ qs, ps = text.map .kept ++ qs := by
  induction text generalizing c ps with
  | nil => exact ⟨ps, rfl⟩
  | cons x text ih =>
      have hnow := hno (x :: text) List.suffix_rfl (List.cons_ne_nil x text) { c with groups := [] } hc
      cases h.step hr with
      | done hnil => rw [hc] at hnil; cases hnil
      | @kept y rest' ps hy _ hlater =>
          obtain ⟨rfl, -⟩ := List.cons.inj (hy.symm.trans hc)
          obtain ⟨qs, rfl⟩ := ih (c := c.advance [y]) (fun v hv => hno v (hv.trans (List.suffix_cons _ _)))
            (rest_advance (w := [y]) hc) hlater
          exact ⟨qs, rfl⟩
      | hit hd => rw [hnow] at hd; cases hd

variable {b : List α}

/-- No match begins in a part of a block and the blocks after it. -/
theorem Blocks.begins_blocks (hb : Blocks r b) {s : List α} (hs : s <:+ b) {n : Nat} {rest : List α} :
    ∀ v, v <:+ s ++ (List.replicate n b).flatten → v ≠ [] → ∀ c : Cursor α, c.rest = v ++ rest →
      (r.ways c).head? = none := by
  induction n generalizing s with
  | zero =>
      intro v hv hne c hc
      simp only [List.replicate_zero, List.flatten_nil, List.append_nil] at hv
      exact hb.begins v (hv.trans hs) hne c rest hc
  | succ n ih =>
      rintro v ⟨f, hf⟩ hne c hc
      rcases List.append_eq_append_iff.mp hf with ⟨a, rfl, rfl⟩ | ⟨a, rfl, ha⟩
      · cases a with
        | nil =>
            refine ih (s := b) List.suffix_rfl _ ?_ hne c hc
            rw [List.replicate_succ, List.flatten_cons]
            exact List.suffix_rfl
        | cons x a =>
            refine hb.begins (x :: a) ?_ (List.cons_ne_nil x a) c
              ((List.replicate (n + 1) b).flatten ++ rest) (by rw [hc, List.append_assoc])
            exact (List.suffix_append f (x :: a)).trans hs
      · refine ih (s := b) List.suffix_rfl v ?_ hne c hc
        rw [List.replicate_succ, List.flatten_cons] at ha
        exact ⟨a, ha.symm⟩

/-- A scan keeps all blocks but the first. -/
theorem Scans.keeps_blocks (hb : Blocks r b) (h : Scans r c ps) (pre post : List α) (n : Nat)
    (hc : c.rest = pre ++ ((List.replicate (n + 1) b).flatten ++ post)) :
    ∃ qs rs, ps = qs ++ ((List.replicate n b).flatten.map .kept ++ rs) := by
  have hkept : ∀ {c : Cursor α} {ps : List (Piece α)} {s : List α}, s <:+ b →
      c.rest = s ++ ((List.replicate n b).flatten ++ post) → Scans r c ps →
      ∃ qs rs, ps = qs ++ ((List.replicate n b).flatten.map .kept ++ rs) := fun {c ps s} hs hc h => by
    obtain ⟨rs, rfl⟩ := h.kept_prefix hb.nonempty (hb.begins_blocks hs) (by rw [hc, List.append_assoc])
    exact ⟨s.map .kept, rs, by simp⟩
  induction h generalizing pre with
  | done hnil =>
      rw [hc] at hnil
      have hblocks := (List.append_eq_nil_iff.mp (List.append_eq_nil_iff.mp hnil).2).1
      rw [List.replicate_succ, List.flatten_cons] at hblocks
      exact ⟨[], [], by rw [(List.append_eq_nil_iff.mp hblocks).2]; rfl⟩
  | @kept c x ps hx hno h ih =>
      cases pre with
      | nil =>
          refine hkept List.suffix_rfl ?_ (.kept hx hno h)
          rw [hc, List.replicate_succ]
          simp
      | cons y pre =>
          obtain ⟨qs, rs, rfl⟩ := ih pre (by
            obtain ⟨rest, hrest⟩ := hx
            obtain ⟨rfl, -⟩ := List.cons.inj (hrest.trans hc)
            exact rest_advance (w := [_]) hc)
          exact ⟨.kept x :: qs, rs, rfl⟩
  | @hit c d w ps hd hread hw h ih =>
      cases hpre : pre with
      | nil =>
          refine hkept List.suffix_rfl ?_ (.hit hd hread hw h)
          rw [hc, hpre, List.replicate_succ]
          simp
      | cons y pre' =>
          have hsplit : w ++ d.rest = pre ++ (b ++ ((List.replicate n b).flatten ++ post)) := by
            rw [← hread.rest, hc, List.replicate_succ]
            simp
          rcases List.append_eq_append_iff.mp hsplit with ⟨a, rfl, ha⟩ | ⟨a, rfl, ha⟩
          · obtain ⟨qs, rs, rfl⟩ := ih a (by rw [ha, List.replicate_succ]; simp)
            exact ⟨.hit ⟨w, d.groups⟩ :: qs, rs, rfl⟩
          · have hle := hb.ends _ d pre _ ((List.replicate n b).flatten ++ post) hd (by rw [hpre]; simp)
              (by rw [show Cursor.rest { c with groups := [] } = c.rest from rfl, hc, List.replicate_succ]; simp)
              ⟨hread.rest, hread.before⟩
            rw [List.length_append] at hle
            have hprefix : a <+: b :=
              List.prefix_of_prefix_length_le ⟨d.rest, ha.symm⟩ (List.prefix_append ..) (by omega)
            obtain ⟨s, rfl⟩ := hprefix
            rw [List.append_assoc] at ha
            obtain ⟨qs, rs, rfl⟩ := hkept (List.suffix_append a s) (List.append_cancel_left ha).symm h
            exact ⟨.hit ⟨pre ++ a, d.groups⟩ :: qs, rs, rfl⟩

/-- Replacing the matches leaves all blocks but the first. -/
theorem sub_keeps_blocks (hb : Blocks r b) (f : Match α → List α) (pre post : List α) (n : Nat) :
    ∃ pre' post', r.sub f (pre ++ ((List.replicate (n + 1) b).flatten ++ post)) =
      pre' ++ ((List.replicate n b).flatten ++ post') := by
  obtain ⟨qs, rs, hsplit⟩ := (scans_pieces r (pre ++ ((List.replicate (n + 1) b).flatten ++ post))).keeps_blocks
    hb pre post n rfl
  have hkept : ∀ (g : Piece α → List α), (∀ x, g (.kept x) = [x]) →
      (qs ++ ((List.replicate n b).flatten.map Piece.kept ++ rs)).flatMap g =
        qs.flatMap g ++ ((List.replicate n b).flatten ++ rs.flatMap g) := fun g hg => by
    rw [List.flatMap_append, List.flatMap_append, List.flatMap_map]
    simp only [hg, List.flatMap_singleton']
  exact ⟨_, _, (congrArg _ hsplit).trans (hkept _ fun _ => rfl)⟩

end Blocks

end Regex
