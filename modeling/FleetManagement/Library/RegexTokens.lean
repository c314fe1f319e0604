import FleetManagement.Library.RegexScan

/-!
# Texts without a token

A token is a series of characters and of runs of characters. Reading a text, a token is under way at every
place where it can have begun. While a scan writes its output, no token under way there can be completed by
the input that remains, and so none appears.
-/

namespace Regex

variable {α : Type}

/-- A character, or a run of one or more. -/
structure TokenPart (α : Type) where
  test : α → Bool
  many : Bool

/-- A series of parts, and what may stand before it. -/
structure Token (α : Type) where
  opens : Option α → Bool
  parts : List (TokenPart α)

namespace Token

/-- Which parts are left after a character. -/
inductive Step : List (TokenPart α) → α → List (TokenPart α) → Prop where
  | last {p : TokenPart α} {ps : List (TokenPart α)} {x : α} (hx : p.test x = true) : Step (p :: ps) x ps
  | again {p : TokenPart α} {ps : List (TokenPart α)} {x : α} (hx : p.test x = true) (hmany : p.many = true) :
      Step (p :: ps) x (p :: ps)

/-- The text begins with a word of the parts. -/
inductive Spells : List (TokenPart α) → List α → Prop where
  | done (rest : List α) : Spells [] rest
  | step {ps qs : List (TokenPart α)} {x : α} {rest : List α} (h : Step ps x qs) (hrest : Spells qs rest) :
      Spells ps (x :: rest)

variable (T : Token α)

def StartsAt (before rest : List α) : Prop := T.opens before.head? = true ∧ Spells T.parts rest

/-- The parts that are left of a token under way after a text, which is given from its end. -/
inductive Live : List α → List (TokenPart α) → Prop where
  | first {before : List α} {x : α} {ps : List (TokenPart α)} (h : T.opens before.head? = true)
      (hx : Step T.parts x ps) : Live (x :: before) ps
  | next {before : List α} {x : α} {ps qs : List (TokenPart α)} (h : Live before ps) (hx : Step ps x qs) :
      Live (x :: before) qs

/-- No token ends in the text, which is given from its end. -/
def Clean (out : List α) : Prop := ∀ z, z <:+ out → ¬ T.Live z []

/-- No token begins with the character. -/
def Shuns (x : α) : Prop := ∀ ps, ¬ Step T.parts x ps

/-- No token has the character. -/
def Lacks (x : α) : Prop := ∀ p ∈ T.parts, p.test x = false

/-- No token has ended, and none is under way. -/
structure Idle (out : List α) : Prop where
  clean : T.Clean out
  dead : ∀ ps, ¬ T.Live out ps

/-- The output so far, for what is read and what remains: no token has ended, and the rest of the input
completes none. -/
structure Guarded (out before rest : List α) : Prop where
  clean : T.Clean out
  opens : T.opens out.head? = true → T.opens before.head? = true ∨ ∀ x ∈ rest.head?, T.Shuns x
  live : ∀ ps, T.Live out ps → ¬ Spells ps rest

/-- No token starts in what remains. -/
def Absent (before rest : List α) : Prop := ∀ a b, rest = a ++ b → ¬ T.StartsAt (a.reverse ++ before) b

section Reading
variable {T : Token α} {out before rest w u v : List α} {ps qs : List (TokenPart α)} {p : TokenPart α} {x : α}

/-! ## Words -/

theorem spells_run (hmany : p.many = true) (hne : w ≠ []) (hw : ∀ x ∈ w, p.test x = true)
    (h : Spells qs rest) : Spells (p :: qs) (w ++ rest) := by
  induction w with
  | nil => exact absurd rfl hne
  | cons x w ih =>
      obtain ⟨hx, hw⟩ := List.forall_mem_cons.mp hw
      by_cases hnil : w = []
      · subst hnil
        exact .step (.last hx) h
      · exact .step (.again hx hmany) (ih hnil hw)

theorem exists_run_of_spells (h : Spells (p :: qs) rest) : ∃ w rest', rest = w ++ rest' ∧ w ≠ [] ∧
    (∀ x ∈ w, p.test x = true) ∧ Spells qs rest' := by
  generalize hps : p :: qs = ps at h
  induction h with
  | done => cases hps
  | @step _ _ x rest h hrest ih =>
      cases h with
      | last hx =>
          cases hps
          exact ⟨[x], rest, rfl, List.cons_ne_nil _ _, by simpa using hx, hrest⟩
      | again hx hmany =>
          cases hps
          obtain ⟨w, rest', rfl, -, hw, hqs⟩ := ih rfl
          exact ⟨x :: w, rest', rfl, List.cons_ne_nil _ _, List.forall_mem_cons.mpr ⟨hx, hw⟩, hqs⟩

theorem exists_one_of_spells (hmany : p.many = false) (h : Spells (p :: qs) rest) :
    ∃ x rest', rest = [x] ++ rest' ∧ p.test x = true ∧ Spells qs rest' := by
  cases h with
  | @step _ _ x rest h hrest =>
      cases h with
      | last hx => exact ⟨x, rest, rfl, hx, hrest⟩
      | again hx h => rw [hmany] at h; cases h

/-- The parts of a series of characters. -/
def ones {β : Type} (q : β → α → Bool) (as : List β) : List (TokenPart α) := as.map fun a => ⟨q a, false⟩

/-- The parts spell the words of the pattern. -/
def Spelled (r : Regex α) (ps : List (TokenPart α)) : Prop := ∀ qs rest,
  Spells (ps ++ qs) rest ↔ ∃ w rest', rest = w ++ rest' ∧ r.Matches w ∧ Spells qs rest'

/-- The parts spell the beginnings of the pattern's words. -/
def Begun (r : Regex α) (ps : List (TokenPart α)) : Prop := ∀ rest, Spells ps rest ↔ ∃ w, w <+: rest ∧ r.Matches w

theorem spelled_plus {p : α → Bool} : Spelled (plus (one p)) [⟨p, true⟩] := by
  intro qs rest
  constructor
  · intro h
    obtain ⟨w, rest', rfl, hne, hw, hqs⟩ := exists_run_of_spells h
    exact ⟨w, rest', rfl, matches_plus_one.mpr ⟨hne, hw⟩, hqs⟩
  · rintro ⟨w, rest', rfl, hw, hqs⟩
    obtain ⟨hne, hw⟩ := matches_plus_one.mp hw
    exact spells_run rfl hne hw hqs

theorem spelled_ones {β : Type} {q : β → α → Bool} {l : List β} :
    Spelled (chain (l.map fun a => one (q a))) (ones q l) := by
  intro qs rest
  induction l generalizing rest with
  | nil =>
      constructor
      · intro h
        exact ⟨[], rest, rfl, rfl, h⟩
      · rintro ⟨w, rest', rfl, hw, h⟩
        obtain rfl : w = [] := hw
        exact h
  | cons a as ih =>
      rw [List.map_cons]
      simp only [matches_chain_cons]
      constructor
      · intro h
        obtain ⟨x, rest, rfl, hx, h⟩ := exists_one_of_spells (p := ⟨q a, false⟩) rfl h
        obtain ⟨w, rest', rfl, hw, h⟩ := (ih rest).mp h
        exact ⟨x :: w, rest', rfl, ⟨[x], w, ⟨x, hx, rfl⟩, hw, rfl⟩, h⟩
      · rintro ⟨_, rest', rfl, ⟨_, w, ⟨x, hx, rfl⟩, hw, rfl⟩, h⟩
        rw [List.append_assoc]
        exact .step (.last hx) ((ih _).mpr ⟨w, rest', rfl, hw, h⟩)

theorem begun_of_spelled {r : Regex α} (h : Spelled r ps) : Begun r ps := by
  intro rest
  have hwords := h [] rest
  rw [List.append_nil] at hwords
  rw [hwords]
  constructor
  · rintro ⟨w, rest', rfl, hw, -⟩
    exact ⟨w, List.prefix_append .., hw⟩
  · rintro ⟨w, ⟨rest', rfl⟩, hw⟩
    exact ⟨w, rest', rfl, hw, .done rest'⟩

theorem begun_cons {r : Regex α} {rs : List (Regex α)} (hr : Spelled r ps) (hrs : Begun (chain rs) qs) :
    Begun (chain (r :: rs)) (ps ++ qs) := by
  intro rest
  rw [hr qs rest]
  simp only [matches_chain_cons]
  constructor
  · rintro ⟨u, rest', rfl, hu, h⟩
    obtain ⟨v, ⟨rest, rfl⟩, hv⟩ := (hrs rest').mp h
    exact ⟨u ++ v, ⟨rest, by rw [List.append_assoc]⟩, u, v, hu, hv, rfl⟩
  · rintro ⟨_, ⟨rest', rfl⟩, u, v, hu, hv, rfl⟩
    exact ⟨u, v ++ rest', by rw [List.append_assoc], hu, (hrs _).mpr ⟨v, List.prefix_append .., hv⟩⟩

theorem begun_star {r : Regex α} : Begun (chain [Regex.star r]) [] := fun rest =>
  ⟨fun _ => ⟨[], List.nil_prefix, [], by simp⟩, fun _ => .done rest⟩

/-! ## Tokens under way -/

theorem Live.suffix (h : T.Live out ps) : ps <:+ T.parts := by
  have hstep : ∀ {ps qs : List (TokenPart α)} {x : α}, Step ps x qs → qs <:+ ps := fun h => by
    cases h with
    | last => exact List.suffix_cons ..
    | again => exact List.suffix_rfl
  induction h with
  | first _ hx => exact hstep hx
  | next _ hx ih => exact (hstep hx).trans ih

/-- A token under way ends where the text goes on with what is left of it. -/
theorem exists_end_of_live (h : T.Live out ps) (hrest : Spells ps rest) :
    ∃ v, v <+: rest ∧ T.Live (v.reverse ++ out) [] := by
  induction hrest generalizing out with
  | done => exact ⟨[], List.nil_prefix, h⟩
  | @step ps qs x rest hx _ ih =>
      obtain ⟨v, hv, hlive⟩ := ih (.next h hx)
      exact ⟨x :: v, (List.cons_prefix_cons).mpr ⟨rfl, hv⟩, by simpa using hlive⟩

theorem absent_of_clean (hparts : T.parts ≠ []) (h : T.Clean (rest.reverse ++ before)) : T.Absent before rest := by
  rintro a b rfl ⟨hopens, hb⟩
  generalize hps : T.parts = ps at hparts hb
  cases hb with
  | done => exact hparts rfl
  | @step _ qs x rest hx hrest =>
      obtain ⟨v, ⟨v', rfl⟩, hlive⟩ := exists_end_of_live (.first hopens (hps ▸ hx)) hrest
      refine h _ ?_ hlive
      exact ⟨v'.reverse, by simp⟩

theorem Absent.later (h : T.Absent before (w ++ rest)) : T.Absent (w.reverse ++ before) rest := by
  rintro a b rfl hstart
  exact h (w ++ a) b (by rw [List.append_assoc]) (by simpa using hstart)

theorem clean_cons (h : T.Clean out) (hx : ¬ T.Live (x :: out) []) : T.Clean (x :: out) := by
  intro z hz hlive
  rcases List.suffix_cons_iff.mp hz with rfl | hz
  · exact hx hlive
  · exact h z hz hlive

/-- A character that no token has stops the tokens under way. -/
theorem idle_of_lacks (h : T.Clean out) (hx : T.Lacks x) : T.Idle (x :: out) := by
  have hstep : ∀ {ps qs : List (TokenPart α)}, ps <:+ T.parts → ¬ Step ps x qs := fun hps h => by
    cases h with
    | last hp => rw [hx _ (hps.subset List.mem_cons_self)] at hp; cases hp
    | again hp _ => rw [hx _ (hps.subset List.mem_cons_self)] at hp; cases hp
  have hdead : ∀ ps, ¬ T.Live (x :: out) ps := fun ps hlive => by
    cases hlive with
    | first _ hps => exact hstep List.suffix_rfl hps
    | next hlive hps => exact hstep hlive.suffix hps
  exact ⟨clean_cons h (hdead []), hdead⟩

theorem Idle.append (h : T.Idle out) (hw : ∀ x ∈ w, T.Shuns x) : T.Idle (w.reverse ++ out) := by
  induction w generalizing out with
  | nil => exact h
  | cons x w ih =>
      obtain ⟨hx, hw⟩ := List.forall_mem_cons.mp hw
      have hdead : ∀ ps, ¬ T.Live (x :: out) ps := fun ps hlive => by
        cases hlive with
        | first _ hps => exact hx ps hps
        | next hlive => exact h.dead _ hlive
      have hstep : T.Idle (x :: out) := ⟨clean_cons h.clean (hdead []), hdead⟩
      simpa using ih hstep hw

theorem Idle.guarded (h : T.Idle out) (before rest : List α)
    (hopens : T.opens out.head? = true → T.opens before.head? = true ∨ ∀ x ∈ rest.head?, T.Shuns x) :
    T.Guarded out before rest := ⟨h.clean, hopens, fun ps hlive => absurd hlive (h.dead ps)⟩


/-- A character is kept. -/
theorem Guarded.kept (h : T.Guarded out before (x :: rest)) (hno : ¬ T.StartsAt before (x :: rest)) :
    T.Guarded (x :: out) (x :: before) rest := by
  have hlive : ∀ ps, T.Live (x :: out) ps → ¬ Spells ps rest := fun ps hlive hrest => by
    cases hlive with
    | first hopens hx =>
        rcases h.opens hopens with hbefore | hshuns
        · exact hno ⟨hbefore, .step hx hrest⟩
        · exact hshuns x rfl ps hx
    | next hlive hx => exact h.live _ hlive (.step hx hrest)
  exact ⟨clean_cons h.clean fun h => hlive [] h (.done rest), fun h => .inl h, hlive⟩

theorem Guarded.append (h : T.Guarded out before (w ++ rest)) (hno : T.Absent before (w ++ rest)) :
    T.Guarded (w.reverse ++ out) (w.reverse ++ before) rest := by
  induction w generalizing out before with
  | nil => exact h
  | cons x w ih =>
      have hstep := ih (h.kept (hno [] _ rfl)) (hno.later (w := [x]))
      simpa using hstep

end Reading

end Token

variable [DecidableEq α]

/-! ## Patterns of tokens -/

/-- The pattern matches where the token starts, and nowhere else. -/
structure Recognizes (r : Regex α) (T : Token α) : Prop where
  parts : T.parts ≠ []
  nonempty : 0 < r.minLength
  ways : ∀ c, r.ways c ≠ [] ↔ T.StartsAt c.before c.rest

theorem not_startsAt_of_kept {r : Regex α} {T : Token α} (hr : Recognizes r T) {c : Cursor α}
    (hno : ∀ d, (r.ways { c with groups := [] }).head? = some d → c.rest.length ≤ d.rest.length) :
    ¬ T.StartsAt c.before c.rest := by
  intro hstart
  obtain ⟨d, ds, hways⟩ := List.exists_cons_of_ne_nil ((hr.ways { c with groups := [] }).mpr hstart)
  obtain ⟨w, hw, hread⟩ := ways_sound (show d ∈ r.ways { c with groups := [] } by simp [hways])
  have hle := hno d (by rw [hways]; rfl)
  have hword := hw.minLength_le
  have hpos := hr.nonempty
  have hlength := congrArg List.length hread.rest
  rw [List.length_append] at hlength
  simp only at hlength
  omega

theorem ways_ne_nil_iff {r : Regex α} (hr : r.Plain) {c : Cursor α} :
    r.ways c ≠ [] ↔ ∃ w, w <+: c.rest ∧ r.Matches w := by
  constructor
  · intro hne
    obtain ⟨d, hd⟩ := List.exists_mem_of_ne_nil _ hne
    obtain ⟨w, hw, hread⟩ := ways_sound hd
    exact ⟨w, ⟨d.rest, hread.rest.symm⟩, hw⟩
  · rintro ⟨w, hrest, hw⟩
    obtain ⟨d, hd, -⟩ := ways_complete hr hw hrest
    exact List.ne_nil_of_mem hd

/-- A plain pattern recognizes the token that its words begin with. -/
theorem recognizes_of_plain {r : Regex α} {ps : List (TokenPart α)} (hps : ps ≠ []) (hr : r.Plain)
    (hnonempty : 0 < r.minLength) (h : Token.Begun r ps) : Recognizes r ⟨fun _ => true, ps⟩ :=
  ⟨hps, hnonempty, fun c => (ways_ne_nil_iff hr).trans ((h c.rest).symm.trans ⟨fun h => ⟨rfl, h⟩, And.right⟩)⟩

/-- After an assertion, which may ask for what every word begins with. -/
theorem recognizes_of_assert {r : Regex α} {ps : List (TokenPart α)} {p : Option α → Option α → Bool}
    {opens : Option α → Bool} (hps : ps ≠ []) (hr : r.Plain) (hnonempty : 0 < r.minLength)
    (h : Token.Begun r ps) (hp : ∀ prev rest, Token.Spells ps rest → p prev rest.head? = opens prev) :
    Recognizes (seq (assert p) r) ⟨opens, ps⟩ := by
  refine ⟨hps, by simpa [minLength] using hnonempty, fun c => ?_⟩
  have hways : (seq (assert p) r).ways c ≠ [] ↔ p c.before.head? c.rest.head? = true ∧ r.ways c ≠ [] := by
    simp only [ways]
    split <;> simp_all
  rw [hways, ways_ne_nil_iff hr, ← h c.rest]
  constructor
  · rintro ⟨hc, hspells⟩
    exact ⟨(hp _ _ hspells).symm.trans hc, hspells⟩
  · rintro ⟨hc, hspells⟩
    exact ⟨(hp _ _ hspells).trans hc, hspells⟩

/-- A search finds nothing in a text without a token. -/
theorem search_of_clean {r : Regex α} {T : Token α} (hr : Recognizes r T) {text : List α}
    (h : T.Clean text.reverse) : r.search text = false := by
  refine Bool.eq_false_iff.mpr fun hfound => ?_
  obtain ⟨u, v, rfl, hways⟩ := findsFrom_iff.mp hfound
  have habsent : T.Absent [] (u ++ v) := Token.absent_of_clean hr.parts (by simpa using h)
  exact habsent u v rfl ((hr.ways ⟨u.reverse ++ [], v, []⟩).mp hways)

/-! ## Where a match ends -/

omit [DecidableEq α] in
theorem iterate_ne_nil {f : Cursor α → List (Cursor α)} {greedy : Bool} {n : Nat} {c : Cursor α} :
    iterate f greedy 0 n c ≠ [] := by
  cases n <;> cases greedy <;> simp [iterate]

/-- The preferred match of the pattern ends before a character that fails the test, or with the text. -/
def Stops (p : α → Bool) (r : Regex α) : Prop :=
  ∀ c d, (r.ways c).head? = some d → ∀ x ∈ d.rest.head?, p x = false

theorem stops_iterate {p : α → Bool} {min n : Nat} {c d : Cursor α} (hn : c.rest.length ≤ n)
    (h : (iterate (one p).ways true min n c).head? = some d) : ∀ x ∈ d.rest.head?, p x = false := by
  induction n generalizing min c with
  | zero =>
      have hnil : c.rest = [] := List.length_eq_zero_iff.mp (Nat.le_zero.mp hn)
      simp only [iterate] at h
      split at h
      · cases h
        simp [hnil]
      · cases h
  | succ n ih =>
      cases hways : (one p).ways c with
      | nil =>
          simp only [iterate, hways, List.flatMap_nil, if_true, List.nil_append] at h
          split at h
          · cases h
            intro x hx
            obtain ⟨rest, hrest⟩ := List.head?_eq_some_iff.mp hx
            refine Bool.eq_false_iff.mpr fun hp => ?_
            simp [ways, hrest, hp] at hways
          · cases h
      | cons e es =>
          obtain ⟨_, ⟨x, hx, rfl⟩, hread⟩ := ways_sound (show e ∈ (one p).ways c by simp [hways])
          have hone : (one p).ways c = [c.advance [x]] := by simp [ways, hread.rest, hx]
          have hlength : (c.advance [x]).rest.length ≤ n := by
            have hafter : (c.advance [x]).rest = e.rest := rest_advance hread.rest
            have := congrArg List.length hread.rest
            rw [hafter]
            simp only [List.length_append, List.length_singleton] at this
            omega
          simp only [iterate, hone, List.flatMap_singleton, if_true] at h
          cases hmore : (iterate (one p).ways true (min - 1) n (c.advance [x])).head? with
          | some d' =>
              rw [List.head?_append, hmore] at h
              cases h
              exact ih hlength hmore
          | none =>
              -- Only a repetition that needs more rounds has no way, and then it cannot stop here.
              have hmin : min ≠ 0 := fun hmin => by
                subst hmin
                exact iterate_ne_nil (List.head?_eq_none_iff.mp hmore)
              rw [List.head?_append, hmore, if_neg hmin] at h
              cases h

theorem stops_rep {p : α → Bool} {min : Nat} : Stops p (rep (one p) min none true) := fun _ _ h =>
  stops_iterate le_rfl h

theorem stops_seq {p : α → Bool} {r s : Regex α} (h : Stops p s) : Stops p (seq r s) := by
  intro c d hd
  obtain ⟨e, -, he⟩ := exists_of_head?_flatMap hd
  exact h e d he

/-! ## Scans -/

/-- While a scan keeps characters at which no token starts and replaces its hits by texts that complete none,
no token appears. -/
theorem Scans.clean {r : Regex α} {T : Token α} {f : Match α → List α} {P : Cursor α → Prop}
    (hP : ∀ c d w, P c → Reads c d w → P d)
    (hkept : ∀ c, P c →
      (∀ d, (r.ways { c with groups := [] }).head? = some d → c.rest.length ≤ d.rest.length) →
      ¬ T.StartsAt c.before c.rest)
    (hhit : ∀ c d w out, P c → (r.ways { c with groups := [] }).head? = some d → Reads c d w →
      T.Guarded out c.before c.rest → T.Guarded ((f ⟨w, d.groups⟩).reverse ++ out) d.before d.rest)
    {c : Cursor α} {ps : List (Piece α)} (h : Scans r c ps) (hc : P c) {out : List α}
    (hout : T.Guarded out c.before c.rest) :
    T.Clean ((ps.flatMap fun | .kept x => [x] | .hit m => f m).reverse ++ out) := by
  induction h generalizing out with
  | done => exact hout.clean
  | @kept c x ps hx hno _ ih =>
      obtain ⟨rest, hrest⟩ := hx
      have hguarded : T.Guarded (x :: out) (c.advance [x]).before (c.advance [x]).rest := by
        have hstart := hkept c hc hno
        rw [← hrest] at hout hstart
        have hafter : (c.advance [x]).rest = rest := rest_advance hrest.symm
        rw [hafter]
        exact hout.kept hstart
      have hnext := ih (hP _ _ _ hc (reads_advance ⟨rest, hrest⟩)) hguarded
      simpa using hnext
  | hit hd hread _ _ ih =>
      have hnext := ih (hP _ _ _ hc hread) (hhit _ _ _ _ hc hd hread hout)
      simpa using hnext

section Subs
variable {r : Regex α} {T : Token α} {f : Match α → List α} {text : List α}

omit [DecidableEq α] in
theorem guarded_start : T.Guarded [] [] text where
  clean z hz hlive := by
    rw [List.suffix_nil] at hz
    subst hz
    cases hlive
  opens h := .inl h
  live ps hlive := by cases hlive

/-- Replacing the tokens leaves none where the replacements complete none. -/
theorem clean_sub_own (hr : Recognizes r T)
    (hhit : ∀ c d w out, (r.ways { c with groups := [] }).head? = some d → Reads c d w →
      T.Guarded out c.before c.rest → T.Guarded ((f ⟨w, d.groups⟩).reverse ++ out) d.before d.rest) :
    T.Clean (r.sub f text).reverse := by
  have hclean := (scans_pieces r text).clean (P := fun _ => True) (fun _ _ _ _ _ => trivial)
    (fun c _ hno => not_startsAt_of_kept hr hno) (fun c d w out _ => hhit c d w out) trivial
    (show T.Guarded [] [] text from guarded_start)
  rwa [List.append_nil] at hclean

/-- Where there is no token, replacing other things makes none if the replacements complete none. -/
theorem clean_sub (hparts : T.parts ≠ []) (htext : T.Clean text.reverse)
    (hhit : ∀ c d w out, T.Absent c.before c.rest → (r.ways { c with groups := [] }).head? = some d →
      Reads c d w → T.Guarded out c.before c.rest →
      T.Guarded ((f ⟨w, d.groups⟩).reverse ++ out) d.before d.rest) :
    T.Clean (r.sub f text).reverse := by
  have hclean := (scans_pieces r text).clean (P := fun c => T.Absent c.before c.rest)
    (fun c d w hc hread => by
      rw [hread.rest] at hc
      rw [hread.before]
      exact hc.later)
    (fun c hc _ => hc [] _ rfl) hhit (Token.absent_of_clean hparts (by simpa [Cursor.start] using htext))
    (show T.Guarded [] [] text from guarded_start)
  rwa [List.append_nil] at hclean

end Subs

end Regex
