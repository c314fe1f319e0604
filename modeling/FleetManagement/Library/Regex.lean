import FleetManagement.Library.Texts
import Mathlib.Data.List.Forall2
import Mathlib.Data.List.Infix

/-!
# Backtracking regular expressions

Patterns of a backtracking matcher: greedy and lazy repetition, groups, back-references and assertions about
the neighbouring characters. `ways` lists the ways to match at a position in the order in which the matcher
tries them, and `pieces` is a scan for leftmost matches that do not overlap.
-/

/-- A position in a text: what stands before it, the nearest first, the rest, and the groups so far. -/
structure Cursor (α : Type) where
  before : List α
  rest : List α
  groups : List (String × List α)

inductive Regex (α : Type) where
  | eps
  | one (p : α → Bool)
  /-- An assertion about the characters on both sides. -/
  | assert (p : Option α → Option α → Bool)
  | seq (r s : Regex α)
  | alt (r s : Regex α)
  /-- From `min` to `max` times the body, which matches no empty text. -/
  | rep (r : Regex α) (min : Nat) (max : Option Nat) (greedy : Bool)
  | group (name : String) (r : Regex α)
  | backref (name : String)

namespace Regex

variable {α : Type}

/-- `r*` -/
def star (r : Regex α) : Regex α := .rep r 0 none true

/-- `r+` -/
def plus (r : Regex α) : Regex α := .rep r 1 none true

/-- `r?` -/
def opt (r : Regex α) : Regex α := .rep r 0 (some 1) true

def anyOf (r : Regex α) : List (Regex α) → Regex α
  | [] => r
  | s :: rs => .alt r (anyOf s rs)

/-- One pattern after another. -/
def chain : List (Regex α) → Regex α
  | [] => .eps
  | [r] => r
  | r :: rs => .seq r (chain rs)

end Regex

namespace Cursor

variable {α : Type}

def start (text : List α) : Cursor α := ⟨[], text, []⟩

/-- The position after the text `w`, which the rest begins with. -/
def advance (c : Cursor α) (w : List α) : Cursor α :=
  { c with before := w.reverse ++ c.before, rest := c.rest.drop w.length }

/-- The text between two positions. -/
def upTo (c d : Cursor α) : List α := c.rest.take (c.rest.length - d.rest.length)

def setGroup (c : Cursor α) (name : String) (w : List α) : Cursor α :=
  { c with groups := (name, w) :: c.groups }

end Cursor

namespace Regex

variable {α : Type}

/-- Repetition: at each turn a greedy one tries the body first, a lazy one the end. -/
def iterate (f : Cursor α → List (Cursor α)) (greedy : Bool) : Nat → Nat → Cursor α → List (Cursor α)
  | min, 0, c => if min = 0 then [c] else []
  | min, max + 1, c =>
      let more := (f c).flatMap (iterate f greedy (min - 1) max)
      let stop := if min = 0 then [c] else []
      if greedy then more ++ stop else stop ++ more

/-- The positions after a match at `c`, in the order of preference. -/
def ways [DecidableEq α] : Regex α → Cursor α → List (Cursor α)
  | .eps, c => [c]
  | .one p, c =>
      match c.rest with
      | x :: _ => if p x then [c.advance [x]] else []
      | [] => []
  | .assert p, c => if p c.before.head? c.rest.head? then [c] else []
  | .seq r s, c => (r.ways c).flatMap s.ways
  | .alt r s, c => r.ways c ++ s.ways c
  | .rep r min max greedy, c => iterate r.ways greedy min (max.getD c.rest.length) c
  | .group name r, c => (r.ways c).map fun d => d.setGroup name (c.upTo d)
  | .backref name, c =>
      match c.groups.lookup name with
      | some w => if w.isPrefixOf c.rest then [c.advance w] else []
      | none => []

/-! ## Searching and replacing -/

structure Match (α : Type) where
  text : List α
  groups : List (String × List α)

def Match.group (m : Match α) (name : String) : List α := (m.groups.lookup name).getD []

/-- A character that no match covers, or a match. -/
inductive Piece (α : Type) where
  | kept (x : α)
  | hit (m : Match α)

def Piece.text : Piece α → List α
  | .kept x => [x]
  | .hit m => m.text

variable [DecidableEq α]

/-- The scan from `c` to the end of the text, where `fuel` is the number of characters left. -/
def scan (r : Regex α) : Nat → Cursor α → List (Piece α)
  | 0, _ => []
  | fuel + 1, c =>
      match c.rest with
      | [] => []
      | x :: _ =>
          match (r.ways { c with groups := [] }).head? with
          | some d =>
              if d.rest.length < c.rest.length then .hit ⟨c.upTo d, d.groups⟩ :: r.scan fuel d
              else .kept x :: r.scan fuel (c.advance [x])
          | none => .kept x :: r.scan fuel (c.advance [x])

def pieces (r : Regex α) (text : List α) : List (Piece α) := r.scan text.length (.start text)

/-- `re.sub`: every match is replaced by what `f` makes of it. -/
def sub (r : Regex α) (f : Match α → List α) (text : List α) : List α :=
  (r.pieces text).flatMap fun
    | .kept x => [x]
    | .hit m => f m

/-- There is a match at the position `c` or after it. -/
def findsFrom (r : Regex α) (before : List α) : List α → Bool
  | [] => !(r.ways ⟨before, [], []⟩).isEmpty
  | x :: rest => !(r.ways ⟨before, x :: rest, []⟩).isEmpty || r.findsFrom (x :: before) rest

/-- `re.search` finds a match. -/
def search (r : Regex α) (text : List α) : Bool := r.findsFrom [] text

/-- `re.match` finds a match. -/
def matchesAt (r : Regex α) (text : List α) : Bool := !(r.ways (.start text)).isEmpty

/-- `re.fullmatch` finds a match. -/
def fullmatch (r : Regex α) (text : List α) : Bool := (r.ways (.start text)).any fun d => d.rest.isEmpty

/-! ## The words of a pattern -/

omit [DecidableEq α] in
/-- The texts that the pattern can match, whatever the assertions and the back-references ask for. -/
def Matches : Regex α → List α → Prop
  | .eps, w => w = []
  | .one p, w => ∃ x, p x ∧ w = [x]
  | .assert _, w => w = []
  | .seq r s, w => ∃ u v, r.Matches u ∧ s.Matches v ∧ w = u ++ v
  | .alt r s, w => r.Matches w ∨ s.Matches w
  | .rep r min max _, w => ∃ us : List (List α), min ≤ us.length ∧ (∀ n ∈ max, us.length ≤ n) ∧
      (∀ u ∈ us, r.Matches u) ∧ w = us.flatten
  | .group _ r, w => r.Matches w
  | .backref _, _ => True

/-- From `c` to `d` the text is `w`. -/
structure Reads (c d : Cursor α) (w : List α) : Prop where
  rest : c.rest = w ++ d.rest
  before : d.before = w.reverse ++ c.before

section Words
variable {r s : Regex α} {c d e : Cursor α} {u v w : List α}

omit [DecidableEq α]

theorem reads_nil (c : Cursor α) : Reads c c [] := ⟨rfl, rfl⟩

theorem Reads.trans (h : Reads c d u) (h' : Reads d e v) : Reads c e (u ++ v) where
  rest := by rw [h.rest, h'.rest, List.append_assoc]
  before := by rw [h'.before, h.before, List.reverse_append, List.append_assoc]

theorem reads_advance (h : w <+: c.rest) : Reads c (c.advance w) w where
  rest := by
    obtain ⟨t, ht⟩ := h
    simp only [Cursor.advance, ← ht, List.drop_left]
  before := rfl

theorem Reads.upTo (h : Reads c d w) : c.upTo d = w := by
  simp [Cursor.upTo, h.rest]

/-- Repeating the body reads words one after another. -/
theorem iterate_sound {f : Cursor α → List (Cursor α)} {P : List α → Prop}
    (hf : ∀ c, ∀ d ∈ f c, ∃ w, P w ∧ Reads c d w) {greedy : Bool} {min max : Nat} {c d : Cursor α}
    (h : d ∈ iterate f greedy min max c) : ∃ us : List (List α), min ≤ us.length ∧ us.length ≤ max ∧
      (∀ u ∈ us, P u) ∧ Reads c d us.flatten := by
  induction max generalizing min c with
  | zero =>
      simp only [iterate] at h
      split at h
      · obtain rfl := List.mem_singleton.mp h
        exact ⟨[], by simp [*], le_rfl, by simp, reads_nil d⟩
      · cases h
  | succ max ih =>
      have hcases : d ∈ (f c).flatMap (iterate f greedy (min - 1) max) ∨ (min = 0 ∧ d = c) := by
        simp only [iterate] at h
        by_cases hmin : min = 0
        · subst hmin
          cases greedy with
          | true => rcases List.mem_append.mp h with h | h <;> simp_all
          | false => rcases List.mem_append.mp h with h | h <;> simp_all
        · cases greedy <;> simp only [hmin, if_false, List.append_nil, List.nil_append, ite_self] at h <;>
            exact Or.inl h
      rcases hcases with hmore | ⟨rfl, rfl⟩
      · obtain ⟨e, he, hd⟩ := List.mem_flatMap.mp hmore
        obtain ⟨w, hw, hread⟩ := hf c e he
        obtain ⟨us, hmin, hmax, hus, hreads⟩ := ih hd
        refine ⟨w :: us, ?_, ?_, List.forall_mem_cons.mpr ⟨hw, hus⟩, hread.trans hreads⟩
        · rw [List.length_cons]; omega
        · rw [List.length_cons]; omega
      · exact ⟨[], by simp, by simp, by simp, reads_nil d⟩

end Words

/-- What a match reads is a word of the pattern. -/
theorem ways_sound {r : Regex α} {c d : Cursor α} (h : d ∈ r.ways c) :
    ∃ w, r.Matches w ∧ Reads c d w := by
  induction r generalizing c d with
  | eps =>
      obtain rfl := List.mem_singleton.mp h
      exact ⟨[], rfl, reads_nil d⟩
  | one p =>
      unfold ways at h
      split at h
      · rename_i x rest hrest
        split at h
        · rename_i hp
          obtain rfl := List.mem_singleton.mp h
          exact ⟨[x], ⟨x, hp, rfl⟩, reads_advance ⟨rest, hrest.symm⟩⟩
        · cases h
      · cases h
  | assert p =>
      unfold ways at h
      split at h
      · obtain rfl := List.mem_singleton.mp h
        exact ⟨[], rfl, reads_nil d⟩
      · cases h
  | seq r s ihr ihs =>
      obtain ⟨e, he, hd⟩ := List.mem_flatMap.mp h
      obtain ⟨u, hu, hread⟩ := ihr he
      obtain ⟨v, hv, hread'⟩ := ihs hd
      exact ⟨u ++ v, ⟨u, v, hu, hv, rfl⟩, hread.trans hread'⟩
  | alt r s ihr ihs =>
      rcases List.mem_append.mp h with h | h
      · obtain ⟨w, hw, hread⟩ := ihr h
        exact ⟨w, Or.inl hw, hread⟩
      · obtain ⟨w, hw, hread⟩ := ihs h
        exact ⟨w, Or.inr hw, hread⟩
  | rep r min max greedy ih =>
      obtain ⟨us, hmin, hmax, hus, hread⟩ := iterate_sound (fun c d hd => ih hd) h
      refine ⟨us.flatten, ⟨us, hmin, fun n hn => ?_, hus, rfl⟩, hread⟩
      rw [Option.mem_def.mp hn] at hmax
      exact hmax
  | group name r ih =>
      obtain ⟨e, he, rfl⟩ := List.mem_map.mp h
      obtain ⟨w, hw, hread⟩ := ih he
      exact ⟨w, hw, hread.rest, hread.before⟩
  | backref name =>
      unfold ways at h
      split at h
      · split at h
        · rename_i w _ hw
          obtain rfl := List.mem_singleton.mp h
          exact ⟨w, trivial, reads_advance (List.isPrefixOf_iff_prefix.mp hw)⟩
        · cases h
      · cases h

/-! ## Characters that a pattern needs -/

omit [DecidableEq α] in
/-- Every word of the pattern has a character that satisfies `p`. -/
def Needs (p : α → Prop) : Regex α → Prop
  | .eps => False
  | .one q => ∀ x, q x → p x
  | .assert _ => False
  | .seq r s => r.Needs p ∨ s.Needs p
  | .alt r s => r.Needs p ∧ s.Needs p
  | .rep r min _ _ => 0 < min ∧ r.Needs p
  | .group _ r => r.Needs p
  | .backref _ => False

omit [DecidableEq α] in
theorem needs_chain {p : α → Prop} {r : Regex α} {rs : List (Regex α)} (h : r ∈ rs) (hr : r.Needs p) :
    (chain rs).Needs p := by
  match rs with
  | [] => cases h
  | [s] => obtain rfl := List.mem_singleton.mp h; exact hr
  | s :: s' :: rs =>
      rcases List.mem_cons.mp h with rfl | h
      · exact Or.inl hr
      · exact Or.inr (needs_chain h hr)

omit [DecidableEq α] in
theorem needs_anyOf {p : α → Prop} {r : Regex α} {rs : List (Regex α)} (h : ∀ s ∈ r :: rs, s.Needs p) :
    (anyOf r rs).Needs p := by
  induction rs generalizing r with
  | nil => exact h r List.mem_cons_self
  | cons s rs ih => exact ⟨h r List.mem_cons_self, ih (List.forall_mem_cons.mp h).2⟩

omit [DecidableEq α] in
theorem Matches.exists_of_needs {p : α → Prop} {r : Regex α} (hr : r.Needs p) {w : List α}
    (hw : r.Matches w) : ∃ x ∈ w, p x := by
  induction r generalizing w with
  | eps => exact hr.elim
  | one q =>
      obtain ⟨x, hx, rfl⟩ := hw
      exact ⟨x, List.mem_singleton_self x, hr x hx⟩
  | assert q => exact hr.elim
  | seq r s ihr ihs =>
      obtain ⟨u, v, hu, hv, rfl⟩ := hw
      rcases hr with hr | hs
      · obtain ⟨x, hx, hp⟩ := ihr hr hu
        exact ⟨x, List.mem_append_left _ hx, hp⟩
      · obtain ⟨x, hx, hp⟩ := ihs hs hv
        exact ⟨x, List.mem_append_right _ hx, hp⟩
  | alt r s ihr ihs =>
      rcases hw with hw | hw
      · exact ihr hr.1 hw
      · exact ihs hr.2 hw
  | rep r min max greedy ih =>
      obtain ⟨us, hmin, -, hus, rfl⟩ := hw
      cases us with
      | nil => exact absurd (hmin.trans_lt' hr.1) (by simp)
      | cons u us =>
          obtain ⟨x, hx, hp⟩ := ih hr.2 (hus u List.mem_cons_self)
          exact ⟨x, by simp [hx], hp⟩
  | group name r ih => exact ih hr hw
  | backref name => exact hr.elim

/-! ## Words that are found -/

omit [DecidableEq α] in
/-- No assertion and no back-reference, and no body of a repetition matches the empty text. -/
def Plain : Regex α → Prop
  | .eps => True
  | .one _ => True
  | .assert _ => False
  | .seq r s => r.Plain ∧ s.Plain
  | .alt r s => r.Plain ∧ s.Plain
  | .rep r _ _ _ => r.Plain ∧ ¬ r.Matches []
  | .group _ r => r.Plain
  | .backref _ => False

omit [DecidableEq α] in
theorem plain_chain {rs : List (Regex α)} (h : ∀ r ∈ rs, r.Plain) : (chain rs).Plain := by
  match rs with
  | [] => trivial
  | [r] => exact h r List.mem_cons_self
  | r :: r' :: rs => exact ⟨h r List.mem_cons_self, plain_chain (List.forall_mem_cons.mp h).2⟩

omit [DecidableEq α] in
theorem plain_anyOf {r : Regex α} {rs : List (Regex α)} (h : ∀ s ∈ r :: rs, s.Plain) : (anyOf r rs).Plain := by
  induction rs generalizing r with
  | nil => exact h r List.mem_cons_self
  | cons s rs ih => exact ⟨h r List.mem_cons_self, ih (List.forall_mem_cons.mp h).2⟩

omit [DecidableEq α] in
theorem iterate_complete {f : Cursor α → List (Cursor α)} {P : List α → Prop}
    (hf : ∀ c w, P w → w <+: c.rest → ∃ d ∈ f c, Reads c d w) {greedy : Bool} {us : List (List α)}
    (hus : ∀ u ∈ us, P u) {min max : Nat} {c : Cursor α} (hmin : min ≤ us.length) (hmax : us.length ≤ max)
    (hrest : us.flatten <+: c.rest) : ∃ d ∈ iterate f greedy min max c, Reads c d us.flatten := by
  induction us generalizing min max c with
  | nil =>
      obtain rfl : min = 0 := by simpa using hmin
      refine ⟨c, ?_, reads_nil c⟩
      cases max with
      | zero => simp [iterate]
      | succ max => cases greedy <;> simp [iterate]
  | cons u us ih =>
      obtain ⟨hu, hus⟩ := List.forall_mem_cons.mp hus
      obtain ⟨t, ht⟩ := hrest
      rw [List.flatten_cons, List.append_assoc] at ht
      obtain ⟨e, he, hread⟩ := hf c u hu ⟨us.flatten ++ t, ht⟩
      have hafter : us.flatten ++ t = e.rest := List.append_cancel_left (ht.trans hread.rest)
      cases max with
      | zero => simp at hmax
      | succ max =>
          simp only [List.length_cons] at hmin hmax
          obtain ⟨d, hd, hreads⟩ := ih hus (c := e) (by omega : min - 1 ≤ us.length)
            (by omega : us.length ≤ max) ⟨t, hafter⟩
          refine ⟨d, ?_, hread.trans hreads⟩
          have hmore : d ∈ (f c).flatMap (iterate f greedy (min - 1) max) := List.mem_flatMap.mpr ⟨e, he, hd⟩
          cases greedy <;> simp only [iterate] <;>
            first | exact List.mem_append_right _ hmore | exact List.mem_append_left _ hmore

/-- A plain pattern has a way to match each of its words that stands at the position. -/
theorem ways_complete {r : Regex α} (hr : r.Plain) {c : Cursor α} {w : List α} (hw : r.Matches w)
    (hrest : w <+: c.rest) : ∃ d ∈ r.ways c, Reads c d w := by
  induction r generalizing c w with
  | eps => cases hw; exact ⟨c, List.mem_singleton_self c, reads_nil c⟩
  | one p =>
      obtain ⟨x, hx, rfl⟩ := hw
      obtain ⟨t, ht⟩ := id hrest
      refine ⟨c.advance [x], ?_, reads_advance hrest⟩
      simp only [ways, ← ht, List.cons_append, hx, if_true, List.mem_singleton]
  | assert p => exact hr.elim
  | seq r s ihr ihs =>
      obtain ⟨u, v, hu, hv, rfl⟩ := hw
      obtain ⟨e, he, hread⟩ := ihr hr.1 hu ((List.prefix_append u v).trans hrest)
      have hrest' : v <+: e.rest := by
        rw [hread.rest] at hrest
        exact (List.prefix_append_right_inj u).mp hrest
      obtain ⟨d, hd, hread'⟩ := ihs hr.2 hv hrest'
      exact ⟨d, List.mem_flatMap.mpr ⟨e, he, hd⟩, hread.trans hread'⟩
  | alt r s ihr ihs =>
      rcases hw with hw | hw
      · obtain ⟨d, hd, hread⟩ := ihr hr.1 hw hrest
        exact ⟨d, List.mem_append_left _ hd, hread⟩
      · obtain ⟨d, hd, hread⟩ := ihs hr.2 hw hrest
        exact ⟨d, List.mem_append_right _ hd, hread⟩
  | rep r min max greedy ih =>
      obtain ⟨us, hmin, hmax, hus, rfl⟩ := hw
      refine iterate_complete (fun c w hw hrest => ih hr.1 hw hrest) hus hmin ?_ hrest
      cases max with
      | some n => exact hmax n rfl
      | none =>
          -- Every round reads a character, so the text is long enough.
          have hlength : us.length ≤ us.flatten.length := by
            clear hmin hmax hrest
            induction us with
            | nil => simp
            | cons u us ihus =>
                have hne : u ≠ [] := fun h => hr.2 (h ▸ hus u List.mem_cons_self)
                have hpos := List.length_pos_of_ne_nil hne
                have hlater := ihus fun v hv => hus v (List.mem_cons_of_mem _ hv)
                simp only [List.flatten_cons, List.length_append, List.length_cons]
                omega
          exact hlength.trans hrest.length_le
  | group name r ih =>
      obtain ⟨d, hd, hread⟩ := ih hr hw hrest
      exact ⟨d.setGroup name (c.upTo d), List.mem_map.mpr ⟨d, hd, rfl⟩, hread.rest, hread.before⟩
  | backref name => exact hr.elim

/-! ## Words of common patterns -/

section CommonWords
variable {p : α → Bool} {r s : Regex α} {w : List α}

omit [DecidableEq α]

theorem flatten_of_matches_one {us : List (List α)} (h : ∀ u ∈ us, (Regex.one p).Matches u) :
    us.flatten.length = us.length ∧ ∀ x ∈ us.flatten, p x := by
  induction us with
  | nil => simp
  | cons u us ih =>
      obtain ⟨hu, hus⟩ := List.forall_mem_cons.mp h
      obtain ⟨x, hx, rfl⟩ := hu
      obtain ⟨hlength, hall⟩ := ih hus
      refine ⟨by simp [hlength], ?_⟩
      simp only [List.flatten_cons, List.singleton_append]
      exact List.forall_mem_cons.mpr ⟨hx, hall⟩

theorem matches_rep_one {min : Nat} {max : Option Nat} {greedy : Bool} :
    (rep (.one p) min max greedy).Matches w ↔
      min ≤ w.length ∧ (∀ n ∈ max, w.length ≤ n) ∧ ∀ x ∈ w, p x := by
  constructor
  · rintro ⟨us, hmin, hmax, hus, rfl⟩
    obtain ⟨hlength, hall⟩ := flatten_of_matches_one hus
    rw [hlength]
    exact ⟨hmin, hmax, hall⟩
  · rintro ⟨hmin, hmax, hall⟩
    refine ⟨w.map fun x => [x], by simpa using hmin, by simpa using hmax, ?_, ?_⟩
    swap
    · rw [← List.flatMap_def]; simp
    intro u hu
    obtain ⟨x, hx, rfl⟩ := List.mem_map.mp hu
    exact ⟨x, hall x hx, rfl⟩

theorem matches_star_one : (star (.one p)).Matches w ↔ ∀ x ∈ w, p x := by
  simp [Regex.star, matches_rep_one]

theorem matches_plus_one : (plus (.one p)).Matches w ↔ w ≠ [] ∧ ∀ x ∈ w, p x := by
  simp [plus, matches_rep_one, Nat.one_le_iff_ne_zero]

theorem matches_opt : (opt r).Matches w ↔ w = [] ∨ r.Matches w := by
  constructor
  · rintro ⟨us, -, hmax, hus, rfl⟩
    match us, hmax 1 rfl with
    | [], _ => exact Or.inl rfl
    | [u], _ => exact Or.inr (by simpa using hus u List.mem_cons_self)
  · rintro (rfl | h)
    · exact ⟨[], by simp, by simp, by simp, rfl⟩
    · exact ⟨[w], by simp, by simp, by simpa using h, by simp⟩

theorem matches_chain_cons {rs : List (Regex α)} :
    (chain (r :: rs)).Matches w ↔ ∃ u v, r.Matches u ∧ (chain rs).Matches v ∧ w = u ++ v := by
  cases rs with
  | nil =>
      constructor
      · intro h; exact ⟨w, [], h, rfl, by simp⟩
      · rintro ⟨u, v, hu, hv, rfl⟩
        obtain rfl : v = [] := hv
        simpa [chain] using hu
  | cons s rs => exact Iff.rfl

theorem matches_chain_map_one {q : α → α → Bool} {as : List α} :
    (chain (as.map fun a => .one (q a))).Matches w ↔ List.Forall₂ (fun a x => q a x = true) as w := by
  induction as generalizing w with
  | nil => exact ⟨fun h => by cases h; exact .nil, fun h => by cases h; rfl⟩
  | cons a as ih =>
      rw [List.map_cons, matches_chain_cons]
      constructor
      · rintro ⟨u, v, ⟨x, hx, rfl⟩, hv, rfl⟩
        exact .cons hx (ih.mp hv)
      · intro h
        cases h with
        | @cons _ x _ v hx hv => exact ⟨[x], v, ⟨x, hx, rfl⟩, ih.mpr hv, rfl⟩

theorem matches_anyOf {rs : List (Regex α)} : (anyOf r rs).Matches w ↔ ∃ s ∈ r :: rs, s.Matches w := by
  induction rs generalizing r with
  | nil => simp [anyOf]
  | cons s rs ih =>
      rw [List.exists_mem_cons_iff, ← ih]
      exact Iff.rfl

end CommonWords

/-! ## Groups and contexts -/

omit [DecidableEq α] in
def NoGroups : Regex α → Prop
  | .seq r s => r.NoGroups ∧ s.NoGroups
  | .alt r s => r.NoGroups ∧ s.NoGroups
  | .rep r _ _ _ => r.NoGroups
  | .group _ _ => False
  | _ => True

omit [DecidableEq α] in
/-- What every way of the body keeps, the repetition keeps. -/
theorem iterate_induction {f : Cursor α → List (Cursor α)} {P : Cursor α → Prop}
    (hf : ∀ c, P c → ∀ d ∈ f c, P d) {greedy : Bool} {min max : Nat} {c d : Cursor α} (hc : P c)
    (h : d ∈ iterate f greedy min max c) : P d := by
  induction max generalizing min c with
  | zero =>
      simp only [iterate] at h
      split at h
      · obtain rfl := List.mem_singleton.mp h; exact hc
      · cases h
  | succ max ih =>
      have hcases : d ∈ (f c).flatMap (iterate f greedy (min - 1) max) ∨
          d ∈ (if min = 0 then [c] else []) := by
        cases greedy <;> simp only [iterate] at h <;>
          first | exact (List.mem_append.mp h).symm | exact List.mem_append.mp h
      rcases hcases with hmore | hstop
      · obtain ⟨e, he, hd⟩ := List.mem_flatMap.mp hmore
        exact ih (hf c hc e he) hd
      · split at hstop
        · obtain rfl := List.mem_singleton.mp hstop; exact hc
        · cases hstop

theorem groups_of_noGroups {r : Regex α} (hr : r.NoGroups) {c d : Cursor α} (h : d ∈ r.ways c) :
    d.groups = c.groups := by
  induction r generalizing c d with
  | eps => obtain rfl := List.mem_singleton.mp h; rfl
  | one p =>
      unfold ways at h
      split at h
      · split at h
        · obtain rfl := List.mem_singleton.mp h; rfl
        · cases h
      · cases h
  | assert p =>
      unfold ways at h
      split at h
      · obtain rfl := List.mem_singleton.mp h; rfl
      · cases h
  | seq r s ihr ihs =>
      obtain ⟨e, he, hd⟩ := List.mem_flatMap.mp h
      exact (ihs hr.2 hd).trans (ihr hr.1 he)
  | alt r s ihr ihs =>
      rcases List.mem_append.mp h with h | h
      · exact ihr hr.1 h
      · exact ihs hr.2 h
  | rep r min max greedy ih =>
      exact iterate_induction (P := fun d => d.groups = c.groups)
        (fun e he d hd => (ih hr hd).trans he) rfl h
  | group name r ih => exact hr.elim
  | backref name =>
      unfold ways at h
      split at h
      · split at h
        · obtain rfl := List.mem_singleton.mp h; rfl
        · cases h
      · cases h

/-- A group records what it reads. -/
theorem mem_ways_group {name : String} {r : Regex α} {c d : Cursor α} :
    d ∈ (group name r).ways c ↔
      ∃ e w, e ∈ r.ways c ∧ r.Matches w ∧ Reads c e w ∧ d = e.setGroup name w := by
  constructor
  · intro h
    obtain ⟨e, he, rfl⟩ := List.mem_map.mp h
    obtain ⟨w, hw, hread⟩ := ways_sound he
    exact ⟨e, w, he, hw, hread, by rw [hread.upTo]⟩
  · rintro ⟨e, w, he, -, hread, rfl⟩
    exact List.mem_map.mpr ⟨e, he, by rw [hread.upTo]⟩

theorem mem_ways_assert {p : Option α → Option α → Bool} {c d : Cursor α} :
    d ∈ (assert p).ways c ↔ d = c ∧ p c.before.head? c.rest.head? = true := by
  unfold ways
  split
  · rename_i hp
    simp [hp]
  · rename_i hp
    simp [hp]

theorem mem_ways_seq {r s : Regex α} {c d : Cursor α} :
    d ∈ (seq r s).ways c ↔ ∃ e ∈ r.ways c, d ∈ s.ways e := List.mem_flatMap

omit [DecidableEq α] in
/-- Two positions with the same rest, which differ only in what stands before them. -/
structure Alike (E : Option α → Option α → Prop) (c d : Cursor α) : Prop where
  rest : c.rest = d.rest
  groups : c.groups = d.groups
  before : E c.before.head? d.before.head?

omit [DecidableEq α] in
/-- The assertions of the pattern do not tell apart what `E` relates. -/
def Respects (E : Option α → Option α → Prop) : Regex α → Prop
  | .assert p => ∀ a b n, E a b → p a n = p b n
  | .seq r s => r.Respects E ∧ s.Respects E
  | .alt r s => r.Respects E ∧ s.Respects E
  | .rep r _ _ _ => r.Respects E
  | .group _ r => r.Respects E
  | _ => True

section Contexts
variable {E : Option α → Option α → Prop} (hE : ∀ a, E a a) {c d : Cursor α}
include hE

omit [DecidableEq α] in
theorem Alike.advance (h : Alike E c d) (w : List α) : Alike E (c.advance w) (d.advance w) where
  rest := by simp only [Cursor.advance, h.rest]
  groups := h.groups
  before := by
    simp only [Cursor.advance, List.head?_append]
    cases w.reverse.head? with
    | none => exact h.before
    | some x => exact hE _

omit [DecidableEq α] hE in
theorem forall₂_iterate {R : Cursor α → Cursor α → Prop} {f : Cursor α → List (Cursor α)}
    (hf : ∀ c d, R c d → List.Forall₂ R (f c) (f d)) (greedy : Bool) (min max : Nat) {c d : Cursor α}
    (h : R c d) : List.Forall₂ R (iterate f greedy min max c) (iterate f greedy min max d) := by
  induction max generalizing min c d with
  | zero => simp only [iterate]; split <;> simp [h]
  | succ max ih =>
      have hmore : List.Forall₂ R ((f c).flatMap (iterate f greedy (min - 1) max))
          ((f d).flatMap (iterate f greedy (min - 1) max)) :=
        List.rel_flatMap (hf c d h) fun a b hab => ih (min - 1) hab
      have hstop : List.Forall₂ R (if min = 0 then [c] else []) (if min = 0 then [d] else []) := by
        split <;> simp [h]
      cases greedy with
      | true => exact List.rel_append hmore hstop
      | false => exact List.rel_append hstop hmore

/-- A pattern has the same ways at positions that it does not tell apart. -/
theorem ways_alike {r : Regex α} (hr : r.Respects E) (h : Alike E c d) :
    List.Forall₂ (Alike E) (r.ways c) (r.ways d) := by
  induction r generalizing c d with
  | eps => exact .cons h .nil
  | one p =>
      simp only [ways, h.rest]
      split
      · split
        · exact .cons (h.advance hE _) .nil
        · exact .nil
      · exact .nil
  | assert p =>
      simp only [ways, h.rest, hr _ _ d.rest.head? h.before]
      split
      · exact .cons h .nil
      · exact .nil
  | seq r s ihr ihs => exact List.rel_flatMap (ihr hr.1 h) fun _ _ hab => ihs hr.2 hab
  | alt r s ihr ihs => exact List.rel_append (ihr hr.1 h) (ihs hr.2 h)
  | rep r min max greedy ih =>
      simp only [ways, h.rest]
      exact forall₂_iterate (fun _ _ hcd => ih hr hcd) greedy min _ h
  | group name r ih =>
      refine List.forall₂_map_left_iff.mpr (List.forall₂_map_right_iff.mpr ?_)
      refine (ih hr h).imp fun e e' he => ⟨he.rest, ?_, he.before⟩
      simp only [Cursor.setGroup, Cursor.upTo, h.rest, he.rest, he.groups]
  | backref name =>
      simp only [ways, h.rest, h.groups]
      split
      · split
        · exact .cons (h.advance hE _) .nil
        · exact .nil
      · exact .nil

omit [DecidableEq α] hE in
theorem forall₂_head? {β : Type} {R : β → β → Prop} {as bs : List β} (h : List.Forall₂ R as bs) :
    Option.Rel R as.head? bs.head? := by
  cases h with
  | nil => exact .none
  | cons hab _ => exact .some hab

end Contexts

/-! ## The preferred way -/

section Preferred
variable {r s : Regex α} {c d e : Cursor α}

omit [DecidableEq α] in
@[simp] theorem advance_nil (c : Cursor α) : c.advance [] = c := rfl

omit [DecidableEq α] in
theorem advance_append (c : Cursor α) (u v : List α) : (c.advance u).advance v = c.advance (u ++ v) := by
  simp [Cursor.advance, List.drop_drop]

omit [DecidableEq α] in
theorem rest_advance {w rest : List α} (h : c.rest = w ++ rest) : (c.advance w).rest = rest := by
  simp [Cursor.advance, h]

omit [DecidableEq α] in
theorem head?_flatMap {β γ : Type} {f : β → List γ} {bs : List β} {b : β} {a : γ} (hb : bs.head? = some b)
    (ha : (f b).head? = some a) : (bs.flatMap f).head? = some a := by
  obtain ⟨bs, rfl⟩ := List.head?_eq_some_iff.mp hb
  rw [List.flatMap_cons, List.head?_append, ha]
  rfl

omit [DecidableEq α] in
theorem exists_of_head?_flatMap {β γ : Type} {f : β → List γ} {bs : List β} {a : γ}
    (h : (bs.flatMap f).head? = some a) : ∃ b ∈ bs, (f b).head? = some a := by
  induction bs with
  | nil => cases h
  | cons b bs ih =>
      rw [List.flatMap_cons, List.head?_append] at h
      cases hb : (f b).head? with
      | some a' =>
          rw [hb] at h
          exact ⟨b, List.mem_cons_self, hb.trans h⟩
      | none =>
          rw [hb] at h
          obtain ⟨b', hb', ha⟩ := ih h
          exact ⟨b', List.mem_cons_of_mem b hb', ha⟩

theorem head?_ways_seq (hr : (r.ways c).head? = some e) (hs : (s.ways e).head? = some d) :
    ((seq r s).ways c).head? = some d := head?_flatMap hr hs

theorem head?_ways_one {p : α → Bool} {x : α} {rest : List α} (hc : c.rest = x :: rest) (hx : p x) :
    ((one p).ways c).head? = some (c.advance [x]) := by
  simp [ways, hc, hx]

theorem ways_one_of_not {p : α → Bool} (h : ∀ x ∈ c.rest.head?, p x = false) : (one p).ways c = [] := by
  unfold ways
  split
  · rename_i x rest hrest
    rw [h x (by simp [hrest])]
    rfl
  · rfl

theorem head?_ways_assert {p : Option α → Option α → Bool} (h : p c.before.head? c.rest.head?) :
    ((assert p).ways c).head? = some c := by
  simp [ways, h]

/-- An optional part is taken where it can be. -/
theorem head?_ways_opt (h : (r.ways c).head? = some d) : ((opt r).ways c).head? = some d := by
  obtain ⟨ds, hds⟩ := List.head?_eq_some_iff.mp h
  simp [opt, ways, iterate, hds]

theorem head?_ways_opt_nil (h : r.ways c = []) : ((opt r).ways c).head? = some c := by
  simp [opt, ways, iterate, h]

omit [DecidableEq α] in
/-- A greedy repetition takes words as long as its body has one. -/
theorem head?_iterate {f : Cursor α → List (Cursor α)} {us : List (List α)}
    (hus : ∀ u ∈ us, ∀ c, u <+: c.rest → (f c).head? = some (c.advance u)) {min max : Nat} {c : Cursor α}
    (hmin : min ≤ us.length) (hmax : us.length ≤ max) (hrest : us.flatten <+: c.rest)
    (hstop : f (c.advance us.flatten) = []) :
    (iterate f true min max c).head? = some (c.advance us.flatten) := by
  induction us generalizing min max c with
  | nil =>
      obtain rfl : min = 0 := by simpa using hmin
      have hnone : f c = [] := hstop
      cases max <;> simp [iterate, hnone]
  | cons u us ih =>
      obtain ⟨hu, hus⟩ := List.forall_mem_cons.mp hus
      rw [List.flatten_cons] at hrest hstop ⊢
      rw [← advance_append] at hstop ⊢
      obtain ⟨rest, hrest⟩ := hrest
      have hfirst := hu c ⟨us.flatten ++ rest, by rw [← List.append_assoc, hrest]⟩
      have hafter : (c.advance u).rest = us.flatten ++ rest := rest_advance (by rw [← hrest, List.append_assoc])
      cases max with
      | zero => simp at hmax
      | succ max =>
          simp only [List.length_cons] at hmin hmax
          have hlater := ih hus (c := c.advance u) (by omega : min - 1 ≤ us.length)
            (by omega : us.length ≤ max) ⟨rest, hafter.symm⟩ hstop
          simp only [iterate, if_true, List.head?_append, head?_flatMap hfirst hlater]
          rfl

end Preferred

/-! ## Longest matches -/

section Longest
variable {r s : Regex α} {c d e : Cursor α}

/-- There is one way at most to match at a position. -/
def Single (r : Regex α) : Prop := ∀ c, (r.ways c).length ≤ 1

/-- Longer matches are preferred. -/
def Ordered (r : Regex α) : Prop := ∀ c, (r.ways c).Pairwise fun d e => d.rest.length ≤ e.rest.length

theorem Ordered.le (hr : Ordered r) (hd : (r.ways c).head? = some d) (he : e ∈ r.ways c) :
    d.rest.length ≤ e.rest.length := by
  have hall := hr c
  obtain ⟨ds, hds⟩ := List.head?_eq_some_iff.mp hd
  rw [hds] at hall he
  rcases List.mem_cons.mp he with rfl | he
  · exact le_rfl
  · exact List.rel_of_pairwise_cons hall he

theorem Single.ordered (hr : Single r) : Ordered r := fun c => by
  have hlength := hr c
  cases hways : r.ways c with
  | nil => exact .nil
  | cons d ds =>
      rw [hways, List.length_cons] at hlength
      obtain rfl : ds = [] := List.length_eq_zero_iff.mp (by omega)
      exact List.pairwise_singleton ..

end Longest

end Regex
