import FleetManagement.Library.Regex

/-!
# Matching up to a character

A pattern none of whose characters is `s` has the same ways in two texts that agree up to an `s`, whatever
comes after it. The repetitions of a quoted text have one way at most.
-/

namespace Regex

variable {α : Type}

/-- The pattern reads no `s`, it has no assertion, and every repetition of it ends. -/
def Avoids (s : α) : Regex α → Prop
  | .eps => True
  | .one p => p s = false
  | .assert _ => False
  | .seq r q => r.Avoids s ∧ q.Avoids s
  | .alt r q => r.Avoids s ∧ q.Avoids s
  | .rep r _ _ _ => r.Avoids s ∧ ¬ r.Matches []
  | .group _ r => r.Avoids s
  | .backref _ => False

theorem avoids_chain {s : α} {rs : List (Regex α)} (h : ∀ r ∈ rs, r.Avoids s) : (chain rs).Avoids s := by
  match rs with
  | [] => trivial
  | [r] => exact h r List.mem_cons_self
  | r :: r' :: rs => exact ⟨h r List.mem_cons_self, avoids_chain (List.forall_mem_cons.mp h).2⟩

theorem avoids_anyOf {s : α} {r : Regex α} {rs : List (Regex α)} (h : ∀ q ∈ r :: rs, q.Avoids s) :
    (anyOf r rs).Avoids s := by
  induction rs generalizing r with
  | nil => exact h r List.mem_cons_self
  | cons q rs ih => exact ⟨h r List.mem_cons_self, ih (List.forall_mem_cons.mp h).2⟩

theorem not_mem_of_avoids {s : α} {r : Regex α} (hr : r.Avoids s) {w : List α} (hw : r.Matches w) : s ∉ w := by
  induction r generalizing w with
  | eps => cases hw; simp
  | one p =>
      obtain ⟨x, hx, rfl⟩ := hw
      rw [List.mem_singleton]
      rintro rfl
      rw [show p s = false from hr] at hx
      cases hx
  | assert p => exact hr.elim
  | seq r q ihr ihq =>
      obtain ⟨u, v, hu, hv, rfl⟩ := hw
      simp [ihr hr.1 hu, ihq hr.2 hv]
  | alt r q ihr ihq => exact hw.elim (ihr hr.1) (ihq hr.2)
  | rep r min max greedy ih =>
      obtain ⟨us, -, -, hus, rfl⟩ := hw
      intro hmem
      obtain ⟨u, hu, hmem⟩ := List.mem_flatten.mp hmem
      exact ih hr.1 (hus u hu) hmem
  | group name r ih => exact ih hr hw
  | backref name => exact hr.elim

/-- The number of rounds does not matter where a measure bounds them. -/
theorem iterate_rounds {f : Cursor α → List (Cursor α)} {P : Cursor α → Nat → Prop}
    (hf : ∀ c k, P c k → ∀ d ∈ f c, ∃ j < k, P d j) {greedy : Bool} {min n m k : Nat} {c : Cursor α}
    (hc : P c k) (hn : k ≤ n) (hm : k ≤ m) : iterate f greedy min n c = iterate f greedy min m c := by
  have hnone : ∀ c, P c 0 → f c = [] := fun c hc => List.eq_nil_iff_forall_not_mem.mpr fun d hd => by
    obtain ⟨j, hj, -⟩ := hf c 0 hc d hd
    exact absurd hj (Nat.not_lt_zero j)
  have hstop : ∀ n c, P c 0 → iterate f greedy min n c = if min = 0 then [c] else [] := fun n c hc => by
    cases n <;> cases greedy <;> simp [iterate, hnone c hc]
  induction n generalizing min m k c with
  | zero =>
      obtain rfl : k = 0 := Nat.le_zero.mp hn
      rw [hstop 0 c hc, hstop m c hc]
  | succ n ih =>
      cases m with
      | zero =>
          obtain rfl : k = 0 := Nat.le_zero.mp hm
          rw [hstop 0 c hc, hstop (n + 1) c hc]
      | succ m =>
          have hmore : (f c).flatMap (iterate f greedy (min - 1) n) =
              (f c).flatMap (iterate f greedy (min - 1) m) := List.flatMap_congr fun d hd => by
            obtain ⟨j, hj, hd⟩ := hf c k hc d hd
            exact ih hd (by omega) (by omega) fun n c hc => by
              cases n <;> cases greedy <;> simp [iterate, hnone c hc]
          simp only [iterate, hmore]

variable [DecidableEq α]

omit [DecidableEq α] in
/-- Two positions whose rests agree up to an `s`, with `left` and `right` after it. -/
structure Cut (s : α) (left right : List α) (c d : Cursor α) : Prop where
  split : ∃ w, c.rest = w ++ s :: left ∧ d.rest = w ++ s :: right
  groups : c.groups = d.groups

section Cuts
variable {s : α} {left right : List α} {c d : Cursor α}

omit [DecidableEq α] in
theorem Cut.head (h : Cut s left right c d) : c.rest.head? = d.rest.head? := by
  obtain ⟨w, hc, hd⟩ := h.split
  rw [hc, hd]
  cases w <;> rfl

omit [DecidableEq α] in
theorem Cut.advance {x : α} {rest : List α} (h : Cut s left right c d) (hc : c.rest = x :: rest) (hx : x ≠ s) :
    Cut s left right (c.advance [x]) (d.advance [x]) := by
  obtain ⟨w, hcw, hdw⟩ := h.split
  cases w with
  | nil => exact absurd (List.cons.inj (hc.symm.trans hcw)).1 hx
  | cons y w =>
      obtain ⟨rfl, -⟩ := List.cons.inj (hc.symm.trans hcw)
      exact ⟨⟨w, rest_advance hcw, rest_advance hdw⟩, h.groups⟩

omit [DecidableEq α] in
theorem Cut.upTo {c' d' : Cursor α} (h : Cut s left right c d) (h' : Cut s left right c' d') :
    c.upTo c' = d.upTo d' := by
  obtain ⟨w, hc, hd⟩ := h.split
  obtain ⟨v, hc', hd'⟩ := h'.split
  simp only [Cursor.upTo, hc, hd, hc', hd', List.length_append, List.length_cons, Nat.add_sub_add_right]
  rw [List.take_append_of_le_length (Nat.sub_le ..), List.take_append_of_le_length (Nat.sub_le ..)]

/-- What a pattern that avoids `s` reads stands before the next `s`. -/
theorem rest_of_avoids {r : Regex α} (hr : r.Avoids s) {w : List α} (hc : c.rest = w ++ s :: left)
    (hd : d ∈ r.ways c) : ∃ u v, w = u ++ v ∧ r.Matches u ∧ Reads c d u ∧ d.rest = v ++ s :: left := by
  obtain ⟨u, hu, hread⟩ := ways_sound hd
  have hno := not_mem_of_avoids hr hu
  rcases List.append_eq_append_iff.mp (hc.symm.trans hread.rest) with ⟨v, rfl, hv⟩ | ⟨v, rfl, hv⟩
  · cases v with
    | nil => exact ⟨w, [], by simp, by simpa using hu, by simpa using hread, hv.symm⟩
    | cons x v =>
        obtain ⟨rfl, -⟩ := List.cons.inj hv
        exact absurd (by simp) hno
  · exact ⟨u, v, rfl, hu, hread, hv⟩

theorem ways_cut {r : Regex α} (hr : r.Avoids s) (h : Cut s left right c d) :
    List.Forall₂ (Cut s left right) (r.ways c) (r.ways d) := by
  induction r generalizing c d with
  | eps => exact .cons h .nil
  | one p =>
      have hhead := h.head
      cases hrest : c.rest with
      | nil =>
          obtain ⟨w, hc, -⟩ := h.split
          rw [hrest] at hc
          simp at hc
      | cons x rest =>
          rw [hrest, List.head?_cons] at hhead
          obtain ⟨rest', hrest'⟩ := List.head?_eq_some_iff.mp hhead.symm
          simp only [ways, hrest, hrest']
          split
          · rename_i hx
            refine .cons (h.advance hrest ?_) .nil
            rintro rfl
            rw [show p x = false from hr] at hx
            cases hx
          · exact .nil
  | assert p => exact hr.elim
  | seq r q ihr ihq => exact List.rel_flatMap (ihr hr.1 h) fun _ _ hab => ihq hr.2 hab
  | alt r q ihr ihq => exact List.rel_append (ihr hr.1 h) (ihq hr.2 h)
  | rep r min max greedy ih =>
      cases max with
      | some n =>
          exact forall₂_iterate (fun _ _ hcd => ih hr.1 hcd) greedy min n h
      | none =>
          -- Each round reads a character before the `s`.
          have hbody : ∀ after (e : Cursor α) k, (∃ w, w.length = k ∧ e.rest = w ++ s :: after) →
              ∀ e' ∈ r.ways e, ∃ j < k, ∃ w, w.length = j ∧ e'.rest = w ++ s :: after := by
            rintro after e _ ⟨w, rfl, he⟩ e' he'
            obtain ⟨u, v, rfl, hu, -, hrest⟩ := rest_of_avoids hr.1 he he'
            refine ⟨v.length, ?_, v, rfl, hrest⟩
            have hpos := List.length_pos_of_ne_nil fun hnil : u = [] => hr.2 (hnil ▸ hu)
            rw [List.length_append]
            omega
          obtain ⟨w, hc, hd⟩ := h.split
          have hrounds : iterate r.ways greedy min d.rest.length d = iterate r.ways greedy min c.rest.length d :=
            iterate_rounds (hbody right) (k := w.length) ⟨w, rfl, hd⟩ (by rw [hd]; simp) (by rw [hc]; simp)
          simp only [ways, Option.getD_none, hrounds]
          exact forall₂_iterate (fun _ _ hcd => ih hr.1 hcd) greedy min _ h
  | group name r ih =>
      refine List.forall₂_map_left_iff.mpr (List.forall₂_map_right_iff.mpr ?_)
      refine (ih hr h).imp fun e e' he => ⟨he.split, ?_⟩
      simp only [Cursor.setGroup, h.upTo he, he.groups]
  | backref name => exact hr.elim

end Cuts

/-! ## Quoted texts -/

/-- The ways of a repetition of one character, and then something that stands at no place before `rest`. -/
theorem flatMap_iterate_one {β : Type} {p : α → Bool} {greedy : Bool} {g : Cursor α → List β}
    {body rest : List α} (hbody : ∀ x ∈ body, p x) (hrest : ∀ x ∈ rest.head?, p x = false) {c : Cursor α}
    (hc : c.rest = body ++ rest) (hg : ∀ u v, body = u ++ v → v ≠ [] → g (c.advance u) = []) {n : Nat}
    (hn : body.length ≤ n) :
    (iterate (one p).ways greedy 0 n c).flatMap g = g (c.advance body) := by
  induction body generalizing n c with
  | nil =>
      have hnone : (one p).ways c = [] := ways_one_of_not (by rw [hc]; exact hrest)
      cases n <;> cases greedy <;> simp [iterate, hnone]
  | cons x body ih =>
      obtain ⟨hx, hbody⟩ := List.forall_mem_cons.mp hbody
      have hone : (one p).ways c = [c.advance [x]] := by simp [ways, hc, hx]
      have hnow : g c = [] := hg [] (x :: body) rfl (List.cons_ne_nil x body)
      cases n with
      | zero => simp at hn
      | succ n =>
          have hlater := ih hbody (c := c.advance [x]) (rest_advance hc) (fun u v huv hv => by
            rw [advance_append]
            exact hg (x :: u) v (by rw [huv]; rfl) hv) (n := n) (by simpa using hn)
          rw [advance_append] at hlater
          cases greedy <;> simp [iterate, hone, hnow, hlater]

/-- A quoted text: a quote, other characters and the same quote. -/
def quoted (q : α) : Regex α := .chain [.one fun c => c == q, .star (.one fun c => c != q), .one fun c => c == q]

/-- A quoted text ends at the next quote. -/
theorem ways_quoted {q : α} {c : Cursor α} {body rest : List α} (hc : c.rest = q :: (body ++ q :: rest))
    (hbody : q ∉ body) : (quoted q).ways c = [c.advance (q :: (body ++ [q]))] := by
  have hopen : (one fun c => c == q).ways c = [c.advance [q]] := by simp [ways, hc]
  have hafter : (c.advance [q]).rest = body ++ q :: rest := rest_advance hc
  have hend : ((c.advance [q]).advance body).rest = q :: rest := rest_advance hafter
  have hinner : ∀ u v, body = u ++ v → v ≠ [] → (one fun c => c == q).ways ((c.advance [q]).advance u) = [] := by
    intro u v huv hv
    cases v with
    | nil => exact absurd rfl hv
    | cons x v =>
        have hx : ((c.advance [q]).advance u).rest = x :: (v ++ q :: rest) :=
          rest_advance (by rw [hafter, huv]; simp)
        refine ways_one_of_not fun y hy => ?_
        rw [hx, List.head?_cons, Option.mem_some_iff] at hy
        subst hy
        refine beq_eq_false_iff_ne.mpr ?_
        rintro rfl
        exact hbody (by rw [huv]; simp)
  have hstar : (seq (Regex.star (one fun c => c != q)) (one fun c => c == q)).ways (c.advance [q]) =
      (one fun c => c == q).ways ((c.advance [q]).advance body) := by
    simp only [ways, Regex.star, Option.getD_none]
    refine flatMap_iterate_one (p := fun c => c != q) (fun x hx => ?_) (by simp) hafter hinner (by rw [hafter]; simp)
    exact bne_iff_ne.mpr fun h => hbody (h ▸ hx)
  have hclose : (one fun c => c == q).ways ((c.advance [q]).advance body) =
      [((c.advance [q]).advance body).advance [q]] := by simp only [ways, hend]; simp
  have hall : (quoted q).ways c = ((one fun c => c == q).ways c).flatMap
      (seq (Regex.star (one fun c => c != q)) (one fun c => c == q)).ways := rfl
  rw [hall, hopen, List.flatMap_singleton, hstar, hclose, advance_append, advance_append]
  rfl

theorem ways_quoted_nil {q : α} {c : Cursor α} (h : ∀ body, c.rest = q :: body → q ∉ body) :
    (quoted q).ways c = [] := by
  refine List.eq_nil_iff_forall_not_mem.mpr fun d hd => ?_
  obtain ⟨_, ⟨_, _, ⟨x, hx, rfl⟩, ⟨body, _, -, ⟨y, hy, rfl⟩, rfl⟩, rfl⟩, hread⟩ := ways_sound hd
  rw [beq_iff_eq] at hx hy
  subst hx hy
  exact h _ hread.rest (by simp)

/-! ## Lazy repetitions -/

/-- The preferred way of a lazy repetition of one character, and then something: it stops where that first
stands. -/
theorem head?_flatMap_lazy {β : Type} {p : α → Bool} {g : Cursor α → List β} {n : Nat} {c : Cursor α} {a : β}
    (h : ((iterate (one p).ways false 0 n c).flatMap g).head? = some a) : ∃ w, w <+: c.rest ∧
      (g (c.advance w)).head? = some a ∧ (∀ u v, w = u ++ v → v ≠ [] → g (c.advance u) = []) ∧ ∀ x ∈ w, p x := by
  have hnow : (g c).head? = some a → ∃ w, w <+: c.rest ∧ (g (c.advance w)).head? = some a ∧
      (∀ u v, w = u ++ v → v ≠ [] → g (c.advance u) = []) ∧ ∀ x ∈ w, p x := fun ha =>
    ⟨[], List.nil_prefix, ha, fun u v huv hv => absurd (List.append_eq_nil_iff.mp huv.symm).2 hv, by simp⟩
  induction n generalizing c with
  | zero => exact hnow (by simpa [iterate] using h)
  | succ n ih =>
      have hsplit : (g c ++ ((one p).ways c).flatMap fun e => (iterate (one p).ways false 0 n e).flatMap g).head? =
          some a := by
        simpa [iterate, List.flatMap_assoc] using h
      cases hg : g c with
      | cons b bs =>
          rw [hg, List.cons_append, List.head?_cons] at hsplit
          exact hnow (by rw [hg, List.head?_cons, hsplit])
      | nil =>
          rw [hg, List.nil_append] at hsplit
          obtain ⟨e, he, ha⟩ := exists_of_head?_flatMap hsplit
          obtain ⟨_, ⟨x, hx, rfl⟩, hread⟩ := ways_sound he
          have hone : e = c.advance [x] := by
            simp only [ways, hread.rest, List.singleton_append, hx, if_true, List.mem_singleton] at he
            exact he
          subst hone
          have hlater := ih ha fun ha => ⟨[], List.nil_prefix, ha, fun u v huv hv =>
            absurd (List.append_eq_nil_iff.mp huv.symm).2 hv, by simp⟩
          obtain ⟨w, hw, ha, hno, hall⟩ := hlater
          refine ⟨x :: w, ?_, by rw [← List.singleton_append, ← advance_append]; exact ha, fun u v huv hv => ?_,
            List.forall_mem_cons.mpr ⟨hx, hall⟩⟩
          · obtain ⟨rest, hrest⟩ := hw
            exact ⟨rest, by rw [hread.rest, ← hrest]; rfl⟩
          · cases u with
            | nil => exact hg
            | cons y u =>
                obtain ⟨rfl, rfl⟩ := List.cons.inj huv
                have hlast := hno u v rfl hv
                rwa [advance_append] at hlast

end Regex
