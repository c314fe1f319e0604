import Mathlib.Data.List.Sort
import Mathlib.Data.List.Nodup

/-!
# Newest rows

`ORDER BY ... DESC LIMIT 1` and `SELECT DISTINCT ON` over lists of rows, and dictionaries built from
lists of entries.
-/

namespace Query

variable {ρ κ τ : Type} [LinearOrder κ] [LinearOrder τ] (g : ρ → κ) (f : ρ → τ)

/-- `ORDER BY f DESC LIMIT 1`. -/
def newest? (l : List ρ) : Option ρ := (l.insertionSort fun a b => f b ≤ f a).head?

/-- `DISTINCT ON (g)`: the first row of each group. -/
def distinctOn : List ρ → List ρ
  | [] => []
  | r :: l => r :: (distinctOn l).filter fun q => g q ≠ g r

/-- `ORDER BY g, f DESC`. -/
def groupOrder (a b : ρ) : Prop := g a < g b ∨ (g a = g b ∧ f b ≤ f a)

instance : DecidableRel (groupOrder g f) := fun a b =>
  inferInstanceAs (Decidable (g a < g b ∨ (g a = g b ∧ f b ≤ f a)))

/-- `SELECT DISTINCT ON (g) ... ORDER BY g, f DESC`. -/
def newestEach (l : List ρ) : List ρ :=
  distinctOn g (l.insertionSort (groupOrder g f))

variable {g f} {l : List ρ} {r : ρ}

/-! ## The newest row -/

instance total_newer : Std.Total fun a b : ρ => f b ≤ f a := ⟨fun a b => le_total (f b) (f a)⟩

instance isTrans_newer : IsTrans ρ fun a b => f b ≤ f a := ⟨fun _ _ _ hab hbc => le_trans hbc hab⟩

theorem newest?_eq_none : newest? f l = none ↔ l = [] := by
  rw [newest?, List.head?_eq_none_iff, ← List.length_eq_zero_iff, List.length_insertionSort,
    List.length_eq_zero_iff]

theorem newest?_mem (h : newest? f l = some r) : r ∈ l :=
  (List.mem_insertionSort _).mp (List.mem_of_head? h)

theorem newest?_max (h : newest? f l = some r) : ∀ q ∈ l, f q ≤ f r := by
  intro q hq
  have hsorted := List.pairwise_insertionSort (fun a b => f b ≤ f a) l
  have hmem := (List.mem_insertionSort fun a b => f b ≤ f a).mpr hq
  rw [newest?] at h
  cases hl : l.insertionSort fun a b => f b ≤ f a with
  | nil => rw [hl] at h; cases h
  | cons a rest =>
      rw [hl] at h hsorted hmem
      cases h
      rcases List.mem_cons.mp hmem with rfl | hq
      · exact le_refl _
      · exact List.rel_of_pairwise_cons hsorted hq

/-- Where no two rows tie, the newest row is the one that no other exceeds. -/
theorem newest?_eq_some (hf : ∀ p ∈ l, ∀ q ∈ l, f p = f q → p = q) :
    newest? f l = some r ↔ r ∈ l ∧ ∀ q ∈ l, f q ≤ f r := by
  constructor
  · intro h
    exact ⟨newest?_mem h, newest?_max h⟩
  · rintro ⟨hr, hmax⟩
    cases hn : newest? f l with
    | none => rw [newest?_eq_none.mp hn] at hr; cases hr
    | some q =>
        have hq := newest?_mem hn
        rw [hf q hq r hr (le_antisymm (hmax q hq) (newest?_max hn r hr))]

/-! ## The newest row of each group -/

theorem nodup_distinctOn (l : List ρ) : ((distinctOn g l).map g).Nodup := by
  induction l with
  | nil => exact List.nodup_nil
  | cons r l ih =>
      refine List.nodup_cons.mpr ⟨?_, ih.sublist (List.filter_sublist.map g)⟩
      intro hmem
      obtain ⟨q, hq, heq⟩ := List.mem_map.mp hmem
      simp [heq] at hq

theorem find?_distinctOn (k : κ) (l : List ρ) :
    (distinctOn g l).find? (fun q => g q = k) = l.find? fun q => g q = k := by
  induction l with
  | nil => rfl
  | cons r l ih =>
      by_cases hr : g r = k
      · simp [distinctOn, hr]
      · rw [distinctOn, List.find?_cons_of_neg (by simpa using hr),
          List.find?_cons_of_neg (by simpa using hr), ← ih, List.find?_filter]
        congr 1
        funext q
        by_cases hq : g q = k
        · simp [hq, Ne.symm hr]
        · simp [hq]

instance total_groupOrder : Std.Total (groupOrder g f) where
  total a b := by
    rcases lt_trichotomy (g a) (g b) with h | h | h
    · exact Or.inl (Or.inl h)
    · rcases le_total (f b) (f a) with hf | hf
      · exact Or.inl (Or.inr ⟨h, hf⟩)
      · exact Or.inr (Or.inr ⟨h.symm, hf⟩)
    · exact Or.inr (Or.inl h)

instance isTrans_groupOrder : IsTrans ρ (groupOrder g f) where
  trans a b c := by
    rintro (hab | ⟨hab, hf⟩) (hbc | ⟨hbc, hf'⟩)
    · exact Or.inl (lt_trans hab hbc)
    · exact Or.inl (hbc ▸ hab)
    · exact Or.inl (hab ▸ hbc)
    · exact Or.inr ⟨hab.trans hbc, le_trans hf' hf⟩

theorem nodup_newestEach (l : List ρ) : ((newestEach g f l).map g).Nodup := nodup_distinctOn _

/-- Where no two rows of a group tie, `newestEach` finds for each group what the query for that group
alone finds. -/
theorem find?_newestEach {k : κ}
    (hf : ∀ p ∈ l, ∀ q ∈ l, g p = k → g q = k → f p = f q → p = q) :
    (newestEach g f l).find? (fun q => g q = k) = newest? f (l.filter fun q => g q = k) := by
  have hmem : ∀ q, q ∈ l.filter (fun q => g q = k) ↔ q ∈ l ∧ g q = k := fun q => by simp
  have hsort : ∀ q, q ∈ l.insertionSort (groupOrder g f) ↔ q ∈ l := fun q => List.mem_insertionSort _
  rw [newestEach, find?_distinctOn]
  cases hfind : (l.insertionSort (groupOrder g f)).find? fun q => g q = k with
  | none =>
      symm
      rw [newest?_eq_none, List.filter_eq_nil_iff]
      exact fun q hq => by simpa using List.find?_eq_none.mp hfind q ((hsort q).mpr hq)
  | some r =>
      symm
      have hr : g r = k := by simpa using List.find?_some hfind
      refine (newest?_eq_some ?_).mpr ⟨(hmem r).mpr ⟨(hsort r).mp (List.mem_of_find?_eq_some hfind), hr⟩, ?_⟩
      · intro p hp q hq hpq
        exact hf p ((hmem p).mp hp).1 q ((hmem q).mp hq).1 ((hmem p).mp hp).2 ((hmem q).mp hq).2 hpq
      · intro q hq
        obtain ⟨hq, hqk⟩ := (hmem q).mp hq
        obtain ⟨-, l₁, l₂, hsplit, hbefore⟩ := List.find?_eq_some_iff_append.mp hfind
        have hq' := (hsort q).mpr hq
        rw [hsplit] at hq'
        rcases List.mem_append.mp hq' with hq' | hq'
        · exact absurd hqk (by simpa using hbefore q hq')
        rcases List.mem_cons.mp hq' with rfl | hq'
        · exact le_refl _
        have hsorted := List.pairwise_insertionSort (groupOrder g f) l
        rw [hsplit] at hsorted
        have hle := List.rel_of_pairwise_cons (List.pairwise_append.mp hsorted).2.1 hq'
        rcases hle with hlt | ⟨-, hle⟩
        · exact absurd (hr.trans hqk.symm) (ne_of_lt hlt)
        · exact hle

/-! ## Dictionaries -/

/-- The dictionary of the entries `l`; a later entry replaces an earlier one with its key. -/
def dict {α : Type} (l : List (κ × α)) (k : κ) : Option α := l.reverse.lookup k

theorem dict_eq_none {α : Type} {l : List (κ × α)} {k : κ} :
    dict l k = none ↔ k ∉ l.map Prod.fst := by
  rw [dict, List.lookup_eq_none_iff]
  constructor
  · intro h hmem
    obtain ⟨e, he, rfl⟩ := List.mem_map.mp hmem
    simpa using h e (List.mem_reverse.mpr he)
  · intro h e he
    simp only [bne_iff_ne]
    rintro rfl
    exact h (List.mem_map_of_mem (List.mem_reverse.mp he))

theorem dict_eq_some {α : Type} {l : List (κ × α)} {k : κ} {a : α} (hnd : (l.map Prod.fst).Nodup) :
    dict l k = some a ↔ (k, a) ∈ l := by
  constructor
  · intro h
    obtain ⟨l₁, l₂, hl, -⟩ := List.lookup_eq_some_iff.mp h
    exact List.mem_reverse.mp (hl ▸ List.mem_append_right _ List.mem_cons_self)
  · intro h
    cases hd : dict l k with
    | none => exact absurd (List.mem_map_of_mem (f := Prod.fst) h) (dict_eq_none.mp hd)
    | some b =>
        obtain ⟨l₁, l₂, hl, -⟩ := List.lookup_eq_some_iff.mp hd
        have hb : (k, b) ∈ l := List.mem_reverse.mp (hl ▸ List.mem_append_right _ List.mem_cons_self)
        rw [(Prod.mk.inj (List.inj_on_of_nodup_map hnd hb h rfl)).2]

/-- The dictionary of what `f` knows about the keys `ks`. -/
theorem dict_filterMap {α : Type} {ks : List κ} (f : κ → Option α) (hnd : ks.Nodup) {k : κ}
    (hk : k ∈ ks) : dict (ks.filterMap fun k => (f k).map fun a => (k, a)) k = f k := by
  have hkeys : ∀ ks : List κ, (ks.filterMap fun k => (f k).map fun a => (k, a)).map Prod.fst =
      ks.filter fun k => (f k).isSome := by
    intro ks
    induction ks with
    | nil => rfl
    | cons k ks ih => cases hf : f k <;> simp [hf, ih]
  cases hf : f k with
  | none =>
      rw [dict_eq_none, hkeys]
      simp [hf]
  | some a =>
      rw [dict_eq_some (hkeys ks ▸ hnd.filter _)]
      exact List.mem_filterMap.mpr ⟨k, hk, by rw [hf]; rfl⟩

/-- The dictionary of rows by the value of `g`, where no two rows share one. -/
theorem dict_map {l : List ρ} {g : ρ → κ} (hnd : (l.map g).Nodup) (k : κ) :
    dict (l.map fun r => (g r, r)) k = l.find? fun r => g r = k := by
  have hkeys : (l.map fun r => (g r, r)).map Prod.fst = l.map g := by
    rw [List.map_map]; rfl
  cases hfind : l.find? fun r => g r = k with
  | none =>
      rw [dict_eq_none, hkeys]
      intro hmem
      obtain ⟨r, hr, hrk⟩ := List.mem_map.mp hmem
      simpa [hrk] using List.find?_eq_none.mp hfind r hr
  | some r =>
      have hr : g r = k := by simpa using List.find?_some hfind
      rw [dict_eq_some (hkeys ▸ hnd)]
      exact List.mem_map.mpr ⟨r, List.mem_of_find?_eq_some hfind, by rw [hr]⟩

end Query
