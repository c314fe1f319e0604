import Mathlib.Data.List.Nodup

/-!
# Dictionaries in their order

A dictionary lists its items in the order in which the keys came in. An assignment to a key that is there
replaces its value.
-/

namespace PyDict

variable {K V : Type} [DecidableEq K]

/-- `d[k] = v` -/
def setItem (d : List (K × V)) (k : K) (v : V) : List (K × V) :=
  if k ∈ d.map Prod.fst then d.map fun p => if p.1 = k then (k, v) else p else d ++ [(k, v)]

/-- One assignment after another. -/
def update (d items : List (K × V)) : List (K × V) := items.foldl (fun d p => setItem d p.1 p.2) d

variable {d items : List (K × V)} {k : K} {v : V}

theorem setItem_of_not_mem (h : k ∉ d.map Prod.fst) : setItem d k v = d ++ [(k, v)] := if_neg h

theorem mem_setItem : (k, v) ∈ setItem d k v := by
  by_cases h : k ∈ d.map Prod.fst
  · obtain ⟨p, hp, hk⟩ := List.mem_map.mp h
    rw [setItem, if_pos h]
    exact List.mem_map.mpr ⟨p, hp, if_pos hk⟩
  · rw [setItem_of_not_mem h]
    simp

theorem mem_setItem_iff {p : K × V} : p ∈ setItem d k v ↔ p = (k, v) ∨ p ∈ d ∧ p.1 ≠ k := by
  by_cases h : k ∈ d.map Prod.fst
  · constructor
    · rw [setItem, if_pos h]
      rintro hp
      obtain ⟨q, hq, rfl⟩ := List.mem_map.mp hp
      by_cases hk : q.1 = k
      · simp [hk]
      · exact .inr (by simp [hk, hq])
    · rintro (rfl | ⟨hp, hk⟩)
      · exact mem_setItem
      · rw [setItem, if_pos h]
        exact List.mem_map.mpr ⟨p, hp, if_neg hk⟩
  · have hne : p ∈ d → p.1 ≠ k := fun hp hk => h (hk ▸ List.mem_map_of_mem hp)
    rw [setItem_of_not_mem h, List.mem_append, List.mem_singleton, or_comm, and_iff_left_of_imp hne]

@[simp] theorem update_nil : update d [] = d := rfl

@[simp] theorem update_cons {p : K × V} : update d (p :: items) = update (setItem d p.1 p.2) items := rfl

theorem update_append {items' : List (K × V)} : update d (items ++ items') = update (update d items) items' :=
  List.foldl_append

/-- Assignments to new keys append. -/
theorem mem_of_mem_update {p : K × V} (h : p ∈ update d items) : p ∈ d ∨ p ∈ items := by
  induction items generalizing d with
  | nil => exact Or.inl h
  | cons q items ih =>
      rw [update_cons] at h
      rcases ih h with h | h
      · rcases mem_setItem_iff.mp h with rfl | h
        · exact Or.inr List.mem_cons_self
        · exact Or.inl h.1
      · exact Or.inr (List.mem_cons_of_mem _ h)

theorem update_of_nodup (h : ((d ++ items).map Prod.fst).Nodup) : update d items = d ++ items := by
  induction items generalizing d with
  | nil => simp
  | cons p items ih =>
      have hfresh : p.1 ∉ d.map Prod.fst := by
        rw [List.map_append, List.map_cons] at h
        exact fun hp => (List.nodup_append'.mp h).2.2 hp List.mem_cons_self
      have happend : d ++ [p] ++ items = d ++ p :: items := by simp
      rw [update_cons, setItem_of_not_mem hfresh, ih (by rwa [happend]), happend]

omit [DecidableEq K] in
theorem lookup_of_mem [BEq K] [LawfulBEq K] (hd : (d.map Prod.fst).Nodup) (h : (k, v) ∈ d) :
    d.lookup k = some v := by
  induction d with
  | nil => cases h
  | cons p d ih =>
      obtain ⟨hfirst, hd⟩ := List.nodup_cons.mp hd
      rcases List.mem_cons.mp h with rfl | h
      · simp
      · have hne : k ≠ p.1 := fun hk => hfirst (List.mem_map.mpr ⟨(k, v), h, hk⟩)
        rw [List.lookup_cons, beq_eq_false_iff_ne.mpr hne]
        exact ih hd h

end PyDict
