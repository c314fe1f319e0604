import FleetManagement.Library.Table

/-!
# References between tables

A column of one table refers to another table when each of its values is a key there. Rows that are added
are checked, rows that are referred to may change but stay. A table retains its rows when they are still
there later, changed along a relation at most.
-/

open Keyed (key maxKey)

namespace Table

variable {ρ σ : Type} [Keyed ρ] [Keyed σ] {t : Table ρ} {u : Table σ} {f : ρ → Option Int}

/-- Every value of the column `f` of `t` is a key of `u`. -/
def Refers (t : Table ρ) (f : ρ → Option Int) (u : Table σ) : Prop :=
  ∀ r ∈ t.rows, ∀ i, f r = some i → ∃ q, u.find? i = some q

theorem refers_empty : (Table.empty : Table ρ).Refers f u := fun _ hr => by cases hr

/-! ## Changes of the table that refers -/

theorem Refers.insert {h mk hk} (hrefers : t.Refers f u)
    (hnew : ∀ i, f (mk (t.seq + 1)) = some i → ∃ q, u.find? i = some q) :
    (t.insert h mk hk).Refers f u := by
  intro r hr
  rcases List.mem_append.mp hr with hr | hr
  · exact hrefers r hr
  · rw [List.mem_singleton.mp hr]
    exact hnew

/-- An update writes the column with a key that exists, or leaves it as it is. -/
theorem Refers.update {i : Int} {g : ρ → ρ} (hrefers : t.Refers f u) (hg : ∀ r, key (g r) = key r)
    (hnew : ∀ r, f (g r) = f r ∨ ∀ j, f (g r) = some j → ∃ q, u.find? j = some q) :
    (t.update i g hg).Refers f u := by
  intro r hr
  rcases mem_update.mp hr with ⟨hr, -⟩ | ⟨q, hq, rfl⟩
  · exact hrefers r hr
  · rcases hnew q with hsame | hexists
    · rw [hsame]
      exact hrefers q (mem_of_find? hq)
    · exact hexists

theorem Refers.deleteWhere {p : ρ → Bool} (hrefers : t.Refers f u) : (t.deleteWhere p).Refers f u :=
  fun r hr => hrefers r (List.mem_of_mem_filter hr)

/-! ## Changes of the table that is referred to -/

theorem Refers.insert_right {h mk hk} (hrefers : t.Refers f u) : t.Refers f (u.insert h mk hk) := by
  intro r hr i hi
  obtain ⟨q, hq⟩ := hrefers r hr i hi
  exact ⟨q, find?_insert_of_some hq⟩

theorem Refers.update_right {i : Int} {g : σ → σ} (hrefers : t.Refers f u)
    (hg : ∀ q, key (g q) = key q) : t.Refers f (u.update i g hg) := by
  intro r hr j hj
  obtain ⟨q, hq⟩ := hrefers r hr j hj
  exact exists_find?_update hg hq

/-! ## Rows that stay -/

section Retains
variable {rel : ρ → ρ → Prop} {v : Table ρ}

/-- Every row of `t` is in `w`, changed along `rel` at most. -/
def Retains (t : Table ρ) (rel : ρ → ρ → Prop) (w : Table ρ) : Prop :=
  ∀ i r, t.find? i = some r → ∃ q, w.find? i = some q ∧ rel r q

theorem retains_refl (hrel : ∀ r, rel r r) (t : Table ρ) : t.Retains rel t := fun _ r hr => ⟨r, hr, hrel r⟩

theorem Retains.trans {w : Table ρ} (hrel : ∀ p q r, rel p q → rel q r → rel p r) (h : t.Retains rel v)
    (h' : v.Retains rel w) : t.Retains rel w := by
  intro i r hr
  obtain ⟨q, hq, hrq⟩ := h i r hr
  obtain ⟨q', hq', hqq'⟩ := h' i q hq
  exact ⟨q', hq', hrel _ _ _ hrq hqq'⟩

theorem retains_insert {h mk hk} (hrel : ∀ r, rel r r) : t.Retains rel (t.insert h mk hk) :=
  fun _ r hr => ⟨r, find?_insert_of_some hr, hrel r⟩

theorem retains_update {i : Int} {g : ρ → ρ} (hg : ∀ r, key (g r) = key r) (hrel : ∀ r, rel r r)
    (hgrel : ∀ r, rel r (g r)) : t.Retains rel (t.update i g hg) := by
  intro j r hr
  by_cases hij : j = i
  · subst hij
    exact ⟨g r, find?_update_self hr, hgrel r⟩
  · exact ⟨r, (find?_update_of_ne hij).trans hr, hrel r⟩

end Retains

end Table
