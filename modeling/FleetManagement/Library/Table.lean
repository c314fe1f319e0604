import Mathlib.Data.List.Forall2
import Mathlib.Data.List.Nodup

/-!
# Tables with sequential primary keys

A table keeps its rows in the order of their keys. Keys come from a sequence, so they are positive,
never issued twice and never above the largest value of the key column.
-/

/-- Rows with an integer primary key, whose column holds values up to `maxKey`. -/
class Keyed (ρ : Type) where
  key : ρ → Int
  maxKey : Nat

open Keyed (key maxKey)

structure Table (ρ : Type) [Keyed ρ] where
  rows : List ρ
  /-- The last value that the sequence of the key column has issued. -/
  seq : Nat
  sorted : rows.Pairwise fun a b => key a < key b
  issued : ∀ r ∈ rows, 0 < key r ∧ key r ≤ seq
  bounded : seq ≤ maxKey ρ

namespace Table

variable {ρ : Type} [Keyed ρ]

@[ext] theorem ext {t u : Table ρ} (hr : t.rows = u.rows) (hs : t.seq = u.seq) : t = u := by
  cases t; cases u; cases hr; cases hs; rfl

def empty : Table ρ where
  rows := []
  seq := 0
  sorted := List.Pairwise.nil
  issued := by simp
  bounded := Nat.zero_le _

def find? (t : Table ρ) (i : Int) : Option ρ := t.rows.find? fun r => key r = i

def count (t : Table ρ) (p : ρ → Bool) : Nat := t.rows.countP p

/-- Adds the row that `mk` makes of the next key of the sequence. -/
def insert (t : Table ρ) (h : t.seq < maxKey ρ) (mk : Int → ρ) (hk : ∀ i, key (mk i) = i) :
    Table ρ where
  rows := t.rows ++ [mk (t.seq + 1)]
  seq := t.seq + 1
  sorted := by
    refine List.pairwise_append.mpr ⟨t.sorted, List.pairwise_singleton _ _, ?_⟩
    intro a ha b hb
    rw [List.mem_singleton.mp hb, hk]
    have := (t.issued a ha).2
    omega
  issued := by
    intro r hr
    rcases List.mem_append.mp hr with hr | hr
    · have := t.issued r hr
      push_cast; omega
    · rw [List.mem_singleton.mp hr, hk]
      push_cast; omega
  bounded := h

/-- Takes the next key of the sequence for no row, as an `INSERT` does that ends in `DO NOTHING`. -/
def advance (t : Table ρ) (h : t.seq < maxKey ρ) : Table ρ where
  rows := t.rows
  seq := t.seq + 1
  sorted := t.sorted
  issued := by
    intro r hr
    have := t.issued r hr
    push_cast; omega
  bounded := h

/-- Replaces the row with the primary key `i` by its image under `f`. -/
def update (t : Table ρ) (i : Int) (f : ρ → ρ) (hf : ∀ r, key (f r) = key r) : Table ρ where
  rows := t.rows.map fun r => if key r = i then f r else r
  seq := t.seq
  sorted := by
    refine List.pairwise_map.mpr (t.sorted.imp ?_)
    intro a b hab
    have hkey : ∀ r : ρ, key (if key r = i then f r else r) = key r := by
      intro r; split
      · exact hf r
      · rfl
    rw [hkey, hkey]; exact hab
  issued := by
    intro r hr
    obtain ⟨q, hq, rfl⟩ := List.mem_map.mp hr
    have := t.issued q hq
    split
    · rw [hf]; exact this
    · exact this
  bounded := t.bounded

def mapRows (t : Table ρ) (f : ρ → ρ) (hf : ∀ r, key (f r) = key r) : Table ρ where
  rows := t.rows.map f
  seq := t.seq
  sorted := by
    refine List.pairwise_map.mpr (t.sorted.imp ?_)
    intro a b hab
    rw [hf, hf]; exact hab
  issued := by
    intro r hr
    obtain ⟨q, hq, rfl⟩ := List.mem_map.mp hr
    rw [hf]; exact t.issued q hq
  bounded := t.bounded

/-- Updates the rows `l` one after another, each by what `f` makes of it. -/
def updateAll (t : Table ρ) (f : ρ → ρ → ρ) (hf : ∀ q r, key (f q r) = key r) : List ρ → Table ρ
  | [] => t
  | q :: l => (t.update (key q) (f q) (hf q)).updateAll f hf l

def deleteWhere (t : Table ρ) (p : ρ → Bool) : Table ρ where
  rows := t.rows.filter fun r => !p r
  seq := t.seq
  sorted := t.sorted.filter _
  issued := fun r hr => t.issued r (List.mem_of_mem_filter hr)
  bounded := t.bounded

@[simp] theorem rows_empty : (empty : Table ρ).rows = [] := rfl

@[simp] theorem rows_insert (t : Table ρ) (h mk hk) :
    (t.insert h mk hk).rows = t.rows ++ [mk (t.seq + 1)] := rfl

@[simp] theorem seq_insert (t : Table ρ) (h mk hk) : (t.insert h mk hk).seq = t.seq + 1 := rfl

@[simp] theorem rows_advance (t : Table ρ) (h) : (t.advance h).rows = t.rows := rfl

@[simp] theorem seq_advance (t : Table ρ) (h) : (t.advance h).seq = t.seq + 1 := rfl

@[simp] theorem rows_update (t : Table ρ) (i f hf) :
    (t.update i f hf).rows = t.rows.map fun r => if key r = i then f r else r := rfl

@[simp] theorem seq_update (t : Table ρ) (i f hf) : (t.update i f hf).seq = t.seq := rfl

@[simp] theorem rows_mapRows (t : Table ρ) (f hf) : (t.mapRows f hf).rows = t.rows.map f := rfl

@[simp] theorem seq_mapRows (t : Table ρ) (f hf) : (t.mapRows f hf).seq = t.seq := rfl

@[simp] theorem rows_deleteWhere (t : Table ρ) (p) :
    (t.deleteWhere p).rows = t.rows.filter fun r => !p r := rfl

@[simp] theorem seq_deleteWhere (t : Table ρ) (p) : (t.deleteWhere p).seq = t.seq := rfl

/-! ## Rows by key -/

variable {t : Table ρ} {i j : Int} {r : ρ}

theorem nodup_keys (t : Table ρ) : (t.rows.map key).Nodup :=
  List.pairwise_map.mpr (t.sorted.imp Int.ne_of_lt)

theorem eq_of_key {a b : ρ} (ha : a ∈ t.rows) (hb : b ∈ t.rows) (h : key a = key b) : a = b :=
  List.inj_on_of_nodup_map t.nodup_keys ha hb h

theorem find?_eq_some : t.find? i = some r ↔ r ∈ t.rows ∧ key r = i := by
  constructor
  · intro h
    exact ⟨List.mem_of_find?_eq_some h, by simpa using List.find?_some h⟩
  · rintro ⟨hr, rfl⟩
    cases hf : t.find? (key r) with
    | none => simpa using List.find?_eq_none.mp hf r hr
    | some q =>
        have hq : key q = key r := by simpa using List.find?_some hf
        rw [eq_of_key (List.mem_of_find?_eq_some hf) hr hq]

theorem find?_eq_none : t.find? i = none ↔ ∀ r ∈ t.rows, key r ≠ i := by
  simp [find?]

theorem mem_of_find? (h : t.find? i = some r) : r ∈ t.rows := (find?_eq_some.mp h).1

theorem key_of_find? (h : t.find? i = some r) : key r = i := (find?_eq_some.mp h).2

theorem find?_key (h : r ∈ t.rows) : t.find? (key r) = some r := find?_eq_some.mpr ⟨h, rfl⟩

theorem find?_fresh (h : (t.seq : Int) < i) : t.find? i = none := by
  refine find?_eq_none.mpr fun r hr => ?_
  have := (t.issued r hr).2
  omega

theorem key_le_maxKey (h : t.find? i = some r) : 0 < i ∧ i ≤ maxKey ρ := by
  obtain ⟨hr, rfl⟩ := find?_eq_some.mp h
  have := t.issued r hr
  have := t.bounded
  omega

/-- `l` lists the rows of the table with the property `p` once each, in the order of their keys. -/
structure Lists (t : Table ρ) (p : ρ → Prop) (l : List ρ) : Prop where
  mem : ∀ r, r ∈ l ↔ r ∈ t.rows ∧ p r
  ordered : l.Pairwise fun a b => key a < key b

theorem lists_filter (t : Table ρ) (p : ρ → Prop) [DecidablePred p] :
    t.Lists p (t.rows.filter fun r => decide (p r)) where
  mem r := by simp
  ordered := t.sorted.filter _

/-- Two tables with the same rows of a kind have the same list of them. -/
theorem Lists.eq {u : Table ρ} {p q : ρ → Prop} {l m : List ρ} (hl : t.Lists p l) (hm : u.Lists q m)
    (h : ∀ r, r ∈ t.rows ∧ p r ↔ r ∈ u.rows ∧ q r) : l = m := by
  have hperm : l.Perm m := by
    refine (List.perm_ext_iff_of_nodup ?_ ?_).mpr fun r => ?_
    · exact hl.ordered.imp fun hab e => by subst e; exact absurd hab (Int.lt_irrefl _)
    · exact hm.ordered.imp fun hab e => by subst e; exact absurd hab (Int.lt_irrefl _)
    · rw [hl.mem, hm.mem]; exact h r
  refine hperm.eq_of_pairwise (fun a b _ _ hab hba => ?_) hl.ordered hm.ordered
  exact absurd (Int.lt_trans hab hba) (Int.lt_irrefl _)

theorem find?_insert (h mk hk) :
    (t.insert h mk hk).find? i = if i = t.seq + 1 then some (mk (t.seq + 1)) else t.find? i := by
  simp only [find?, rows_insert, List.find?_append]
  split
  · subst i
    have : t.find? (t.seq + 1) = none := find?_fresh (by omega)
    simp only [find?] at this
    simp [this, hk]
  · rename_i hi
    have : ¬ ((t.seq : Int) + 1 = i) := fun e => hi e.symm
    simp [hk, this]

theorem find?_insert_of_some {h mk hk} (hi : t.find? i = some r) :
    (t.insert h mk hk).find? i = some r := by
  have := (t.issued r (mem_of_find? hi)).2
  rw [key_of_find? hi] at this
  rw [find?_insert, if_neg (by omega), hi]

/-- A row found by its key splits the table, and no other row has that key. -/
theorem split_of_find? (h : t.find? i = some r) :
    ∃ l₁ l₂, t.rows = l₁ ++ r :: l₂ ∧ ∀ q, q ∈ l₁ ∨ q ∈ l₂ → key q ≠ i := by
  obtain ⟨hr, rfl⟩ := find?_eq_some.mp h
  obtain ⟨l₁, l₂, hl⟩ := List.append_of_mem hr
  refine ⟨l₁, l₂, hl, ?_⟩
  have hs := t.sorted
  rw [hl, List.pairwise_append, List.pairwise_cons] at hs
  rintro q (hq | hq)
  · have := hs.2.2 q hq r List.mem_cons_self
    omega
  · have := hs.2.1.1 q hq
    omega

theorem map_update_of_ne {l : List ρ} {f : ρ → ρ} (h : ∀ q ∈ l, key q ≠ i) :
    (l.map fun q => if key q = i then f q else q) = l := by
  refine (List.map_congr_left fun q hq => ?_).trans (List.map_id l)
  rw [if_neg (h q hq)]; rfl

theorem update_rows {l₁ l₂ : List ρ} {f hf} (hl : t.rows = l₁ ++ r :: l₂) (hr : key r = i)
    (hne : ∀ q, q ∈ l₁ ∨ q ∈ l₂ → key q ≠ i) : (t.update i f hf).rows = l₁ ++ f r :: l₂ := by
  rw [rows_update, hl, List.map_append, List.map_cons, if_pos hr,
    map_update_of_ne fun q hq => hne q (Or.inl hq), map_update_of_ne fun q hq => hne q (Or.inr hq)]

theorem find?_update (f hf) :
    (t.update i f hf).find? j = if j = i then (t.find? i).map f else t.find? j := by
  have hkey : ∀ q : ρ, key (if key q = i then f q else q) = key q := by
    intro q; split
    · exact hf q
    · rfl
  have hmap : (t.update i f hf).find? j = (t.find? j).map fun q => if key q = i then f q else q := by
    simp only [find?, rows_update, List.find?_map, Function.comp_def, hkey]
  rw [hmap]
  cases hj : t.find? j with
  | none =>
      by_cases hji : j = i
      · rw [if_pos hji, ← hji, hj]; rfl
      · rw [if_neg hji]; rfl
  | some q =>
      have hq := key_of_find? hj
      by_cases hji : j = i
      · rw [if_pos hji, ← hji, hj, Option.map_some, Option.map_some, if_pos hq]
      · rw [if_neg hji, Option.map_some, if_neg (hq ▸ hji)]

theorem find?_update_of_ne {f hf} (h : j ≠ i) : (t.update i f hf).find? j = t.find? j := by
  rw [find?_update, if_neg h]

theorem find?_update_self {f hf} (h : t.find? i = some r) :
    (t.update i f hf).find? i = some (f r) := by
  rw [find?_update, if_pos rfl, h]; rfl

theorem exists_find?_update {f : ρ → ρ} (hf : ∀ r, key (f r) = key r) (h : t.find? j = some r) :
    ∃ q, (t.update i f hf).find? j = some q := by
  by_cases hji : j = i
  · subst hji; exact ⟨f r, find?_update_self h⟩
  · exact ⟨r, (find?_update_of_ne hji).trans h⟩

theorem update_congr {f f' : ρ → ρ} (hf : ∀ r, key (f r) = key r) (hf' : ∀ r, key (f' r) = key r)
    (h : t.find? i = some r) (hr : f r = f' r) : t.update i f hf = t.update i f' hf' := by
  refine Table.ext (List.map_congr_left fun q hq => ?_) rfl
  by_cases hqi : key q = i
  · obtain rfl : q = r := eq_of_key hq (mem_of_find? h) (hqi.trans (key_of_find? h).symm)
    rw [if_pos hqi, if_pos hqi, hr]
  · rw [if_neg hqi, if_neg hqi]

theorem mem_update {f hf} {q : ρ} :
    q ∈ (t.update i f hf).rows ↔ (q ∈ t.rows ∧ key q ≠ i) ∨ ∃ r, t.find? i = some r ∧ q = f r := by
  constructor
  · intro h
    obtain ⟨p, hp, rfl⟩ := List.mem_map.mp h
    by_cases hi : key p = i
    · exact Or.inr ⟨p, find?_eq_some.mpr ⟨hp, hi⟩, if_pos hi⟩
    · rw [if_neg hi]; exact Or.inl ⟨hp, hi⟩
  · rintro (⟨hq, hne⟩ | ⟨r, hr, rfl⟩)
    · exact List.mem_map.mpr ⟨q, hq, if_neg hne⟩
    · exact List.mem_map.mpr ⟨r, mem_of_find? hr, if_pos (key_of_find? hr)⟩

/-- What holds of every row, and of the new version of the updated one, holds after an update. -/
theorem forall_mem_update {f : ρ → ρ} (hf : ∀ r, key (f r) = key r) {P : ρ → Prop}
    (h : ∀ q ∈ t.rows, key q ≠ i → P q) (hi : ∀ r, t.find? i = some r → P (f r)) :
    ∀ q ∈ (t.update i f hf).rows, P q := by
  intro q hq
  rcases mem_update.mp hq with ⟨hq, hne⟩ | ⟨r, hr, rfl⟩
  · exact h q hq hne
  · exact hi r hr

theorem keys_update {f : ρ → ρ} (hf : ∀ r, key (f r) = key r) :
    (t.update i f hf).rows.map key = t.rows.map key := by
  rw [rows_update, List.map_map]
  refine List.map_congr_left fun q _ => ?_
  by_cases hq : key q = i <;> simp [hq, hf]

/-! ## Counting rows -/

theorem count_insert (h mk hk) (p : ρ → Bool) :
    (t.insert h mk hk).count p = t.count p + (p (mk (t.seq + 1))).toNat := by
  cases hp : p (mk (t.seq + 1)) <;> simp [count, hp]

theorem count_update {f : ρ → ρ} (hf : ∀ r, key (f r) = key r) (p : ρ → Bool)
    (h : t.find? i = some r) :
    (t.update i f hf).count p + (p r).toNat = t.count p + (p (f r)).toNat := by
  obtain ⟨l₁, l₂, hl, hne⟩ := split_of_find? h
  simp only [count]
  rw [update_rows hl (key_of_find? h) hne, hl]
  cases hp : p r <;> cases hp' : p (f r) <;> simp [hp, hp'] <;> omega

def countOthers (t : Table ρ) (i : Int) (p : ρ → Bool) : Nat := t.count fun r => key r ≠ i ∧ p r

theorem count_eq_others (p : ρ → Bool) (h : t.find? i = some r) :
    t.count p = t.countOthers i p + (p r).toNat := by
  obtain ⟨l₁, l₂, hl, hne⟩ := split_of_find? h
  have hsame : ∀ l : List ρ, (∀ q ∈ l, key q ≠ i) → (l.countP fun q => key q ≠ i ∧ p q) = l.countP p :=
    fun l hq => List.countP_congr fun q hql => by simp [hq q hql]
  simp only [countOthers, count]
  rw [hl, List.countP_append, List.countP_append, List.countP_cons, List.countP_cons,
    hsame l₁ fun q hq => hne q (Or.inl hq), hsame l₂ fun q hq => hne q (Or.inr hq)]
  cases hp : p r with
  | false => simp [key_of_find? h]
  | true => simp [key_of_find? h]; omega

theorem countOthers_update {f hf} (p : ρ → Bool) :
    (t.update i f hf).countOthers i p = t.countOthers i p := by
  simp only [countOthers, count, rows_update, List.countP_map]
  refine List.countP_congr fun q _ => ?_
  by_cases hq : key q = i <;> simp [hq, hf]

theorem count_pos {p : ρ → Bool} : 0 < t.count p ↔ ∃ r ∈ t.rows, p r := List.countP_pos_iff

theorem count_eq_zero {p : ρ → Bool} : t.count p = 0 ↔ ∀ r ∈ t.rows, ¬ p r := List.countP_eq_zero

/-! ## Rows that satisfy a predicate -/

theorem filter_insert (h mk hk) (p : ρ → Bool) :
    (t.insert h mk hk).rows.filter p =
      t.rows.filter p ++ if p (mk (t.seq + 1)) then [mk (t.seq + 1)] else [] := by
  rw [rows_insert, List.filter_append, List.filter_singleton]
  cases p (mk (t.seq + 1)) <;> rfl

theorem filter_update {f : ρ → ρ} (hf : ∀ r, key (f r) = key r) (p : ρ → Bool)
    (h : ∀ q, p (f q) = p q) :
    (t.update i f hf).rows.filter p =
      (t.rows.filter p).map fun q => if key q = i then f q else q := by
  rw [rows_update, List.filter_map]
  congr 1
  refine List.filter_congr fun q _ => ?_
  simp only [Function.comp_apply]
  split
  · exact h q
  · rfl

/-- An update of a row that does not satisfy the predicate. -/
theorem filter_update_of_not {f : ρ → ρ} (hf : ∀ r, key (f r) = key r) {p : ρ → Bool}
    (h : ∀ q, p (f q) = p q) (hp : ∀ q, t.find? i = some q → p q = false) :
    (t.update i f hf).rows.filter p = t.rows.filter p := by
  rw [filter_update hf p h]
  refine (List.map_congr_left fun q hq => ?_).trans (List.map_id _)
  obtain ⟨hmem, hq⟩ := List.mem_filter.mp hq
  have hne : key q ≠ i := by
    rintro rfl
    rw [hp q (find?_key hmem)] at hq
    cases hq
  rw [if_neg hne]
  rfl

theorem filter_deleteWhere_of_ne {κ : Type} [DecidableEq κ] {f : ρ → κ} {a b : κ} (h : a ≠ b) :
    (t.deleteWhere fun r => f r = a).rows.filter (fun r => f r = b) = t.rows.filter fun r => f r = b := by
  show (t.rows.filter fun r => !decide (f r = a)).filter _ = _
  rw [List.filter_filter]
  refine List.filter_congr fun r _ => ?_
  by_cases hb : f r = b
  · simp [hb, h.symm]
  · simp [hb]

/-! ## Many rows -/

theorem rows_updateAll [DecidableEq ρ] {f : ρ → ρ → ρ} {hf} {l : List ρ} (hl : ∀ q ∈ l, q ∈ t.rows)
    (hnd : (l.map key).Nodup) :
    (t.updateAll f hf l).rows = t.rows.map fun q => if q ∈ l then f q q else q := by
  induction l generalizing t with
  | nil => simp [updateAll]
  | cons a l ih =>
      rw [List.map_cons, List.nodup_cons] at hnd
      have hne : ∀ q ∈ l, key q ≠ key a := fun q hq heq => hnd.1 (heq ▸ List.mem_map_of_mem hq)
      have ha : a ∈ t.rows := hl a List.mem_cons_self
      have hrest : ∀ q ∈ l, q ∈ (t.update (key a) (f a) (hf a)).rows := fun q hq =>
        mem_update.mpr (Or.inl ⟨hl q (List.mem_cons_of_mem _ hq), hne q hq⟩)
      rw [updateAll, ih hrest hnd.2, rows_update, List.map_map]
      refine List.map_congr_left fun q hq => ?_
      simp only [Function.comp_apply]
      by_cases hqa : key q = key a
      · obtain rfl : q = a := eq_of_key hq ha hqa
        have hout : f q q ∉ l := fun hmem => hne _ hmem (hf q q)
        simp [hout]
      · have hqa' : q ≠ a := fun heq => hqa (heq ▸ rfl)
        rw [if_neg hqa]
        simp [hqa']

theorem seq_updateAll {f : ρ → ρ → ρ} {hf} {l : List ρ} : (t.updateAll f hf l).seq = t.seq := by
  induction l generalizing t with
  | nil => rfl
  | cons a l ih => exact ih

theorem updateAll_filter [DecidableEq ρ] {f : ρ → ρ → ρ} {hf} (p : ρ → Bool) (g : ρ → ρ) (hg)
    (hfg : ∀ q, p q → f q q = g q) (hid : ∀ q, p q = false → g q = q) :
    t.updateAll f hf (t.rows.filter p) = t.mapRows g hg := by
  refine ext ?_ seq_updateAll
  rw [rows_updateAll (fun q hq => List.mem_of_mem_filter hq)
    (t.nodup_keys.sublist (List.filter_sublist.map key)), rows_mapRows]
  refine List.map_congr_left fun q hq => ?_
  cases hp : p q with
  | true => rw [if_pos (List.mem_filter.mpr ⟨hq, hp⟩), hfg q hp]
  | false =>
      rw [if_neg fun hmem => ?_, hid q hp]
      rw [(List.mem_filter.mp hmem).2] at hp; cases hp

/-- `u` has, after the rows of `t`, one row for each of `mks`. -/
structure Extends (t : Table ρ) (mks : List (Int → ρ)) (u : Table ρ) : Prop where
  rows : u.rows = t.rows ++ mks.mapIdx fun n mk => mk (t.seq + 1 + n)
  seq : u.seq = t.seq + mks.length

theorem Extends.nil (t : Table ρ) : t.Extends [] t := ⟨by simp, rfl⟩

theorem Extends.insert {mk : Int → ρ} {mks : List (Int → ρ)} {u : Table ρ} {h hk}
    (hu : (t.insert h mk hk).Extends mks u) : t.Extends (mk :: mks) u where
  rows := by
    have hfirst : (t.seq : Int) + 1 + (0 : Nat) = t.seq + 1 := by omega
    have hrest : (fun n (mk : Int → ρ) => mk (((t.seq + 1 : Nat) : Int) + 1 + (n : Nat))) =
        fun n mk => mk ((t.seq : Int) + 1 + ((n + 1 : Nat) : Int)) := by
      funext n mk
      congr 1
      omega
    rw [hu.rows, rows_insert, seq_insert, List.mapIdx_cons, List.append_assoc, hfirst, hrest]
    rfl
  seq := by rw [hu.seq, seq_insert, List.length_cons]; omega

theorem Extends.added {mks : List (Int → ρ)} {u : Table ρ} (h : t.Extends mks u) :
    ∃ added, u.rows = t.rows ++ added ∧ List.Forall₂ (fun r mk => ∃ i, r = mk i) added mks := by
  refine ⟨_, h.rows, List.forall₂_of_length_eq_of_get (by simp) fun i _ _ => ?_⟩
  exact ⟨_, by rw [List.get_eq_getElem, List.getElem_mapIdx]; rfl⟩

/-! ## Two tables with the same image

`g` forgets a part of every row. Two tables whose rows `g` does not tell apart stay so under operations
that do the same to what `g` keeps. -/

section Image
variable {t' : Table ρ} {g : ρ → ρ} (hg : ∀ r, key (g r) = key r)

theorem map_eq_of_related {α β γ : Type} {g : α → β} {f f' : α → γ} {l l' : List α}
    (h : l.map g = l'.map g) (hf : ∀ a ∈ l, ∀ b ∈ l', g a = g b → f a = f' b) : l.map f = l'.map f' := by
  induction l generalizing l' with
  | nil => rw [List.map_eq_nil_iff.mp h.symm]; rfl
  | cons a l ih =>
      cases l' with
      | nil => cases h
      | cons b l' =>
          obtain ⟨hab, hl⟩ := List.cons_eq_cons.mp h
          refine List.cons_eq_cons.mpr ⟨hf a List.mem_cons_self b List.mem_cons_self hab, ih hl ?_⟩
          exact fun c hc d hd => hf c (List.mem_cons_of_mem _ hc) d (List.mem_cons_of_mem _ hd)

theorem rows_of_mapRows (h : t.mapRows g hg = t'.mapRows g hg) : t.rows.map g = t'.rows.map g :=
  congrArg Table.rows h

theorem seq_of_mapRows (h : t.mapRows g hg = t'.mapRows g hg) : t.seq = t'.seq := by
  rw [← seq_mapRows t g hg, h, seq_mapRows]

theorem mapRows_insert_congr {hs hs' mk mk' hk hk'} (h : t.mapRows g hg = t'.mapRows g hg)
    (hmk : g (mk (t.seq + 1)) = g (mk' (t'.seq + 1))) :
    (t.insert hs mk hk).mapRows g hg = (t'.insert hs' mk' hk').mapRows g hg := by
  refine ext ?_ ?_
  · simp only [rows_mapRows, rows_insert, List.map_append, List.map_singleton]
    rw [rows_of_mapRows hg h, hmk]
  · rw [seq_mapRows, seq_mapRows, seq_insert, seq_insert, seq_of_mapRows hg h]

theorem mapRows_congr_of_related {g' : ρ → ρ} (hg' : ∀ r, key (g' r) = key r)
    (h : t.mapRows g hg = t'.mapRows g hg)
    (hgg : ∀ r r', g r = g r' → g' r = g' r') : t.mapRows g' hg' = t'.mapRows g' hg' := by
  have hseq : t.seq = t'.seq := seq_of_mapRows hg h
  exact ext (map_eq_of_related (rows_of_mapRows hg h) fun r _ r' _ => hgg r r') hseq

theorem mapRows_mapRows_congr {g' f f' : ρ → ρ} {hg' hf hf'} (h : t.mapRows g hg = t'.mapRows g hg)
    (hff : ∀ r ∈ t.rows, ∀ r' ∈ t'.rows, g r = g r' → g' (f r) = g' (f' r')) :
    (t.mapRows f hf).mapRows g' hg' = (t'.mapRows f' hf').mapRows g' hg' := by
  have hseq : t.seq = t'.seq := seq_of_mapRows hg h
  refine ext ?_ hseq
  simp only [rows_mapRows, List.map_map]
  exact map_eq_of_related (rows_of_mapRows hg h) hff

theorem mapRows_update_congr {g' f f' : ρ → ρ} {hg' hf hf'} (h : t.mapRows g hg = t'.mapRows g hg)
    (hff : ∀ r ∈ t.rows, ∀ r' ∈ t'.rows, key r = i → g r = g r' → g' (f r) = g' (f' r'))
    (hne : ∀ r r', key r ≠ i → g r = g r' → g' r = g' r') :
    (t.update i f hf).mapRows g' hg' = (t'.update i f' hf').mapRows g' hg' := by
  have hseq : t.seq = t'.seq := seq_of_mapRows hg h
  refine ext ?_ hseq
  simp only [rows_mapRows, rows_update, List.map_map]
  refine map_eq_of_related (rows_of_mapRows hg h) fun r hr r' hr' hrr => ?_
  have hkey : key r = key r' := by rw [← hg r, ← hg r', hrr]
  simp only [Function.comp_apply]
  by_cases hi : key r = i
  · rw [if_pos hi, if_pos (hkey ▸ hi)]; exact hff r hr r' hr' hi hrr
  · rw [if_neg hi, if_neg (hkey ▸ hi)]; exact hne r r' hi hrr

theorem Extends.mapRows_congr {u u' : Table ρ} {mks mks' : List (Int → ρ)}
    (h : t.mapRows g hg = t'.mapRows g hg) (hu : t.Extends mks u) (hu' : t'.Extends mks' u')
    (hmk : mks.map (fun mk i => g (mk i)) = mks'.map fun mk i => g (mk i)) :
    u.mapRows g hg = u'.mapRows g hg := by
  have hseq := seq_of_mapRows hg h
  have hlen : mks.length = mks'.length := by simpa using congrArg List.length hmk
  have hrows : ∀ mks : List (Int → ρ), (mks.mapIdx fun n mk => mk (t.seq + 1 + n)).map g =
      (mks.map fun mk i => g (mk i)).mapIdx fun n mk => mk (t.seq + 1 + n) := fun mks => by
    refine List.ext_getElem? fun n => ?_
    rw [List.getElem?_map, List.getElem?_mapIdx, List.getElem?_mapIdx, List.getElem?_map]
    cases mks[n]? <;> rfl
  refine ext ?_ ?_
  · rw [rows_mapRows, rows_mapRows, hu.rows, hu'.rows, List.map_append, List.map_append,
      rows_of_mapRows hg h, ← hseq, hrows, hrows, hmk]
  · rw [seq_mapRows, seq_mapRows, hu.seq, hu'.seq, hseq, hlen]

theorem Extends.map_rows {β : Type} {f : ρ → β} {b : β} {u : Table ρ} {mks : List (Int → ρ)}
    (hu : t.Extends mks u) (hf : ∀ mk ∈ mks, ∀ i, f (mk i) = b) :
    u.rows.map f = t.rows.map f ++ List.replicate mks.length b := by
  rw [hu.rows, List.map_append]
  congr 1
  refine List.eq_replicate_iff.mpr ⟨by simp, List.forall_mem_map.mpr fun r hr => ?_⟩
  obtain ⟨n, hn, rfl⟩ := List.mem_mapIdx.mp hr
  exact hf _ (List.getElem_mem hn) _

/-- Rows that are deleted in the end do not matter. -/
theorem deleteWhere_insert_congr {p : ρ → Bool} {hs hs' mk mk' hk hk'}
    (h : t.deleteWhere p = t'.deleteWhere p) (hmk : p (mk (t.seq + 1)) = true)
    (hmk' : p (mk' (t'.seq + 1)) = true) :
    (t.insert hs mk hk).deleteWhere p = (t'.insert hs' mk' hk').deleteWhere p := by
  have hrows : t.rows.filter (fun r => !p r) = t'.rows.filter fun r => !p r := congrArg Table.rows h
  have hseq : t.seq = t'.seq := by rw [← seq_deleteWhere t p, h, seq_deleteWhere]
  refine ext ?_ ?_
  · simp [hrows, hmk, hmk']
  · rw [seq_deleteWhere, seq_deleteWhere, seq_insert, seq_insert, hseq]

end Image

end Table

/-! ## Columns written back -/

/-- What a unit of work writes for a column: nothing when the value is the one it loaded. -/
def dirty {α : Type} [DecidableEq α] (loaded current : α) : Option α :=
  if current = loaded then none else some current

@[simp] theorem dirty_getD {α : Type} [DecidableEq α] (loaded current : α) :
    (dirty loaded current).getD loaded = current := by
  unfold dirty; split
  · rename_i h; exact h.symm
  · rfl

@[simp] theorem dirty_self {α : Type} [DecidableEq α] (a : α) : dirty a a = none := if_pos rfl

theorem eq_of_dirty {α : Type} [DecidableEq α] {loaded current a : α} (h : dirty loaded current = some a) :
    current = a := by
  unfold dirty at h
  split at h
  · cases h
  · exact Option.some.inj h
