import Mathlib.Data.List.Infix

/-!
# Runs of a step function

A run applies one action after another. `Visits` and `Takes` name the states a run passes through and
the steps it makes, so that "in every reachable state" and "at every step" are about the same run.
-/

namespace Runs

variable {S A : Type} (step : S → A → S)

def run (s : S) (as : List A) : S := as.foldl step s

/-- The run of `as` from `s` passes through `t`. -/
def Visits (s : S) (as : List A) (t : S) : Prop := ∃ bs, bs <+: as ∧ run step s bs = t

def Takes (s : S) (as : List A) (t : S) (a : A) : Prop :=
  ∃ bs, bs ++ [a] <+: as ∧ run step s bs = t

/-- The run of `as` from `s` passes through `t` and, at the same time or later, through `u`. -/
def VisitsThen (s : S) (as : List A) (t u : S) : Prop :=
  ∃ bs cs, bs ++ cs <+: as ∧ run step s bs = t ∧ run step t cs = u

variable {step}

@[simp] theorem run_nil (s : S) : run step s [] = s := rfl

@[simp] theorem run_cons (s : S) (a : A) (as : List A) :
    run step s (a :: as) = run step (step s a) as := rfl

theorem run_append (s : S) (as bs : List A) :
    run step s (as ++ bs) = run step (run step s as) bs := List.foldl_append

/-! ## The steps of a run, from its first action -/

theorem Visits.first (s : S) (as : List A) : Visits step s as s := ⟨[], List.nil_prefix, rfl⟩

theorem Visits.last (s : S) (as : List A) : Visits step s as (run step s as) :=
  ⟨as, List.prefix_refl as, rfl⟩

theorem visits_nil {s t : S} : Visits step s [] t ↔ t = s := by
  constructor
  · rintro ⟨bs, hbs, rfl⟩
    rw [List.prefix_nil.mp hbs]; rfl
  · rintro rfl; exact Visits.first _ _

theorem visits_cons {s t : S} {a : A} {as : List A} :
    Visits step s (a :: as) t ↔ t = s ∨ Visits step (step s a) as t := by
  constructor
  · rintro ⟨bs, hbs, rfl⟩
    cases bs with
    | nil => exact Or.inl rfl
    | cons b bs =>
        obtain ⟨rfl, htail⟩ := List.cons_prefix_cons.mp hbs
        exact Or.inr ⟨bs, htail, rfl⟩
  · rintro (rfl | ⟨bs, hbs, rfl⟩)
    · exact Visits.first _ _
    · exact ⟨a :: bs, List.cons_prefix_cons.mpr ⟨rfl, hbs⟩, rfl⟩

theorem takes_nil {s t : S} {a : A} : ¬ Takes step s [] t a := by
  rintro ⟨bs, hbs, _⟩
  simp at hbs

theorem takes_cons {s t : S} {a b : A} {as : List A} :
    Takes step s (a :: as) t b ↔ (t = s ∧ b = a) ∨ Takes step (step s a) as t b := by
  constructor
  · rintro ⟨bs, hbs, rfl⟩
    cases bs with
    | nil => exact Or.inl ⟨rfl, (List.cons_prefix_cons.mp hbs).1⟩
    | cons c bs =>
        obtain ⟨rfl, htail⟩ := List.cons_prefix_cons.mp hbs
        exact Or.inr ⟨bs, htail, rfl⟩
  · rintro (⟨rfl, rfl⟩ | ⟨bs, hbs, rfl⟩)
    · exact ⟨[], List.cons_prefix_cons.mpr ⟨rfl, List.nil_prefix⟩, rfl⟩
    · exact ⟨a :: bs, List.cons_prefix_cons.mpr ⟨rfl, hbs⟩, rfl⟩

theorem Takes.visits {s t : S} {a : A} {as : List A} (h : Takes step s as t a) :
    Visits step s as t := by
  obtain ⟨bs, hbs, rfl⟩ := h
  exact ⟨bs, (List.prefix_append bs [a]).trans hbs, rfl⟩

theorem Takes.mem {s t : S} {a : A} {as : List A} (h : Takes step s as t a) : a ∈ as := by
  obtain ⟨bs, hbs, -⟩ := h
  exact hbs.subset (by simp)

theorem Takes.visits_step {s t : S} {a : A} {as : List A} (h : Takes step s as t a) :
    Visits step s as (step t a) := by
  obtain ⟨bs, hbs, rfl⟩ := h
  exact ⟨bs ++ [a], hbs, run_append _ _ _⟩

theorem Takes.visitsThen_step {s t : S} {a : A} {as : List A} (h : Takes step s as t a) :
    VisitsThen step s as t (step t a) := by
  obtain ⟨bs, hbs, hrun⟩ := h
  exact ⟨bs, [a], hbs, hrun, rfl⟩

/-! ## Invariants of the runs whose steps meet a condition -/

section Guarded
variable {J P : S → Prop} {ok : S → A → Prop}

/-- An invariant that every step meeting `ok` keeps holds in every state of a run of such steps. -/
theorem invariant_of_guarded (keep : ∀ t a, J t → ok t a → J (step t a)) {s : S} {as : List A}
    (hs : J s) (hok : ∀ t a, Takes step s as t a → ok t a) : ∀ t, Visits step s as t → J t := by
  induction as generalizing s with
  | nil => intro t ht; rw [visits_nil.mp ht]; exact hs
  | cons a as ih =>
      intro t ht
      rcases visits_cons.mp ht with rfl | ht
      · exact hs
      · refine ih (keep s a hs (hok s a (takes_cons.mpr (Or.inl ⟨rfl, rfl⟩)))) ?_ t ht
        intro u b hu
        exact hok u b (takes_cons.mpr (Or.inr hu))

theorem invariant_of_step (keep : ∀ t a, J t → J (step t a)) {s : S} {as : List A} (hs : J s) :
    ∀ t, Visits step s as t → J t :=
  invariant_of_guarded (fun t a ht (_ : True) => keep t a ht) hs fun _ _ _ => trivial

/-- Where a step that fails `ok` always breaks `P`, a run that has `P` throughout meets `ok`
throughout. -/
theorem guarded_of_invariant (keep : ∀ t a, J t → ok t a → J (step t a))
    (need : ∀ t a, J t → P (step t a) → ok t a) {s : S} {as : List A} (hs : J s)
    (hP : ∀ t, Visits step s as t → P t) : ∀ t a, Takes step s as t a → ok t a := by
  induction as generalizing s with
  | nil => intro t a ht; exact absurd ht takes_nil
  | cons a as ih =>
      have hok : ok s a := need s a hs (hP _ (visits_cons.mpr (Or.inr (Visits.first _ _))))
      intro t b ht
      rcases takes_cons.mp ht with ⟨rfl, rfl⟩ | ht
      · exact hok
      · exact ih (keep s a hs hok) (fun u hu => hP u (visits_cons.mpr (Or.inr hu))) t b ht

/-- `P` holds in every state of a run exactly when every step of it meets `ok`. -/
theorem invariant_iff_guarded (weaken : ∀ t, J t → P t) (keep : ∀ t a, J t → ok t a → J (step t a))
    (need : ∀ t a, J t → P (step t a) → ok t a) {s : S} {as : List A} (hs : J s) :
    (∀ t, Visits step s as t → P t) ↔ ∀ t a, Takes step s as t a → ok t a :=
  ⟨guarded_of_invariant keep need hs,
    fun hok t ht => weaken t (invariant_of_guarded keep hs hok t ht)⟩

theorem relation_of_guarded {R : S → S → Prop} (refl : ∀ t, R t t)
    (trans : ∀ t u v, R t u → R u v → R t v) (keep : ∀ t a, J t → ok t a → J (step t a))
    (rel : ∀ t a, J t → ok t a → R t (step t a)) {s : S} {as : List A} (hs : J s)
    (hok : ∀ t a, Takes step s as t a → ok t a) : ∀ t u, VisitsThen step s as t u → R t u := by
  rintro _ _ ⟨bs, cs, hbc, rfl, rfl⟩
  induction cs using List.reverseRecOn with
  | nil => exact refl _
  | append_singleton cs a ih =>
      rw [← List.append_assoc] at hbc
      have hpre : bs ++ cs <+: as := (List.prefix_append _ _).trans hbc
      have htakes : Takes step s as (run step (run step s bs) cs) a :=
        ⟨bs ++ cs, hbc, run_append _ _ _⟩
      have hJ := invariant_of_guarded keep hs hok _ htakes.visits
      rw [run_append]
      exact trans _ _ _ (ih hpre) (rel _ a hJ (hok _ a htakes))

end Guarded

end Runs
