import FleetManagement.Library.Pool

/-!
# Sessions that rely on their row locks

What a session may rely on depends on the rows that it has locked: the others change the store along
`R held`, where `held` are the keys of these rows. What a session commits may depend on what it has read,
so the committed stores that its `SELECT`s have seen are kept beside the pool.
-/

/-- A pool and, for each session, the committed stores that its `SELECT`s have seen, oldest first. -/
structure Watched (ι σ W κ δ ε α : Type) where
  pool : Pool ι σ W κ δ ε α
  seen : ι → List σ

set_option linter.unusedSectionVars false

section Steps
variable {ι σ W κ δ ε α : Type} [DecidableEq ι] [DecidableEq κ] (D : Dialect σ W κ ε)

/-- The next step of handler `i` is a `SELECT` that is answered. -/
def Pool.observes (p : Pool ι σ W κ δ ε α) (i : ι) (c : Choice δ ε) (ws : List W) :
    Tx σ W κ δ ε α → Bool
  | .read _ => (c.answer (D.applyAll ws p.store)).isOk
  | .lock sel _ =>
      match c.answer (D.applyAll ws p.store) with
      | .ok s => p.free i (sel s)
      | .error _ => false
  | _ => false

/-- A transaction of another system, in one step: it needs all rows that it writes to be free. -/
def Pool.atomically (p : Pool ι σ W κ δ ε α) (ws : List W) : Pool ι σ W κ δ ε α :=
  if (ws.flatMap D.touches).all fun q => p.locks q = none then
    match D.applyAll ws p.store with
    | .ok s => { p with store := s }
    | .error _ => p
  else p

namespace Watched

def init (s : σ) (handlers : ι → Tx σ W κ δ ε α) : Watched ι σ W κ δ ε α where
  pool := Pool.init s handlers
  seen _ := []

def step (w : Watched ι σ W κ δ ε α) (a : ι × Choice δ ε) : Watched ι σ W κ δ ε α where
  pool := w.pool.step D a
  seen :=
    if w.pool.observes D a.1 a.2 (w.pool.procs a.1).pending (w.pool.procs a.1).prog then
      Function.update w.seen a.1 (w.seen a.1 ++ [w.pool.store])
    else w.seen

def atomically (w : Watched ι σ W κ δ ε α) (ws : List W) : Watched ι σ W κ δ ε α :=
  { w with pool := w.pool.atomically D ws }

end Watched

end Steps

/-! ## What a handler obeys while others respect its locks -/

namespace Tx

variable {σ W κ δ ε α : Type} (D : Dialect σ W κ ε)
  (I : σ → Prop) (R : (κ → Prop) → σ → σ → Prop)
  (Φ : List σ → σ → List W → (Except ε σ → Tx σ W κ δ ε α) → Prop)

/-- From the store `s` on, as long as the store satisfies `I` and moves along `R held`, every
transaction that the handler commits satisfies `Φ`, given what the handler has seen, the store it is
committed to and how the handler goes on. -/
def Obeys : Tx σ W κ δ ε α → σ → List W → (κ → Prop) → List σ → Prop
  | .ret _, _, _, _, _ => True
  | .raise _, _, _, _, _ => True
  | .read k, s, ws, held, seen => ∀ t, I t → R held s t →
      (∀ u, D.applyAll ws t = .ok u → Obeys (k (.ok u)) t ws held (seen ++ [t])) ∧
        ∀ e, Obeys (k (.error e)) t ws held seen
  | .lock sel k, s, ws, held, seen => ∀ t, I t → R held s t →
      (∀ u, D.applyAll ws t = .ok u →
        Obeys (k (.ok u)) t ws (fun q => q ∈ sel u ∨ held q) (seen ++ [t])) ∧
        ∀ e, Obeys (k (.error e)) t ws held seen
  | .exec w k, s, ws, held, seen => ∀ t, I t → R held s t →
      (∀ n, Obeys (k (.ok n)) t (ws ++ [w]) (fun q => q ∈ D.touches w ∨ held q) seen) ∧
        ∀ e, Obeys (k (.error e)) t ws held seen
  | .commit ws' k, s, ws, held, seen => ∀ t, I t → R held s t →
      Φ seen t (ws ++ ws') k ∧
        (∀ u, D.applyAll (ws ++ ws') t = .ok u → Obeys (k (.ok u)) u [] (fun _ => False) seen) ∧
        ∀ e, Obeys (k (.error e)) t [] (fun _ => False) seen
  | .rollback k, s, _, _, seen => Obeys k s [] (fun _ => False) seen
  | .draw k, s, ws, held, seen => ∀ d, Obeys (k d) s ws held seen

variable {D I R Φ}

/-- What a handler obeys survives the steps of the other sessions. -/
theorem Obeys.mono (trans : ∀ held s t u, R held s t → R held t u → R held s u)
    (anti : ∀ held held' s t, (∀ q, held q → held' q) → R held' s t → R held s t)
    {t : Tx σ W κ δ ε α} {s s' : σ} {ws : List W} {held : κ → Prop} {seen : List σ}
    (h : Obeys D I R Φ t s ws held seen) (hR : R held s s') : Obeys D I R Φ t s' ws held seen := by
  induction t generalizing ws held with
  | ret a => trivial
  | raise e => trivial
  | read k _ => exact fun u hu hsu => h u hu (trans _ _ _ _ hR hsu)
  | lock sel k _ => exact fun u hu hsu => h u hu (trans _ _ _ _ hR hsu)
  | exec w k _ => exact fun u hu hsu => h u hu (trans _ _ _ _ hR hsu)
  | commit ws' k _ => exact fun u hu hsu => h u hu (trans _ _ _ _ hR hsu)
  | rollback k ih => exact ih h (anti _ _ _ _ (fun q hq => hq.elim) hR)
  | draw k ih => exact fun d => ih d (h d) hR

/-! ## What a handler obeys, operation by operation -/

section Rules
variable {β : Type} {s : σ} {ws : List W} {held : κ → Prop} {seen : List σ}

theorem obeys_ret (a : α) : Obeys D I R Φ (ret a : Tx σ W κ δ ε α) s ws held seen := trivial

theorem obeys_raise (e : ε) : Obeys D I R Φ (raise e : Tx σ W κ δ ε α) s ws held seen := trivial

/-- A handler that may commit anything, given what it has seen so far. -/
theorem obeys_of_forall (t : Tx σ W κ δ ε α) (h : ∀ more s ws k, Φ (seen ++ more) s ws k) :
    Obeys D I R Φ t s ws held seen := by
  induction t generalizing s ws held seen with
  | ret a => trivial
  | raise e => trivial
  | read k ih =>
      intro u _ _
      refine ⟨fun v _ => ih _ fun more s ws k => ?_, fun e => ih _ h⟩
      rw [List.append_assoc]
      exact h _ _ _ _
  | lock sel k ih =>
      intro u _ _
      refine ⟨fun v _ => ih _ fun more s ws k => ?_, fun e => ih _ h⟩
      rw [List.append_assoc]
      exact h _ _ _ _
  | exec w k ih => exact fun u _ _ => ⟨fun n => ih _ h, fun e => ih _ h⟩
  | commit ws' k ih =>
      intro u _ _
      refine ⟨?_, fun v _ => ih _ h, fun e => ih _ h⟩
      have hnow := h [] u (ws ++ ws') k
      rwa [List.append_nil] at hnow
  | rollback k ih => exact ih h
  | draw k ih => exact fun d => ih d h

theorem obeys_select {f : σ → Tx σ W κ δ ε α}
    (h : ∀ t, I t → R held s t → ∀ u, D.applyAll ws t = .ok u →
      Obeys D I R Φ (f u) t ws held (seen ++ [t])) :
    Obeys D I R Φ (select >>= f) s ws held seen := by
  rw [select_bind]
  exact fun t ht hst => ⟨fun u hu => h t ht hst u hu, fun e => obeys_raise e⟩

theorem obeys_selectForUpdate {sel : σ → List κ} {f : σ → Tx σ W κ δ ε α}
    (h : ∀ t, I t → R held s t → ∀ u, D.applyAll ws t = .ok u →
      Obeys D I R Φ (f u) t ws (fun q => q ∈ sel u ∨ held q) (seen ++ [t])) :
    Obeys D I R Φ (selectForUpdate sel >>= f) s ws held seen := by
  rw [selectForUpdate_bind]
  exact fun t ht hst => ⟨fun u hu => h t ht hst u hu, fun e => obeys_raise e⟩

theorem obeys_commitAll {ws' : List W} {f : σ → Tx σ W κ δ ε α}
    (hΦ : ∀ t, I t → R held s t → Φ seen t (ws ++ ws') fun x => ofExcept x >>= f)
    (h : ∀ u, Obeys D I R Φ (f u) u [] (fun _ => False) seen) :
    Obeys D I R Φ (commitAll ws' >>= f) s ws held seen := by
  rw [commitAll_bind]
  exact fun t ht hst => ⟨hΦ t ht hst, fun u _ => h u, fun e => obeys_raise e⟩

theorem obeys_rollbackAll {f : Unit → Tx σ W κ δ ε α}
    (h : Obeys D I R Φ (f ()) s [] (fun _ => False) seen) :
    Obeys D I R Φ (rollbackAll >>= f) s ws held seen := by
  rw [rollbackAll_bind]; exact h

theorem obeys_sample {f : δ → Tx σ W κ δ ε α} (h : ∀ d, Obeys D I R Φ (f d) s ws held seen) :
    Obeys D I R Φ (sample >>= f) s ws held seen := by
  rw [sample_bind]; exact h

theorem obeys_tryCatch
    (hΦ : ∀ seen s ws k f, Φ seen s ws k → Φ seen s ws fun x => (k x).tryCatch f)
    {t : Tx σ W κ δ ε α} {f : ε → Tx σ W κ δ ε α}
    (hf : ∀ e s ws held seen, Obeys D I R Φ (f e) s ws held seen)
    (h : Obeys D I R Φ t s ws held seen) :
    Obeys D I R Φ (MonadExcept.tryCatch t f) s ws held seen := by
  show Obeys D I R Φ (t.tryCatch f) s ws held seen
  induction t generalizing s ws held seen with
  | ret a => trivial
  | raise e => exact hf e s ws held seen
  | read k ih =>
      intro u hu hsu
      obtain ⟨hok, herr⟩ := h u hu hsu
      exact ⟨fun v hv => ih _ (hok v hv), fun e => ih _ (herr e)⟩
  | lock sel k ih =>
      intro u hu hsu
      obtain ⟨hok, herr⟩ := h u hu hsu
      exact ⟨fun v hv => ih _ (hok v hv), fun e => ih _ (herr e)⟩
  | exec w k ih =>
      intro u hu hsu
      obtain ⟨hok, herr⟩ := h u hu hsu
      exact ⟨fun n => ih _ (hok n), fun e => ih _ (herr e)⟩
  | commit ws' k ih =>
      intro u hu hsu
      obtain ⟨hcommit, hok, herr⟩ := h u hu hsu
      exact ⟨hΦ _ _ _ _ f hcommit, fun v hv => ih _ (hok v hv), fun e => ih _ (herr e)⟩
  | rollback k ih => exact ih h
  | draw k ih => exact fun d => ih d (h d)

/-- A result that is passed on. -/
theorem Obeys.map {Ψ : List σ → σ → List W → (Except ε σ → Tx σ W κ δ ε β) → Prop} {f : α → β}
    (hΦ : ∀ seen s ws k, Φ seen s ws k → Ψ seen s ws fun x => (k x).bind fun a => ret (f a))
    {t : Tx σ W κ δ ε α} (h : Obeys D I R Φ t s ws held seen) :
    Obeys D I R Ψ (t >>= fun a => pure (f a)) s ws held seen := by
  show Obeys D I R Ψ (t.bind fun a => ret (f a)) s ws held seen
  induction t generalizing s ws held seen with
  | ret a => trivial
  | raise e => trivial
  | read k ih =>
      intro u hu hsu
      obtain ⟨hok, herr⟩ := h u hu hsu
      exact ⟨fun v hv => ih _ (hok v hv), fun e => ih _ (herr e)⟩
  | lock sel k ih =>
      intro u hu hsu
      obtain ⟨hok, herr⟩ := h u hu hsu
      exact ⟨fun v hv => ih _ (hok v hv), fun e => ih _ (herr e)⟩
  | exec w k ih =>
      intro u hu hsu
      obtain ⟨hok, herr⟩ := h u hu hsu
      exact ⟨fun n => ih _ (hok n), fun e => ih _ (herr e)⟩
  | commit ws' k ih =>
      intro u hu hsu
      obtain ⟨hcommit, hok, herr⟩ := h u hu hsu
      exact ⟨hΦ _ _ _ _ hcommit, fun v hv => ih _ (hok v hv), fun e => ih _ (herr e)⟩
  | rollback k ih => exact ih h
  | draw k ih => exact fun d => ih d (h d)

end Rules

/-- Whether a handler has ended. -/
def ended : Tx σ W κ δ ε α → Bool
  | .ret _ => true
  | .raise _ => true
  | _ => false

end Tx

namespace Watched

variable {ι σ W κ δ ε α : Type} [DecidableEq ι] [DecidableEq κ] {D : Dialect σ W κ ε}
  {I : σ → Prop} {R : (κ → Prop) → σ → σ → Prop}
  {Φ : ι → List σ → σ → List W → (Except ε σ → Tx σ W κ δ ε α) → Prop}

/-- Handler `i` holds the locks that it relies on, those of its open transaction among them. -/
def Safe (D : Dialect σ W κ ε) (I : σ → Prop) (R : (κ → Prop) → σ → σ → Prop)
    (Φ : ι → List σ → σ → List W → (Except ε σ → Tx σ W κ δ ε α) → Prop)
    (w : Watched ι σ W κ δ ε α) (i : ι) : Prop :=
  (w.pool.procs i).prog.ended = true ∨ ∃ held : κ → Prop, (∀ q, held q → w.pool.locks q = some i) ∧
    (∀ q ∈ (w.pool.procs i).pending.flatMap D.touches, held q) ∧
    Tx.Obeys D I R (Φ i) (w.pool.procs i).prog w.pool.store (w.pool.procs i).pending held (w.seen i)

theorem safe_init {s : σ} {handlers : ι → Tx σ W κ δ ε α} {i : ι}
    (h : Tx.Obeys D I R (Φ i) (handlers i) s [] (fun _ => False) []) :
    Safe D I R Φ (init s handlers) i :=
  Or.inr ⟨fun _ => False, fun _ hq => hq.elim, fun _ hq => absurd hq (by simp [init, Pool.init]), h⟩

variable {w : Watched ι σ W κ δ ε α} {a : ι × Choice δ ε}

/-- The transaction that a step commits satisfies what its handler obeys. -/
theorem Safe.publishes (refl : ∀ held s, R held s s) (hI : I w.pool.store) (h : Safe D I R Φ w a.1)
    {ws : List W} (hw : w.pool.publishes D a = some ws) :
    ∃ k, Φ a.1 (w.seen a.1) w.pool.store ws k ∧
      (∀ u, D.applyAll ws w.pool.store = .ok u → ((w.pool.step D a).procs a.1).prog = k (.ok u)) ∧
      ∀ q ∈ ws.flatMap D.touches, ∀ j, w.pool.locks q = some j → j = a.1 := by
  unfold Pool.publishes at hw
  unfold Pool.step
  cases hprog : (w.pool.procs a.1).prog with
  | commit ws' k =>
      rcases h with hend | ⟨held, hheld, hpend, hobeys⟩
      · rw [hprog] at hend; cases hend
      rw [hprog] at hobeys hw
      simp only [Pool.commits] at hw
      split at hw
      · rename_i hfree
        split at hw
        · rename_i s hs
          cases hw
          refine ⟨k, (hobeys _ hI (refl _ _)).1, fun u hu => ?_, fun q hq j hj => ?_⟩
          · have hsu : s = u := Except.ok.inj ((Choice.answer_ok.mp hs).2.symm.trans hu)
            simp only [Pool.perform, hfree, hs, if_true, Pool.resume, Function.update_self, hsu]
          · rw [List.flatMap_append, List.mem_append] at hq
            rcases hq with hq | hq
            · exact Option.some.inj (hj.symm.trans (hheld q (hpend q hq)))
            · have hnone := List.all_eq_true.mp hfree q hq
              simp only [Bool.or_eq_true, decide_eq_true_eq] at hnone
              rcases hnone with hnone | hself
              · rw [hj] at hnone; cases hnone
              · exact Option.some.inj (hj.symm.trans hself)
        · cases hw
      · cases hw
  | _ => rw [hprog] at hw; cases hw

/-! ## One step -/

theorem locks_acquire {p : Pool ι σ W κ δ ε α} {i j : ι} {keys : List κ} {q : κ}
    (hfree : p.free i keys = true) (hij : j ≠ i) (hq : p.locks q = some j) :
    p.acquire i keys q = some j := by
  unfold Pool.acquire
  split
  · rename_i hmem
    have hnone := List.all_eq_true.mp hfree q hmem
    simp only [Bool.or_eq_true, decide_eq_true_eq, hq] at hnone
    rcases hnone with hnone | hself
    · cases hnone
    · exact absurd (Option.some.inj hself) hij
  · exact hq

theorem acquired {p : Pool ι σ W κ δ ε α} {i : ι} {keys : List κ} {held : κ → Prop} {q : κ}
    (hheld : ∀ q, held q → p.locks q = some i) (hq : q ∈ keys ∨ held q) :
    p.acquire i keys q = some i := by
  unfold Pool.acquire
  split
  · rfl
  · rename_i hmem
    exact hheld q (hq.resolve_left hmem)

theorem locks_release {p : Pool ι σ W κ δ ε α} {i j : ι} {q : κ} (hij : j ≠ i)
    (hq : p.locks q = some j) : p.release i q = some j := by
  unfold Pool.release
  rw [if_neg fun h => hij (Option.some.inj (hq.symm.trans h)), hq]

theorem procs_resume {p : Pool ι σ W κ δ ε α} {i j : ι} {t : Tx σ W κ δ ε α} {ws : List W}
    (hij : j ≠ i) : p.resume i t ws j = p.procs j := Function.update_of_ne hij _ _

/-- A step leaves the other sessions and their locks alone. -/
theorem perform_other {p : Pool ι σ W κ δ ε α} {i j : ι} {c : Choice δ ε} (ws : List W)
    (t : Tx σ W κ δ ε α) (hij : j ≠ i) :
    (p.perform D i c ws t).procs j = p.procs j ∧
      ∀ q, p.locks q = some j → (p.perform D i c ws t).locks q = some j := by
  cases t with
  | ret x => exact ⟨rfl, fun q hq => locks_release hij hq⟩
  | raise e => exact ⟨rfl, fun q hq => locks_release hij hq⟩
  | read k => exact ⟨procs_resume hij, fun q hq => hq⟩
  | lock sel k =>
      simp only [Pool.perform]
      split
      · split
        · rename_i hfree
          exact ⟨procs_resume hij, fun q hq => locks_acquire hfree hij hq⟩
        · exact ⟨rfl, fun q hq => hq⟩
      · exact ⟨procs_resume hij, fun q hq => hq⟩
  | exec x k =>
      simp only [Pool.perform]
      split
      · rename_i hfree
        split
        · exact ⟨procs_resume hij, fun q hq => locks_acquire hfree hij hq⟩
        · exact ⟨procs_resume hij, fun q hq => hq⟩
      · exact ⟨rfl, fun q hq => hq⟩
  | commit ws' k =>
      simp only [Pool.perform]
      split
      · split <;> exact ⟨procs_resume hij, fun q hq => locks_release hij hq⟩
      · exact ⟨rfl, fun q hq => hq⟩
  | rollback k => exact ⟨procs_resume hij, fun q hq => locks_release hij hq⟩
  | draw k => exact ⟨procs_resume hij, fun q hq => hq⟩

/-- A session that has ended stays as it is. -/
theorem procs_ended {p : Pool ι σ W κ δ ε α} {j : ι} (h : (p.procs j).prog.ended = true)
    (a : ι × Choice δ ε) : (p.step D a).procs j = p.procs j := by
  by_cases hj : j = a.1
  · subst hj
    unfold Pool.step
    cases hprog : (p.procs a.1).prog with
    | ret x => rfl
    | raise e => rfl
    | _ => rw [hprog] at h; cases h
  · exact (perform_other _ _ hj).1

theorem seen_other {j : ι} (hj : j ≠ a.1) : (w.step D a).seen j = w.seen j := by
  unfold step
  simp only
  split
  · exact Function.update_of_ne hj _ _
  · rfl

theorem Safe.other (trans : ∀ held s t u, R held s t → R held t u → R held s u)
    (anti : ∀ held held' s t, (∀ q, held q → held' q) → R held' s t → R held s t)
    {j : ι} (h : Safe D I R Φ w j) (hj : j ≠ a.1)
    (hmove : ∀ held, (∀ q, held q → w.pool.locks q = some j) →
      R held w.pool.store (w.pool.step D a).store) : Safe D I R Φ (w.step D a) j := by
  obtain ⟨hprocs, hlocks⟩ := perform_other (D := D) (p := w.pool) (c := a.2)
    (w.pool.procs a.1).pending (w.pool.procs a.1).prog hj
  have hseen := seen_other (D := D) (w := w) hj
  have hstep : (w.step D a).pool.procs j = w.pool.procs j := hprocs
  unfold Safe
  rw [hstep, hseen]
  rcases h with hend | ⟨held, hheld, hpend, hobeys⟩
  · exact Or.inl hend
  · exact Or.inr ⟨held, fun q hq => hlocks q (hheld q hq), hpend,
      hobeys.mono trans anti (hmove held hheld)⟩

theorem seen_self : (w.step D a).seen a.1 =
    if w.pool.observes D a.1 a.2 (w.pool.procs a.1).pending (w.pool.procs a.1).prog then
      w.seen a.1 ++ [w.pool.store]
    else w.seen a.1 := by
  unfold step
  simp only
  split
  · exact Function.update_self _ _ _
  · rfl

/-- The session that makes a step goes on to obey, with the locks that it then has. -/
theorem Safe.self (refl : ∀ held s, R held s s) (hI : I w.pool.store) (h : Safe D I R Φ w a.1) :
    Safe D I R Φ (w.step D a) a.1 := by
  rcases h with hend | ⟨held, hheld, hpend, hobeys⟩
  · refine Or.inl ?_
    unfold step Pool.step
    cases hprog : (w.pool.procs a.1).prog with
    | ret x => simp only [Pool.perform, hprog, Tx.ended]
    | raise e => simp only [Pool.perform, hprog, Tx.ended]
    | _ => rw [hprog] at hend; cases hend
  have hresume : ∀ (t : Tx σ W κ δ ε α) ws, w.pool.resume a.1 t ws a.1 = ⟨t, ws⟩ := fun _ _ =>
    Function.update_self _ _ _
  unfold Safe
  rw [seen_self]
  unfold step Pool.step
  cases hprog : (w.pool.procs a.1).prog with
  | ret x => exact Or.inl (by simp only [Pool.perform, hprog, Tx.ended])
  | raise e => exact Or.inl (by simp only [Pool.perform, hprog, Tx.ended])
  | read k =>
      rw [hprog] at hobeys
      obtain ⟨hok, herr⟩ := hobeys _ hI (refl _ _)
      refine Or.inr ⟨held, hheld, ?_, ?_⟩
      · simpa only [Pool.perform, hresume] using hpend
      · have hanswer : ∀ x, a.2.answer (D.applyAll (w.pool.procs a.1).pending w.pool.store) = x →
            Tx.Obeys D I R (Φ a.1) (k x) w.pool.store (w.pool.procs a.1).pending held
              (if x.isOk then w.seen a.1 ++ [w.pool.store] else w.seen a.1) := by
          intro x hans
          cases x with
          | ok u => exact hok u (Choice.answer_ok.mp hans).2
          | error e => exact herr e
        simp only [Pool.perform, hresume]
        exact hanswer _ rfl
  | lock sel k =>
      rw [hprog] at hobeys
      obtain ⟨hok, herr⟩ := hobeys _ hI (refl _ _)
      cases hans : a.2.answer (D.applyAll (w.pool.procs a.1).pending w.pool.store) with
      | error e =>
          refine Or.inr ⟨held, ?_, ?_, ?_⟩
          · simpa only [Pool.perform, hans] using hheld
          · simpa only [Pool.perform, hans, hresume] using hpend
          · simpa only [Pool.perform, hans, hresume, Pool.observes, Bool.false_eq_true, if_false] using
              herr e
      | ok u =>
          cases hfree : w.pool.free a.1 (sel u) with
          | false =>
              refine Or.inr ⟨held, ?_, ?_, ?_⟩
              · simpa only [Pool.perform, hans, hfree, Bool.false_eq_true, if_false] using hheld
              · simpa only [Pool.perform, hans, hfree, Bool.false_eq_true, if_false] using hpend
              · simpa only [Pool.perform, hans, hfree, Pool.observes, hprog, Bool.false_eq_true,
                  if_false] using hobeys
          | true =>
              refine Or.inr ⟨fun q => q ∈ sel u ∨ held q, ?_, ?_, ?_⟩
              · simp only [Pool.perform, hans, hfree, if_true]
                exact fun q hq => acquired hheld hq
              · simp only [Pool.perform, hans, hfree, if_true, hresume]
                exact fun q hq => Or.inr (hpend q hq)
              · simpa only [Pool.perform, hans, hfree, if_true, hresume, Pool.observes] using
                  hok u (Choice.answer_ok.mp hans).2
  | exec x k =>
      rw [hprog] at hobeys
      obtain ⟨hok, herr⟩ := hobeys _ hI (refl _ _)
      cases hfree : w.pool.free a.1 (D.touches x) with
      | false =>
          refine Or.inr ⟨held, ?_, ?_, ?_⟩
          · simpa only [Pool.perform, hfree, Bool.false_eq_true, if_false] using hheld
          · simpa only [Pool.perform, hfree, Bool.false_eq_true, if_false] using hpend
          · simpa only [Pool.perform, hfree, Pool.observes, hprog, Bool.false_eq_true, if_false] using
              hobeys
      | true =>
          cases hans : a.2.answer (D.applyAll ((w.pool.procs a.1).pending ++ [x]) w.pool.store) with
          | error e =>
              refine Or.inr ⟨held, ?_, ?_, ?_⟩
              · simpa only [Pool.perform, hans, hfree, if_true] using hheld
              · simpa only [Pool.perform, hans, hfree, if_true, hresume] using hpend
              · simpa only [Pool.perform, hans, hfree, if_true, hresume, Pool.observes,
                  Bool.false_eq_true, if_false] using herr e
          | ok u =>
              obtain ⟨v, hv, -⟩ := D.applyAll_append_ok.mp (Choice.answer_ok.mp hans).2
              refine Or.inr ⟨fun q => q ∈ D.touches x ∨ held q, ?_, ?_, ?_⟩
              · simp only [Pool.perform, hans, hfree, if_true]
                exact fun q hq => acquired hheld hq
              · simp only [Pool.perform, hans, hfree, if_true, hresume, List.flatMap_append,
                  List.flatMap_singleton]
                exact fun q hq => (List.mem_append.mp hq).symm.imp_right (hpend q)
              · simpa only [Pool.perform, hans, hfree, if_true, hresume, hv, Except.map,
                  Pool.observes, Bool.false_eq_true, if_false] using hok _
  | commit ws k =>
      rw [hprog] at hobeys
      obtain ⟨-, hok, herr⟩ := hobeys _ hI (refl _ _)
      cases hfree : w.pool.free a.1 (ws.flatMap D.touches) with
      | false =>
          refine Or.inr ⟨held, ?_, ?_, ?_⟩
          · simpa only [Pool.perform, hfree, Bool.false_eq_true, if_false] using hheld
          · simpa only [Pool.perform, hfree, Bool.false_eq_true, if_false] using hpend
          · simpa only [Pool.perform, hfree, Pool.observes, hprog, Bool.false_eq_true, if_false] using
              hobeys
      | true =>
          refine Or.inr ⟨fun _ => False, fun _ hq => hq.elim, ?_, ?_⟩
          · cases hans : a.2.answer (D.applyAll ((w.pool.procs a.1).pending ++ ws) w.pool.store) <;>
              simp [Pool.perform, hans, hfree, hresume]
          · cases hans : a.2.answer (D.applyAll ((w.pool.procs a.1).pending ++ ws) w.pool.store) with
            | ok u =>
                simpa only [Pool.perform, hans, hfree, if_true, hresume, Pool.observes,
                  Bool.false_eq_true, if_false] using hok u (Choice.answer_ok.mp hans).2
            | error e =>
                simpa only [Pool.perform, hans, hfree, if_true, hresume, Pool.observes,
                  Bool.false_eq_true, if_false] using herr e
  | rollback k =>
      rw [hprog] at hobeys
      have hk : Tx.Obeys D I R (Φ a.1) k w.pool.store [] (fun _ => False) (w.seen a.1) := hobeys
      refine Or.inr ⟨fun _ => False, fun _ hq => hq.elim, ?_, ?_⟩
      · simp [Pool.perform, hresume]
      · simpa only [Pool.perform, hresume, Pool.observes, Bool.false_eq_true, if_false] using hk
  | draw k =>
      rw [hprog] at hobeys
      refine Or.inr ⟨held, ?_, ?_, ?_⟩
      · simpa only [Pool.perform] using hheld
      · simpa only [Pool.perform, hresume] using hpend
      · simpa only [Pool.perform, hresume, Pool.observes, Bool.false_eq_true, if_false] using
          hobeys a.2.draw

/-- A step of one session, where what it publishes moves the store along the rely of all sessions that
have no lock on a row that it writes. -/
theorem safe_step (refl : ∀ held s, R held s s)
    (trans : ∀ held s t u, R held s t → R held t u → R held s u)
    (anti : ∀ held held' s t, (∀ q, held q → held' q) → R held' s t → R held s t)
    (hI : I w.pool.store) (h : ∀ i, Safe D I R Φ w i)
    (hmove : ∀ ws, w.pool.publishes D a = some ws → ∀ held : κ → Prop,
      (∀ q ∈ ws.flatMap D.touches, ¬ held q) → R held w.pool.store (w.pool.step D a).store) (i : ι) :
    Safe D I R Φ (w.step D a) i := by
  by_cases hi : i = a.1
  · subst hi; exact (h a.1).self refl hI
  · refine (h i).other trans anti hi fun held hheld => ?_
    cases hpub : w.pool.publishes D a with
    | none => rw [(Pool.step_of_silent hpub).1]; exact refl _ _
    | some ws =>
        obtain ⟨_, -, -, hlocked⟩ := (h a.1).publishes refl hI hpub
        exact hmove ws hpub held fun q hq hq' => hi (hlocked q hq i (hheld q hq'))

/-! ## The past

Every store that a session has seen is a store of the run: it satisfies `I`, and the store has moved on
from it as it moves for a session without locks. -/

def Recalls (I : σ → Prop) (R : (κ → Prop) → σ → σ → Prop) (w : Watched ι σ W κ δ ε α) : Prop :=
  ∀ i, ∀ s ∈ w.seen i, I s ∧ R (fun _ => False) s w.pool.store

theorem recalls_init (s : σ) (handlers : ι → Tx σ W κ δ ε α) : Recalls I R (init s handlers) :=
  fun _ _ hs => absurd hs List.not_mem_nil

theorem Recalls.step (trans : ∀ held s t u, R held s t → R held t u → R held s u)
    (hI : I w.pool.store) (h : Recalls I R w)
    (hmove : R (fun _ => False) w.pool.store (w.pool.step D a).store) : Recalls I R (w.step D a) := by
  have hold : ∀ i, ∀ s ∈ w.seen i, I s ∧ R (fun _ => False) s (w.step D a).pool.store :=
    fun i s hs => ⟨(h i s hs).1, trans _ _ _ _ (h i s hs).2 hmove⟩
  intro i s hs
  by_cases hi : i = a.1
  · subst hi
    rw [seen_self] at hs
    split at hs
    · rcases List.mem_append.mp hs with hs | hs
      · exact hold a.1 s hs
      · rw [List.mem_singleton.mp hs]
        exact ⟨hI, hmove⟩
    · exact hold a.1 s hs
  · rw [seen_other hi] at hs
    exact hold i s hs

theorem Recalls.atomically (trans : ∀ held s t u, R held s t → R held t u → R held s u)
    (h : Recalls I R w) {ws : List W}
    (hmove : R (fun _ => False) w.pool.store (w.pool.atomically D ws).store) :
    Recalls I R (w.atomically D ws) :=
  fun i s hs => ⟨(h i s hs).1, trans _ _ _ _ (h i s hs).2 hmove⟩

/-! ## Transactions of other systems -/

theorem atomically_cases (p : Pool ι σ W κ δ ε α) (ws : List W) :
    p.atomically D ws = p ∨ ∃ s, D.applyAll ws p.store = .ok s ∧
      (∀ q ∈ ws.flatMap D.touches, p.locks q = none) ∧ p.atomically D ws = { p with store := s } := by
  unfold Pool.atomically
  split
  · rename_i hfree
    split
    · rename_i s hs
      exact Or.inr ⟨s, hs, fun q hq => of_decide_eq_true (List.all_eq_true.mp hfree q hq), rfl⟩
    · exact Or.inl rfl
  · exact Or.inl rfl

theorem safe_atomically (trans : ∀ held s t u, R held s t → R held t u → R held s u)
    (anti : ∀ held held' s t, (∀ q, held q → held' q) → R held' s t → R held s t)
    (h : ∀ i, Safe D I R Φ w i) {ws : List W}
    (hmove : ∀ s, D.applyAll ws w.pool.store = .ok s → ∀ held : κ → Prop,
      (∀ q ∈ ws.flatMap D.touches, ¬ held q) → R held w.pool.store s) (i : ι) :
    Safe D I R Φ (w.atomically D ws) i := by
  rcases atomically_cases (D := D) w.pool ws with hsame | ⟨s, hs, hfree, hst⟩
  · have hw : w.atomically D ws = w := by unfold atomically; rw [hsame]
    rw [hw]; exact h i
  · unfold Safe atomically
    rw [hst]
    refine (h i).imp id ?_
    rintro ⟨held, hheld, hpend, hobeys⟩
    refine ⟨held, hheld, hpend, hobeys.mono trans anti (hmove s hs held fun q hq hq' => ?_)⟩
    have hnone := hfree q hq
    rw [hheld q hq'] at hnone
    cases hnone

end Watched
