import Mathlib.Logic.Function.Basic
import Mathlib.Logic.Relation
import FleetManagement.Library.Runs
import FleetManagement.Library.Tx

/-!
# Concurrent sessions at READ COMMITTED

Any number of handlers share one store. A scheduler picks a handler and it makes one step: a `SELECT`
sees what is committed at that moment, a commit publishes all statements of its session at once, and a
step that needs a row lock of another session changes nothing.
-/

/-- A handler at work and the statements of its open transaction. -/
structure Proc (σ W κ δ ε α : Type) where
  prog : Tx σ W κ δ ε α
  pending : List W

structure Pool (ι σ W κ δ ε α : Type) where
  store : σ
  procs : ι → Proc σ W κ δ ε α
  locks : κ → Option ι
  /-- The committed transactions, oldest first. -/
  log : List (ι × List W)

set_option linter.unusedSectionVars false

namespace Pool

variable {ι σ W κ δ ε α : Type} [DecidableEq ι] [DecidableEq κ]

def init (s : σ) (handlers : ι → Tx σ W κ δ ε α) : Pool ι σ W κ δ ε α where
  store := s
  procs i := ⟨handlers i, []⟩
  locks _ := none
  log := []

/-- No other session holds a lock on the rows `keys`. -/
def free (p : Pool ι σ W κ δ ε α) (i : ι) (keys : List κ) : Bool :=
  keys.all fun q => p.locks q = none || p.locks q = some i

def acquire (p : Pool ι σ W κ δ ε α) (i : ι) (keys : List κ) : κ → Option ι :=
  fun q => if q ∈ keys then some i else p.locks q

def release (p : Pool ι σ W κ δ ε α) (i : ι) : κ → Option ι :=
  fun q => if p.locks q = some i then none else p.locks q

def resume (p : Pool ι σ W κ δ ε α) (i : ι) (prog : Tx σ W κ δ ε α) (pending : List W) :
    ι → Proc σ W κ δ ε α :=
  Function.update p.procs i ⟨prog, pending⟩

variable (D : Dialect σ W κ ε)

/-- What handler `i` does next, where `t` is what is left of it and `ws` its open transaction. -/
def perform (p : Pool ι σ W κ δ ε α) (i : ι) (c : Choice δ ε) (ws : List W) :
    Tx σ W κ δ ε α → Pool ι σ W κ δ ε α
  -- The request is over: its session closes, which ends an open transaction.
  | .ret _ => { p with locks := p.release i }
  | .raise _ => { p with locks := p.release i }
  | .read k => { p with procs := p.resume i (k (c.answer (D.applyAll ws p.store))) ws }
  | .lock sel k =>
      match c.answer (D.applyAll ws p.store) with
      | .ok s =>
          if p.free i (sel s) then
            { p with procs := p.resume i (k (.ok s)) ws, locks := p.acquire i (sel s) }
          else p
      | .error e => { p with procs := p.resume i (k (.error e)) ws }
  | .exec w k =>
      if p.free i (D.touches w) then
        match c.answer (D.applyAll (ws ++ [w]) p.store) with
        | .ok _ =>
            let rows := (D.applyAll ws p.store).map (D.rowcount w)
            { p with procs := p.resume i (k rows) (ws ++ [w]), locks := p.acquire i (D.touches w) }
        | .error e => { p with procs := p.resume i (k (.error e)) ws }
      else p
  | .commit ws' k =>
      if p.free i (ws'.flatMap D.touches) then
        match c.answer (D.applyAll (ws ++ ws') p.store) with
        | .ok s =>
            { store := s, procs := p.resume i (k (.ok s)) [], locks := p.release i,
              log := p.log ++ [(i, ws ++ ws')] }
        | .error e => { p with procs := p.resume i (k (.error e)) [], locks := p.release i }
      else p
  | .rollback k => { p with procs := p.resume i k [], locks := p.release i }
  | .draw k => { p with procs := p.resume i (k c.draw) ws }

def step (p : Pool ι σ W κ δ ε α) (a : ι × Choice δ ε) : Pool ι σ W κ δ ε α :=
  p.perform D a.1 a.2 (p.procs a.1).pending (p.procs a.1).prog

def commits (p : Pool ι σ W κ δ ε α) (i : ι) (c : Choice δ ε) (ws : List W) :
    Tx σ W κ δ ε α → Option (List W)
  | .commit ws' _ =>
      if p.free i (ws'.flatMap D.touches) then
        match c.answer (D.applyAll (ws ++ ws') p.store) with
        | .ok _ => some (ws ++ ws')
        | .error _ => none
      else none
  | _ => none

/-- The transaction that the next step commits, if it commits one. -/
def publishes (p : Pool ι σ W κ δ ε α) (a : ι × Choice δ ε) : Option (List W) :=
  p.commits D a.1 a.2 (p.procs a.1).pending (p.procs a.1).prog

variable {D} {p : Pool ι σ W κ δ ε α} {a : ι × Choice δ ε}

theorem perform_of_commits {i : ι} {c : Choice δ ε} {ws ws' : List W} {t : Tx σ W κ δ ε α}
    (h : p.commits D i c ws t = some ws') :
    ∃ s, D.applyAll ws' p.store = .ok s ∧ (p.perform D i c ws t).store = s ∧
      (p.perform D i c ws t).log = p.log ++ [(i, ws')] := by
  cases t with
  | commit ws'' k =>
      simp only [commits] at h
      split at h
      · rename_i hfree
        split at h
        · rename_i s hs
          cases h
          refine ⟨s, (Choice.answer_ok.mp hs).2, ?_, ?_⟩ <;> simp only [perform, hfree, hs, if_true]
        · cases h
      · cases h
  | _ => cases h

theorem perform_of_silent {i : ι} {c : Choice δ ε} {ws : List W} {t : Tx σ W κ δ ε α}
    (h : p.commits D i c ws t = none) :
    (p.perform D i c ws t).store = p.store ∧ (p.perform D i c ws t).log = p.log := by
  cases t with
  | lock sel k =>
      simp only [perform]
      split
      · split <;> exact ⟨rfl, rfl⟩
      · exact ⟨rfl, rfl⟩
  | exec w k =>
      simp only [perform]
      split
      · split <;> exact ⟨rfl, rfl⟩
      · exact ⟨rfl, rfl⟩
  | commit ws' k =>
      simp only [commits] at h
      simp only [perform]
      split
      · rename_i hfree
        rw [if_pos hfree] at h
        split
        · rename_i s hs; rw [hs] at h; cases h
        · exact ⟨rfl, rfl⟩
      · exact ⟨rfl, rfl⟩
  | _ => exact ⟨rfl, rfl⟩

theorem step_of_publishes {ws : List W} (h : p.publishes D a = some ws) :
    ∃ s, D.applyAll ws p.store = .ok s ∧ (p.step D a).store = s ∧
      (p.step D a).log = p.log ++ [(a.1, ws)] := perform_of_commits h

theorem step_of_silent (h : p.publishes D a = none) :
    (p.step D a).store = p.store ∧ (p.step D a).log = p.log := perform_of_silent h

end Pool

/-! ## What a handler guarantees while others change the store -/

namespace Tx

variable {σ W κ δ ε α : Type} (D : Dialect σ W κ ε)
  (I : σ → Prop) (R : σ → σ → Prop) (Φ : σ → List W → Prop)

/-- From the store `s` on, as long as the store satisfies `I` and moves along `R`, every transaction
that the handler commits satisfies `Φ` at the store it is committed to. -/
def Meets : Tx σ W κ δ ε α → σ → List W → Prop
  | .ret _, _, _ => True
  | .raise _, _, _ => True
  | .read k, s, ws => ∀ t, I t → R s t →
      Meets (k (D.applyAll ws t)) t ws ∧ ∀ e, Meets (k (.error e)) t ws
  | .lock _ k, s, ws => ∀ t, I t → R s t →
      Meets (k (D.applyAll ws t)) t ws ∧ ∀ e, Meets (k (.error e)) t ws
  | .exec w k, s, ws => ∀ t, I t → R s t →
      (∀ n, Meets (k (.ok n)) t (ws ++ [w])) ∧ ∀ e, Meets (k (.error e)) t ws
  | .commit ws' k, s, ws => ∀ t, I t → R s t →
      Φ t (ws ++ ws') ∧ (∀ u, D.applyAll (ws ++ ws') t = .ok u → Meets (k (.ok u)) u []) ∧
        ∀ e, Meets (k (.error e)) t []
  | .rollback k, s, _ => Meets k s []
  | .draw k, s, ws => ∀ d, Meets (k d) s ws

variable {D I R Φ}

/-- What a handler guarantees survives the steps of the other sessions. -/
theorem Meets.mono (trans : ∀ s t u, R s t → R t u → R s u) {t : Tx σ W κ δ ε α} {s s' : σ}
    {ws : List W} (h : Meets D I R Φ t s ws) (hR : R s s') : Meets D I R Φ t s' ws := by
  induction t generalizing ws with
  | ret a => trivial
  | raise e => trivial
  | read k _ => exact fun u hu hsu => h u hu (trans _ _ _ hR hsu)
  | lock sel k _ => exact fun u hu hsu => h u hu (trans _ _ _ hR hsu)
  | exec w k _ => exact fun u hu hsu => h u hu (trans _ _ _ hR hsu)
  | commit ws' k _ => exact fun u hu hsu => h u hu (trans _ _ _ hR hsu)
  | rollback k ih => exact ih h
  | draw k ih => exact fun d => ih d (h d)

/-! ## What a handler guarantees, operation by operation -/

section Rules
variable {β : Type} {s : σ} {ws : List W}

theorem meets_ret (a : α) : Meets D I R Φ (ret a : Tx σ W κ δ ε α) s ws := trivial

theorem meets_raise (e : ε) : Meets D I R Φ (raise e : Tx σ W κ δ ε α) s ws := trivial

theorem meets_select {f : σ → Tx σ W κ δ ε α}
    (h : ∀ t, I t → R s t → ∀ u, D.applyAll ws t = .ok u → Meets D I R Φ (f u) t ws) :
    Meets D I R Φ (select >>= f) s ws := by
  rw [select_bind]
  intro t ht hst
  refine ⟨?_, fun e => meets_raise e⟩
  cases hu : D.applyAll ws t with
  | error e => exact meets_raise e
  | ok u => exact h t ht hst u hu

theorem meets_selectForUpdate {sel : σ → List κ} {f : σ → Tx σ W κ δ ε α}
    (h : ∀ t, I t → R s t → ∀ u, D.applyAll ws t = .ok u → Meets D I R Φ (f u) t ws) :
    Meets D I R Φ (selectForUpdate sel >>= f) s ws := by
  rw [selectForUpdate_bind]
  intro t ht hst
  refine ⟨?_, fun e => meets_raise e⟩
  cases hu : D.applyAll ws t with
  | error e => exact meets_raise e
  | ok u => exact h t ht hst u hu

theorem meets_execute {w : W} {f : Nat → Tx σ W κ δ ε α}
    (h : ∀ t, I t → R s t → ∀ n, Meets D I R Φ (f n) t (ws ++ [w])) :
    Meets D I R Φ (execute w >>= f) s ws := by
  rw [execute_bind]
  exact fun t ht hst => ⟨fun n => h t ht hst n, fun e => meets_raise e⟩

theorem meets_commitAll {ws' : List W} {f : σ → Tx σ W κ δ ε α}
    (hΦ : ∀ t, I t → R s t → Φ t (ws ++ ws')) (h : ∀ u, Meets D I R Φ (f u) u []) :
    Meets D I R Φ (commitAll ws' >>= f) s ws := by
  rw [commitAll_bind]
  exact fun t ht hst => ⟨hΦ t ht hst, fun u _ => h u, fun e => meets_raise e⟩

/-- A commit whose exceptions are handled. -/
theorem meets_tryCommit {ws' : List W} {f : ε → Tx σ W κ δ ε σ} {g : σ → Tx σ W κ δ ε α}
    (hΦ : ∀ t, I t → R s t → Φ t (ws ++ ws')) (hok : ∀ u, Meets D I R Φ (g u) u [])
    (herr : ∀ e t, R s t → Meets D I R Φ (f e >>= g) t []) :
    Meets D I R Φ (MonadExcept.tryCatch (commitAll ws') f >>= g) s ws :=
  fun t ht hst => ⟨hΦ t ht hst, fun u _ => hok u, fun e => herr e t hst⟩

theorem meets_rollbackAll {f : Unit → Tx σ W κ δ ε α} (h : Meets D I R Φ (f ()) s []) :
    Meets D I R Φ (rollbackAll >>= f) s ws := by
  rw [rollbackAll_bind]; exact h

theorem meets_sample {f : δ → Tx σ W κ δ ε α} (h : ∀ d, Meets D I R Φ (f d) s ws) :
    Meets D I R Φ (sample >>= f) s ws := by
  rw [sample_bind]; exact h

theorem meets_tryCatch {t : Tx σ W κ δ ε α} {f : ε → Tx σ W κ δ ε α}
    (hf : ∀ e s ws, Meets D I R Φ (f e) s ws) (h : Meets D I R Φ t s ws) :
    Meets D I R Φ (MonadExcept.tryCatch t f) s ws := by
  show Meets D I R Φ (t.tryCatch f) s ws
  induction t generalizing s ws with
  | ret a => trivial
  | raise e => exact hf e s ws
  | read k ih => exact fun u hu hsu => ⟨ih _ (h u hu hsu).1, fun e => ih _ ((h u hu hsu).2 e)⟩
  | lock sel k ih => exact fun u hu hsu => ⟨ih _ (h u hu hsu).1, fun e => ih _ ((h u hu hsu).2 e)⟩
  | exec w k ih =>
      exact fun u hu hsu => ⟨fun n => ih _ ((h u hu hsu).1 n), fun e => ih _ ((h u hu hsu).2 e)⟩
  | commit ws' k ih =>
      intro u hu hsu
      obtain ⟨hΦ, hok, herr⟩ := h u hu hsu
      exact ⟨hΦ, fun v hv => ih _ (hok v hv), fun e => ih _ (herr e)⟩
  | rollback k ih => exact ih h
  | draw k ih => exact fun d => ih d (h d)

/-- An exception handler that relies on what was known before, where the commits of the handler itself move
the store along `R`. -/
theorem meets_tryCatch_of_related (refl : ∀ s, R s s) (trans : ∀ s t u, R s t → R t u → R s u)
    (own : ∀ t ws u, Φ t ws → D.applyAll ws t = .ok u → R t u) {t : Tx σ W κ δ ε α}
    {f : ε → Tx σ W κ δ ε α} (hf : ∀ e s' ws', R s s' → Meets D I R Φ (f e) s' ws')
    (h : Meets D I R Φ t s ws) : Meets D I R Φ (MonadExcept.tryCatch t f) s ws := by
  show Meets D I R Φ (t.tryCatch f) s ws
  have later : ∀ {s u}, (∀ e s' ws', R s s' → Meets D I R Φ (f e) s' ws') → R s u →
      ∀ e s' ws', R u s' → Meets D I R Φ (f e) s' ws' :=
    fun hf hsu e s' ws' hus' => hf e s' ws' (trans _ _ _ hsu hus')
  induction t generalizing s ws with
  | ret a => trivial
  | raise e => exact hf e s ws (refl s)
  | read k ih =>
      exact fun u hu hsu => ⟨ih _ (later hf hsu) (h u hu hsu).1,
        fun e => ih _ (later hf hsu) ((h u hu hsu).2 e)⟩
  | lock sel k ih =>
      exact fun u hu hsu => ⟨ih _ (later hf hsu) (h u hu hsu).1,
        fun e => ih _ (later hf hsu) ((h u hu hsu).2 e)⟩
  | exec w k ih =>
      exact fun u hu hsu => ⟨fun n => ih _ (later hf hsu) ((h u hu hsu).1 n),
        fun e => ih _ (later hf hsu) ((h u hu hsu).2 e)⟩
  | commit ws' k ih =>
      intro u hu hsu
      obtain ⟨hΦ, hok, herr⟩ := h u hu hsu
      refine ⟨hΦ, fun v hv => ?_, fun e => ih _ (later hf hsu) (herr e)⟩
      exact ih _ (later hf (trans _ _ _ hsu (own _ _ _ hΦ hv))) (hok v hv)
  | rollback k ih => exact ih hf h
  | draw k ih => exact fun d => ih d hf (h d)

theorem Meets.map {t : Tx σ W κ δ ε α} (f : α → β) (h : Meets D I R Φ t s ws) :
    Meets D I R Φ (t >>= fun a => ret (f a)) s ws := by
  show Meets D I R Φ (t.bind fun a => ret (f a)) s ws
  induction t generalizing s ws with
  | ret a => trivial
  | raise e => trivial
  | read k ih => exact fun u hu hsu => ⟨ih _ (h u hu hsu).1, fun e => ih _ ((h u hu hsu).2 e)⟩
  | lock sel k ih => exact fun u hu hsu => ⟨ih _ (h u hu hsu).1, fun e => ih _ ((h u hu hsu).2 e)⟩
  | exec w k ih =>
      exact fun u hu hsu => ⟨fun n => ih _ ((h u hu hsu).1 n), fun e => ih _ ((h u hu hsu).2 e)⟩
  | commit ws' k ih =>
      intro u hu hsu
      obtain ⟨hΦ, hok, herr⟩ := h u hu hsu
      exact ⟨hΦ, fun v hv => ih _ (hok v hv), fun e => ih _ (herr e)⟩
  | rollback k ih => exact ih h
  | draw k ih => exact fun d => ih d (h d)

end Rules

/-! ## What a handler guarantees when it runs alone -/

section Alone
variable (env : Nat → Choice δ ε)

def Commit (D : Dialect σ W κ ε) (Φ : σ → List W → Prop) (s s' : σ) : Prop :=
  ∃ ws, Φ s ws ∧ D.applyAll ws s = .ok s'

theorem eval_of_meets {t : Tx σ W κ δ ε α} {s : σ} {ws : List W} (n : Nat)
    (h : Meets D (fun _ => True) Eq Φ t s ws) :
    Relation.ReflTransGen (Commit D Φ) s (t.eval D env ⟨s, ws, n⟩).2.store := by
  induction t generalizing s ws n with
  | ret a => exact .refl
  | raise e => exact .refl
  | read k ih =>
      obtain ⟨hok, herr⟩ := h _ trivial rfl
      cases hf : (env n).fault with
      | none => simpa only [eval, Choice.answer, hf] using ih _ (n + 1) hok
      | some e => simpa only [eval, Choice.answer, hf] using ih _ (n + 1) (herr e)
  | lock sel k ih =>
      obtain ⟨hok, herr⟩ := h _ trivial rfl
      cases hf : (env n).fault with
      | none => simpa only [eval, Choice.answer, hf] using ih _ (n + 1) hok
      | some e => simpa only [eval, Choice.answer, hf] using ih _ (n + 1) (herr e)
  | exec w k ih =>
      obtain ⟨hok, herr⟩ := h _ trivial rfl
      simp only [eval]
      split
      · rename_i u hu
        obtain ⟨v, hv, -⟩ := D.applyAll_append_ok.mp (Choice.answer_ok.mp hu).2
        rw [hv]
        exact ih _ (n + 1) (hok _)
      · rename_i e _
        exact ih _ (n + 1) (herr e)
  | commit ws' k ih =>
      obtain ⟨hΦ, hok, herr⟩ := h _ trivial rfl
      simp only [eval]
      split
      · rename_i u hu
        have happ := (Choice.answer_ok.mp hu).2
        exact Relation.ReflTransGen.head ⟨_, hΦ, happ⟩ (ih _ (n + 1) (hok u happ))
      · rename_i e _
        exact ih _ (n + 1) (herr e)
  | rollback k ih =>
      have hk : Meets D (fun _ => True) Eq Φ k s [] := h
      exact ih (n + 1) hk
  | draw k ih => exact ih (env n).draw (n + 1) (h _)

/-- A handler that commits to its first store only leaves that store or what one transaction makes of
it. -/
theorem eval_once {s : σ} {t : Tx σ W κ δ ε α} (n : Nat)
    (h : Meets D (fun _ => True) Eq (fun s' ws => s' = s ∧ Φ s' ws) t s []) :
    (t.eval D env ⟨s, [], n⟩).2.store = s ∨ Commit D Φ s (t.eval D env ⟨s, [], n⟩).2.store := by
  rcases (eval_of_meets env n h).cases_tail with heq | ⟨s', -, ws, ⟨rfl, hΦ⟩, happ⟩
  · exact Or.inl heq
  · exact Or.inr ⟨ws, hΦ, happ⟩

end Alone

end Tx

namespace Pool

variable {ι σ W κ δ ε α : Type} [DecidableEq ι] [DecidableEq κ] {D : Dialect σ W κ ε}
  {I : σ → Prop} {R : σ → σ → Prop} {Φ : ι → σ → List W → Prop}

def AllMeet (D : Dialect σ W κ ε) (I : σ → Prop) (R : σ → σ → Prop) (Φ : ι → σ → List W → Prop)
    (p : Pool ι σ W κ δ ε α) : Prop :=
  ∀ i, Tx.Meets D I R (Φ i) (p.procs i).prog p.store (p.procs i).pending

variable {p : Pool ι σ W κ δ ε α} {a : ι × Choice δ ε}

theorem AllMeet.publishes (refl : ∀ s, R s s) (hI : I p.store) (h : AllMeet D I R Φ p) {ws : List W}
    (hw : p.publishes D a = some ws) : Φ a.1 p.store ws := by
  have hm := h a.1
  unfold Pool.publishes at hw
  cases hprog : (p.procs a.1).prog with
  | commit ws' k =>
      rw [hprog] at hm hw
      simp only [Pool.commits] at hw
      split at hw
      · split at hw
        · cases hw; exact (hm p.store hI (refl _)).1
        · cases hw
      · cases hw
  | _ => rw [hprog] at hw; cases hw

theorem AllMeet.resume (trans : ∀ s t u, R s t → R t u → R s u) (h : AllMeet D I R Φ p) {s : σ}
    (hR : R p.store s) {i : ι} {prog : Tx σ W κ δ ε α} {ws : List W}
    (hi : Tx.Meets D I R (Φ i) prog s ws) {locks : κ → Option ι} {log : List (ι × List W)} :
    AllMeet D I R Φ ⟨s, p.resume i prog ws, locks, log⟩ := by
  intro j
  by_cases hj : j = i
  · subst hj; simpa [Pool.resume] using hi
  · simpa [Pool.resume, hj] using (h j).mono trans hR

/-- One step: the handler that made it goes on to guarantee its `Φ`, and so do all others. -/
theorem AllMeet.step (refl : ∀ s, R s s) (trans : ∀ s t u, R s t → R t u → R s u)
    (hI : I p.store) (h : AllMeet D I R Φ p) (hR : R p.store (p.step D a).store) :
    AllMeet D I R Φ (p.step D a) := by
  have hm := h a.1
  unfold Pool.step at hR ⊢
  cases hprog : (p.procs a.1).prog with
  | ret x => exact h
  | raise e => exact h
  | read k =>
      rw [hprog] at hm
      obtain ⟨hok, herr⟩ := hm _ hI (refl _)
      refine AllMeet.resume trans h (refl _) ?_
      unfold Choice.answer
      split
      · exact herr _
      · exact hok
  | lock sel k =>
      rw [hprog] at hm
      obtain ⟨hok, herr⟩ := hm _ hI (refl _)
      simp only [perform]
      split
      · rename_i s hs
        rw [(Choice.answer_ok.mp hs).2] at hok
        split
        · exact AllMeet.resume trans h (refl _) hok
        · exact h
      · exact AllMeet.resume trans h (refl _) (herr _)
  | exec w k =>
      rw [hprog] at hm
      obtain ⟨hok, herr⟩ := hm _ hI (refl _)
      simp only [perform]
      split
      · split
        · rename_i s hs
          obtain ⟨u, hu, -⟩ := D.applyAll_append_ok.mp (Choice.answer_ok.mp hs).2
          rw [hu]
          exact AllMeet.resume trans h (refl _) (hok _)
        · exact AllMeet.resume trans h (refl _) (herr _)
      · exact h
  | commit ws k =>
      rw [hprog] at hm hR
      obtain ⟨-, hok, herr⟩ := hm _ hI (refl _)
      simp only [perform] at hR ⊢
      split
      · rename_i hfree
        rw [if_pos hfree] at hR
        split
        · rename_i s hs
          rw [hs] at hR
          exact AllMeet.resume trans h hR (hok s (Choice.answer_ok.mp hs).2)
        · exact AllMeet.resume trans h (refl _) (herr _)
      · exact h
  | rollback k =>
      rw [hprog] at hm
      have hk : Tx.Meets D I R (Φ a.1) k p.store [] := hm
      exact AllMeet.resume trans h (refl _) hk
  | draw k =>
      rw [hprog] at hm
      exact AllMeet.resume trans h (refl _) (hm _)

end Pool
