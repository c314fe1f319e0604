import FleetManagement.Library.Answers

/-!
# Postconditions of handlers among others

`Rely E Q t s ws` says how the handler `t` can end, from the store `s` on and with the open transaction
`ws`, while other sessions commit: it returns an `a` with `Q a`, or it raises an `e` with `E e`. What it
relies on is that the stores satisfy `I` and move along `R`, and that the steps that fail raise what `B`
allows. `Reports` also says what is `told` when it ends: its last transaction is the only one of note.
-/

namespace Tx

variable {σ W κ δ ε α β ν : Type} (D : Dialect σ W κ ε) (I : σ → Prop) (R : σ → σ → Prop) (B : ε → Prop)
  (note : List W → List ν)

/-- With `told`, what `note` says of the transactions that the handler has committed. It ends with the first one
of note. -/
def Reports (E : ε → σ → List ν → Prop) (Q : α → σ → List W → List ν → Prop) :
    Tx σ W κ δ ε α → σ → List W → List ν → Prop
  | .ret a, s, ws, told => Q a s ws told
  | .raise e, s, _, told => E e s told
  | .read k, s, ws, told => told = [] ∧ ∀ t, I t → R s t →
      Reports E Q (k (D.applyAll ws t)) t ws [] ∧ ∀ e, B e → Reports E Q (k (.error e)) t ws []
  | .lock _ k, s, ws, told => told = [] ∧ ∀ t, I t → R s t →
      Reports E Q (k (D.applyAll ws t)) t ws [] ∧ ∀ e, B e → Reports E Q (k (.error e)) t ws []
  | .exec w k, s, ws, told => told = [] ∧ ∀ t, I t → R s t →
      (∀ u v, D.applyAll ws t = .ok u → D.apply w u = .ok v →
        Reports E Q (k (.ok (D.rowcount w u))) t (ws ++ [w]) []) ∧
      ∀ e, D.applyAll (ws ++ [w]) t = .error e ∨ B e → Reports E Q (k (.error e)) t ws []
  | .commit ws' k, s, ws, told => told = [] ∧ ∀ t, I t → R s t →
      (∀ u, D.applyAll (ws ++ ws') t = .ok u → Reports E Q (k (.ok u)) u [] (note (ws ++ ws'))) ∧
      ∀ e, D.applyAll (ws ++ ws') t = .error e ∨ B e → Reports E Q (k (.error e)) t [] []
  | .rollback k, s, _, told => told = [] ∧ Reports E Q k s [] []
  | .draw k, s, ws, told => told = [] ∧ ∀ d, Reports E Q (k d) s ws []

/-- Where nothing is of note. -/
def Rely (E : ε → σ → Prop) (Q : α → σ → List W → Prop) (t : Tx σ W κ δ ε α) (s : σ) (ws : List W) : Prop :=
  Reports D I R B (fun _ => ([] : List Empty)) (fun e s _ => E e s) (fun a s ws _ => Q a s ws) t s ws []

variable {D I R B note}

section Reports
variable {E E' : ε → σ → List ν → Prop} {Q Q' : α → σ → List W → List ν → Prop} {s s' : σ} {ws : List W}
  {told : List ν}

/-- How a handler can end does not depend on the steps of the other sessions. -/
theorem Reports.later (trans : ∀ s t u, R s t → R t u → R s u)
    (hE : ∀ e s t told, R s t → E e s told → E e t told)
    (hQ : ∀ a s t ws told, R s t → Q a s ws told → Q a t ws told)
    {t : Tx σ W κ δ ε α} (h : Reports D I R B note E Q t s ws told) (hR : R s s') :
    Reports D I R B note E Q t s' ws told := by
  induction t generalizing ws told with
  | ret a => exact hQ a s s' ws told hR h
  | raise e => exact hE e s s' told hR h
  | read k _ => exact ⟨h.1, fun u hu hsu => h.2 u hu (trans _ _ _ hR hsu)⟩
  | lock sel k _ => exact ⟨h.1, fun u hu hsu => h.2 u hu (trans _ _ _ hR hsu)⟩
  | exec w k _ => exact ⟨h.1, fun u hu hsu => h.2 u hu (trans _ _ _ hR hsu)⟩
  | commit ws' k _ => exact ⟨h.1, fun u hu hsu => h.2 u hu (trans _ _ _ hR hsu)⟩
  | rollback k ih => exact ⟨h.1, ih h.2⟩
  | draw k ih => exact ⟨h.1, fun d => ih d (h.2 d)⟩

theorem Reports.mono {t : Tx σ W κ δ ε α} (h : Reports D I R B note E Q t s ws told)
    (hE : ∀ e s told, E e s told → E' e s told) (hQ : ∀ a s ws told, Q a s ws told → Q' a s ws told) :
    Reports D I R B note E' Q' t s ws told := by
  induction t generalizing s ws told with
  | ret a => exact hQ a s ws told h
  | raise e => exact hE e s told h
  | read k ih =>
      exact ⟨h.1, fun u hu hsu => ⟨ih _ (h.2 u hu hsu).1, fun e he => ih _ ((h.2 u hu hsu).2 e he)⟩⟩
  | lock sel k ih =>
      exact ⟨h.1, fun u hu hsu => ⟨ih _ (h.2 u hu hsu).1, fun e he => ih _ ((h.2 u hu hsu).2 e he)⟩⟩
  | exec w k ih =>
      exact ⟨h.1, fun u hu hsu => ⟨fun v v' hv hv' => ih _ ((h.2 u hu hsu).1 v v' hv hv'),
        fun e he => ih _ ((h.2 u hu hsu).2 e he)⟩⟩
  | commit ws' k ih =>
      exact ⟨h.1, fun u hu hsu => ⟨fun v hv => ih _ ((h.2 u hu hsu).1 v hv),
        fun e he => ih _ ((h.2 u hu hsu).2 e he)⟩⟩
  | rollback k ih => exact ⟨h.1, ih h.2⟩
  | draw k ih => exact ⟨h.1, fun d => ih d (h.2 d)⟩

/-- Sequential composition: the second handler starts where the first one returned. -/
theorem reports_bind {Q : β → σ → List W → List ν → Prop} {t : Tx σ W κ δ ε α} {f : α → Tx σ W κ δ ε β}
    (h : Reports D I R B note E (fun a => Reports D I R B note E Q (f a)) t s ws told) :
    Reports D I R B note E Q (t >>= f) s ws told := by
  show Reports D I R B note E Q (t.bind f) s ws told
  induction t generalizing s ws told with
  | ret a => exact h
  | raise e => exact h
  | read k ih =>
      exact ⟨h.1, fun u hu hsu => ⟨ih _ (h.2 u hu hsu).1, fun e he => ih _ ((h.2 u hu hsu).2 e he)⟩⟩
  | lock sel k ih =>
      exact ⟨h.1, fun u hu hsu => ⟨ih _ (h.2 u hu hsu).1, fun e he => ih _ ((h.2 u hu hsu).2 e he)⟩⟩
  | exec w k ih =>
      exact ⟨h.1, fun u hu hsu => ⟨fun v v' hv hv' => ih _ ((h.2 u hu hsu).1 v v' hv hv'),
        fun e he => ih _ ((h.2 u hu hsu).2 e he)⟩⟩
  | commit ws' k ih =>
      exact ⟨h.1, fun u hu hsu => ⟨fun v hv => ih _ ((h.2 u hu hsu).1 v hv),
        fun e he => ih _ ((h.2 u hu hsu).2 e he)⟩⟩
  | rollback k ih => exact ⟨h.1, ih h.2⟩
  | draw k ih => exact ⟨h.1, fun d => ih d (h.2 d)⟩

/-- The handler of the exceptions that satisfy `F` starts in the store in which they were raised. -/
theorem reports_tryCatch {F : ε → σ → List ν → Prop} {t : Tx σ W κ δ ε α} {f : ε → Tx σ W κ δ ε α}
    (hf : ∀ e s ws told, F e s told → Reports D I R B note E Q (f e) s ws told)
    (h : Reports D I R B note F Q t s ws told) :
    Reports D I R B note E Q (MonadExcept.tryCatch t f) s ws told := by
  show Reports D I R B note E Q (t.tryCatch f) s ws told
  induction t generalizing s ws told with
  | ret a => exact h
  | raise e => exact hf e s ws told h
  | read k ih =>
      exact ⟨h.1, fun u hu hsu => ⟨ih _ (h.2 u hu hsu).1, fun e he => ih _ ((h.2 u hu hsu).2 e he)⟩⟩
  | lock sel k ih =>
      exact ⟨h.1, fun u hu hsu => ⟨ih _ (h.2 u hu hsu).1, fun e he => ih _ ((h.2 u hu hsu).2 e he)⟩⟩
  | exec w k ih =>
      exact ⟨h.1, fun u hu hsu => ⟨fun v v' hv hv' => ih _ ((h.2 u hu hsu).1 v v' hv hv'),
        fun e he => ih _ ((h.2 u hu hsu).2 e he)⟩⟩
  | commit ws' k ih =>
      exact ⟨h.1, fun u hu hsu => ⟨fun v hv => ih _ ((h.2 u hu hsu).1 v hv),
        fun e he => ih _ ((h.2 u hu hsu).2 e he)⟩⟩
  | rollback k ih => exact ⟨h.1, ih h.2⟩
  | draw k ih => exact ⟨h.1, fun d => ih d (h.2 d)⟩

/-- A handler that sends nothing of note ends as it does where notes are not taken. -/
theorem Rely.reports {p : W → Prop} (hp : ∀ ws, (∀ w ∈ ws, p w) → note ws = []) {E : ε → σ → Prop}
    {Q : α → σ → List W → Prop} {t : Tx σ W κ δ ε α} (h : Rely D I R B E Q t s ws) (ht : Emits p t)
    (hws : ∀ w ∈ ws, p w) :
    Reports D I R B note (fun e s told => told = [] ∧ E e s)
      (fun a s ws told => told = [] ∧ (∀ w ∈ ws, p w) ∧ Q a s ws) t s ws [] := by
  have hnil : ∀ w ∈ ([] : List W), p w := fun w hw => by cases hw
  induction t generalizing s ws with
  | ret a => exact ⟨rfl, hws, h⟩
  | raise e => exact ⟨rfl, h⟩
  | read k ih =>
      exact ⟨rfl, fun u hu hsu => ⟨ih _ (h.2 u hu hsu).1 (ht _) hws,
        fun e he => ih _ ((h.2 u hu hsu).2 e he) (ht _) hws⟩⟩
  | lock sel k ih =>
      exact ⟨rfl, fun u hu hsu => ⟨ih _ (h.2 u hu hsu).1 (ht _) hws,
        fun e he => ih _ ((h.2 u hu hsu).2 e he) (ht _) hws⟩⟩
  | exec w k ih =>
      have hws' : ∀ w' ∈ ws ++ [w], p w' := by simpa [or_imp, forall_and] using ⟨hws, ht.1⟩
      exact ⟨rfl, fun u hu hsu => ⟨fun v v' hv hv' => ih _ ((h.2 u hu hsu).1 v v' hv hv') (ht.2 _) hws',
        fun e he => ih _ ((h.2 u hu hsu).2 e he) (ht.2 _) hws⟩⟩
  | commit ws' k ih =>
      have hws' : ∀ w ∈ ws ++ ws', p w := by simpa [or_imp, forall_and] using ⟨hws, ht.1⟩
      refine ⟨rfl, fun u hu hsu => ⟨fun v hv => ?_, fun e he => ih _ ((h.2 u hu hsu).2 e he) (ht.2 _) hnil⟩⟩
      rw [hp _ hws']
      exact ih _ ((h.2 u hu hsu).1 v hv) (ht.2 _) hnil
  | rollback k ih => exact ⟨rfl, ih h.2 ht hnil⟩
  | draw k ih => exact ⟨rfl, fun d => ih d (h.2 d) (ht d) hws⟩

/-! ## Operation by operation -/

theorem reports_selectForUpdate {Q : σ → σ → List W → List ν → Prop} {sel : σ → List κ}
    (hok : ∀ t, I t → R s t → Q t t [] []) (hfault : ∀ e t, B e → R s t → E e t []) :
    Reports D I R B note E Q (selectForUpdate sel : Tx σ W κ δ ε σ) s [] [] :=
  ⟨rfl, fun t ht hst => ⟨hok t ht hst, fun e he => hfault e t he hst⟩⟩

theorem reports_commitAll {Q : σ → σ → List W → List ν → Prop} {ws' : List W}
    (hok : ∀ t u, I t → R s t → D.applyAll (ws ++ ws') t = .ok u → Q u u [] (note (ws ++ ws')))
    (herr : ∀ t e, I t → R s t → D.applyAll (ws ++ ws') t = .error e ∨ B e → E e t []) :
    Reports D I R B note E Q (commitAll ws' : Tx σ W κ δ ε σ) s ws [] :=
  ⟨rfl, fun t ht hst => ⟨fun u hu => hok t u ht hst hu, fun e he => herr t e ht hst he⟩⟩

end Reports

section Rely
variable {E E' : ε → σ → Prop} {Q : α → σ → List W → Prop} {s : σ} {ws : List W}

theorem rely_bind {Q : β → σ → List W → Prop} {t : Tx σ W κ δ ε α} {f : α → Tx σ W κ δ ε β}
    (h : Rely D I R B E (fun a => Rely D I R B E Q (f a)) t s ws) : Rely D I R B E Q (t >>= f) s ws := by
  refine reports_bind (Reports.mono h (fun _ _ _ he => he) fun a s ws told ha => ?_)
  obtain rfl := Subsingleton.elim told []
  exact ha

theorem rely_tryCatch {t : Tx σ W κ δ ε α} {f : ε → Tx σ W κ δ ε α}
    (hf : ∀ e s ws, E' e s → Rely D I R B E Q (f e) s ws) (h : Rely D I R B E' Q t s ws) :
    Rely D I R B E Q (MonadExcept.tryCatch t f) s ws := by
  refine reports_tryCatch (fun e s ws told he => ?_) h
  obtain rfl := Subsingleton.elim told []
  exact hf e s ws he

theorem rely_select {Q : σ → σ → List W → Prop} (hok : ∀ t, I t → R s t → Q t t [])
    (hfault : ∀ e t, B e → R s t → E e t) : Rely D I R B E Q (select : Tx σ W κ δ ε σ) s [] :=
  ⟨rfl, fun t ht hst => ⟨hok t ht hst, fun e he => hfault e t he hst⟩⟩

/-- A query in an open transaction, whose statements may be rejected. -/
theorem rely_selectOpen {Q : σ → σ → List W → Prop} (hok : ∀ t u, I t → R s t → Q u t ws)
    (herr : ∀ t e, I t → R s t → D.applyAll ws t = .error e ∨ B e → E e t) :
    Rely D I R B E Q (select : Tx σ W κ δ ε σ) s ws := by
  refine ⟨rfl, fun t ht hst => ⟨?_, fun e he => herr t e ht hst (Or.inr he)⟩⟩
  cases hu : D.applyAll ws t with
  | error e => exact herr t e ht hst (Or.inl hu)
  | ok u => exact hok t u ht hst

theorem rely_selectForUpdate {Q : σ → σ → List W → Prop} {sel : σ → List κ}
    (hok : ∀ t, I t → R s t → Q t t []) (hfault : ∀ e t, B e → R s t → E e t) :
    Rely D I R B E Q (selectForUpdate sel : Tx σ W κ δ ε σ) s [] :=
  reports_selectForUpdate hok hfault

theorem rely_execute {Q : Nat → σ → List W → Prop} {w : W} (hok : ∀ t n, I t → R s t → Q n t (ws ++ [w]))
    (herr : ∀ t e, I t → R s t → D.applyAll (ws ++ [w]) t = .error e ∨ B e → E e t) :
    Rely D I R B E Q (execute w : Tx σ W κ δ ε Nat) s ws :=
  ⟨rfl, fun t ht hst => ⟨fun _ _ _ _ => hok t _ ht hst, fun e he => herr t e ht hst he⟩⟩

theorem rely_commitAll {Q : σ → σ → List W → Prop} {ws' : List W}
    (hok : ∀ t u, I t → R s t → D.applyAll (ws ++ ws') t = .ok u → Q u u [])
    (herr : ∀ t e, I t → R s t → D.applyAll (ws ++ ws') t = .error e → E e t)
    (hfault : ∀ e t, B e → R s t → E e t) :
    Rely D I R B E Q (commitAll ws' : Tx σ W κ δ ε σ) s ws :=
  reports_commitAll hok fun t e ht hst he => he.elim (herr t e ht hst) fun he => hfault e t he hst

theorem rely_sample {Q : δ → σ → List W → Prop} (h : ∀ d, Q d s ws) :
    Rely D I R B E Q (sample : Tx σ W κ δ ε δ) s ws := ⟨rfl, h⟩

theorem rely_rollbackAll {Q : Unit → σ → List W → Prop} (h : Q () s []) :
    Rely D I R B E Q (rollbackAll : Tx σ W κ δ ε Unit) s ws := ⟨rfl, h⟩

end Rely

end Tx

/-! ## Runs -/

set_option linter.unusedSectionVars false

namespace Pool

variable {ι σ W κ δ ε α ν : Type} [DecidableEq ι] [DecidableEq κ] {D : Dialect σ W κ ε}
  {I : σ → Prop} {R : σ → σ → Prop} {B : ε → Prop} {note : List W → List ν} {p : Pool ι σ W κ δ ε α}
  {a : ι × Choice δ ε}

/-- What `note` says of the transactions of the session `i`, oldest first. -/
def told (note : List W → List ν) (log : List (ι × List W)) (i : ι) : List ν :=
  log.flatMap fun c => if c.1 = i then note c.2 else []

theorem told_self {log : List (ι × List W)} {i : ι} {ws : List W} (h : told note log i = []) :
    told note (log ++ [(i, ws)]) i = note ws := by
  unfold told at *
  rw [List.flatMap_append, h]
  simp

theorem told_of_ne {log : List (ι × List W)} {i j : ι} {ws : List W} (h : j ≠ i) :
    told note (log ++ [(i, ws)]) j = told note log j := by
  simp [told, h.symm]

def AllReports (D : Dialect σ W κ ε) (I : σ → Prop) (R : σ → σ → Prop) (B : ε → Prop) (note : List W → List ν)
    (E : ι → ε → σ → List ν → Prop) (Q : ι → α → σ → List W → List ν → Prop) (p : Pool ι σ W κ δ ε α) : Prop :=
  ∀ i, Tx.Reports D I R B note (E i) (Q i) (p.procs i).prog p.store (p.procs i).pending (told note p.log i)

def AllRely (D : Dialect σ W κ ε) (I : σ → Prop) (R : σ → σ → Prop) (B : ε → Prop)
    (E : ι → ε → σ → Prop) (Q : ι → α → σ → List W → Prop) (p : Pool ι σ W κ δ ε α) : Prop :=
  AllReports D I R B (fun _ => ([] : List Empty)) (fun i e s _ => E i e s) (fun i a s ws _ => Q i a s ws) p

section Reports
variable {E : ι → ε → σ → List ν → Prop} {Q : ι → α → σ → List W → List ν → Prop}

theorem AllReports.resume (trans : ∀ s t u, R s t → R t u → R s u)
    (hE : ∀ i e s t told, R s t → E i e s told → E i e t told)
    (hQ : ∀ i a s t ws told, R s t → Q i a s ws told → Q i a t ws told)
    (h : AllReports D I R B note E Q p) {s : σ} (hR : R p.store s) {i : ι} {prog : Tx σ W κ δ ε α}
    {ws : List W} {log : List (ι × List W)} (hlog : ∀ j, j ≠ i → told note log j = told note p.log j)
    (hi : Tx.Reports D I R B note (E i) (Q i) prog s ws (told note log i)) {locks : κ → Option ι} :
    AllReports D I R B note E Q ⟨s, p.resume i prog ws, locks, log⟩ := by
  intro j
  by_cases hj : j = i
  · subst hj; simpa [Pool.resume] using hi
  · simpa [Pool.resume, hj, hlog j hj] using (h j).later trans (hE j) (hQ j) hR

/-- One step leaves how each session can end. -/
theorem AllReports.step (refl : ∀ s, R s s) (trans : ∀ s t u, R s t → R t u → R s u)
    (hE : ∀ i e s t told, R s t → E i e s told → E i e t told)
    (hQ : ∀ i a s t ws told, R s t → Q i a s ws told → Q i a t ws told)
    (hB : ∀ e, a.2.fault = some e → B e) (hI : I p.store) (h : AllReports D I R B note E Q p)
    (hR : R p.store (p.step D a).store) : AllReports D I R B note E Q (p.step D a) := by
  have hm := h a.1
  have hanswer : ∀ {β : Type} {x : Except ε β} {e : ε}, a.2.answer x = .error e → x = .error e ∨ B e := by
    intro β x e he
    cases hf : a.2.fault with
    | none => exact Or.inl (by simpa [Choice.answer, hf] using he)
    | some e' =>
        obtain rfl : e' = e := by simpa [Choice.answer, hf] using he
        exact Or.inr (hB e' hf)
  -- Only a commit writes to the log.
  have hquiet : ∀ {prog ws} {locks : κ → Option ι}, told note p.log a.1 = [] →
      Tx.Reports D I R B note (E a.1) (Q a.1) prog p.store ws [] →
      AllReports D I R B note E Q ⟨p.store, p.resume a.1 prog ws, locks, p.log⟩ := fun hnil hi =>
    AllReports.resume trans hE hQ h (refl _) (fun _ _ => rfl) (hnil ▸ hi)
  unfold Pool.step at hR ⊢
  cases hprog : (p.procs a.1).prog with
  | ret x => exact h
  | raise e => exact h
  | read k =>
      rw [hprog] at hm
      obtain ⟨hnil, hm⟩ := hm
      obtain ⟨hok, herr⟩ := hm _ hI (refl _)
      refine hquiet hnil ?_
      unfold Choice.answer
      split
      · rename_i e he
        exact herr e (hB e he)
      · exact hok
  | lock sel k =>
      rw [hprog] at hm
      obtain ⟨hnil, hm⟩ := hm
      obtain ⟨hok, herr⟩ := hm _ hI (refl _)
      simp only [perform]
      split
      · rename_i s hs
        rw [(Choice.answer_ok.mp hs).2] at hok
        split
        · exact hquiet hnil hok
        · exact h
      · rename_i e he
        refine hquiet hnil ?_
        rcases hanswer he with heq | hbad
        · rw [heq] at hok
          exact hok
        · exact herr e hbad
  | exec w k =>
      rw [hprog] at hm
      obtain ⟨hnil, hm⟩ := hm
      obtain ⟨hok, herr⟩ := hm _ hI (refl _)
      simp only [perform]
      split
      · split
        · rename_i s hs
          obtain ⟨u, hu, hw⟩ := D.applyAll_append_ok.mp (Choice.answer_ok.mp hs).2
          rw [hu]
          exact hquiet hnil (hok u s hu (D.applyAll_singleton_ok.mp hw))
        · rename_i e he
          exact hquiet hnil (herr e (hanswer he))
      · exact h
  | commit ws k =>
      rw [hprog] at hm hR
      obtain ⟨hnil, hm⟩ := hm
      obtain ⟨hok, herr⟩ := hm _ hI (refl _)
      simp only [perform] at hR ⊢
      split
      · rename_i hfree
        rw [if_pos hfree] at hR
        split
        · rename_i s hs
          rw [hs] at hR
          refine AllReports.resume trans hE hQ h hR (fun _ => told_of_ne) ?_
          rw [told_self hnil]
          exact hok s (Choice.answer_ok.mp hs).2
        · rename_i e he
          exact hquiet hnil (herr e (hanswer he))
      · exact h
  | rollback k =>
      rw [hprog] at hm
      exact hquiet hm.1 hm.2
  | draw k =>
      rw [hprog] at hm
      exact hquiet hm.1 (hm.2 _)

theorem AllReports.raised (h : AllReports D I R B note E Q p) {i : ι} {e : ε}
    (he : (p.procs i).prog = .raise e) : E i e p.store (told note p.log i) := by
  have hi := h i
  rw [he] at hi
  exact hi

theorem AllReports.returned (h : AllReports D I R B note E Q p) {i : ι} {x : α}
    (hx : (p.procs i).prog = .ret x) : Q i x p.store (p.procs i).pending (told note p.log i) := by
  have hi := h i
  rw [hx] at hi
  exact hi

/-- A handler that has not ended has told nothing. -/
theorem AllReports.unfinished (h : AllReports D I R B note E Q p) {i : ι}
    (hret : ∀ x, (p.procs i).prog ≠ .ret x) (hraise : ∀ e, (p.procs i).prog ≠ .raise e) :
    told note p.log i = [] := by
  have hi := h i
  cases hprog : (p.procs i).prog with
  | ret x => exact absurd hprog (hret x)
  | raise e => exact absurd hprog (hraise e)
  | _ =>
      rw [hprog] at hi
      exact hi.1

end Reports

section Rely
variable {E : ι → ε → σ → Prop} {Q : ι → α → σ → List W → Prop}

theorem AllRely.raised (h : AllRely D I R B E Q p) {i : ι} {e : ε} (he : (p.procs i).prog = .raise e) :
    E i e p.store := AllReports.raised h he

theorem AllRely.returned (h : AllRely D I R B E Q p) {i : ι} {x : α} (hx : (p.procs i).prog = .ret x) :
    Q i x p.store (p.procs i).pending := AllReports.returned h hx

end Rely

end Pool
