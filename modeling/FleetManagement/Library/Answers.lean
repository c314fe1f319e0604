import FleetManagement.Library.Pool

/-!
# What a handler can send and answer

Two properties of a handler alone: every statement that it can send satisfies `p`, and every answer that
it can give satisfies `Q`, whatever it reads from stores that satisfy `I`.
-/

namespace Tx

variable {σ W κ δ ε α β : Type}

/-- Every statement that the handler can send satisfies `p`, whatever the store answers. -/
def Emits (p : W → Prop) : Tx σ W κ δ ε α → Prop
  | .ret _ => True
  | .raise _ => True
  | .read k => ∀ x, Emits p (k x)
  | .lock _ k => ∀ x, Emits p (k x)
  | .exec w k => p w ∧ ∀ x, Emits p (k x)
  | .commit ws k => (∀ w ∈ ws, p w) ∧ ∀ x, Emits p (k x)
  | .rollback k => Emits p k
  | .draw k => ∀ d, Emits p (k d)

section Emits
variable {p : W → Prop}

theorem Emits.mono {q : W → Prop} {t : Tx σ W κ δ ε α} (h : Emits p t) (hpq : ∀ w, p w → q w) :
    Emits q t := by
  induction t with
  | ret a => trivial
  | raise e => trivial
  | read k ih => exact fun x => ih x (h x)
  | lock sel k ih => exact fun x => ih x (h x)
  | exec w k ih => exact ⟨hpq w h.1, fun x => ih x (h.2 x)⟩
  | commit ws k ih => exact ⟨fun w hw => hpq w (h.1 w hw), fun x => ih x (h.2 x)⟩
  | rollback k ih => exact ih h
  | draw k ih => exact fun d => ih d (h d)

theorem emits_any (h : ∀ w, p w) (t : Tx σ W κ δ ε α) : Emits p t := by
  induction t with
  | ret a => trivial
  | raise e => trivial
  | read k ih => exact fun x => ih x
  | lock sel k ih => exact fun x => ih x
  | exec w k ih => exact ⟨h w, fun x => ih x⟩
  | commit ws k ih => exact ⟨fun w _ => h w, fun x => ih x⟩
  | rollback k ih => exact ih
  | draw k ih => exact fun d => ih d

theorem emits_ofExcept (x : Except ε α) : Emits p (ofExcept x : Tx σ W κ δ ε α) := by
  cases x <;> trivial

theorem emits_select : Emits p (select : Tx σ W κ δ ε σ) := emits_ofExcept

theorem emits_selectForUpdate (sel : σ → List κ) :
    Emits p (selectForUpdate sel : Tx σ W κ δ ε σ) := emits_ofExcept

theorem emits_commitAll {ws : List W} (h : ∀ w ∈ ws, p w) :
    Emits p (commitAll ws : Tx σ W κ δ ε σ) := ⟨h, emits_ofExcept⟩

theorem emits_rollbackAll : Emits p (rollbackAll : Tx σ W κ δ ε Unit) := trivial

theorem emits_sample : Emits p (sample : Tx σ W κ δ ε δ) := fun _ => trivial

theorem emits_bind {t : Tx σ W κ δ ε α} {f : α → Tx σ W κ δ ε β} (h : Emits p t)
    (hf : ∀ a, Emits p (f a)) : Emits p (t >>= f) := by
  show Emits p (t.bind f)
  induction t with
  | ret a => exact hf a
  | raise e => trivial
  | read k ih => exact fun x => ih x (h x)
  | lock sel k ih => exact fun x => ih x (h x)
  | exec w k ih => exact ⟨h.1, fun x => ih x (h.2 x)⟩
  | commit ws k ih => exact ⟨h.1, fun x => ih x (h.2 x)⟩
  | rollback k ih => exact ih h
  | draw k ih => exact fun d => ih d (h d)

theorem emits_tryCatch {t : Tx σ W κ δ ε α} {f : ε → Tx σ W κ δ ε α} (h : Emits p t)
    (hf : ∀ e, Emits p (f e)) : Emits p (MonadExcept.tryCatch t f) := by
  show Emits p (t.tryCatch f)
  induction t with
  | ret a => trivial
  | raise e => exact hf e
  | read k ih => exact fun x => ih x (h x)
  | lock sel k ih => exact fun x => ih x (h x)
  | exec w k ih => exact ⟨h.1, fun x => ih x (h.2 x)⟩
  | commit ws k ih => exact ⟨h.1, fun x => ih x (h.2 x)⟩
  | rollback k ih => exact ih h
  | draw k ih => exact fun d => ih d (h d)

/-- A handler commits nothing but what it sends. -/
theorem Emits.meets {D : Dialect σ W κ ε} {I : σ → Prop} {R : σ → σ → Prop} {Φ : σ → List W → Prop}
    (hΦ : ∀ s ws, (∀ w ∈ ws, p w) → Φ s ws) {t : Tx σ W κ δ ε α} (h : Emits p t) {s : σ} {ws : List W}
    (hws : ∀ w ∈ ws, p w) : Meets D I R Φ t s ws := by
  induction t generalizing s ws with
  | ret a => trivial
  | raise e => trivial
  | read k ih => exact fun u _ _ => ⟨ih _ (h _) hws, fun e => ih _ (h _) hws⟩
  | lock sel k ih => exact fun u _ _ => ⟨ih _ (h _) hws, fun e => ih _ (h _) hws⟩
  | exec w k ih =>
      refine fun u _ _ => ⟨fun n => ih _ (h.2 _) ?_, fun e => ih _ (h.2 _) hws⟩
      simpa [or_imp, forall_and] using ⟨hws, h.1⟩
  | commit ws' k ih =>
      have hnil : ∀ w ∈ ([] : List W), p w := fun _ hw => by cases hw
      refine fun u _ _ => ⟨hΦ u _ ?_, fun v _ => ih _ (h.2 _) hnil, fun e => ih _ (h.2 _) hnil⟩
      simpa [or_imp, forall_and] using ⟨hws, h.1⟩
  | rollback k ih =>
      have hk : Emits p k := h
      exact ih hk fun _ hw => by cases hw
  | draw k ih => exact fun d => ih d (h d) hws

end Emits

variable (D : Dialect σ W κ ε) (I : σ → Prop)

/-- Every answer that the handler can give, with `ws` open, satisfies `Q`, as long as the stores that it
reads and commits to satisfy `I`. -/
def Answers (Q : α → Prop) : Tx σ W κ δ ε α → List W → Prop
  | .ret a, _ => Q a
  | .raise _, _ => True
  | .read k, ws => (∀ s, I s → Answers Q (k (D.applyAll ws s)) ws) ∧ ∀ e, Answers Q (k (.error e)) ws
  | .lock _ k, ws => (∀ s, I s → Answers Q (k (D.applyAll ws s)) ws) ∧ ∀ e, Answers Q (k (.error e)) ws
  | .exec w k, ws => (∀ n, Answers Q (k (.ok n)) (ws ++ [w])) ∧ ∀ e, Answers Q (k (.error e)) ws
  | .commit _ k, _ => (∀ s, I s → Answers Q (k (.ok s)) []) ∧ ∀ e, Answers Q (k (.error e)) []
  | .rollback k, _ => Answers Q k []
  | .draw k, ws => ∀ d, Answers Q (k d) ws

variable {D I} {Q : α → Prop}

theorem answers_select {f : σ → Tx σ W κ δ ε α} {ws : List W}
    (h : ∀ s, I s → ∀ u, D.applyAll ws s = .ok u → Answers D I Q (f u) ws) :
    Answers D I Q (select >>= f) ws := by
  rw [select_bind]
  refine ⟨fun s hs => ?_, fun e => trivial⟩
  cases hu : D.applyAll ws s with
  | error e => exact trivial
  | ok u => exact h s hs u hu

theorem Answers.mono {Q' : α → Prop} {t : Tx σ W κ δ ε α} {ws : List W} (h : Answers D I Q t ws)
    (hQ : ∀ a, Q a → Q' a) : Answers D I Q' t ws := by
  induction t generalizing ws with
  | ret a => exact hQ a h
  | raise e => trivial
  | read k ih => exact ⟨fun s hs => ih _ (h.1 s hs), fun e => ih _ (h.2 e)⟩
  | lock sel k ih => exact ⟨fun s hs => ih _ (h.1 s hs), fun e => ih _ (h.2 e)⟩
  | exec w k ih => exact ⟨fun n => ih _ (h.1 n), fun e => ih _ (h.2 e)⟩
  | commit ws' k ih => exact ⟨fun s hs => ih _ (h.1 s hs), fun e => ih _ (h.2 e)⟩
  | rollback k ih => exact ih h
  | draw k ih => exact fun d => ih d (h d)

theorem answers_any (h : ∀ a, Q a) {t : Tx σ W κ δ ε α} {ws : List W} : Answers D I Q t ws := by
  induction t generalizing ws with
  | ret a => exact h a
  | raise e => trivial
  | read k ih => exact ⟨fun s _ => ih _, fun e => ih _⟩
  | lock sel k ih => exact ⟨fun s _ => ih _, fun e => ih _⟩
  | exec w k ih => exact ⟨fun n => ih _, fun e => ih _⟩
  | commit ws' k ih => exact ⟨fun s _ => ih _, fun e => ih _⟩
  | rollback k ih => exact ih
  | draw k ih => exact fun d => ih d

theorem answers_bind {Q : β → Prop} {t : Tx σ W κ δ ε α} {f : α → Tx σ W κ δ ε β} {ws : List W}
    (h : Answers D I (fun a => ∀ ws', Answers D I Q (f a) ws') t ws) : Answers D I Q (t >>= f) ws := by
  show Answers D I Q (t.bind f) ws
  induction t generalizing ws with
  | ret a => exact h ws
  | raise e => trivial
  | read k ih => exact ⟨fun s hs => ih _ (h.1 s hs), fun e => ih _ (h.2 e)⟩
  | lock sel k ih => exact ⟨fun s hs => ih _ (h.1 s hs), fun e => ih _ (h.2 e)⟩
  | exec w k ih => exact ⟨fun n => ih _ (h.1 n), fun e => ih _ (h.2 e)⟩
  | commit ws' k ih => exact ⟨fun s hs => ih _ (h.1 s hs), fun e => ih _ (h.2 e)⟩
  | rollback k ih => exact ih h
  | draw k ih => exact fun d => ih d (h d)

/-- A handler whose continuation can only give such answers. -/
theorem answers_bind_any {Q : β → Prop} {t : Tx σ W κ δ ε α} {f : α → Tx σ W κ δ ε β} {ws : List W}
    (h : ∀ a ws', Answers D I Q (f a) ws') : Answers D I Q (t >>= f) ws :=
  answers_bind (answers_any h)

end Tx

namespace Pool

variable {ι σ W κ δ ε α : Type} [DecidableEq ι] [DecidableEq κ] {D : Dialect σ W κ ε}
  {I : σ → Prop} {Q : α → Prop} {p : Pool ι σ W κ δ ε α} {a : ι × Choice δ ε} {i : ι}

/-- One step of any session leaves what session `i` can answer. -/
theorem answers_step (hI : I p.store) (hI' : I (p.step D a).store)
    (h : Tx.Answers D I Q (p.procs i).prog (p.procs i).pending) :
    Tx.Answers D I Q ((p.step D a).procs i).prog ((p.step D a).procs i).pending := by
  have hresume : ∀ {s prog ws locks log}, Tx.Answers D I Q prog ws ∨ a.1 ≠ i →
      Tx.Answers D I Q ((⟨s, p.resume a.1 prog ws, locks, log⟩ : Pool ι σ W κ δ ε α).procs i).prog
        ((⟨s, p.resume a.1 prog ws, locks, log⟩ : Pool ι σ W κ δ ε α).procs i).pending := by
    intro s prog ws locks log hprog
    by_cases hi : i = a.1
    · subst hi
      simpa [Pool.resume] using hprog
    · simpa [Pool.resume, hi] using h
  unfold Pool.step at hI' ⊢
  by_cases hi : a.1 = i
  · subst hi
    cases hprog : (p.procs a.1).prog with
    | ret x => exact h
    | raise e => exact h
    | read k =>
        rw [hprog] at h
        refine hresume (Or.inl ?_)
        unfold Choice.answer
        split
        · exact h.2 _
        · exact h.1 _ hI
    | lock sel k =>
        have hlock := h
        rw [hprog] at hlock
        simp only [perform]
        split
        · rename_i s hs
          split
          · refine hresume (Or.inl ?_)
            rw [← (Choice.answer_ok.mp hs).2]
            exact hlock.1 _ hI
          · exact h
        · exact hresume (Or.inl (hlock.2 _))
    | exec w k =>
        have hexec := h
        rw [hprog] at hexec
        simp only [perform]
        split
        · split
          · rename_i s hs
            obtain ⟨u, hu, -⟩ := D.applyAll_append_ok.mp (Choice.answer_ok.mp hs).2
            rw [hu]
            exact hresume (Or.inl (hexec.1 _))
          · exact hresume (Or.inl (hexec.2 _))
        · exact h
    | commit ws k =>
        have hcommit := h
        rw [hprog] at hI' hcommit
        simp only [perform] at hI' ⊢
        split
        · rename_i hfree
          rw [if_pos hfree] at hI'
          split
          · rename_i s hs
            rw [hs] at hI'
            exact hresume (Or.inl (hcommit.1 s hI'))
          · exact hresume (Or.inl (hcommit.2 _))
        · exact h
    | rollback k =>
        rw [hprog] at h
        exact hresume (Or.inl h)
    | draw k =>
        rw [hprog] at h
        exact hresume (Or.inl (h _))
  · cases hprog : (p.procs a.1).prog with
    | ret x => exact h
    | raise e => exact h
    | read k => exact hresume (Or.inr hi)
    | lock sel k =>
        simp only [perform]
        split
        · split
          · exact hresume (Or.inr hi)
          · exact h
        · exact hresume (Or.inr hi)
    | exec w k =>
        simp only [perform]
        split
        · split <;> exact hresume (Or.inr hi)
        · exact h
    | commit ws k =>
        simp only [perform]
        split
        · split <;> exact hresume (Or.inr hi)
        · exact h
    | rollback k => exact hresume (Or.inr hi)
    | draw k => exact hresume (Or.inr hi)

end Pool
