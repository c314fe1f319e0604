import FleetManagement.Library.Tx

/-!
# Preconditions of handlers that run alone

`Wp G Q t s ws` says that the handler `t`, started on the committed store `s` with the open transaction
`ws`, ends in `Q` whichever of its steps fail, as long as all it draws satisfies `G`.
-/

namespace Tx

variable {σ W κ δ ε α β : Type} (D : Dialect σ W κ ε) (G : δ → Prop)

def Wp (Q : Except ε α → σ → List W → Prop) : Tx σ W κ δ ε α → σ → List W → Prop
  | .ret a, s, ws => Q (.ok a) s ws
  | .raise e, s, ws => Q (.error e) s ws
  | .read k, s, ws => Wp Q (k (D.applyAll ws s)) s ws ∧ ∀ e, Wp Q (k (.error e)) s ws
  | .lock _ k, s, ws => Wp Q (k (D.applyAll ws s)) s ws ∧ ∀ e, Wp Q (k (.error e)) s ws
  | .exec w k, s, ws =>
      (∀ u, D.applyAll (ws ++ [w]) s = .ok u →
        Wp Q (k ((D.applyAll ws s).map (D.rowcount w))) s (ws ++ [w])) ∧
      ∀ e, Wp Q (k (.error e)) s ws
  | .commit ws' k, s, ws =>
      (∀ u, D.applyAll (ws ++ ws') s = .ok u → Wp Q (k (.ok u)) u []) ∧
      ∀ e, Wp Q (k (.error e)) s []
  | .rollback k, s, _ => Wp Q k s []
  | .draw k, s, ws => ∀ d, G d → Wp Q (k d) s ws

variable {D G} {Q Q' : Except ε α → σ → List W → Prop} {s : σ} {ws : List W}

/-- The serial execution of a handler ends in its postcondition. -/
theorem wp_sound {env : Nat → Choice δ ε} (hG : ∀ n, G (env n).draw) {t : Tx σ W κ δ ε α} (n : Nat)
    (h : Wp D G Q t s ws) : Q (t.eval D env ⟨s, ws, n⟩).1 (t.eval D env ⟨s, ws, n⟩).2.store
      (t.eval D env ⟨s, ws, n⟩).2.pending := by
  induction t generalizing s ws n with
  | ret a => exact h
  | raise e => exact h
  | read k ih =>
      cases hf : (env n).fault with
      | none => simpa only [eval, Choice.answer, hf] using ih _ (n + 1) h.1
      | some e => simpa only [eval, Choice.answer, hf] using ih _ (n + 1) (h.2 e)
  | lock sel k ih =>
      cases hf : (env n).fault with
      | none => simpa only [eval, Choice.answer, hf] using ih _ (n + 1) h.1
      | some e => simpa only [eval, Choice.answer, hf] using ih _ (n + 1) (h.2 e)
  | exec w k ih =>
      simp only [eval]
      split
      · rename_i u hu
        exact ih _ (n + 1) (h.1 u (Choice.answer_ok.mp hu).2)
      · rename_i e _
        exact ih _ (n + 1) (h.2 e)
  | commit ws' k ih =>
      simp only [eval]
      split
      · rename_i u hu
        exact ih _ (n + 1) (h.1 u (Choice.answer_ok.mp hu).2)
      · rename_i e _
        exact ih _ (n + 1) (h.2 e)
  | rollback k ih =>
      have hk : Wp D G Q k s [] := h
      exact ih (n + 1) hk
  | draw k ih => exact ih (env n).draw (n + 1) (h _ (hG n))

theorem Wp.mono {t : Tx σ W κ δ ε α} (h : Wp D G Q t s ws) (hQ : ∀ r s' ws', Q r s' ws' → Q' r s' ws') :
    Wp D G Q' t s ws := by
  induction t generalizing s ws with
  | ret a => exact hQ _ _ _ h
  | raise e => exact hQ _ _ _ h
  | read k ih => exact ⟨ih _ h.1, fun e => ih _ (h.2 e)⟩
  | lock sel k ih => exact ⟨ih _ h.1, fun e => ih _ (h.2 e)⟩
  | exec w k ih => exact ⟨fun u hu => ih _ (h.1 u hu), fun e => ih _ (h.2 e)⟩
  | commit ws' k ih => exact ⟨fun u hu => ih _ (h.1 u hu), fun e => ih _ (h.2 e)⟩
  | rollback k ih => exact ih h
  | draw k ih => exact fun d hd => ih d (h d hd)

/-- Sequential composition: the second handler starts where the first one returned. -/
theorem wp_bind {Q : Except ε β → σ → List W → Prop} {t : Tx σ W κ δ ε α} {f : α → Tx σ W κ δ ε β}
    (h : Wp D G (fun r s' ws' => match r with
      | .ok a => Wp D G Q (f a) s' ws'
      | .error e => Q (.error e) s' ws') t s ws) : Wp D G Q (t >>= f) s ws := by
  show Wp D G Q (t.bind f) s ws
  induction t generalizing s ws with
  | ret a => exact h
  | raise e => exact h
  | read k ih => exact ⟨ih _ h.1, fun e => ih _ (h.2 e)⟩
  | lock sel k ih => exact ⟨ih _ h.1, fun e => ih _ (h.2 e)⟩
  | exec w k ih => exact ⟨fun u hu => ih _ (h.1 u hu), fun e => ih _ (h.2 e)⟩
  | commit ws' k ih => exact ⟨fun u hu => ih _ (h.1 u hu), fun e => ih _ (h.2 e)⟩
  | rollback k ih => exact ih h
  | draw k ih => exact fun d hd => ih d (h d hd)

theorem wp_tryCatch {t : Tx σ W κ δ ε α} {f : ε → Tx σ W κ δ ε α}
    (h : Wp D G (fun r s' ws' => match r with
      | .ok a => Q (.ok a) s' ws'
      | .error e => Wp D G Q (f e) s' ws') t s ws) :
    Wp D G Q (MonadExcept.tryCatch t f) s ws := by
  show Wp D G Q (t.tryCatch f) s ws
  induction t generalizing s ws with
  | ret a => exact h
  | raise e => exact h
  | read k ih => exact ⟨ih _ h.1, fun e => ih _ (h.2 e)⟩
  | lock sel k ih => exact ⟨ih _ h.1, fun e => ih _ (h.2 e)⟩
  | exec w k ih => exact ⟨fun u hu => ih _ (h.1 u hu), fun e => ih _ (h.2 e)⟩
  | commit ws' k ih => exact ⟨fun u hu => ih _ (h.1 u hu), fun e => ih _ (h.2 e)⟩
  | rollback k ih => exact ih h
  | draw k ih => exact fun d hd => ih d (h d hd)

/-! ## Preconditions, operation by operation -/

theorem wp_select {Q : Except ε σ → σ → List W → Prop} {u : σ} (hs : D.applyAll ws s = .ok u)
    (hok : Q (.ok u) s ws) (herr : ∀ e, Q (.error e) s ws) :
    Wp D G Q (select : Tx σ W κ δ ε σ) s ws := by
  refine ⟨?_, fun e => herr e⟩
  rw [hs]; exact hok

theorem wp_selectForUpdate {Q : Except ε σ → σ → List W → Prop} {sel : σ → List κ} {u : σ}
    (hs : D.applyAll ws s = .ok u) (hok : Q (.ok u) s ws) (herr : ∀ e, Q (.error e) s ws) :
    Wp D G Q (selectForUpdate sel : Tx σ W κ δ ε σ) s ws := by
  refine ⟨?_, fun e => herr e⟩
  rw [hs]; exact hok

theorem wp_execute {Q : Except ε Nat → σ → List W → Prop} {w : W} {u : σ}
    (hs : D.applyAll ws s = .ok u)
    (hok : ∀ v, D.apply w u = .ok v → D.applyAll (ws ++ [w]) s = .ok v →
      Q (.ok (D.rowcount w u)) s (ws ++ [w]))
    (herr : ∀ e, Q (.error e) s ws) : Wp D G Q (execute w : Tx σ W κ δ ε Nat) s ws := by
  refine ⟨fun v hv => ?_, fun e => herr e⟩
  obtain ⟨u', hu', hw⟩ := D.applyAll_append_ok.mp hv
  obtain rfl : u = u' := Except.ok.inj (hs.symm.trans hu')
  rw [hs]
  exact hok v (D.applyAll_singleton_ok.mp hw) hv

theorem wp_commitAll {Q : Except ε σ → σ → List W → Prop} {ws' : List W}
    (hok : ∀ u, D.applyAll (ws ++ ws') s = .ok u → Q (.ok u) u [])
    (herr : ∀ e, Q (.error e) s []) : Wp D G Q (commitAll ws' : Tx σ W κ δ ε σ) s ws :=
  ⟨fun u hu => hok u hu, fun e => herr e⟩

theorem wp_rollbackAll {Q : Except ε Unit → σ → List W → Prop} (h : Q (.ok ()) s []) :
    Wp D G Q (rollbackAll : Tx σ W κ δ ε Unit) s ws := h

theorem wp_sample {Q : Except ε δ → σ → List W → Prop} (h : ∀ d, G d → Q (.ok d) s ws) :
    Wp D G Q (sample : Tx σ W κ δ ε δ) s ws := h

end Tx
