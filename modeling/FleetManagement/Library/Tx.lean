import Mathlib.Logic.Basic

/-!
# Request handlers over a transactional store

A handler is the tree of its interactions with the store: what it does next depends on the answers so
far. Statements are data; what a statement does is the `Dialect` of the store. Statements that a
session has executed but not committed are visible to that session only.
-/

/-- The statements of a store with states `σ`, and the row locks that they need. -/
structure Dialect (σ W κ ε : Type) where
  apply : W → σ → Except ε σ
  rowcount : W → σ → Nat
  touches : W → List κ

/-- What the environment decides at one step: the value drawn from clock and random source, and the
exception that the step raises, if it fails. -/
structure Choice (δ ε : Type) where
  draw : δ
  fault : Option ε

/-- A handler that returns an `α` or raises an `ε`. -/
inductive Tx (σ W κ δ ε α : Type) where
  | ret (a : α)
  | raise (e : ε)
  /-- A `SELECT`, answered with the view of the session. -/
  | read (k : Except ε σ → Tx σ W κ δ ε α)
  /-- A `SELECT ... FOR UPDATE` of the rows `sel`. -/
  | lock (sel : σ → List κ) (k : Except ε σ → Tx σ W κ δ ε α)
  /-- A statement inside the transaction, answered with its row count. -/
  | exec (w : W) (k : Except ε Nat → Tx σ W κ δ ε α)
  /-- A flush of `ws` and a `COMMIT`, answered with the committed store. -/
  | commit (ws : List W) (k : Except ε σ → Tx σ W κ δ ε α)
  | rollback (k : Tx σ W κ δ ε α)
  | draw (k : δ → Tx σ W κ δ ε α)

namespace Dialect

variable {σ W κ ε : Type} (D : Dialect σ W κ ε)

def applyAll : List W → σ → Except ε σ
  | [], s => .ok s
  | w :: ws, s => (D.apply w s).bind (applyAll ws)

@[simp] theorem applyAll_nil (s : σ) : D.applyAll [] s = .ok s := rfl

@[simp] theorem applyAll_cons (w : W) (ws : List W) (s : σ) :
    D.applyAll (w :: ws) s = (D.apply w s).bind (D.applyAll ws) := rfl

theorem applyAll_append (ws ws' : List W) (s : σ) :
    D.applyAll (ws ++ ws') s = (D.applyAll ws s).bind (D.applyAll ws') := by
  induction ws generalizing s with
  | nil => rfl
  | cons w ws ih =>
      simp only [List.cons_append, applyAll_cons]
      cases D.apply w s with
      | error e => rfl
      | ok t => exact ih t

theorem applyAll_cons_ok {w : W} {ws : List W} {s t : σ} :
    D.applyAll (w :: ws) s = .ok t ↔ ∃ u, D.apply w s = .ok u ∧ D.applyAll ws u = .ok t := by
  cases h : D.apply w s <;> simp [h, Except.bind]

theorem applyAll_singleton_ok {w : W} {s t : σ} : D.applyAll [w] s = .ok t ↔ D.apply w s = .ok t := by
  cases h : D.apply w s <;> simp [h, Except.bind]

theorem applyAll_pair_ok {w w' : W} {s t : σ} :
    D.applyAll [w, w'] s = .ok t ↔ ∃ u, D.apply w s = .ok u ∧ D.apply w' u = .ok t := by
  rw [applyAll_cons_ok]
  simp only [applyAll_singleton_ok]

theorem applyAll_append_ok {ws ws' : List W} {s t : σ} :
    D.applyAll (ws ++ ws') s = .ok t ↔ ∃ u, D.applyAll ws s = .ok u ∧ D.applyAll ws' u = .ok t := by
  rw [applyAll_append]
  cases h : D.applyAll ws s <;> simp [Except.bind]

end Dialect

namespace Choice

variable {δ ε β : Type}

/-- The answer to a step: the exception of a failing step, else the store's answer. -/
def answer (c : Choice δ ε) (x : Except ε β) : Except ε β :=
  match c.fault with
  | some e => .error e
  | none => x

def calm (d : δ) : Choice δ ε := ⟨d, none⟩

@[simp] theorem answer_calm (d : δ) (x : Except ε β) : (calm d : Choice δ ε).answer x = x := rfl

@[simp] theorem draw_calm (d : δ) : (calm d : Choice δ ε).draw = d := rfl

theorem answer_ok {c : Choice δ ε} {x : Except ε β} {b : β} :
    c.answer x = .ok b ↔ c.fault = none ∧ x = .ok b := by
  unfold answer; cases c.fault <;> simp

end Choice

namespace Tx

variable {σ W κ δ ε α β : Type}

def bind : Tx σ W κ δ ε α → (α → Tx σ W κ δ ε β) → Tx σ W κ δ ε β
  | .ret a, f => f a
  | .raise e, _ => .raise e
  | .read k, f => .read fun x => (k x).bind f
  | .lock sel k, f => .lock sel fun x => (k x).bind f
  | .exec w k, f => .exec w fun x => (k x).bind f
  | .commit ws k, f => .commit ws fun x => (k x).bind f
  | .rollback k, f => .rollback (k.bind f)
  | .draw k, f => .draw fun d => (k d).bind f

/-- Runs the handler `h` on the exception of `t`, where `t` raises one. -/
def tryCatch : Tx σ W κ δ ε α → (ε → Tx σ W κ δ ε α) → Tx σ W κ δ ε α
  | .ret a, _ => .ret a
  | .raise e, h => h e
  | .read k, h => .read fun x => (k x).tryCatch h
  | .lock sel k, h => .lock sel fun x => (k x).tryCatch h
  | .exec w k, h => .exec w fun x => (k x).tryCatch h
  | .commit ws k, h => .commit ws fun x => (k x).tryCatch h
  | .rollback k, h => .rollback (k.tryCatch h)
  | .draw k, h => .draw fun d => (k d).tryCatch h

instance : Monad (Tx σ W κ δ ε) where
  pure := .ret
  bind := .bind

instance : MonadExcept ε (Tx σ W κ δ ε) where
  throw := .raise
  tryCatch := .tryCatch

def ofExcept : Except ε α → Tx σ W κ δ ε α
  | .ok a => .ret a
  | .error e => .raise e

def select : Tx σ W κ δ ε σ := .read ofExcept

def selectForUpdate (sel : σ → List κ) : Tx σ W κ δ ε σ := .lock sel ofExcept

def execute (w : W) : Tx σ W κ δ ε Nat := .exec w ofExcept

def commitAll (ws : List W) : Tx σ W κ δ ε σ := .commit ws ofExcept

def rollbackAll : Tx σ W κ δ ε Unit := .rollback (.ret ())

def sample : Tx σ W κ δ ε δ := .draw .ret

/-! ## The handler monad, operation by operation -/

@[simp] theorem pure_eq (a : α) : (pure a : Tx σ W κ δ ε α) = .ret a := rfl

@[simp] theorem throw_eq (e : ε) : (throw e : Tx σ W κ δ ε α) = .raise e := rfl

@[simp] theorem ret_bind (a : α) (f : α → Tx σ W κ δ ε β) : ret a >>= f = f a := rfl

@[simp] theorem raise_bind (e : ε) (f : α → Tx σ W κ δ ε β) : raise e >>= f = raise e := rfl

@[simp] theorem select_bind (f : σ → Tx σ W κ δ ε β) :
    select >>= f = read fun x => ofExcept x >>= f := rfl

@[simp] theorem selectForUpdate_bind (sel : σ → List κ) (f : σ → Tx σ W κ δ ε β) :
    selectForUpdate sel >>= f = lock sel fun x => ofExcept x >>= f := rfl

@[simp] theorem execute_bind (w : W) (f : Nat → Tx σ W κ δ ε β) :
    execute w >>= f = exec w fun x => ofExcept x >>= f := rfl

@[simp] theorem commitAll_bind (ws : List W) (f : σ → Tx σ W κ δ ε β) :
    commitAll ws >>= f = commit ws fun x => ofExcept x >>= f := rfl

@[simp] theorem rollbackAll_bind (f : Unit → Tx σ W κ δ ε β) :
    rollbackAll >>= f = rollback (f ()) := rfl

@[simp] theorem sample_bind (f : δ → Tx σ W κ δ ε β) : sample >>= f = draw f := rfl

@[simp] theorem ofExcept_ok (a : α) : (ofExcept (.ok a) : Tx σ W κ δ ε α) = .ret a := rfl

@[simp] theorem ofExcept_error (e : ε) : (ofExcept (.error e) : Tx σ W κ δ ε α) = .raise e := rfl

theorem bind_assoc {γ : Type} (t : Tx σ W κ δ ε α) (f : α → Tx σ W κ δ ε β)
    (g : β → Tx σ W κ δ ε γ) : t >>= f >>= g = t >>= fun a => f a >>= g := by
  show (t.bind f).bind g = t.bind fun a => (f a).bind g
  induction t with
  | ret a => rfl
  | raise e => rfl
  | read k ih => simp only [bind, ih]
  | lock sel k ih => simp only [bind, ih]
  | exec w k ih => simp only [bind, ih]
  | commit ws k ih => simp only [bind, ih]
  | rollback k ih => simp only [bind, ih]
  | draw k ih => simp only [bind, ih]

end Tx

/-! ## Serial execution -/

/-- A session of one handler: the committed store, its uncommitted statements, and the number of
choices that it has taken from the environment. -/
structure Session (σ W : Type) where
  store : σ
  pending : List W
  tick : Nat

namespace Tx

variable {σ W κ δ ε α β : Type} (D : Dialect σ W κ ε) (env : Nat → Choice δ ε)

/-- Executes a handler with no other session at work. -/
def eval : Tx σ W κ δ ε α → Session σ W → Except ε α × Session σ W
  | .ret a, c => (.ok a, c)
  | .raise e, c => (.error e, c)
  | .read k, c =>
      eval (k ((env c.tick).answer (D.applyAll c.pending c.store))) { c with tick := c.tick + 1 }
  | .lock _ k, c =>
      eval (k ((env c.tick).answer (D.applyAll c.pending c.store))) { c with tick := c.tick + 1 }
  | .exec w k, c =>
      match (env c.tick).answer (D.applyAll (c.pending ++ [w]) c.store) with
      | .ok _ =>
          let rows := (D.applyAll c.pending c.store).map (D.rowcount w)
          eval (k rows) { c with pending := c.pending ++ [w], tick := c.tick + 1 }
      | .error e => eval (k (.error e)) { c with tick := c.tick + 1 }
  | .commit ws k, c =>
      match (env c.tick).answer (D.applyAll (c.pending ++ ws) c.store) with
      | .ok s => eval (k (.ok s)) ⟨s, [], c.tick + 1⟩
      | .error e => eval (k (.error e)) { c with pending := [], tick := c.tick + 1 }
  | .rollback k, c => eval k { c with pending := [], tick := c.tick + 1 }
  | .draw k, c => eval (k (env c.tick).draw) { c with tick := c.tick + 1 }

variable {D env}

@[simp] theorem eval_ret (a : α) (c : Session σ W) :
    eval D env (ret a : Tx σ W κ δ ε α) c = (.ok a, c) := rfl

@[simp] theorem eval_raise (e : ε) (c : Session σ W) :
    eval D env (raise e : Tx σ W κ δ ε α) c = (.error e, c) := rfl

/-- Sequential composition, where the first handler returns. -/
theorem eval_bind_ok {t : Tx σ W κ δ ε α} {f : α → Tx σ W κ δ ε β} {a : α} {c d : Session σ W}
    (h : t.eval D env c = (.ok a, d)) : (t >>= f).eval D env c = (f a).eval D env d := by
  show (t.bind f).eval D env c = _
  induction t generalizing c with
  | ret b => cases h; rfl
  | raise e => cases h
  | read k ih => exact ih _ h
  | lock sel k ih => exact ih _ h
  | exec w k ih =>
      simp only [bind, eval] at h ⊢
      split at h
      · exact ih _ h
      · exact ih _ h
  | commit ws k ih =>
      simp only [bind, eval] at h ⊢
      split at h
      · exact ih _ h
      · exact ih _ h
  | rollback k ih => exact ih h
  | draw k ih => exact ih _ h

/-- Sequential composition, where the first handler raises. -/
theorem eval_bind_error {t : Tx σ W κ δ ε α} {f : α → Tx σ W κ δ ε β} {e : ε} {c d : Session σ W}
    (h : t.eval D env c = (.error e, d)) : (t >>= f).eval D env c = (.error e, d) := by
  show (t.bind f).eval D env c = _
  induction t generalizing c with
  | ret b => cases h
  | raise e => cases h; rfl
  | read k ih => exact ih _ h
  | lock sel k ih => exact ih _ h
  | exec w k ih =>
      simp only [bind, eval] at h ⊢
      split at h
      · exact ih _ h
      · exact ih _ h
  | commit ws k ih =>
      simp only [bind, eval] at h ⊢
      split at h
      · exact ih _ h
      · exact ih _ h
  | rollback k ih => exact ih h
  | draw k ih => exact ih _ h

theorem eval_tryCatch_ok {t : Tx σ W κ δ ε α} {f : ε → Tx σ W κ δ ε α} {a : α} {c d : Session σ W}
    (h : t.eval D env c = (.ok a, d)) : (MonadExcept.tryCatch t f).eval D env c = (.ok a, d) := by
  show (t.tryCatch f).eval D env c = _
  induction t generalizing c with
  | ret b => exact h
  | raise e => cases h
  | read k ih => exact ih _ h
  | lock sel k ih => exact ih _ h
  | exec w k ih =>
      simp only [Tx.tryCatch, eval] at h ⊢
      split at h
      · exact ih _ h
      · exact ih _ h
  | commit ws k ih =>
      simp only [Tx.tryCatch, eval] at h ⊢
      split at h
      · exact ih _ h
      · exact ih _ h
  | rollback k ih => exact ih h
  | draw k ih => exact ih _ h

/-! ## Steps that do not fail -/

def calmly (draws : Nat → δ) : Nat → Choice δ ε := fun n => Choice.calm (draws n)

section Calm
variable {draws : Nat → δ} {s s' : σ} {ws : List W} {n : Nat}

theorem eval_select {f : σ → Tx σ W κ δ ε α} (h : D.applyAll ws s = .ok s') :
    (select >>= f).eval D (calmly draws) ⟨s, ws, n⟩ = (f s').eval D (calmly draws) ⟨s, ws, n + 1⟩ := by
  simp only [select_bind, eval, calmly, Choice.answer_calm, h, ofExcept_ok, ret_bind]

theorem eval_commitAll {ws' : List W} {f : σ → Tx σ W κ δ ε α}
    (h : D.applyAll (ws ++ ws') s = .ok s') :
    (commitAll ws' >>= f).eval D (calmly draws) ⟨s, ws, n⟩ =
      (f s').eval D (calmly draws) ⟨s', [], n + 1⟩ := by
  simp only [commitAll_bind, eval, calmly, Choice.answer_calm, h, ofExcept_ok, ret_bind]

theorem eval_commitAll_error {ws' : List W} {f : σ → Tx σ W κ δ ε α} {e : ε}
    (h : D.applyAll (ws ++ ws') s = .error e) :
    (commitAll ws' >>= f).eval D (calmly draws) ⟨s, ws, n⟩ = (.error e, ⟨s, [], n + 1⟩) := by
  simp only [commitAll_bind, eval, calmly, Choice.answer_calm, h, ofExcept_error, raise_bind]

end Calm

end Tx
