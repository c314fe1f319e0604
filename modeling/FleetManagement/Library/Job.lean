import Mathlib.Logic.Function.Basic

/-!
# Jobs that call devices

A job is the tree of its calls to the outside world: what it does next depends on the answers so far.
A device answers each call and may change its state; the environment decides call by call how the device
behaves, so that a call can fail before or after it took effect.
-/

/-- A job that returns an `α` or raises an `ε`. The call `w` is answered with an `R w`. -/
inductive Job (W : Type) (R : W → Type) (ε α : Type) where
  | ret (a : α)
  | raise (e : ε)
  | call (w : W) (k : Except ε (R w) → Job W R ε α)

/-- A device with states `σ`. At each call the environment chooses a `χ`. -/
abbrev Device (σ χ W : Type) (R : W → Type) (ε : Type) := (w : W) → χ → σ → Except ε (R w) × σ

namespace Job

variable {σ χ W ε α β : Type} {R : W → Type}

def bind : Job W R ε α → (α → Job W R ε β) → Job W R ε β
  | .ret a, f => f a
  | .raise e, _ => .raise e
  | .call w k, f => .call w fun x => (k x).bind f

/-- Runs `t` to its end, and returns what it returned or raised. -/
def attempt : Job W R ε α → Job W R ε (Except ε α)
  | .ret a => .ret (.ok a)
  | .raise e => .ret (.error e)
  | .call w k => .call w fun x => (k x).attempt

instance : Monad (Job W R ε) where
  pure := .ret
  bind := .bind

def ofExcept : Except ε α → Job W R ε α
  | .ok a => .ret a
  | .error e => .raise e

def perform (w : W) : Job W R ε (R w) := .call w ofExcept

/-! ## The job monad, operation by operation -/

@[simp] theorem pure_eq (a : α) : (pure a : Job W R ε α) = .ret a := rfl

@[simp] theorem ret_bind (a : α) (f : α → Job W R ε β) : ret a >>= f = f a := rfl

@[simp] theorem raise_bind (e : ε) (f : α → Job W R ε β) : raise e >>= f = raise e := rfl

@[simp] theorem call_bind (w : W) (k : Except ε (R w) → Job W R ε α) (f : α → Job W R ε β) :
    call w k >>= f = call w fun x => k x >>= f := rfl

@[simp] theorem ofExcept_ok (a : α) : (ofExcept (.ok a) : Job W R ε α) = .ret a := rfl

@[simp] theorem ofExcept_error (e : ε) : (ofExcept (.error e) : Job W R ε α) = .raise e := rfl

/-! ## Execution -/

/-- How a job ended: its result, the state of the device and the number of calls made. -/
structure End (σ ε α : Type) where
  result : Except ε α
  state : σ
  tick : Nat

/-- Executes a job alone, where `env` decides how its `n`-th call, its next one, behaves. -/
def eval (D : Device σ χ W R ε) (env : Nat → χ) : Job W R ε α → σ → Nat → End σ ε α
  | .ret a, s, n => ⟨.ok a, s, n⟩
  | .raise e, s, n => ⟨.error e, s, n⟩
  | .call w k, s, n => eval D env (k (D w (env n) s).1) (D w (env n) s).2 (n + 1)

/-- The job `t`, started on `s` with call number `n`, ends in `Q`. -/
def Ensures (D : Device σ χ W R ε) (env : Nat → χ) (Q : Except ε α → σ → Nat → Prop)
    (t : Job W R ε α) (s : σ) (n : Nat) : Prop :=
  Q (t.eval D env s n).result (t.eval D env s n).state (t.eval D env s n).tick

section Rules
variable {D : Device σ χ W R ε} {env : Nat → χ} {s : σ} {n : Nat}

@[simp] theorem ensures_ret {Q : Except ε α → σ → Nat → Prop} {a : α} :
    Ensures D env Q (ret a) s n ↔ Q (.ok a) s n := Iff.rfl

@[simp] theorem ensures_raise {Q : Except ε α → σ → Nat → Prop} {e : ε} :
    Ensures D env Q (raise e) s n ↔ Q (.error e) s n := Iff.rfl

theorem ensures_ofExcept {Q : Except ε α → σ → Nat → Prop} {x : Except ε α} :
    Ensures D env Q (ofExcept x) s n ↔ Q x s n := by
  cases x <;> exact Iff.rfl

theorem ensures_perform {w : W} {Q : Except ε (R w) → σ → Nat → Prop} :
    Ensures D env Q (perform w) s n ↔ Q (D w (env n) s).1 (D w (env n) s).2 (n + 1) :=
  ensures_ofExcept

theorem Ensures.mono {Q Q' : Except ε α → σ → Nat → Prop} {t : Job W R ε α}
    (h : Ensures D env Q t s n) (hQ : ∀ r s' n', Q r s' n' → Q' r s' n') : Ensures D env Q' t s n :=
  hQ _ _ _ h

/-- Sequential composition: the second job starts where the first one returned. -/
theorem ensures_bind {Q : Except ε β → σ → Nat → Prop} {t : Job W R ε α} {f : α → Job W R ε β} :
    Ensures D env Q (t >>= f) s n ↔ Ensures D env (fun r s' n' => match r with
      | .ok a => Ensures D env Q (f a) s' n'
      | .error e => Q (.error e) s' n') t s n := by
  show Ensures D env Q (t.bind f) s n ↔ _
  induction t generalizing s n with
  | ret a => exact Iff.rfl
  | raise e => exact Iff.rfl
  | call w k ih => exact ih _

theorem ensures_attempt {Q : Except ε (Except ε α) → σ → Nat → Prop} {t : Job W R ε α} :
    Ensures D env Q t.attempt s n ↔ Ensures D env (fun r s' n' => Q (.ok r) s' n') t s n := by
  induction t generalizing s n with
  | ret a => exact Iff.rfl
  | raise e => exact Iff.rfl
  | call w k ih => exact ih _

end Rules

end Job

/-! ## Jobs that share a device -/

/-- Jobs at work on one device, and the calls they have made, the last one first. -/
structure JobPool (ι σ χ W : Type) (R : W → Type) (ε α : Type) where
  state : σ
  jobs : ι → Option (Job W R ε α)
  log : List (ι × W × χ)

namespace JobPool

variable {ι σ χ W ε α : Type} {R : W → Type} [DecidableEq ι]

def init (s : σ) : JobPool ι σ χ W R ε α := ⟨s, fun _ => none, []⟩

/-- Gives the job `t` to worker `i`, unless it is at work. -/
def start (p : JobPool ι σ χ W R ε α) (i : ι) (t : Job W R ε α) : JobPool ι σ χ W R ε α :=
  match p.jobs i with
  | some _ => p
  | none => { p with jobs := Function.update p.jobs i (some t) }

/-- Worker `i` makes its next call; one whose job has ended becomes idle. -/
def step (D : Device σ χ W R ε) (p : JobPool ι σ χ W R ε α) (i : ι) (c : χ) :
    JobPool ι σ χ W R ε α :=
  match p.jobs i with
  | some (.call w k) =>
      { state := (D w c p.state).2
        jobs := Function.update p.jobs i (some (k (D w c p.state).1))
        log := (i, w, c) :: p.log }
  | some _ => { p with jobs := Function.update p.jobs i none }
  | none => p

/-- The calls of the other workers since the last call of worker `i`. -/
def sinceLast (p : JobPool ι σ χ W R ε α) (i : ι) : List (ι × W × χ) :=
  p.log.takeWhile fun e => e.1 ≠ i

section Rules
variable {p : JobPool ι σ χ W R ε α} {i j : ι} {c : χ}

@[simp] theorem state_start (p : JobPool ι σ χ W R ε α) (i : ι) (t : Job W R ε α) :
    (p.start i t).state = p.state := by
  unfold start
  split <;> rfl

@[simp] theorem log_start (p : JobPool ι σ χ W R ε α) (i : ι) (t : Job W R ε α) :
    (p.start i t).log = p.log := by
  unfold start
  split <;> rfl

theorem jobs_start_of_ne (t : Job W R ε α) (hij : j ≠ i) : (p.start i t).jobs j = p.jobs j := by
  unfold start
  split
  · rfl
  · exact Function.update_of_ne hij _ _

/-- A start gives the job to an idle worker. -/
theorem jobs_start_self (p : JobPool ι σ χ W R ε α) (i : ι) (t : Job W R ε α) :
    (p.start i t).jobs i = p.jobs i ∨ (p.start i t).jobs i = some t := by
  unfold start
  split
  · exact Or.inl rfl
  · exact Or.inr (Function.update_self _ _ _)

/-- A step makes one call of one worker, or it leaves the device and the log as they are. -/
theorem step_cases (D : Device σ χ W R ε) (p : JobPool ι σ χ W R ε α) (i : ι) (c : χ) :
    (∃ w k, p.jobs i = some (.call w k) ∧ p.step D i c =
      { state := (D w c p.state).2
        jobs := Function.update p.jobs i (some (k (D w c p.state).1))
        log := (i, w, c) :: p.log }) ∨
    ((∀ w k, p.jobs i ≠ some (.call w k)) ∧
      p.step D i c = { p with jobs := Function.update p.jobs i none }) := by
  cases h : p.jobs i with
  | none =>
      refine Or.inr ⟨by simp, ?_⟩
      rw [← h, Function.update_eq_self]
      simp [step, h]
  | some t =>
      cases t with
      | call w k => exact Or.inl ⟨w, k, rfl, by simp [step, h]⟩
      | ret a => exact Or.inr ⟨by simp, by simp [step, h]⟩
      | raise e => exact Or.inr ⟨by simp, by simp [step, h]⟩

theorem sinceLast_of_ne {p' : JobPool ι σ χ W R ε α} {w : W} (h : p'.log = (i, w, c) :: p.log)
    (hij : i ≠ j) : p'.sinceLast j = (i, w, c) :: p.sinceLast j := by
  simp [sinceLast, h, hij]

theorem mem_log_of_sinceLast {e : ι × W × χ} (h : e ∈ p.sinceLast i) : e ∈ p.log :=
  (List.takeWhile_sublist _).subset h

end Rules

end JobPool
