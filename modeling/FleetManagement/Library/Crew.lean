import FleetManagement.Library.Job
import FleetManagement.Library.Runs

/-!
# Jobs on a shared device

Any number of jobs work on one device, which knows its callers and may let a call wait. The log keeps
every answered call, and the calls of a job in the log determine what is left of it.
-/

/-- A device that knows its callers. The answer `none` lets a call wait. -/
abbrev SharedDevice (ι σ χ W : Type) (R : W → Type) (ε : Type) :=
  ι → (w : W) → χ → σ → Option (Except ε (R w) × σ)

/-- An answered call, with the state of the device right after it. -/
structure Call (ι σ W : Type) (R : W → Type) (ε : Type) where
  caller : ι
  command : W
  answer : Except ε (R command)
  state : σ

/-- Jobs at work on one device, and the calls that were answered, the last one first. -/
structure Crew (ι σ W : Type) (R : W → Type) (ε α : Type) where
  state : σ
  jobs : ι → Job W R ε α
  log : List (Call ι σ W R ε)

namespace Crew

variable {ι σ χ W ε α : Type} {R : W → Type} [DecidableEq ι]

def init (s : σ) (jobs : ι → Job W R ε α) : Crew ι σ W R ε α := ⟨s, jobs, []⟩

/-- Job `a.1` makes its next call, unless it has ended or the device lets it wait. -/
def step (D : SharedDevice ι σ χ W R ε) (p : Crew ι σ W R ε α) (a : ι × χ) : Crew ι σ W R ε α :=
  match p.jobs a.1 with
  | .call w k =>
      match D a.1 w a.2 p.state with
      | some (x, s) =>
          { state := s, jobs := Function.update p.jobs a.1 (k x), log := ⟨a.1, w, x, s⟩ :: p.log }
      | none => p
  | _ => p

/-- The answered calls of job `i`. -/
def calls (p : Crew ι σ W R ε α) (i : ι) : List (Call ι σ W R ε) := p.log.filter fun c => c.caller = i

variable {D : SharedDevice ι σ χ W R ε} {p : Crew ι σ W R ε α} {a : ι × χ}

/-- A step has a call answered, or it changes nothing. -/
theorem step_cases (D : SharedDevice ι σ χ W R ε) (p : Crew ι σ W R ε α) (a : ι × χ) :
    (∃ w k x s, p.jobs a.1 = .call w k ∧ D a.1 w a.2 p.state = some (x, s) ∧ p.step D a =
      { state := s, jobs := Function.update p.jobs a.1 (k x), log := ⟨a.1, w, x, s⟩ :: p.log }) ∨
    p.step D a = p := by
  unfold step
  cases hjob : p.jobs a.1 with
  | ret b => exact Or.inr rfl
  | raise e => exact Or.inr rfl
  | call w k =>
      cases hanswer : D a.1 w a.2 p.state with
      | none => exact Or.inr (by simp only [hanswer])
      | some r => exact Or.inl ⟨w, k, r.1, r.2, rfl, hanswer, by simp only [hanswer]⟩

theorem mem_calls {i : ι} {c : Call ι σ W R ε} : c ∈ p.calls i ↔ c ∈ p.log ∧ c.caller = i := by
  simp [calls]

end Crew

/-! ## Two devices side by side -/

/-- The answers of two devices. -/
@[reducible] def Answers {W V : Type} (R : W → Type) (S : V → Type) : W ⊕ V → Type
  | .inl w => R w
  | .inr v => S v

/-- Two devices with a state each; every call goes to one of them. -/
def SharedDevice.beside {ι σ τ χ ξ W V ε : Type} {R : W → Type} {S : V → Type}
    (D : SharedDevice ι σ χ W R ε) (E : SharedDevice ι τ ξ V S ε) :
    SharedDevice ι (σ × τ) (χ × ξ) (W ⊕ V) (Answers R S) ε
  | i, .inl w, c, s => (D i w c.1 s.1).map fun r => (r.1, (r.2, s.2))
  | i, .inr v, c, s => (E i v c.2 s.2).map fun r => (r.1, (s.1, r.2))

/-- A job that uses only the first device. -/
def Job.onFirst {W V ε α : Type} {R : W → Type} (S : V → Type) :
    Job W R ε α → Job (W ⊕ V) (Answers R S) ε α
  | .ret a => .ret a
  | .raise e => .raise e
  | .call w k => .call (.inl w) fun x => (k x).onFirst S

/-! ## The path of a job through its calls -/

namespace Job

variable {ι σ W ε α β : Type} {R : W → Type}

/-- After the calls, the last one first, `u` is what is left of the job `t`. -/
inductive Follows (t : Job W R ε α) : List (Call ι σ W R ε) → Job W R ε α → Prop
  | start : t.Follows [] t
  | answered {calls : List (Call ι σ W R ε)} {w : W} {k : Except ε (R w) → Job W R ε α} (i : ι)
      (x : Except ε (R w)) (s : σ) :
      t.Follows calls (.call w k) → t.Follows (⟨i, w, x, s⟩ :: calls) (k x)

variable {calls : List (Call ι σ W R ε)} {t u : Job W R ε α}

theorem Follows.of_ret {b : α} (h : (ret b : Job W R ε α).Follows calls u) : calls = [] ∧ u = .ret b := by
  induction h with
  | start => exact ⟨rfl, rfl⟩
  | answered i x s _ ih => cases ih.2

theorem Follows.of_raise {e : ε} (h : (raise e : Job W R ε α).Follows calls u) :
    calls = [] ∧ u = .raise e := by
  induction h with
  | start => exact ⟨rfl, rfl⟩
  | answered i x s _ ih => cases ih.2

/-- A job that begins with a call has not begun, or it goes on after the answer. -/
theorem Follows.of_call {w : W} {k : Except ε (R w) → Job W R ε α} (h : (call w k).Follows calls u) :
    (calls = [] ∧ u = .call w k) ∨
      ∃ later i x s, calls = later ++ [⟨i, w, x, s⟩] ∧ (k x).Follows later u := by
  induction h with
  | start => exact Or.inl ⟨rfl, rfl⟩
  | answered i x s _ ih =>
      rcases ih with ⟨hcalls, hjob⟩ | ⟨later, j, y, s', hcalls, hfollows⟩
      · cases hjob
        exact Or.inr ⟨[], i, x, s, by rw [hcalls]; rfl, .start⟩
      · exact Or.inr ⟨_ :: later, j, y, s', by rw [hcalls]; rfl, .answered i x s hfollows⟩

/-- A sequence of two jobs is in the first one, or that has returned and it is in the second one. -/
theorem Follows.of_bind {v : Job W R ε β} {f : α → Job W R ε β} (h : (t >>= f).Follows calls v) :
    (∃ u, t.Follows calls u ∧ v = u >>= f) ∨
      ∃ a before after, calls = after ++ before ∧ t.Follows before (.ret a) ∧ (f a).Follows after v := by
  induction h with
  | start => exact Or.inl ⟨t, .start, rfl⟩
  | @answered calls w k i x s _ ih =>
      rcases ih with ⟨u, hu, hjob⟩ | ⟨a, before, after, rfl, ht, hf⟩
      · cases u with
        | ret a =>
            refine Or.inr ⟨a, calls, [⟨i, w, x, s⟩], rfl, hu, ?_⟩
            have hstart : (f a).Follows ([] : List (Call ι σ W R ε)) (.call w k) := by
              rw [hjob]; exact .start
            exact .answered i x s hstart
        | raise e => cases hjob
        | call w' k' =>
            cases hjob
            exact Or.inl ⟨k' x, .answered i x s hu, rfl⟩
      · exact Or.inr ⟨a, before, _ :: after, rfl, ht, .answered i x s hf⟩

/-- An attempt is on the path of the job that it attempts. -/
theorem Follows.of_attempt {v : Job W R ε (Except ε α)} (h : t.attempt.Follows calls v) :
    ∃ u, t.Follows calls u ∧ v = u.attempt := by
  induction h with
  | start => exact ⟨t, .start, rfl⟩
  | answered i x s _ ih =>
      obtain ⟨u, hu, hjob⟩ := ih
      cases u with
      | ret a => cases hjob
      | raise e => cases hjob
      | call w k => cases hjob; exact ⟨k x, .answered i x s hu, rfl⟩

def result? : Job W R ε α → Option α
  | .ret a => some a
  | _ => none

theorem result?_eq_some {a : α} : t.result? = some a ↔ t = .ret a := by
  cases t <;> simp [result?]

end Job

/-! ## Runs -/

namespace Crew

variable {ι σ χ W ε α : Type} {R : W → Type} [DecidableEq ι] {D : SharedDevice ι σ χ W R ε}
  {p : Crew ι σ W R ε α}

/-- What is left of each job follows its calls. -/
def OnPath (jobs : ι → Job W R ε α) (p : Crew ι σ W R ε α) : Prop :=
  ∀ i, (jobs i).Follows (p.calls i) (p.jobs i)

theorem onPath_init (s : σ) (jobs : ι → Job W R ε α) : OnPath jobs (init s jobs) := fun _ => .start

theorem OnPath.step {jobs : ι → Job W R ε α} (h : OnPath jobs p) (a : ι × χ) :
    OnPath jobs (p.step D a) := by
  rcases step_cases D p a with ⟨w, k, x, s, hjob, -, hstep⟩ | hstep
  · intro i
    rw [hstep]
    by_cases hi : i = a.1
    · subst hi
      have hpath := h a.1
      rw [hjob] at hpath
      simp only [calls, Function.update_self, List.filter_cons, decide_true, if_true]
      exact .answered a.1 x s hpath
    · have hne : ¬ a.1 = i := fun h => hi h.symm
      simp only [calls, Function.update_of_ne hi, List.filter_cons, hne, decide_false,
        Bool.false_eq_true, if_false]
      exact h i
  · rw [hstep]; exact h

/-- The log only grows. -/
theorem log_suffix_step (D : SharedDevice ι σ χ W R ε) (p : Crew ι σ W R ε α) (a : ι × χ) :
    p.log <:+ (p.step D a).log := by
  rcases step_cases D p a with ⟨w, k, x, s, -, -, hstep⟩ | hstep
  · rw [hstep]; exact List.suffix_cons _ _
  · rw [hstep]

theorem log_suffix_run (D : SharedDevice ι σ χ W R ε) (p : Crew ι σ W R ε α) (actions : List (ι × χ)) :
    p.log <:+ (Runs.run (step D) p actions).log := by
  induction actions generalizing p with
  | nil => exact List.suffix_refl _
  | cons a actions ih => exact (log_suffix_step D p a).trans (ih _)

end Crew
