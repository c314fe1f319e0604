import FleetManagement.Library.Crew
import FleetManagement.Library.Pool

/-!
# Transactions as calls

A store with one session for each caller, as a device that lets a call wait while another session holds a
row that it needs. A handler is the job that makes its interactions one call after another.
-/

inductive TxCall (σ W κ : Type) where
  | read
  | lock (sel : σ → List κ)
  | exec (w : W)
  | commit (ws : List W)
  | rollback
  | draw
  /-- The end of the session, which ends an open transaction. -/
  | close

@[reducible] def TxCall.Answer {σ W κ : Type} (δ ε : Type) : TxCall σ W κ → Type
  | .read => Except ε σ
  | .lock _ => Except ε σ
  | .exec _ => Except ε Nat
  | .commit _ => Except ε σ
  | .rollback => Unit
  | .draw => δ
  | .close => Unit

/-- The committed store, the open transaction of each session, and the row locks. -/
structure Sessions (ι σ W κ : Type) where
  store : σ
  pending : ι → List W
  locks : κ → Option ι

namespace Sessions

variable {ι σ W κ δ ε : Type} [DecidableEq ι] [DecidableEq κ]

def init (store : σ) : Sessions ι σ W κ := ⟨store, fun _ => [], fun _ => none⟩

def free (s : Sessions ι σ W κ) (i : ι) (keys : List κ) : Bool :=
  keys.all fun q => s.locks q = none || s.locks q = some i

def acquire (s : Sessions ι σ W κ) (i : ι) (keys : List κ) : κ → Option ι :=
  fun q => if q ∈ keys then some i else s.locks q

def release (s : Sessions ι σ W κ) (i : ι) : κ → Option ι :=
  fun q => if s.locks q = some i then none else s.locks q

/-- The session `i` goes on with the open transaction `ws`. -/
def openWith (s : Sessions ι σ W κ) (i : ι) (ws : List W) : ι → List W := Function.update s.pending i ws

/-- Ends the transaction of `i`. -/
def ended (s : Sessions ι σ W κ) (i : ι) : Sessions ι σ W κ := ⟨s.store, s.openWith i [], s.release i⟩

variable (D : Dialect σ W κ ε)

def serve (i : ι) (c : Choice δ ε) (s : Sessions ι σ W κ) :
    (w : TxCall σ W κ) → Option (w.Answer δ ε × Sessions ι σ W κ)
  | .read => some (c.answer (D.applyAll (s.pending i) s.store), s)
  | .lock sel =>
      match c.answer (D.applyAll (s.pending i) s.store) with
      | .ok t => if s.free i (sel t) then some (.ok t, { s with locks := s.acquire i (sel t) }) else none
      | .error e => some (.error e, s)
  | .exec w =>
      if s.free i (D.touches w) then
        match c.answer (D.applyAll (s.pending i ++ [w]) s.store) with
        | .ok _ =>
            some ((D.applyAll (s.pending i) s.store).map (D.rowcount w),
              ⟨s.store, s.openWith i (s.pending i ++ [w]), s.acquire i (D.touches w)⟩)
        | .error e => some (.error e, s)
      else none
  | .commit ws =>
      if s.free i (ws.flatMap D.touches) then
        match c.answer (D.applyAll (s.pending i ++ ws) s.store) with
        | .ok t => some (.ok t, ⟨t, s.openWith i [], s.release i⟩)
        | .error e => some (.error e, s.ended i)
      else none
  | .rollback => some ((), s.ended i)
  | .draw => some (c.draw, s)
  | .close => some ((), s.ended i)

/-- The store as a device, which answers every call that does not wait. -/
def device (ε' : Type) : SharedDevice ι (Sessions ι σ W κ) (Choice δ ε) (TxCall σ W κ) (TxCall.Answer δ ε) ε' :=
  fun i w c s => (serve D i c s w).map fun r => (.ok r.1, r.2)

section Pending
variable {D : Dialect σ W κ ε} {i j : ι} {w : TxCall σ W κ} {c : Choice δ ε} {s s' : Sessions ι σ W κ}
  {x : w.Answer δ ε}

theorem pending_of_ne (h : serve D i c s w = some (x, s')) (hj : j ≠ i) : s'.pending j = s.pending j := by
  have hopen (ws : List W) : s.openWith i ws j = s.pending j := Function.update_of_ne hj _ _
  cases w <;> simp only [serve] at h <;> (try split at h) <;> (try split at h) <;> cases h <;>
    first | rfl | exact hopen _

/-- A call that is no statement leaves a session without statements as it is. -/
theorem pending_self (h : serve D i c s w = some (x, s')) (hw : ∀ stmt, w ≠ .exec stmt)
    (hs : s.pending i = []) : s'.pending i = [] := by
  have hended : s.openWith i [] i = [] := Function.update_self _ _ _
  cases w with
  | exec stmt => exact absurd rfl (hw stmt)
  | _ =>
      simp only [serve] at h
      (try split at h) <;> (try split at h) <;> cases h <;> first | exact hs | exact hended

end Pending

end Sessions

namespace Tx

variable {σ W κ δ ε ε' α β : Type}

/-- Makes the call `w` and goes on with its answer. -/
def calling (w : TxCall σ W κ) (k : w.Answer δ ε → Job (TxCall σ W κ) (TxCall.Answer δ ε) ε' α) :
    Job (TxCall σ W κ) (TxCall.Answer δ ε) ε' α :=
  .call w fun
    | .ok x => k x
    | .error e => .raise e

/-- The handler as a job, which raises `f e` where the handler raises `e`. -/
def toJob (f : ε → ε') : Tx σ W κ δ ε α → Job (TxCall σ W κ) (TxCall.Answer δ ε) ε' α
  | .ret a => .ret a
  | .raise e => .raise (f e)
  | .read k => calling .read fun x => (k x).toJob f
  | .lock sel k => calling (.lock sel) fun x => (k x).toJob f
  | .exec w k => calling (.exec w) fun x => (k x).toJob f
  | .commit ws k => calling (.commit ws) fun x => (k x).toJob f
  | .rollback k => calling .rollback fun _ => k.toJob f
  | .draw k => calling .draw fun x => (k x).toJob f

end Tx

/-! ## Handlers that commit -/

namespace Tx

variable {σ W κ δ ε α β : Type}

/-- The handler returns only after a commit that succeeded. -/
def Commits : Tx σ W κ δ ε α → Prop
  | .ret _ => False
  | .raise _ => True
  | .read k => ∀ x, (k x).Commits
  | .lock _ k => ∀ x, (k x).Commits
  | .exec _ k => ∀ x, (k x).Commits
  | .commit _ k => ∀ e, (k (.error e)).Commits
  | .rollback k => k.Commits
  | .draw k => ∀ d, (k d).Commits

theorem commits_commitAll (ws : List W) (f : σ → Tx σ W κ δ ε α) : (commitAll ws >>= f).Commits :=
  fun _ => trivial

theorem commits_bind {t : Tx σ W κ δ ε α} {f : α → Tx σ W κ δ ε β} (hf : ∀ a, (f a).Commits) :
    (t >>= f).Commits := by
  show (t.bind f).Commits
  induction t with
  | ret a => exact hf a
  | raise e => trivial
  | read k ih => exact fun x => ih x
  | lock sel k ih => exact fun x => ih x
  | exec w k ih => exact fun x => ih x
  | commit ws k ih => exact fun e => ih (.error e)
  | rollback k ih => exact ih
  | draw k ih => exact fun d => ih d

end Tx
