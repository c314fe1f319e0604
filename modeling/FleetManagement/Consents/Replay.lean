import FleetManagement.Consents.Commits
import FleetManagement.Privacy.Requests

/-!
# The evidence log decides

However the requests interleave, every consent is the replay of its history in commit order, and the gate
goes by the last entry.
-/

namespace FleetManagement

section Gate
variable {db : Database} {userId : Int} {purpose : ConsentPurpose}

theorem decideGate_allowed_iff {o : Option UserConsent} {version : String} :
    (decideGate o version).allowed = true ↔
      ∃ c ∈ o, c.status = .granted ∧ c.policyVersion = version := by
  constructor
  · intro h
    obtain ⟨c, rfl, hc⟩ := decideGate_allowed h
    exact ⟨c, rfl, hc⟩
  · rintro ⟨c, hc, hs, hv⟩
    cases hc
    simp [decideGate, hs, hv]

/-- The last entry grants the version. -/
def LastGrants (version : String) (hs : List ConsentHistory) : Prop :=
  ∃ last ∈ hs.getLast?, last.action = .grant ∧ last.policyVersion = version

theorem Database.FollowsHistory.lastGrants_iff {o : Option UserConsent} {version : String}
    (h : db.FollowsHistory userId purpose) (ho : db.consentsFor userId purpose = Option.toList o) :
    (decideGate o version).allowed = true ↔ LastGrants version (db.historyFor userId purpose) := by
  have hs := h.standing ho
  rw [decideGate_allowed_iff]
  unfold LastGrants
  cases hlast : (db.historyFor userId purpose).getLast? with
  | none =>
      rw [replayHistory, hlast, Option.map_none, Option.map_eq_none_iff] at hs
      simp [hs]
  | some last =>
      rw [replayHistory, hlast, Option.map_some, Option.map_eq_some_iff] at hs
      obtain ⟨c, rfl, hc⟩ := hs
      have hstatus : c.status = last.action.status := congrArg Standing.status hc
      have hversion : c.policyVersion = last.policyVersion := congrArg Standing.policyVersion hc
      simp [hstatus, hversion, status_eq_granted]

/-- What the gate answers on a database whose consents follow their histories. -/
theorem Database.FollowsHistory.eval_check {draws : Nat → Draw} {version : String} {n : Nat}
    (h : db.FollowsHistory userId purpose) :
    ∃ d, (ConsentPolicyGate.check userId purpose version).eval dialect (Tx.calmly draws) ⟨db, [], n⟩ =
        (.ok d, ⟨db, [], n + 1⟩) ∧
      (d.allowed = true ↔ LastGrants version (db.historyFor userId purpose)) := by
  obtain ⟨o, ho⟩ := h.consents
  refine ⟨decideGate o version, ?_, h.lastGrants_iff ho⟩
  unfold ConsentPolicyGate.check getCurrent
  simp only [Bool.false_eq_true, if_false, Tx.bind_assoc]
  rw [Tx.eval_select rfl, ho]
  cases o <;> rfl

end Gate

/-! ## Every committed state -/

theorem replayed_of_no_consents {db : Database} (hc : db.userConsents.rows = [])
    (hh : db.consentHistory.rows = []) : db.Replayed := by
  intro userId purpose
  have hconsents : db.consentsFor userId purpose = [] := by
    unfold Database.consentsFor; rw [hc]; rfl
  have hhistory : db.historyFor userId purpose = [] := by
    unfold Database.historyFor; rw [hh]; rfl
  refine ⟨by rw [hconsents, hhistory]; rfl, ?_⟩
  rw [hhistory]
  exact ⟨fun h hfirst => (by cases hfirst), List.isChain_nil⟩

section World
variable {ι : Type} [DecidableEq ι] {requests : ι → ConsentRequest} {db : Database}

theorem visits_replayed (hdb : db.Replayed) {steps : List (ConsentStep ι)} :
    ∀ w, Runs.Visits ConsentWorld.step (consentWorld requests db) steps w →
      ConsentInv Database.Replayed requests w :=
  Runs.invariant_of_step (fun _ a hw => hw.step keptByTurns_replayed a) (consentInv_init hdb)

/-- In every committed state: at most one row for each user and purpose, which is the replay of an orderly
history, and a gate that allows exactly what the last entry grants. -/
theorem consents_replay_history (hdb : db.Replayed) (steps : List (ConsentStep ι)) :
    ∀ w, Runs.Visits ConsentWorld.step (consentWorld requests db) steps w → ∀ userId purpose,
      (w.pool.store.consentsFor userId purpose).length ≤ 1 ∧
      (w.pool.store.consentsFor userId purpose).map UserConsent.standing =
        (replayHistory (w.pool.store.historyFor userId purpose)).toList ∧
      Orderly (w.pool.store.historyFor userId purpose) ∧
      ∀ version draws, ∃ d, (ConsentPolicyGate.check userId purpose version).eval dialect
          (Tx.calmly draws) ⟨w.pool.store, [], 0⟩ = (.ok d, ⟨w.pool.store, [], 1⟩) ∧
        (d.allowed = true ↔ LastGrants version (w.pool.store.historyFor userId purpose)) := by
  intro w hw userId purpose
  have h := (visits_replayed hdb w hw).store userId purpose
  obtain ⟨o, ho⟩ := h.consents
  refine ⟨?_, h.replayed, h.orderly, fun version draws => h.eval_check⟩
  rw [ho]
  cases o <;> simp

end World

/-- Two first grants that race, and a revoke that comes after an erasure. -/
def racingGrants : Nat → ConsentRequest
  | 0 => .grant 1 .marketingEmail "2026-01" "web"
  | 1 => .grant 1 .marketingEmail "2025-06" "app"
  | _ => .revoke 1 .marketingEmail "web"

/-- Both grants find no row; the second one to commit fails, retries and grants its version. -/
def racingSteps : List (ConsentStep Nat) :=
  [.request 0 (stepAt 1), .request 1 (stepAt 2), .request 0 (stepAt 3), .request 1 (stepAt 4),
    .request 0 (stepAt 5), .request 1 (stepAt 6), .request 1 (stepAt 7), .request 1 (stepAt 8),
    .request 1 (stepAt 9), .request 1 (stepAt 10), .withdrawAll 1 "erasure" 11, .request 2 (stepAt 12)]

theorem racingGrants_replay_history :
    ((Runs.run ConsentWorld.step (consentWorld racingGrants office)
      racingSteps).pool.store.consentsFor 1 .marketingEmail).length ≤ 1 ∧
    ((Runs.run ConsentWorld.step (consentWorld racingGrants office)
        racingSteps).pool.store.consentsFor 1 .marketingEmail).map UserConsent.standing =
      (replayHistory ((Runs.run ConsentWorld.step (consentWorld racingGrants office)
        racingSteps).pool.store.historyFor 1 .marketingEmail)).toList ∧
    Orderly ((Runs.run ConsentWorld.step (consentWorld racingGrants office)
      racingSteps).pool.store.historyFor 1 .marketingEmail) :=
  have h := consents_replay_history (replayed_of_no_consents rfl rfl) racingSteps _
    (Runs.Visits.last _ _) 1 .marketingEmail
  ⟨h.1, h.2.1, h.2.2.1⟩

end FleetManagement
