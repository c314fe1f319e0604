import FleetManagement.Consents.Requests
import FleetManagement.Privacy.Flush
import Mathlib.Data.List.Chain

/-!
# Consents as the replay of their history

The consent of a user and purpose is what its history determines. Every transaction either leaves both
alone or appends one change that the consent accepts.
-/

namespace FleetManagement

open Keyed (key)

/-! ## Histories -/

/-- A consent without its key. -/
structure Standing where
  status : ConsentStatus
  policyVersion : String
  grantedAt : Option DateTime
  withdrawnAt : Option DateTime
  updatedAt : DateTime
  source : String
  deriving DecidableEq, Repr

def UserConsent.standing (c : UserConsent) : Standing :=
  ⟨c.status, c.policyVersion, c.grantedAt, c.withdrawnAt, c.updatedAt, c.source⟩

def ConsentAction.status : ConsentAction → ConsentStatus
  | .grant => .granted
  | .revoke => .withdrawn

/-- When an action was last taken. -/
def lastTime (action : ConsentAction) (hs : List ConsentHistory) : Option DateTime :=
  (hs.filter fun h => h.action = action).getLast?.map ConsentHistory.occurredAt

/-- What a history says about the consent now. -/
def replayHistory (hs : List ConsentHistory) : Option Standing :=
  hs.getLast?.map fun last =>
    { status := last.action.status
      policyVersion := last.policyVersion
      grantedAt := lastTime .grant hs
      withdrawnAt := lastTime .revoke hs
      updatedAt := last.occurredAt
      source := last.source }

/-- `b` may follow `a`: no second REVOKE in a row, and no GRANT of the version that is granted. -/
def Follows (a b : ConsentHistory) : Prop :=
  (a.action = .revoke → b.action = .grant) ∧
    (a.action = .grant → b.action = .grant → b.policyVersion ≠ a.policyVersion)

structure Orderly (hs : List ConsentHistory) : Prop where
  first : ∀ h ∈ hs.head?, h.action = .grant
  chain : hs.IsChain Follows

/-- The standing after one more entry. -/
def Standing.after (o : Option Standing) (h : ConsentHistory) : Standing where
  status := h.action.status
  policyVersion := h.policyVersion
  grantedAt := if h.action = .grant then some h.occurredAt else o.bind Standing.grantedAt
  withdrawnAt := if h.action = .revoke then some h.occurredAt else o.bind Standing.withdrawnAt
  updatedAt := h.occurredAt
  source := h.source

/-- The changes that the service makes to a consent that stands at `o`. -/
def Accepts (o : Option Standing) (h : ConsentHistory) : Prop :=
  match h.action with
  | .grant => ∀ s ∈ o, s.status = .granted → h.policyVersion ≠ s.policyVersion
  | .revoke => ∃ s ∈ o, s.status = .granted

section Histories
variable {hs : List ConsentHistory} {h : ConsentHistory}

theorem replayHistory_eq_none : replayHistory hs = none ↔ hs = [] := by
  simp [replayHistory, List.getLast?_eq_none_iff]

theorem status_eq_granted {a : ConsentAction} : a.status = .granted ↔ a = .grant := by
  cases a <;> simp [ConsentAction.status]

theorem lastTime_append (action : ConsentAction) : lastTime action (hs ++ [h]) =
    if h.action = action then some h.occurredAt else lastTime action hs := by
  unfold lastTime
  rw [List.filter_append, List.filter_singleton]
  by_cases ha : h.action = action
  · simp [ha]
  · simp [ha]

theorem lastTime_eq_bind (action : ConsentAction) (f : Standing → Option DateTime)
    (hf : ∀ s, replayHistory hs = some s → f s = lastTime action hs) :
    (replayHistory hs).bind f = lastTime action hs := by
  cases hr : replayHistory hs with
  | none => rw [replayHistory_eq_none.mp hr]; rfl
  | some s => exact hf s hr

theorem replayHistory_append : replayHistory (hs ++ [h]) = some (Standing.after (replayHistory hs) h) := by
  have hgrant : (replayHistory hs).bind Standing.grantedAt = lastTime .grant hs :=
    lastTime_eq_bind _ _ fun s hs' => by
      obtain ⟨last, -, rfl⟩ := Option.map_eq_some_iff.mp hs'
      rfl
  have hrevoke : (replayHistory hs).bind Standing.withdrawnAt = lastTime .revoke hs :=
    lastTime_eq_bind _ _ fun s hs' => by
      obtain ⟨last, -, rfl⟩ := Option.map_eq_some_iff.mp hs'
      rfl
  unfold Standing.after
  rw [hgrant, hrevoke, replayHistory, List.getLast?_concat, Option.map_some, lastTime_append, lastTime_append]

theorem Orderly.append (ho : Orderly hs) (ha : Accepts (replayHistory hs) h) : Orderly (hs ++ [h]) where
  first g hg := by
    cases hs with
    | nil =>
        obtain rfl : h = g := by simpa using hg
        unfold Accepts at ha
        cases haction : h.action with
        | grant => rfl
        | revoke =>
            rw [haction] at ha
            obtain ⟨s, hs, -⟩ := ha
            cases hs
    | cons a hs => exact ho.first g (by simpa using hg)
  chain := by
    refine List.isChain_append.mpr ⟨ho.chain, List.isChain_singleton _, fun last hlast g hg => ?_⟩
    obtain rfl : h = g := by simpa using hg
    rw [replayHistory, Option.mem_def.mp hlast, Option.map_some] at ha
    unfold Accepts at ha
    cases haction : h.action with
    | grant =>
        rw [haction] at ha
        refine ⟨fun _ => haction, fun hgrant _ => ha _ rfl ?_⟩
        exact status_eq_granted.mpr hgrant
    | revoke =>
        rw [haction] at ha
        obtain ⟨s, hs, hgranted⟩ := ha
        cases hs
        have hgrant := status_eq_granted.mp hgranted
        refine ⟨fun hrevoke => ?_, fun _ hcontra => ?_⟩
        · rw [hgrant] at hrevoke; cases hrevoke
        · rw [haction] at hcontra; cases hcontra

end Histories

/-! ## Databases -/

def Database.historyFor (db : Database) (userId : Int) (purpose : ConsentPurpose) : List ConsentHistory :=
  db.consentHistory.rows.filter fun h => h.userId = userId ∧ h.purpose = purpose

structure Database.FollowsHistory (db : Database) (userId : Int) (purpose : ConsentPurpose) : Prop where
  replayed : (db.consentsFor userId purpose).map UserConsent.standing =
    (replayHistory (db.historyFor userId purpose)).toList
  orderly : Orderly (db.historyFor userId purpose)

/-- Every consent is the replay of its history. -/
def Database.Replayed (db : Database) : Prop := ∀ userId purpose, db.FollowsHistory userId purpose

/-- What a transaction does to one consent: nothing, or one change on record. -/
inductive Turn (userId : Int) (purpose : ConsentPurpose) (db db' : Database) : Prop
  | same (hc : db'.consentsFor userId purpose = db.consentsFor userId purpose)
      (hh : db'.historyFor userId purpose = db.historyFor userId purpose)
  | changed {o : Option UserConsent} {c : UserConsent} {h : ConsentHistory}
      (ho : db.consentsFor userId purpose = Option.toList o)
      (hc : db'.consentsFor userId purpose = [c])
      (hh : db'.historyFor userId purpose = db.historyFor userId purpose ++ [h])
      (hs : c.standing = Standing.after (o.map UserConsent.standing) h)
      (ha : Accepts (o.map UserConsent.standing) h)

section Databases
variable {db db' : Database} {userId : Int} {purpose : ConsentPurpose}

theorem Database.FollowsHistory.standing {o : Option UserConsent} (h : db.FollowsHistory userId purpose)
    (ho : db.consentsFor userId purpose = Option.toList o) :
    o.map UserConsent.standing = replayHistory (db.historyFor userId purpose) := by
  have hr := h.replayed
  rw [ho] at hr
  cases o <;> cases hs : replayHistory (db.historyFor userId purpose) <;> simp_all

theorem Database.FollowsHistory.turn (h : db.FollowsHistory userId purpose)
    (ht : Turn userId purpose db db') : db'.FollowsHistory userId purpose := by
  cases ht with
  | same hc hh => exact ⟨by rw [hc, hh]; exact h.replayed, by rw [hh]; exact h.orderly⟩
  | changed ho hc hh hs ha =>
      rw [h.standing ho] at hs ha
      refine ⟨?_, by rw [hh]; exact h.orderly.append ha⟩
      rw [hc, hh, replayHistory_append, List.map_singleton, hs]
      rfl

theorem Database.FollowsHistory.consents (h : db.FollowsHistory userId purpose) :
    ∃ o, db.consentsFor userId purpose = Option.toList o := by
  have hlen := congrArg List.length h.replayed
  rw [List.length_map] at hlen
  match hc : db.consentsFor userId purpose with
  | [] => exact ⟨none, rfl⟩
  | [c] => exact ⟨some c, rfl⟩
  | _ :: _ :: _ =>
      rw [hc] at hlen
      cases hr : replayHistory (db.historyFor userId purpose) <;> rw [hr] at hlen <;> simp at hlen

theorem Database.FollowsHistory.consentsFor_eq {c : UserConsent} (h : db.FollowsHistory userId purpose)
    (hrow : db.userConsents.find? c.id = some c) (hu : c.userId = userId) (hp : c.purpose = purpose) :
    db.consentsFor userId purpose = [c] := by
  have hmem : c ∈ db.consentsFor userId purpose :=
    List.mem_filter.mpr ⟨Table.mem_of_find? hrow, by simp [hu, hp]⟩
  obtain ⟨o, ho⟩ := h.consents
  rw [ho] at hmem ⊢
  obtain rfl := Option.mem_toList.mp hmem
  rfl

end Databases

/-! ## What the statements do to one consent -/

section Effects
variable {db : Database} {userId : Int} {purpose : ConsentPurpose}

theorem consentsFor_insert {row : UserConsent} {h} : (db.withUserConsents
    (db.userConsents.insert h (fun id => { row with id }) fun _ => rfl)).consentsFor userId purpose =
      db.consentsFor userId purpose ++ if row.userId = userId ∧ row.purpose = purpose then
        [{ row with id := db.userConsents.seq + 1 }] else [] := by
  unfold Database.consentsFor
  rw [Database.withUserConsents_userConsents, Table.filter_insert]
  simp

theorem consentsFor_insert_of_ne {row : UserConsent} {h}
    (hne : ¬ (row.userId = userId ∧ row.purpose = purpose)) : (db.withUserConsents
      (db.userConsents.insert h (fun id => { row with id }) fun _ => rfl)).consentsFor userId purpose =
    db.consentsFor userId purpose := by
  rw [consentsFor_insert, if_neg hne, List.append_nil]

theorem consentsFor_update {id : Int} {f : UserConsent → UserConsent} {hf}
    (hsame : ∀ c, (f c).userId = c.userId ∧ (f c).purpose = c.purpose) :
    (db.withUserConsents (db.userConsents.update id f hf)).consentsFor userId purpose =
      (db.consentsFor userId purpose).map fun c => if c.id = id then f c else c := by
  unfold Database.consentsFor
  rw [Database.withUserConsents_userConsents, Table.filter_update]
  · rfl
  · intro c; simp [hsame c]

theorem historyFor_logged {row : ConsentHistory} {h} : (db.logged row h).historyFor userId purpose =
    db.historyFor userId purpose ++ if row.userId = userId ∧ row.purpose = purpose then
      [{ row with id := db.consentHistory.seq + 1 }] else [] := by
  unfold Database.historyFor Database.logged
  rw [Database.withConsentHistory_consentHistory, Table.filter_insert]
  simp

theorem historyFor_logged_of_ne {row : ConsentHistory} {h}
    (hne : ¬ (row.userId = userId ∧ row.purpose = purpose)) :
    (db.logged row h).historyFor userId purpose = db.historyFor userId purpose := by
  rw [historyFor_logged, if_neg hne, List.append_nil]

@[simp] theorem consentsFor_logged {row : ConsentHistory} {h} :
    (db.logged row h).consentsFor userId purpose = db.consentsFor userId purpose := rfl

@[simp] theorem historyFor_withUserConsents {t : Table UserConsent} :
    (db.withUserConsents t).historyFor userId purpose = db.historyFor userId purpose := rfl

/-- A row for another user or purpose is not the one with the key of `c`. -/
theorem consentsFor_ne {c : UserConsent} (hrow : db.userConsents.find? c.id = some c)
    (hne : ¬ (c.userId = userId ∧ c.purpose = purpose)) :
    ∀ d ∈ db.consentsFor userId purpose, d.id ≠ c.id := by
  intro d hd heq
  obtain ⟨hmem, hd⟩ := List.mem_filter.mp hd
  have hdc : d = c := Table.eq_of_key hmem (Table.mem_of_find? hrow) heq
  subst hdc
  exact hne (of_decide_eq_true hd)

theorem consentsFor_update_of_ne {c : UserConsent} {f : UserConsent → UserConsent} {hf}
    (hsame : ∀ c, (f c).userId = c.userId ∧ (f c).purpose = c.purpose)
    (hrow : db.userConsents.find? c.id = some c) (hne : ¬ (c.userId = userId ∧ c.purpose = purpose)) :
    (db.withUserConsents (db.userConsents.update c.id f hf)).consentsFor userId purpose =
      db.consentsFor userId purpose := by
  rw [consentsFor_update hsame]
  refine (List.map_congr_left fun d hd => ?_).trans (List.map_id _)
  rw [if_neg (consentsFor_ne hrow hne d hd)]
  rfl

/-- One locked row is written and one history row is added. -/
theorem turn_of_update {db' : Database} {c : UserConsent} {f : UserConsent → UserConsent} {hf}
    {row : ConsentHistory} {hlog} (hI : db.FollowsHistory userId purpose)
    (hrow : db.userConsents.find? c.id = some c)
    (hdb : db' = (db.withUserConsents (db.userConsents.update c.id f hf)).logged row hlog)
    (hsame : ∀ c, (f c).userId = c.userId ∧ (f c).purpose = c.purpose)
    (hu : row.userId = c.userId) (hp : row.purpose = c.purpose)
    (hs : (f c).standing = Standing.after (some c.standing) row) (ha : Accepts (some c.standing) row) :
    Turn userId purpose db db' := by
  subst hdb
  by_cases hpair : c.userId = userId ∧ c.purpose = purpose
  · have hc := hI.consentsFor_eq hrow hpair.1 hpair.2
    refine .changed (o := some c) (c := f c)
      (h := { row with id := (db.withUserConsents (db.userConsents.update c.id f hf)).consentHistory.seq + 1 })
      hc ?_ ?_ hs ha
    · rw [consentsFor_logged, consentsFor_update hsame, hc, List.map_singleton, if_pos rfl]
    · rw [historyFor_logged, if_pos (by rw [hu, hp]; exact hpair)]
      rfl
  · refine .same ?_ ?_
    · rw [consentsFor_logged, consentsFor_update_of_ne hsame hrow hpair]
    · rw [historyFor_logged_of_ne (by rw [hu, hp]; exact hpair), historyFor_withUserConsents]

end Effects

end FleetManagement
