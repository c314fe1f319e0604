import FleetManagement.Services.Account

/-!
# Consents and the consent gate

`consent_service`: one row for each user and purpose, an append-only history, and the gate that decides
from the row as it is when the gate is asked.
-/

namespace FleetManagement

def currentPolicyVersion : String := "2026-01"

structure ConsentChange where
  consent : Option UserConsent
  changed : Bool
  deriving DecidableEq, Repr

/-- The columns of a consent that a session has changed. -/
def UserConsent.changes (loaded c : UserConsent) : UserConsentSet where
  status := dirty loaded.status c.status
  policyVersion := dirty loaded.policyVersion c.policyVersion
  grantedAt := dirty loaded.grantedAt c.grantedAt
  withdrawnAt := dirty loaded.withdrawnAt c.withdrawnAt
  updatedAt := dirty loaded.updatedAt c.updatedAt
  source := dirty loaded.source c.source

def Database.consentsFor (db : Database) (userId : Int) (purpose : ConsentPurpose) : List UserConsent :=
  db.userConsents.rows.filter fun c => c.userId = userId ∧ c.purpose = purpose

def getCurrent (userId : Int) (purpose : ConsentPurpose) (lock : Bool) : Db (Option UserConsent) := do
  let db ← if lock then
      Tx.selectForUpdate fun db => (db.consentsFor userId purpose).map fun c => .userConsent c.id
    else Tx.select
  scalarOneOrNone (db.consentsFor userId purpose)

def history (userId : Int) (purpose : ConsentPurpose) (action : ConsentAction)
    (policyVersion source : String) (now : DateTime) : ConsentHistory :=
  { id := 0, userId, purpose, action, policyVersion, source, occurredAt := now }

/-- A consent as `_grant_once` leaves it. -/
def UserConsent.granted (c : UserConsent) (policyVersion source : String) (now : DateTime) :
    UserConsent :=
  { c with status := .granted, policyVersion, grantedAt := some now, updatedAt := now, source }

/-- A consent as `revoke` and `withdraw_all` leave it. -/
def UserConsent.withdrawn (c : UserConsent) (source : String) (now : DateTime) : UserConsent :=
  { c with status := .withdrawn, withdrawnAt := some now, updatedAt := now, source }

def newConsent (userId : Int) (purpose : ConsentPurpose) (policyVersion source : String)
    (now : DateTime) : UserConsent :=
  { id := 0, userId, purpose, status := .granted, policyVersion, grantedAt := some now,
    withdrawnAt := none, updatedAt := now, source }

/-- The flush of `_grant_once`. -/
def grantFlush (userId : Int) (purpose : ConsentPurpose) (consent : Option UserConsent)
    (policyVersion source : String) (now : DateTime) : List Stmt :=
  match consent with
  | none =>
      [.insertUserConsent (newConsent userId purpose policyVersion source now),
       .insertConsentHistory (history userId purpose .grant policyVersion source now)]
  | some c =>
      [.updateUserConsent c.id (c.changes (c.granted policyVersion source now)),
       .insertConsentHistory (history userId purpose .grant policyVersion source now)]

def grantOnce (userId : Int) (purpose : ConsentPurpose) (policyVersion source : String) :
    Db ConsentChange := do
  let now ← now
  let consent ← getCurrent userId purpose true
  if consent.any fun c => c.status = .granted ∧ c.policyVersion = policyVersion then
    pure ⟨consent, false⟩
  else
    let db ← Tx.commitAll (grantFlush userId purpose consent policyVersion source now)
    match consent with
    | none => pure ⟨some { newConsent userId purpose policyVersion source now with
        id := db.userConsents.seq }, true⟩
    | some c => pure ⟨some (c.granted policyVersion source now), true⟩

def grant (userId : Int) (purpose : ConsentPurpose) (policyVersion source : String) :
    Db ConsentChange :=
  tryCatch (grantOnce userId purpose policyVersion source) fun e =>
    if e = .integrityError then do
      Tx.rollbackAll
      grantOnce userId purpose policyVersion source
    else throw e

/-- The flush of `revoke`. -/
def revokeFlush (c : UserConsent) (userId : Int) (purpose : ConsentPurpose) (source : String)
    (now : DateTime) : List Stmt :=
  [.updateUserConsent c.id (c.changes (c.withdrawn source now)),
   .insertConsentHistory (history userId purpose .revoke c.policyVersion source now)]

def revoke (userId : Int) (purpose : ConsentPurpose) (source : String) : Db ConsentChange := do
  match ← getCurrent userId purpose true with
  | none => pure ⟨none, false⟩
  | some c =>
      if c.status = .withdrawn then pure ⟨some c, false⟩
      else
        let now ← now
        let _ ← Tx.commitAll (revokeFlush c userId purpose source now)
        pure ⟨some (c.withdrawn source now), true⟩

def Database.grantedConsents (db : Database) (userId : Int) : List UserConsent :=
  db.userConsents.rows.filter fun c => c.userId = userId ∧ c.status = .granted

/-- What `withdraw_all` leaves to the flush of the caller's transaction. -/
def withdrawFlush (consents : List UserConsent) (userId : Int) (source : String) (now : DateTime) :
    List Stmt :=
  consents.map (fun c => .updateUserConsent c.id (c.changes (c.withdrawn source now))) ++
    consents.map fun c =>
      .insertConsentHistory (history userId c.purpose .revoke c.policyVersion source now)

def withdrawAll (userId : Int) (source : String) : Db (List Stmt × Nat) := do
  let consents := (← Tx.select).grantedConsents userId
  let now ← now
  pure (withdrawFlush consents userId source now, consents.length)

/-! ## Consents on record -/

def ConsentPurpose.all : List ConsentPurpose := [.marketingEmail, .optionalAnalytics, .personalization]

/-- The consents of a user in the order of their purposes. -/
def Database.consentsOf (db : Database) (userId : Int) : List UserConsent :=
  ConsentPurpose.all.flatMap fun purpose => db.consentsFor userId purpose

def listCurrent (userId : Int) : Db (List UserConsent) := do
  return (← Tx.select).consentsOf userId

def listHistory (userId : Int) : Db (List ConsentHistory) := do
  return (← Tx.select).consentHistory.rows.filter fun h => h.userId = userId

/-! ## The gate -/

structure GateDecision where
  allowed : Bool
  reason : String
  deriving DecidableEq, Repr

def decideGate (consent : Option UserConsent) (requiredVersion : String) : GateDecision :=
  match consent with
  | none => ⟨false, "no_consent_on_record"⟩
  | some c =>
      if c.status ≠ .granted then ⟨false, "consent_withdrawn"⟩
      else if c.policyVersion ≠ requiredVersion then ⟨false, "policy_version_mismatch"⟩
      else ⟨true, "granted"⟩

/-- `ConsentPolicyGate.check` -/
def ConsentPolicyGate.check (userId : Int) (purpose : ConsentPurpose) (requiredVersion : String) :
    Db GateDecision := do
  return decideGate (← getCurrent userId purpose false) requiredVersion

/-- The gate with its default version. -/
def checkConsent (userId : Int) (purpose : ConsentPurpose) : Db GateDecision := do
  ConsentPolicyGate.check userId purpose currentPolicyVersion

end FleetManagement
