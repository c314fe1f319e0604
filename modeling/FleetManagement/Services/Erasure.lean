import FleetManagement.Services.Consent

/-!
# The right to erasure

`erasure_service`: anonymization of an account in one transaction, and the identity map of the session
that runs it. A session keeps an entity as it first loaded it; later queries that return the row do not
overwrite it.
-/

namespace FleetManagement

/-- The `User` entities of a session, as they were when they were loaded. -/
abbrev IdentityMap := List User

def IdentityMap.find (m : IdentityMap) (id : Int) : Option User := List.find? (fun u => u.id = id) m

/-- The entity for a row that a query returned. -/
def IdentityMap.entity (m : IdentityMap) (row : User) : User := (m.find row.id).getD row

def anonymizedName : String := "Anonymized User"

def anonymousEmail (u : UuidHex) : String := "anon-" ++ u.val ++ "@anon.invalid"

def anonymousLicense (u : UuidHex) : String := "anon-" ++ u.val

/-- The columns of a user that a session has changed. -/
def User.changes (loaded u : User) : UserSet where
  email := dirty loaded.email u.email
  hashedPassword := dirty loaded.hashedPassword u.hashedPassword
  fullName := dirty loaded.fullName u.fullName
  phone := dirty loaded.phone u.phone
  isActive := dirty loaded.isActive u.isActive
  anonymizedAt := dirty loaded.anonymizedAt u.anonymizedAt

def Renter.changes (loaded r : Renter) : RenterSet where
  fullName := dirty loaded.fullName r.fullName
  licenseNumber := dirty loaded.licenseNumber r.licenseNumber

/-- A user as `_anonymize_user_row` leaves it. -/
def User.anonymize (u : User) (email hashedPassword : String) (now : DateTime) : User :=
  { u with email, fullName := anonymizedName, phone := none, hashedPassword, isActive := false,
           anonymizedAt := some now }

def Renter.anonymize (r : Renter) (licenseNumber : String) : Renter :=
  { r with fullName := anonymizedName, licenseNumber }

def anonymizeUserRow (P : Platform) (user : User) (now : DateTime) : Db User := do
  let email := anonymousEmail (← uuid4)
  let token := (← Tx.sample).token
  let salt := (← Tx.sample).salt
  pure (user.anonymize email (P.hash token salt) now)

def Database.rentersOf (db : Database) (userId : Int) : List Renter :=
  db.renters.rows.filter fun r => r.userId = some userId

def anonymizeRenters : List Renter → Db (List Stmt)
  | [] => pure []
  | r :: renters => do
      let changes := r.changes (r.anonymize (anonymousLicense (← uuid4)))
      return .updateRenter r.id changes :: (← anonymizeRenters renters)

def executeAll : List Stmt → Db Unit
  | [] => pure ()
  | w :: ws => do
      let _ ← Tx.execute w
      executeAll ws

structure ErasureActions where
  rentersAnonymized : Nat
  activityDeleted : Nat
  marketingMessagesDeleted : Nat
  analyticsEventsDeleted : Nat
  consentsWithdrawn : Nat
  deriving DecidableEq, Repr

/-- The anonymized entity, the statements left to the flush at the commit, and the counts. A query flushes
what was changed before it. -/
def erase (P : Platform) (user : User) (now : DateTime) : Db (User × List Stmt × ErasureActions) := do
  let anonymized ← anonymizeUserRow P user now
  let _ ← Tx.execute (.updateUser user.id (user.changes anonymized))
  let renters := (← Tx.select).rentersOf user.id
  executeAll (← anonymizeRenters renters)
  let activityDeleted ← Tx.execute (.deleteUserActivity user.id)
  let marketingMessagesDeleted ← Tx.execute (.deleteMarketingMessages user.id)
  let analyticsEventsDeleted ← Tx.execute (.deleteAnalyticsEvents user.id)
  let (staged, consentsWithdrawn) ← withdrawAll user.id "erasure"
  pure (anonymized, staged, { rentersAnonymized := renters.length, activityDeleted,
                              marketingMessagesDeleted, analyticsEventsDeleted, consentsWithdrawn })

inductive ErasureStatus where
  | anonymized | alreadyAnonymized
  deriving DecidableEq, Repr

structure ErasureResult where
  subject : User
  status : ErasureStatus
  actions : Option ErasureActions
  deriving DecidableEq, Repr

def anonymizeUser (P : Platform) (m : IdentityMap) (subjectId actorId : Int) (correlationId : String) :
    Db ErasureResult := do
  integerParameter subjectId
  let db ← Tx.selectForUpdate fun _ => [.user subjectId]
  match db.users.find? subjectId with
  | none => throw (.notFound "User not found")
  | some row =>
      let subject := m.entity row
      if subject.anonymizedAt.isSome then
        recordAuditEvent "user_anonymize" (some actorId) (some subject.id) "already_anonymized"
          correlationId
        pure ⟨subject, .alreadyAnonymized, none⟩
      else
        tryCatch
          (do
            let (anonymized, staged, actions) ← erase P subject (← now)
            let event := auditEvent "user_anonymize" (some actorId) (some subject.id) "anonymized"
              correlationId (← now)
            let _ ← Tx.commitAll (staged ++ [.insertAuditEvent event])
            pure ⟨anonymized, .anonymized, some actions⟩)
          fun e => do
            Tx.rollbackAll
            throw e

end FleetManagement
