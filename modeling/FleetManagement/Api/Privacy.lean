import FleetManagement.Services.Erasure
import FleetManagement.Services.Export
import FleetManagement.Services.Marketing

/-!
# The account and privacy routes

`auth`, `api.auth` and `api.privacy`. A token is modelled by the user id that
`decode_access_token` returns for it, or `none` where it raises.
-/

namespace FleetManagement

def unauthorized : Error := .http 401 "Not authenticated"

/-- `db.get(User, id)`, which answers from the identity map if it can. -/
def getUser (m : IdentityMap) (id : Int) : Db (Option User) :=
  match m.find id with
  | some user => pure (some user)
  | none => get Database.users id

def getCurrentUser (token : Option Int) : Db User := do
  match token with
  | none => throw unauthorized
  | some userId =>
      match ← get Database.users userId with
      | none => throw unauthorized
      | some user => if user.isActive then pure user else throw unauthorized

/-- `auth.require_roles` for one role. -/
def requireRole (role : UserRole) (token : Option Int) : Db User := do
  let user ← getCurrentUser token
  if user.role = role then pure user else throw (.http 403 "Insufficient permissions")

def requireAdmin (token : Option Int) : Db User := requireRole .admin token

/-! ## Correlation ids -/

/-- `^[A-Za-z0-9._-]{1,64}$`, where `$` also matches before a final newline. -/
def isCorrelationId (s : String) : Bool :=
  let body := if s.toList.getLast? = some '\n' then s.toList.dropLast else s.toList
  1 ≤ body.length ∧ body.length ≤ 64 ∧
    body.all fun c => c.isAlphanum || c = '.' || c = '_' || c = '-'

/-- The correlation id of a request, from its `X-Correlation-ID` header. -/
def acceptOrGenerate (incoming : Option String) : Db String := do
  match incoming with
  | some id => if isCorrelationId id then pure id else return (← uuid4).val
  | none => return (← uuid4).val

/-! ## Access to a subject -/

structure SubjectAccess where
  subject : User
  actor : User

def SubjectAccess.loaded (a : SubjectAccess) : IdentityMap := [a.actor, a.subject]

def subjectAccess (eventType : String) (token : Option Int) (userId : Int) (correlationId : String) :
    Db SubjectAccess := do
  let actor ← getCurrentUser token
  let allowed := actor.id = userId ∨ actor.role = .admin
  let subject ← if allowed then getUser [actor] userId else pure none
  match subject with
  | none =>
      recordAuditEvent eventType (some actor.id) (some userId)
        (if allowed then "not_found" else "denied") correlationId
      throw (.notFound "User not found")
  | some subject => pure ⟨subject, actor⟩

/-! ## Requests -/

def field (min max : Nat) (s : String) : Bool := min ≤ s.length ∧ s.length ≤ max

/-- `^\+?[0-9 ()-]{7,20}$` -/
def isPhone (s : String) : Bool :=
  let body := if s.toList.head? = some '+' then s.toList.tail else s.toList
  7 ≤ body.length ∧ body.length ≤ 20 ∧
    body.all fun c => c.isDigit || c = ' ' || c = '(' || c = ')' || c = '-'

def validate (ok : Bool) : Db Unit := if ok then pure () else throw .validationError

inductive PrivacyRequest where
  | register (email password fullName : String) (phone : Option String)
  | login (username password : String) (ipAddress userAgent : Option String)
  | createRenterProfile (token : Option Int) (userId : Int) (fullName licenseNumber : String)
  | grantConsent (token : Option Int) (userId : Int) (purpose : ConsentPurpose)
      (policyVersion source : String)
  | revokeConsent (token : Option Int) (userId : Int) (purpose : ConsentPurpose) (source : Option String)
  | queueMarketingEmail (token : Option Int) (userId : Int) (campaign : String)
  | trackAnalyticsEvent (token : Option Int) (userId : Int) (eventName : String)
  | dispatchMarketing (token : Option Int)
  | anonymize (token : Option Int) (userId : Int)
  deriving DecidableEq, Repr

inductive PrivacyResponse where
  | user (row : User)
  | token (userId : Int) (role : UserRole)
  | renter (renterId : Int)
  | consent (purpose : ConsentPurpose) (change : ConsentChange)
  | message (messageId : Int) (status : MarketingStatus)
  | event (eventId : Int)
  | dispatched (summary : DispatchSummary)
  | erasure (result : ErasureResult)
  deriving DecidableEq, Repr

def register (P : Platform) (email password fullName : String) (phone : Option String) : Db User := do
  match P.validateEmail email with
  | none => throw .validationError
  | some email =>
      validate (field 8 128 password && field 1 150 fullName && phone.all isPhone)
      createUser P email password fullName .user phone

def login (P : Platform) (username password : String) (ipAddress userAgent : Option String) :
    Db User := do
  match ← authenticate P username password with
  | none => throw (.http 401 "Incorrect email or password")
  | some user =>
      recordActivity user.id "login" ipAddress userAgent
      pure user

def newRenterProfile (userId : Int) (fullName licenseNumber : String) : Renter :=
  { id := 0, fullName, licenseNumber, userId := some userId }

def createRenterProfile (a : SubjectAccess) (fullName licenseNumber : String) : Db Int := do
  validate (field 1 150 fullName && field 1 50 licenseNumber)
  let renter := newRenterProfile a.subject.id fullName licenseNumber
  let db ← tryCatch (Tx.commitAll [.insertRenter renter]) fun e =>
    if e = .integrityError then do
      Tx.rollbackAll
      throw (.http 409 "Renter profile already exists or licence number is taken")
    else throw e
  pure db.renters.seq

def PrivacyRequest.handler (P : Platform) (correlationId : String) :
    PrivacyRequest → Db PrivacyResponse
  | .register email password fullName phone => do
      return .user (← FleetManagement.register P email password fullName phone)
  | .login username password ipAddress userAgent => do
      let user ← FleetManagement.login P username password ipAddress userAgent
      return .token user.id user.role
  | .createRenterProfile token userId fullName licenseNumber => do
      let a ← subjectAccess "renter_profile_create" token userId correlationId
      return .renter (← FleetManagement.createRenterProfile a fullName licenseNumber)
  | .grantConsent token userId purpose policyVersion source => do
      let a ← subjectAccess "consent_grant" token userId correlationId
      validate (field 1 20 policyVersion && field 1 50 source)
      return .consent purpose (← grant a.subject.id purpose policyVersion source)
  | .revokeConsent token userId purpose source => do
      let a ← subjectAccess "consent_revoke" token userId correlationId
      validate (source.all (field 1 50))
      return .consent purpose (← revoke a.subject.id purpose (source.getD "api"))
  | .queueMarketingEmail token userId campaign => do
      let a ← subjectAccess "marketing_email_request" token userId correlationId
      validate (field 1 64 campaign)
      let message ← enqueueMarketingEmail a.subject.id campaign a.actor.id correlationId
      return .message message.id message.status
  | .trackAnalyticsEvent token userId eventName => do
      let a ← subjectAccess "analytics_event_request" token userId correlationId
      validate (field 1 64 eventName)
      let event ← recordAnalyticsEvent a.subject.id eventName a.actor.id correlationId
      return .event event.id
  | .dispatchMarketing token => do
      let _ ← requireAdmin token
      return .dispatched (← dispatchPendingMarketing)
  | .anonymize token userId => do
      let a ← subjectAccess "user_anonymize" token userId correlationId
      return .erasure (← anonymizeUser P a.loaded a.subject.id a.actor.id correlationId)

structure ConsentOverview where
  current : List UserConsent
  history : List ConsentHistory
  deriving DecidableEq, Repr

/-- `GET /api/users/{user_id}/consents` -/
def listConsents (token : Option Int) (userId : Int) (correlationId : String) : Db ConsentOverview := do
  let a ← subjectAccess "consent_list" token userId correlationId
  let current ← listCurrent a.subject.id
  let history ← listHistory a.subject.id
  pure { current, history }

/-- `GET /api/users/{user_id}/personal-data` -/
def exportPersonalData (token : Option Int) (userId : Int) (correlationId : String) :
    Db PersonalDataExport := do
  let a ← subjectAccess "personal_data_export" token userId correlationId
  let exported ← buildExport a.subject
  recordAuditEvent "personal_data_export" (some a.actor.id) (some a.subject.id) "ok" correlationId
  pure exported

structure PrivacyCall where
  header : Option String
  request : PrivacyRequest
  deriving DecidableEq, Repr

def PrivacyCall.handler (P : Platform) (c : PrivacyCall) : Db PrivacyResponse := do
  c.request.handler P (← acceptOrGenerate c.header)

/-! ## One request after another -/

abbrev PrivacyAction := PrivacyCall × (Nat → Choice Draw Error)

def PrivacyAction.answer (P : Platform) (db : Database) (a : PrivacyAction) :
    Except Error PrivacyResponse :=
  ((a.1.handler P).eval dialect a.2 ⟨db, [], 0⟩).1

def servePrivacy (P : Platform) (db : Database) (a : PrivacyAction) : Database :=
  ((a.1.handler P).eval dialect a.2 ⟨db, [], 0⟩).2.store

end FleetManagement
