import FleetManagement.Database

/-!
# Accounts, audit events and activity

`user_service` and `audit_service`. Password hashing, the validation of e-mail addresses and the Unicode
tables behind `str.strip` and `str.lower` are parameters.
-/

namespace FleetManagement

/-- What the services use of the libraries that are not part of the repository. -/
structure Platform where
  /-- `EmailStr`: the validated address. -/
  validateEmail : String → Option String
  strip : String → String
  lower : String → String
  /-- The hash of a password under a salt. -/
  hash : String → String → String
  verify : String → String → Bool

/-- A platform for examples: it accepts the addresses that it is given, and a hash ends in its salt. -/
def plainPlatform : Platform where
  validateEmail := some
  strip := id
  lower := id
  hash password salt := password ++ "$" ++ salt
  verify password hashed := (password ++ "$").toList.isPrefixOf hashed.toList

/-! ## `audit_service` -/

/-- The row that `add_audit_event` stages. -/
def auditEvent (eventType : String) (actorId subjectId : Option Int) (result correlationId : String)
    (occurredAt : DateTime) : AuditEvent :=
  { id := 0, eventType, actorId, subjectId, result, correlationId, occurredAt }

def recordAuditEvent (eventType : String) (actorId subjectId : Option Int)
    (result correlationId : String) : Db Unit := do
  let event := auditEvent eventType actorId subjectId result correlationId (← now)
  let _ ← Tx.commitAll [.insertAuditEvent event]

/-- `user_agent[:255] if user_agent else None` -/
def truncateUserAgent : Option String → Option String
  | none => none
  | some "" => none
  | some userAgent => some (String.ofList (userAgent.toList.take 255))

def recordActivity (userId : Int) (action : String) (ipAddress userAgent : Option String) : Db Unit := do
  let occurredAt ← now
  let _ ← Tx.commitAll [.insertUserActivity
    { id := 0, userId, action, occurredAt, ipAddress, userAgent := truncateUserAgent userAgent }]

/-! ## `user_service` -/

def normalizeEmail (P : Platform) (email : String) : String := P.lower (P.strip email)

def scalarOneOrNone {ρ : Type} : List ρ → Db (Option ρ)
  | [] => pure none
  | [row] => pure (some row)
  | _ => throw .multipleResultsFound

def getUserByEmail (P : Platform) (email : String) : Db (Option User) := do
  let db ← Tx.select
  scalarOneOrNone (db.users.rows.filter fun u => u.email = normalizeEmail P email)

def newUser (P : Platform) (email password fullName : String) (role : UserRole) (phone : Option String)
    (salt : String) (createdAt : DateTime) : User :=
  { id := 0, email := normalizeEmail P email, hashedPassword := P.hash password salt, fullName, role,
    phone, isActive := true, createdAt, anonymizedAt := none }

def createUser (P : Platform) (email password fullName : String) (role : UserRole)
    (phone : Option String) : Db User := do
  let salt := (← Tx.sample).salt
  let user := newUser P email password fullName role phone salt (← now)
  let db ← tryCatch (Tx.commitAll [.insertUser user]) fun e =>
    if e = .integrityError then do
      Tx.rollbackAll
      throw (.emailAlreadyRegistered s!"Email {user.email} is already registered")
    else throw e
  refresh Database.users db.users.seq

def authenticate (P : Platform) (email password : String) : Db (Option User) := do
  match ← getUserByEmail P email with
  | none => pure none
  | some user =>
      if !P.verify password user.hashedPassword || !user.isActive then pure none
      else pure (some user)

end FleetManagement
