import FleetManagement.Api.Rentals
import FleetManagement.Privacy.Refusal

/-!
# The whole API

The remaining account routes, `api.admin`, `api.me`, `api.home` and the console command `create-admin`,
and the requests that can be at work at one time.
-/

namespace FleetManagement

/-- `GET /admin/users` -/
def listUsers (token : Option Int) : Db (List User) := do
  let _ ← requireAdmin token
  return (← Tx.select).users.rows

/-- `POST /admin/admins` -/
def createAdmin (P : Platform) (token : Option Int) (email password fullName : String)
    (phone : Option String) : Db User := do
  let _ ← requireAdmin token
  match P.validateEmail email with
  | none => throw .validationError
  | some email =>
      validate (field 8 128 password && field 1 150 fullName && phone.all isPhone)
      createUser P email password fullName .admin none

/-- The console command `create-admin`. -/
def createAdminCommand (P : Platform) (email password fullName : String) : Db User := do
  match P.validateEmail email with
  | none => throw .validationError
  | some email =>
      validate (8 ≤ password.length)
      createUser P email password fullName .admin none

def renterOf (user : User) : Db (Option Renter) := do
  scalarOneOrNone ((← Tx.select).rentersOf user.id)

/-- `GET /me/renter` -/
def myRenterProfile (token : Option Int) : Db Renter := do
  match ← renterOf (← getCurrentUser token) with
  | none => throw (.notFound "Renter profile not found")
  | some renter => pure renter

/-- `GET /me/rentals` -/
def myRentals (token : Option Int) : Db (List RentalRead) := do
  match ← renterOf (← getCurrentUser token) with
  | none => pure []
  | some renter =>
      rentalsWithCost (newestFirst ((← Tx.select).rentals.rows.filter fun r => r.renterId = renter.id))

inductive ApiRequest where
  | privacy (call : PrivacyCall)
  | subject (call : SubjectCall)
  | readMe (token : Option Int)
  | home (role : UserRole) (token : Option Int)
  | listUsers (token : Option Int)
  | createAdmin (token : Option Int) (email password fullName : String) (phone : Option String)
  | createAdminCommand (email password fullName : String)
  | myRenterProfile (token : Option Int)
  | myRentals (token : Option Int)
  | fleet (request : FleetRequest)
  deriving DecidableEq, Repr

inductive ApiResponse where
  | privacy (response : PrivacyResponse)
  | subject (response : SubjectResponse)
  | user (row : User)
  | users (rows : List User)
  | renter (row : Renter)
  | rentals (reads : List RentalRead)
  | fleet (read : FleetRead)
  deriving DecidableEq, Repr

def ApiRequest.handler (P : Platform) : ApiRequest → Db ApiResponse
  | .privacy call => do return .privacy (← call.handler P)
  | .subject call => do return .subject (← call.handler P)
  | .readMe token => do return .user (← getCurrentUser token)
  | .home role token => do return .user (← requireRole role token)
  | .listUsers token => do return .users (← FleetManagement.listUsers token)
  | .createAdmin token email password fullName phone => do
      return .user (← FleetManagement.createAdmin P token email password fullName phone)
  | .createAdminCommand email password fullName => do
      return .user (← FleetManagement.createAdminCommand P email password fullName)
  | .myRenterProfile token => do return .renter (← FleetManagement.myRenterProfile token)
  | .myRentals token => do return .rentals (← FleetManagement.myRentals token)
  | .fleet request => do return .fleet (← request.route)

/-- The user id of the token that the request carries. -/
def PrivacyRequest.token? : PrivacyRequest → Option Int
  | .register .. => none
  | .login .. => none
  | .createRenterProfile token .. => token
  | .grantConsent token .. => token
  | .revokeConsent token .. => token
  | .queueMarketingEmail token .. => token
  | .trackAnalyticsEvent token .. => token
  | .dispatchMarketing token => token
  | .anonymize token _ => token

def ApiRequest.token? : ApiRequest → Option Int
  | .privacy call => call.request.token?
  | .subject call => call.token
  | .readMe token => token
  | .home _ token => token
  | .listUsers token => token
  | .createAdmin token .. => token
  | .createAdminCommand .. => none
  | .myRenterProfile token => token
  | .myRentals token => token
  | .fleet _ => none

end FleetManagement
