import FleetManagement.Lemmas.FleetOutcomes
import FleetManagement.Privacy.Exports
import FleetManagement.Privacy.Requests

/-!
# The grounds of every refusal

The error handlers of `main`, and the grounds on which each request may be refused. Every refusal has its
ground in a state of the run, and the generic answer 500 is given only where the database has raised.
-/

namespace FleetManagement

variable {P : Platform} {V : Database → Prop} {B : Error → Prop} {db s : Database}

/-! ## Error handlers -/

structure JSONResponse where
  statusCode : Nat
  content : List (String × String)
  deriving DecidableEq, Repr

/-- The handlers that `_register_error_handlers` registers, and those of the framework. The latter lists
what is wrong with an invalid body, which is no part of the model. -/
def handleError (requestId : UuidHex) : Error → JSONResponse
  | .notFound detail => ⟨404, [("detail", detail)]⟩
  | .vehicleNotAvailable detail => ⟨409, [("detail", detail)]⟩
  | .stationFull detail => ⟨409, [("detail", detail)]⟩
  | .emailAlreadyRegistered detail => ⟨409, [("detail", detail)]⟩
  | .consentDenied purpose reason =>
      ⟨403, [("decision", "DENY"), ("purpose", purpose), ("reason", reason)]⟩
  | .http status detail => ⟨status, [("detail", detail)]⟩
  | .validationError => ⟨422, []⟩
  -- `handle_unexpected`
  | _ => ⟨500, [("detail", "Internal server error"), ("request_id", requestId.val)]⟩

/-! ## Grounds -/

section Grounds
variable (P V) (e : Error)

def NotAuthenticated (token : Option Int) : Prop := Unauthenticated V token ∧ e = unauthorized

def NoAccess (token : Option Int) (userId : Int) : Prop :=
  NotAuthenticated V e token ∨ Hidden V token userId ∧ e = .notFound "User not found"

def NoRole (token : Option Int) (role : UserRole) : Prop :=
  NotAuthenticated V e token ∨ HasOtherRole V token role ∧ e = .http 403 "Insufficient permissions"

def Invalid (ok : Bool) : Prop := ok = false ∧ e = .validationError

def AddressTaken (email : String) : Prop :=
  ∃ address, P.validateEmail email = some address ∧ EmailTaken V (normalizeEmail P address) ∧
    e = .emailAlreadyRegistered s!"Email {normalizeEmail P address} is already registered"

def BadCredentials (username password : String) : Prop :=
  (∃ t, V t ∧ ∀ user ∈ t.users.rows, user.email = normalizeEmail P username →
    P.verify password user.hashedPassword = false ∨ user.isActive = false) ∧
  e = .http 401 "Incorrect email or password"

def NoConsent (userId : Int) (purpose : ConsentPurpose) : Prop :=
  ∃ reason, GateDenies V userId purpose reason ∧ e = .consentDenied purpose.value reason

/-- A queued message or an event may be erased before it is read again. -/
def ErasedMeanwhile : Prop := e = .staleDataError

def PrivacyRequest.Grounds : PrivacyRequest → Prop
  | .register email password fullName phone =>
      Invalid e ((P.validateEmail email).isSome &&
        (field 8 128 password && field 1 150 fullName && phone.all isPhone)) ∨ AddressTaken P V e email
  | .login username password _ _ => BadCredentials P V e username password
  | .createRenterProfile token userId fullName licenseNumber =>
      NoAccess V e token userId ∨ Invalid e (field 1 150 fullName && field 1 50 licenseNumber) ∨
        ProfileTaken V userId licenseNumber ∧
          e = .http 409 "Renter profile already exists or licence number is taken"
  | .grantConsent token userId _ policyVersion source =>
      NoAccess V e token userId ∨ Invalid e (field 1 20 policyVersion && field 1 50 source)
  | .revokeConsent token userId _ source =>
      NoAccess V e token userId ∨ Invalid e (source.all (field 1 50))
  | .queueMarketingEmail token userId campaign =>
      NoAccess V e token userId ∨ Invalid e (field 1 64 campaign) ∨ NoConsent V e userId .marketingEmail ∨
        ErasedMeanwhile e
  | .trackAnalyticsEvent token userId eventName =>
      NoAccess V e token userId ∨ Invalid e (field 1 64 eventName) ∨ NoConsent V e userId .optionalAnalytics ∨
        ErasedMeanwhile e
  | .dispatchMarketing token => NoRole V e token .admin ∨ ErasedMeanwhile e
  -- The transaction of an erasure is rejected as a whole.
  | .anonymize token userId => NoAccess V e token userId ∨ e.ofDatabase = true

def SubjectRequest.Grounds (token : Option Int) (userId : Int) : SubjectRequest → Prop
  | .exportPersonalData => NoAccess V e token userId
  | .listConsents => NoAccess V e token userId
  | .anonymize => PrivacyRequest.Grounds P V e (.anonymize token userId)
  | .createRenterProfile fullName licenseNumber =>
      PrivacyRequest.Grounds P V e (.createRenterProfile token userId fullName licenseNumber)
  | .grantConsent purpose policyVersion source =>
      PrivacyRequest.Grounds P V e (.grantConsent token userId purpose policyVersion source)
  | .revokeConsent purpose source =>
      PrivacyRequest.Grounds P V e (.revokeConsent token userId purpose source)
  | .queueMarketingEmail campaign => PrivacyRequest.Grounds P V e (.queueMarketingEmail token userId campaign)
  | .trackAnalyticsEvent eventName =>
      PrivacyRequest.Grounds P V e (.trackAnalyticsEvent token userId eventName)

def NoStation (stationId : Int) : Prop :=
  (∃ t, V t ∧ t.stations.find? stationId = none) ∧ e = .notFound s!"Station {stationId} not found"

/-- A duplicate plate or licence and an unknown renter are left to the constraints of the database. -/
def FleetRequest.Grounds : FleetRequest → Prop
  | .createStation .. => False
  | .createVehicle licensePlate _ stationId => NoStation V e stationId ∨
      (∃ t, V t ∧ ∃ v ∈ t.vehicles.rows, v.licensePlate = licensePlate) ∧ e = .integrityError
  | .createRenter _ licenseNumber =>
      (∃ t, V t ∧ ∃ r ∈ t.renters.rows, r.licenseNumber = licenseNumber) ∧ e = .integrityError
  | .rental (.startRental renterId vehicleId) =>
      (∃ t, V t ∧ t.vehicles.find? vehicleId = none) ∧ e = .notFound s!"Vehicle {vehicleId} not found" ∨
      (∃ t vehicle, V t ∧ t.vehicles.find? vehicleId = some vehicle ∧ vehicle.status ≠ .available) ∧
        e = .vehicleNotAvailable s!"Vehicle {vehicleId} is not available" ∨
      (∃ t, V t ∧ t.renters.find? renterId = none) ∧ e = .integrityError
  | .rental (.endRental rentalId stationId) =>
      (∃ t, V t ∧ t.rentals.find? rentalId = none) ∧ e = .notFound s!"Rental {rentalId} not found" ∨
      (∃ t rental, V t ∧ t.rentals.find? rentalId = some rental ∧ rental.status ≠ .active) ∧
        e = .vehicleNotAvailable s!"Rental {rentalId} is not active" ∨
      NoStation V e stationId ∨
      StationFull V stationId ∧ e = .stationFull s!"Station {stationId} has no free slots"

def ApiRequest.Grounds : ApiRequest → Prop
  | .privacy call => call.request.Grounds P V e
  | .subject call => call.request.Grounds P V e call.token call.userId
  | .readMe token => NotAuthenticated V e token
  | .home role token => NoRole V e token role
  | .listUsers token => NoRole V e token .admin
  | .createAdmin token email password fullName phone => NoRole V e token .admin ∨
      Invalid e ((P.validateEmail email).isSome &&
        (field 8 128 password && field 1 150 fullName && phone.all isPhone)) ∨ AddressTaken P V e email
  | .createAdminCommand email password _ =>
      Invalid e ((P.validateEmail email).isSome && decide (8 ≤ password.length)) ∨ AddressTaken P V e email
  | .myRenterProfile token => NotAuthenticated V e token ∨
      (∃ t userId, V t ∧ token = some userId ∧ ∀ r ∈ t.renters.rows, r.userId ≠ some userId) ∧
        e = .notFound "Renter profile not found"
  | .myRentals token => NotAuthenticated V e token
  | .fleet request => request.Grounds V e

end Grounds

/-- The request may be refused with the error `e`, where the steps that fail raise what `B` allows. -/
def ApiRequest.Refused (P : Platform) (V : Database → Prop) (B : Error → Prop) (e : Error) (r : ApiRequest) :
    Prop :=
  e = .dataError ∨ B e ∨ r.Grounds P V e

/-! ## What each request raises -/

section Handlers
variable {E : Error → Database → Prop}

theorem among_uuid4 {Q : UuidHex → Database → List Stmt → Prop} (h : ∀ u, Q u s []) :
    Among V B E Q uuid4 s [] := Tx.rely_bind (Tx.rely_sample fun d => h d.uuid)

theorem among_acceptOrGenerate {header : Option String} {Q : String → Database → List Stmt → Prop}
    (h : ∀ id, Correlates header id → Q id s []) : Among V B E Q (acceptOrGenerate header) s [] := by
  unfold acceptOrGenerate
  cases header with
  | none => exact Tx.rely_bind (among_uuid4 fun u => h u.val fun hno => by cases hno)
  | some id =>
      simp only
      split
      · exact h id fun _ => rfl
      · rename_i hno
        exact Tx.rely_bind (among_uuid4 fun u => h u.val fun hyes => absurd hyes hno)

theorem among_register (hE : Tolerates B E) (hB : ¬ B .integrityError) {role : UserRole}
    {email password fullName : String} {phone : Option String} {ok : Bool}
    {Q : User → Database → List Stmt → Prop}
    (hinvalid : ∀ t, ((P.validateEmail email).isSome && ok) = false → E .validationError t)
    (htaken : ∀ e t, AddressTaken P V e email → E e t) (h : ∀ user u, Q user u []) :
    Among V B E Q (match P.validateEmail email with
      | none => throw .validationError
      | some email => do
          validate ok
          createUser P email password fullName role phone) s [] := by
  cases hemail : P.validateEmail email with
  | none => exact hinvalid s (by simp [hemail])
  | some address =>
      refine Tx.rely_bind (among_validate (fun _ => ?_) fun hok => hinvalid s (by simp [hok]))
      exact among_createUser hE hB (fun ht t => htaken _ t ⟨address, hemail, ht, rfl⟩) h

theorem among_privacyHandler (hE : Tolerates B E) (hB : ¬ B .integrityError) {correlationId : String}
    (r : PrivacyRequest) {Q : PrivacyResponse → Database → List Stmt → Prop}
    (hG : ∀ e t, r.Grounds P V e → E e t) (h : ∀ response u, Q response u []) :
    Among V B E Q (r.handler P correlationId) s [] := by
  cases r with
  | register email password fullName phone =>
      refine Tx.rely_bind (among_register hE hB (fun t hno => hG _ t (Or.inl ⟨hno, rfl⟩))
        (fun e t ht => hG e t (Or.inr ht)) fun user u => h _ u)
  | login username password ipAddress userAgent =>
      refine Tx.rely_bind (among_login hE (fun t hV hbad => hG _ t ⟨⟨t, hV, hbad⟩, rfl⟩) fun user u => h _ u)
  | createRenterProfile token userId fullName licenseNumber =>
      refine Tx.rely_bind (among_subjectAccess hE (fun hno t => hG _ t (Or.inl (Or.inl ⟨hno, rfl⟩)))
        (fun hno t => hG _ t (Or.inl (Or.inr ⟨hno, rfl⟩))) fun t a _ hid _ huser => ?_)
      refine Tx.rely_bind (among_createRenterProfile hE hB (hid ▸ huser)
        (fun hno => hG _ t (Or.inr (Or.inl ⟨hno, rfl⟩))) (fun ht t => ?_) fun i u => h _ u)
      exact hG _ t (Or.inr (Or.inr ⟨hid ▸ ht, rfl⟩))
  | grantConsent token userId purpose policyVersion source =>
      refine Tx.rely_bind (among_subjectAccess hE (fun hno t => hG _ t (Or.inl (Or.inl ⟨hno, rfl⟩)))
        (fun hno t => hG _ t (Or.inl (Or.inr ⟨hno, rfl⟩))) fun t a _ hid _ huser => ?_)
      refine Tx.rely_bind (among_validate (fun _ => ?_) fun hno => hG _ t (Or.inr ⟨hno, rfl⟩))
      exact Tx.rely_bind (among_grant hE hB (hid ▸ huser) fun change u => h _ u)
  | revokeConsent token userId purpose source =>
      refine Tx.rely_bind (among_subjectAccess hE (fun hno t => hG _ t (Or.inl (Or.inl ⟨hno, rfl⟩)))
        (fun hno t => hG _ t (Or.inl (Or.inr ⟨hno, rfl⟩))) fun t a _ hid _ huser => ?_)
      refine Tx.rely_bind (among_validate (fun _ => ?_) fun hno => hG _ t (Or.inr ⟨hno, rfl⟩))
      exact Tx.rely_bind (among_revoke hE (hid ▸ huser) fun change u => h _ u)
  | queueMarketingEmail token userId campaign =>
      refine Tx.rely_bind (among_subjectAccess hE (fun hno t => hG _ t (Or.inl (Or.inl ⟨hno, rfl⟩)))
        (fun hno t => hG _ t (Or.inl (Or.inr ⟨hno, rfl⟩))) fun t a _ hid _ huser => ?_)
      refine Tx.rely_bind (among_validate (fun _ => ?_) fun hno => hG _ t (Or.inr (Or.inl ⟨hno, rfl⟩)))
      refine Tx.rely_bind (among_enqueueMarketingEmail hE (hid ▸ huser) (fun reason hdeny t => ?_)
        (fun t => hG _ t (Or.inr (Or.inr (Or.inr rfl)))) fun message u => h _ u)
      exact hG _ t (Or.inr (Or.inr (Or.inl ⟨reason, hid ▸ hdeny, rfl⟩)))
  | trackAnalyticsEvent token userId eventName =>
      refine Tx.rely_bind (among_subjectAccess hE (fun hno t => hG _ t (Or.inl (Or.inl ⟨hno, rfl⟩)))
        (fun hno t => hG _ t (Or.inl (Or.inr ⟨hno, rfl⟩))) fun t a _ hid _ huser => ?_)
      refine Tx.rely_bind (among_validate (fun _ => ?_) fun hno => hG _ t (Or.inr (Or.inl ⟨hno, rfl⟩)))
      refine Tx.rely_bind (among_recordAnalyticsEvent hE (hid ▸ huser) (fun reason hdeny t => ?_)
        (fun t => hG _ t (Or.inr (Or.inr (Or.inr rfl)))) fun event u => h _ u)
      exact hG _ t (Or.inr (Or.inr (Or.inl ⟨reason, hid ▸ hdeny, rfl⟩)))
  | dispatchMarketing token =>
      refine Tx.rely_bind (among_requireAdmin hE (fun hno t => hG _ t (Or.inl (Or.inl ⟨hno, rfl⟩)))
        (fun hno t => hG _ t (Or.inl (Or.inr ⟨hno, rfl⟩))) fun t actor _ _ => ?_)
      exact Tx.rely_bind (among_dispatchPendingMarketing hE (fun t => hG _ t (Or.inr rfl)) fun summary u => h _ u)
  | anonymize token userId =>
      refine Tx.rely_bind (among_subjectAccess hE (fun hno t => hG _ t (Or.inl (Or.inl ⟨hno, rfl⟩)))
        (fun hno t => hG _ t (Or.inl (Or.inr ⟨hno, rfl⟩))) fun t a _ hid _ huser => ?_)
      have hall : ToleratesAll B E := ⟨fun e t he => hG e t (Or.inr he), hE.fault⟩
      exact Tx.rely_bind (among_anonymizeUser hall (hid ▸ huser) fun result u => h _ u)

theorem among_listConsents (hE : Tolerates B E) {token : Option Int} {userId : Int} {correlationId : String}
    {Q : ConsentOverview → Database → List Stmt → Prop}
    (hdeny : Unauthenticated V token → ∀ t, E unauthorized t)
    (hhidden : Hidden V token userId → ∀ t, E (.notFound "User not found") t) (h : ∀ overview u, Q overview u []) :
    Among V B E Q (listConsents token userId correlationId) s [] := by
  unfold listConsents
  refine Tx.rely_bind (among_subjectAccess hE hdeny hhidden fun t a _ _ _ _ => ?_)
  refine Tx.rely_bind (Tx.rely_bind (among_select hE fun t₁ _ _ _ => Tx.rely_bind (Tx.rely_bind ?_)))
  exact among_select hE fun t₂ _ _ _ => h _ t₂

theorem among_subjectHandler (hE : Tolerates B E) (hB : ¬ B .integrityError) {token : Option Int} {userId : Int}
    {correlationId : String} (r : SubjectRequest) {Q : SubjectResponse → Database → List Stmt → Prop}
    (hG : ∀ e t, r.Grounds P V e token userId → E e t)
    (hexport : ∀ e u, r = .exportPersonalData → ExportedAmong V userId e → Q (.personalData e) u [])
    (hlist : ∀ overview u, Q (.consents overview) u []) (h : ∀ response u, Q (.privacy response) u []) :
    Among V B E Q (r.handler P token userId correlationId) s [] := by
  cases r with
  | exportPersonalData =>
      exact Tx.rely_bind (among_exportPersonalData hE (fun hno t => hG _ t (Or.inl ⟨hno, rfl⟩))
        (fun hno t => hG _ t (Or.inr ⟨hno, rfl⟩)) fun e u he => hexport e u rfl he)
  | listConsents =>
      exact Tx.rely_bind (among_listConsents hE (fun hno t => hG _ t (Or.inl ⟨hno, rfl⟩))
        (fun hno t => hG _ t (Or.inr ⟨hno, rfl⟩)) fun overview u => hlist overview u)
  | anonymize => exact Tx.rely_bind (among_privacyHandler hE hB _ hG fun response u => h response u)
  | createRenterProfile fullName licenseNumber =>
      exact Tx.rely_bind (among_privacyHandler hE hB _ hG fun response u => h response u)
  | grantConsent purpose policyVersion source =>
      exact Tx.rely_bind (among_privacyHandler hE hB _ hG fun response u => h response u)
  | revokeConsent purpose source =>
      exact Tx.rely_bind (among_privacyHandler hE hB _ hG fun response u => h response u)
  | queueMarketingEmail campaign =>
      exact Tx.rely_bind (among_privacyHandler hE hB _ hG fun response u => h response u)
  | trackAnalyticsEvent eventName =>
      exact Tx.rely_bind (among_privacyHandler hE hB _ hG fun response u => h response u)

theorem among_renterOf (hE : Tolerates B E) {user : User} {Q : Option Renter → Database → List Stmt → Prop}
    (h : ∀ t o, V t → (∀ r, o = some r ↔ r ∈ t.renters.rows ∧ r.userId = some user.id) → Q o t []) :
    Among V B E Q (renterOf user) s [] := by
  refine Tx.rely_bind (among_select hE fun t ht hV _ => ?_)
  exact among_scalarOneOrNone (rentersOf_toList ht.unique user.id) fun o ho => h t o hV (mem_rentersOf ho)

theorem among_rentalsWithCost {rentals : List Rental} {Q : List RentalRead → Database → List Stmt → Prop}
    (h : ∀ reads, Q reads s []) : Among V B E Q (rentalsWithCost rentals) s [] := by
  induction rentals generalizing Q with
  | nil => exact h []
  | cons r rentals ih =>
      have hcost : ∀ {Q : RentalRead → Database → List Stmt → Prop}, (∀ read, Q read s []) →
          Among V B E Q (rentalWithCost r) s [] := by
        intro Q hQ
        unfold rentalWithCost
        split
        · exact hQ _
        · cases r.endedAt with
          | none => exact Tx.rely_bind (among_now fun t => hQ _)
          | some endedAt => exact hQ _
      exact Tx.rely_bind (hcost fun read => Tx.rely_bind (ih fun reads => h _))

theorem among_route (hE : Tolerates B E) (r : FleetRequest) {Q : FleetRead → Database → List Stmt → Prop}
    (hG : ∀ e t, r.Grounds V e → E e t) (h : ∀ read u, Q read u []) :
    Among V B E Q r.route s [] := by
  unfold FleetRequest.route
  cases r with
  | createStation address capacity =>
      exact Tx.rely_bind (Tx.rely_bind (among_createStation hE fun row u => h _ u))
  | createVehicle licensePlate model stationId =>
      exact Tx.rely_bind (Tx.rely_bind (among_createVehicle hE (fun hno t => hG _ t (Or.inl ⟨hno, rfl⟩))
        (fun ht t => hG _ t (Or.inr ⟨ht, rfl⟩)) fun row u => h _ u))
  | createRenter fullName licenseNumber =>
      exact Tx.rely_bind (Tx.rely_bind (among_createRenter hE (fun ht t => hG _ t ⟨ht, rfl⟩) fun row u => h _ u))
  | rental request =>
      cases request with
      | startRental renterId vehicleId =>
          exact Tx.rely_bind (Tx.rely_bind (among_startRental hE (fun hno t => hG _ t (Or.inl ⟨hno, rfl⟩))
            (fun hbusy t => hG _ t (Or.inr (Or.inl ⟨hbusy, rfl⟩)))
            (fun hno t => hG _ t (Or.inr (Or.inr ⟨hno, rfl⟩))) fun row u => h _ u))
      | endRental rentalId stationId =>
          refine Tx.rely_bind (Tx.rely_bind (among_endRental hE (fun hno t => hG _ t (Or.inl ⟨hno, rfl⟩))
            (fun hover t => hG _ t (Or.inr (Or.inl ⟨hover, rfl⟩)))
            (fun hno t => hG _ t (Or.inr (Or.inr (Or.inl ⟨hno, rfl⟩))))
            (fun hfull t => hG _ t (Or.inr (Or.inr (Or.inr ⟨hfull, rfl⟩)))) fun row u hended => ?_))
          obtain ⟨endedAt, hended⟩ := Option.ne_none_iff_exists'.mp hended
          have hread : FleetRequest.read (.rental (.endRental rentalId stationId)) (.rental row) =
              .ret (.rental (.modelValidate row (some (calculateCost row.startedAt endedAt)))) := by
            simp [FleetRequest.read, endedRead, hended]
          show Among V B E Q (FleetRequest.read (.rental (.endRental rentalId stationId)) (.rental row)) u []
          rw [hread]
          exact h _ u

/-- However a request ends among others: what it raises is one of its refusals, and what it exports is what
there was to export. -/
theorem among_handler (hB : ¬ B .integrityError) (r : ApiRequest) :
    Among V B (fun e _ => r.Refused P V B e) (fun response _ _ => Exports V r response) (r.handler P) s [] := by
  have hE : Tolerates B fun e (_ : Database) => r.Refused P V B e :=
    ⟨fun _ => Or.inl rfl, fun _ _ he => Or.inr (Or.inl he)⟩
  have hG : ∀ e (_ : Database), r.Grounds P V e → r.Refused P V B e := fun _ _ he => Or.inr (Or.inr he)
  cases r with
  | privacy call =>
      refine Tx.rely_bind (Tx.rely_bind (among_acceptOrGenerate fun id _ => ?_))
      exact among_privacyHandler hE hB call.request hG fun response u e he => by cases he
  | subject call =>
      refine Tx.rely_bind (Tx.rely_bind (among_acceptOrGenerate fun id _ => ?_))
      refine among_subjectHandler hE hB call.request hG (fun e u hr he e' heq => ?_)
        (fun overview u e he => by cases he) fun response u e he => by cases he
      cases heq
      obtain ⟨header, token, userId, request⟩ := call
      exact ⟨header, token, userId, congrArg _ (congrArg _ hr), he⟩
  | readMe token =>
      exact Tx.rely_bind (among_getCurrentUser hE (fun hno t => hG _ t ⟨hno, rfl⟩)
        fun t actor _ _ _ _ e he => by cases he)
  | home role token =>
      exact Tx.rely_bind (among_requireRole hE (fun hno t => hG _ t (Or.inl ⟨hno, rfl⟩))
        (fun hno t => hG _ t (Or.inr ⟨hno, rfl⟩)) fun t actor _ _ e he => by cases he)
  | listUsers token =>
      refine Tx.rely_bind (Tx.rely_bind (among_requireAdmin hE (fun hno t => hG _ t (Or.inl ⟨hno, rfl⟩))
        (fun hno t => hG _ t (Or.inr ⟨hno, rfl⟩)) fun t actor _ _ => Tx.rely_bind ?_))
      exact among_select hE fun t _ _ _ e he => by cases he
  | createAdmin token email password fullName phone =>
      refine Tx.rely_bind (Tx.rely_bind (among_requireAdmin hE (fun hno t => hG _ t (Or.inl (Or.inl ⟨hno, rfl⟩)))
        (fun hno t => hG _ t (Or.inl (Or.inr ⟨hno, rfl⟩))) fun t actor _ _ => ?_))
      exact among_register hE hB (fun t hno => hG _ t (Or.inr (Or.inl ⟨hno, rfl⟩)))
        (fun e t ht => hG e t (Or.inr (Or.inr ht))) fun user u e he => by cases he
  | createAdminCommand email password fullName =>
      exact Tx.rely_bind (among_register hE hB (fun t hno => hG _ t (Or.inl ⟨hno, rfl⟩))
        (fun e t ht => hG e t (Or.inr ht)) fun user u e he => by cases he)
  | myRenterProfile token =>
      refine Tx.rely_bind (Tx.rely_bind (among_getCurrentUser hE (fun hno t => hG _ t (Or.inl ⟨hno, rfl⟩))
        fun t actor _ _ htoken _ => Tx.rely_bind (among_renterOf hE fun t' o hV hmem => ?_)))
      cases o with
      | none =>
          refine hG _ t' (Or.inr ⟨⟨t', actor.id, hV, htoken, fun r hr huser => ?_⟩, rfl⟩)
          exact absurd ((hmem r).mpr ⟨hr, huser⟩) nofun
      | some renter => exact fun e he => by cases he
  | myRentals token =>
      refine Tx.rely_bind (Tx.rely_bind (among_getCurrentUser hE (fun hno t => hG _ t ⟨hno, rfl⟩)
        fun t actor _ _ htoken _ => Tx.rely_bind (among_renterOf hE fun t' o hV hmem => ?_)))
      cases o with
      | none => exact fun e he => by cases he
      | some renter =>
          refine Tx.rely_bind (among_select hE fun t'' _ _ _ => among_rentalsWithCost fun reads => ?_)
          exact fun e he => by cases he
  | fleet request =>
      exact Tx.rely_bind (among_route hE request hG fun read u e he => by cases he)

end Handlers

/-! ## Answers of the error handlers -/

section Expected
variable {e : Error}

/-- The error has a handler of its own, unless the database has raised it. -/
def Error.Expected (e : Error) : Prop :=
  ∀ requestId, (handleError requestId e).statusCode = 500 ↔ e.ofDatabase = true

theorem NotAuthenticated.expected {token : Option Int} (h : NotAuthenticated V e token) : e.Expected := by
  obtain ⟨-, rfl⟩ := h
  simp [Error.Expected, handleError, unauthorized, Error.ofDatabase]

theorem NoAccess.expected {token : Option Int} {userId : Int} (h : NoAccess V e token userId) :
    e.Expected := by
  rcases h with h | ⟨-, rfl⟩
  · exact h.expected
  · simp [Error.Expected, handleError, Error.ofDatabase]

theorem NoRole.expected {token : Option Int} {role : UserRole} (h : NoRole V e token role) : e.Expected := by
  rcases h with h | ⟨-, rfl⟩
  · exact h.expected
  · simp [Error.Expected, handleError, Error.ofDatabase]

theorem Invalid.expected {ok : Bool} (h : Invalid e ok) : e.Expected := by
  obtain ⟨-, rfl⟩ := h
  simp [Error.Expected, handleError, Error.ofDatabase]

theorem AddressTaken.expected {email : String} (h : AddressTaken P V e email) : e.Expected := by
  obtain ⟨address, -, -, rfl⟩ := h
  simp [Error.Expected, handleError, Error.ofDatabase]

theorem NoConsent.expected {userId : Int} {purpose : ConsentPurpose} (h : NoConsent V e userId purpose) :
    e.Expected := by
  obtain ⟨reason, -, rfl⟩ := h
  simp [Error.Expected, handleError, Error.ofDatabase]

theorem expected_of_database (h : e.ofDatabase = true) : e.Expected := by
  cases e <;> simp_all [Error.Expected, handleError, Error.ofDatabase]

theorem PrivacyRequest.expected {r : PrivacyRequest} (h : r.Grounds P V e) : e.Expected := by
  cases r with
  | register => exact h.elim Invalid.expected AddressTaken.expected
  | login =>
      obtain ⟨-, rfl⟩ := h
      simp [Error.Expected, handleError, Error.ofDatabase]
  | createRenterProfile =>
      rcases h with h | h | ⟨-, rfl⟩
      · exact h.expected
      · exact h.expected
      · simp [Error.Expected, handleError, Error.ofDatabase]
  | grantConsent => exact h.elim NoAccess.expected Invalid.expected
  | revokeConsent => exact h.elim NoAccess.expected Invalid.expected
  | queueMarketingEmail =>
      rcases h with h | h | h | rfl
      · exact h.expected
      · exact h.expected
      · exact h.expected
      · exact expected_of_database rfl
  | trackAnalyticsEvent =>
      rcases h with h | h | h | rfl
      · exact h.expected
      · exact h.expected
      · exact h.expected
      · exact expected_of_database rfl
  | dispatchMarketing =>
      rcases h with h | rfl
      · exact h.expected
      · exact expected_of_database rfl
  | anonymize => exact h.elim NoAccess.expected expected_of_database

theorem SubjectRequest.expected {r : SubjectRequest} {token : Option Int} {userId : Int}
    (h : r.Grounds P V e token userId) : e.Expected := by
  cases r with
  | exportPersonalData => exact NoAccess.expected h
  | listConsents => exact NoAccess.expected h
  | anonymize => exact PrivacyRequest.expected (P := P) (r := .anonymize token userId) h
  | createRenterProfile fullName licenseNumber =>
      exact PrivacyRequest.expected (P := P) (r := .createRenterProfile token userId fullName licenseNumber) h
  | grantConsent purpose policyVersion source =>
      exact PrivacyRequest.expected (P := P) (r := .grantConsent token userId purpose policyVersion source) h
  | revokeConsent purpose source =>
      exact PrivacyRequest.expected (P := P) (r := .revokeConsent token userId purpose source) h
  | queueMarketingEmail campaign =>
      exact PrivacyRequest.expected (P := P) (r := .queueMarketingEmail token userId campaign) h
  | trackAnalyticsEvent eventName =>
      exact PrivacyRequest.expected (P := P) (r := .trackAnalyticsEvent token userId eventName) h

theorem FleetRequest.expected {r : FleetRequest} (h : r.Grounds V e) : e.Expected := by
  cases r with
  | createStation => exact h.elim
  | createVehicle => rcases h with ⟨-, rfl⟩ | ⟨-, rfl⟩ <;> simp [Error.Expected, handleError, Error.ofDatabase]
  | createRenter =>
      obtain ⟨-, rfl⟩ := h
      simp [Error.Expected, handleError, Error.ofDatabase]
  | rental request =>
      cases request with
      | startRental =>
          rcases h with ⟨-, rfl⟩ | ⟨-, rfl⟩ | ⟨-, rfl⟩ <;> simp [Error.Expected, handleError, Error.ofDatabase]
      | endRental =>
          rcases h with ⟨-, rfl⟩ | ⟨-, rfl⟩ | ⟨-, rfl⟩ | ⟨-, rfl⟩ <;>
            simp [Error.Expected, handleError, Error.ofDatabase]

theorem ApiRequest.expected {r : ApiRequest} (h : r.Grounds P V e) : e.Expected := by
  cases r with
  | privacy call => exact PrivacyRequest.expected h
  | subject call => exact SubjectRequest.expected h
  | readMe => exact NotAuthenticated.expected h
  | home => exact NoRole.expected h
  | listUsers => exact NoRole.expected h
  | createAdmin =>
      rcases h with h | h | h
      · exact h.expected
      · exact h.expected
      · exact h.expected
  | createAdminCommand => exact h.elim Invalid.expected AddressTaken.expected
  | myRenterProfile =>
      rcases h with h | ⟨-, rfl⟩
      · exact h.expected
      · simp [Error.Expected, handleError, Error.ofDatabase]
  | myRentals => exact NotAuthenticated.expected h
  | fleet request => exact FleetRequest.expected h

end Expected

/-! ## Runs of the API -/

section Runs
variable {ι : Type} [DecidableEq ι] {p : ApiPool ι}

/-- The committed states that the run passes through. -/
def Passes (P : Platform) (db : Database) (requests : ι → ApiRequest) (schedule : List (ι × Choice Draw Error))
    (t : Database) : Prop :=
  ∃ q, Runs.Visits (Pool.step dialect) (apiRequests P db requests) schedule q ∧ q.store = t

theorem among_run (hB : ¬ B .integrityError) (hdb : db.Sound) (requests : ι → ApiRequest)
    (schedule : List (ι × Choice Draw Error)) (hfaults : ∀ a ∈ schedule, ∀ e, a.2.fault = some e → B e)
    (h : Runs.Visits (Pool.step dialect) (apiRequests P db requests) schedule p) :
    p.AllRely dialect (fun t => t.Sound ∧ Passes P db requests schedule t) Database.Keeps B
      (fun i e _ => (requests i).Refused P (Passes P db requests schedule) B e)
      fun i response _ _ => Exports (Passes P db requests schedule) (requests i) response :=
  rely_of_visits hdb requests schedule (fun q a hq => ⟨⟨q, hq.visits, rfl⟩, hfaults a hq.mem⟩)
    (fun i => among_handler hB (requests i)) h

/-- In every run from a sound database, where steps fail with a lost connection only: a request that is
refused has its ground in a state of the run, and it is answered with the generic 500 only where the
database has raised. -/
theorem refusals_have_grounds (hdb : db.Sound) (requests : ι → ApiRequest)
    (schedule : List (ι × Choice Draw Error))
    (hfaults : ∀ a ∈ schedule, ∀ e, a.2.fault = some e → e = .operationalError)
    (h : Runs.Visits (Pool.step dialect) (apiRequests P db requests) schedule p) {i : ι} {e : Error}
    (hraise : (p.procs i).prog = .raise e) :
    (requests i).Refused P (Passes P db requests schedule) (fun e => e = .operationalError) e ∧
      ∀ requestId, (handleError requestId e).statusCode = 500 ↔ e.ofDatabase = true := by
  have hrefused := (among_run nofun hdb requests schedule hfaults h).raised hraise
  refine ⟨hrefused, ?_⟩
  rcases hrefused with rfl | rfl | hgrounds
  · exact expected_of_database rfl
  · exact expected_of_database rfl
  · exact ApiRequest.expected hgrounds

/-- In every run from a sound database: each section of an export that is answered is the complete one of a
state of the run. -/
theorem exports_among_requests (hdb : db.Sound) (requests : ι → ApiRequest)
    (schedule : List (ι × Choice Draw Error))
    (hfaults : ∀ a ∈ schedule, ∀ e, a.2.fault = some e → e ≠ .integrityError)
    (h : Runs.Visits (Pool.step dialect) (apiRequests P db requests) schedule p) {i : ι}
    {e : PersonalDataExport} (hret : (p.procs i).prog = .ret (.subject (.personalData e))) :
    ∃ header token userId, requests i = .subject ⟨header, token, userId, .exportPersonalData⟩ ∧
      ExportedAmong (Passes P db requests schedule) userId e :=
  (among_run (fun hB => hB rfl) hdb requests schedule hfaults h).returned hret e rfl

end Runs

/-! ## Two registrations of one address, and an export during a login -/

theorem sound_seeded (ws : List Stmt) : (Database.seeded ws).Sound := by
  unfold Database.seeded
  split
  · rename_i db h
    exact sound_empty.applyAll h
  · exact sound_empty

def frontDesk : Nat → ApiRequest
  | 0 => .privacy ⟨some "c", .register "petro@fleet.org" "password" "Petro Bondar" none⟩
  | 1 => .privacy ⟨some "c", .register "petro@fleet.org" "password" "Petro Bondar" none⟩
  | 2 => .privacy ⟨some "c", .login "ira@fleet.org" "secret" none none⟩
  | _ => .subject ⟨some "c", some 1, 1, .exportPersonalData⟩

/-- Both registrations reach their commits, and the second one finds the address taken. -/
def registrationRace : List (Nat × Choice Draw Error) :=
  [(0, stepAt 1), (1, stepAt 1), (0, stepAt 2), (1, stepAt 2), (0, stepAt 3), (1, stepAt 3), (1, stepAt 4)]

/-- The login commits its record between two queries of the export. -/
def exportDuringLogin : List (Nat × Choice Draw Error) :=
  [(3, stepAt 1), (3, stepAt 2), (2, stepAt 3), (2, stepAt 4), (2, stepAt 5)] ++ List.replicate 10 (3, stepAt 6)

theorem second_registration_refused :
    let p := Runs.run (Pool.step dialect) (apiRequests plainPlatform twoRenters frontDesk) registrationRace
    let e := Error.emailAlreadyRegistered "Email petro@fleet.org is already registered"
    (p.procs 1).prog = .raise e ∧ (frontDesk 1).Refused plainPlatform
      (Passes plainPlatform twoRenters frontDesk registrationRace) (fun e => e = .operationalError) e ∧
      ∀ requestId, (handleError requestId e).statusCode = 500 ↔ e.ofDatabase = true := by
  have hraise : ((Runs.run (Pool.step dialect) (apiRequests plainPlatform twoRenters frontDesk)
      registrationRace).procs 1).prog =
      .raise (.emailAlreadyRegistered "Email petro@fleet.org is already registered") := by rfl
  exact ⟨hraise, refusals_have_grounds (sound_seeded _) frontDesk registrationRace (by decide)
    (Runs.Visits.last _ _) hraise⟩

theorem ira_exported_during_login : ∃ e,
    let p := Runs.run (Pool.step dialect) (apiRequests plainPlatform twoRenters frontDesk) exportDuringLogin
    (p.procs 3).prog = .ret (.subject (.personalData e)) ∧
      ∃ header token userId, frontDesk 3 = .subject ⟨header, token, userId, .exportPersonalData⟩ ∧
        ExportedAmong (Passes plainPlatform twoRenters frontDesk exportDuringLogin) userId e := by
  refine ⟨_, rfl, ?_⟩
  exact exports_among_requests (sound_seeded _) frontDesk exportDuringLogin (by decide)
    (Runs.Visits.last _ _) rfl

end FleetManagement
