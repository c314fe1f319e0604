import FleetManagement.Api.Account
import FleetManagement.Library.Answers

/-!
# Requests that update no user

Only an erasure updates a row of `users`. One lemma for each function, in the order of the services; what
only reads sends nothing, whatever is asked of the statements.
-/

namespace FleetManagement

def Stmt.updatesUser : Stmt → Bool
  | .updateUser .. => true
  | _ => false

/-- The statements of the fleet routes. No rental that has ended is opened again. -/
def Stmt.ofFleet : Stmt → Bool
  | .insertStation _ => true
  | .insertVehicle _ => true
  | .insertRenter row => row.userId = none
  | .insertRental _ => true
  | .updateVehicle .. => true
  | .updateRental _ set => set.endedAt ≠ some none
  | _ => false

theorem Stmt.updatesUser_of_ofFleet {w : Stmt} (h : w.ofFleet = true) : w.updatesUser = false := by
  cases w <;> first | rfl | cases h

/-- Whatever is read, no user is updated. -/
abbrev Quiet {α : Type} (t : Db α) : Prop := Tx.Emits (fun w => w.updatesUser = false) t

section Quiet
variable {p : Stmt → Prop}

theorem quiet_ite {α : Type} {c : Prop} [Decidable c] {t e : Db α} (ht : Tx.Emits p t)
    (he : Tx.Emits p e) : Tx.Emits p (if c then t else e) := by
  split
  · exact ht
  · exact he

theorem quiet_commit {ws : List Stmt} (h : ws.all (fun w => !w.updatesUser) = true) :
    Quiet (Tx.commitAll ws) :=
  Tx.emits_commitAll (by simpa using h)

theorem quiet_integerParameter (id : Int) : Tx.Emits p (integerParameter id) := quiet_ite trivial trivial

theorem quiet_get {ρ : Type} [Keyed ρ] (table : Database → Table ρ) (id : Int) : Tx.Emits p (get table id) :=
  Tx.emits_bind (quiet_integerParameter id) fun _ => Tx.emits_bind Tx.emits_select fun _ => trivial

theorem quiet_refresh {ρ : Type} [Keyed ρ] (table : Database → Table ρ) (id : Int) :
    Tx.Emits p (refresh table id) := by
  refine Tx.emits_bind Tx.emits_select fun db => ?_
  cases (table db).find? id <;> exact trivial

theorem quiet_now : Tx.Emits p now := fun _ => trivial

theorem quiet_scalarOneOrNone {ρ : Type} (rows : List ρ) : Tx.Emits p (scalarOneOrNone rows) := by
  match rows with
  | [] => exact trivial
  | [_] => exact trivial
  | _ :: _ :: _ => exact trivial

theorem quiet_all {ρ : Type} [Keyed ρ] (table : Database → Table ρ) (q : ρ → Bool) :
    Tx.Emits p (all table q) := Tx.emits_bind Tx.emits_select fun _ => trivial

theorem quiet_validate (ok : Bool) : Tx.Emits p (validate ok) := quiet_ite trivial trivial

theorem quiet_recordAuditEvent (eventType : String) (actorId subjectId : Option Int)
    (result correlationId : String) :
    Quiet (recordAuditEvent eventType actorId subjectId result correlationId) :=
  Tx.emits_bind quiet_now fun _ => Tx.emits_bind (quiet_commit rfl) fun _ => trivial

theorem quiet_getCurrentUser (token : Option Int) : Tx.Emits p (getCurrentUser token) := by
  unfold getCurrentUser
  cases token with
  | none => exact trivial
  | some userId =>
      refine Tx.emits_bind (quiet_get _ _) fun o => ?_
      cases o with
      | none => exact trivial
      | some user => exact quiet_ite trivial trivial

theorem quiet_requireAdmin (token : Option Int) : Tx.Emits p (requireAdmin token) :=
  Tx.emits_bind (quiet_getCurrentUser token) fun _ => quiet_ite trivial trivial

theorem quiet_getUser (m : IdentityMap) (id : Int) : Tx.Emits p (getUser m id) := by
  unfold getUser
  cases m.find id with
  | none => exact quiet_get _ _
  | some user => exact trivial

theorem quiet_subjectAccess (eventType : String) (token : Option Int) (userId : Int)
    (correlationId : String) : Quiet (subjectAccess eventType token userId correlationId) := by
  refine Tx.emits_bind (quiet_getCurrentUser token) fun actor => ?_
  have hdeny : ∀ result, Quiet (do
      recordAuditEvent eventType (some actor.id) (some userId) result correlationId
      throw (.notFound "User not found") : Db SubjectAccess) := fun result =>
    Tx.emits_bind (quiet_recordAuditEvent _ _ _ _ _) fun _ => trivial
  simp only
  split
  · refine Tx.emits_bind (quiet_getUser _ _) fun o => ?_
    cases o with
    | none => exact hdeny _
    | some subject => exact trivial
  · exact hdeny _

/-! ### Accounts -/

theorem quiet_createUser (P : Platform) (email password fullName : String) (role : UserRole)
    (phone : Option String) : Quiet (createUser P email password fullName role phone) := by
  refine Tx.emits_bind Tx.emits_sample fun d => Tx.emits_bind quiet_now fun t => ?_
  refine Tx.emits_bind (Tx.emits_tryCatch (quiet_commit rfl) fun e => ?_) fun _ => quiet_refresh _ _
  exact quiet_ite (Tx.emits_bind Tx.emits_rollbackAll fun _ => trivial) trivial

theorem quiet_register (P : Platform) (email password fullName : String) (phone : Option String) :
    Quiet (register P email password fullName phone) := by
  unfold register
  cases P.validateEmail email with
  | none => exact trivial
  | some email => exact Tx.emits_bind (quiet_validate _) fun _ => quiet_createUser _ _ _ _ _ _

theorem quiet_authenticate (P : Platform) (email password : String) :
    Tx.Emits p (authenticate P email password) := by
  refine Tx.emits_bind (Tx.emits_bind Tx.emits_select fun _ => quiet_scalarOneOrNone _) fun o => ?_
  cases o with
  | none => exact trivial
  | some user => exact quiet_ite trivial trivial

theorem quiet_login (P : Platform) (username password : String) (ipAddress userAgent : Option String) :
    Quiet (login P username password ipAddress userAgent) := by
  refine Tx.emits_bind (quiet_authenticate P username password) fun o => ?_
  cases o with
  | none => exact trivial
  | some user =>
      refine Tx.emits_bind (Tx.emits_bind quiet_now fun t => ?_) fun _ => trivial
      exact Tx.emits_bind (quiet_commit rfl) fun _ => trivial

theorem quiet_createRenterProfile (a : SubjectAccess) (fullName licenseNumber : String) :
    Quiet (createRenterProfile a fullName licenseNumber) := by
  refine Tx.emits_bind (quiet_validate _) fun _ => ?_
  refine Tx.emits_bind (Tx.emits_tryCatch (quiet_commit rfl) fun e => ?_) fun _ => trivial
  exact quiet_ite (Tx.emits_bind Tx.emits_rollbackAll fun _ => trivial) trivial

/-! ### Consents and what depends on them -/

theorem quiet_getCurrent (userId : Int) (purpose : ConsentPurpose) (lock : Bool) :
    Tx.Emits p (getCurrent userId purpose lock) := by
  unfold getCurrent
  cases lock with
  | true => exact Tx.emits_bind (Tx.emits_selectForUpdate _) fun _ => quiet_scalarOneOrNone _
  | false => exact Tx.emits_bind Tx.emits_select fun _ => quiet_scalarOneOrNone _

theorem quiet_grant (userId : Int) (purpose : ConsentPurpose) (policyVersion source : String) :
    Quiet (grant userId purpose policyVersion source) := by
  have honce : Quiet (grantOnce userId purpose policyVersion source) := by
    refine Tx.emits_bind quiet_now fun t => Tx.emits_bind (quiet_getCurrent _ _ _) fun o => ?_
    refine quiet_ite trivial (Tx.emits_bind ?_ fun db => ?_)
    · cases o <;> exact quiet_commit rfl
    · cases o <;> exact trivial
  refine Tx.emits_tryCatch honce fun e => ?_
  exact quiet_ite (Tx.emits_bind Tx.emits_rollbackAll fun _ => honce) trivial

theorem quiet_revoke (userId : Int) (purpose : ConsentPurpose) (source : String) :
    Quiet (revoke userId purpose source) := by
  refine Tx.emits_bind (quiet_getCurrent _ _ _) fun o => ?_
  cases o with
  | none => exact trivial
  | some c =>
      refine quiet_ite trivial (Tx.emits_bind quiet_now fun t => ?_)
      exact Tx.emits_bind (quiet_commit rfl) fun _ => trivial

theorem quiet_checkConsent (userId : Int) (purpose : ConsentPurpose) :
    Tx.Emits p (checkConsent userId purpose) :=
  Tx.emits_bind (quiet_getCurrent _ _ _) fun _ => trivial

theorem quiet_requireConsent (userId : Int) (purpose : ConsentPurpose) (actorId : Int)
    (correlationId : String) : Quiet (requireConsent userId purpose actorId correlationId) := by
  refine Tx.emits_bind (quiet_checkConsent _ _) fun decision => quiet_ite trivial ?_
  exact Tx.emits_bind (quiet_recordAuditEvent _ _ _ _ _) fun _ => trivial

theorem quiet_enqueueMarketingEmail (userId : Int) (campaign : String) (actorId : Int)
    (correlationId : String) : Quiet (enqueueMarketingEmail userId campaign actorId correlationId) := by
  refine Tx.emits_bind (quiet_requireConsent _ _ _ _) fun _ => Tx.emits_bind quiet_now fun t => ?_
  exact Tx.emits_bind (quiet_commit rfl) fun _ => quiet_refresh _ _

theorem quiet_recordAnalyticsEvent (userId : Int) (eventName : String) (actorId : Int)
    (correlationId : String) : Quiet (recordAnalyticsEvent userId eventName actorId correlationId) := by
  refine Tx.emits_bind (quiet_requireConsent _ _ _ _) fun _ => Tx.emits_bind quiet_now fun t => ?_
  exact Tx.emits_bind (quiet_commit rfl) fun _ => quiet_refresh _ _

theorem quiet_verdicts (t : DateTime) (messages : List MarketingMessage) : Tx.Emits p (verdicts t messages) := by
  induction messages with
  | nil => exact trivial
  | cons m messages ih =>
      exact Tx.emits_bind (quiet_checkConsent _ _) fun _ => Tx.emits_bind ih fun _ => trivial

theorem quiet_dispatchPendingMarketing : Quiet dispatchPendingMarketing := by
  refine Tx.emits_bind quiet_now fun t => ?_
  refine Tx.emits_bind (Tx.emits_bind Tx.emits_select fun _ => quiet_verdicts _ _) fun outcomes => ?_
  exact Tx.emits_bind (quiet_commit (by simp [Stmt.updatesUser])) fun _ => trivial

theorem quiet_listConsents (token : Option Int) (userId : Int) (correlationId : String) :
    Quiet (listConsents token userId correlationId) := by
  refine Tx.emits_bind (quiet_subjectAccess _ _ _ _) fun a => ?_
  refine Tx.emits_bind (Tx.emits_bind Tx.emits_select fun _ => trivial) fun _ => ?_
  exact Tx.emits_bind (Tx.emits_bind Tx.emits_select fun _ => trivial) fun _ => trivial

theorem quiet_buildExport (subject : User) : Tx.Emits p (buildExport subject) := by
  refine Tx.emits_bind (quiet_all _ _) fun _ => Tx.emits_bind (quiet_scalarOneOrNone _) fun renter => ?_
  refine Tx.emits_bind (quiet_all _ _) fun _ => Tx.emits_bind (quiet_all _ _) fun _ => ?_
  refine Tx.emits_bind (quiet_all _ _) fun _ => ?_
  refine Tx.emits_bind (Tx.emits_bind Tx.emits_select fun _ => trivial) fun _ => ?_
  refine Tx.emits_bind quiet_now fun _ => Tx.emits_bind ?_ fun _ => ?_
  · cases renter with
    | none => exact trivial
    | some renter => exact quiet_all _ _
  · exact Tx.emits_bind (Tx.emits_bind Tx.emits_select fun _ => trivial) fun _ => trivial

theorem quiet_exportPersonalData (token : Option Int) (userId : Int) (correlationId : String) :
    Quiet (exportPersonalData token userId correlationId) := by
  refine Tx.emits_bind (quiet_subjectAccess _ _ _ _) fun a => ?_
  refine Tx.emits_bind (quiet_buildExport _) fun _ => ?_
  exact Tx.emits_bind (quiet_recordAuditEvent _ _ _ _ _) fun _ => trivial

/-! ### The fleet and the reading routes -/

theorem quiet_getStation (stationId : Int) : Tx.Emits p (getStation stationId) := by
  refine Tx.emits_bind (quiet_get _ _) fun o => ?_
  cases o <;> exact trivial

theorem emits_commit_ofFleet {ws : List Stmt} (h : ws.all Stmt.ofFleet = true) :
    Tx.Emits (fun w => w.ofFleet = true) (Tx.commitAll ws : Db Database) :=
  Tx.emits_commitAll (by simpa using h)

theorem emits_startRental (renterId vehicleId : Int) :
    Tx.Emits (fun w => w.ofFleet = true) (startRental renterId vehicleId) := by
  refine Tx.emits_bind (quiet_get _ _) fun o => ?_
  cases o with
  | none => exact trivial
  | some vehicle =>
      refine quiet_ite trivial (Tx.emits_bind quiet_now fun t => ?_)
      exact Tx.emits_bind (emits_commit_ofFleet rfl) fun _ => quiet_refresh _ _

theorem emits_endRental (rentalId stationId : Int) :
    Tx.Emits (fun w => w.ofFleet = true) (endRental rentalId stationId) := by
  refine Tx.emits_bind (quiet_get _ _) fun o => ?_
  cases o with
  | none => exact trivial
  | some rental =>
      refine quiet_ite trivial (Tx.emits_bind ?_ fun free => quiet_ite ?_ trivial)
      · refine Tx.emits_bind (quiet_getStation _) fun station => ?_
        exact Tx.emits_bind (Tx.emits_bind Tx.emits_select fun _ => trivial) fun _ => trivial
      · refine Tx.emits_bind (quiet_get _ _) fun o => ?_
        cases o with
        | none => exact trivial
        | some vehicle =>
            refine Tx.emits_bind quiet_now fun t => ?_
            refine Tx.emits_bind (emits_commit_ofFleet ?_) fun _ => quiet_refresh _ _
            simp [endFlush, Stmt.ofFleet, Rental.changes, dirty]

theorem quiet_rentalsWithCost (rentals : List Rental) : Tx.Emits p (rentalsWithCost rentals) := by
  induction rentals with
  | nil => exact trivial
  | cons r rentals ih =>
      refine Tx.emits_bind (quiet_ite trivial ?_) fun _ => Tx.emits_bind ih fun _ => trivial
      cases r.endedAt with
      | none => exact Tx.emits_bind quiet_now fun _ => trivial
      | some t => exact trivial

theorem quiet_read (r : FleetRequest) (response : FleetResponse) : Tx.Emits p (r.read response) := by
  have hended : ∀ row : Rental, Tx.Emits p (endedRead row) := by
    intro row
    unfold endedRead
    cases row.endedAt <;> exact trivial
  cases response with
  | rental row =>
      cases r with
      | rental request =>
          cases request with
          | startRental renterId vehicleId => exact trivial
          | endRental rentalId stationId => exact Tx.emits_bind (hended row) fun _ => trivial
      | _ => exact trivial
  | _ => exact trivial

theorem emits_route (r : FleetRequest) : Tx.Emits (fun w => w.ofFleet = true) r.route := by
  refine Tx.emits_bind ?_ fun response => quiet_read r response
  cases r with
  | createStation address capacity =>
      exact Tx.emits_bind (Tx.emits_bind (emits_commit_ofFleet rfl) fun _ => quiet_refresh _ _) fun _ => trivial
  | createVehicle licensePlate model stationId =>
      refine Tx.emits_bind (Tx.emits_bind (quiet_getStation _) fun _ => ?_) fun _ => trivial
      exact Tx.emits_bind (emits_commit_ofFleet rfl) fun _ => quiet_refresh _ _
  | createRenter fullName licenseNumber =>
      exact Tx.emits_bind (Tx.emits_bind (emits_commit_ofFleet rfl) fun _ => quiet_refresh _ _) fun _ => trivial
  | rental request =>
      refine Tx.emits_bind ?_ fun _ => trivial
      cases request with
      | startRental renterId vehicleId => exact emits_startRental _ _
      | endRental rentalId stationId => exact emits_endRental _ _

theorem quiet_route (r : FleetRequest) : Quiet r.route :=
  (emits_route r).mono fun _ => Stmt.updatesUser_of_ofFleet

theorem quiet_renterOf (user : User) : Tx.Emits p (renterOf user) :=
  Tx.emits_bind Tx.emits_select fun _ => quiet_scalarOneOrNone _

end Quiet

end FleetManagement
