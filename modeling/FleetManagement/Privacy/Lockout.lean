import FleetManagement.Lemmas.Quiet
import FleetManagement.Lemmas.Sessions
import FleetManagement.Privacy.Race

/-!
# Erased accounts stay locked out

An account is inactive once its erasure has committed, and nothing makes an inactive account active
again: no other request updates a user, and an erasure that works on a stale entity leaves the flag as it
is or clears it once more.
-/

namespace FleetManagement

variable {P : Platform} {db db' : Database}

/-- The account exists and is not active. -/
def Database.Inactive (db : Database) (u : Int) : Prop :=
  ∃ row, db.users.find? u = some row ∧ row.isActive = false

/-- Every account that is inactive in `db` is inactive in `db'`. -/
def Database.KeepsOut (db db' : Database) : Prop := ∀ u, db.Inactive u → db'.Inactive u

theorem KeepsOut.refl (s : Database) : s.KeepsOut s := fun _ h => h

theorem KeepsOut.trans (s t u : Database) (h : s.KeepsOut t) (h' : t.KeepsOut u) : s.KeepsOut u :=
  fun i hi => h' i (h i hi)

/-! ## What each commit does to the accounts -/

def Stmt.writesUsers : Stmt → Bool
  | .insertUser _ => true
  | .updateUser .. => true
  | _ => false

theorem users_of_apply {w : Stmt} (hw : w.writesUsers = false) (h : dialect.apply w db = .ok db') :
    db'.users = db.users := by
  cases w with
  | insertStation => obtain ⟨-, -, rfl⟩ := insertStation_ok.mp h; rfl
  | insertVehicle => obtain ⟨-, -, rfl⟩ := insertVehicle_ok.mp h; rfl
  | insertRenter => obtain ⟨-, -, rfl⟩ := insertRenter_ok.mp h; rfl
  | insertRental => obtain ⟨-, -, rfl⟩ := insertRental_ok.mp h; rfl
  | insertUser => cases hw
  | insertUserConsent => obtain ⟨-, -, rfl⟩ := insertUserConsent_ok.mp h; rfl
  | insertConsentHistory => obtain ⟨-, -, rfl⟩ := insertConsentHistory_ok.mp h; rfl
  | insertUserActivity => obtain ⟨-, -, rfl⟩ := insertUserActivity_ok.mp h; rfl
  | insertAuditEvent => obtain ⟨-, -, rfl⟩ := insertAuditEvent_ok.mp h; rfl
  | insertMarketingMessage => obtain ⟨-, -, rfl⟩ := insertMarketingMessage_ok.mp h; rfl
  | insertAnalyticsEvent => obtain ⟨-, -, rfl⟩ := insertAnalyticsEvent_ok.mp h; rfl
  | updateVehicle => obtain ⟨-, -, rfl⟩ := updateVehicle_ok.mp h; rfl
  | updateRental => obtain ⟨-, -, rfl⟩ := updateRental_ok.mp h; rfl
  | updateUser => cases hw
  | updateRenter => obtain ⟨-, -, rfl⟩ := updateRenter_ok.mp h; rfl
  | updateUserConsent => obtain ⟨-, -, rfl⟩ := updateUserConsent_ok.mp h; rfl
  | updateMarketingMessage => obtain ⟨-, rfl⟩ := updateMarketingMessage_ok.mp h; rfl
  | deleteUserActivity => cases h; rfl
  | deleteMarketingMessages => cases h; rfl
  | deleteAnalyticsEvents => cases h; rfl

theorem find?_user_of_apply {w : Stmt} (hw : w.updatesUser = false) (h : dialect.apply w db = .ok db')
    {u : Int} {row : User} (hrow : db.users.find? u = some row) : db'.users.find? u = some row := by
  cases hwrites : w.writesUsers with
  | false => rw [users_of_apply hwrites h, hrow]
  | true =>
      cases w with
      | insertUser =>
          obtain ⟨-, -, rfl⟩ := insertUser_ok.mp h
          exact Table.find?_insert_of_some hrow
      | updateUser => cases hw
      | _ => cases hwrites

theorem find?_user_of_applyAll {ws : List Stmt} (hws : ∀ w ∈ ws, w.updatesUser = false)
    (h : dialect.applyAll ws db = .ok db') {u : Int} {row : User}
    (hrow : db.users.find? u = some row) : db'.users.find? u = some row := by
  induction ws generalizing db with
  | nil => cases h; exact hrow
  | cons w ws ih =>
      obtain ⟨db₁, h₁, h⟩ := dialect.applyAll_cons_ok.mp h
      exact ih (fun w hw => hws w (List.mem_cons_of_mem _ hw)) h
        (find?_user_of_apply (hws w List.mem_cons_self) h₁ hrow)

/-- What a request commits to the database `s`: no update of a user, or an erasure of an entity that was
loaded from an earlier state. -/
inductive AccountCommit (P : Platform) (s : Database) : List Stmt → Prop
  | quiet {ws : List Stmt} (h : ∀ w ∈ ws, w.updatesUser = false) : AccountCommit P s ws
  | erasure {t : Database} {entity : User} {d : ErasureDraws} {renters : List Renter}
      {consents : List UserConsent} {actorId : Int} {correlationId : String} (ht : t.KeepsOut s)
      (hrow : t.users.find? entity.id = some entity) :
      AccountCommit P s (erasureFlush P entity d renters consents actorId correlationId)

/-- A stale entity that is not active any more leaves the flag as it is, which is cleared. -/
theorem inactive_of_erasureFlush {t : Database} {entity : User} {d : ErasureDraws}
    {renters : List Renter} {consents : List UserConsent} {actorId : Int} {correlationId : String}
    (ht : t.KeepsOut db) (hrow : t.users.find? entity.id = some entity)
    (h : dialect.applyAll (erasureFlush P entity d renters consents actorId correlationId) db = .ok db') :
    db.KeepsOut db' ∧ db'.Inactive entity.id := by
  obtain ⟨⟨r, hr⟩, consentHistory, hseq, -, rfl⟩ := erasureFlush_ok h
  have hflag : ∀ q : User, q.isActive = false ∨ entity.isActive = true →
      ((entity.changes (d.user P entity)).on q).isActive = false := by
    intro q hq
    cases hactive : entity.isActive with
    | true => simp [UserSet.on, User.changes, ErasureDraws.user, User.anonymize, hactive, dirty]
    | false =>
        have hq : q.isActive = false := by simpa [hactive] using hq
        simp [UserSet.on, User.changes, ErasureDraws.user, User.anonymize, hactive, dirty, hq]
  have hself : (db.users.update entity.id (entity.changes (d.user P entity)).on
      (UserSet.key_on _)).find? entity.id = some ((entity.changes (d.user P entity)).on r) :=
    Table.find?_update_self hr
  have hr' : r.isActive = false ∨ entity.isActive = true := by
    cases hactive : entity.isActive with
    | true => exact Or.inr rfl
    | false =>
        obtain ⟨q, hq, hinactive⟩ := ht entity.id ⟨entity, hrow, hactive⟩
        rw [hr] at hq
        cases hq
        exact Or.inl hinactive
  refine ⟨fun u hu => ?_, ⟨_, hself, hflag r hr'⟩⟩
  by_cases hid : u = entity.id
  · rw [hid]; exact ⟨_, hself, hflag r hr'⟩
  · obtain ⟨q, hq, hinactive⟩ := hu
    have hother : (db.users.update entity.id (entity.changes (d.user P entity)).on
        (UserSet.key_on _)).find? u = some q := (Table.find?_update_of_ne hid).trans hq
    exact ⟨q, hother, hinactive⟩

/-- A commit keeps inactive accounts out, and an erasure shuts its account out. -/
theorem AccountCommit.effect {ws : List Stmt} (h : AccountCommit P db ws)
    (happ : dialect.applyAll ws db = .ok db') :
    db.KeepsOut db' ∧ ∀ u, erasesAccount u ws = true → db'.Inactive u := by
  cases h with
  | quiet hws =>
      refine ⟨fun u ⟨row, hrow, hinactive⟩ => ⟨row, find?_user_of_applyAll hws happ hrow, hinactive⟩, ?_⟩
      intro u herases
      obtain ⟨w, hw, herases⟩ := List.any_eq_true.mp herases
      have hquiet := hws w hw
      cases w <;> first | cases herases | cases hquiet
  | @erasure t entity d renters consents actorId correlationId ht hrow =>
      obtain ⟨hkeep, hinactive⟩ := inactive_of_erasureFlush ht hrow happ
      refine ⟨hkeep, fun u herases => ?_⟩
      have hid : entity.id = u := by
        simpa [erasesAccount, erasureFlush, eraseStatements, withdrawFlush, renterUpdates] using herases
      exact hid ▸ hinactive

/-! ## What each request commits -/

section Requests
variable {s : Database} {R : Database → Database → Prop} {Φ : Database → List Stmt → Prop}

/-- What is asked of commits: nothing where no user is updated, and `Φ` of an erasure whose entity was
loaded from an earlier state without `anonymized_at`. -/
structure ErasureRules (P : Platform) (R : Database → Database → Prop)
    (Φ : Database → List Stmt → Prop) : Prop where
  refl : ∀ s, R s s
  trans : ∀ s t u, R s t → R t u → R s u
  quiet : ∀ s ws, (∀ w ∈ ws, w.updatesUser = false) → Φ s ws
  erasure : ∀ (t s : Database) (entity : User) d renters consents actorId correlationId, R t s →
    t.users.find? entity.id = some entity → entity.anonymizedAt = none →
    Φ s (erasureFlush P entity d renters consents actorId correlationId)

abbrev Accounts (R : Database → Database → Prop) (Φ : Database → List Stmt → Prop) {α : Type}
    (t : Db α) (s : Database) : Prop :=
  Tx.Meets dialect (fun _ => True) R Φ t s []

theorem accounts_of_quiet (hrules : ErasureRules P R Φ) {α : Type} {t : Db α} (h : Quiet t) :
    Accounts R Φ t s :=
  h.meets hrules.quiet (by simp)

theorem accounts_anonymize (hrules : ErasureRules P R Φ) (correlationId : String) (token : Option Int)
    (userId : Int) : Accounts R Φ ((PrivacyRequest.anonymize token userId).handler P correlationId) s := by
  have haudit : ∀ {db : Database} (event : AuditEvent), Φ db [.insertAuditEvent event] :=
    fun event => hrules.quiet _ _ (by simp [Stmt.updatesUser])
  unfold PrivacyRequest.handler
  refine meets_subjectAccess hrules.refl hrules.trans (fun _ _ _ _ _ _ => haudit _) ?_
  intro t a _ _ hm
  refine (anonymizeUser_meets hrules.refl hrules.trans hm (fun _ _ _ => haudit _) ?_).map _
  intro t u entity d renters consents htu hrow hnew
  have hid : entity.id = a.subject.id := Table.key_of_find? hrow
  exact hrules.erasure t u entity d renters consents _ _ htu (by rw [hid]; exact hrow) hnew

theorem quiet_privacyHandler (correlationId : String) (request : PrivacyRequest)
    (h : ∀ token userId, request ≠ .anonymize token userId) : Quiet (request.handler P correlationId) := by
  cases request with
  | register => exact Tx.emits_bind (quiet_register _ _ _ _ _) fun _ => trivial
  | login => exact Tx.emits_bind (quiet_login _ _ _ _ _) fun _ => trivial
  | createRenterProfile =>
      refine Tx.emits_bind (quiet_subjectAccess _ _ _ _) fun _ => ?_
      exact Tx.emits_bind (quiet_createRenterProfile _ _ _) fun _ => trivial
  | grantConsent =>
      refine Tx.emits_bind (quiet_subjectAccess _ _ _ _) fun _ => ?_
      refine Tx.emits_bind (quiet_validate _) fun _ => ?_
      exact Tx.emits_bind (quiet_grant _ _ _ _) fun _ => trivial
  | revokeConsent =>
      refine Tx.emits_bind (quiet_subjectAccess _ _ _ _) fun _ => ?_
      refine Tx.emits_bind (quiet_validate _) fun _ => ?_
      exact Tx.emits_bind (quiet_revoke _ _ _) fun _ => trivial
  | queueMarketingEmail =>
      refine Tx.emits_bind (quiet_subjectAccess _ _ _ _) fun _ => ?_
      refine Tx.emits_bind (quiet_validate _) fun _ => ?_
      exact Tx.emits_bind (quiet_enqueueMarketingEmail _ _ _ _) fun _ => trivial
  | trackAnalyticsEvent =>
      refine Tx.emits_bind (quiet_subjectAccess _ _ _ _) fun _ => ?_
      refine Tx.emits_bind (quiet_validate _) fun _ => ?_
      exact Tx.emits_bind (quiet_recordAnalyticsEvent _ _ _ _) fun _ => trivial
  | dispatchMarketing =>
      refine Tx.emits_bind (quiet_requireAdmin _) fun _ => ?_
      exact Tx.emits_bind quiet_dispatchPendingMarketing fun _ => trivial
  | anonymize token userId => exact absurd rfl (h token userId)

/-- A handler that first finds its correlation id. -/
theorem accounts_acceptOrGenerate {α : Type} (header : Option String) {f : String → Db α}
    (h : ∀ id, Accounts R Φ (f id) s) : Accounts R Φ (acceptOrGenerate header >>= f) s := by
  have hdraw : Accounts R Φ (uuid4 >>= fun x => f x.val) s := by
    unfold uuid4
    simp only [Tx.bind_assoc]
    exact Tx.meets_sample fun d => h _
  unfold acceptOrGenerate
  cases header with
  | none => exact hdraw
  | some id =>
      simp only
      split
      · exact h id
      · exact hdraw

theorem accounts_privacyHandler (hrules : ErasureRules P R Φ) (correlationId : String)
    (request : PrivacyRequest) : Accounts R Φ (request.handler P correlationId) s := by
  by_cases h : ∃ token userId, request = .anonymize token userId
  · obtain ⟨token, userId, rfl⟩ := h
    exact accounts_anonymize hrules correlationId token userId
  · exact accounts_of_quiet hrules (quiet_privacyHandler correlationId request fun token userId heq =>
      h ⟨token, userId, heq⟩)

/-- What any request of the API may commit, whatever the others do. -/
theorem handler_erasures (hrules : ErasureRules P R Φ) (r : ApiRequest) :
    Accounts R Φ (r.handler P) s := by
  unfold ApiRequest.handler
  cases r with
  | privacy call =>
      exact (accounts_acceptOrGenerate call.header fun id =>
        accounts_privacyHandler hrules id call.request).map ApiResponse.privacy
  | subject call =>
      refine (accounts_acceptOrGenerate call.header fun id => ?_).map ApiResponse.subject
      unfold SubjectRequest.handler
      cases call.request with
      | exportPersonalData =>
          exact accounts_of_quiet hrules (Tx.emits_bind (quiet_exportPersonalData _ _ _) fun _ => trivial)
      | listConsents => exact accounts_of_quiet hrules (Tx.emits_bind (quiet_listConsents _ _ _) fun _ => trivial)
      | _ => exact (accounts_privacyHandler hrules id _).map SubjectResponse.privacy
  | readMe token => exact accounts_of_quiet hrules (Tx.emits_bind (quiet_getCurrentUser _) fun _ => trivial)
  | home role token =>
      refine accounts_of_quiet hrules (Tx.emits_bind ?_ fun _ => trivial)
      exact Tx.emits_bind (quiet_getCurrentUser _) fun _ => quiet_ite trivial trivial
  | listUsers token =>
      refine accounts_of_quiet hrules (Tx.emits_bind ?_ fun _ => trivial)
      exact Tx.emits_bind (quiet_requireAdmin _) fun _ => Tx.emits_bind Tx.emits_select fun _ => trivial
  | createAdmin token email password fullName phone =>
      refine accounts_of_quiet hrules (Tx.emits_bind (Tx.emits_bind (quiet_requireAdmin _) fun _ => ?_)
        fun _ => trivial)
      cases P.validateEmail email with
      | none => exact trivial
      | some email => exact Tx.emits_bind (quiet_validate _) fun _ => quiet_createUser _ _ _ _ _ _
  | createAdminCommand email password fullName =>
      refine accounts_of_quiet hrules (Tx.emits_bind ?_ fun _ => trivial)
      unfold createAdminCommand
      cases P.validateEmail email with
      | none => exact trivial
      | some email => exact Tx.emits_bind (quiet_validate _) fun _ => quiet_createUser _ _ _ _ _ _
  | myRenterProfile token =>
      refine accounts_of_quiet hrules (Tx.emits_bind (Tx.emits_bind (quiet_getCurrentUser _) fun _ =>
        Tx.emits_bind (quiet_renterOf _) fun o => ?_) fun _ => trivial)
      cases o <;> exact trivial
  | myRentals token =>
      refine accounts_of_quiet hrules (Tx.emits_bind (Tx.emits_bind (quiet_getCurrentUser _) fun _ =>
        Tx.emits_bind (quiet_renterOf _) fun o => ?_) fun _ => trivial)
      cases o with
      | none => exact trivial
      | some renter => exact Tx.emits_bind Tx.emits_select fun _ => quiet_rentalsWithCost _
  | fleet request => exact accounts_of_quiet hrules (Tx.emits_bind (quiet_route _) fun _ => trivial)

theorem accountCommit_rules : ErasureRules P Database.KeepsOut (AccountCommit P) where
  refl := KeepsOut.refl
  trans := KeepsOut.trans
  quiet _ _ h := .quiet h
  erasure _ _ _ _ _ _ _ _ ht hrow _ := .erasure ht hrow

theorem handler_accounts (r : ApiRequest) :
    Accounts Database.KeepsOut (AccountCommit P) (r.handler P) s :=
  handler_erasures accountCommit_rules r

end Requests

/-! ## What an inactive account gets -/

section Inactive
variable {u : Int}

/-- No password gives the account, and no token of it is accepted. -/
structure LockedOut (P : Platform) (u : Int) (db : Database) : Prop where
  authenticate : ∀ email password env n user c, (authenticate P email password).eval dialect env
    ⟨db, [], n⟩ = (.ok (some user), c) → user.id ≠ u
  token : ∀ env n user c, (getCurrentUser (some u)).eval dialect env ⟨db, [], n⟩ ≠ (.ok user, c)

theorem Database.Inactive.id_ne (h : db.Inactive u) {user : User} (hrow : user ∈ db.users.rows)
    (hactive : user.isActive = true) : user.id ≠ u := by
  rintro rfl
  obtain ⟨row, hfind, hinactive⟩ := h
  obtain rfl := Option.some.inj ((Table.find?_key hrow).symm.trans hfind)
  rw [hactive] at hinactive
  cases hinactive

theorem Database.Inactive.lockedOut (h : db.Inactive u) : LockedOut P u db where
  authenticate email password env n user c heval := by
    have hwp : Tx.Wp dialect (fun _ => True) (fun r _ _ => ∀ user : User, r = .ok (some user) → user.id ≠ u)
        (FleetManagement.authenticate P email password) db [] := by
      refine Tx.wp_bind (wp_getUserByEmail (fun o ho => ?_) fun e user huser => by cases huser)
      cases o with
      | none => exact fun user huser => by cases huser
      | some row =>
          simp only
          split
          · exact fun user huser => by cases huser
          · rename_i hok
            intro user huser
            cases huser
            exact h.id_ne (ho row rfl) (by simp_all)
    have hsound : ∀ user, ((authenticate P email password).eval dialect env ⟨db, [], n⟩).1 = .ok (some user) →
        user.id ≠ u := Tx.wp_sound (fun _ => trivial) n hwp
    rw [heval] at hsound
    exact hsound user rfl
  token env n user c heval := by
    have hwp : Tx.Wp dialect (fun _ => True) (fun r _ _ => ∀ user : User, r ≠ .ok user)
        (getCurrentUser (some u)) db [] := by
      refine wp_getCurrentUser (fun actor htoken hrow hactive => ?_) fun e user huser => by cases huser
      cases htoken
      exact absurd rfl (h.id_ne (Table.mem_of_find? hrow) hactive)
    have hsound : ∀ user, ((getCurrentUser (some u)).eval dialect env ⟨db, [], n⟩).1 ≠ .ok user :=
      Tx.wp_sound (fun _ => trivial) n hwp
    rw [heval] at hsound
    exact hsound user rfl

/-- All answers of the handler satisfy `Q` as long as the account `u` is inactive. -/
abbrev Gives (u : Int) {α : Type} (Q : α → Prop) (t : Db α) : Prop :=
  Tx.Answers dialect (fun db => db.Inactive u) Q t []

section Gives
variable {α : Type} {Q : α → Prop}

theorem gives_get {ρ : Type} [Keyed ρ] {table : Database → Table ρ} {id : Int} {f : Option ρ → Db α}
    (h : ∀ db : Database, db.Inactive u → Gives u Q (f ((table db).find? id))) :
    Gives u Q (get table id >>= f) := by
  unfold get integerParameter
  split
  · rw [Tx.bind_assoc, Tx.pure_eq, Tx.ret_bind, Tx.bind_assoc]
    refine Tx.answers_select fun db hdb v hv => ?_
    cases hv
    exact h db hdb
  · exact trivial

/-- A token of an inactive account is rejected. -/
theorem gives_getCurrentUser {token : Option Int} (h : token = some u) (f : User → Db α) :
    Gives u Q (getCurrentUser token >>= f) := by
  unfold getCurrentUser
  subst h
  simp only [Tx.bind_assoc]
  refine gives_get fun db hdb => ?_
  cases hrow : db.users.find? u with
  | none => exact trivial
  | some user =>
      have hid : user.id = u := Table.key_of_find? hrow
      have hinactive : ¬ user.isActive = true := fun hactive =>
        hdb.id_ne (Table.mem_of_find? hrow) hactive hid
      simp only [hinactive]
      exact trivial

theorem gives_requireAdmin {token : Option Int} (h : token = some u) (f : User → Db α) :
    Gives u Q (requireAdmin token >>= f) := by
  unfold requireAdmin requireRole
  rw [Tx.bind_assoc]
  exact gives_getCurrentUser h _

theorem gives_subjectAccess {eventType correlationId : String} {token : Option Int} {userId : Int}
    (h : token = some u) (f : SubjectAccess → Db α) :
    Gives u Q (subjectAccess eventType token userId correlationId >>= f) := by
  unfold subjectAccess
  rw [Tx.bind_assoc]
  exact gives_getCurrentUser h _

theorem gives_acceptOrGenerate {header : Option String} {f : String → Db α} (h : ∀ id, Gives u Q (f id)) :
    Gives u Q (acceptOrGenerate header >>= f) := by
  have hdraw : Gives u Q (uuid4 >>= fun x => f x.val) := fun d => h _
  unfold acceptOrGenerate
  cases header with
  | none => exact hdraw
  | some id =>
      simp only
      split
      · exact h id
      · exact hdraw

/-- The password of an inactive account gives another account, if any. -/
theorem gives_login (P : Platform) (username password : String) (ipAddress userAgent : Option String) :
    Gives u (fun user : User => user.id ≠ u) (login P username password ipAddress userAgent) := by
  unfold login authenticate getUserByEmail
  simp only [Tx.bind_assoc]
  refine Tx.answers_select fun db hdb v hv => ?_
  cases hv
  generalize hrows : db.users.rows.filter (fun user => user.email = normalizeEmail P username) = rows
  rcases rows with _ | ⟨user, _ | ⟨other, rows⟩⟩
  · exact trivial
  · have hrow : user ∈ db.users.rows :=
      List.mem_of_mem_filter (hrows.symm ▸ List.mem_singleton_self user)
    simp only [scalarOneOrNone, Tx.pure_eq, Tx.ret_bind]
    split
    · exact trivial
    · rename_i hok
      have hid : user.id ≠ u := hdb.id_ne hrow (by simp_all)
      rw [Tx.ret_bind]
      exact Tx.answers_bind_any fun _ _ => hid
  · exact trivial

end Gives

/-- What a request of the account, or a login, must not be answered. -/
def Denied (u : Int) (r : ApiRequest) (response : ApiResponse) : Prop :=
  r.token? ≠ some u ∧ ∀ role, response ≠ .privacy (.token u role)

theorem gives_privacyHandler {r : PrivacyRequest} {correlationId : String} :
    Gives u (fun response => r.token? ≠ some u ∧ ∀ role, response ≠ .token u role)
      (r.handler P correlationId) := by
  unfold PrivacyRequest.handler
  cases r with
  | register => exact Tx.answers_bind_any fun _ _ => ⟨nofun, nofun⟩
  | login username password ipAddress userAgent =>
      refine Tx.answers_bind ((gives_login P username password ipAddress userAgent).mono ?_)
      intro user hid ws
      exact ⟨nofun, fun role heq => hid (PrivacyResponse.token.inj heq).1⟩
  | dispatchMarketing token =>
      by_cases h : token = some u
      · exact gives_requireAdmin h _
      · exact Tx.answers_bind_any fun _ _ => Tx.answers_bind_any fun _ _ => ⟨h, nofun⟩
  | createRenterProfile token userId =>
      by_cases h : token = some u
      · exact gives_subjectAccess h _
      · exact Tx.answers_bind_any fun _ _ => Tx.answers_bind_any fun _ _ => ⟨h, nofun⟩
  | anonymize token userId =>
      by_cases h : token = some u
      · exact gives_subjectAccess h _
      · exact Tx.answers_bind_any fun _ _ => Tx.answers_bind_any fun _ _ => ⟨h, nofun⟩
  | grantConsent token userId =>
      by_cases h : token = some u
      · exact gives_subjectAccess h _
      · exact Tx.answers_bind_any fun _ _ => Tx.answers_bind_any fun _ _ =>
          Tx.answers_bind_any fun _ _ => ⟨h, nofun⟩
  | revokeConsent token userId =>
      by_cases h : token = some u
      · exact gives_subjectAccess h _
      · exact Tx.answers_bind_any fun _ _ => Tx.answers_bind_any fun _ _ =>
          Tx.answers_bind_any fun _ _ => ⟨h, nofun⟩
  | queueMarketingEmail token userId =>
      by_cases h : token = some u
      · exact gives_subjectAccess h _
      · exact Tx.answers_bind_any fun _ _ => Tx.answers_bind_any fun _ _ =>
          Tx.answers_bind_any fun _ _ => ⟨h, nofun⟩
  | trackAnalyticsEvent token userId =>
      by_cases h : token = some u
      · exact gives_subjectAccess h _
      · exact Tx.answers_bind_any fun _ _ => Tx.answers_bind_any fun _ _ =>
          Tx.answers_bind_any fun _ _ => ⟨h, nofun⟩

/-- While the account is inactive, no request with a token of it is answered, and no login gives it. -/
theorem gives_handler (r : ApiRequest) : Gives u (Denied u r) (r.handler P) := by
  unfold ApiRequest.handler
  cases r with
  | privacy call =>
      refine Tx.answers_bind (Tx.Answers.mono
        (gives_acceptOrGenerate fun id => gives_privacyHandler (r := call.request)) ?_)
      exact fun response h ws => ⟨h.1, fun role heq => h.2 role (ApiResponse.privacy.inj heq)⟩
  | subject call =>
      by_cases h : call.token = some u
      · simp only [SubjectCall.handler, Tx.bind_assoc]
        refine gives_acceptOrGenerate fun id => ?_
        obtain ⟨rest, hrest⟩ := handler_guarded P call.token call.userId id call.request
        rw [hrest, Tx.bind_assoc]
        exact gives_subjectAccess h _
      · exact Tx.answers_bind_any fun _ _ => ⟨h, nofun⟩
  | readMe token =>
      by_cases h : token = some u
      · exact gives_getCurrentUser h _
      · exact Tx.answers_bind_any fun _ _ => ⟨h, nofun⟩
  | home role token =>
      by_cases h : token = some u
      · unfold requireRole
        simp only [Tx.bind_assoc]
        exact gives_getCurrentUser h _
      · exact Tx.answers_bind_any fun _ _ => ⟨h, nofun⟩
  | listUsers token =>
      by_cases h : token = some u
      · unfold listUsers
        simp only [Tx.bind_assoc]
        exact gives_requireAdmin h _
      · exact Tx.answers_bind_any fun _ _ => ⟨h, nofun⟩
  | createAdmin token email password fullName phone =>
      by_cases h : token = some u
      · unfold createAdmin
        simp only [Tx.bind_assoc]
        exact gives_requireAdmin h _
      · exact Tx.answers_bind_any fun _ _ => ⟨h, nofun⟩
  | createAdminCommand email password fullName =>
      exact Tx.answers_bind_any fun _ _ => ⟨nofun, nofun⟩
  | myRenterProfile token =>
      by_cases h : token = some u
      · unfold myRenterProfile
        simp only [Tx.bind_assoc]
        exact gives_getCurrentUser h _
      · exact Tx.answers_bind_any fun _ _ => ⟨h, nofun⟩
  | myRentals token =>
      by_cases h : token = some u
      · unfold myRentals
        simp only [Tx.bind_assoc]
        exact gives_getCurrentUser h _
      · exact Tx.answers_bind_any fun _ _ => ⟨h, nofun⟩
  | fleet request => exact Tx.answers_bind_any fun _ _ => ⟨nofun, nofun⟩

end Inactive

/-! ## Runs of the API -/

section Runs
variable {ι : Type} [DecidableEq ι]

abbrev ApiPool (ι : Type) := Pool ι Database Stmt RowKey Draw Error ApiResponse

def apiRequests (P : Platform) (db : Database) (requests : ι → ApiRequest) : ApiPool ι :=
  Pool.init db fun i => (requests i).handler P

/-- The step commits an erasure of the account `u`. -/
def commitsErasure (u : Int) (p : ApiPool ι) (a : ι × Choice Draw Error) : Bool :=
  (p.publishes dialect a).any (erasesAccount u)

/-- The request `i` has not made a step. -/
def ApiPool.NotBegun (P : Platform) (requests : ι → ApiRequest) (p : ApiPool ι) (i : ι) : Prop :=
  p.procs i = ⟨(requests i).handler P, []⟩

def CommitsAccounts (P : Platform) (p : ApiPool ι) : Prop :=
  p.AllMeet dialect (fun _ => True) Database.KeepsOut fun _ => AccountCommit P

variable {p : ApiPool ι} {a : ι × Choice Draw Error}

theorem CommitsAccounts.keepsOut (h : CommitsAccounts P p) :
    p.store.KeepsOut (p.step dialect a).store := by
  cases hpub : p.publishes dialect a with
  | none =>
      rw [(Pool.step_of_silent hpub).1]
      exact KeepsOut.refl _
  | some ws =>
      obtain ⟨s, hs, hst, -⟩ := Pool.step_of_publishes hpub
      rw [hst]
      exact ((h.publishes KeepsOut.refl trivial hpub).effect hs).1

theorem CommitsAccounts.step (h : CommitsAccounts P p) : CommitsAccounts P (p.step dialect a) :=
  Pool.AllMeet.step KeepsOut.refl KeepsOut.trans trivial h h.keepsOut

theorem CommitsAccounts.inactive (h : CommitsAccounts P p) {u : Int}
    (herases : commitsErasure u p a = true) : (p.step dialect a).store.Inactive u := by
  unfold commitsErasure at herases
  cases hpub : p.publishes dialect a with
  | none => rw [hpub] at herases; cases herases
  | some ws =>
      rw [hpub] at herases
      obtain ⟨s, hs, hst, -⟩ := Pool.step_of_publishes hpub
      rw [hst]
      exact ((h.publishes KeepsOut.refl trivial hpub).effect hs).2 u herases

/-- The account is out, and the requests that had not begun are answered accordingly. -/
structure ShutOut (P : Platform) (u : Int) (requests : ι → ApiRequest) (late : ι → Prop) (p : ApiPool ι) :
    Prop where
  commits : CommitsAccounts P p
  inactive : p.store.Inactive u
  late : ∀ i, late i → Tx.Answers dialect (fun db => db.Inactive u) (Denied u (requests i))
    (p.procs i).prog (p.procs i).pending

theorem ShutOut.step {u : Int} {requests : ι → ApiRequest} {late : ι → Prop}
    (h : ShutOut P u requests late p) : ShutOut P u requests late (p.step dialect a) where
  commits := h.commits.step
  inactive := h.commits.keepsOut u h.inactive
  late i hi := Pool.answers_step h.inactive (h.commits.keepsOut u h.inactive) (h.late i hi)

/-- In every run, from the commit of an erasure on: no password gives the account, no token of it is
accepted, and no request that begins then is answered with its token or to a token of it. -/
theorem erased_account_stays_locked_out (requests : ι → ApiRequest)
    (schedule : List (ι × Choice Draw Error)) (u : Int) {p q : ApiPool ι}
    (htakes : Runs.Takes (Pool.step dialect) (apiRequests P db requests) schedule p a)
    (herases : commitsErasure u p a = true)
    (hlater : Runs.VisitsThen (Pool.step dialect) (apiRequests P db requests) schedule
      (p.step dialect a) q) :
    LockedOut P u q.store ∧ ∀ i, ApiPool.NotBegun P requests (p.step dialect a) i →
      ∀ response, (q.procs i).prog = .ret response → Denied u (requests i) response := by
  have hinit : CommitsAccounts P (apiRequests P db requests) := fun i => handler_accounts (requests i)
  have hp : CommitsAccounts P p :=
    Runs.invariant_of_step (fun _ _ h => CommitsAccounts.step h) hinit p htakes.visits
  have hshut : ShutOut P u requests (ApiPool.NotBegun P requests (p.step dialect a))
      (p.step dialect a) := by
    refine ⟨hp.step, hp.inactive herases, fun i hi => ?_⟩
    rw [hi]
    exact gives_handler (requests i)
  obtain ⟨bs, cs, -, hbs, rfl⟩ := hlater
  have hq : ShutOut P u requests (ApiPool.NotBegun P requests (p.step dialect a))
      (Runs.run (Pool.step dialect) (p.step dialect a) cs) :=
    Runs.invariant_of_step (fun _ _ h => ShutOut.step h) hshut _ (Runs.Visits.last _ cs)
  refine ⟨hq.inactive.lockedOut, fun i hi response hret => ?_⟩
  have hgives := hq.late i hi
  rw [hret] at hgives
  exact hgives

end Runs

/-! ## Two overlapping erasures, a login and a token -/

def lateRequests : Nat → ApiRequest
  | 0 => .privacy ⟨some "c", .anonymize (some 1) 1⟩
  | 1 => .privacy ⟨some "c", .anonymize (some 1) 1⟩
  | 2 => .privacy ⟨some "c", .login "ivan@fleet.org" "secret" none none⟩
  | _ => .readMe (some 1)

/-- Both erasures load the account, and the first one runs up to its commit. -/
def untilErasure : List (Nat × Choice Draw Error) :=
  [(0, stepAt 1), (1, stepAt 2)] ++ List.replicate 15 (0, stepAt 3)

/-- The second erasure goes on, and the other requests begin. -/
def afterErasure : List (Nat × Choice Draw Error) :=
  List.replicate 16 (1, stepAt 4) ++ [(2, stepAt 5), (3, stepAt 6)]

theorem ivan_stays_locked_out :
    let p := Runs.run (Pool.step dialect) (apiRequests plainPlatform clientele lateRequests) untilErasure
    let q := Runs.run (Pool.step dialect) (p.step dialect (0, stepAt 4)) afterErasure
    commitsErasure 1 p (0, stepAt 4) = true ∧ LockedOut plainPlatform 1 q.store ∧
      ∀ i, ApiPool.NotBegun plainPlatform lateRequests (p.step dialect (0, stepAt 4)) i →
        ∀ response, (q.procs i).prog = .ret response → Denied 1 (lateRequests i) response := by
  have herases : commitsErasure 1 (Runs.run (Pool.step dialect)
      (apiRequests plainPlatform clientele lateRequests) untilErasure) (0, stepAt 4) = true := by
    decide +kernel
  exact ⟨herases, erased_account_stays_locked_out lateRequests
    (untilErasure ++ [(0, stepAt 4)] ++ afterErasure) 1 ⟨_, List.prefix_append _ _, rfl⟩ herases
    ⟨untilErasure ++ [(0, stepAt 4)], afterErasure, List.prefix_refl _, Runs.run_append _ _ _, rfl⟩⟩

end FleetManagement
