import FleetManagement.Api.Refusals

/-!
# The audit log

Nothing is ever taken out of `audit_events`, and its events can be told from how the requests end: a request
to a guarded route writes one as its last act or none at all, and no other request writes any.
-/

namespace FleetManagement

variable {P : Platform} {V : Database → Prop} {B : Error → Prop} {db db' s : Database}

/-! ## Events -/

/-- The event that the statement inserts, before the table gives it an id. -/
@[simp] def Stmt.auditEvent? : Stmt → Option AuditEvent
  | .insertAuditEvent row => some { row with id := 0 }
  | _ => none

def auditsOf (ws : List Stmt) : List AuditEvent := ws.filterMap Stmt.auditEvent?

@[simp] abbrev Stmt.Unaudited (w : Stmt) : Prop := w.auditEvent? = none

theorem auditsOf_eq_nil {ws : List Stmt} (h : ∀ w ∈ ws, w.Unaudited) : auditsOf ws = [] :=
  List.filterMap_eq_nil_iff.mpr h

theorem auditsOf_cons (w : Stmt) (ws : List Stmt) :
    auditsOf (w :: ws) = w.auditEvent?.toList ++ auditsOf ws := by
  rw [auditsOf, List.filterMap_cons]
  cases w.auditEvent? <;> rfl

/-- The audit table before and after, and the events that were added. -/
def Database.AddsAudits (db db' : Database) (events : List AuditEvent) : Prop :=
  ∃ added, db'.auditEvents.rows = db.auditEvents.rows ++ added ∧
    added.map (fun event => { event with id := 0 }) = events

theorem Database.AddsAudits.trans {db'' : Database} {events events' : List AuditEvent}
    (h : db.AddsAudits db' events) (h' : db'.AddsAudits db'' events') : db.AddsAudits db'' (events ++ events') := by
  obtain ⟨added, hrows, hevents⟩ := h
  obtain ⟨added', hrows', hevents'⟩ := h'
  exact ⟨added ++ added', by rw [hrows', hrows, List.append_assoc], by rw [List.map_append, hevents, hevents']⟩

theorem addsAudits_of_apply {w : Stmt} (h : dialect.apply w db = .ok db') :
    db.AddsAudits db' w.auditEvent?.toList := by
  have same : db'.auditEvents = db.auditEvents → db.AddsAudits db' [] := by
    intro heq
    exact ⟨[], by rw [heq, List.append_nil], rfl⟩
  cases w with
  | insertAuditEvent row =>
      obtain ⟨-, hseq, rfl⟩ := insertAuditEvent_ok.mp h
      exact ⟨[{ row with id := db.auditEvents.seq + 1 }], by simp, rfl⟩
  | insertStation => obtain ⟨-, hseq, rfl⟩ := insertStation_ok.mp h; exact same rfl
  | insertVehicle => obtain ⟨-, hseq, rfl⟩ := insertVehicle_ok.mp h; exact same rfl
  | insertRenter => obtain ⟨-, hseq, rfl⟩ := insertRenter_ok.mp h; exact same rfl
  | insertRental => obtain ⟨-, hseq, rfl⟩ := insertRental_ok.mp h; exact same rfl
  | insertUser => obtain ⟨-, hseq, rfl⟩ := insertUser_ok.mp h; exact same rfl
  | insertUserConsent => obtain ⟨-, hseq, rfl⟩ := insertUserConsent_ok.mp h; exact same rfl
  | insertConsentHistory => obtain ⟨-, hseq, rfl⟩ := insertConsentHistory_ok.mp h; exact same rfl
  | insertUserActivity => obtain ⟨-, hseq, rfl⟩ := insertUserActivity_ok.mp h; exact same rfl
  | insertMarketingMessage => obtain ⟨-, hseq, rfl⟩ := insertMarketingMessage_ok.mp h; exact same rfl
  | insertAnalyticsEvent => obtain ⟨-, hseq, rfl⟩ := insertAnalyticsEvent_ok.mp h; exact same rfl
  | updateVehicle => obtain ⟨-, -, rfl⟩ := updateVehicle_ok.mp h; exact same rfl
  | updateRental => obtain ⟨-, -, rfl⟩ := updateRental_ok.mp h; exact same rfl
  | updateUser => obtain ⟨-, -, rfl⟩ := updateUser_ok.mp h; exact same rfl
  | updateRenter => obtain ⟨-, -, rfl⟩ := updateRenter_ok.mp h; exact same rfl
  | updateUserConsent => obtain ⟨-, -, rfl⟩ := updateUserConsent_ok.mp h; exact same rfl
  | updateMarketingMessage => obtain ⟨-, rfl⟩ := updateMarketingMessage_ok.mp h; exact same rfl
  | deleteUserActivity => cases h; exact same rfl
  | deleteMarketingMessages => cases h; exact same rfl
  | deleteAnalyticsEvents => cases h; exact same rfl

theorem addsAudits_of_applyAll {ws : List Stmt} (h : dialect.applyAll ws db = .ok db') :
    db.AddsAudits db' (auditsOf ws) := by
  induction ws generalizing db with
  | nil => cases h; exact ⟨[], by simp, rfl⟩
  | cons w ws ih =>
      obtain ⟨db₁, h₁, h⟩ := dialect.applyAll_cons_ok.mp h
      rw [auditsOf_cons]
      exact (addsAudits_of_apply h₁).trans (ih h)

/-! ## What the log says of a request -/

/-- What a request to a guarded route under `/api/users/{user_id}` asks for. -/
structure Access where
  header : Option String
  token : Option Int
  userId : Int
  eventType : String

def PrivacyRequest.access? (header : Option String) : PrivacyRequest → Option Access
  | .createRenterProfile token userId .. => some ⟨header, token, userId, "renter_profile_create"⟩
  | .grantConsent token userId .. => some ⟨header, token, userId, "consent_grant"⟩
  | .revokeConsent token userId .. => some ⟨header, token, userId, "consent_revoke"⟩
  | .queueMarketingEmail token userId _ => some ⟨header, token, userId, "marketing_email_request"⟩
  | .trackAnalyticsEvent token userId _ => some ⟨header, token, userId, "analytics_event_request"⟩
  | .anonymize token userId => some ⟨header, token, userId, "user_anonymize"⟩
  | _ => none

def ApiRequest.access? : ApiRequest → Option Access
  | .privacy call => call.request.access? call.header
  | .subject call => some ⟨call.header, call.token, call.userId, call.request.eventType⟩
  | _ => none

/-- One event of the access, which has the id of the request. -/
def Access.Wrote (a : Access) (eventType result : String) (told : List AuditEvent) : Prop :=
  ∃ actor id t, a.token = some actor ∧ Correlates a.header id ∧
    told = [auditEvent eventType (some actor) (some a.userId) result id t]

def ErasureStatus.audited : ErasureStatus → String
  | .anonymized => "anonymized"
  | .alreadyAnonymized => "already_anonymized"

def PrivacyResponse.audited? : PrivacyResponse → Option String
  | .erasure result => some result.status.audited
  | _ => none

/-- The result that is recorded of the answer. -/
def ApiResponse.audited? : ApiResponse → Option String
  | .privacy response => response.audited?
  | .subject (.privacy response) => response.audited?
  | .subject (.personalData _) => some "ok"
  | _ => none

/-- The refusals that are recorded. -/
def Error.isAudited : Error → Bool
  | .notFound detail => detail = "User not found"
  | .consentDenied .. => true
  | _ => false

/-- The events of a request to a guarded route that has ended, and the states of the run that explain them. -/
inductive Access.Told (V : Database → Prop) (a : Access) : Except Error (Option String) → List AuditEvent → Prop
  | denied {t : Database} {actor : User} {told : List AuditEvent} (ht : V t)
      (htoken : a.token = some actor.id) (hactor : t.users.find? actor.id = some actor)
      (hother : actor.id ≠ a.userId) (hrole : actor.role ≠ .admin) (h : a.Wrote a.eventType "denied" told) :
      Told V a (.error (.notFound "User not found")) told
  | notFound {t : Database} {told : List AuditEvent} (ht : V t) (hmay : t.MayActFor a.token a.userId)
      (hmissing : ∃ t, V t ∧ t.users.find? a.userId = none) (h : a.Wrote a.eventType "not_found" told) :
      Told V a (.error (.notFound "User not found")) told
  | noConsent {t : Database} {purpose : ConsentPurpose} {reason : String} {told : List AuditEvent} (ht : V t)
      (hmay : t.MayActFor a.token a.userId) (hgate : GateDenies V a.userId purpose reason)
      (h : a.Wrote (purpose.value.toLower ++ "_action") ("DENY:" ++ reason) told) :
      Told V a (.error (.consentDenied purpose.value reason)) told
  | answered {t : Database} {result : String} {told : List AuditEvent} (ht : V t)
      (hmay : t.MayActFor a.token a.userId) (h : a.Wrote a.eventType result told) :
      Told V a (.ok (some result)) told
  | silent : Told V a (.ok none) []
  | failed {e : Error} (he : e.isAudited = false) : Told V a (.error e) []

/-- Only the guarded routes write events. -/
def ApiRequest.Told (V : Database → Prop) (r : ApiRequest) (o : Except Error ApiResponse)
    (told : List AuditEvent) : Prop :=
  match r.access? with
  | none => told = []
  | some a => a.Told V (o.map ApiResponse.audited?) told

/-! ## Handlers among others -/

section Handlers
variable {α β : Type} {E : Error → List AuditEvent → Prop}

/-- How a handler can end among others, and the events that it has written. -/
abbrev Telling (V : Database → Prop) (B : Error → Prop) (E : Error → List AuditEvent → Prop)
    (Q : α → Database → List Stmt → List AuditEvent → Prop) (t : Db α) (s : Database) (ws : List Stmt) : Prop :=
  Tx.Reports dialect (fun t => t.Sound ∧ V t) Database.Keeps B auditsOf (fun e _ told => E e told) Q t s ws []

/-- A handler that writes no event. -/
theorem telling_of_among {Q : α → Database → List Stmt → List AuditEvent → Prop} {t : Db α} {ws : List Stmt}
    (ht : Tx.Emits Stmt.Unaudited t) (hws : ∀ w ∈ ws, w.Unaudited)
    (h : Among V B (fun e _ => E e []) (fun a s ws => (∀ w ∈ ws, w.Unaudited) → Q a s ws []) t s ws) :
    Telling V B E Q t s ws := by
  refine (Tx.Rely.reports (fun _ => auditsOf_eq_nil) h ht hws).mono (fun e s told he => ?_)
    fun a s ws told ha => ?_
  · obtain ⟨rfl, he⟩ := he
    exact he
  · obtain ⟨rfl, hws, hQ⟩ := ha
    exact hQ hws

/-- A part that writes no event, in an open transaction. -/
theorem telling_bindOpen {Q : β → Database → List Stmt → List AuditEvent → Prop} {t : Db α} {f : α → Db β}
    {ws : List Stmt} (ht : Tx.Emits Stmt.Unaudited t) (hws : ∀ w ∈ ws, w.Unaudited)
    (h : Among V B (fun e _ => E e [])
      (fun a s ws => (∀ w ∈ ws, w.Unaudited) → Telling V B E Q (f a) s ws) t s ws) :
    Telling V B E Q (t >>= f) s ws := Tx.reports_bind (telling_of_among ht hws h)

theorem telling_bind {Q : β → Database → List Stmt → List AuditEvent → Prop} {t : Db α} {f : α → Db β}
    (ht : Tx.Emits Stmt.Unaudited t)
    (h : Among V B (fun e _ => E e []) (fun a s ws => Telling V B E Q (f a) s ws) t s []) :
    Telling V B E Q (t >>= f) s [] :=
  telling_bindOpen ht (by simp) (h.mono (fun _ _ _ he => he) fun _ _ _ _ ha _ => ha)

theorem telling_recordAuditEvent (hE : Tolerates B fun e _ => E e []) {eventType result correlationId : String}
    {actorId subjectId : Option Int} {Q : Unit → Database → List Stmt → List AuditEvent → Prop}
    (h : ∀ t u, Q () u [] [auditEvent eventType actorId subjectId result correlationId t]) :
    Telling V B E Q (recordAuditEvent eventType actorId subjectId result correlationId) s [] := by
  refine telling_bind quiet_now (among_now fun t => ?_)
  refine Tx.reports_bind (Tx.reports_commitAll (fun u v _ _ _ => h t v) fun u e _ _ he => ?_)
  have hfails : Fails (fun e => E e []) (dialect.applyAll
      [.insertAuditEvent (auditEvent eventType actorId subjectId result correlationId t)] u) :=
    fails_applyAll_singleton (fails_insertAuditEvent (hE.data u))
  exact he.elim (hfails e) (hE.fault e u)

/-! ### Access and consent -/

theorem telling_subjectAccess (hE : Tolerates B fun e _ => E e []) {a : Access} {correlationId : String}
    (hid : Correlates a.header correlationId) (hdeny : E unauthorized [])
    (hrefuse : ∀ told, a.Told V (.error (.notFound "User not found")) told → E (.notFound "User not found") told)
    {Q : SubjectAccess → Database → List Stmt → List AuditEvent → Prop}
    (h : ∀ t access, access.subject.id = a.userId → a.token = some access.actor.id →
      (∃ t, V t ∧ t.MayActFor a.token a.userId) → (∃ t, V t ∧ access.subject ∈ t.users.rows) →
      (∃ row, t.users.find? a.userId = some row) → Q access t [] []) :
    Telling V B E Q (subjectAccess a.eventType a.token a.userId correlationId) s [] := by
  unfold subjectAccess
  refine telling_bind (quiet_getCurrentUser _) (among_getCurrentUser hE (fun _ _ => hdeny)
    fun t actor hV _ htoken hactor => ?_)
  have hwrite : ∀ result t', (∀ told, a.Wrote a.eventType result told →
      a.Told V (.error (.notFound "User not found")) told) → Telling V B E Q (do
        recordAuditEvent a.eventType (some actor.id) (some a.userId) result correlationId
        throw (.notFound "User not found")) t' [] := fun result t' hwrote =>
    Tx.reports_bind (telling_recordAuditEvent hE fun d u =>
      hrefuse _ (hwrote _ ⟨actor.id, correlationId, d, htoken, hid, rfl⟩))
  by_cases hself : actor.id = a.userId
  · have hfind : getUser [actor] a.userId = pure (some actor) := by simp [getUser, IdentityMap.find, hself]
    simp only [hself, true_or, if_true, hfind]
    exact h t ⟨actor, actor⟩ hself htoken ⟨t, hV, Or.inl (by rw [htoken, hself])⟩
      ⟨t, hV, Table.mem_of_find? hactor⟩ ⟨actor, hself ▸ hactor⟩
  · have hfind : getUser [actor] a.userId = get Database.users a.userId := by
      simp [getUser, IdentityMap.find, hself]
    by_cases hrole : actor.role = .admin
    · have hmay : t.MayActFor a.token a.userId := Or.inr ⟨actor.id, htoken, actor, hactor, hrole⟩
      simp only [hrole, or_true, if_true, hfind]
      refine telling_bind (quiet_get _ _) (among_get hE fun t' _ hV' _ => ?_)
      cases hrow : t'.users.find? a.userId with
      | none => exact hwrite _ t' fun told => .notFound hV hmay ⟨t', hV', hrow⟩
      | some subject =>
          exact h t' ⟨subject, actor⟩ (Table.key_of_find? hrow) htoken ⟨t, hV, hmay⟩
            ⟨t', hV', Table.mem_of_find? hrow⟩ ⟨subject, hrow⟩
    · simp only [hself, hrole, or_self, if_false]
      exact hwrite _ t fun told => .denied hV htoken hactor hself hrole

theorem telling_requireConsent (hE : Tolerates B fun e _ => E e []) {userId actorId : Int}
    {purpose : ConsentPurpose} {correlationId : String} {Q : Unit → Database → List Stmt → List AuditEvent → Prop}
    (hdeny : ∀ reason d, GateDenies V userId purpose reason → E (.consentDenied purpose.value reason)
      [auditEvent (purpose.value.toLower ++ "_action") (some actorId) (some userId) ("DENY:" ++ reason)
        correlationId d])
    (h : ∀ t, s.Keeps t → Q () t [] []) :
    Telling V B E Q (requireConsent userId purpose actorId correlationId) s [] := by
  unfold requireConsent
  refine telling_bind (quiet_checkConsent _ _) (Tx.rely_bind (among_getCurrent hE fun t o hV hst ho => ?_))
  cases hdecide : decideGate o currentPolicyVersion with
  | mk allowed reason =>
      cases allowed with
      | true => exact h t hst
      | false =>
          exact Tx.reports_bind (telling_recordAuditEvent hE fun d u =>
            hdeny reason d ⟨t, o, hV, ho, hdecide⟩)

/-! ### Handlers without events -/

theorem unaudited_acceptOrGenerate (header : Option String) :
    Tx.Emits Stmt.Unaudited (acceptOrGenerate header) := by
  unfold acceptOrGenerate
  cases header with
  | none => exact fun _ => trivial
  | some id => exact quiet_ite trivial fun _ => trivial

theorem unaudited_createUser {email password fullName : String} {role : UserRole} {phone : Option String} :
    Tx.Emits Stmt.Unaudited (createUser P email password fullName role phone) := by
  refine Tx.emits_bind Tx.emits_sample fun d => Tx.emits_bind quiet_now fun t => ?_
  refine Tx.emits_bind (Tx.emits_tryCatch (Tx.emits_commitAll (by simp)) fun e => ?_)
    fun _ => quiet_refresh _ _
  exact quiet_ite (Tx.emits_bind Tx.emits_rollbackAll fun _ => trivial) trivial

theorem unaudited_createRenterProfile {a : SubjectAccess} {fullName licenseNumber : String} :
    Tx.Emits Stmt.Unaudited (createRenterProfile a fullName licenseNumber) := by
  refine Tx.emits_bind (quiet_validate _) fun _ => ?_
  refine Tx.emits_bind (Tx.emits_tryCatch (Tx.emits_commitAll (by simp)) fun e => ?_)
    fun _ => trivial
  exact quiet_ite (Tx.emits_bind Tx.emits_rollbackAll fun _ => trivial) trivial

theorem unaudited_grant {userId : Int} {purpose : ConsentPurpose} {policyVersion source : String} :
    Tx.Emits Stmt.Unaudited (grant userId purpose policyVersion source) := by
  have honce : Tx.Emits Stmt.Unaudited (grantOnce userId purpose policyVersion source) := by
    refine Tx.emits_bind quiet_now fun t => Tx.emits_bind (quiet_getCurrent _ _ _) fun o => ?_
    refine quiet_ite trivial (Tx.emits_bind ?_ fun db => ?_)
    · cases o <;> exact Tx.emits_commitAll (by simp [grantFlush])
    · cases o <;> exact trivial
  refine Tx.emits_tryCatch honce fun e => ?_
  exact quiet_ite (Tx.emits_bind Tx.emits_rollbackAll fun _ => honce) trivial

theorem unaudited_revoke {userId : Int} {purpose : ConsentPurpose} {source : String} :
    Tx.Emits Stmt.Unaudited (revoke userId purpose source) := by
  refine Tx.emits_bind (quiet_getCurrent _ _ _) fun o => ?_
  cases o with
  | none => exact trivial
  | some c =>
      refine quiet_ite trivial (Tx.emits_bind quiet_now fun t => ?_)
      exact Tx.emits_bind (Tx.emits_commitAll (by simp [revokeFlush])) fun _ => trivial

theorem unaudited_login {username password : String} {ipAddress userAgent : Option String} :
    Tx.Emits Stmt.Unaudited (login P username password ipAddress userAgent) := by
  refine Tx.emits_bind (quiet_authenticate P username password) fun o => ?_
  cases o with
  | none => exact trivial
  | some user =>
      refine Tx.emits_bind (Tx.emits_bind quiet_now fun t => ?_) fun _ => trivial
      exact Tx.emits_bind (Tx.emits_commitAll (by simp)) fun _ => trivial

theorem unaudited_dispatchPendingMarketing : Tx.Emits Stmt.Unaudited dispatchPendingMarketing := by
  refine Tx.emits_bind quiet_now fun t => ?_
  refine Tx.emits_bind (Tx.emits_bind Tx.emits_select fun _ => quiet_verdicts _ _) fun outcomes => ?_
  exact Tx.emits_bind (Tx.emits_commitAll (by simp)) fun _ => trivial

theorem unaudited_withdrawFlush (consents : List UserConsent) (userId : Int) (source : String) (now : DateTime) :
    ∀ w ∈ withdrawFlush consents userId source now, w.Unaudited := by
  simp [withdrawFlush, or_imp, forall_and]

theorem unaudited_executeAll {ws : List Stmt} (h : ∀ w ∈ ws, w.Unaudited) :
    Tx.Emits Stmt.Unaudited (executeAll ws) := by
  induction ws with
  | nil => exact trivial
  | cons w ws ih =>
      exact Tx.emits_bind ⟨h w List.mem_cons_self, fun x => Tx.emits_ofExcept x⟩ fun _ =>
        ih fun w' hw' => h w' (List.mem_cons_of_mem _ hw')

theorem unaudited_anonymizeRenters (renters : List Renter) :
    Tx.Emits Stmt.Unaudited (anonymizeRenters renters) := by
  induction renters with
  | nil => exact trivial
  | cons r renters ih => exact Tx.emits_bind (fun _ => trivial) fun _ => Tx.emits_bind ih fun _ => trivial

/-- The requests to the routes that are not guarded. -/
theorem unaudited_handler {r : ApiRequest} (h : r.access? = none) : Tx.Emits Stmt.Unaudited (r.handler P) := by
  unfold ApiRequest.handler
  cases r with
  | privacy call =>
      obtain ⟨header, request⟩ := call
      refine Tx.emits_bind (Tx.emits_bind (unaudited_acceptOrGenerate header) fun id => ?_) fun _ => trivial
      cases request with
      | register email password fullName phone =>
          refine Tx.emits_bind ?_ fun _ => trivial
          unfold register
          cases P.validateEmail email with
          | none => exact trivial
          | some email => exact Tx.emits_bind (quiet_validate _) fun _ => unaudited_createUser
      | login => exact Tx.emits_bind unaudited_login fun _ => trivial
      | dispatchMarketing =>
          refine Tx.emits_bind (quiet_requireAdmin _) fun _ => ?_
          exact Tx.emits_bind unaudited_dispatchPendingMarketing fun _ => trivial
      | _ => cases h
  | subject call => cases h
  | readMe token => exact Tx.emits_bind (quiet_getCurrentUser _) fun _ => trivial
  | home role token =>
      refine Tx.emits_bind ?_ fun _ => trivial
      exact Tx.emits_bind (quiet_getCurrentUser _) fun _ => quiet_ite trivial trivial
  | listUsers token =>
      refine Tx.emits_bind ?_ fun _ => trivial
      exact Tx.emits_bind (quiet_requireAdmin _) fun _ => Tx.emits_bind Tx.emits_select fun _ => trivial
  | createAdmin token email password fullName phone =>
      refine Tx.emits_bind (Tx.emits_bind (quiet_requireAdmin _) fun _ => ?_) fun _ => trivial
      cases P.validateEmail email with
      | none => exact trivial
      | some email => exact Tx.emits_bind (quiet_validate _) fun _ => unaudited_createUser
  | createAdminCommand email password fullName =>
      refine Tx.emits_bind ?_ fun _ => trivial
      unfold createAdminCommand
      cases P.validateEmail email with
      | none => exact trivial
      | some email => exact Tx.emits_bind (quiet_validate _) fun _ => unaudited_createUser
  | myRenterProfile token =>
      refine Tx.emits_bind (Tx.emits_bind (quiet_getCurrentUser _) fun _ =>
        Tx.emits_bind (quiet_renterOf _) fun o => ?_) fun _ => trivial
      cases o <;> exact trivial
  | myRentals token =>
      refine Tx.emits_bind (Tx.emits_bind (quiet_getCurrentUser _) fun _ =>
        Tx.emits_bind (quiet_renterOf _) fun o => ?_) fun _ => trivial
      cases o with
      | none => exact trivial
      | some renter => exact Tx.emits_bind Tx.emits_select fun _ => quiet_rentalsWithCost _
  | fleet request =>
      refine Tx.emits_bind ((emits_route request).mono fun w hw => ?_) fun _ => trivial
      cases w with
      | insertAuditEvent row => cases hw
      | _ => rfl

/-! ### Erasures -/

theorem telling_erase (hE : ToleratesAll B fun e _ => E e []) {user : User} {now : DateTime}
    {Q : User × List Stmt × ErasureActions → Database → List Stmt → List AuditEvent → Prop}
    (h : ∀ r t ws, (∀ w ∈ ws ++ r.2.1, w.Unaudited) → Q r t ws []) :
    Telling V B E Q (erase P user now) s [] := by
  have hstmt : ∀ {w : Stmt}, w.Unaudited → Tx.Emits Stmt.Unaudited (Tx.execute w : Db Nat) := fun hw =>
    ⟨hw, fun x => Tx.emits_ofExcept x⟩
  unfold erase
  refine telling_bindOpen (fun _ _ _ => trivial) (by simp) (Tx.rely_bind (Tx.rely_bind (Tx.rely_sample fun d₁ =>
    Tx.rely_bind (Tx.rely_sample fun d₂ => Tx.rely_bind (Tx.rely_sample fun d₃ hws => ?_)))))
  refine telling_bindOpen (hstmt rfl) hws (among_execute hE fun _ _ _ _ hws => ?_)
  refine telling_bindOpen Tx.emits_select hws (among_selectOpen hE fun _ _ _ _ hws => ?_)
  refine telling_bindOpen (unaudited_anonymizeRenters _) hws
    (among_anonymizeRenters _ fun ws' hws' hws => ?_)
  refine telling_bindOpen (unaudited_executeAll fun w hw => ?_) hws (among_executeAll hE ws' fun _ _ hws => ?_)
  · obtain ⟨id, set, rfl⟩ := hws' w hw
    rfl
  refine telling_bindOpen (hstmt rfl) hws (among_execute hE fun _ _ _ _ hws => ?_)
  refine telling_bindOpen (hstmt rfl) hws (among_execute hE fun _ _ _ _ hws => ?_)
  refine telling_bindOpen (hstmt rfl) hws (among_execute hE fun _ _ _ _ hws => ?_)
  refine telling_bindOpen (Tx.emits_bind Tx.emits_select fun _ => Tx.emits_bind quiet_now fun _ => trivial) hws
    (Tx.rely_bind (among_selectOpen hE fun _ _ _ _ => Tx.rely_bind (among_now fun t hws => ?_)))
  refine h _ _ _ fun w hw => ?_
  rcases List.mem_append.mp hw with hw | hw
  · exact hws w hw
  · exact unaudited_withdrawFlush _ _ _ _ w hw

theorem entity_id (m : IdentityMap) (row : User) : (m.entity row).id = row.id := by
  unfold IdentityMap.entity IdentityMap.find
  cases h : List.find? (fun u => u.id = row.id) m with
  | none => rfl
  | some u => simpa using List.find?_some h

theorem telling_anonymizeUser (hE : ToleratesAll B fun e _ => E e []) {m : IdentityMap} {subjectId actorId : Int}
    {correlationId : String} {Q : ErasureResult → Database → List Stmt → List AuditEvent → Prop}
    (huser : ∃ row, s.users.find? subjectId = some row)
    (h : ∀ result d u, Q result u [] [auditEvent "user_anonymize" (some actorId) (some subjectId)
      result.status.audited correlationId d]) :
    Telling V B E Q (anonymizeUser P m subjectId actorId correlationId) s [] := by
  unfold anonymizeUser
  refine telling_bind (quiet_integerParameter _) (among_integerParameter hE.tolerates ?_)
  refine telling_bind (Tx.emits_selectForUpdate _) (Tx.rely_selectForUpdate (fun t _ hst => ?_)
    fun e t he _ => hE.fault e t he)
  cases hrow : t.users.find? subjectId with
  | none => exact (hst.no_user huser hrow).elim
  | some row =>
      have hid : (m.entity row).id = subjectId := (entity_id m row).trans (Table.key_of_find? hrow)
      simp only [hid]
      split
      · exact Tx.reports_bind (telling_recordAuditEvent hE.tolerates fun d u => h _ d u)
      · -- Before the commit nothing is told, so an error that is caught leaves no event.
        let E₁ : Error → List AuditEvent → Prop := fun e told => told = [] ∧ E e told
        have hE₁ : ToleratesAll B fun e _ => E₁ e [] :=
          ⟨fun e t he => ⟨rfl, hE.database e t he⟩, fun e t he => ⟨rfl, hE.fault e t he⟩⟩
        refine Tx.reports_tryCatch (F := fun e _ told => E₁ e told) (fun e u ws told he => ?_) ?_
        · obtain ⟨rfl, he⟩ := he
          exact ⟨rfl, he⟩
        · refine telling_bind (E := E₁) quiet_now (among_now fun now => ?_)
          refine Tx.reports_bind (telling_erase hE₁ fun r u ws hws => ?_)
          refine telling_bindOpen quiet_now (fun w hw => hws w (List.mem_append_left _ hw))
            (among_now fun d _ => ?_)
          refine Tx.reports_bind (Tx.reports_commitAll (fun _ v _ _ _ => ?_) fun _ e _ _ he => hE₁.rejects he)
          have haudits : ∀ event, auditsOf (ws ++ (r.2.1 ++ [.insertAuditEvent event])) =
              [{ event with id := 0 }] := by
            intro event
            have hnil := auditsOf_eq_nil hws
            rw [auditsOf] at hnil ⊢
            rw [← List.append_assoc, List.filterMap_append, hnil]
            rfl
          rw [haudits]
          exact h _ d v

/-! ### Guarded routes -/

theorem telling_privacyHandler (hB : ∀ e, B e → e = .operationalError) {header : Option String} {id : String}
    {request : PrivacyRequest} {a : Access} (ha : request.access? header = some a) (hid : Correlates header id) :
    Telling V B (fun e told => a.Told V (.error e) told)
      (fun response _ _ told => a.Told V (.ok response.audited?) told) (request.handler P id) s [] := by
  have hdatabase : ∀ e (_ : Database), e.ofDatabase = true → a.Told V (.error e) [] := by
    intro e _ he
    refine .failed ?_
    cases e <;> first | rfl | cases he
  have hall : ToleratesAll B fun e _ => a.Told V (.error e) [] :=
    ⟨hdatabase, fun e t he => hdatabase e t (by rw [hB e he]; rfl)⟩
  have hE := hall.tolerates
  have hintegrity : ¬ B .integrityError := fun h => by cases hB _ h
  cases request with
  | register => cases ha
  | login => cases ha
  | dispatchMarketing => cases ha
  | createRenterProfile token userId fullName licenseNumber =>
      cases ha
      refine Tx.reports_bind (telling_subjectAccess hE hid (.failed rfl) (fun _ htold => htold)
        fun t access hsubject _ _ _ huser => ?_)
      refine Tx.reports_bind (telling_of_among unaudited_createRenterProfile (by simp)
        (among_createRenterProfile hE hintegrity (hsubject ▸ huser) (fun _ => .failed rfl)
          (fun _ _ => .failed rfl) fun i u _ => .silent))
  | grantConsent token userId purpose policyVersion source =>
      cases ha
      refine Tx.reports_bind (telling_subjectAccess hE hid (.failed rfl) (fun _ htold => htold)
        fun t access hsubject _ _ _ huser => ?_)
      refine telling_bind (quiet_validate _) (among_validate (fun _ => ?_) fun _ => .failed rfl)
      refine Tx.reports_bind (telling_of_among unaudited_grant (by simp)
        (among_grant hE hintegrity (hsubject ▸ huser) fun change u _ => .silent))
  | revokeConsent token userId purpose source =>
      cases ha
      refine Tx.reports_bind (telling_subjectAccess hE hid (.failed rfl) (fun _ htold => htold)
        fun t access hsubject _ _ _ huser => ?_)
      refine telling_bind (quiet_validate _) (among_validate (fun _ => ?_) fun _ => .failed rfl)
      refine Tx.reports_bind (telling_of_among unaudited_revoke (by simp)
        (among_revoke hE (hsubject ▸ huser) fun change u _ => .silent))
  | queueMarketingEmail token userId campaign =>
      cases ha
      refine Tx.reports_bind (telling_subjectAccess hE hid (.failed rfl) (fun _ htold => htold)
        fun t access hsubject htoken hmay _ huser => ?_)
      obtain ⟨t', ht', hmay⟩ := hmay
      refine telling_bind (quiet_validate _) (among_validate (fun _ => ?_) fun _ => .failed rfl)
      refine Tx.reports_bind (Tx.reports_bind (telling_requireConsent hE (fun reason d hgate => ?_)
        fun u htu => ?_))
      · exact .noConsent ht' hmay (hsubject ▸ hgate) ⟨_, id, d, htoken, hid, by rw [hsubject]⟩
      · refine telling_of_among (Tx.emits_bind quiet_now fun _ => Tx.emits_bind
          (Tx.emits_commitAll (by simp)) fun _ => quiet_refresh _ _) (by simp) ?_
        exact among_insertMessage hE (htu.has_user (hsubject ▸ huser)) (fun _ => .failed rfl) fun _ _ _ => .silent
  | trackAnalyticsEvent token userId eventName =>
      cases ha
      refine Tx.reports_bind (telling_subjectAccess hE hid (.failed rfl) (fun _ htold => htold)
        fun t access hsubject htoken hmay _ huser => ?_)
      obtain ⟨t', ht', hmay⟩ := hmay
      refine telling_bind (quiet_validate _) (among_validate (fun _ => ?_) fun _ => .failed rfl)
      refine Tx.reports_bind (Tx.reports_bind (telling_requireConsent hE (fun reason d hgate => ?_)
        fun u htu => ?_))
      · exact .noConsent ht' hmay (hsubject ▸ hgate) ⟨_, id, d, htoken, hid, by rw [hsubject]⟩
      · refine telling_of_among (Tx.emits_bind quiet_now fun _ => Tx.emits_bind
          (Tx.emits_commitAll (by simp)) fun _ => quiet_refresh _ _) (by simp) ?_
        exact among_insertEvent hE (htu.has_user (hsubject ▸ huser)) (fun _ => .failed rfl) fun _ _ _ => .silent
  | anonymize token userId =>
      cases ha
      refine Tx.reports_bind (telling_subjectAccess hE hid (.failed rfl) (fun _ htold => htold)
        fun t access hsubject htoken hmay _ huser => ?_)
      obtain ⟨t', ht', hmay⟩ := hmay
      refine Tx.reports_bind (telling_anonymizeUser hall (hsubject ▸ huser) fun result d u => ?_)
      exact .answered ht' hmay ⟨_, id, d, htoken, hid, by rw [hsubject]⟩

theorem telling_exportPersonalData (hE : Tolerates B fun e _ => E e []) {a : Access} {id : String}
    (hid : Correlates a.header id) (htype : a.eventType = "personal_data_export") (hdeny : E unauthorized [])
    (hrefuse : ∀ told, a.Told V (.error (.notFound "User not found")) told → E (.notFound "User not found") told)
    {Q : PersonalDataExport → Database → List Stmt → List AuditEvent → Prop}
    (h : ∀ exported u told, a.Told V (.ok (some "ok")) told → Q exported u [] told) :
    Telling V B E Q (exportPersonalData a.token a.userId id) s [] := by
  unfold exportPersonalData
  rw [← htype]
  refine Tx.reports_bind (telling_subjectAccess hE hid hdeny hrefuse
    fun t access hsubject htoken hmay hrow huser => ?_)
  obtain ⟨t', ht', hmay⟩ := hmay
  refine telling_bind (quiet_buildExport _) (among_buildExport hE hrow fun exported u _ => ?_)
  refine Tx.reports_bind (telling_recordAuditEvent hE fun d v => h exported v _ ?_)
  exact .answered ht' hmay ⟨_, id, d, htoken, hid, by rw [hsubject]⟩

theorem telling_listConsents (hE : Tolerates B fun e _ => E e []) {a : Access} {id : String}
    (hid : Correlates a.header id) (htype : a.eventType = "consent_list") (hdeny : E unauthorized [])
    (hrefuse : ∀ told, a.Told V (.error (.notFound "User not found")) told → E (.notFound "User not found") told)
    {Q : ConsentOverview → Database → List Stmt → List AuditEvent → Prop}
    (h : ∀ overview u, Q overview u [] []) :
    Telling V B E Q (listConsents a.token a.userId id) s [] := by
  have hread : ∀ {ρ : Type} (f : Database → ρ), Tx.Emits Stmt.Unaudited (do return f (← Tx.select) : Db ρ) :=
    fun _ => Tx.emits_bind Tx.emits_select fun _ => trivial
  unfold listConsents
  rw [← htype]
  refine Tx.reports_bind (telling_subjectAccess hE hid hdeny hrefuse fun t access _ _ _ _ _ => ?_)
  refine telling_bind (hread _) (Tx.rely_bind (among_select hE fun _ _ _ _ => ?_))
  exact telling_bind (hread _) (Tx.rely_bind (among_select hE fun t' _ _ _ => h _ t'))

theorem telling_subjectHandler (hB : ∀ e, B e → e = .operationalError) {c : SubjectCall} {id : String}
    (hid : Correlates c.header id) :
    let a : Access := ⟨c.header, c.token, c.userId, c.request.eventType⟩
    Telling V B (fun e told => a.Told V (.error e) told)
      (fun response _ _ told => a.Told V (.ok (ApiResponse.subject response).audited?) told)
      (c.request.handler P c.token c.userId id) s [] := by
  intro a
  have hE : Tolerates B fun e (_ : Database) => a.Told V (.error e) [] :=
    ⟨fun _ => .failed rfl, fun e _ he => .failed (by rw [hB e he]; rfl)⟩
  have hprivacy : ∀ {request : PrivacyRequest}, request.access? c.header = some a →
      Telling V B (fun e told => a.Told V (.error e) told)
        (fun response _ _ told => a.Told V (.ok (ApiResponse.subject response).audited?) told)
        (do return SubjectResponse.privacy (← request.handler P id)) s [] := fun ha =>
    Tx.reports_bind (telling_privacyHandler hB ha hid)
  cases hrequest : c.request with
  | exportPersonalData =>
      have htype : a.eventType = "personal_data_export" := congrArg SubjectRequest.eventType hrequest
      exact Tx.reports_bind (telling_exportPersonalData hE (a := a) hid htype (.failed rfl) (fun _ htold => htold)
        fun exported u told htold => htold)
  | listConsents =>
      have htype : a.eventType = "consent_list" := congrArg SubjectRequest.eventType hrequest
      exact Tx.reports_bind (telling_listConsents hE (a := a) hid htype (.failed rfl) (fun _ htold => htold)
        fun overview u => .silent)
  | anonymize => exact hprivacy (by simp [PrivacyRequest.access?, a, hrequest, SubjectRequest.eventType])
  | _ => exact hprivacy (by simp [PrivacyRequest.access?, a, hrequest, SubjectRequest.eventType])

/-- However a request ends among others, the events that it has written are those that tell how it ended. -/
theorem telling_handler (hB : ∀ e, B e → e = .operationalError) (r : ApiRequest) :
    Telling V B (fun e told => r.Told V (.error e) told) (fun response _ _ told => r.Told V (.ok response) told)
      (r.handler P) s [] := by
  have hintegrity : ¬ B .integrityError := fun h => by cases hB _ h
  cases haccess : r.access? with
  | none =>
      have hnone : ∀ o, r.Told V o [] := by
        intro o
        simp [ApiRequest.Told, haccess]
      exact telling_of_among (unaudited_handler haccess) (by simp)
        ((among_handler hintegrity r).mono (fun e _ _ _ => hnone _) fun response _ _ _ _ _ => hnone _)
  | some a =>
      have htold : ∀ {o told}, a.Told V (o.map ApiResponse.audited?) told → r.Told V o told := by
        intro o told h
        unfold ApiRequest.Told
        rw [haccess]
        exact h
      refine Tx.Reports.mono (E := fun e _ told => a.Told V (.error e) told)
        (Q := fun (response : ApiResponse) _ _ told => a.Told V (.ok response.audited?) told) ?_
        (fun e _ _ h => htold (o := .error e) h) fun response _ _ _ h => htold (o := .ok response) h
      cases r with
      | privacy call =>
          obtain ⟨header, request⟩ := call
          exact Tx.reports_bind (telling_bind (unaudited_acceptOrGenerate header)
            (among_acceptOrGenerate fun id hid => telling_privacyHandler hB haccess hid))
      | subject call =>
          cases haccess
          exact Tx.reports_bind (telling_bind (unaudited_acceptOrGenerate call.header)
            (among_acceptOrGenerate fun id hid => telling_subjectHandler hB hid))
      | _ => cases haccess

end Handlers

/-! ## Runs of the API -/

section Runs
variable {ι : Type} [DecidableEq ι] {p : ApiPool ι}

/-- The audit table of a run is the one of its start, followed by the events of its commits. -/
theorem addsAudits_of_visits (requests : ι → ApiRequest) (schedule : List (ι × Choice Draw Error))
    (h : Runs.Visits (Pool.step dialect) (apiRequests P db requests) schedule p) :
    db.AddsAudits p.store (p.log.flatMap fun c => auditsOf c.2) := by
  have hstep : ∀ (q : ApiPool ι) (a : ι × Choice Draw Error),
      db.AddsAudits q.store (q.log.flatMap fun c => auditsOf c.2) →
      db.AddsAudits (q.step dialect a).store ((q.step dialect a).log.flatMap fun c => auditsOf c.2) := by
    intro q a hq
    cases hpub : q.publishes dialect a with
    | none =>
        obtain ⟨hstore, hlog⟩ := Pool.step_of_silent hpub
        rw [hstore, hlog]
        exact hq
    | some ws =>
        obtain ⟨s, hs, hstore, hlog⟩ := Pool.step_of_publishes hpub
        rw [hstore, hlog, List.flatMap_append]
        simpa using hq.trans (addsAudits_of_applyAll hs)
  exact Runs.invariant_of_step hstep ⟨[], by simp [apiRequests, Pool.init], rfl⟩ p h

/-- In every run from a sound database, where steps fail with a lost connection only: the audit table only
grows, by the events of the commits, one after another; and the events of a request are exactly those that tell
how it has ended, with none before it ends. -/
theorem audit_log_is_exact (hdb : db.Sound) (requests : ι → ApiRequest)
    (schedule : List (ι × Choice Draw Error))
    (hfaults : ∀ a ∈ schedule, ∀ e, a.2.fault = some e → e = .operationalError)
    (h : Runs.Visits (Pool.step dialect) (apiRequests P db requests) schedule p) :
    db.AddsAudits p.store (p.log.flatMap fun c => auditsOf c.2) ∧ ∀ i,
      let told := Pool.told auditsOf p.log i
      (∀ response, (p.procs i).prog = .ret response →
        (requests i).Told (Passes P db requests schedule) (.ok response) told) ∧
      (∀ e, (p.procs i).prog = .raise e →
        (requests i).Told (Passes P db requests schedule) (.error e) told) ∧
      ((∀ response, (p.procs i).prog ≠ .ret response) → (∀ e, (p.procs i).prog ≠ .raise e) → told = []) := by
  have hreports := reports_of_visits (V := Passes P db requests schedule)
    (B := fun e => e = .operationalError)
    (E := fun i e told => (requests i).Told (Passes P db requests schedule) (.error e) told)
    (Q := fun i response told => (requests i).Told (Passes P db requests schedule) (.ok response) told)
    hdb requests schedule (fun q a hq => ⟨⟨q, hq.visits, rfl⟩, hfaults a hq.mem⟩)
    (fun i => telling_handler (fun e he => he) (requests i)) h
  refine ⟨addsAudits_of_visits requests schedule h, fun i => ⟨fun response hret => ?_, fun e hraise => ?_, ?_⟩⟩
  · exact hreports.returned hret
  · exact hreports.raised hraise
  · exact hreports.unfinished

end Runs

/-! ## A stranger is turned away during an export -/

def gateRequests : Nat → ApiRequest
  | 0 => .subject (asIra 1)
  | _ => .subject (asIra 2)

def gateSchedule : List (Nat × Choice Draw Error) :=
  [(0, stepAt 1), (0, stepAt 2)] ++ List.replicate 3 (1, stepAt 3) ++ List.replicate 10 (0, stepAt 4)

theorem gate_audited :
    let p := Runs.run (Pool.step dialect) (apiRequests plainPlatform twoAccounts gateRequests) gateSchedule
    p.store.auditEvents.rows.map AuditEvent.result = ["denied", "ok"] ∧
    twoAccounts.AddsAudits p.store (p.log.flatMap fun c => auditsOf c.2) ∧ ∀ i,
      let told := Pool.told auditsOf p.log i
      (∀ response, (p.procs i).prog = .ret response →
        (gateRequests i).Told (Passes plainPlatform twoAccounts gateRequests gateSchedule) (.ok response) told) ∧
      (∀ e, (p.procs i).prog = .raise e →
        (gateRequests i).Told (Passes plainPlatform twoAccounts gateRequests gateSchedule) (.error e) told) ∧
      ((∀ response, (p.procs i).prog ≠ .ret response) → (∀ e, (p.procs i).prog ≠ .raise e) → told = []) :=
  ⟨by decide +kernel, audit_log_is_exact (sound_seeded _) gateRequests gateSchedule (by decide)
    (Runs.Visits.last _ _)⟩

end FleetManagement
