import FleetManagement.Lemmas.Services
import FleetManagement.Privacy.RightOfAccess

/-!
# Refusals

Every route under `/api/users/{user_id}` that is guarded by `subject_access` answers a stranger as if the
user did not exist, and records the refusal. The record is an `INSERT` of the `user_id` from the path, and
a path takes any integer: an id that does not fit into the column makes the refusal itself fail.
-/

namespace FleetManagement

/-! ## The guarded routes -/

inductive SubjectRequest where
  | exportPersonalData
  | anonymize
  | createRenterProfile (fullName licenseNumber : String)
  | listConsents
  | grantConsent (purpose : ConsentPurpose) (policyVersion source : String)
  | revokeConsent (purpose : ConsentPurpose) (source : Option String)
  | queueMarketingEmail (campaign : String)
  | trackAnalyticsEvent (eventName : String)
  deriving DecidableEq, Repr

inductive SubjectResponse where
  | personalData (exported : PersonalDataExport)
  | consents (overview : ConsentOverview)
  | privacy (response : PrivacyResponse)
  deriving DecidableEq, Repr

/-- The event type that the route gives to `subject_access`. -/
def SubjectRequest.eventType : SubjectRequest → String
  | .exportPersonalData => "personal_data_export"
  | .anonymize => "user_anonymize"
  | .createRenterProfile .. => "renter_profile_create"
  | .listConsents => "consent_list"
  | .grantConsent .. => "consent_grant"
  | .revokeConsent .. => "consent_revoke"
  | .queueMarketingEmail _ => "marketing_email_request"
  | .trackAnalyticsEvent _ => "analytics_event_request"

def SubjectRequest.handler (P : Platform) (token : Option Int) (userId : Int) (correlationId : String) :
    SubjectRequest → Db SubjectResponse
  | .exportPersonalData => do
      return .personalData (← FleetManagement.exportPersonalData token userId correlationId)
  | .listConsents => do return .consents (← FleetManagement.listConsents token userId correlationId)
  | .anonymize => do
      return .privacy (← PrivacyRequest.handler P correlationId (.anonymize token userId))
  | .createRenterProfile fullName licenseNumber => do
      return .privacy (← PrivacyRequest.handler P correlationId
        (.createRenterProfile token userId fullName licenseNumber))
  | .grantConsent purpose policyVersion source => do
      return .privacy (← PrivacyRequest.handler P correlationId
        (.grantConsent token userId purpose policyVersion source))
  | .revokeConsent purpose source => do
      return .privacy (← PrivacyRequest.handler P correlationId
        (.revokeConsent token userId purpose source))
  | .queueMarketingEmail campaign => do
      return .privacy (← PrivacyRequest.handler P correlationId
        (.queueMarketingEmail token userId campaign))
  | .trackAnalyticsEvent eventName => do
      return .privacy (← PrivacyRequest.handler P correlationId
        (.trackAnalyticsEvent token userId eventName))

structure SubjectCall where
  header : Option String
  token : Option Int
  userId : Int
  request : SubjectRequest
  deriving DecidableEq, Repr

def SubjectCall.handler (P : Platform) (c : SubjectCall) : Db SubjectResponse := do
  c.request.handler P c.token c.userId (← acceptOrGenerate c.header)

/-- The call is served alone, and no step of it fails for a reason outside of the database. -/
def SubjectCall.serve (P : Platform) (c : SubjectCall) (db : Database) (draws : Nat → Draw) :
    Except Error SubjectResponse × Session Database Stmt :=
  (c.handler P).eval dialect (Tx.calmly draws) ⟨db, [], 0⟩

/-! ## Strangers -/

/-- The token is that of an active user without the admin role, and the path names another id. -/
structure Stranger (c : SubjectCall) (actor : User) (db : Database) : Prop where
  token : c.token = some actor.id
  row : actor ∈ db.users.rows
  active : actor.isActive = true
  role : actor.role ≠ .admin
  foreign : c.userId ≠ actor.id

/-- The states differ only in rows that belong to the user `u`, and in what sequences have issued. -/
structure Database.DifferOnlyAt (u : Int) (db db' : Database) : Prop where
  stations : ∀ row, row ∈ db.stations.rows ↔ row ∈ db'.stations.rows
  vehicles : ∀ row, row ∈ db.vehicles.rows ↔ row ∈ db'.vehicles.rows
  telemetryReadings : ∀ row, row ∈ db.telemetryReadings.rows ↔ row ∈ db'.telemetryReadings.rows
  users : ∀ row : User, row.id ≠ u → (row ∈ db.users.rows ↔ row ∈ db'.users.rows)
  renters : ∀ row : Renter, row.userId ≠ some u → (row ∈ db.renters.rows ↔ row ∈ db'.renters.rows)
  rentals : ∀ row, row ∈ db.rentals.rows ∧ ¬ db.RentalOf u row ↔
    row ∈ db'.rentals.rows ∧ ¬ db'.RentalOf u row
  userConsents : ∀ row : UserConsent, row.userId ≠ u →
    (row ∈ db.userConsents.rows ↔ row ∈ db'.userConsents.rows)
  consentHistory : ∀ row : ConsentHistory, row.userId ≠ u →
    (row ∈ db.consentHistory.rows ↔ row ∈ db'.consentHistory.rows)
  userActivity : ∀ row : UserActivity, row.userId ≠ u →
    (row ∈ db.userActivity.rows ↔ row ∈ db'.userActivity.rows)
  auditEvents : ∀ row : AuditEvent, row.subjectId ≠ some u →
    (row ∈ db.auditEvents.rows ↔ row ∈ db'.auditEvents.rows)
  marketingMessages : ∀ row : MarketingMessage, row.userId ≠ u →
    (row ∈ db.marketingMessages.rows ↔ row ∈ db'.marketingMessages.rows)
  analyticsEvents : ∀ row : AnalyticsEvent, row.userId ≠ u →
    (row ∈ db.analyticsEvents.rows ↔ row ∈ db'.analyticsEvents.rows)

theorem Stranger.congr {c : SubjectCall} {actor : User} {db db' : Database} (h : Stranger c actor db)
    (hdiff : db.DifferOnlyAt c.userId db') : Stranger c actor db' :=
  ⟨h.token, (hdiff.users actor h.foreign.symm).mp h.row, h.active, h.role, h.foreign⟩

/-! ## What a stranger gets -/

/-- `404 User not found`, and one committed event of the refusal, which is all that has changed. -/
def SubjectCall.Refused (P : Platform) (c : SubjectCall) (actor : User) (db : Database)
    (draws : Nat → Draw) : Prop :=
  (c.serve P db draws).1 = .error (.notFound "User not found") ∧
  ∃ (event : AuditEvent) (events : Table AuditEvent),
    event.eventType = c.request.eventType ∧ event.actorId = some actor.id ∧
    event.subjectId = some c.userId ∧ event.result = "denied" ∧
    events.rows = db.auditEvents.rows ++ [event] ∧
    (c.serve P db draws).2.store = db.withAuditEvents events

/-- The accepted header fits into the column of the correlation id. -/
def HeaderFits (header : Option String) : Prop :=
  ∀ id, header = some id → isCorrelationId id = true → id.length ≤ 64

/-- The event of the refusal fits into the table: its subject is an `INTEGER`, its correlation id is not
too long, and there is a key left. -/
structure SubjectCall.EventFits (c : SubjectCall) (db : Database) : Prop where
  subject : isInteger c.userId = true
  header : HeaderFits c.header
  room : db.auditEvents.seq < Keyed.maxKey AuditEvent

section Refusal
variable {P : Platform} {c : SubjectCall} {actor : User} {db db' : Database} {draws : Nat → Draw}

/-- A guarded route first asks `subject_access`. -/
theorem handler_guarded (P : Platform) (token : Option Int) (userId : Int) (correlationId : String)
    (r : SubjectRequest) : ∃ rest : SubjectAccess → Db SubjectResponse,
      r.handler P token userId correlationId =
        subjectAccess r.eventType token userId correlationId >>= rest := by
  cases r with
  | exportPersonalData => exact ⟨_, Tx.bind_assoc _ _ _⟩
  | anonymize => exact ⟨_, Tx.bind_assoc _ _ _⟩
  | createRenterProfile fullName licenseNumber => exact ⟨_, Tx.bind_assoc _ _ _⟩
  | listConsents => exact ⟨_, Tx.bind_assoc _ _ _⟩
  | grantConsent purpose policyVersion source => exact ⟨_, Tx.bind_assoc _ _ _⟩
  | revokeConsent purpose source => exact ⟨_, Tx.bind_assoc _ _ _⟩
  | queueMarketingEmail campaign => exact ⟨_, Tx.bind_assoc _ _ _⟩
  | trackAnalyticsEvent eventName => exact ⟨_, Tx.bind_assoc _ _ _⟩

theorem nul_not_mem_of_isCorrelationId {id : String} (h : isCorrelationId id = true) :
    '\x00' ∉ id.toList := by
  unfold isCorrelationId at h
  simp only [Bool.decide_and, Bool.and_eq_true, decide_eq_true_eq] at h
  intro hmem
  split at h
  · rename_i hlast
    rw [← List.dropLast_append_getLast? '\n' hlast, List.mem_append] at hmem
    rcases hmem with hmem | hmem
    · exact absurd (List.all_eq_true.mp h.2.2 _ hmem) (by decide)
    · simp at hmem
  · exact absurd (List.all_eq_true.mp h.2.2 _ hmem) (by decide)

/-- A header that is accepted, or a generated id. -/
theorem eval_acceptOrGenerate_fits (db : Database) (draws : Nat → Draw) (header : Option String) :
    ∃ id m, (acceptOrGenerate header).eval dialect (Tx.calmly draws) ⟨db, [], 0⟩ =
      (.ok id, ⟨db, [], m⟩) ∧ (varchar 64 id = .ok () ↔ HeaderFits header) := by
  have hgenerated : header.any isCorrelationId = false → ∃ id m,
      (do return (← uuid4).val : Db String).eval dialect (Tx.calmly draws) ⟨db, [], 0⟩ =
        (.ok id, ⟨db, [], m⟩) ∧ (varchar 64 id = .ok () ↔ HeaderFits header) := by
    intro hno
    refine ⟨(draws 0).uuid.val, 1, rfl, ?_⟩
    have hfits : varchar 64 (draws 0).uuid.val = .ok () := by
      have hlen := (draws 0).uuid.length_eq
      have hnul : '\x00' ∉ (draws 0).uuid.val.toList := by
        intro hmem
        have := List.all_eq_true.mp (draws 0).uuid.hex _ hmem
        revert this
        decide
      unfold varchar
      rw [if_pos ⟨by omega, hnul⟩]
    refine ⟨fun _ id hid hacc => ?_, fun _ => hfits⟩
    rw [hid] at hno
    exact absurd hacc (Bool.eq_false_iff.mp hno)
  cases header with
  | none => exact hgenerated rfl
  | some id =>
      unfold acceptOrGenerate
      simp only
      split
      · rename_i hacc
        refine ⟨id, 0, rfl, ?_⟩
        have hnul := nul_not_mem_of_isCorrelationId hacc
        unfold varchar HeaderFits
        simp [hnul, hacc]
      · rename_i hno
        exact hgenerated (Bool.eq_false_iff.mpr hno)

/-- The event that `subject_access` records for a stranger. -/
def SubjectCall.event (c : SubjectCall) (actor : User) (correlationId : String) (t : DateTime) : AuditEvent :=
  auditEvent c.request.eventType (some actor.id) (some c.userId) "denied" correlationId t

theorem event_check {correlationId : String} {t : DateTime} (hactor : isInteger actor.id = true) :
    (c.event actor correlationId t).check = .ok () ↔
      isInteger c.userId = true ∧ varchar 64 correlationId = .ok () := by
  have htype : varchar 64 c.request.eventType = .ok () := by
    cases c.request <;> (simp only [SubjectRequest.eventType]; rfl)
  unfold AuditEvent.check SubjectCall.event auditEvent
  simp only [htype, optional, integer, hactor, if_true, bind_eq_ok]
  constructor
  · rintro ⟨_, -, _, -, _, hsubject, _, -, hid⟩
    refine ⟨?_, hid⟩
    split at hsubject
    · assumption
    · cases hsubject
  · rintro ⟨hsubject, hid⟩
    exact ⟨(), trivial, (), trivial, (), by rw [if_pos hsubject], (), rfl, hid⟩

variable (P draws) in
/-- What a stranger gets is what the `INSERT` of the event makes of it. -/
theorem serve_stranger (h : Stranger c actor db) : ∃ correlationId t,
    (varchar 64 correlationId = .ok () ↔ HeaderFits c.header) ∧
    match dialect.applyAll [.insertAuditEvent (c.event actor correlationId t)] db with
    | .ok db' => ∃ n, c.serve P db draws = (.error (.notFound "User not found"), ⟨db', [], n⟩)
    | .error e => ∃ n, c.serve P db draws = (.error e, ⟨db, [], n⟩) := by
  obtain ⟨id, m, hid, hfits⟩ := eval_acceptOrGenerate_fits db draws c.header
  refine ⟨id, (draws (m + 1)).now, hfits, ?_⟩
  have hrow : db.users.find? actor.id = some actor := Table.find?_key h.row
  have hactor : (getCurrentUser c.token).eval dialect (Tx.calmly draws) ⟨db, [], m⟩ =
      (.ok actor, ⟨db, [], m + 1⟩) := by
    unfold getCurrentUser
    simp only [h.token]
    rw [eval_get (Nat.le_refl _) hrow]
    simp only [h.active, if_true]
    rfl
  have hdenied : ¬ (actor.id = c.userId ∨ actor.role = .admin) := by
    rintro (hid | hrole)
    · exact h.foreign hid.symm
    · exact h.role hrole
  obtain ⟨rest, hrest⟩ := handler_guarded P c.token c.userId id c.request
  have hserve : c.serve P db draws =
      (subjectAccess c.request.eventType c.token c.userId id >>= rest).eval dialect (Tx.calmly draws)
        ⟨db, [], m⟩ := by
    unfold SubjectCall.serve SubjectCall.handler
    rw [Tx.eval_bind_ok hid, hrest]
  have haccess : (subjectAccess c.request.eventType c.token c.userId id).eval dialect (Tx.calmly draws)
      ⟨db, [], m⟩ = ((do
        recordAuditEvent c.request.eventType (some actor.id) (some c.userId) "denied" id
        throw (.notFound "User not found") : Db SubjectAccess)).eval dialect (Tx.calmly draws)
        ⟨db, [], m + 1⟩ := by
    unfold subjectAccess
    rw [Tx.eval_bind_ok hactor]
    simp only [hdenied, if_false]
    rfl
  have hnow : now.eval dialect (Tx.calmly draws) ⟨db, [], m + 1⟩ =
      (.ok (draws (m + 1)).now, ⟨db, [], m + 2⟩) := rfl
  cases happly : dialect.applyAll [.insertAuditEvent (c.event actor id (draws (m + 1)).now)] db with
  | ok db' =>
      refine ⟨m + 3, ?_⟩
      rw [hserve]
      refine Tx.eval_bind_error (haccess.trans ?_)
      unfold recordAuditEvent
      simp only [Tx.bind_assoc]
      rw [Tx.eval_bind_ok hnow]
      exact Tx.eval_commitAll happly
  | error e =>
      refine ⟨m + 3, ?_⟩
      rw [hserve]
      refine Tx.eval_bind_error (haccess.trans ?_)
      unfold recordAuditEvent
      simp only [Tx.bind_assoc]
      rw [Tx.eval_bind_ok hnow]
      unfold SubjectCall.event at happly
      exact Tx.eval_commitAll_error happly

variable (P draws) in
/-- A stranger is refused exactly when the event of the refusal can be recorded. -/
theorem refused_iff_eventFits (h : Stranger c actor db) : c.Refused P actor db draws ↔ c.EventFits db := by
  obtain ⟨id, t, hfits, hserve⟩ := serve_stranger P draws h
  have hactor : isInteger actor.id = true :=
    isInteger_of_find? (Nat.le_refl _) (Table.find?_key h.row)
  have happly : ∀ db', dialect.applyAll [.insertAuditEvent (c.event actor id t)] db = .ok db' ↔
      (isInteger c.userId = true ∧ HeaderFits c.header) ∧ ∃ hseq, db' = db.withAuditEvents
        (db.auditEvents.insert hseq (fun id' => { c.event actor id t with id := id' }) fun _ => rfl) := by
    intro db'
    rw [dialect.applyAll_singleton_ok, insertAuditEvent_ok, event_check hactor, hfits]
  cases hresult : dialect.applyAll [.insertAuditEvent (c.event actor id t)] db with
  | ok db' =>
      obtain ⟨⟨hsubject, hheader⟩, hroom, rfl⟩ := (happly db').mp hresult
      rw [hresult] at hserve
      obtain ⟨n, hn⟩ := hserve
      refine iff_of_true ⟨by rw [hn], { c.event actor id t with id := db.auditEvents.seq + 1 }, _, rfl, rfl,
        rfl, rfl, ?_, by rw [hn]⟩ ⟨hsubject, hheader, hroom⟩
      rw [Table.rows_insert]
  | error e =>
      rw [hresult] at hserve
      obtain ⟨n, hn⟩ := hserve
      refine iff_of_false ?_ fun hfit => ?_
      · rintro ⟨-, event, events, -, -, -, -, hrows, hstore⟩
        rw [hn] at hstore
        have hsame : db.auditEvents.rows = db.auditEvents.rows ++ [event] := by
          rw [← hrows]
          exact congrArg (fun d : Database => d.auditEvents.rows) hstore
        simpa using congrArg List.length hsame
      · have hok := (happly _).mpr ⟨⟨hfit.subject, hfit.header⟩, hfit.room, rfl⟩
        rw [hresult] at hok
        cases hok

/-- A foreign account is indistinguishable from a missing one, with every refusal on record, exactly
where the event of the refusal fits into the table. -/
theorem indistinguishable_iff_eventFits (h : Stranger c actor db) (hdiff : db.DifferOnlyAt c.userId db')
    (draws draws' : Nat → Draw) :
    ((c.serve P db draws).1 = (c.serve P db' draws').1 ∧ c.Refused P actor db draws ∧
      c.Refused P actor db' draws') ↔ c.EventFits db ∧ c.EventFits db' := by
  rw [refused_iff_eventFits _ _ h, refused_iff_eventFits _ _ (h.congr hdiff)]
  constructor
  · rintro ⟨-, hfit, hfit'⟩; exact ⟨hfit, hfit'⟩
  · rintro ⟨hfit, hfit'⟩
    have hrefused := (refused_iff_eventFits P draws h).mpr hfit
    have hrefused' := (refused_iff_eventFits P draws' (h.congr hdiff)).mpr hfit'
    exact ⟨hrefused.1.trans hrefused'.1.symm, hfit, hfit'⟩

end Refusal

/-! ## Ids inside and outside of the column -/

def iraAccount : User := ⟨1, "ira@fleet.org", "secret$", "Ira Bondar", .user, none, true, 0, none⟩

def twoAccounts : Database :=
  .seeded [.insertUser iraAccount,
    .insertUser ⟨0, "oleh@fleet.org", "secret$", "Oleh Melnyk", .user, none, true, 0, none⟩]

def asIra (userId : Int) : SubjectCall := ⟨some "c", some 1, userId, .exportPersonalData⟩

def atNoon : Nat → Draw := fun _ => ⟨43200000000, zeroUuid, "", ""⟩

theorem ira_is_stranger {userId : Int} (h : userId ≠ 1) : Stranger (asIra userId) iraAccount twoAccounts :=
  ⟨rfl, by decide, rfl, by decide, h⟩

theorem differOnlyAt_of_no_user (db : Database) (u : Int) :
    db.DifferOnlyAt u (db.withUsers (db.users.deleteWhere fun row => row.id = u)) where
  stations _ := Iff.rfl
  vehicles _ := Iff.rfl
  telemetryReadings _ := Iff.rfl
  users row hrow := by simp [hrow]
  renters _ _ := Iff.rfl
  rentals _ := Iff.rfl
  userConsents _ _ := Iff.rfl
  consentHistory _ _ := Iff.rfl
  userActivity _ _ := Iff.rfl
  auditEvents _ _ := Iff.rfl
  marketingMessages _ _ := Iff.rfl
  analyticsEvents _ _ := Iff.rfl

/-- The id 2147483648 does not fit into `audit_events.subject_id`. -/
theorem large_id_fails_the_refusal : ¬ ∀ (P : Platform) (c : SubjectCall) (actor : User)
    (db db' : Database) (draws draws' : Nat → Draw), Stranger c actor db → db.DifferOnlyAt c.userId db' →
      (c.serve P db draws).1 = (c.serve P db' draws').1 ∧ c.Refused P actor db draws ∧
        c.Refused P actor db' draws' := by
  intro h
  obtain ⟨-, hrefused, -⟩ := h plainPlatform (asIra 2147483648) iraAccount twoAccounts _ atNoon atNoon
    (ira_is_stranger (by decide)) (differOnlyAt_of_no_user _ _)
  have hanswer : ((asIra 2147483648).serve plainPlatform twoAccounts atNoon).1 = .error .dataError := rfl
  exact absurd (hanswer.symm.trans hrefused.1) nofun

/-- The account 2 exists in one state only. -/
theorem oleh_indistinguishable_iff :
    let without := twoAccounts.withUsers (twoAccounts.users.deleteWhere fun row => row.id = 2)
    (((asIra 2).serve plainPlatform twoAccounts atNoon).1 = ((asIra 2).serve plainPlatform without atNoon).1 ∧
      (asIra 2).Refused plainPlatform iraAccount twoAccounts atNoon ∧
      (asIra 2).Refused plainPlatform iraAccount without atNoon) ↔
    (asIra 2).EventFits twoAccounts ∧ (asIra 2).EventFits without :=
  indistinguishable_iff_eventFits (ira_is_stranger (by decide)) (differOnlyAt_of_no_user _ _) atNoon atNoon

end FleetManagement
