import FleetManagement.Privacy.Erasure

/-!
# What the privacy requests do to the database

One constructor for each thing that an accepted request may have committed. Everything that is proved
about whole request histories is a case analysis over `Accepted`.
-/

namespace FleetManagement

/-- The request has been accepted and answered on the database `s`, which is `s'` afterwards. -/
inductive Accepted (P : Platform) (s : Database) (correlationId : String) :
    PrivacyRequest → PrivacyResponse → Database → Prop
  | register {email address password fullName salt : String} {phone : Option String} {t : DateTime}
      {s' : Database} (hemail : P.validateEmail email = some address)
      (h : dialect.applyAll [.insertUser (newUser P address password fullName .user phone salt t)] s =
        .ok s') :
      Accepted P s correlationId (.register email password fullName phone)
        (.user { newUser P address password fullName .user phone salt t with id := s'.users.seq }) s'
  | login {username password : String} {ipAddress userAgent : Option String} {user : User}
      {activity : UserActivity} {s' : Database} (huser : user ∈ s.users.rows)
      (hactive : user.isActive = true) (hid : activity.userId = user.id)
      (h : dialect.applyAll [.insertUserActivity activity] s = .ok s') :
      Accepted P s correlationId (.login username password ipAddress userAgent)
        (.token user.id user.role) s'
  | createRenterProfile {token : Option Int} {userId : Int} {fullName licenseNumber : String}
      {a : SubjectAccess} {s' : Database} (ha : Admits s token userId a)
      (hvalid : (field 1 150 fullName && field 1 50 licenseNumber) = true)
      (h : dialect.applyAll [.insertRenter (newRenterProfile userId fullName licenseNumber)] s = .ok s') :
      Accepted P s correlationId (.createRenterProfile token userId fullName licenseNumber)
        (.renter s'.renters.seq) s'
  | grantedBefore {token : Option Int} {userId : Int} {purpose : ConsentPurpose}
      {policyVersion source : String} {a : SubjectAccess} {o : Option UserConsent}
      (ha : Admits s token userId a) (ho : s.consentsFor userId purpose = Option.toList o)
      (hsome : o.any (UserConsent.grants policyVersion) = true) :
      Accepted P s correlationId (.grantConsent token userId purpose policyVersion source)
        (.consent purpose ⟨o, false⟩) s
  | granted {token : Option Int} {userId : Int} {purpose : ConsentPurpose}
      {policyVersion source : String} {a : SubjectAccess} {o c : Option UserConsent} {t : DateTime}
      {s' : Database} (ha : Admits s token userId a)
      (hvalid : (field 1 20 policyVersion && field 1 50 source) = true)
      (ho : s.consentsFor userId purpose = Option.toList o)
      (hnone : o.any (UserConsent.grants policyVersion) = false)
      (h : dialect.applyAll (grantFlush userId purpose o policyVersion source t) s = .ok s') :
      Accepted P s correlationId (.grantConsent token userId purpose policyVersion source)
        (.consent purpose ⟨c, true⟩) s'
  | notGranted {token : Option Int} {userId : Int} {purpose : ConsentPurpose}
      {source : Option String} {a : SubjectAccess} {o : Option UserConsent}
      (ha : Admits s token userId a) (ho : s.consentsFor userId purpose = Option.toList o)
      (hw : ∀ c ∈ o, c.status = .withdrawn) :
      Accepted P s correlationId (.revokeConsent token userId purpose source)
        (.consent purpose ⟨o, false⟩) s
  | revoked {token : Option Int} {userId : Int} {purpose : ConsentPurpose} {source : Option String}
      {a : SubjectAccess} {c : UserConsent} {c' : Option UserConsent} {t : DateTime} {s' : Database}
      (ha : Admits s token userId a) (hc : s.consentsFor userId purpose = [c]) (hg : c.status = .granted)
      (h : dialect.applyAll (revokeFlush c userId purpose (source.getD "api") t) s = .ok s') :
      Accepted P s correlationId (.revokeConsent token userId purpose source)
        (.consent purpose ⟨c', true⟩) s'
  | queued {token : Option Int} {userId : Int} {campaign : String} {a : SubjectAccess}
      {t : DateTime} {s' : Database} (message : MarketingMessage) (ha : Admits s token userId a)
      (hc : s.Consented userId .marketingEmail)
      (h : dialect.applyAll [.insertMarketingMessage (newMessage userId campaign t)] s = .ok s') :
      Accepted P s correlationId (.queueMarketingEmail token userId campaign)
        (.message message.id message.status) s'
  | tracked {token : Option Int} {userId : Int} {eventName : String} {a : SubjectAccess}
      {t : DateTime} {s' : Database} (event : AnalyticsEvent) (ha : Admits s token userId a)
      (hc : s.Consented userId .optionalAnalytics)
      (h : dialect.applyAll [.insertAnalyticsEvent ⟨0, userId, eventName, t⟩] s = .ok s') :
      Accepted P s correlationId (.trackAnalyticsEvent token userId eventName) (.event event.id) s'
  | dispatched {token : Option Int} {outcomes : List DispatchOutcome} {s' : Database}
      (h : dialect.applyAll (dispatchFlush outcomes) s = .ok s') :
      Accepted P s correlationId (.dispatchMarketing token) (.dispatched (summary outcomes)) s'
  | erasedBefore {token : Option Int} {userId : Int} {a : SubjectAccess} {event : AuditEvent}
      {s' : Database} (ha : Admits s token userId a) (hu : a.subject.anonymizedAt.isSome = true)
      (h : Audited s event s') :
      Accepted P s correlationId (.anonymize token userId)
        (.erasure ⟨a.subject, .alreadyAnonymized, none⟩) s'
  | erased {token : Option Int} {userId : Int} {a : SubjectAccess} {d : ErasureDraws}
      {s' : Database} (ha : Admits s token userId a) (hu : a.subject.anonymizedAt = none)
      (h : Erased P s a.subject d (erasureEvent a.subject a.actor.id correlationId d.auditedAt) s') :
      Accepted P s correlationId (.anonymize token userId)
        (.erasure ⟨d.user P a.subject, .anonymized, some (s.toErase a.subject.id)⟩) s'

/-- How a request on the database `s` has ended. -/
inductive Outcome (P : Platform) (s : Database) (correlationId : String) (request : PrivacyRequest) :
    Except Error PrivacyResponse → Database → Prop
  | accepted {response : PrivacyResponse} {s' : Database}
      (h : Accepted P s correlationId request response s') :
      Outcome P s correlationId request (.ok response) s'
  /-- What was accepted has been committed, and a later read failed. -/
  | unanswered {response : PrivacyResponse} {s' : Database} {e : Error}
      (h : Accepted P s correlationId request response s') :
      Outcome P s correlationId request (.error e) s'
  | unchanged {e : Error} : Outcome P s correlationId request (.error e) s
  | audited {event : AuditEvent} {s' : Database} {e : Error} (h : Audited s event s') :
      Outcome P s correlationId request (.error e) s'

section Handlers
variable {G : Draw → Prop} {P : Platform} {s : Database}

abbrev Ends (P : Platform) (s : Database) (correlationId : String) (request : PrivacyRequest) :
    Except Error PrivacyResponse → Database → List Stmt → Prop :=
  fun r s' _ => Outcome P s correlationId request r s'

theorem find?_inserted {row : User} {s' : Database} (h : dialect.applyAll [.insertUser row] s = .ok s') :
    s'.users.find? s'.users.seq = some { row with id := s'.users.seq } := by
  obtain ⟨-, hseq, rfl⟩ := insertUser_ok.mp (dialect.applyAll_singleton_ok.mp h)
  rw [Database.withUsers_users, Table.find?_insert, if_pos (by simp)]
  simp

/-- Every request ends in one of the ways of `Outcome`, whichever of its steps fail. -/
theorem wp_handler (correlationId : String) (request : PrivacyRequest) :
    Tx.Wp dialect G (Ends P s correlationId request) (request.handler P correlationId) s [] := by
  cases request with
  | register email password fullName phone =>
      unfold PrivacyRequest.handler register
      refine Tx.wp_bind ?_
      cases hemail : P.validateEmail email with
      | none => exact .unchanged
      | some address =>
          refine Tx.wp_bind (wp_validate (fun _ => wp_createUser ?_ ?_ ?_) fun e => .unchanged)
          · intro user salt t s' h huser
            obtain rfl := Option.some.inj ((find?_inserted h).symm.trans huser)
            exact .accepted (.register hemail h)
          · exact fun e salt t s' h => .unanswered (.register hemail h)
          · exact fun e => .unchanged
  | login username password ipAddress userAgent =>
      unfold PrivacyRequest.handler
      refine Tx.wp_bind (wp_login (fun user activity s' huser hactive hid h => ?_) fun e => .unchanged)
      exact .accepted (.login huser hactive hid h)
  | createRenterProfile token userId fullName licenseNumber =>
      unfold PrivacyRequest.handler
      refine Tx.wp_bind (wp_subjectAccess (fun a ha => ?_) (fun e => .unchanged)
        fun e event s' h => .audited h)
      refine Tx.wp_bind (wp_createRenterProfile (fun s' hvalid h => ?_) fun e => .unchanged)
      exact .accepted (.createRenterProfile ha hvalid (ha.id ▸ h))
  | grantConsent token userId purpose policyVersion source =>
      unfold PrivacyRequest.handler
      refine Tx.wp_bind (wp_subjectAccess (fun a ha => ?_) (fun e => .unchanged)
        fun e event s' h => .audited h)
      refine Tx.wp_bind (wp_validate (fun hvalid => ?_) fun e => .unchanged)
      rw [ha.id]
      refine Tx.wp_bind
        (wp_grant (fun o ho hsome => ?_) (fun o t c s' ho hnone h => ?_) fun e => .unchanged)
      · exact .accepted (.grantedBefore ha ho hsome)
      · exact .accepted (.granted ha hvalid ho hnone h)
  | revokeConsent token userId purpose source =>
      unfold PrivacyRequest.handler
      refine Tx.wp_bind (wp_subjectAccess (fun a ha => ?_) (fun e => .unchanged)
        fun e event s' h => .audited h)
      refine Tx.wp_bind (wp_validate (fun _ => ?_) fun e => .unchanged)
      rw [ha.id]
      refine Tx.wp_bind (wp_revoke (fun o ho hw => ?_) (fun c t c' s' hc hg h => ?_) fun e => .unchanged)
      · exact .accepted (.notGranted ha ho hw)
      · exact .accepted (.revoked ha hc hg h)
  | queueMarketingEmail token userId campaign =>
      unfold PrivacyRequest.handler
      refine Tx.wp_bind (wp_subjectAccess (fun a ha => ?_) (fun e => .unchanged)
        fun e event s' h => .audited h)
      refine Tx.wp_bind (wp_validate (fun _ => ?_) fun e => .unchanged)
      rw [ha.id]
      refine Tx.wp_bind (wp_enqueueMarketingEmail (fun message t s' hc h => ?_) (fun e t s' hc h => ?_)
        (fun e => .unchanged) fun e event s' h => .audited h)
      · exact .accepted (.queued message ha hc h)
      · exact .unanswered (.queued (newMessage userId campaign t) ha hc h)
  | trackAnalyticsEvent token userId eventName =>
      unfold PrivacyRequest.handler
      refine Tx.wp_bind (wp_subjectAccess (fun a ha => ?_) (fun e => .unchanged)
        fun e event s' h => .audited h)
      refine Tx.wp_bind (wp_validate (fun _ => ?_) fun e => .unchanged)
      rw [ha.id]
      refine Tx.wp_bind (wp_recordAnalyticsEvent (fun event t s' hc h => ?_) (fun e t s' hc h => ?_)
        (fun e => .unchanged) fun e event s' h => .audited h)
      · exact .accepted (.tracked event ha hc h)
      · exact .unanswered (.tracked ⟨0, userId, eventName, t⟩ ha hc h)
  | dispatchMarketing token =>
      unfold PrivacyRequest.handler
      refine Tx.wp_bind (wp_requireAdmin (fun actor => ?_) fun e => .unchanged)
      refine Tx.wp_bind (wp_dispatchPendingMarketing (fun outcomes s' h => ?_) fun e => .unchanged)
      exact .accepted (.dispatched h)
  | anonymize token userId =>
      unfold PrivacyRequest.handler
      refine Tx.wp_bind (wp_subjectAccess (fun a ha => ?_) (fun e => .unchanged)
        fun e event s' h => .audited h)
      simp only [ha.id]
      refine Tx.wp_bind (wp_anonymizeUser (fun row hrow => ha.entity hrow) (fun u t s' hu herased h => ?_)
        (fun u d s' hu hnew _ h => ?_) fun e => .unchanged)
      · obtain rfl := Option.some.inj (ha.subject.symm.trans hu)
        exact .accepted (.erasedBefore ha herased h)
      · obtain rfl := Option.some.inj (ha.subject.symm.trans hu)
        exact .accepted (.erased ha hnew h)

/-- The id that a request with this header has: its own if it is acceptable. -/
def Correlates (header : Option String) (id : String) : Prop :=
  header.any isCorrelationId = true → header = some id

theorem wp_acceptOrGenerate {header : Option String}
    {Q : Except Error String → Database → List Stmt → Prop}
    (h : ∀ id, Correlates header id → Q (.ok id) s []) :
    Tx.Wp dialect G Q (acceptOrGenerate header) s [] := by
  have hdraw : header.any isCorrelationId = false → Tx.Wp dialect G Q (do return (← uuid4).val) s [] :=
    fun hno => Tx.wp_bind (Tx.wp_bind
      (Tx.wp_sample fun d _ => h _ fun hyes => by rw [hno] at hyes; cases hyes))
  cases header with
  | none => exact hdraw rfl
  | some id =>
      unfold acceptOrGenerate
      simp only
      split
      · exact h id fun _ => rfl
      · rename_i hno
        exact hdraw (Bool.eq_false_iff.mpr hno)

end Handlers

theorem servePrivacy_outcome (P : Platform) (db : Database) (a : PrivacyAction) :
    ∃ id, Correlates a.1.header id ∧ Outcome P db id a.1.request (a.answer P db) (servePrivacy P db a) := by
  have hwp : Tx.Wp dialect (fun _ => True) (fun r s' _ => ∃ id, Correlates a.1.header id ∧
      Outcome P db id a.1.request r s') (a.1.handler P) db [] :=
    Tx.wp_bind (wp_acceptOrGenerate fun id hid => (wp_handler id a.1.request).mono
      fun _ _ _ hout => ⟨id, hid, hout⟩)
  exact Tx.wp_sound (fun _ => trivial) 0 hwp

theorem accepted_of_answer {P : Platform} {db : Database} {a : PrivacyAction} {response : PrivacyResponse}
    (h : a.answer P db = .ok response) :
    ∃ id, Correlates a.1.header id ∧ Accepted P db id a.1.request response (servePrivacy P db a) := by
  obtain ⟨id, hid, hout⟩ := servePrivacy_outcome P db a
  rw [h] at hout
  cases hout with
  | accepted h => exact ⟨id, hid, h⟩

/-! ## Requests for examples -/

def office : Database :=
  .seeded [.insertUser ⟨0, "admin@fleet.org", "secret$", "Olha Koval", .admin, none, true, 0, none⟩]

def asks (request : PrivacyRequest) : PrivacyAction := (⟨some "c", request⟩, fun n => stepAt n)

end FleetManagement
