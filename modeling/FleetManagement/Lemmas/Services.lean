import FleetManagement.Api.Privacy
import FleetManagement.Lemmas.Statements
import FleetManagement.Library.Wp

/-!
# What the services do to the database

One rule for each function: which results it has on the committed database `s`, and what it commits.
Every step may fail, which leaves `s` as it was.
-/

namespace FleetManagement

variable {G : Draw → Prop} {s : Database} {ws : List Stmt} {α : Type}

/-! ## Reading -/

theorem wp_integerParameter {id : Int} {Q : Except Error Unit → Database → List Stmt → Prop}
    (hok : Q (.ok ()) s ws) (herr : ∀ e, Q (.error e) s ws) :
    Tx.Wp dialect G Q (integerParameter id) s ws := by
  unfold integerParameter
  split
  · exact hok
  · exact herr _

theorem wp_get {ρ : Type} [Keyed ρ] {table : Database → Table ρ} {id : Int}
    {Q : Except Error (Option ρ) → Database → List Stmt → Prop}
    (hok : Q (.ok ((table s).find? id)) s []) (herr : ∀ e, Q (.error e) s []) :
    Tx.Wp dialect G Q (get table id) s [] := by
  unfold get
  refine Tx.wp_bind (wp_integerParameter ?_ herr)
  exact Tx.wp_bind (Tx.wp_select rfl hok herr)

theorem wp_refresh {ρ : Type} [Keyed ρ] {table : Database → Table ρ} {id : Int}
    {Q : Except Error ρ → Database → List Stmt → Prop}
    (hok : ∀ row, (table s).find? id = some row → Q (.ok row) s []) (herr : ∀ e, Q (.error e) s []) :
    Tx.Wp dialect G Q (refresh table id) s [] := by
  unfold refresh
  refine Tx.wp_bind (Tx.wp_select rfl ?_ herr)
  simp only
  cases hrow : (table s).find? id with
  | none => exact herr _
  | some row => exact hok row hrow

theorem wp_now {Q : Except Error DateTime → Database → List Stmt → Prop} (h : ∀ t, Q (.ok t) s ws) :
    Tx.Wp dialect G Q now s ws :=
  Tx.wp_bind (Tx.wp_sample fun d _ => h d.now)

theorem wp_scalarOneOrNone {ρ : Type} {rows : List ρ}
    {Q : Except Error (Option ρ) → Database → List Stmt → Prop}
    (hok : ∀ o, rows = Option.toList o → Q (.ok o) s ws) (herr : ∀ e, Q (.error e) s ws) :
    Tx.Wp dialect G Q (scalarOneOrNone rows) s ws := by
  match rows with
  | [] => exact hok none rfl
  | [row] => exact hok (some row) rfl
  | _ :: _ :: _ => exact herr _

/-! ## Audit events -/

def Audited (s : Database) (event : AuditEvent) (s' : Database) : Prop :=
  dialect.applyAll [.insertAuditEvent event] s = .ok s'

theorem wp_recordAuditEvent {eventType result correlationId : String} {actorId subjectId : Option Int}
    {Q : Except Error Unit → Database → List Stmt → Prop}
    (hok : ∀ t s', Audited s (auditEvent eventType actorId subjectId result correlationId t) s' →
      Q (.ok ()) s' []) (herr : ∀ e, Q (.error e) s []) :
    Tx.Wp dialect G Q (recordAuditEvent eventType actorId subjectId result correlationId) s [] := by
  unfold recordAuditEvent
  refine Tx.wp_bind (wp_now fun t => Tx.wp_bind (Tx.wp_commitAll (fun u hu => ?_) herr))
  exact hok t u hu

/-! ## Access -/

theorem wp_getCurrentUser {token : Option Int} {Q : Except Error User → Database → List Stmt → Prop}
    (hok : ∀ actor, token = some actor.id → s.users.find? actor.id = some actor →
      actor.isActive = true → Q (.ok actor) s []) (herr : ∀ e, Q (.error e) s []) :
    Tx.Wp dialect G Q (getCurrentUser token) s [] := by
  unfold getCurrentUser
  cases token with
  | none => exact herr _
  | some userId =>
      refine Tx.wp_bind (wp_get ?_ herr)
      cases hrow : s.users.find? userId with
      | none => exact herr _
      | some actor =>
          obtain rfl : actor.id = userId := Table.key_of_find? hrow
          simp only
          split
          · rename_i hactive
            exact hok actor rfl hrow hactive
          · exact herr _

/-- The dependencies of a route let the request through, with these entities. -/
structure Admits (s : Database) (token : Option Int) (userId : Int) (a : SubjectAccess) : Prop where
  token : token = some a.actor.id
  actor : s.users.find? a.actor.id = some a.actor
  active : a.actor.isActive = true
  allowed : a.actor.id = userId ∨ a.actor.role = .admin
  subject : s.users.find? userId = some a.subject

theorem Admits.id {token : Option Int} {userId : Int} {a : SubjectAccess} (h : Admits s token userId a) :
    a.subject.id = userId := Table.key_of_find? h.subject

/-- The entities of the session are the committed rows. -/
theorem Admits.entity {token : Option Int} {userId : Int} {a : SubjectAccess}
    (h : Admits s token userId a) {id : Int} {row : User} (hrow : s.users.find? id = some row) :
    IdentityMap.entity a.loaded row = row := by
  obtain rfl : row.id = id := Table.key_of_find? hrow
  have hsub := h.id
  unfold IdentityMap.entity IdentityMap.find SubjectAccess.loaded
  by_cases ha : a.actor.id = row.id
  · have : a.actor = row := Option.some.inj (h.actor.symm.trans (ha ▸ hrow))
    simp [this]
  · by_cases hb : a.subject.id = row.id
    · have : a.subject = row := Option.some.inj (h.subject.symm.trans (hsub.symm.trans hb ▸ hrow))
      simp [ha, this]
    · simp [ha, hb]

theorem wp_subjectAccess {eventType correlationId : String} {token : Option Int} {userId : Int}
    {Q : Except Error SubjectAccess → Database → List Stmt → Prop}
    (hok : ∀ a, Admits s token userId a → Q (.ok a) s []) (herr : ∀ e, Q (.error e) s [])
    (haudit : ∀ e event s', Audited s event s' → Q (.error e) s' []) :
    Tx.Wp dialect G Q (subjectAccess eventType token userId correlationId) s [] := by
  unfold subjectAccess
  refine Tx.wp_bind (wp_getCurrentUser (fun actor htoken hactor hactive => ?_) herr)
  have hdeny : ∀ result, Tx.Wp dialect G Q (do
      recordAuditEvent eventType (some actor.id) (some userId) result correlationId
      throw (.notFound "User not found")) s [] := fun result =>
    Tx.wp_bind (wp_recordAuditEvent (fun t s' h => haudit _ _ s' h) herr)
  simp only
  split
  · rename_i hallowed
    refine Tx.wp_bind ?_
    unfold getUser IdentityMap.find
    by_cases hself : actor.id = userId
    · simp only [List.find?_cons, hself, decide_true]
      exact hok ⟨actor, actor⟩ ⟨htoken, hactor, hactive, hallowed, hself ▸ hactor⟩
    · simp only [List.find?_cons, hself, decide_false, List.find?_nil]
      refine wp_get ?_ herr
      cases hrow : s.users.find? userId with
      | none => exact hdeny _
      | some subject => exact hok ⟨subject, actor⟩ ⟨htoken, hactor, hactive, hallowed, hrow⟩
  · exact hdeny _

theorem wp_requireAdmin {token : Option Int} {Q : Except Error User → Database → List Stmt → Prop}
    (hok : ∀ actor, Q (.ok actor) s []) (herr : ∀ e, Q (.error e) s []) :
    Tx.Wp dialect G Q (requireAdmin token) s [] := by
  unfold requireAdmin requireRole
  refine Tx.wp_bind (wp_getCurrentUser (fun actor _ _ _ => ?_) herr)
  simp only
  split
  · exact hok actor
  · exact herr _

theorem wp_validate {ok : Bool} {Q : Except Error Unit → Database → List Stmt → Prop}
    (hok : ok = true → Q (.ok ()) s ws) (herr : ∀ e, Q (.error e) s ws) :
    Tx.Wp dialect G Q (validate ok) s ws := by
  unfold validate
  split
  · rename_i h; exact hok h
  · exact herr _

/-! ## Accounts -/

theorem wp_getUserByEmail {P : Platform} {email : String}
    {Q : Except Error (Option User) → Database → List Stmt → Prop}
    (hok : ∀ o, (∀ user ∈ o, user ∈ s.users.rows) → Q (.ok o) s []) (herr : ∀ e, Q (.error e) s []) :
    Tx.Wp dialect G Q (getUserByEmail P email) s [] := by
  unfold getUserByEmail
  refine Tx.wp_bind (Tx.wp_select rfl ?_ herr)
  refine wp_scalarOneOrNone (fun o ho => hok o fun user huser => ?_) herr
  have hmem : user ∈ Option.toList o := Option.mem_toList.mpr huser
  rw [← ho] at hmem
  exact List.mem_of_mem_filter hmem

theorem wp_login {P : Platform} {username password : String} {ipAddress userAgent : Option String}
    {Q : Except Error User → Database → List Stmt → Prop}
    (hok : ∀ user activity s', user ∈ s.users.rows → user.isActive = true →
      activity.userId = user.id → dialect.applyAll [.insertUserActivity activity] s = .ok s' →
      Q (.ok user) s' []) (herr : ∀ e, Q (.error e) s []) :
    Tx.Wp dialect G Q (login P username password ipAddress userAgent) s [] := by
  unfold login authenticate
  refine Tx.wp_bind (Tx.wp_bind (wp_getUserByEmail (fun o ho => ?_) herr))
  cases o with
  | none => exact herr _
  | some user =>
      simp only
      split
      · exact herr _
      · rename_i hactive
        unfold recordActivity
        refine Tx.wp_bind (Tx.wp_bind (wp_now fun t => Tx.wp_bind
          (Tx.wp_commitAll (fun u hu => ?_) herr)))
        exact hok user _ u (ho user rfl) (by simp_all) rfl hu

theorem wp_createUser {P : Platform} {email password fullName : String} {role : UserRole}
    {phone : Option String} {Q : Except Error User → Database → List Stmt → Prop}
    (hok : ∀ user salt t s', dialect.applyAll [.insertUser
        (newUser P email password fullName role phone salt t)] s = .ok s' →
      s'.users.find? s'.users.seq = some user → Q (.ok user) s' [])
    (hlost : ∀ e salt t s', dialect.applyAll [.insertUser
      (newUser P email password fullName role phone salt t)] s = .ok s' → Q (.error e) s' [])
    (herr : ∀ e, Q (.error e) s []) :
    Tx.Wp dialect G Q (createUser P email password fullName role phone) s [] := by
  unfold createUser
  refine Tx.wp_bind (Tx.wp_sample fun d _ => Tx.wp_bind (wp_now fun t => Tx.wp_bind
    (Tx.wp_tryCatch (Tx.wp_commitAll (fun u hu => ?_) fun e => ?_))))
  · exact wp_refresh (fun row hrow => hok row d.salt t u hu hrow) fun e => hlost e d.salt t u hu
  · simp only
    split
    · exact Tx.wp_bind (Tx.wp_rollbackAll (herr _))
    · exact herr _

theorem wp_createRenterProfile {a : SubjectAccess} {fullName licenseNumber : String}
    {Q : Except Error Int → Database → List Stmt → Prop}
    (hok : ∀ s', (field 1 150 fullName && field 1 50 licenseNumber) = true →
      dialect.applyAll [.insertRenter (newRenterProfile a.subject.id fullName licenseNumber)] s = .ok s' →
      Q (.ok s'.renters.seq) s' []) (herr : ∀ e, Q (.error e) s []) :
    Tx.Wp dialect G Q (createRenterProfile a fullName licenseNumber) s [] := by
  unfold createRenterProfile
  refine Tx.wp_bind (wp_validate (fun hvalid => Tx.wp_bind (Tx.wp_tryCatch
    (Tx.wp_commitAll (fun u hu => hok u hvalid hu) fun e => ?_))) herr)
  simp only
  split
  · exact Tx.wp_bind (Tx.wp_rollbackAll (herr _))
  · exact herr _

/-! ## Consents -/

theorem wp_getCurrent {userId : Int} {purpose : ConsentPurpose} {lock : Bool}
    {Q : Except Error (Option UserConsent) → Database → List Stmt → Prop}
    (hok : ∀ o, s.consentsFor userId purpose = Option.toList o → Q (.ok o) s [])
    (herr : ∀ e, Q (.error e) s []) :
    Tx.Wp dialect G Q (getCurrent userId purpose lock) s [] := by
  unfold getCurrent
  cases lock with
  | true =>
      exact Tx.wp_bind (Tx.wp_selectForUpdate rfl (wp_scalarOneOrNone hok herr) herr)
  | false =>
      exact Tx.wp_bind (Tx.wp_select rfl (wp_scalarOneOrNone hok herr) herr)

theorem mem_consentsFor {db : Database} {userId : Int} {purpose : ConsentPurpose} {c : UserConsent}
    (h : db.consentsFor userId purpose = [c]) :
    c ∈ db.userConsents.rows ∧ c.userId = userId ∧ c.purpose = purpose := by
  have hmem : c ∈ db.consentsFor userId purpose := by rw [h]; exact List.mem_singleton_self c
  obtain ⟨hrow, hc⟩ := List.mem_filter.mp hmem
  exact ⟨hrow, by simpa using hc⟩

def UserConsent.grants (policyVersion : String) (c : UserConsent) : Bool :=
  c.status = .granted ∧ c.policyVersion = policyVersion

section Grant
variable {userId : Int} {purpose : ConsentPurpose} {policyVersion source : String}
  {Q : Except Error ConsentChange → Database → List Stmt → Prop}

theorem wp_grantOnce
    (hsame : ∀ o, s.consentsFor userId purpose = Option.toList o →
      o.any (UserConsent.grants policyVersion) = true → Q (.ok ⟨o, false⟩) s [])
    (hok : ∀ o t c s', s.consentsFor userId purpose = Option.toList o →
      o.any (UserConsent.grants policyVersion) = false →
      dialect.applyAll (grantFlush userId purpose o policyVersion source t) s = .ok s' →
      Q (.ok ⟨c, true⟩) s' [])
    (herr : ∀ e, Q (.error e) s []) :
    Tx.Wp dialect G Q (grantOnce userId purpose policyVersion source) s [] := by
  unfold grantOnce
  refine Tx.wp_bind (wp_now fun t => Tx.wp_bind (wp_getCurrent (fun o ho => ?_) herr))
  simp only
  split
  · rename_i hsome; exact hsame o ho hsome
  · rename_i hnone
    refine Tx.wp_bind (Tx.wp_commitAll (fun u hu => ?_) herr)
    have hfalse := Bool.eq_false_iff.mpr hnone
    cases o with
    | none => exact hok none t _ u ho hfalse hu
    | some c => exact hok (some c) t _ u ho hfalse hu

theorem wp_grant
    (hsame : ∀ o, s.consentsFor userId purpose = Option.toList o →
      o.any (UserConsent.grants policyVersion) = true → Q (.ok ⟨o, false⟩) s [])
    (hok : ∀ o t c s', s.consentsFor userId purpose = Option.toList o →
      o.any (UserConsent.grants policyVersion) = false →
      dialect.applyAll (grantFlush userId purpose o policyVersion source t) s = .ok s' →
      Q (.ok ⟨c, true⟩) s' [])
    (herr : ∀ e, Q (.error e) s []) :
    Tx.Wp dialect G Q (grant userId purpose policyVersion source) s [] := by
  refine Tx.wp_tryCatch (wp_grantOnce hsame hok fun e => ?_)
  simp only
  split
  · exact Tx.wp_bind (Tx.wp_rollbackAll (wp_grantOnce hsame hok herr))
  · exact herr _

theorem wp_revoke
    (hsame : ∀ o, s.consentsFor userId purpose = Option.toList o →
      (∀ c ∈ o, c.status = .withdrawn) → Q (.ok ⟨o, false⟩) s [])
    (hok : ∀ c t c' s', s.consentsFor userId purpose = [c] → c.status = .granted →
      dialect.applyAll (revokeFlush c userId purpose source t) s = .ok s' → Q (.ok ⟨c', true⟩) s' [])
    (herr : ∀ e, Q (.error e) s []) :
    Tx.Wp dialect G Q (revoke userId purpose source) s [] := by
  unfold revoke
  refine Tx.wp_bind (wp_getCurrent (fun o ho => ?_) herr)
  cases o with
  | none => exact hsame none ho (by simp)
  | some c =>
      simp only
      split
      · rename_i hw; exact hsame (some c) ho (by simp [hw])
      · rename_i hw
        have hg : c.status = .granted := by cases hc : c.status <;> simp_all
        refine Tx.wp_bind (wp_now fun t => Tx.wp_bind (Tx.wp_commitAll (fun u hu => ?_) herr))
        exact hok c t _ u ho hg hu

end Grant

/-! ## Consent-dependent actions -/

def Database.Consented (s : Database) (userId : Int) (purpose : ConsentPurpose) : Prop :=
  ∃ c, s.consentsFor userId purpose = [c] ∧ c.status = .granted ∧ c.policyVersion = currentPolicyVersion

theorem wp_checkConsent {userId : Int} {purpose : ConsentPurpose}
    {Q : Except Error GateDecision → Database → List Stmt → Prop}
    (hok : ∀ o, s.consentsFor userId purpose = Option.toList o →
      Q (.ok (decideGate o currentPolicyVersion)) s [])
    (herr : ∀ e, Q (.error e) s []) : Tx.Wp dialect G Q (checkConsent userId purpose) s [] :=
  Tx.wp_bind (wp_getCurrent hok herr)

theorem decideGate_allowed {o : Option UserConsent} {version : String}
    (h : (decideGate o version).allowed = true) :
    ∃ c, o = some c ∧ c.status = .granted ∧ c.policyVersion = version := by
  cases o with
  | none => cases h
  | some c =>
      refine ⟨c, rfl, ?_⟩
      unfold decideGate at h
      by_cases hs : c.status = .granted
      · by_cases hv : c.policyVersion = version
        · exact ⟨hs, hv⟩
        · simp [hs, hv] at h
      · simp [hs] at h

theorem wp_requireConsent {userId actorId : Int} {purpose : ConsentPurpose} {correlationId : String}
    {Q : Except Error Unit → Database → List Stmt → Prop}
    (hok : s.Consented userId purpose → Q (.ok ()) s []) (herr : ∀ e, Q (.error e) s [])
    (haudit : ∀ e event s', Audited s event s' → Q (.error e) s' []) :
    Tx.Wp dialect G Q (requireConsent userId purpose actorId correlationId) s [] := by
  unfold requireConsent
  refine Tx.wp_bind (wp_checkConsent (fun o ho => ?_) herr)
  simp only
  split
  · rename_i hallowed
    obtain ⟨c, rfl, hc⟩ := decideGate_allowed hallowed
    exact hok ⟨c, ho, hc⟩
  · exact Tx.wp_bind (wp_recordAuditEvent (fun t s' h => haudit _ _ s' h) herr)

theorem wp_enqueueMarketingEmail {userId actorId : Int} {campaign correlationId : String}
    {Q : Except Error MarketingMessage → Database → List Stmt → Prop}
    (hok : ∀ message t s', s.Consented userId .marketingEmail →
      dialect.applyAll [.insertMarketingMessage (newMessage userId campaign t)] s = .ok s' →
      Q (.ok message) s' [])
    (hlost : ∀ e t s', s.Consented userId .marketingEmail →
      dialect.applyAll [.insertMarketingMessage (newMessage userId campaign t)] s = .ok s' →
      Q (.error e) s' [])
    (herr : ∀ e, Q (.error e) s [])
    (haudit : ∀ e event s', Audited s event s' → Q (.error e) s' []) :
    Tx.Wp dialect G Q (enqueueMarketingEmail userId campaign actorId correlationId) s [] := by
  unfold enqueueMarketingEmail
  refine Tx.wp_bind (wp_requireConsent (fun hc => ?_) herr haudit)
  refine Tx.wp_bind (wp_now fun t => Tx.wp_bind (Tx.wp_commitAll (fun u hu => ?_) herr))
  exact wp_refresh (fun row _ => hok row t u hc hu) fun e => hlost e t u hc hu

theorem wp_recordAnalyticsEvent {userId actorId : Int} {eventName correlationId : String}
    {Q : Except Error AnalyticsEvent → Database → List Stmt → Prop}
    (hok : ∀ event t s', s.Consented userId .optionalAnalytics →
      dialect.applyAll [.insertAnalyticsEvent ⟨0, userId, eventName, t⟩] s = .ok s' →
      Q (.ok event) s' [])
    (hlost : ∀ e t s', s.Consented userId .optionalAnalytics →
      dialect.applyAll [.insertAnalyticsEvent ⟨0, userId, eventName, t⟩] s = .ok s' →
      Q (.error e) s' [])
    (herr : ∀ e, Q (.error e) s [])
    (haudit : ∀ e event s', Audited s event s' → Q (.error e) s' []) :
    Tx.Wp dialect G Q (recordAnalyticsEvent userId eventName actorId correlationId) s [] := by
  unfold recordAnalyticsEvent
  refine Tx.wp_bind (wp_requireConsent (fun hc => ?_) herr haudit)
  refine Tx.wp_bind (wp_now fun t => Tx.wp_bind (Tx.wp_commitAll (fun u hu => ?_) herr))
  exact wp_refresh (fun row _ => hok row t u hc hu) fun e => hlost e t u hc hu

def dispatchFlush (outcomes : List DispatchOutcome) : List Stmt :=
  outcomes.map fun o => .updateMarketingMessage o.message.id o.changes

theorem wp_verdicts {t : DateTime} {messages : List MarketingMessage}
    {Q : Except Error (List DispatchOutcome) → Database → List Stmt → Prop}
    (hok : ∀ outcomes, Q (.ok outcomes) s []) (herr : ∀ e, Q (.error e) s []) :
    Tx.Wp dialect G Q (verdicts t messages) s [] := by
  induction messages generalizing Q with
  | nil => exact hok []
  | cons m messages ih =>
      refine Tx.wp_bind (wp_checkConsent (fun o _ => ?_) herr)
      exact Tx.wp_bind (ih (fun outcomes => hok _) herr)

theorem wp_dispatchPendingMarketing {Q : Except Error DispatchSummary → Database → List Stmt → Prop}
    (hok : ∀ outcomes s', dialect.applyAll (dispatchFlush outcomes) s = .ok s' →
      Q (.ok (summary outcomes)) s' []) (herr : ∀ e, Q (.error e) s []) :
    Tx.Wp dialect G Q dispatchPendingMarketing s [] := by
  unfold dispatchPendingMarketing decideQueue
  refine Tx.wp_bind (wp_now fun t => Tx.wp_bind (Tx.wp_bind (Tx.wp_select rfl ?_ herr)))
  refine wp_verdicts (fun outcomes => ?_) herr
  exact Tx.wp_bind (Tx.wp_commitAll (fun u hu => hok outcomes u hu) herr)

end FleetManagement
