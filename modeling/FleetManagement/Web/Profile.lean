import FleetManagement.Consents.Commits
import FleetManagement.Lemmas.Handlers
import FleetManagement.Privacy.Requests

/-!
# The consent switches of the profile page

`static/js/views/profile.js`: a switch shows the status of the consent and its changes are posted to the
consent routes. The page grants version 1.0 of the policy, so the switches and the gate agree exactly as
long as every grant that passes its checks carries the version that the gate requires.
-/

namespace FleetManagement

/-- `POLICY_VERSION` of the page. -/
def pagePolicyVersion : String := "1.0"

/-- `CONSENT_SOURCE` of the page. -/
def pageConsentSource : String := "web"

/-- The entry of the page's map from purposes to consents: a later consent replaces an earlier one. -/
def currentFor (current : List UserConsent) (purpose : ConsentPurpose) : Option UserConsent :=
  (current.filter fun c => c.purpose = purpose).getLast?

/-- Whether the switch that `consentRow` renders is ON. -/
def consentRow (current : List UserConsent) (purpose : ConsentPurpose) : Bool :=
  (currentFor current purpose).any fun c => c.status = .granted

/-- A call of the API, or a switch that the user turns on the page. -/
inductive ProfileRequest where
  | api (request : PrivacyRequest)
  | toggle (purpose : ConsentPurpose) (checked : Bool)
  deriving DecidableEq, Repr

/-- The request that is sent, where `userId` is the user of the page. -/
def ProfileRequest.request (userId : Int) : ProfileRequest → PrivacyRequest
  | .api request => request
  | .toggle purpose true =>
      .grantConsent (some userId) userId purpose pagePolicyVersion pageConsentSource
  | .toggle purpose false => .revokeConsent (some userId) userId purpose (some pageConsentSource)

/-- A request and what the server draws while it serves it. -/
structure ProfileAction where
  header : Option String
  request : ProfileRequest
  draws : Nat → Draw

def ProfileAction.action (userId : Int) (a : ProfileAction) : PrivacyAction :=
  (⟨a.header, a.request.request userId⟩, Tx.calmly a.draws)

def serveProfile (P : Platform) (userId : Int) (db : Database) (a : ProfileAction) : Database :=
  servePrivacy P db (a.action userId)

/-! ## Switches and gate -/

/-- Every switch of the user's page is ON exactly if the gate allows its purpose. -/
def SwitchesAgree (userId : Int) (db : Database) : Prop :=
  ∀ purpose draws, ∃ current d,
    (listCurrent userId).eval dialect (Tx.calmly draws) ⟨db, [], 0⟩ = (.ok current, ⟨db, [], 1⟩) ∧
    (checkConsent userId purpose).eval dialect (Tx.calmly draws) ⟨db, [], 0⟩ = (.ok d, ⟨db, [], 1⟩) ∧
    (consentRow current purpose = true ↔ d.allowed = true)

/-- A grant that passes the access check, its schema and the constraints of the database. -/
structure GrantAdmitted (db : Database) (token : Option Int) (userId : Int) (purpose : ConsentPurpose)
    (policyVersion source : String) : Prop where
  access : ∃ a, Admits db token userId a
  valid : (field 1 20 policyVersion && field 1 50 source) = true
  row : (history userId purpose .grant policyVersion source 0).check db = .ok ()
  historyRoom : db.consentHistory.seq < Keyed.maxKey ConsentHistory
  consentRoom : db.consentsFor userId purpose = [] → db.userConsents.seq < Keyed.maxKey UserConsent

/-- A grant for the user that passes these checks carries the version that the gate requires. -/
def GrantsCurrent (userId : Int) (db : Database) (request : PrivacyRequest) : Prop :=
  ∀ token purpose policyVersion source,
    request = .grantConsent token userId purpose policyVersion source →
    GrantAdmitted db token userId purpose policyVersion source → policyVersion = currentPolicyVersion

section Agreement
variable {db : Database} {userId : Int} {purpose : ConsentPurpose}

def Database.OneEach (db : Database) : Prop :=
  ∀ userId purpose, ∃ o, db.consentsFor userId purpose = Option.toList o

theorem filter_consentsOf : (db.consentsOf userId).filter (fun c => c.purpose = purpose) =
    db.consentsFor userId purpose := by
  have hfilter : ∀ p, (db.consentsFor userId p).filter (fun c => c.purpose = purpose) =
      if p = purpose then db.consentsFor userId p else [] := by
    intro p
    split
    · rename_i hp
      subst hp
      refine List.filter_eq_self.mpr fun c hc => ?_
      simpa using (of_decide_eq_true (List.mem_filter.mp hc).2).2
    · rename_i hp
      refine List.filter_eq_nil_iff.mpr fun c hc => ?_
      have hc := of_decide_eq_true (List.mem_filter.mp hc).2
      simpa [hc.2] using hp
  unfold Database.consentsOf
  rw [List.filter_flatMap]
  simp only [hfilter]
  cases purpose <;> simp [ConsentPurpose.all]

/-- The page and the gate both look at the same row, one at its status, the other at its version too. -/
theorem switchesAgree_iff (h : db.OneEach) : SwitchesAgree userId db ↔
    ∀ purpose c, db.consentsFor userId purpose = [c] → c.status = .granted →
      c.policyVersion = currentPolicyVersion := by
  have heval : ∀ purpose o draws, db.consentsFor userId purpose = Option.toList o →
      (checkConsent userId purpose).eval dialect (Tx.calmly draws) ⟨db, [], 0⟩ =
        (.ok (decideGate o currentPolicyVersion), ⟨db, [], 1⟩) := by
    intro purpose o draws ho
    unfold checkConsent ConsentPolicyGate.check getCurrent
    simp only [Bool.false_eq_true, if_false, Tx.bind_assoc]
    rw [Tx.eval_select rfl, ho]
    cases o <;> rfl
  have hrow : ∀ purpose o, db.consentsFor userId purpose = Option.toList o →
      consentRow (db.consentsOf userId) purpose = o.any fun c => c.status = .granted := by
    intro purpose o ho
    unfold consentRow currentFor
    rw [filter_consentsOf, ho]
    cases o <;> rfl
  constructor
  · intro hagree purpose c hc hgranted
    obtain ⟨current, d, hlist, hcheck, hiff⟩ := hagree purpose fun _ => ⟨0, zeroUuid, "", ""⟩
    obtain rfl : db.consentsOf userId = current := Except.ok.inj (congrArg Prod.fst hlist)
    rw [heval purpose (some c) _ hc] at hcheck
    obtain rfl := Except.ok.inj (congrArg Prod.fst hcheck)
    have hon : consentRow (db.consentsOf userId) purpose = true := by
      rw [hrow purpose (some c) hc]
      simpa using hgranted
    obtain ⟨c', hc', -, hversion⟩ := decideGate_allowed (hiff.mp hon)
    cases hc'
    exact hversion
  · intro hcurrent purpose draws
    obtain ⟨o, ho⟩ := h userId purpose
    refine ⟨_, _, rfl, heval purpose o draws ho, ?_⟩
    rw [hrow purpose o ho]
    cases o with
    | none => simp [decideGate]
    | some c =>
        constructor
        · intro hon
          have hgranted : c.status = .granted := by simpa using hon
          simp [decideGate, hgranted, hcurrent purpose c ho hgranted]
        · intro hallowed
          obtain ⟨c', hc', hgranted, -⟩ := decideGate_allowed hallowed
          cases hc'
          simpa using hgranted

end Agreement

/-! ## What a request does to the consents -/

section Requests
variable {P : Platform} {s s' : Database} {user : Int} {about : ConsentPurpose}

/-- A row of `s'` for the user and purpose that is granted with the version. -/
def Database.Grants (s' : Database) (user : Int) (about : ConsentPurpose) (policyVersion : String) :
    Prop :=
  ∃ c, s'.consentsFor user about = [c] ∧ c.status = .granted ∧ c.policyVersion = policyVersion

theorem grantAdmitted_of_flush {token : Option Int} {userId : Int} {purpose : ConsentPurpose}
    {o : Option UserConsent} {policyVersion source : String} {t : DateTime} {a : SubjectAccess}
    (ha : Admits s token userId a) (hvalid : (field 1 20 policyVersion && field 1 50 source) = true)
    (ho : s.consentsFor userId purpose = Option.toList o)
    (h : dialect.applyAll (grantFlush userId purpose o policyVersion source t) s = .ok s') :
    GrantAdmitted s token userId purpose policyVersion source := by
  cases o with
  | none =>
      obtain ⟨-, hrow, hc, hh, rfl⟩ := grantFlush_none h
      exact ⟨⟨a, ha⟩, hvalid, hrow, hh, fun _ => hc⟩
  | some c =>
      obtain ⟨hrow, -, -⟩ := consentsFor_toList ho
      obtain ⟨hcheck, hh, rfl⟩ := grantFlush_some hrow h
      refine ⟨⟨a, ha⟩, hvalid, hcheck, hh, fun hnone => ?_⟩
      rw [hnone] at ho
      cases ho

theorem grantFlush_consents (user : Int) (about : ConsentPurpose) {userId : Int}
    {purpose : ConsentPurpose} {o : Option UserConsent} {policyVersion source : String} {t : DateTime}
    (ho : s.consentsFor userId purpose = Option.toList o)
    (h : dialect.applyAll (grantFlush userId purpose o policyVersion source t) s = .ok s') :
    s'.Grants userId purpose policyVersion ∧
      (¬ (userId = user ∧ purpose = about) → s'.consentsFor user about = s.consentsFor user about) := by
  cases o with
  | none =>
      obtain ⟨hfree, -, hc, hh, rfl⟩ := grantFlush_none h
      constructor
      · refine ⟨{ newConsent userId purpose policyVersion source t with id := s.userConsents.seq + 1 },
          ?_, rfl, rfl⟩
        rw [consentsFor_logged, consentsFor_insert, hfree, if_pos ⟨rfl, rfl⟩]
        rfl
      · intro hpair
        rw [consentsFor_logged]
        exact consentsFor_insert_of_ne hpair
  | some c =>
      obtain ⟨hrow, rfl, rfl⟩ := consentsFor_toList ho
      obtain ⟨-, hh, rfl⟩ := grantFlush_some hrow h
      have hsame : ∀ c : UserConsent, (c.granted policyVersion source t).userId = c.userId ∧
          (c.granted policyVersion source t).purpose = c.purpose := fun c => ⟨rfl, rfl⟩
      constructor
      · refine ⟨c.granted policyVersion source t, ?_, rfl, rfl⟩
        rw [consentsFor_logged, consentsFor_update hsame, ho]
        exact congrArg (fun c => [c]) (if_pos rfl)
      · intro hpair
        rw [consentsFor_logged, consentsFor_update_of_ne hsame hrow hpair]

theorem revokeFlush_consents (user : Int) (about : ConsentPurpose) {c : UserConsent} {userId : Int}
    {purpose : ConsentPurpose} {source : String} {t : DateTime} (hc : s.consentsFor userId purpose = [c])
    (h : dialect.applyAll (revokeFlush c userId purpose source t) s = .ok s') :
    s'.consentsFor userId purpose = [c.withdrawn source t] ∧
      (¬ (userId = user ∧ purpose = about) → s'.consentsFor user about = s.consentsFor user about) := by
  obtain ⟨hrow, rfl, rfl⟩ := consentsFor_toList (c := c) hc
  obtain ⟨hh, rfl⟩ := revokeFlush_ok hrow h
  have hsame : ∀ c : UserConsent, (c.withdrawn source t).userId = c.userId ∧
      (c.withdrawn source t).purpose = c.purpose := fun c => ⟨rfl, rfl⟩
  constructor
  · rw [consentsFor_logged, consentsFor_update hsame, hc]
    exact congrArg (fun c => [c]) (if_pos rfl)
  · intro hpair
    rw [consentsFor_logged, consentsFor_update_of_ne hsame hrow hpair]

/-- The consent stays as it is, is withdrawn, or is granted by the request. -/
inductive ConsentEffect (user : Int) (about : ConsentPurpose) (s s' : Database) :
    PrivacyRequest → Prop
  | same {request : PrivacyRequest} (h : s'.consentsFor user about = s.consentsFor user about) :
      ConsentEffect user about s s' request
  | withdrawn {request : PrivacyRequest} {c : UserConsent} (h : s'.consentsFor user about = [c])
      (hc : c.status = .withdrawn) : ConsentEffect user about s s' request
  | granted {token : Option Int} {policyVersion source : String}
      (hadmitted : GrantAdmitted s token user about policyVersion source)
      (h : s'.Grants user about policyVersion) :
      ConsentEffect user about s s' (.grantConsent token user about policyVersion source)

theorem consentEffect_of_eq {request : PrivacyRequest} (h : s'.userConsents = s.userConsents) :
    ConsentEffect user about s s' request :=
  .same (by unfold Database.consentsFor; rw [h])

theorem userConsents_dispatchFlush {os : List DispatchOutcome}
    (h : dialect.applyAll (dispatchFlush os) s = .ok s') : s'.userConsents = s.userConsents := by
  rw [dispatchFlush_ok h]
  rfl

theorem audited_userConsents {event : AuditEvent} (h : Audited s event s') :
    s'.userConsents = s.userConsents := by
  obtain ⟨t, rfl⟩ := applyAll_audit h
  rfl

theorem Accepted.consentEffect {id : String} {request : PrivacyRequest} {response : PrivacyResponse}
    (h : Accepted P s id request response s') (hone : s.OneEach) :
    ConsentEffect user about s s' request := by
  cases h with
  | register hemail h =>
      obtain ⟨-, -, rfl⟩ := insertUser_ok.mp (dialect.applyAll_singleton_ok.mp h)
      exact consentEffect_of_eq rfl
  | login huser hactive hid h =>
      obtain ⟨-, -, rfl⟩ := insertUserActivity_ok.mp (dialect.applyAll_singleton_ok.mp h)
      exact consentEffect_of_eq rfl
  | createRenterProfile ha hvalid h =>
      obtain ⟨-, -, rfl⟩ := insertRenter_ok.mp (dialect.applyAll_singleton_ok.mp h)
      exact consentEffect_of_eq rfl
  | grantedBefore ha ho hsome => exact .same rfl
  | @granted token userId purpose policyVersion source a o c t s' ha hvalid ho hnone h =>
      obtain ⟨hgrants, hother⟩ := grantFlush_consents user about ho h
      by_cases hpair : userId = user ∧ purpose = about
      · obtain ⟨rfl, rfl⟩ := hpair
        exact .granted (grantAdmitted_of_flush ha hvalid ho h) hgrants
      · exact .same (hother hpair)
  | notGranted ha ho hw => exact .same rfl
  | @revoked token userId purpose source a c c' t s' ha hc hg h =>
      obtain ⟨hw, hother⟩ := revokeFlush_consents user about hc h
      by_cases hpair : userId = user ∧ purpose = about
      · obtain ⟨rfl, rfl⟩ := hpair
        exact .withdrawn hw rfl
      · exact .same (hother hpair)
  | queued message ha hc h =>
      obtain ⟨hseq, rfl⟩ := applyAll_message h
      exact consentEffect_of_eq rfl
  | tracked event ha hc h =>
      obtain ⟨t, rfl⟩ := applyAll_event h
      exact consentEffect_of_eq rfl
  | dispatched h => exact consentEffect_of_eq (userConsents_dispatchFlush h)
  | erasedBefore ha hu h => exact consentEffect_of_eq (audited_userConsents h)
  | @erased token userId a d s' ha hu h =>
      have hmap : s'.consentsFor user about = (s.consentsFor user about).map
          (UserConsent.withdrawnFor a.subject.id "erasure" d.withdrawnAt) := by
        rw [← consentsFor_withdrawn]
        unfold Database.consentsFor
        rw [h.userConsents]
        rfl
      obtain ⟨o, ho⟩ := hone user about
      rw [ho] at hmap
      cases o with
      | none => exact .same (by rw [hmap, ho]; rfl)
      | some c =>
          by_cases hgranted : c.userId = a.subject.id ∧ c.status = .granted
          · refine .withdrawn (c := c.withdrawn "erasure" d.withdrawnAt) ?_ rfl
            rw [hmap]
            exact congrArg (fun c => [c]) (if_pos hgranted)
          · refine .same ?_
            rw [hmap, ho]
            exact congrArg (fun c => [c]) (if_neg hgranted)

theorem ConsentEffect.oneEach {request : PrivacyRequest}
    (h : ConsentEffect user about s s' request) (hone : s.OneEach) :
    ∃ o, s'.consentsFor user about = Option.toList o := by
  cases h with
  | same h => rw [h]; exact hone user about
  | withdrawn h _ => exact ⟨some _, h⟩
  | granted _ h =>
      obtain ⟨c, hc, -⟩ := h
      exact ⟨some c, hc⟩

theorem servePrivacy_consentEffect {a : PrivacyAction} (hone : s.OneEach) :
    ConsentEffect user about s (servePrivacy P s a) a.1.request := by
  obtain ⟨id, -, hout⟩ := servePrivacy_outcome P s a
  generalize a.answer P s = answer at hout
  generalize servePrivacy P s a = s' at hout ⊢
  cases hout with
  | accepted h => exact h.consentEffect hone
  | unanswered h => exact h.consentEffect hone
  | unchanged => exact .same rfl
  | audited h => exact consentEffect_of_eq (audited_userConsents h)

theorem grants_of_answer {a : PrivacyAction} {token : Option Int} {policyVersion source : String}
    {response : PrivacyResponse} (hr : a.1.request = .grantConsent token user about policyVersion source)
    (h : a.answer P s = .ok response) : (servePrivacy P s a).Grants user about policyVersion := by
  obtain ⟨id, -, hacc⟩ := accepted_of_answer h
  generalize servePrivacy P s a = s' at hacc ⊢
  rw [hr] at hacc
  cases hacc with
  | @grantedBefore token userId purpose policyVersion source a o ha ho hsome =>
      cases o with
      | none => cases hsome
      | some c =>
          have hc : c.status = .granted ∧ c.policyVersion = policyVersion := by
            simpa [UserConsent.grants] using hsome
          exact ⟨c, ho, hc⟩
  | granted ha hvalid ho hnone h => exact (grantFlush_consents user about ho h).1

/-! ## A grant that nothing stops -/

section Calm
variable {draws : Nat → Draw} {n : Nat} {token : Option Int} {userId : Int} {purpose : ConsentPurpose}
  {policyVersion source : String}

theorem eval_getCurrentUser {a : SubjectAccess} (ha : Admits s token userId a) :
    (getCurrentUser token).eval dialect (Tx.calmly draws) ⟨s, [], n⟩ = (.ok a.actor, ⟨s, [], n + 1⟩) := by
  unfold getCurrentUser
  simp only [ha.token]
  rw [eval_get (Nat.le_refl _) ha.actor]
  simp only [ha.active, if_true]
  rfl

theorem eval_subjectAccess (draws : Nat → Draw) {a : SubjectAccess} (eventType correlationId : String)
    (ha : Admits s token userId a) : ∃ b m,
      (subjectAccess eventType token userId correlationId).eval dialect (Tx.calmly draws) ⟨s, [], n⟩ =
        (.ok b, ⟨s, [], m⟩) ∧ b.subject.id = userId := by
  unfold subjectAccess
  rw [Tx.eval_bind_ok (eval_getCurrentUser ha)]
  simp only [ha.allowed, if_true]
  unfold getUser IdentityMap.find
  by_cases hself : a.actor.id = userId
  · simp only [List.find?_cons, hself, decide_true]
    exact ⟨⟨a.actor, a.actor⟩, _, rfl, hself⟩
  · simp only [List.find?_cons, hself, decide_false, List.find?_nil]
    rw [eval_get (Nat.le_refl _) ha.subject]
    exact ⟨⟨a.subject, a.actor⟩, _, rfl, ha.id⟩

theorem varchar_dirty {k : Nat} {loaded value : String} (h : varchar k value = .ok ()) :
    optional (varchar k) (dirty loaded value) = .ok () := by
  unfold dirty
  split
  · rfl
  · exact h

theorem GrantAdmitted.flush (h : GrantAdmitted s token userId purpose policyVersion source)
    {o : Option UserConsent} (ho : s.consentsFor userId purpose = Option.toList o) (t : DateTime) :
    ∃ s', dialect.applyAll (grantFlush userId purpose o policyVersion source t) s = .ok s' := by
  obtain ⟨_, hversion, hrow⟩ := bind_eq_ok.mp h.row
  obtain ⟨_, hsource, hrefs⟩ := bind_eq_ok.mp hrow
  cases o with
  | none =>
      have hconsent : UserConsent.check s (newConsent userId purpose policyVersion source t) = .ok () :=
        bind_eq_ok.mpr ⟨_, hversion, bind_eq_ok.mpr ⟨_, hsource,
          bind_eq_ok.mpr ⟨_, unique_ok.mpr ho, hrefs⟩⟩⟩
      exact ⟨_, dialect.applyAll_pair_ok.mpr ⟨_, insertUserConsent_ok.mpr
        ⟨hconsent, h.consentRoom ho, rfl⟩, insertConsentHistory_ok.mpr ⟨h.row, h.historyRoom, rfl⟩⟩⟩
  | some c =>
      obtain ⟨hc, -, -⟩ := consentsFor_toList ho
      have hset : (c.changes (c.granted policyVersion source t)).check = .ok () :=
        bind_eq_ok.mpr ⟨_, varchar_dirty hversion, varchar_dirty hsource⟩
      exact ⟨_, dialect.applyAll_pair_ok.mpr ⟨_, updateUserConsent_ok.mpr ⟨hset, ⟨c, hc⟩, rfl⟩,
        insertConsentHistory_ok.mpr ⟨h.row, h.historyRoom, rfl⟩⟩⟩

theorem GrantAdmitted.eval_grant (draws : Nat → Draw)
    (h : GrantAdmitted s token userId purpose policyVersion source)
    (hone : s.OneEach) : ∃ change d, (grant userId purpose policyVersion source).eval dialect
      (Tx.calmly draws) ⟨s, [], n⟩ = (.ok change, d) := by
  obtain ⟨o, ho⟩ := hone userId purpose
  have hnow : now.eval dialect (Tx.calmly draws) ⟨s, [], n⟩ = (.ok (draws n).now, ⟨s, [], n + 1⟩) := rfl
  have hcurrent : (getCurrent userId purpose true).eval dialect (Tx.calmly draws) ⟨s, [], n + 1⟩ =
      (.ok o, ⟨s, [], n + 2⟩) := by
    show (scalarOneOrNone (s.consentsFor userId purpose)).eval dialect (Tx.calmly draws)
      ⟨s, [], n + 2⟩ = _
    rw [ho]
    cases o <;> rfl
  have honce : ∃ change d, (grantOnce userId purpose policyVersion source).eval dialect
      (Tx.calmly draws) ⟨s, [], n⟩ = (.ok change, d) := by
    unfold grantOnce
    rw [Tx.eval_bind_ok hnow, Tx.eval_bind_ok hcurrent]
    split
    · exact ⟨_, _, rfl⟩
    · obtain ⟨s', hs'⟩ := h.flush ho (draws n).now
      rw [Tx.eval_commitAll hs']
      cases o with
      | none => exact ⟨_, _, rfl⟩
      | some c => exact ⟨_, _, rfl⟩
  obtain ⟨change, d, hd⟩ := honce
  exact ⟨change, d, Tx.eval_tryCatch_ok hd⟩

theorem eval_acceptOrGenerate (draws : Nat → Draw) (header : Option String) : ∃ id m,
    (acceptOrGenerate header).eval dialect (Tx.calmly draws) ⟨s, [], n⟩ = (.ok id, ⟨s, [], m⟩) := by
  unfold acceptOrGenerate
  cases header with
  | none => exact ⟨_, _, rfl⟩
  | some id =>
      simp only
      split
      · exact ⟨_, _, rfl⟩
      · exact ⟨_, _, rfl⟩

/-- A grant that passes the checks is answered when no step fails. -/
theorem GrantAdmitted.answer (draws : Nat → Draw)
    (h : GrantAdmitted s token userId purpose policyVersion source)
    (hone : s.OneEach) (header : Option String) : ∃ response, PrivacyAction.answer P s
      (⟨header, .grantConsent token userId purpose policyVersion source⟩, Tx.calmly draws) =
        .ok response := by
  obtain ⟨a, ha⟩ := h.access
  obtain ⟨id, m, hid⟩ := eval_acceptOrGenerate (s := s) (n := 0) draws header
  obtain ⟨b, m', hb, hsubject⟩ := eval_subjectAccess (n := m) draws "consent_grant" id ha
  obtain ⟨change, d, hd⟩ := h.eval_grant (n := m') draws hone
  refine ⟨.consent purpose change, ?_⟩
  unfold PrivacyAction.answer PrivacyCall.handler
  rw [Tx.eval_bind_ok hid]
  unfold PrivacyRequest.handler
  rw [Tx.eval_bind_ok hb]
  unfold validate
  rw [if_pos h.valid, Tx.pure_eq, Tx.ret_bind, hsubject, Tx.eval_bind_ok hd]
  rfl

end Calm

end Requests

/-! ## Whole histories -/

section Histories
variable {P : Platform} {userId : Int} {db : Database} {a : ProfileAction}

/-- The invariant: one row for each user and purpose, and a page that agrees with the gate. -/
def ProfileInv (userId : Int) (db : Database) : Prop := db.OneEach ∧ SwitchesAgree userId db

/-- One request of any kind, whichever of its steps fail. -/
theorem ProfileInv.servePrivacy (h : ProfileInv userId db) {a : PrivacyAction}
    (hok : GrantsCurrent userId db a.1.request) : ProfileInv userId (servePrivacy P db a) := by
  have hone : (FleetManagement.servePrivacy P db a).OneEach := fun user about =>
    (servePrivacy_consentEffect (P := P) (a := a) h.1).oneEach h.1
  have hagree := (switchesAgree_iff h.1).mp h.2
  refine ⟨hone, (switchesAgree_iff hone).mpr fun purpose c hc hgranted => ?_⟩
  have heffect : ConsentEffect userId purpose db (FleetManagement.servePrivacy P db a) a.1.request :=
    servePrivacy_consentEffect h.1
  generalize a.1.request = request at heffect hok
  cases heffect with
  | same hsame => exact hagree purpose c (hsame.symm.trans hc) hgranted
  | withdrawn hw hstatus =>
      rw [hc, List.cons.injEq] at hw
      obtain ⟨rfl, -⟩ := hw
      rw [hstatus] at hgranted
      cases hgranted
  | granted hadmitted hgrants =>
      obtain ⟨d, hd, -, rfl⟩ := hgrants
      rw [hc, List.cons.injEq] at hd
      obtain ⟨rfl, -⟩ := hd
      exact hok _ _ _ _ rfl hadmitted

/-- A grant of another version that passes the checks leaves a switch ON that the gate does not allow. -/
theorem ProfileInv.grantsCurrent (h : ProfileInv userId db)
    (hP : SwitchesAgree userId (serveProfile P userId db a)) :
    GrantsCurrent userId db (a.request.request userId) := by
  intro token purpose policyVersion source hr hadmitted
  have hone : (serveProfile P userId db a).OneEach := fun user about =>
    (servePrivacy_consentEffect (P := P) (a := a.action userId) h.1).oneEach h.1
  obtain ⟨response, hanswer⟩ :=
    hadmitted.answer (P := P) a.draws h.1 a.header
  rw [← hr] at hanswer
  obtain ⟨c, hc, hgranted, rfl⟩ := grants_of_answer (a := a.action userId) hr hanswer
  exact (switchesAgree_iff hone).mp hP purpose c hc hgranted

/-- Throughout a history the switches of a user agree with the gate exactly when every grant for the user
that passes its checks carries the version that the gate requires. -/
theorem switchesAgree_iff_grantsCurrent (hdb : ProfileInv userId db) (actions : List ProfileAction) :
    (∀ s, Runs.Visits (serveProfile P userId) db actions s → SwitchesAgree userId s) ↔
    ∀ s a, Runs.Takes (serveProfile P userId) db actions s a →
      GrantsCurrent userId s (a.request.request userId) :=
  Runs.invariant_iff_guarded (fun _ hs => hs.2) (fun _ _ hs hok => hs.servePrivacy hok)
    (fun _ _ hs hP => hs.grantsCurrent hP) hdb

end Histories

/-! ## Histories with and without a switch that is turned ON -/

theorem profileInv_of_no_consents {db : Database} (userId : Int) (h : db.userConsents.rows = []) :
    ProfileInv userId db := by
  have hnone : ∀ user about, db.consentsFor user about = [] := fun user about => by
    unfold Database.consentsFor; rw [h]; rfl
  have hone : db.OneEach := fun user about => ⟨none, hnone user about⟩
  refine ⟨hone, (switchesAgree_iff hone).mpr fun purpose c hc => ?_⟩
  rw [hnone] at hc
  cases hc

def clicks (request : ProfileRequest) : ProfileAction := ⟨some "c", request, fun n => ⟨n, zeroUuid, "", ""⟩⟩

/-- The user turns the switch for marketing letters ON. -/
theorem switch_turned_on_disagrees :
    ProfileInv 1 office ∧ ¬ ∀ s, Runs.Visits (serveProfile plainPlatform 1) office
      [clicks (.toggle .marketingEmail true)] s → SwitchesAgree 1 s := by
  refine ⟨profileInv_of_no_consents 1 rfl, fun h => ?_⟩
  obtain ⟨current, d, hlist, hcheck, hiff⟩ :=
    h _ (Runs.Visits.last _ _) .marketingEmail fun _ => ⟨0, zeroUuid, "", ""⟩
  obtain rfl := Except.ok.inj (congrArg Prod.fst hlist)
  obtain rfl : ⟨false, "policy_version_mismatch"⟩ = d := by
    refine Except.ok.inj ((Eq.symm ?_).trans (congrArg Prod.fst hcheck))
    decide
  exact absurd (hiff.mp (by decide)) Bool.false_ne_true

/-- Grants through the API with two versions, and a switch that is turned OFF. -/
def mixedConsents : List ProfileAction :=
  [clicks (.api (.grantConsent (some 1) 1 .marketingEmail "2026-01" "app")),
    clicks (.api (.grantConsent (some 1) 1 .personalization "2025-06" "app")),
    clicks (.toggle .marketingEmail false)]

theorem office_switchesAgree_iff :
    (∀ s, Runs.Visits (serveProfile plainPlatform 1) office mixedConsents s → SwitchesAgree 1 s) ↔
    ∀ s a, Runs.Takes (serveProfile plainPlatform 1) office mixedConsents s a →
      GrantsCurrent 1 s (a.request.request 1) :=
  switchesAgree_iff_grantsCurrent (profileInv_of_no_consents 1 rfl) mixedConsents

end FleetManagement
