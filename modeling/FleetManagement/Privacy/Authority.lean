import FleetManagement.Lemmas.Quiet
import FleetManagement.Lemmas.Sessions
import FleetManagement.Privacy.Lockout

/-!
# Who may write what

Every statement that a request commits is one that its sender may send: a user writes what belongs to that
user, an admin writes what belongs to anybody, and only an admin or the operator at the console makes an
admin. Requests decide on rows that they have read before, so the decision has to outlast what the others
commit meanwhile: roles and owners never change.
-/

namespace FleetManagement

variable {P : Platform} {db db' : Database}

/-! ## Roles and owners -/

def Database.HasAdmin (db : Database) (u : Int) : Prop :=
  ∃ row, db.users.find? u = some row ∧ row.role = .admin

/-- Accounts keep their role, and renters and consents their user. -/
structure Database.KeepsOwners (db db' : Database) : Prop where
  users : ∀ u row, db.users.find? u = some row →
    ∃ row', db'.users.find? u = some row' ∧ row'.role = row.role
  renters : ∀ i row, db.renters.find? i = some row →
    ∃ row', db'.renters.find? i = some row' ∧ row'.userId = row.userId
  consents : ∀ i row, db.userConsents.find? i = some row →
    ∃ row', db'.userConsents.find? i = some row' ∧ row'.userId = row.userId

theorem KeepsOwners.refl (s : Database) : s.KeepsOwners s where
  users _ row h := ⟨row, h, rfl⟩
  renters _ row h := ⟨row, h, rfl⟩
  consents _ row h := ⟨row, h, rfl⟩

theorem KeepsOwners.trans (s t u : Database) (h : s.KeepsOwners t) (h' : t.KeepsOwners u) :
    s.KeepsOwners u where
  users i row hrow := by
    obtain ⟨row', hrow', hrole⟩ := h.users i row hrow
    obtain ⟨row'', hrow'', hrole'⟩ := h'.users i row' hrow'
    exact ⟨row'', hrow'', hrole'.trans hrole⟩
  renters i row hrow := by
    obtain ⟨row', hrow', huser⟩ := h.renters i row hrow
    obtain ⟨row'', hrow'', huser'⟩ := h'.renters i row' hrow'
    exact ⟨row'', hrow'', huser'.trans huser⟩
  consents i row hrow := by
    obtain ⟨row', hrow', huser⟩ := h.consents i row hrow
    obtain ⟨row'', hrow'', huser'⟩ := h'.consents i row' hrow'
    exact ⟨row'', hrow'', huser'.trans huser⟩

theorem Database.KeepsOwners.hasAdmin (h : db.KeepsOwners db') {u : Int} (hu : db.HasAdmin u) :
    db'.HasAdmin u := by
  obtain ⟨row, hrow, hrole⟩ := hu
  obtain ⟨row', hrow', hrole'⟩ := h.users u row hrow
  exact ⟨row', hrow', hrole'.trans hrole⟩

/-- Rows of a table that keep `f`. -/
theorem kept_by_update {ρ β : Type} [Keyed ρ] {t : Table ρ} {i j : Int} {g : ρ → ρ}
    (hg : ∀ r, Keyed.key (g r) = Keyed.key r) {f : ρ → β} (hf : ∀ r, f (g r) = f r) {row : ρ}
    (h : t.find? j = some row) : ∃ row', (t.update i g hg).find? j = some row' ∧ f row' = f row := by
  by_cases hij : j = i
  · subst hij
    exact ⟨g row, Table.find?_update_self h, hf row⟩
  · exact ⟨row, (Table.find?_update_of_ne hij).trans h, rfl⟩

/-- No statement changes a role or an owner. -/
theorem keepsOwners_of_apply {w : Stmt} (h : dialect.apply w db = .ok db') : db.KeepsOwners db' := by
  have hrefl := KeepsOwners.refl db
  cases w with
  | insertStation => obtain ⟨-, -, rfl⟩ := insertStation_ok.mp h; exact ⟨hrefl.1, hrefl.2, hrefl.3⟩
  | insertVehicle => obtain ⟨-, -, rfl⟩ := insertVehicle_ok.mp h; exact ⟨hrefl.1, hrefl.2, hrefl.3⟩
  | insertRenter =>
      obtain ⟨-, -, rfl⟩ := insertRenter_ok.mp h
      exact ⟨hrefl.1, fun i row hrow => ⟨row, Table.find?_insert_of_some hrow, rfl⟩, hrefl.3⟩
  | insertRental => obtain ⟨-, -, rfl⟩ := insertRental_ok.mp h; exact ⟨hrefl.1, hrefl.2, hrefl.3⟩
  | insertUser =>
      obtain ⟨-, -, rfl⟩ := insertUser_ok.mp h
      exact ⟨fun i row hrow => ⟨row, Table.find?_insert_of_some hrow, rfl⟩, hrefl.2, hrefl.3⟩
  | insertUserConsent =>
      obtain ⟨-, -, rfl⟩ := insertUserConsent_ok.mp h
      exact ⟨hrefl.1, hrefl.2, fun i row hrow => ⟨row, Table.find?_insert_of_some hrow, rfl⟩⟩
  | insertConsentHistory =>
      obtain ⟨-, -, rfl⟩ := insertConsentHistory_ok.mp h; exact ⟨hrefl.1, hrefl.2, hrefl.3⟩
  | insertUserActivity =>
      obtain ⟨-, -, rfl⟩ := insertUserActivity_ok.mp h; exact ⟨hrefl.1, hrefl.2, hrefl.3⟩
  | insertAuditEvent => obtain ⟨-, -, rfl⟩ := insertAuditEvent_ok.mp h; exact ⟨hrefl.1, hrefl.2, hrefl.3⟩
  | insertMarketingMessage =>
      obtain ⟨-, -, rfl⟩ := insertMarketingMessage_ok.mp h; exact ⟨hrefl.1, hrefl.2, hrefl.3⟩
  | insertAnalyticsEvent =>
      obtain ⟨-, -, rfl⟩ := insertAnalyticsEvent_ok.mp h; exact ⟨hrefl.1, hrefl.2, hrefl.3⟩
  | updateVehicle => obtain ⟨-, -, rfl⟩ := updateVehicle_ok.mp h; exact ⟨hrefl.1, hrefl.2, hrefl.3⟩
  | updateRental => obtain ⟨-, -, rfl⟩ := updateRental_ok.mp h; exact ⟨hrefl.1, hrefl.2, hrefl.3⟩
  | updateUser id set =>
      obtain ⟨-, -, rfl⟩ := updateUser_ok.mp h
      exact ⟨fun i row hrow => kept_by_update set.key_on (fun _ => rfl) hrow, hrefl.2, hrefl.3⟩
  | updateRenter id set =>
      obtain ⟨-, -, rfl⟩ := updateRenter_ok.mp h
      exact ⟨hrefl.1, fun i row hrow => kept_by_update set.key_on (fun _ => rfl) hrow, hrefl.3⟩
  | updateUserConsent id set =>
      obtain ⟨-, -, rfl⟩ := updateUserConsent_ok.mp h
      exact ⟨hrefl.1, hrefl.2, fun i row hrow => kept_by_update set.key_on (fun _ => rfl) hrow⟩
  | updateMarketingMessage =>
      obtain ⟨-, rfl⟩ := updateMarketingMessage_ok.mp h; exact ⟨hrefl.1, hrefl.2, hrefl.3⟩
  | deleteUserActivity => cases h; exact ⟨hrefl.1, hrefl.2, hrefl.3⟩
  | deleteMarketingMessages => cases h; exact ⟨hrefl.1, hrefl.2, hrefl.3⟩
  | deleteAnalyticsEvents => cases h; exact ⟨hrefl.1, hrefl.2, hrefl.3⟩

theorem keepsOwners_of_applyAll {ws : List Stmt} (h : dialect.applyAll ws db = .ok db') :
    db.KeepsOwners db' := by
  induction ws generalizing db with
  | nil => cases h; exact KeepsOwners.refl _
  | cons w ws ih =>
      obtain ⟨db₁, h₁, h⟩ := dialect.applyAll_cons_ok.mp h
      exact KeepsOwners.trans _ _ _ (keepsOwners_of_apply h₁) (ih h)

/-! ## Permission -/

/-- The token is one of the account `u`, or of an admin. -/
def Database.MayActFor (db : Database) (token : Option Int) (u : Int) : Prop :=
  token = some u ∨ ∃ t, token = some t ∧ db.HasAdmin t

theorem Database.MayActFor.mono {token : Option Int} {u : Int} (h : db.MayActFor token u)
    (hR : db.KeepsOwners db') : db'.MayActFor token u := by
  rcases h with h | ⟨t, ht, hadmin⟩
  · exact Or.inl h
  · exact Or.inr ⟨t, ht, hR.hasAdmin hadmin⟩

def ApiRequest.isLogin : ApiRequest → Bool
  | .privacy ⟨_, .login ..⟩ => true
  | _ => false

def ApiRequest.isRegistration : ApiRequest → Bool
  | .privacy ⟨_, .register ..⟩ => true
  | _ => false

def ApiRequest.isConsoleCommand : ApiRequest → Bool
  | .createAdminCommand .. => true
  | _ => false

def ApiRequest.isCreateAdmin : ApiRequest → Bool
  | .createAdmin .. => true
  | _ => false

def ApiRequest.isFleet : ApiRequest → Bool
  | .fleet _ => true
  | _ => false

/-- The request may send the statement to the database `s`. -/
def Permits (r : ApiRequest) (s : Database) : Stmt → Prop
  | .insertStation _ | .insertVehicle _ | .insertRental _ | .updateVehicle .. | .updateRental .. =>
      r.isFleet = true
  | .insertRenter row => row.userId = none ∧ r.isFleet = true ∨
      ∃ u, row.userId = some u ∧ s.MayActFor r.token? u
  | .insertUser row => (row.isActive = true ∧ row.anonymizedAt = none) ∧
      (row.role = .user ∧ r.isRegistration = true ∨ r.isConsoleCommand = true ∨
        r.isCreateAdmin = true ∧ ∃ t, r.token? = some t ∧ s.HasAdmin t)
  | .insertUserConsent row => s.MayActFor r.token? row.userId
  | .insertConsentHistory row => s.MayActFor r.token? row.userId
  | .insertUserActivity _ => r.isLogin = true
  | .insertAuditEvent row => row.actorId = r.token?
  | .insertMarketingMessage row => s.MayActFor r.token? row.userId
  | .insertAnalyticsEvent row => s.MayActFor r.token? row.userId
  | .updateUser id _ => s.MayActFor r.token? id
  | .updateRenter id _ => ∃ row u, s.renters.find? id = some row ∧ row.userId = some u ∧
      s.MayActFor r.token? u
  | .updateUserConsent id _ => ∃ row, s.userConsents.find? id = some row ∧ s.MayActFor r.token? row.userId
  | .updateMarketingMessage .. => ∃ t, r.token? = some t ∧ s.HasAdmin t
  | .deleteUserActivity u => s.MayActFor r.token? u
  | .deleteMarketingMessages u => s.MayActFor r.token? u
  | .deleteAnalyticsEvents u => s.MayActFor r.token? u

/-! ## What each request sends -/

section Requests
variable {s : Database} {r : ApiRequest} {α : Type}

/-- Every statement that the handler commits is permitted to the request `r`. -/
abbrev Authorized (r : ApiRequest) (t : Db α) (s : Database) : Prop :=
  Tx.Meets dialect (fun _ => True) Database.KeepsOwners (fun s ws => ∀ w ∈ ws, Permits r s w) t s []

theorem authorized_of_emits {t : Db α} (h : Tx.Emits (fun w => ∀ s, Permits r s w) t) : Authorized r t s :=
  Tx.Emits.meets (p := fun w => ∀ s, Permits r s w) (fun s _ hws w hw => hws w hw s) h (by simp)

/-- A handler that only reads. -/
theorem authorized_of_reads {t : Db α} (h : Tx.Emits (fun _ => False) t) : Authorized r t s :=
  Tx.Emits.meets (p := fun _ => False) (fun _ _ hws w hw => (hws w hw).elim) h (by simp)

theorem authorized_requireAdmin {token : Option Int} {f : User → Db α}
    (h : ∀ t actor, s.KeepsOwners t → token = some actor.id → t.HasAdmin actor.id →
      Authorized r (f actor) t) : Authorized r (requireAdmin token >>= f) s := by
  unfold requireAdmin requireRole
  rw [Tx.bind_assoc]
  refine meets_getCurrentUser fun t actor _ hst hactor htoken => ?_
  by_cases hrole : actor.role = .admin
  · rw [if_pos hrole]
    exact h t actor hst htoken ⟨actor, hactor, hrole⟩
  · rw [if_neg hrole]
    exact Tx.meets_raise _

theorem authorized_createUser {email password fullName : String} {role : UserRole} {phone : Option String}
    (h : ∀ salt t u, s.KeepsOwners u →
      Permits r u (.insertUser (newUser P email password fullName role phone salt t))) :
    Authorized r (createUser P email password fullName role phone) s := by
  unfold createUser
  refine Tx.meets_sample fun d => meets_now fun t => ?_
  refine Tx.meets_tryCommit (fun u _ hu => by simpa using h d.salt t u hu) (fun u => meets_refresh)
    fun e u _ => ?_
  split
  · rw [Tx.bind_assoc]
    exact Tx.meets_rollbackAll (Tx.meets_raise _)
  · exact Tx.meets_raise _

theorem authorized_validate {ok : Bool} {f : Unit → Db α} (h : Authorized r (f ()) s) :
    Authorized r (validate ok >>= f) s := by
  unfold validate
  split
  · exact h
  · exact Tx.meets_raise _

theorem authorized_getCurrent {userId : Int} {purpose : ConsentPurpose} {lock : Bool}
    {f : Option UserConsent → Db α}
    (h : ∀ t o, s.KeepsOwners t → t.consentsFor userId purpose = Option.toList o → Authorized r (f o) t) :
    Authorized r (getCurrent userId purpose lock >>= f) s := by
  have hone : ∀ t, s.KeepsOwners t →
      Authorized r (scalarOneOrNone (t.consentsFor userId purpose) >>= f) t := by
    intro t hst
    match hrows : t.consentsFor userId purpose with
    | [] => exact h t none hst hrows
    | [c] => exact h t (some c) hst hrows
    | _ :: _ :: _ => exact Tx.meets_raise _
  unfold getCurrent
  cases lock with
  | true =>
      simp only [if_true, Tx.bind_assoc]
      exact Tx.meets_selectForUpdate fun t _ hst u hu => by cases hu; exact hone t hst
  | false =>
      simp only [Bool.false_eq_true, if_false, Tx.bind_assoc]
      exact Tx.meets_select fun t _ hst u hu => by cases hu; exact hone t hst

theorem authorized_grant {userId : Int} {purpose : ConsentPurpose} {policyVersion source : String}
    (h : s.MayActFor r.token? userId) : Authorized r (grant userId purpose policyVersion source) s := by
  have honce : ∀ {t}, s.KeepsOwners t → Authorized r (grantOnce userId purpose policyVersion source) t := by
    intro t hst
    unfold grantOnce
    refine meets_now fun d => authorized_getCurrent fun u o htu ho => ?_
    split
    · exact Tx.meets_ret _
    · refine Tx.meets_commitAll (fun v _ huv => ?_) fun v => ?_
      · have hmay : v.MayActFor r.token? userId :=
          h.mono (KeepsOwners.trans _ _ _ hst (KeepsOwners.trans _ _ _ htu huv))
        cases o with
        | none => simpa [grantFlush, Permits, newConsent, history] using hmay
        | some c =>
            obtain ⟨hrow, huser, -⟩ := mem_consentsFor ho
            obtain ⟨row, hfind, howner⟩ := huv.consents c.id c (Table.find?_key hrow)
            have hrow' : Permits r v (.updateUserConsent c.id
                (c.changes (c.granted policyVersion source d))) :=
              ⟨row, hfind, by rw [howner, huser]; exact hmay⟩
            simpa [grantFlush, history] using ⟨hrow', hmay⟩
      · cases o <;> exact Tx.meets_ret _
  refine Tx.meets_tryCatch_of_related KeepsOwners.refl KeepsOwners.trans
    (fun _ _ _ _ happ => keepsOwners_of_applyAll happ) (fun e t ws hst => ?_) (honce (KeepsOwners.refl s))
  split
  · exact Tx.meets_rollbackAll (honce hst)
  · exact Tx.meets_raise _

theorem authorized_revoke {userId : Int} {purpose : ConsentPurpose} {source : String}
    (h : s.MayActFor r.token? userId) : Authorized r (revoke userId purpose source) s := by
  unfold revoke
  refine authorized_getCurrent fun u o htu ho => ?_
  cases o with
  | none => exact Tx.meets_ret _
  | some c =>
      by_cases hw : c.status = .withdrawn
      · simp only [hw, if_true]
        exact Tx.meets_ret _
      · simp only [hw, if_false]
        refine meets_now fun d => Tx.meets_commitAll (fun v _ huv => ?_) fun v => Tx.meets_ret _
        have hmay : v.MayActFor r.token? userId := h.mono (KeepsOwners.trans _ _ _ htu huv)
        obtain ⟨hrow, huser, -⟩ := mem_consentsFor ho
        obtain ⟨row, hfind, howner⟩ := huv.consents c.id c (Table.find?_key hrow)
        have hrow' : Permits r v (.updateUserConsent c.id (c.changes (c.withdrawn source d))) :=
          ⟨row, hfind, by rw [howner, huser]; exact hmay⟩
        simpa [revokeFlush, history] using ⟨hrow', hmay⟩

theorem authorized_requireConsent {userId actorId : Int} {purpose : ConsentPurpose}
    {correlationId : String} {f : Unit → Db α} (hactor : r.token? = some actorId)
    (h : ∀ t, s.KeepsOwners t → Authorized r (f ()) t) :
    Authorized r (requireConsent userId purpose actorId correlationId >>= f) s := by
  unfold requireConsent checkConsent ConsentPolicyGate.check
  simp only [Tx.bind_assoc]
  refine authorized_getCurrent fun t o hst ho => ?_
  simp only [Tx.pure_eq, Tx.ret_bind]
  split
  · exact h t hst
  · rw [Tx.bind_assoc]
    refine meets_recordAuditEvent (fun d u _ _ => ?_) fun u => Tx.meets_raise _
    simpa [Permits, auditEvent] using hactor.symm

theorem authorized_enqueueMarketingEmail {userId actorId : Int} {campaign correlationId : String}
    (hactor : r.token? = some actorId) (h : s.MayActFor r.token? userId) :
    Authorized r (enqueueMarketingEmail userId campaign actorId correlationId) s := by
  unfold enqueueMarketingEmail
  refine authorized_requireConsent hactor fun t hst => meets_now fun d => ?_
  refine Tx.meets_commitAll (fun u _ htu => ?_) fun _ => meets_refresh
  simpa [Permits, newMessage] using h.mono (KeepsOwners.trans _ _ _ hst htu)

theorem authorized_recordAnalyticsEvent {userId actorId : Int} {eventName correlationId : String}
    (hactor : r.token? = some actorId) (h : s.MayActFor r.token? userId) :
    Authorized r (recordAnalyticsEvent userId eventName actorId correlationId) s := by
  unfold recordAnalyticsEvent
  refine authorized_requireConsent hactor fun t hst => meets_now fun d => ?_
  refine Tx.meets_commitAll (fun u _ htu => ?_) fun _ => meets_refresh
  simpa [Permits] using h.mono (KeepsOwners.trans _ _ _ hst htu)

theorem authorized_createRenterProfile {a : SubjectAccess} {fullName licenseNumber : String}
    (h : s.MayActFor r.token? a.subject.id) :
    Authorized r (createRenterProfile a fullName licenseNumber) s := by
  unfold createRenterProfile
  refine authorized_validate (Tx.meets_tryCommit (fun u _ hsu => ?_) (fun u => Tx.meets_ret _)
    fun e u _ => ?_)
  · simpa [Permits, newRenterProfile] using h.mono hsu
  · split
    · rw [Tx.bind_assoc]
      exact Tx.meets_rollbackAll (Tx.meets_raise _)
    · exact Tx.meets_raise _

/-- The statements of an erasure. -/
theorem permits_erasureFlush {entity : User} {d : ErasureDraws} {renters : List Renter}
    {consents : List UserConsent} {actorId : Int} {correlationId : String}
    (hactor : r.token? = some actorId) (h : s.MayActFor r.token? entity.id)
    (hrenters : ∀ q ∈ renters, ∃ v : Database, v.KeepsOwners s ∧ v.renters.find? q.id = some q ∧
      q.userId = some entity.id)
    (hconsents : ∀ c ∈ consents, ∃ v : Database, v.KeepsOwners s ∧ v.userConsents.find? c.id = some c ∧
      c.userId = entity.id) :
    ∀ w ∈ erasureFlush P entity d renters consents actorId correlationId, Permits r s w := by
  intro w hw
  simp only [erasureFlush, eraseStatements, renterUpdates, withdrawFlush, List.cons_append, List.mem_cons,
    List.mem_append, List.mem_map, List.not_mem_nil, or_false] at hw
  rcases hw with rfl | (⟨q, hq, rfl⟩ | rfl | rfl | rfl) | (⟨c, hc, rfl⟩ | ⟨c, hc, rfl⟩) | rfl
  · exact h
  · obtain ⟨v, hv, hrow, huser⟩ := hrenters q hq
    obtain ⟨row, hfind, howner⟩ := hv.renters q.id q hrow
    exact ⟨row, entity.id, hfind, howner.trans huser, h⟩
  · exact h
  · exact h
  · exact h
  · obtain ⟨v, hv, hrow, huser⟩ := hconsents c hc
    obtain ⟨row, hfind, howner⟩ := hv.consents c.id c hrow
    exact ⟨row, hfind, by rw [howner, huser]; exact h⟩
  · exact h
  · exact hactor.symm

theorem authorized_verdicts {d : DateTime} {messages : List MarketingMessage}
    {f : List DispatchOutcome → Db α} (h : ∀ t outcomes, s.KeepsOwners t → Authorized r (f outcomes) t) :
    Authorized r (verdicts d messages >>= f) s := by
  induction messages generalizing s f with
  | nil => exact h s [] (KeepsOwners.refl s)
  | cons m messages ih =>
      unfold verdicts checkConsent ConsentPolicyGate.check
      simp only [Tx.bind_assoc]
      refine authorized_getCurrent fun t o hst _ => ?_
      simp only [Tx.pure_eq, Tx.ret_bind]
      exact ih fun u outcomes htu => h u _ (KeepsOwners.trans _ _ _ hst htu)

theorem authorized_dispatchPendingMarketing (h : ∃ t, r.token? = some t ∧ s.HasAdmin t) :
    Authorized r dispatchPendingMarketing s := by
  unfold dispatchPendingMarketing decideQueue
  simp only [Tx.bind_assoc]
  refine meets_now fun d => Tx.meets_select fun u _ hsu v hv => ?_
  refine authorized_verdicts fun t outcomes hut => ?_
  refine Tx.meets_commitAll (fun w _ htw => ?_) fun _ => Tx.meets_ret _
  obtain ⟨i, htoken, hadmin⟩ := h
  have hadmin' := (KeepsOwners.trans _ _ _ hsu (KeepsOwners.trans _ _ _ hut htw)).hasAdmin hadmin
  intro stmt hstmt
  obtain ⟨o, -, rfl⟩ := List.mem_map.mp hstmt
  exact ⟨i, htoken, hadmin'⟩

theorem authorized_login {username password : String} {ipAddress userAgent : Option String}
    (h : r.isLogin = true) : Authorized r (login P username password ipAddress userAgent) s := by
  refine authorized_of_emits (Tx.emits_bind (quiet_authenticate P username password) fun o => ?_)
  cases o with
  | none => exact trivial
  | some user =>
      refine Tx.emits_bind (Tx.emits_bind quiet_now fun t => ?_) fun _ => trivial
      refine Tx.emits_bind (Tx.emits_commitAll ?_) fun _ => trivial
      simp [Permits, h]

/-! ### The routes -/

theorem authorized_acceptOrGenerate {header : Option String} {f : String → Db α}
    (h : ∀ id, Authorized r (f id) s) : Authorized r (acceptOrGenerate header >>= f) s := by
  have hdraw : Authorized r (uuid4 >>= fun x => f x.val) s := by
    unfold uuid4
    simp only [Tx.bind_assoc]
    exact Tx.meets_sample fun d => h _
  unfold acceptOrGenerate
  cases header with
  | none => exact hdraw
  | some id =>
      by_cases hid : isCorrelationId id = true
      · simp only [hid, if_true]
        exact h id
      · simp only [hid]
        exact hdraw

/-- A guarded route: the sender is the subject or an admin. -/
theorem authorized_subjectAccess {eventType correlationId : String} {token : Option Int} {userId : Int}
    {f : SubjectAccess → Db α} (htoken : r.token? = token)
    (h : ∀ t a, r.token? = some a.actor.id → t.MayActFor r.token? a.subject.id →
      IdentityMap.LoadedBefore Database.KeepsOwners a.loaded t → Authorized r (f a) t) :
    Authorized r (subjectAccess eventType token userId correlationId >>= f) s := by
  refine meets_subjectAccess_of KeepsOwners.refl KeepsOwners.trans ?_ ?_
  · intro actorId result t u hactor _ _
    simp [Permits, auditEvent, htoken, hactor]
  · intro t a _ hactor hallowed hid hm
    refine h t a (htoken.trans hactor) ?_ hm
    rcases hallowed with hself | hrole
    · exact Or.inl (by rw [htoken, hactor, hself, hid])
    · obtain ⟨t₀, ht₀, hrow⟩ := hm a.actor (by simp [SubjectAccess.loaded])
      exact Or.inr ⟨a.actor.id, htoken.trans hactor, ht₀.hasAdmin ⟨a.actor, hrow, hrole⟩⟩

theorem authorized_anonymize {correlationId : String} {token : Option Int} {userId : Int}
    (htoken : r.token? = token) :
    Authorized r ((PrivacyRequest.anonymize token userId).handler P correlationId) s := by
  unfold PrivacyRequest.handler
  refine authorized_subjectAccess htoken fun t a hactor hmay hm => ?_
  refine (anonymizeUser_meets_of KeepsOwners.refl KeepsOwners.trans hm (fun d u _ _ => ?_) ?_).map _
  · simpa [Permits, auditEvent] using hactor.symm
  · intro v u entity d renters consents htu _ hrow _ hrenters hconsents
    have hid : entity.id = a.subject.id := Table.key_of_find? hrow
    rw [← hid] at hmay hrenters hconsents
    exact permits_erasureFlush hactor (hmay.mono htu) hrenters hconsents

theorem authorized_privacyHandler {request : PrivacyRequest} {correlationId : String}
    (htoken : r.token? = request.token?)
    (hregister : ∀ email password fullName phone, request = .register email password fullName phone →
      r.isRegistration = true)
    (hlogin : ∀ username password ipAddress userAgent,
      request = .login username password ipAddress userAgent → r.isLogin = true) :
    Authorized r (request.handler P correlationId) s := by
  cases request with
  | register email password fullName phone =>
      refine Tx.Meets.map _ ?_
      unfold register
      cases P.validateEmail email with
      | none => exact Tx.meets_raise _
      | some email =>
          exact authorized_validate (authorized_createUser fun _ _ _ _ =>
            ⟨⟨rfl, rfl⟩, Or.inl ⟨rfl, hregister _ _ _ _ rfl⟩⟩)
  | login username password ipAddress userAgent =>
      exact (authorized_login (hlogin _ _ _ _ rfl)).map _
  | createRenterProfile token userId fullName licenseNumber =>
      refine authorized_subjectAccess htoken fun t a _ hmay _ => ?_
      exact (authorized_createRenterProfile hmay).map _
  | grantConsent token userId purpose policyVersion source =>
      refine authorized_subjectAccess htoken fun t a _ hmay _ => authorized_validate ?_
      exact (authorized_grant hmay).map _
  | revokeConsent token userId purpose source =>
      refine authorized_subjectAccess htoken fun t a _ hmay _ => authorized_validate ?_
      exact (authorized_revoke hmay).map _
  | queueMarketingEmail token userId campaign =>
      refine authorized_subjectAccess htoken fun t a hactor hmay _ => authorized_validate ?_
      exact (authorized_enqueueMarketingEmail hactor hmay).map _
  | trackAnalyticsEvent token userId eventName =>
      refine authorized_subjectAccess htoken fun t a hactor hmay _ => authorized_validate ?_
      exact (authorized_recordAnalyticsEvent hactor hmay).map _
  | dispatchMarketing token =>
      refine authorized_requireAdmin fun t actor _ hactor hadmin => ?_
      exact (authorized_dispatchPendingMarketing ⟨actor.id, htoken.trans hactor, hadmin⟩).map _
  | anonymize token userId => exact authorized_anonymize htoken

theorem authorized_subjectRequest {request : SubjectRequest} {token : Option Int} {userId : Int}
    {correlationId : String} (htoken : r.token? = token) :
    Authorized r (request.handler P token userId correlationId) s := by
  unfold SubjectRequest.handler
  cases request with
  | exportPersonalData =>
      refine Tx.Meets.map _ (authorized_subjectAccess htoken fun t a hactor _ _ => ?_)
      refine authorized_of_emits (Tx.emits_bind (quiet_buildExport _) fun _ => Tx.emits_bind ?_ fun _ => trivial)
      refine Tx.emits_bind quiet_now fun _ => Tx.emits_bind (Tx.emits_commitAll ?_) fun _ => trivial
      simp [Permits, auditEvent, hactor]
  | listConsents =>
      refine Tx.Meets.map _ (authorized_subjectAccess htoken fun t a _ _ _ => authorized_of_reads ?_)
      refine Tx.emits_bind (Tx.emits_bind Tx.emits_select fun _ => trivial) fun _ => ?_
      exact Tx.emits_bind (Tx.emits_bind Tx.emits_select fun _ => trivial) fun _ => trivial
  | _ =>
      exact (authorized_privacyHandler htoken (fun _ _ _ _ h => by cases h) fun _ _ _ _ h => by
        cases h).map _

/-- Whatever a request of the API commits, it may. -/
theorem handler_authorized (r : ApiRequest) : Authorized r (r.handler P) s := by
  unfold ApiRequest.handler
  cases r with
  | privacy call =>
      obtain ⟨header, request⟩ := call
      exact (authorized_acceptOrGenerate fun id => authorized_privacyHandler rfl
        (fun _ _ _ _ h => by cases h; rfl) fun _ _ _ _ h => by cases h; rfl).map ApiResponse.privacy
  | subject call =>
      exact (authorized_acceptOrGenerate fun id => authorized_subjectRequest rfl).map ApiResponse.subject
  | readMe token => exact authorized_of_reads (Tx.emits_bind (quiet_getCurrentUser _) fun _ => trivial)
  | home role token =>
      refine authorized_of_reads (Tx.emits_bind ?_ fun _ => trivial)
      exact Tx.emits_bind (quiet_getCurrentUser _) fun _ => quiet_ite trivial trivial
  | listUsers token =>
      refine authorized_of_reads (Tx.emits_bind ?_ fun _ => trivial)
      exact Tx.emits_bind (quiet_requireAdmin _) fun _ => Tx.emits_bind Tx.emits_select fun _ => trivial
  | createAdmin token email password fullName phone =>
      refine Tx.Meets.map _ (authorized_requireAdmin fun t actor hst hactor hadmin => ?_)
      cases P.validateEmail email with
      | none => exact Tx.meets_raise _
      | some email =>
          refine authorized_validate (authorized_createUser fun _ _ u htu =>
            ⟨⟨rfl, rfl⟩, Or.inr (Or.inr ?_)⟩)
          exact ⟨rfl, actor.id, hactor, htu.hasAdmin hadmin⟩
  | createAdminCommand email password fullName =>
      refine Tx.Meets.map _ ?_
      unfold createAdminCommand
      cases P.validateEmail email with
      | none => exact Tx.meets_raise _
      | some email =>
          exact authorized_validate (authorized_createUser fun _ _ _ _ =>
            ⟨⟨rfl, rfl⟩, Or.inr (Or.inl rfl)⟩)
  | myRenterProfile token =>
      refine authorized_of_reads (Tx.emits_bind (Tx.emits_bind (quiet_getCurrentUser _) fun _ =>
        Tx.emits_bind (quiet_renterOf _) fun o => ?_) fun _ => trivial)
      cases o <;> exact trivial
  | myRentals token =>
      refine authorized_of_reads (Tx.emits_bind (Tx.emits_bind (quiet_getCurrentUser _) fun _ =>
        Tx.emits_bind (quiet_renterOf _) fun o => ?_) fun _ => trivial)
      cases o with
      | none => exact trivial
      | some renter => exact Tx.emits_bind Tx.emits_select fun _ => quiet_rentalsWithCost _
  | fleet request =>
      refine authorized_of_emits (Tx.emits_bind ((emits_route request).mono fun w hw s => ?_) fun _ => trivial)
      cases w with
      | insertRenter row => exact Or.inl ⟨by simpa [Stmt.ofFleet] using hw, rfl⟩
      | _ => first | rfl | cases hw

end Requests

end FleetManagement
