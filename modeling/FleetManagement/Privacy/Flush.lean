import FleetManagement.Lemmas.Statements
import FleetManagement.Services.Erasure

/-!
# What consent changes and erasures commit

The statements of one transaction and the database that they leave behind, table by table.
-/

namespace FleetManagement

open Keyed (key maxKey)

/-! ## Statements for many rows -/

structure TableOf (ρ : Type) [Keyed ρ] where
  table : Database → Table ρ
  put : Database → Table ρ → Database
  table_put : ∀ db t, table (put db t) = t
  put_put : ∀ db t t', put (put db t) t' = put db t'
  put_table : ∀ db, put db (table db) = db

namespace TableOf

def renters : TableOf Renter :=
  ⟨Database.renters, Database.withRenters, fun _ _ => rfl, fun _ _ _ => rfl, fun _ => rfl⟩

def userConsents : TableOf UserConsent :=
  ⟨Database.userConsents, Database.withUserConsents, fun _ _ => rfl, fun _ _ _ => rfl, fun _ => rfl⟩

def consentHistory : TableOf ConsentHistory :=
  ⟨Database.consentHistory, Database.withConsentHistory, fun _ _ => rfl, fun _ _ _ => rfl, fun _ => rfl⟩

variable {ρ : Type} [Keyed ρ] (T : TableOf ρ) {db db' : Database}

/-- One `UPDATE` for each row of `l`. -/
theorem applyAll_updates {stmt : ρ → Stmt} {f : ρ → ρ → ρ} (hf : ∀ q r, key (f q r) = key r)
    (hstmt : ∀ q db db', dialect.apply (stmt q) db = .ok db' →
      db' = T.put db ((T.table db).update (key q) (f q) (hf q)))
    {l : List ρ} (h : dialect.applyAll (l.map stmt) db = .ok db') :
    db' = T.put db ((T.table db).updateAll f hf l) := by
  induction l generalizing db with
  | nil => cases h; exact (T.put_table _).symm
  | cons q l ih =>
      obtain ⟨u, hu, hrest⟩ := dialect.applyAll_cons_ok.mp h
      rw [ih hrest, hstmt q db u hu, T.table_put, T.put_put]
      rfl

theorem applyAll_inserts {α : Type} {stmt : α → Stmt} {mk : α → Int → ρ} (hk : ∀ a i, key (mk a i) = i)
    (hstmt : ∀ a db db', dialect.apply (stmt a) db = .ok db' →
      ∃ h, db' = T.put db ((T.table db).insert h (mk a) (hk a)))
    {l : List α} (h : dialect.applyAll (l.map stmt) db = .ok db') :
    ∃ t, (T.table db).Extends (l.map mk) t ∧ db' = T.put db t := by
  induction l generalizing db with
  | nil => cases h; exact ⟨_, Table.Extends.nil _, (T.put_table _).symm⟩
  | cons a l ih =>
      obtain ⟨u, hu, hrest⟩ := dialect.applyAll_cons_ok.mp h
      obtain ⟨hseq, rfl⟩ := hstmt a db u hu
      obtain ⟨t, ht, rfl⟩ := ih hrest
      rw [T.table_put] at ht
      exact ⟨t, ht.insert, T.put_put _ _ _⟩

end TableOf

/-! ## Columns written back -/

theorem User.key_anonymize (email hashedPassword : String) (t : DateTime) (u : User) :
    key (u.anonymize email hashedPassword t) = key u := rfl

theorem User.on_changes_anonymize (u : User) (email hashedPassword : String) (t : DateTime) :
    (u.changes (u.anonymize email hashedPassword t)).on u = u.anonymize email hashedPassword t := by
  simp [User.changes, UserSet.on, User.anonymize]

theorem Renter.on_changes_anonymize (r : Renter) (licenseNumber : String) :
    (r.changes (r.anonymize licenseNumber)).on r = r.anonymize licenseNumber := by
  simp [Renter.changes, RenterSet.on, Renter.anonymize]

theorem UserConsent.on_changes_granted (c : UserConsent) (policyVersion source : String) (t : DateTime) :
    (c.changes (c.granted policyVersion source t)).on c = c.granted policyVersion source t := by
  simp [UserConsent.changes, UserConsentSet.on, UserConsent.granted]

theorem UserConsent.on_changes_withdrawn (c : UserConsent) (source : String) (t : DateTime) :
    (c.changes (c.withdrawn source t)).on c = c.withdrawn source t := by
  simp [UserConsent.changes, UserConsentSet.on, UserConsent.withdrawn]

/-! ## Consent changes -/

theorem UserConsent.key_granted (policyVersion source : String) (t : DateTime) (c : UserConsent) :
    key (c.granted policyVersion source t) = key c := rfl

theorem UserConsent.key_withdrawn (source : String) (t : DateTime) (c : UserConsent) :
    key (c.withdrawn source t) = key c := rfl

theorem ConsentHistory.key_numbered (row : ConsentHistory) (id : Int) :
    key ({ row with id } : ConsentHistory) = id := rfl

def Database.logged (db : Database) (row : ConsentHistory)
    (h : db.consentHistory.seq < maxKey ConsentHistory) : Database :=
  db.withConsentHistory (db.consentHistory.insert h (fun id => { row with id }) row.key_numbered)

section Consents
variable {db db' : Database} {userId : Int} {purpose : ConsentPurpose} {policyVersion source : String}
  {t : DateTime} {c : UserConsent}

theorem grantFlush_none
    (h : dialect.applyAll (grantFlush userId purpose none policyVersion source t) db = .ok db') :
    db.consentsFor userId purpose = [] ∧ (history userId purpose .grant policyVersion source t).check db = .ok () ∧ ∃ hc hh,
      db' = (db.withUserConsents (db.userConsents.insert hc
        (fun id => { newConsent userId purpose policyVersion source t with id }) fun _ => rfl)).logged
        (history userId purpose .grant policyVersion source t) hh := by
  obtain ⟨db₁, h₁, h₂⟩ := dialect.applyAll_pair_ok.mp h
  obtain ⟨hrow, hc, rfl⟩ := insertUserConsent_ok.mp h₁
  obtain ⟨hcheck, hh, rfl⟩ := insertConsentHistory_ok.mp h₂
  obtain ⟨_, -, hrow⟩ := bind_eq_ok.mp hrow
  obtain ⟨_, -, hrow⟩ := bind_eq_ok.mp hrow
  obtain ⟨_, hfree, -⟩ := bind_eq_ok.mp hrow
  exact ⟨unique_ok.mp hfree, hcheck, hc, hh, rfl⟩

theorem grantFlush_some (hrow : db.userConsents.find? c.id = some c)
    (h : dialect.applyAll (grantFlush userId purpose (some c) policyVersion source t) db = .ok db') :
    (history userId purpose .grant policyVersion source t).check db = .ok () ∧ ∃ hh,
      db' = (db.withUserConsents (db.userConsents.update c.id (UserConsent.granted · policyVersion source t)
        (UserConsent.key_granted policyVersion source t))).logged
        (history userId purpose .grant policyVersion source t) hh := by
  obtain ⟨db₁, h₁, h₂⟩ := dialect.applyAll_pair_ok.mp h
  obtain ⟨-, -, rfl⟩ := updateUserConsent_ok.mp h₁
  obtain ⟨hcheck, hh, rfl⟩ := insertConsentHistory_ok.mp h₂
  rw [Table.update_congr _ (UserConsent.key_granted policyVersion source t) hrow
    (UserConsent.on_changes_granted c policyVersion source t)] at hh ⊢
  exact ⟨hcheck, hh, rfl⟩

theorem revokeFlush_ok (hrow : db.userConsents.find? c.id = some c)
    (h : dialect.applyAll (revokeFlush c userId purpose source t) db = .ok db') : ∃ hh,
      db' = (db.withUserConsents (db.userConsents.update c.id (UserConsent.withdrawn · source t)
        (UserConsent.key_withdrawn source t))).logged
        (history userId purpose .revoke c.policyVersion source t) hh := by
  obtain ⟨db₁, h₁, h₂⟩ := dialect.applyAll_pair_ok.mp h
  obtain ⟨-, -, rfl⟩ := updateUserConsent_ok.mp h₁
  obtain ⟨-, hh, rfl⟩ := insertConsentHistory_ok.mp h₂
  rw [Table.update_congr _ (UserConsent.key_withdrawn source t) hrow
    (UserConsent.on_changes_withdrawn c source t)] at hh ⊢
  exact ⟨hh, rfl⟩

end Consents

/-! ## The statements -/

/-- What one erasure draws: the random values that replace identifiers, and the times it reads. -/
structure ErasureDraws where
  uuid : UuidHex
  token : String
  salt : String
  /-- The UUID drawn for the renter with a given id. -/
  license : Int → UuidHex
  erasedAt : DateTime
  withdrawnAt : DateTime
  auditedAt : DateTime

def ErasureDraws.user (P : Platform) (d : ErasureDraws) (u : User) : User :=
  u.anonymize (anonymousEmail d.uuid) (P.hash d.token d.salt) d.erasedAt

def ErasureDraws.renter (d : ErasureDraws) (userId : Int) (r : Renter) : Renter :=
  if r.userId = some userId then r.anonymize (anonymousLicense (d.license r.id)) else r

def ErasureDraws.consent (d : ErasureDraws) (userId : Int) (c : UserConsent) : UserConsent :=
  if c.userId = userId ∧ c.status = .granted then c.withdrawn "erasure" d.withdrawnAt else c

def ErasureDraws.history (d : ErasureDraws) (userId : Int) (c : UserConsent) (id : Int) :
    ConsentHistory :=
  { FleetManagement.history userId c.purpose .revoke c.policyVersion "erasure" d.withdrawnAt with id }

theorem ErasureDraws.key_renter (d : ErasureDraws) (userId : Int) (r : Renter) :
    key (d.renter userId r) = key r := by
  unfold ErasureDraws.renter; split <;> rfl

theorem ErasureDraws.key_consent (d : ErasureDraws) (userId : Int) (c : UserConsent) :
    key (d.consent userId c) = key c := by
  unfold ErasureDraws.consent; split <;> rfl

def renterUpdates (license : Int → UuidHex) (renters : List Renter) : List Stmt :=
  renters.map fun r => .updateRenter r.id (r.changes (r.anonymize (anonymousLicense (license r.id))))

def eraseStatements (P : Platform) (u : User) (d : ErasureDraws) (renters : List Renter) : List Stmt :=
  .updateUser u.id (u.changes (d.user P u)) :: (renterUpdates d.license renters ++
    [.deleteUserActivity u.id, .deleteMarketingMessages u.id, .deleteAnalyticsEvents u.id])

def erasureEvent (u : User) (actorId : Int) (correlationId : String) (t : DateTime) : AuditEvent :=
  auditEvent "user_anonymize" (some actorId) (some u.id) "anonymized" correlationId t

/-- The transaction of one erasure. -/
def erasureFlush (P : Platform) (u : User) (d : ErasureDraws) (renters : List Renter)
    (consents : List UserConsent) (actorId : Int) (correlationId : String) : List Stmt :=
  eraseStatements P u d renters ++ (withdrawFlush consents u.id "erasure" d.withdrawnAt ++
    [.insertAuditEvent (erasureEvent u actorId correlationId d.auditedAt)])

/-! ## The database afterwards -/

def renterWrites (license : Int → UuidHex) (q : Renter) : Renter → Renter :=
  (q.changes (q.anonymize (anonymousLicense (license q.id)))).on

theorem key_renterWrites (license : Int → UuidHex) (q r : Renter) :
    key (renterWrites license q r) = key r := rfl

def consentWrites (source : String) (t : DateTime) (q : UserConsent) : UserConsent → UserConsent :=
  (q.changes (q.withdrawn source t)).on

theorem key_consentWrites (source : String) (t : DateTime) (q c : UserConsent) :
    key (consentWrites source t q c) = key c := rfl

/-- The history row that `withdraw_all` writes for a consent. -/
def withdrawnHistory (userId : Int) (source : String) (t : DateTime) (c : UserConsent) (id : Int) :
    ConsentHistory :=
  { history userId c.purpose .revoke c.policyVersion source t with id }

/-- A consent after `withdraw_all` for a user. -/
def UserConsent.withdrawnFor (userId : Int) (source : String) (t : DateTime) (c : UserConsent) :
    UserConsent :=
  if c.userId = userId ∧ c.status = .granted then c.withdrawn source t else c

theorem UserConsent.key_withdrawnFor (userId : Int) (source : String) (t : DateTime) (c : UserConsent) :
    key (c.withdrawnFor userId source t) = key c := by
  unfold UserConsent.withdrawnFor; split <;> rfl

/-- The database after the statements that precede the consents. -/
def Database.stripped (db : Database) (P : Platform) (u : User) (d : ErasureDraws)
    (renters : List Renter) : Database :=
  ((((db.withUsers (db.users.update u.id (u.changes (d.user P u)).on (UserSet.key_on _))).withRenters
    (db.renters.updateAll (renterWrites d.license) (key_renterWrites d.license) renters)).withUserActivity
    (db.userActivity.deleteWhere (·.userId = u.id))).withMarketingMessages
    (db.marketingMessages.deleteWhere (·.userId = u.id))).withAnalyticsEvents
    (db.analyticsEvents.deleteWhere (·.userId = u.id))

section Effect
variable {P : Platform} {db db' : Database} {u : User} {d : ErasureDraws}

theorem renterUpdates_ok {license : Int → UuidHex} {renters : List Renter}
    (h : dialect.applyAll (renterUpdates license renters) db = .ok db') :
    db' = db.withRenters
      (db.renters.updateAll (renterWrites license) (key_renterWrites license) renters) :=
  TableOf.renters.applyAll_updates (key_renterWrites license)
    (fun _ _ _ hq => (updateRenter_ok.mp hq).2.2) h

theorem consentUpdates_ok {source : String} {t : DateTime} {consents : List UserConsent}
    (h : dialect.applyAll (consents.map fun c =>
      Stmt.updateUserConsent c.id (c.changes (c.withdrawn source t))) db = .ok db') :
    db' = db.withUserConsents
      (db.userConsents.updateAll (consentWrites source t) (key_consentWrites source t) consents) :=
  TableOf.userConsents.applyAll_updates (key_consentWrites source t)
    (fun _ _ _ hq => (updateUserConsent_ok.mp hq).2.2) h

theorem historyInserts_ok {userId : Int} {source : String} {t : DateTime} {consents : List UserConsent}
    (h : dialect.applyAll (consents.map fun c => Stmt.insertConsentHistory
      (history userId c.purpose .revoke c.policyVersion source t)) db = .ok db') :
    ∃ u, db.consentHistory.Extends (consents.map (withdrawnHistory userId source t)) u ∧
      db' = db.withConsentHistory u :=
  TableOf.consentHistory.applyAll_inserts (fun _ _ => rfl)
    (fun _ _ _ hq => (insertConsentHistory_ok.mp hq).2) h

theorem eraseStatements_ok {renters : List Renter}
    (h : dialect.applyAll (eraseStatements P u d renters) db = .ok db') :
    (∃ r, db.users.find? u.id = some r) ∧ db' = db.stripped P u d renters := by
  obtain ⟨db₁, h₁, h⟩ := dialect.applyAll_cons_ok.mp h
  obtain ⟨-, hrow, rfl⟩ := updateUser_ok.mp h₁
  obtain ⟨db₂, h₂, h⟩ := dialect.applyAll_append_ok.mp h
  rw [renterUpdates_ok h₂] at h
  cases h
  exact ⟨hrow, rfl⟩

theorem updateAll_rentersOf (userId : Int) :
    db.renters.updateAll (renterWrites d.license) (key_renterWrites d.license) (db.rentersOf userId) =
      db.renters.mapRows (d.renter userId) (d.key_renter userId) := by
  refine Table.updateAll_filter _ _ _ (fun q hq => ?_) fun q hq => ?_
  · rw [renterWrites, Renter.on_changes_anonymize, ErasureDraws.renter, if_pos (of_decide_eq_true hq)]
  · rw [ErasureDraws.renter, if_neg (of_decide_eq_false hq)]

theorem updateAll_grantedConsents {source : String} {t : DateTime} (userId : Int) :
    db.userConsents.updateAll (consentWrites source t) (key_consentWrites _ _)
        (db.grantedConsents userId) =
      db.userConsents.mapRows (UserConsent.withdrawnFor userId source t)
        (UserConsent.key_withdrawnFor userId source t) := by
  refine Table.updateAll_filter _ _ _ (fun q hq => ?_) fun q hq => ?_
  · rw [consentWrites, UserConsent.on_changes_withdrawn, UserConsent.withdrawnFor,
      if_pos (of_decide_eq_true hq)]
  · rw [UserConsent.withdrawnFor, if_neg (of_decide_eq_false hq)]

/-- The flush of `withdraw_all`, based on the rows as they are. -/
theorem withdrawFlush_ok {userId : Int} {source : String} {t : DateTime}
    (h : dialect.applyAll (withdrawFlush (db.grantedConsents userId) userId source t) db = .ok db') :
    ∃ u, db.consentHistory.Extends ((db.grantedConsents userId).map (withdrawnHistory userId source t)) u ∧
      db' = (db.withUserConsents (db.userConsents.mapRows (UserConsent.withdrawnFor userId source t)
        (UserConsent.key_withdrawnFor userId source t))).withConsentHistory u := by
  obtain ⟨db₁, h₁, h₂⟩ := dialect.applyAll_append_ok.mp h
  rw [consentUpdates_ok h₁, updateAll_grantedConsents] at h₂
  exact historyInserts_ok h₂

/-- Every table after the erasure of `u`. -/
structure Erased (P : Platform) (db : Database) (u : User) (d : ErasureDraws) (event : AuditEvent)
    (db' : Database) : Prop where
  users : db'.users = db.users.update u.id
    (User.anonymize · (anonymousEmail d.uuid) (P.hash d.token d.salt) d.erasedAt)
    (User.key_anonymize _ _ _)
  renters : db'.renters = db.renters.mapRows (d.renter u.id) (d.key_renter u.id)
  userConsents : db'.userConsents = db.userConsents.mapRows (d.consent u.id) (d.key_consent u.id)
  consentHistory :
    db.consentHistory.Extends ((db.grantedConsents u.id).map (d.history u.id)) db'.consentHistory
  userActivity : db'.userActivity = db.userActivity.deleteWhere (·.userId = u.id)
  marketingMessages : db'.marketingMessages = db.marketingMessages.deleteWhere (·.userId = u.id)
  analyticsEvents : db'.analyticsEvents = db.analyticsEvents.deleteWhere (·.userId = u.id)
  auditEvents : ∃ h, db'.auditEvents =
    db.auditEvents.insert h (fun id => { event with id }) fun _ => rfl
  stations : db'.stations = db.stations
  vehicles : db'.vehicles = db.vehicles
  rentals : db'.rentals = db.rentals
  telemetryReadings : db'.telemetryReadings = db.telemetryReadings

/-- The transaction of an erasure, whatever rows it is based on. -/
theorem erasureFlush_ok {renters : List Renter} {consents : List UserConsent} {actorId : Int}
    {correlationId : String}
    (h : dialect.applyAll (erasureFlush P u d renters consents actorId correlationId) db = .ok db') :
    (∃ r, db.users.find? u.id = some r) ∧ ∃ t hseq,
      db.consentHistory.Extends (consents.map (d.history u.id)) t ∧
      db' = (((db.stripped P u d renters).withUserConsents (db.userConsents.updateAll
        (consentWrites "erasure" d.withdrawnAt) (key_consentWrites _ _) consents)).withConsentHistory
        t).withAuditEvents (db.auditEvents.insert hseq
          (fun id => { erasureEvent u actorId correlationId d.auditedAt with id }) fun _ => rfl) := by
  obtain ⟨db₁, h₁, h⟩ := dialect.applyAll_append_ok.mp h
  obtain ⟨hrow, rfl⟩ := eraseStatements_ok h₁
  obtain ⟨db₂, h₂, h⟩ := dialect.applyAll_append_ok.mp h
  obtain ⟨db₃, h₃, h₂⟩ := dialect.applyAll_append_ok.mp h₂
  rw [consentUpdates_ok h₃] at h₂
  obtain ⟨t, ht, rfl⟩ := historyInserts_ok h₂
  obtain ⟨-, hseq, rfl⟩ := insertAuditEvent_ok.mp (dialect.applyAll_singleton_ok.mp h)
  exact ⟨hrow, t, hseq, ht, rfl⟩

/-- An erasure that is based on the rows as they are. -/
theorem erased_of_flush {actorId : Int} {correlationId : String} (hu : db.users.find? u.id = some u)
    (h : dialect.applyAll (erasureFlush P u d (db.rentersOf u.id) (db.grantedConsents u.id) actorId
      correlationId) db = .ok db') :
    Erased P db u d (erasureEvent u actorId correlationId d.auditedAt) db' := by
  obtain ⟨-, t, hseq, ht, rfl⟩ := erasureFlush_ok h
  have husers := Table.update_congr (UserSet.key_on _) (User.key_anonymize _ _ _) hu
    (User.on_changes_anonymize u (anonymousEmail d.uuid) (P.hash d.token d.salt) d.erasedAt)
  exact
    { users := husers
      renters := updateAll_rentersOf u.id
      userConsents := updateAll_grantedConsents u.id
      consentHistory := ht
      userActivity := by simp [Database.stripped]
      marketingMessages := by simp [Database.stripped]
      analyticsEvents := by simp [Database.stripped]
      auditEvents := ⟨hseq, rfl⟩
      stations := by simp [Database.stripped]
      vehicles := by simp [Database.stripped]
      rentals := by simp [Database.stripped]
      telemetryReadings := by simp [Database.stripped] }

end Effect

end FleetManagement
