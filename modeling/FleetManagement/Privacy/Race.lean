import FleetManagement.Lemmas.Sessions

/-!
# Concurrent erasures of one account

Any number of `anonymize` requests for one subject, at work on one database. The row lock makes a request
wait for the one before it, but the entity that it then tests is the one that its dependencies loaded
before the lock, so an account is erased once exactly as long as no erasure is committed between the load
of a request that erases and its own commit.
-/

namespace FleetManagement

variable {P : Platform} {db db' : Database} {subjectId : Int}

def AuditEvent.recordsErasure (subjectId : Int) (e : AuditEvent) : Bool :=
  e.eventType = "user_anonymize" ∧ e.result = "anonymized" ∧ e.subjectId = some subjectId

def Database.erasures (db : Database) (subjectId : Int) : Nat :=
  db.auditEvents.count (AuditEvent.recordsErasure subjectId)

def Database.HasErased (db : Database) (subjectId : Int) : Prop :=
  ∃ u, db.users.find? subjectId = some u ∧ u.anonymizedAt.isSome = true

/-- What a request for the subject commits: an audit event that records no erasure, or an erasure that is
based on an entity without `anonymized_at`. -/
inductive AnonymizeCommit (P : Platform) (subjectId : Int) : List Stmt → Prop
  | audit {event : AuditEvent} (h : event.recordsErasure subjectId = false) :
      AnonymizeCommit P subjectId [.insertAuditEvent event]
  | erasure {u : User} {d : ErasureDraws} {renters : List Renter} {consents : List UserConsent}
      {actorId : Int} {correlationId : String} (hid : u.id = subjectId) (hnew : u.anonymizedAt = none) :
      AnonymizeCommit P subjectId (erasureFlush P u d renters consents actorId correlationId)

/-! ## What a request commits while others are at work -/

abbrev Keeps (P : Platform) (subjectId : Int) {α : Type} (t : Db α) (s : Database) (ws : List Stmt) :
    Prop :=
  Tx.Meets dialect (fun _ => True) (fun _ _ => True) (fun _ => AnonymizeCommit P subjectId) t s ws

section Meets
variable {s : Database}

theorem keeps_anonymize (header : Option String) (token : Option Int) :
    Keeps P subjectId ((⟨header, .anonymize token subjectId⟩ : PrivacyCall).handler P) s [] := by
  have haudit : ∀ result actorId correlationId t, result ≠ "anonymized" →
      (auditEvent "user_anonymize" actorId (some subjectId) result correlationId t).recordsErasure
        subjectId = false := fun result _ _ _ hres => by simp [AuditEvent.recordsErasure, auditEvent, hres]
  have hrequest : ∀ correlationId, Keeps P subjectId
      ((PrivacyRequest.anonymize token subjectId).handler P correlationId) s [] := by
    intro correlationId
    refine meets_subjectAccess (fun _ => trivial) (fun _ _ _ _ _ => trivial)
      (fun actorId result t _ hres _ => .audit (haudit _ _ _ _ ?_)) fun t a _ ha hm => ?_
    · rcases hres with rfl | rfl <;> decide
    · rw [ha]
      refine (anonymizeUser_meets (fun _ => trivial) (fun _ _ _ _ _ => trivial) hm
        (fun t _ _ => .audit (haudit _ _ _ _ (by decide))) ?_).map _
      intro t u entity d renters consents _ hrow hnew
      exact .erasure (Table.key_of_find? hrow) hnew
  have hdraw : Keeps P subjectId
      (uuid4 >>= fun x => (PrivacyRequest.anonymize token subjectId).handler P x.val)
      s [] := by
    unfold uuid4
    simp only [Tx.bind_assoc]
    exact Tx.meets_sample fun d => hrequest _
  unfold PrivacyCall.handler acceptOrGenerate
  cases header with
  | none => exact hdraw
  | some id =>
      simp only
      split
      · exact hrequest id
      · exact hdraw

end Meets

/-! ## What a request has loaded when it erases -/

def erasesAccount (subjectId : Int) (ws : List Stmt) : Bool :=
  ws.any fun
    | .updateUser id _ => id = subjectId
    | _ => false

/-- An erasure is committed by a request that has loaded the account without `anonymized_at`. -/
def LoadsUnerased (token : Option Int) (subjectId : Int) (seen : List Database) (ws : List Stmt) : Prop :=
  erasesAccount subjectId ws = true →
    ∃ g, loadOf token subjectId seen = some g ∧ ∃ u, g.users.find? subjectId = some u ∧ u.anonymizedAt = none

section Obeys
variable {I : Database → Prop} {R : (RowKey → Prop) → Database → Database → Prop} {held : RowKey → Prop}
  {seen : List Database} {s : Database} {token : Option Int}

/-- The test of `anonymized_at` is one of the entity that was loaded, whatever the row has become. -/
theorem anonymizeUser_obeys {m : IdentityMap} {actorId : Int} {correlationId : String} {u : User}
    {g : Database} (hload : loadOf token subjectId seen = some g) (hrow : g.users.find? subjectId = some u)
    (hm : m.find subjectId = some u) :
    Tx.Obeys dialect I R (fun seen _ ws _ => LoadsUnerased token subjectId seen ws)
      (anonymizeUser P m subjectId actorId correlationId) s [] held seen := by
  unfold anonymizeUser
  refine obeys_integerParameter fun _ => Tx.obeys_selectForUpdate fun t _ _ v hv => ?_
  cases hv
  cases hlocked : t.users.find? subjectId with
  | none => exact Tx.obeys_raise _
  | some row =>
      have hentity : m.entity row = u := by
        rw [IdentityMap.entity, show row.id = subjectId from Table.key_of_find? hlocked, hm]
        rfl
      simp only [hentity]
      split
      · exact obeys_recordAuditEvent (fun _ _ _ _ herases => by cases herases) fun _ => Tx.obeys_ret _
      · rename_i hnew
        have hnone := Option.not_isSome_iff_eq_none.mp hnew
        refine Tx.obeys_of_forall _ fun more _ _ _ _ => ⟨g, ?_, u, hrow, hnone⟩
        rw [List.append_assoc]
        exact loadOf_append hload

theorem anonymize_obeys (header : Option String) :
    Tx.Obeys dialect I R (fun seen _ ws _ => LoadsUnerased token subjectId seen ws)
      ((⟨header, .anonymize token subjectId⟩ : PrivacyCall).handler P) s [] held [] := by
  have hrequest : ∀ correlationId, Tx.Obeys dialect I R
      (fun seen _ ws _ => LoadsUnerased token subjectId seen ws)
      ((PrivacyRequest.anonymize token subjectId).handler P correlationId) s [] held [] := by
    intro correlationId
    refine obeys_subjectAccess (fun _ _ _ _ herases => by cases herases) fun t g a seen hload hrow hm => ?_
    obtain rfl : a.subject.id = subjectId := Table.key_of_find? hrow
    exact (anonymizeUser_obeys hload hrow hm).map fun _ _ _ _ h => h
  unfold PrivacyCall.handler acceptOrGenerate
  cases header with
  | none =>
      unfold uuid4
      simp only [Tx.bind_assoc]
      exact Tx.obeys_sample fun d => hrequest _
  | some id =>
      simp only
      split
      · exact hrequest id
      · unfold uuid4
        simp only [Tx.bind_assoc]
        exact Tx.obeys_sample fun d => hrequest _

end Obeys

/-! ## What a commit does to the subject -/

theorem erasesAccount_erasure {u : User} {d : ErasureDraws} {renters : List Renter}
    {consents : List UserConsent} {actorId : Int} {correlationId : String} (hid : u.id = subjectId) :
    erasesAccount subjectId (erasureFlush P u d renters consents actorId correlationId) = true := by
  simp [erasesAccount, erasureFlush, eraseStatements, hid]

/-- What identifies an account: its address, the licences of its renters, and when it was erased. -/
structure SameIdentity (subjectId : Int) (db db' : Database) : Prop where
  account : (db'.users.find? subjectId).map (fun u => (u.email, u.anonymizedAt)) =
    (db.users.find? subjectId).map fun u => (u.email, u.anonymizedAt)
  licenses : (db'.rentersOf subjectId).map (fun r => (r.id, r.licenseNumber)) =
    (db.rentersOf subjectId).map fun r => (r.id, r.licenseNumber)

theorem audit_effect {event : AuditEvent} (h : event.recordsErasure subjectId = false)
    (ha : dialect.applyAll [.insertAuditEvent event] db = .ok db') :
    db'.users = db.users ∧ db'.renters = db.renters ∧ db'.erasures subjectId = db.erasures subjectId := by
  obtain ⟨-, hseq, rfl⟩ := insertAuditEvent_ok.mp (dialect.applyAll_singleton_ok.mp ha)
  refine ⟨rfl, rfl, ?_⟩
  have hid : ∀ id, AuditEvent.recordsErasure subjectId { event with id } = false := fun _ => h
  simp only [Database.erasures, Database.withAuditEvents_auditEvents, Table.count_insert, hid]
  rfl

theorem erasure_effect {u : User} {d : ErasureDraws} {renters : List Renter} {consents : List UserConsent}
    {actorId : Int} {correlationId : String} (hid : u.id = subjectId) (hnew : u.anonymizedAt = none)
    (h : dialect.applyAll (erasureFlush P u d renters consents actorId correlationId) db = .ok db') :
    db'.HasErased subjectId ∧ db'.erasures subjectId = db.erasures subjectId + 1 := by
  obtain ⟨⟨r, hr⟩, t, hseq, -, rfl⟩ := erasureFlush_ok h
  subst hid
  constructor
  · have hrow : (db.users.update u.id (u.changes (d.user P u)).on (UserSet.key_on _)).find? u.id =
        some ((u.changes (d.user P u)).on r) := Table.find?_update_self hr
    refine ⟨_, hrow, ?_⟩
    simp [UserSet.on, User.changes, ErasureDraws.user, User.anonymize, hnew, dirty]
  · have hrec : ∀ id, AuditEvent.recordsErasure u.id
        { erasureEvent u actorId correlationId d.auditedAt with id } = true := fun id => by
      simp [AuditEvent.recordsErasure, erasureEvent, auditEvent]
    simp only [Database.erasures, Database.withAuditEvents_auditEvents, Table.count_insert, hrec]
    rfl

/-! ## The pool of requests -/

section Requests
variable {ι : Type} (header : ι → Option String) (token : ι → Option Int)

abbrev AnonymizeWorld (ι : Type) := Watched ι Database Stmt RowKey Draw Error PrivacyResponse

def anonymizeRequests (P : Platform) (subjectId : Int) (db : Database) : AnonymizeWorld ι :=
  Watched.init db fun i => (⟨header i, .anonymize (token i) subjectId⟩ : PrivacyCall).handler P

/-- The account is erased exactly if there is an event that says so, and then there is only one. -/
structure Database.ErasedOnce (db : Database) (subjectId : Int) : Prop where
  once : db.erasures subjectId ≤ 1
  recorded : db.HasErased subjectId ↔ 1 ≤ db.erasures subjectId

/-- Erasures are on record, in every state that a request has loaded from too, and requests commit what
they may. -/
structure RequestsInv (P : Platform) (token : ι → Option Int) (subjectId : Int) (w : AnonymizeWorld ι) :
    Prop where
  store : w.pool.store.ErasedOnce subjectId
  commits : w.pool.AllMeet dialect (fun _ => True) (fun _ _ => True) fun _ _ => AnonymizeCommit P subjectId
  loads : ∀ i, Watched.Safe dialect (fun _ => True) (fun _ _ _ => True)
    (fun i seen _ ws _ => LoadsUnerased (token i) subjectId seen ws) w i
  past : Watched.Recalls (fun s => s.ErasedOnce subjectId) (fun _ _ _ => True) w

variable [DecidableEq ι]

theorem requestsInv_init (h : db.ErasedOnce subjectId) :
    RequestsInv P token subjectId (anonymizeRequests header token P subjectId db) where
  store := h
  commits i := keeps_anonymize (header i) (token i)
  loads i := Watched.safe_init (anonymize_obeys (header i))
  past := Watched.recalls_init _ _

/-- A request that erases the account in this step has loaded it after all erasures so far. -/
def ErasesAsLoaded (token : ι → Option Int) (subjectId : Int) (w : AnonymizeWorld ι)
    (a : ι × Choice Draw Error) : Prop :=
  ∀ ws, w.pool.publishes dialect a = some ws → erasesAccount subjectId ws = true →
    ∀ g ∈ loadOf (token a.1) subjectId (w.seen a.1),
      w.pool.store.erasures subjectId = g.erasures subjectId

variable {header token} {w : AnonymizeWorld ι} {a : ι × Choice Draw Error}

/-- The two kinds of steps: the account and its renters stay as they are, or they are erased. -/
theorem RequestsInv.cases (hw : RequestsInv P token subjectId w) :
    ((w.step dialect a).pool.store.users = w.pool.store.users ∧
      (w.step dialect a).pool.store.renters = w.pool.store.renters ∧
      (w.step dialect a).pool.store.erasures subjectId = w.pool.store.erasures subjectId ∧
      ErasesAsLoaded token subjectId w a) ∨
    ((w.step dialect a).pool.store.HasErased subjectId ∧
      (w.step dialect a).pool.store.erasures subjectId = w.pool.store.erasures subjectId + 1 ∧
      (ErasesAsLoaded token subjectId w a ↔ w.pool.store.erasures subjectId = 0)) := by
  have hpool : (w.step dialect a).pool = w.pool.step dialect a := rfl
  rw [hpool]
  cases hpub : w.pool.publishes dialect a with
  | none =>
      have hst := (Pool.step_of_silent hpub).1
      rw [hst]
      exact Or.inl ⟨rfl, rfl, rfl, fun ws hws => by rw [hpub] at hws; cases hws⟩
  | some ws =>
      obtain ⟨s, hs, hst, -⟩ := Pool.step_of_publishes hpub
      rw [hst]
      cases hw.commits.publishes (fun _ => trivial) trivial hpub with
      | audit h =>
          obtain ⟨husers, hrenters, hcount⟩ := audit_effect h hs
          refine Or.inl ⟨husers, hrenters, hcount, fun ws' hws' herases => ?_⟩
          rw [hpub] at hws'
          cases hws'
          cases herases
      | erasure hid hnew =>
          obtain ⟨herased, hcount⟩ := erasure_effect hid hnew hs
          obtain ⟨_, hloads, -⟩ := (hw.loads a.1).publishes (fun _ _ => trivial) trivial hpub
          obtain ⟨g, hg, u, hrow, hunerased⟩ := hloads (erasesAccount_erasure hid)
          -- The account was not erased yet in the state that the request has loaded it from.
          have hzero : g.erasures subjectId = 0 := by
            have hrecorded := (hw.past a.1 g (mem_of_loadOf hg)).1.recorded
            by_contra hne
            obtain ⟨v, hv, hsome⟩ := hrecorded.mpr (by omega)
            obtain rfl := Option.some.inj (hv.symm.trans hrow)
            rw [hunerased] at hsome
            cases hsome
          refine Or.inr ⟨herased, hcount, ?_⟩
          simp only [ErasesAsLoaded, hpub, hg, Option.mem_def, Option.some.injEq, forall_eq',
            erasesAccount_erasure hid, forall_true_left, hzero]

theorem RequestsInv.step (hw : RequestsInv P token subjectId w) (hok : ErasesAsLoaded token subjectId w a) :
    RequestsInv P token subjectId (w.step dialect a) where
  store := by
    rcases hw.cases (a := a) with ⟨husers, -, hcount, -⟩ | ⟨herased, hcount, hiff⟩
    · refine ⟨by rw [hcount]; exact hw.store.once, ?_⟩
      rw [hcount, ← hw.store.recorded]
      simp only [Database.HasErased, husers]
    · have hzero := hiff.mp hok
      exact ⟨by omega, ⟨fun _ => by omega, fun _ => herased⟩⟩
  commits := hw.commits.step (fun _ => trivial) (fun _ _ _ _ _ => trivial) trivial trivial
  loads := Watched.safe_step (fun _ _ => trivial) (fun _ _ _ _ _ _ => trivial) (fun _ _ _ _ _ _ => trivial)
    trivial hw.loads fun _ _ _ _ => trivial
  past := hw.past.step (fun _ _ _ _ _ _ => trivial) hw.store trivial

theorem RequestsInv.erasesAsLoaded (hw : RequestsInv P token subjectId w)
    (h : (w.step dialect a).pool.store.erasures subjectId ≤ 1) : ErasesAsLoaded token subjectId w a := by
  rcases hw.cases (a := a) with ⟨-, -, -, hok⟩ | ⟨-, hcount, hiff⟩
  · exact hok
  · exact hiff.mpr (by omega)

def StaysErased (subjectId : Int) (db db' : Database) : Prop :=
  db.HasErased subjectId → db'.HasErased subjectId ∧ SameIdentity subjectId db db'

theorem StaysErased.trans {s t u : Database} (h : StaysErased subjectId s t)
    (h' : StaysErased subjectId t u) : StaysErased subjectId s u := by
  intro hs
  obtain ⟨ht, hst⟩ := h hs
  obtain ⟨hu, htu⟩ := h' ht
  exact ⟨hu, htu.account.trans hst.account, htu.licenses.trans hst.licenses⟩

theorem RequestsInv.staysErased (hw : RequestsInv P token subjectId w)
    (hok : ErasesAsLoaded token subjectId w a) :
    StaysErased subjectId w.pool.store (w.step dialect a).pool.store := by
  intro herased
  rcases hw.cases (a := a) with ⟨husers, hrenters, -, -⟩ | ⟨-, -, hiff⟩
  · refine ⟨by simpa only [Database.HasErased, husers] using herased, ?_, ?_⟩
    · rw [husers]
    · simp only [Database.rentersOf, hrenters]
  · have hone := hw.store.recorded.mp herased
    have hzero := hiff.mp hok
    omega

/-- The account is erased at most once, and what identifies it never changes afterwards, exactly when
no erasure is committed between the load and the commit of a request that erases. -/
theorem erased_once_iff_erases_as_loaded (hdb : db.ErasedOnce subjectId)
    (schedule : List (ι × Choice Draw Error)) :
    ((∀ w, Runs.Visits (Watched.step dialect) (anonymizeRequests header token P subjectId db) schedule w →
        w.pool.store.erasures subjectId ≤ 1) ∧
      ∀ v w, Runs.VisitsThen (Watched.step dialect)
        (anonymizeRequests header token P subjectId db) schedule v w →
        v.pool.store.HasErased subjectId → SameIdentity subjectId v.pool.store w.pool.store) ↔
    ∀ w a, Runs.Takes (Watched.step dialect) (anonymizeRequests header token P subjectId db) schedule w a →
      ErasesAsLoaded token subjectId w a := by
  have hinit : RequestsInv P token subjectId (anonymizeRequests header token P subjectId db) :=
    requestsInv_init header token hdb
  constructor
  · intro h
    exact Runs.guarded_of_invariant (fun _ _ hw hok => hw.step hok)
      (fun _ _ hw hle => hw.erasesAsLoaded hle) hinit h.1
  · intro hok
    have hinv := Runs.invariant_of_guarded (fun _ _ hw hok => hw.step hok) hinit hok
    refine ⟨fun w hw => (hinv w hw).store.once, fun v w hvw herased => ?_⟩
    let R := fun v w : AnonymizeWorld ι => StaysErased subjectId v.pool.store w.pool.store
    have hrel : R v w :=
      Runs.relation_of_guarded (R := R) (fun _ h => ⟨h, rfl, rfl⟩)
        (fun _ _ _ h h' => StaysErased.trans h h') (fun _ _ hw hok => hw.step hok)
        (fun _ _ hw hok => hw.staysErased hok) hinit hok v w hvw
    exact (hrel herased).2

end Requests

/-! ## Two requests at once -/

def clientele : Database :=
  .seeded [.insertUser ⟨0, "ivan@fleet.org", "secret$", "Ivan Petrenko", .user, none, true, 0, none⟩,
    .insertRenter ⟨0, "Ivan Petrenko", "AB123456", some 1⟩]

/-- Both requests load the account; then the one and the other run to their ends. -/
def overlappingErasures : List (Bool × Choice Draw Error) :=
  [(false, stepAt 1), (true, stepAt 2)] ++ List.replicate 16 (false, stepAt 3) ++
    List.replicate 16 (true, stepAt 4)

theorem erasedOnce_of_none (hu : ∀ u ∈ db.users.rows, u.anonymizedAt = none)
    (ha : db.auditEvents.rows = []) : db.ErasedOnce subjectId := by
  have hzero : db.erasures subjectId = 0 := by rw [Database.erasures, Table.count, ha]; rfl
  refine ⟨by omega, ⟨?_, fun h => absurd h (by omega)⟩⟩
  rintro ⟨u, hrow, herased⟩
  rw [hu u (Table.mem_of_find? hrow)] at herased; cases herased

theorem overlapping_erasures_both_commit :
    clientele.ErasedOnce 1 ∧ ¬ ((∀ w, Runs.Visits (Watched.step dialect)
        (anonymizeRequests (fun _ => some "c") (fun _ => some 1) plainPlatform 1 clientele)
        overlappingErasures w → w.pool.store.erasures 1 ≤ 1) ∧
      ∀ v w, Runs.VisitsThen (Watched.step dialect)
        (anonymizeRequests (fun _ => some "c") (fun _ => some 1) plainPlatform 1 clientele)
        overlappingErasures v w → v.pool.store.HasErased 1 → SameIdentity 1 v.pool.store w.pool.store) := by
  refine ⟨erasedOnce_of_none (by decide) rfl, fun h => ?_⟩
  exact absurd (h.1 _ (Runs.Visits.last _ _)) (by decide +kernel)

theorem clientele_erased_once_iff :
    ((∀ w, Runs.Visits (Watched.step dialect)
        (anonymizeRequests (fun _ => some "c") (fun _ => some 1) plainPlatform 1 clientele)
        overlappingErasures w → w.pool.store.erasures 1 ≤ 1) ∧
      ∀ v w, Runs.VisitsThen (Watched.step dialect)
        (anonymizeRequests (fun _ => some "c") (fun _ => some 1) plainPlatform 1 clientele)
        overlappingErasures v w → v.pool.store.HasErased 1 → SameIdentity 1 v.pool.store w.pool.store) ↔
    ∀ w a, Runs.Takes (Watched.step dialect)
      (anonymizeRequests (fun _ => some "c") (fun _ => some 1) plainPlatform 1 clientele)
      overlappingErasures w a → ErasesAsLoaded (fun _ => some 1) 1 w a :=
  erased_once_iff_erases_as_loaded (erasedOnce_of_none (by decide) rfl) overlappingErasures

end FleetManagement
