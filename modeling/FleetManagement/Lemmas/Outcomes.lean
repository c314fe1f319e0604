import FleetManagement.Lemmas.Rejections
import FleetManagement.Privacy.Integrity

/-!
# How the services end among other requests

One rule for each function: what it returns and what it raises, and which state of the run is the reason.
The states satisfy `V`, and the steps that fail raise what `B` allows.
-/

namespace FleetManagement

variable {P : Platform} {V : Database → Prop} {B : Error → Prop} {s : Database} {ws : List Stmt} {α : Type}

abbrev Among (V : Database → Prop) (B : Error → Prop) (E : Error → Database → Prop)
    (Q : α → Database → List Stmt → Prop) (t : Db α) (s : Database) (ws : List Stmt) : Prop :=
  Tx.Rely dialect (fun t => t.Sound ∧ V t) Database.Keeps B E Q t s ws

/-- What every request may raise: a value that its column cannot hold, or the failure of a step. -/
structure Tolerates (B : Error → Prop) (E : Error → Database → Prop) : Prop where
  data : ∀ s, E .dataError s
  fault : ∀ e s, B e → E e s

/-! ## Queries -/

section Rules
variable {E : Error → Database → Prop}

theorem among_integerParameter (hE : Tolerates B E) {id : Int} {Q : Unit → Database → List Stmt → Prop}
    (h : Q () s ws) : Among V B E Q (integerParameter id) s ws := by
  unfold integerParameter
  split
  · exact h
  · exact hE.data s

theorem among_select (hE : Tolerates B E) {Q : Database → Database → List Stmt → Prop}
    (h : ∀ t, t.Sound → V t → s.Keeps t → Q t t []) : Among V B E Q Tx.select s [] :=
  Tx.rely_select (fun t ht hst => h t ht.1 ht.2 hst) fun e t he _ => hE.fault e t he

theorem among_get (hE : Tolerates B E) {ρ : Type} [Keyed ρ] {table : Database → Table ρ} {id : Int}
    {Q : Option ρ → Database → List Stmt → Prop}
    (h : ∀ t, t.Sound → V t → s.Keeps t → Q ((table t).find? id) t []) :
    Among V B E Q (get table id) s [] :=
  Tx.rely_bind (among_integerParameter hE (Tx.rely_bind (among_select hE h)))

theorem among_refresh (hE : Tolerates B E) {ρ : Type} [Keyed ρ] {table : Database → Table ρ} {id : Int}
    {Q : ρ → Database → List Stmt → Prop}
    (h : ∀ t row, V t → s.Keeps t → (table t).find? id = some row → Q row t [])
    (hgone : ∀ t, s.Keeps t → (table t).find? id = none → E .staleDataError t) :
    Among V B E Q (refresh table id) s [] := by
  unfold refresh
  refine Tx.rely_bind (among_select hE fun t _ hV hst => ?_)
  cases hrow : (table t).find? id with
  | none => exact hgone t hst hrow
  | some row => exact h t row hV hst hrow

theorem among_now {Q : DateTime → Database → List Stmt → Prop} (h : ∀ t, Q t s ws) :
    Among V B E Q now s ws :=
  Tx.rely_bind (Tx.rely_sample fun d => h d.now)

theorem among_scalarOneOrNone {ρ : Type} {rows : List ρ} {Q : Option ρ → Database → List Stmt → Prop}
    (hrows : ∃ o : Option ρ, rows = Option.toList o) (h : ∀ o, rows = Option.toList o → Q o s ws) :
    Among V B E Q (scalarOneOrNone rows) s ws := by
  obtain ⟨o, rfl⟩ := hrows
  cases o with
  | none => exact h none rfl
  | some row => exact h (some row) rfl

theorem among_validate {ok : Bool} {Q : Unit → Database → List Stmt → Prop} (h : ok = true → Q () s ws)
    (hbad : ok = false → E .validationError s) : Among V B E Q (validate ok) s ws := by
  cases ok with
  | true => exact h rfl
  | false => exact hbad rfl

/-- A commit that keeps rows, and whose rejection is one of `E`. -/
theorem among_commit (hE : Tolerates B E) {Q : Database → Database → List Stmt → Prop}
    (hws : ∀ w ∈ ws, w.keepsEnds = true)
    (hok : ∀ t u, V t → s.Keeps t → dialect.applyAll ws t = .ok u → t.Keeps u → Q u u [])
    (herr : ∀ t, t.Sound → V t → s.Keeps t → Fails (fun e => E e t) (dialect.applyAll ws t)) :
    Among V B E Q (Tx.commitAll ws) s [] :=
  Tx.rely_commitAll (fun t u ht hst hu => hok t u ht.2 hst hu (keeps_of_applyAll hws hu))
    (fun t e ht hst he => herr t ht.1 ht.2 hst e he) fun e t he _ => hE.fault e t he

/-! ## Audit events and activity -/

theorem among_recordAuditEvent (hE : Tolerates B E) {eventType result correlationId : String}
    {actorId subjectId : Option Int} {Q : Unit → Database → List Stmt → Prop}
    (h : ∀ u, s.Keeps u → Q () u []) :
    Among V B E Q (recordAuditEvent eventType actorId subjectId result correlationId) s [] := by
  refine Tx.rely_bind (among_now fun t => Tx.rely_bind ?_)
  refine among_commit hE (by simp [Stmt.keepsEnds]) (fun t u _ hst _ htu => h u (Keeps.trans _ _ _ hst htu)) ?_
  exact fun t _ _ _ => fails_applyAll_singleton (fails_insertAuditEvent (hE.data t))

theorem among_recordActivity (hE : Tolerates B E) {userId : Int} {action : String}
    {ipAddress userAgent : Option String} {Q : Unit → Database → List Stmt → Prop}
    (huser : ∃ row, s.users.find? userId = some row) (h : ∀ u, s.Keeps u → Q () u []) :
    Among V B E Q (recordActivity userId action ipAddress userAgent) s [] := by
  refine Tx.rely_bind (among_now fun t => Tx.rely_bind ?_)
  refine among_commit hE (by simp [Stmt.keepsEnds]) (fun t u _ hst _ htu => h u (Keeps.trans _ _ _ hst htu)) ?_
  exact fun t _ _ hst => fails_applyAll_singleton (fails_insertUserActivity (hE.data t)
    fun hnone => (hst.no_user huser hnone).elim)

/-! ## Access -/

/-- The token is missing, or a state of the run has no active account for it. -/
def Unauthenticated (V : Database → Prop) (token : Option Int) : Prop :=
  ∀ id, token = some id → ∃ t, V t ∧ ∀ row, t.users.find? id = some row → row.isActive = false

theorem among_getCurrentUser (hE : Tolerates B E) {token : Option Int} {Q : User → Database → List Stmt → Prop}
    (hdeny : Unauthenticated V token → ∀ t, E unauthorized t)
    (h : ∀ t actor, V t → s.Keeps t → token = some actor.id → t.users.find? actor.id = some actor →
      Q actor t []) :
    Among V B E Q (getCurrentUser token) s [] := by
  unfold getCurrentUser
  cases token with
  | none => exact hdeny (fun _ h => by cases h) s
  | some id =>
      refine Tx.rely_bind (among_get hE fun t _ hV hst => ?_)
      cases hrow : t.users.find? id with
      | none => exact hdeny (fun _ h => ⟨t, hV, fun row hr => by cases h; rw [hrow] at hr; cases hr⟩) t
      | some actor =>
          obtain rfl : actor.id = id := Table.key_of_find? hrow
          cases hactive : actor.isActive with
          | true =>
              simp only [hactive, if_true]
              exact h t actor hV hst rfl hrow
          | false =>
              simp only [hactive, Bool.false_eq_true, if_false]
              refine hdeny (fun _ h => ⟨t, hV, fun row hr => ?_⟩) t
              cases h
              rw [hrow] at hr
              cases hr
              exact hactive

/-- The account of the token has another role in a state of the run. -/
def HasOtherRole (V : Database → Prop) (token : Option Int) (role : UserRole) : Prop :=
  ∃ t row, V t ∧ token = some row.id ∧ t.users.find? row.id = some row ∧ row.role ≠ role

theorem among_requireRole (hE : Tolerates B E) {role : UserRole} {token : Option Int}
    {Q : User → Database → List Stmt → Prop} (hdeny : Unauthenticated V token → ∀ t, E unauthorized t)
    (hforbid : HasOtherRole V token role → ∀ t, E (.http 403 "Insufficient permissions") t)
    (h : ∀ t actor, s.Keeps t → t.users.find? actor.id = some actor → Q actor t []) :
    Among V B E Q (requireRole role token) s [] := by
  refine Tx.rely_bind (among_getCurrentUser hE hdeny fun t actor hV hst htoken hactor => ?_)
  by_cases hrole : actor.role = role
  · rw [if_pos hrole]
    exact h t actor hst hactor
  · rw [if_neg hrole]
    exact hforbid ⟨t, actor, hV, htoken, hactor, hrole⟩ t

theorem among_requireAdmin (hE : Tolerates B E) {token : Option Int}
    {Q : User → Database → List Stmt → Prop} (hdeny : Unauthenticated V token → ∀ t, E unauthorized t)
    (hforbid : HasOtherRole V token .admin → ∀ t, E (.http 403 "Insufficient permissions") t)
    (h : ∀ t actor, s.Keeps t → t.users.find? actor.id = some actor → Q actor t []) :
    Among V B E Q (requireAdmin token) s [] :=
  among_requireRole hE hdeny hforbid h

/-- The account of the token may not see the subject, or there was no such subject. -/
def Hidden (V : Database → Prop) (token : Option Int) (userId : Int) : Prop :=
  ∃ t actor, V t ∧ token = some actor.id ∧ t.users.find? actor.id = some actor ∧ actor.id ≠ userId ∧
    (actor.role ≠ .admin ∨ ∃ t', V t' ∧ t'.users.find? userId = none)

theorem among_subjectAccess (hE : Tolerates B E) {eventType correlationId : String} {token : Option Int}
    {userId : Int} {Q : SubjectAccess → Database → List Stmt → Prop}
    (hdeny : Unauthenticated V token → ∀ t, E unauthorized t)
    (hhidden : Hidden V token userId → ∀ t, E (.notFound "User not found") t)
    (h : ∀ t a, s.Keeps t → a.subject.id = userId → (∃ t', V t' ∧ a.subject ∈ t'.users.rows) →
      (∃ row, t.users.find? userId = some row) → Q a t []) :
    Among V B E Q (subjectAccess eventType token userId correlationId) s [] := by
  unfold subjectAccess
  refine Tx.rely_bind (among_getCurrentUser hE hdeny fun t actor hV hst htoken hactor => ?_)
  have hrefuse : ∀ result t', Hidden V token userId → Among V B E Q (do
      recordAuditEvent eventType (some actor.id) (some userId) result correlationId
      throw (.notFound "User not found")) t' [] := fun result t' hh =>
    Tx.rely_bind (among_recordAuditEvent hE fun u _ => hhidden hh u)
  by_cases hself : actor.id = userId
  · subst hself
    have hfind : getUser [actor] actor.id = pure (some actor) := by simp [getUser, IdentityMap.find]
    simp only [true_or, if_true, hfind]
    exact h t ⟨actor, actor⟩ hst rfl ⟨t, hV, Table.mem_of_find? hactor⟩ ⟨actor, hactor⟩
  · have hfind : getUser [actor] userId = get Database.users userId := by
      simp [getUser, IdentityMap.find, hself]
    by_cases hrole : actor.role = .admin
    · simp only [hrole, or_true, if_true, hfind]
      refine Tx.rely_bind (among_get hE fun t' _ hV' htt' => ?_)
      cases hrow : t'.users.find? userId with
      | none => exact hrefuse _ t' ⟨t, actor, hV, htoken, hactor, hself, Or.inr ⟨t', hV', hrow⟩⟩
      | some subject =>
          exact h t' ⟨subject, actor⟩ (Keeps.trans _ _ _ hst htt') (Table.key_of_find? hrow)
            ⟨t', hV', Table.mem_of_find? hrow⟩ ⟨subject, hrow⟩
    · simp only [hself, hrole, or_self, if_false]
      exact hrefuse _ t ⟨t, actor, hV, htoken, hactor, hself, Or.inl hrole⟩

/-! ## Accounts -/

theorem filter_toList_of_unique {ρ κ : Type} [Keyed ρ] [DecidableEq κ] {t : Table ρ} {f : ρ → Option κ}
    (h : UniqueBy t f) (k : κ) : ∃ o : Option ρ, t.rows.filter (fun r => f r = some k) = Option.toList o := by
  match hl : t.rows.filter fun r => f r = some k with
  | [] => exact ⟨none, rfl⟩
  | [r] => exact ⟨some r, rfl⟩
  | a :: b :: l =>
      have hmem : ∀ r ∈ a :: b :: l, r ∈ t.rows ∧ f r = some k := by
        intro r hr
        rw [← hl] at hr
        simpa using hr
      obtain ⟨ha, hfa⟩ := hmem a (by simp)
      obtain ⟨hb, hfb⟩ := hmem b (by simp)
      obtain rfl : a = b := h a ha b hb (hfa.trans hfb.symm) (by simp [hfa])
      have hsorted := t.sorted.filter fun r => decide (f r = some k)
      rw [hl, List.pairwise_cons] at hsorted
      exact absurd (hsorted.1 a (by simp)) (Int.lt_irrefl _)

theorem among_authenticate (hE : Tolerates B E) {email password : String}
    {Q : Option User → Database → List Stmt → Prop}
    (hnone : ∀ t, V t → (∀ user ∈ t.users.rows, user.email = normalizeEmail P email →
      P.verify password user.hashedPassword = false ∨ user.isActive = false) → Q none t [])
    (h : ∀ t user, s.Keeps t → user ∈ t.users.rows → Q (some user) t []) :
    Among V B E Q (authenticate P email password) s [] := by
  unfold authenticate
  refine Tx.rely_bind (Tx.rely_bind (among_select hE fun t ht hV hst => ?_))
  have hrows : ∃ o : Option User,
      t.users.rows.filter (fun u => u.email = normalizeEmail P email) = Option.toList o := by
    simpa using filter_toList_of_unique ht.unique.email (normalizeEmail P email)
  refine among_scalarOneOrNone hrows fun o ho => ?_
  have hmem : ∀ user, o = some user ↔ user ∈ t.users.rows ∧ user.email = normalizeEmail P email := by
    intro user
    rw [← Option.mem_toList, ← ho]
    simp
  cases o with
  | none =>
      refine hnone t hV fun user huser hemail => ?_
      exact absurd ((hmem user).mpr ⟨huser, hemail⟩) nofun
  | some user =>
      by_cases hbad : (!P.verify password user.hashedPassword || !user.isActive) = true
      · simp only [hbad, if_true]
        refine hnone t hV fun user' huser' hemail => ?_
        obtain rfl : user = user' := Option.some.inj ((hmem user').mpr ⟨huser', hemail⟩)
        simpa using hbad
      · simp only [hbad]
        exact h t user hst ((hmem user).mp rfl).1

theorem among_login (hE : Tolerates B E) {username password : String} {ipAddress userAgent : Option String}
    {Q : User → Database → List Stmt → Prop}
    (hbad : ∀ t, V t → (∀ user ∈ t.users.rows, user.email = normalizeEmail P username →
      P.verify password user.hashedPassword = false ∨ user.isActive = false) →
      E (.http 401 "Incorrect email or password") t) (h : ∀ user u, Q user u []) :
    Among V B E Q (login P username password ipAddress userAgent) s [] := by
  refine Tx.rely_bind (among_authenticate hE hbad fun t user _ huser => Tx.rely_bind ?_)
  exact among_recordActivity hE ⟨user, Table.find?_key huser⟩ fun u _ => h user u

/-- An account has the e-mail address in a state of the run. -/
def EmailTaken (V : Database → Prop) (email : String) : Prop := ∃ t, V t ∧ ∃ user ∈ t.users.rows, user.email = email

theorem among_createUser (hE : Tolerates B E) (hB : ¬ B .integrityError) {email password fullName : String} {role : UserRole}
    {phone : Option String} {Q : User → Database → List Stmt → Prop}
    (htaken : EmailTaken V (normalizeEmail P email) →
      ∀ t, E (.emailAlreadyRegistered s!"Email {normalizeEmail P email} is already registered") t)
    (h : ∀ user u, Q user u []) :
    Among V B E Q (createUser P email password fullName role phone) s [] := by
  unfold createUser
  refine Tx.rely_bind (Tx.rely_sample fun d => Tx.rely_bind (among_now fun now => ?_))
  let E' : Error → Database → Prop := fun e _ =>
    e = .dataError ∨ B e ∨ e = .integrityError ∧ EmailTaken V (normalizeEmail P email)
  have hE' : Tolerates B E' := ⟨fun _ => Or.inl rfl, fun _ _ he => Or.inr (Or.inl he)⟩
  refine Tx.rely_bind (Tx.rely_tryCatch (fun e t ws he => ?_) (among_commit hE' (by simp [Stmt.keepsEnds])
    (fun t u _ _ hu _ => ?_) fun t _ hV _ => ?_))
  · by_cases hintegrity : e = .integrityError
    · rw [if_pos hintegrity]
      refine Tx.rely_bind (Tx.rely_rollbackAll (htaken ?_ t))
      rcases he with rfl | he | ⟨-, he⟩
      · cases hintegrity
      · exact absurd (hintegrity ▸ he) hB
      · exact he
    · rw [if_neg hintegrity]
      rcases he with rfl | he | ⟨he, -⟩
      · exact hE.data t
      · exact hE.fault e t he
      · exact absurd he hintegrity
  · obtain ⟨-, hseq, rfl⟩ := insertUser_ok.mp (dialect.applyAll_singleton_ok.mp hu)
    refine among_refresh hE (fun v row _ _ _ => h row v) fun v huv hnone => (huv.no_user ?_ hnone).elim
    exact ⟨_, Table.find?_eq_some.mpr ⟨List.mem_append.mpr (Or.inr (List.mem_singleton_self _)), rfl⟩⟩
  · refine fails_applyAll_singleton (fails_insertUser (Or.inl rfl) ?_)
    rintro ⟨user, huser, hemail⟩
    exact Or.inr (Or.inr ⟨rfl, t, hV, user, huser, hemail⟩)

/-- The licence number is taken, or the user has a renter, in a state of the run. -/
def ProfileTaken (V : Database → Prop) (userId : Int) (licenseNumber : String) : Prop :=
  ∃ t, V t ∧ ∃ r ∈ t.renters.rows, r.licenseNumber = licenseNumber ∨ r.userId = some userId

theorem among_createRenterProfile (hE : Tolerates B E) (hB : ¬ B .integrityError) {a : SubjectAccess}
    {fullName licenseNumber : String}
    {Q : Int → Database → List Stmt → Prop} (huser : ∃ row, s.users.find? a.subject.id = some row)
    (hinvalid : (field 1 150 fullName && field 1 50 licenseNumber) = false → E .validationError s)
    (htaken : ProfileTaken V a.subject.id licenseNumber →
      ∀ t, E (.http 409 "Renter profile already exists or licence number is taken") t)
    (h : ∀ i u, Q i u []) :
    Among V B E Q (createRenterProfile a fullName licenseNumber) s [] := by
  unfold createRenterProfile
  refine Tx.rely_bind (among_validate (fun _ => ?_) hinvalid)
  let E' : Error → Database → Prop := fun e _ =>
    e = .dataError ∨ B e ∨ e = .integrityError ∧ ProfileTaken V a.subject.id licenseNumber
  have hE' : Tolerates B E' := ⟨fun _ => Or.inl rfl, fun _ _ he => Or.inr (Or.inl he)⟩
  refine Tx.rely_bind (Tx.rely_tryCatch (fun e t ws he => ?_) (among_commit hE' (by simp [Stmt.keepsEnds])
    (fun t u _ _ _ _ => h _ u) fun t _ hV hst => ?_))
  · by_cases hintegrity : e = .integrityError
    · rw [if_pos hintegrity]
      refine Tx.rely_bind (Tx.rely_rollbackAll (htaken ?_ t))
      rcases he with rfl | he | ⟨-, he⟩
      · cases hintegrity
      · exact absurd (hintegrity ▸ he) hB
      · exact he
    · rw [if_neg hintegrity]
      rcases he with rfl | he | ⟨he, -⟩
      · exact hE.data t
      · exact hE.fault e t he
      · exact absurd he hintegrity
  · refine fails_applyAll_singleton (fails_insertRenter (Or.inl rfl) ?_ ?_ ?_)
    · rintro ⟨r, hr, hlicense⟩
      exact Or.inr (Or.inr ⟨rfl, t, hV, r, hr, Or.inl hlicense⟩)
    · rintro ⟨r, hr, -, hu⟩
      exact Or.inr (Or.inr ⟨rfl, t, hV, r, hr, Or.inr hu⟩)
    · rintro ⟨u, hu, hnone⟩
      cases hu
      exact (hst.no_user huser hnone).elim

/-! ## Consents -/

theorem toList_consentsFor (h : s.Sound) (userId : Int) (purpose : ConsentPurpose) :
    ∃ o : Option UserConsent, s.consentsFor userId purpose = Option.toList o := by
  simpa [Database.consentsFor] using filter_toList_of_unique h.unique.consent (userId, purpose)

theorem among_getCurrent (hE : Tolerates B E) {userId : Int} {purpose : ConsentPurpose} {lock : Bool}
    {Q : Option UserConsent → Database → List Stmt → Prop}
    (h : ∀ t o, V t → s.Keeps t → t.consentsFor userId purpose = Option.toList o → Q o t []) :
    Among V B E Q (getCurrent userId purpose lock) s [] := by
  have hscalar : ∀ t, t.Sound → V t → s.Keeps t →
      Among V B E Q (scalarOneOrNone (t.consentsFor userId purpose)) t [] := fun t ht hV hst =>
    among_scalarOneOrNone (toList_consentsFor ht userId purpose) fun o ho => h t o hV hst ho
  unfold getCurrent
  cases lock with
  | true => exact Tx.rely_bind (Tx.rely_selectForUpdate (fun t ht hst => hscalar t ht.1 ht.2 hst)
      fun e t he _ => hE.fault e t he)
  | false => exact Tx.rely_bind (among_select hE hscalar)

/-- The user has a consent for the purpose on record. -/
def Database.HasConsent (db : Database) (userId : Int) (purpose : ConsentPurpose) : Prop :=
  ∃ c ∈ db.userConsents.rows, c.userId = userId ∧ c.purpose = purpose

theorem Database.HasConsent.later {t : Database} {userId : Int} {purpose : ConsentPurpose}
    (h : s.HasConsent userId purpose) (hst : s.Keeps t) : t.HasConsent userId purpose := by
  obtain ⟨c, hc, huser, hpurpose⟩ := h
  obtain ⟨d, hd, hduser, hdpurpose⟩ := hst.consents c.id c (Table.find?_key hc)
  exact ⟨d, Table.mem_of_find? hd, hduser.trans huser, hdpurpose.trans hpurpose⟩

/-- An insertion conflicts only where the row was not there when the session began. -/
theorem among_grantOnce (hE : Tolerates B E) {userId : Int} {purpose : ConsentPurpose}
    {policyVersion source : String} {Q : ConsentChange → Database → List Stmt → Prop}
    (huser : ∃ row, s.users.find? userId = some row)
    (hconflict : ¬ s.HasConsent userId purpose → ∀ t, s.Keeps t → t.HasConsent userId purpose →
      E .integrityError t)
    (h : ∀ change u, Q change u []) :
    Among V B E Q (grantOnce userId purpose policyVersion source) s [] := by
  unfold grantOnce
  refine Tx.rely_bind (among_now fun now => Tx.rely_bind (among_getCurrent hE fun t o _ hst ho => ?_))
  split
  · exact h _ t
  · cases o with
    | none =>
        have hnone : ¬ s.HasConsent userId purpose := by
          intro hs
          obtain ⟨c, hc, huser, hpurpose⟩ := hs.later hst
          have hmem : c ∈ t.consentsFor userId purpose := by simp [Database.consentsFor, hc, huser, hpurpose]
          rw [ho] at hmem
          cases hmem
        refine Tx.rely_bind (among_commit hE (by simp [grantFlush, Stmt.keepsEnds])
          (fun _ u _ _ _ _ => h _ u) fun t' _ _ htt' => ?_)
        have hst' := Keeps.trans _ _ _ hst htt'
        refine fails_applyAll_cons (fails_insertUserConsent (hE.data t') ?_ ?_) fun db' happ => ?_
        · exact hconflict hnone t' hst'
        · exact fun hgone => (hst'.no_user huser hgone).elim
        · refine fails_applyAll_singleton (fails_insertConsentHistory (hE.data t') fun hgone => ?_)
          exact ((Keeps.trans _ _ _ hst' (keeps_of_apply rfl happ)).no_user huser hgone).elim
    | some c =>
        refine Tx.rely_bind (among_commit hE (by simp [grantFlush, Stmt.keepsEnds])
          (fun _ u _ _ _ _ => h _ u) fun t' _ _ htt' => ?_)
        have hst' := Keeps.trans _ _ _ hst htt'
        obtain ⟨c', hc', -⟩ := htt'.consents c.id c (Table.find?_key (mem_consentsFor ho).1)
        refine fails_applyAll_cons (fails_updateUserConsent (hE.data t') fun hgone => ?_) fun db' happ => ?_
        · rw [hgone] at hc'
          cases hc'
        · refine fails_applyAll_singleton (fails_insertConsentHistory (hE.data t') fun hgone => ?_)
          exact ((Keeps.trans _ _ _ hst' (keeps_of_apply rfl happ)).no_user huser hgone).elim

/-- The second attempt finds the row that the first one has collided with. -/
theorem among_grant (hE : Tolerates B E) (hB : ¬ B .integrityError) {userId : Int}
    {purpose : ConsentPurpose} {policyVersion source : String} {Q : ConsentChange → Database → List Stmt → Prop}
    (huser : ∃ row, s.users.find? userId = some row) (h : ∀ change u, Q change u []) :
    Among V B E Q (grant userId purpose policyVersion source) s [] := by
  let E' : Error → Database → Prop := fun e t => e = .dataError ∨ B e ∨
    e = .integrityError ∧ t.HasConsent userId purpose ∧ ∃ row, t.users.find? userId = some row
  have hE' : Tolerates B E' := ⟨fun _ => Or.inl rfl, fun _ _ he => Or.inr (Or.inl he)⟩
  refine Tx.rely_tryCatch (fun e t ws he => ?_) (among_grantOnce hE' huser (fun _ t hst hhas => ?_) h)
  · rcases he with rfl | he | ⟨rfl, hhas, huser⟩
    · exact hE.data t
    · simp only [show e ≠ .integrityError from fun heq => hB (heq ▸ he), if_false]
      exact hE.fault e t he
    · refine Tx.rely_bind (Tx.rely_rollbackAll (among_grantOnce hE huser (fun hnot => ?_) h))
      exact (hnot hhas).elim
  · obtain ⟨row, hrow⟩ := huser
    obtain ⟨row', hrow', -⟩ := hst.users userId row hrow
    exact Or.inr (Or.inr ⟨rfl, hhas, row', hrow'⟩)

theorem among_revoke (hE : Tolerates B E) {userId : Int} {purpose : ConsentPurpose} {source : String}
    {Q : ConsentChange → Database → List Stmt → Prop} (huser : ∃ row, s.users.find? userId = some row)
    (h : ∀ change u, Q change u []) : Among V B E Q (revoke userId purpose source) s [] := by
  unfold revoke
  refine Tx.rely_bind (among_getCurrent hE fun t o _ hst ho => ?_)
  cases o with
  | none => exact h _ t
  | some c =>
      simp only
      split
      · exact h _ t
      · refine Tx.rely_bind (among_now fun now => Tx.rely_bind (among_commit hE
          (by simp [revokeFlush, Stmt.keepsEnds]) (fun _ u _ _ _ _ => h _ u) fun t' _ _ htt' => ?_))
        have hst' := Keeps.trans _ _ _ hst htt'
        obtain ⟨c', hc', -⟩ := htt'.consents c.id c (Table.find?_key (mem_consentsFor ho).1)
        refine fails_applyAll_cons (fails_updateUserConsent (hE.data t') fun hgone => ?_) fun db' happ => ?_
        · rw [hgone] at hc'
          cases hc'
        · refine fails_applyAll_singleton (fails_insertConsentHistory (hE.data t') fun hgone => ?_)
          exact ((Keeps.trans _ _ _ hst' (keeps_of_apply rfl happ)).no_user huser hgone).elim

/-! ## Consent-dependent actions -/

/-- In a state of the run the gate refuses the purpose for this reason. -/
def GateDenies (V : Database → Prop) (userId : Int) (purpose : ConsentPurpose) (reason : String) : Prop :=
  ∃ t o, V t ∧ t.consentsFor userId purpose = Option.toList o ∧
    decideGate o currentPolicyVersion = ⟨false, reason⟩

theorem among_requireConsent (hE : Tolerates B E) {userId actorId : Int} {purpose : ConsentPurpose}
    {correlationId : String} {Q : Unit → Database → List Stmt → Prop}
    (hdeny : ∀ reason, GateDenies V userId purpose reason → ∀ t, E (.consentDenied purpose.value reason) t)
    (h : ∀ t, s.Keeps t → Q () t []) :
    Among V B E Q (requireConsent userId purpose actorId correlationId) s [] := by
  unfold requireConsent checkConsent ConsentPolicyGate.check
  refine Tx.rely_bind (Tx.rely_bind (among_getCurrent hE fun t o hV hst ho => ?_))
  cases hdecide : decideGate o currentPolicyVersion with
  | mk allowed reason =>
      cases allowed with
      | true => exact h t hst
      | false =>
          exact Tx.rely_bind (among_recordAuditEvent hE fun u _ =>
            hdeny reason ⟨t, o, hV, ho, hdecide⟩ u)

theorem among_insertMessage (hE : Tolerates B E) {userId : Int} {campaign : String}
    {Q : MarketingMessage → Database → List Stmt → Prop} (huser : ∃ row, s.users.find? userId = some row)
    (hgone : ∀ t, E .staleDataError t) (h : ∀ message u, Q message u []) :
    Among V B E Q (do
      let message := newMessage userId campaign (← now)
      let db ← Tx.commitAll [.insertMarketingMessage message]
      refresh Database.marketingMessages db.marketingMessages.seq) s [] := by
  refine Tx.rely_bind (among_now fun now => Tx.rely_bind (among_commit hE (by simp [Stmt.keepsEnds])
    (fun _ u _ _ _ _ => ?_) fun t _ _ hst => ?_))
  · exact among_refresh hE (fun v row _ _ _ => h row v) fun v _ _ => hgone v
  · exact fails_applyAll_singleton (fails_insertMarketingMessage (hE.data t) fun hnone =>
      (hst.no_user huser hnone).elim)

theorem among_enqueueMarketingEmail (hE : Tolerates B E) {userId actorId : Int}
    {campaign correlationId : String} {Q : MarketingMessage → Database → List Stmt → Prop}
    (huser : ∃ row, s.users.find? userId = some row)
    (hdeny : ∀ reason, GateDenies V userId .marketingEmail reason →
      ∀ t, E (.consentDenied ConsentPurpose.marketingEmail.value reason) t)
    (hgone : ∀ t, E .staleDataError t) (h : ∀ message u, Q message u []) :
    Among V B E Q (enqueueMarketingEmail userId campaign actorId correlationId) s [] :=
  Tx.rely_bind (among_requireConsent hE hdeny fun _ hst =>
    among_insertMessage hE (hst.has_user huser) hgone h)

theorem among_insertEvent (hE : Tolerates B E) {userId : Int} {eventName : String}
    {Q : AnalyticsEvent → Database → List Stmt → Prop} (huser : ∃ row, s.users.find? userId = some row)
    (hgone : ∀ t, E .staleDataError t) (h : ∀ event u, Q event u []) :
    Among V B E Q (do
      let occurredAt ← now
      let db ← Tx.commitAll [.insertAnalyticsEvent { id := 0, userId, eventName, occurredAt }]
      refresh Database.analyticsEvents db.analyticsEvents.seq) s [] := by
  refine Tx.rely_bind (among_now fun now => Tx.rely_bind (among_commit hE (by simp [Stmt.keepsEnds])
    (fun _ u _ _ _ _ => ?_) fun t _ _ hst => ?_))
  · exact among_refresh hE (fun v row _ _ _ => h row v) fun v _ _ => hgone v
  · exact fails_applyAll_singleton (fails_insertAnalyticsEvent (hE.data t) fun hnone =>
      (hst.no_user huser hnone).elim)

theorem among_recordAnalyticsEvent (hE : Tolerates B E) {userId actorId : Int}
    {eventName correlationId : String} {Q : AnalyticsEvent → Database → List Stmt → Prop}
    (huser : ∃ row, s.users.find? userId = some row)
    (hdeny : ∀ reason, GateDenies V userId .optionalAnalytics reason →
      ∀ t, E (.consentDenied ConsentPurpose.optionalAnalytics.value reason) t)
    (hgone : ∀ t, E .staleDataError t) (h : ∀ event u, Q event u []) :
    Among V B E Q (recordAnalyticsEvent userId eventName actorId correlationId) s [] :=
  Tx.rely_bind (among_requireConsent hE hdeny fun _ hst =>
    among_insertEvent hE (hst.has_user huser) hgone h)

theorem among_verdicts (hE : Tolerates B E) {processedAt : DateTime} (messages : List MarketingMessage)
    {Q : List DispatchOutcome → Database → List Stmt → Prop} (h : ∀ outcomes t, Q outcomes t []) :
    Among V B E Q (verdicts processedAt messages) s [] := by
  induction messages generalizing s Q with
  | nil => exact h [] s
  | cons message messages ih =>
      unfold verdicts checkConsent ConsentPolicyGate.check
      refine Tx.rely_bind (Tx.rely_bind (among_getCurrent hE fun t o _ _ _ => ?_))
      exact Tx.rely_bind (ih fun outcomes t => h _ t)

theorem fails_dispatch {db : Database} {φ : Error → Prop} (hstale : φ .staleDataError)
    (outcomes : List DispatchOutcome) : Fails φ (dialect.applyAll
      (outcomes.map fun o => .updateMarketingMessage o.message.id o.changes) db) := by
  induction outcomes generalizing db with
  | nil => exact fails_ok _
  | cons o outcomes ih => exact fails_applyAll_cons (fails_updateMarketingMessage fun _ => hstale) fun _ _ => ih

theorem among_dispatchPendingMarketing (hE : Tolerates B E) {Q : DispatchSummary → Database → List Stmt → Prop}
    (hgone : ∀ t, E .staleDataError t) (h : ∀ summary u, Q summary u []) :
    Among V B E Q dispatchPendingMarketing s [] := by
  unfold dispatchPendingMarketing decideQueue
  refine Tx.rely_bind (among_now fun now => Tx.rely_bind (Tx.rely_bind (among_select hE fun t _ _ _ => ?_)))
  refine among_verdicts hE _ fun outcomes t => Tx.rely_bind (among_commit hE ?_ (fun _ u _ _ _ _ => h _ u)
    fun t' _ _ _ => fails_dispatch (hgone t') outcomes)
  simp [Stmt.keepsEnds]

/-! ## Erasure -/

/-- The errors that the database raises. -/
def Error.ofDatabase : Error → Bool
  | .integrityError => true
  | .dataError => true
  | .staleDataError => true
  | .operationalError => true
  | _ => false

/-- Inside a transaction, where any error of the database is tolerated. -/
structure ToleratesAll (B : Error → Prop) (E : Error → Database → Prop) : Prop where
  database : ∀ e t, e.ofDatabase = true → E e t
  fault : ∀ e t, B e → E e t

theorem ToleratesAll.tolerates (hE : ToleratesAll B E) : Tolerates B E :=
  ⟨fun t => hE.database _ t rfl, hE.fault⟩

theorem ToleratesAll.fails (hE : ToleratesAll B E) (ws : List Stmt) (t : Database) :
    Fails (fun e => E e t) (dialect.applyAll ws t) :=
  fails_applyAll (hE.database _ t rfl) (hE.database _ t rfl) (hE.database _ t rfl) ws

theorem ToleratesAll.rejects (hE : ToleratesAll B E) {t : Database} {e : Error}
    (h : dialect.applyAll ws t = .error e ∨ B e) : E e t := by
  rcases h with h | h
  · exact hE.fails ws t e h
  · exact hE.fault e t h

theorem among_execute (hE : ToleratesAll B E) {w : Stmt} {Q : Nat → Database → List Stmt → Prop}
    (h : ∀ t n, V t → s.Keeps t → Q n t (ws ++ [w])) : Among V B E Q (Tx.execute w) s ws :=
  Tx.rely_execute (fun t n ht hst => h t n ht.2 hst) fun _ _ _ _ he => hE.rejects he

theorem among_selectOpen (hE : ToleratesAll B E) {Q : Database → Database → List Stmt → Prop}
    (h : ∀ t u, V t → s.Keeps t → Q u t ws) : Among V B E Q Tx.select s ws :=
  Tx.rely_selectOpen (fun t u ht hst => h t u ht.2 hst) fun _ _ _ _ he => hE.rejects he

theorem among_executeAll (hE : ToleratesAll B E) (ws' : List Stmt) {Q : Unit → Database → List Stmt → Prop}
    (h : ∀ t ws, Q () t ws) : Among V B E Q (executeAll ws') s ws := by
  induction ws' generalizing s ws with
  | nil => exact h s ws
  | cons w ws' ih => exact Tx.rely_bind (among_execute hE fun t n _ _ => ih)

theorem among_anonymizeRenters (renters : List Renter) {Q : List Stmt → Database → List Stmt → Prop}
    (h : ∀ ws', (∀ w ∈ ws', ∃ id set, w = .updateRenter id set) → Q ws' s ws) :
    Among V B E Q (anonymizeRenters renters) s ws := by
  induction renters generalizing Q with
  | nil => exact h [] (by simp)
  | cons r renters ih =>
      refine Tx.rely_bind (Tx.rely_bind (Tx.rely_sample fun d => Tx.rely_bind (ih fun ws' hws' => h _ ?_)))
      intro w hw
      rcases List.mem_cons.mp hw with rfl | hw
      · exact ⟨_, _, rfl⟩
      · exact hws' w hw

theorem among_erase (hE : ToleratesAll B E) {user : User} {now : DateTime}
    {Q : User × List Stmt × ErasureActions → Database → List Stmt → Prop} (h : ∀ r t ws, Q r t ws) :
    Among V B E Q (erase P user now) s ws := by
  unfold erase anonymizeUserRow withdrawAll
  refine Tx.rely_bind (Tx.rely_bind (Tx.rely_bind (Tx.rely_sample fun d₁ => Tx.rely_bind
    (Tx.rely_sample fun d₂ => Tx.rely_bind (Tx.rely_sample fun d₃ => ?_)))))
  refine Tx.rely_bind (among_execute hE fun _ _ _ _ => Tx.rely_bind (among_selectOpen hE fun _ _ _ _ => ?_))
  refine Tx.rely_bind (among_anonymizeRenters _ fun ws' _ => Tx.rely_bind (among_executeAll hE ws' fun _ _ => ?_))
  refine Tx.rely_bind (among_execute hE fun _ _ _ _ => Tx.rely_bind (among_execute hE fun _ _ _ _ => ?_))
  refine Tx.rely_bind (among_execute hE fun _ _ _ _ => Tx.rely_bind (Tx.rely_bind
    (among_selectOpen hE fun _ _ _ _ => Tx.rely_bind (among_now fun t => ?_))))
  exact h _ _ _

theorem among_anonymizeUser (hE : ToleratesAll B E) {m : IdentityMap} {subjectId actorId : Int}
    {correlationId : String} {Q : ErasureResult → Database → List Stmt → Prop}
    (huser : ∃ row, s.users.find? subjectId = some row) (h : ∀ result u, Q result u []) :
    Among V B E Q (anonymizeUser P m subjectId actorId correlationId) s [] := by
  have hE' := hE.tolerates
  unfold anonymizeUser
  refine Tx.rely_bind (among_integerParameter hE' (Tx.rely_bind (Tx.rely_selectForUpdate (fun t _ hst => ?_)
    fun e t he _ => hE.fault e t he)))
  cases hrow : t.users.find? subjectId with
  | none => exact (hst.no_user huser hrow).elim
  | some row =>
      simp only
      split
      · exact Tx.rely_bind (among_recordAuditEvent hE' fun u _ => h _ u)
      · refine Tx.rely_tryCatch (fun e u ws he => Tx.rely_bind (Tx.rely_rollbackAll he)) ?_
        refine Tx.rely_bind (among_now fun now => Tx.rely_bind (among_erase hE fun r u ws => ?_))
        refine Tx.rely_bind (among_now fun now' => Tx.rely_bind (Tx.rely_commitAll (fun _ u _ _ _ => h _ u)
          (fun v e _ _ he => hE.rejects (Or.inl he)) fun e v he _ => hE.fault e v he))

end Rules

end FleetManagement
