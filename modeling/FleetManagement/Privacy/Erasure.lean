import FleetManagement.Lemmas.Services
import FleetManagement.Privacy.Flush

/-!
# The right to erasure

`anonymize_user` is all or nothing, and it touches nothing but the data of its subject.
-/

namespace FleetManagement

open Keyed (key maxKey)

variable {G : Draw → Prop} {P : Platform} {s : Database} {ws : List Stmt}

/-! ## The loops of an erasure -/

/-- The UUID of one renter does not change the rows of the others. -/
theorem renterUpdates_cons {r : Renter} {renters : List Renter} (license : Int → UuidHex) (x : UuidHex)
    (hr : r.id ∉ renters.map Renter.id) :
    renterUpdates (Function.update license r.id x) (r :: renters) =
      .updateRenter r.id (r.changes (r.anonymize (anonymousLicense x))) ::
        renterUpdates license renters := by
  have hrest : renterUpdates (Function.update license r.id x) renters =
      renterUpdates license renters := by
    refine List.map_congr_left fun q hq => ?_
    have hne : q.id ≠ r.id := fun heq => hr (heq ▸ List.mem_map_of_mem hq)
    rw [Function.update_of_ne hne]
  rw [renterUpdates, List.map_cons, Function.update_self, ← renterUpdates, hrest]

theorem wp_anonymizeRenters {renters : List Renter} (hnd : (renters.map Renter.id).Nodup)
    {Q : Except Error (List Stmt) → Database → List Stmt → Prop}
    (h : ∀ license, Q (.ok (renterUpdates license renters)) s ws) :
    Tx.Wp dialect G Q (anonymizeRenters renters) s ws := by
  induction renters generalizing Q with
  | nil => exact h fun _ => zeroUuid
  | cons r renters ih =>
      rw [List.map_cons, List.nodup_cons] at hnd
      refine Tx.wp_bind (Tx.wp_bind (Tx.wp_sample fun d _ => ?_))
      refine Tx.wp_bind (ih hnd.2 fun license => ?_)
      have hlist := h (Function.update license r.id d.uuid)
      rw [renterUpdates_cons license d.uuid hnd.1] at hlist
      exact hlist

theorem wp_executeAll {l : List Stmt} {u : Database} (hs : dialect.applyAll ws s = .ok u)
    {Q : Except Error Unit → Database → List Stmt → Prop}
    (hok : ∀ v, dialect.applyAll l u = .ok v → dialect.applyAll (ws ++ l) s = .ok v →
      Q (.ok ()) s (ws ++ l))
    (herr : ∀ e ws', Q (.error e) s ws') : Tx.Wp dialect G Q (executeAll l) s ws := by
  induction l generalizing ws u with
  | nil =>
      have hnil := hok u rfl (by rw [List.append_nil]; exact hs)
      rw [List.append_nil] at hnil
      exact hnil
  | cons w l ih =>
      refine Tx.wp_bind (Tx.wp_execute hs (fun v hv hws => ?_) fun e => herr e _)
      refine ih hws fun v' hl hall => ?_
      rw [List.append_assoc, List.singleton_append] at hall ⊢
      exact hok v' (dialect.applyAll_cons_ok.mpr ⟨v, hv, hl⟩) hall

theorem nodup_rentersOf (db : Database) (userId : Int) : ((db.rentersOf userId).map Renter.id).Nodup :=
  db.renters.nodup_keys.sublist (List.filter_sublist.map _)

/-! ## The counts of an erasure -/

def Database.toErase (db : Database) (userId : Int) : ErasureActions where
  rentersAnonymized := (db.rentersOf userId).length
  activityDeleted := db.userActivity.count (·.userId = userId)
  marketingMessagesDeleted := db.marketingMessages.count (·.userId = userId)
  analyticsEventsDeleted := db.analyticsEvents.count (·.userId = userId)
  consentsWithdrawn := (db.grantedConsents userId).length

/-- The random values of an erasure were drawn under the assumption `G`. -/
structure ErasureDraws.From (d : ErasureDraws) (G : Draw → Prop) : Prop where
  uuid : ∃ x, G x ∧ x.uuid = d.uuid
  token : ∃ x, G x ∧ x.token = d.token

theorem wp_erase {u : User} {t : DateTime}
    {Q : Except Error (User × List Stmt × ErasureActions) → Database → List Stmt → Prop}
    (hok : ∀ d : ErasureDraws, d.From G →
      Q (.ok (d.user P u, withdrawFlush (s.grantedConsents u.id) u.id "erasure" d.withdrawnAt,
        s.toErase u.id)) s (eraseStatements P u d (s.rentersOf u.id)))
    (herr : ∀ e ws', Q (.error e) s ws') : Tx.Wp dialect G Q (erase P u t) s [] := by
  unfold erase anonymizeUserRow
  refine Tx.wp_bind (Tx.wp_bind (Tx.wp_bind (Tx.wp_sample fun x hx => ?_)))
  refine Tx.wp_bind (Tx.wp_sample fun y hy => Tx.wp_bind (Tx.wp_sample fun z _ => ?_))
  refine Tx.wp_bind (Tx.wp_execute rfl (fun v hv hws => ?_) fun e => herr e _)
  obtain ⟨-, -, rfl⟩ := updateUser_ok.mp hv
  refine Tx.wp_bind (Tx.wp_select hws ?_ fun e => herr e _)
  refine Tx.wp_bind (wp_anonymizeRenters (nodup_rentersOf _ _) fun license => ?_)
  refine Tx.wp_bind (wp_executeAll hws (fun v hv hws => ?_) herr)
  rw [renterUpdates_ok hv] at hws
  refine Tx.wp_bind (Tx.wp_execute hws (fun v hv hws => ?_) fun e => herr e _)
  cases hv
  refine Tx.wp_bind (Tx.wp_execute hws (fun v hv hws => ?_) fun e => herr e _)
  cases hv
  refine Tx.wp_bind (Tx.wp_execute hws (fun v hv hws => ?_) fun e => herr e _)
  cases hv
  unfold withdrawAll
  refine Tx.wp_bind (Tx.wp_bind (Tx.wp_select hws ?_ fun e => herr e _))
  refine Tx.wp_bind (wp_now fun t' => ?_)
  have hlist := hok ⟨x.uuid, y.token, z.salt, license, t, t', 0⟩ ⟨⟨x, hx, rfl⟩, ⟨y, hy, rfl⟩⟩
  show Q _ s _
  simp only [List.nil_append, List.append_assoc, List.singleton_append]
  exact hlist

/-! ## The whole function -/

/-- In a session whose entities are up to date, `anonymize_user` finds nobody, or finds an erased
account and reports so, or erases. -/
theorem wp_anonymizeUser {m : IdentityMap} {subjectId actorId : Int} {correlationId : String}
    {Q : Except Error ErasureResult → Database → List Stmt → Prop}
    (hm : ∀ row, s.users.find? subjectId = some row → m.entity row = row)
    (hsame : ∀ u t s', s.users.find? subjectId = some u → u.anonymizedAt.isSome = true →
      Audited s (auditEvent "user_anonymize" (some actorId) (some u.id) "already_anonymized"
        correlationId t) s' → Q (.ok ⟨u, .alreadyAnonymized, none⟩) s' [])
    (hok : ∀ u (d : ErasureDraws) s', s.users.find? subjectId = some u → u.anonymizedAt = none →
      d.From G → Erased P s u d (erasureEvent u actorId correlationId d.auditedAt) s' →
      Q (.ok ⟨d.user P u, .anonymized, some (s.toErase u.id)⟩) s' [])
    (herr : ∀ e, Q (.error e) s []) :
    Tx.Wp dialect G Q (anonymizeUser P m subjectId actorId correlationId) s [] := by
  unfold anonymizeUser
  refine Tx.wp_bind (wp_integerParameter (Tx.wp_bind (Tx.wp_selectForUpdate rfl ?_ herr)) herr)
  simp only
  cases hu : s.users.find? subjectId with
  | none => exact herr _
  | some u =>
      have hid : u.id = subjectId := Table.key_of_find? hu
      simp only [hm u hu]
      split
      · rename_i herased
        exact Tx.wp_bind (wp_recordAuditEvent (fun t s' h => hsame u t s' hu herased h) herr)
      · rename_i hnew
        refine Tx.wp_tryCatch (Tx.wp_bind (wp_now fun t => Tx.wp_bind (wp_erase (fun d hd => ?_) ?_)))
        · refine Tx.wp_bind (wp_now fun t' => Tx.wp_bind (Tx.wp_commitAll (fun s' hs' => ?_) herr))
          have hd' : ErasureDraws.From { d with auditedAt := t' } G := ⟨hd.uuid, hd.token⟩
          exact hok u { d with auditedAt := t' } s' hu (Option.not_isSome_iff_eq_none.mp hnew) hd'
            (erased_of_flush (hid ▸ hu) hs')
        · exact fun e ws' => Tx.wp_bind (Tx.wp_rollbackAll (herr e))

/-! ## All or nothing -/

/-- Random values that are new: no account has the address made of the UUID, and no salt makes the
token a password of `u`. -/
structure Fresh (P : Platform) (db : Database) (u : User) (x : Draw) : Prop where
  uuid : ∀ v ∈ db.users.rows, v.email ≠ anonymousEmail x.uuid
  token : ∀ salt, P.hash x.token salt ≠ u.hashedPassword

/-- The account `v` holds nothing of what identified `u`. -/
structure Anonymized (u v : User) : Prop where
  email : v.email ≠ u.email
  fullName : v.fullName = anonymizedName
  phone : v.phone = none
  hashedPassword : v.hashedPassword ≠ u.hashedPassword
  inactive : v.isActive = false
  anonymizedAt : v.anonymizedAt.isSome = true

theorem ErasureDraws.From.anonymized {db : Database} {u : User} {d : ErasureDraws}
    (hu : u ∈ db.users.rows) (hd : d.From (Fresh P db u)) : Anonymized u (d.user P u) := by
  obtain ⟨x, hx, hxd⟩ := hd.uuid
  obtain ⟨y, hy, hyd⟩ := hd.token
  exact
    { email := fun heq => hx.uuid u hu (by rw [hxd]; exact heq.symm)
      fullName := rfl
      phone := rfl
      hashedPassword := fun heq => hy.token d.salt (by rw [hyd]; exact heq)
      inactive := rfl
      anonymizedAt := rfl }

def Erases (P : Platform) (db : Database) (u : User) (actorId : Int) (correlationId : String)
    (r : ErasureResult) (db' : Database) : Prop :=
  ∃ d : ErasureDraws, Erased P db u d (erasureEvent u actorId correlationId d.auditedAt) db' ∧
    r = ⟨d.user P u, .anonymized, some (db.toErase u.id)⟩ ∧
    db'.users.find? u.id = some (d.user P u) ∧ Anonymized u (d.user P u)

/-- An execution that erases `u` and touches nothing else, or raises and leaves `db` as it was. -/
def AllOrNothing (P : Platform) (db : Database) (u : User) (actorId : Int) (correlationId : String) :
    Except Error ErasureResult × Session Database Stmt → Prop
  | (.ok r, c) => Erases P db u actorId correlationId r c.store
  | (.error _, c) => c.store = db

/-- `anonymize_user` is all or nothing, whichever of its steps fail. -/
theorem anonymizeUser_all_or_nothing {db : Database} {u : User} {m : IdentityMap} {actorId : Int}
    {correlationId : String} {env : Nat → Choice Draw Error} (hu : db.users.find? u.id = some u)
    (hnew : u.anonymizedAt = none) (hm : m.entity u = u) (hfresh : ∀ n, Fresh P db u (env n).draw) :
    AllOrNothing P db u actorId correlationId
      ((anonymizeUser P m u.id actorId correlationId).eval dialect env ⟨db, [], 0⟩) := by
  have hwp : Tx.Wp dialect (Fresh P db u) (fun r db' _ => match r with
      | .ok r => Erases P db u actorId correlationId r db'
      | .error _ => db' = db) (anonymizeUser P m u.id actorId correlationId) db [] := by
    refine wp_anonymizeUser (fun row hrow => ?_) ?_ ?_ fun e => rfl
    · obtain rfl := Option.some.inj (hu.symm.trans hrow)
      exact hm
    · intro v t s' hv herased
      obtain rfl := Option.some.inj (hu.symm.trans hv)
      rw [hnew] at herased; cases herased
    · intro v d s' hv _ hd herased
      obtain rfl := Option.some.inj (hu.symm.trans hv)
      refine ⟨d, herased, rfl, ?_, hd.anonymized (Table.mem_of_find? hu)⟩
      rw [herased.users, Table.find?_update_self hu]
      rfl
  have hsound := Tx.wp_sound hfresh 0 hwp
  revert hsound
  cases (anonymizeUser P m u.id actorId correlationId).eval dialect env ⟨db, [], 0⟩ with
  | mk r c => cases r <;> exact id

/-! ## A subject whose name is the placeholder -/

/-- An account whose holder registered under the name that erasure writes. -/
def namesake : User :=
  { id := 1, email := "ivan@example.com", hashedPassword := "secret123$salt",
    fullName := "Anonymized User", role := .user, phone := none, isActive := true, createdAt := 0, anonymizedAt := none }

def neighbour : User :=
  { id := 2, email := "oleh@example.com", hashedPassword := "secret456$salt",
    fullName := "Oleh Melnyk", role := .user, phone := some "+380501112233", isActive := true, createdAt := 0,
    anonymizedAt := none }

/-- The two accounts, each with rows in every table that an erasure touches. -/
def namesakes : Database :=
  .seeded ([.insertUser namesake, .insertUser neighbour] ++ [1, 2].flatMap fun userId =>
    [.insertRenter ⟨0, "Anonymized User", "BX-" ++ userId.repr, some userId⟩,
      .insertUserActivity ⟨0, userId, "login", 10, none, some "curl"⟩,
      .insertUserConsent (newConsent userId .marketingEmail "2026-01" "web" 20),
      .insertMarketingMessage (newMessage userId "spring" 30),
      .insertAnalyticsEvent ⟨0, userId, "map_opened", 40⟩])

theorem namesakes_rows : namesakes.users.rows = [namesake, neighbour] := by decide

theorem namesake_fresh (t : DateTime) : Fresh plainPlatform namesakes namesake (stepAt t).draw where
  uuid := by simp [namesakes_rows, namesake, neighbour, stepAt, anonymousEmail, zeroUuid]
  token salt h := by
    have hhead := congrArg (fun x => x.toList.head?) h
    simp [plainPlatform, namesake, stepAt] at hhead

theorem namesake_keeps_name :
    ((anonymizeUser plainPlatform [namesake] 1 1 "c").eval dialect (fun n => stepAt n)
      ⟨namesakes, [], 0⟩).1.isOk = true ∧
    ¬ ∀ v, ((anonymizeUser plainPlatform [namesake] 1 1 "c").eval dialect (fun n => stepAt n)
      ⟨namesakes, [], 0⟩).2.store.users.find? 1 = some v → v.fullName ≠ namesake.fullName :=
  ⟨by decide +kernel, fun h => h _ rfl rfl⟩

theorem namesake_all_or_nothing :
    AllOrNothing plainPlatform namesakes namesake 1 "c"
      ((anonymizeUser plainPlatform [namesake] namesake.id 1 "c").eval dialect (fun n => stepAt n)
        ⟨namesakes, [], 0⟩) := by
  refine anonymizeUser_all_or_nothing ?_ ?_ ?_ ?_
  · decide
  · rfl
  · decide
  · exact fun n => namesake_fresh n

end FleetManagement
