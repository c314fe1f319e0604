import FleetManagement.Privacy.Guarding

/-!
# The lifecycle of an account

An account is live until it is erased, and then it is erased for good. Overlapping erasures write entities
that are out of date, but whatever they leave is an erased account.
-/

namespace FleetManagement

variable {P : Platform} {db db' : Database}

/-! ## Live and erased accounts -/

structure User.Live (row : User) : Prop where
  active : row.isActive = true
  unstamped : row.anonymizedAt = none

/-- Nothing of the person is left in the row. -/
structure User.Anonymized (P : Platform) (row : User) : Prop where
  inactive : row.isActive = false
  stamped : row.anonymizedAt.isSome = true
  name : row.fullName = anonymizedName
  phone : row.phone = none
  email : ∃ x, row.email = anonymousEmail x
  password : ∃ token salt, row.hashedPassword = P.hash token salt

/-- Accounts stay, with their role and their age, and are as they were or erased. -/
def Database.Ages (P : Platform) (db db' : Database) : Prop :=
  ∀ u row, db.users.find? u = some row → ∃ row', db'.users.find? u = some row' ∧
    row'.role = row.role ∧ row'.createdAt = row.createdAt ∧ (row' = row ∨ row'.Anonymized P)

theorem Ages.refl (s : Database) : s.Ages P s := fun _ row h => ⟨row, h, rfl, rfl, Or.inl rfl⟩

theorem Ages.trans (s t u : Database) (h : s.Ages P t) (h' : t.Ages P u) : s.Ages P u := by
  intro i row hrow
  obtain ⟨row', hrow', hrole, hage, hsame⟩ := h i row hrow
  obtain ⟨row'', hrow'', hrole', hage', hsame'⟩ := h' i row' hrow'
  refine ⟨row'', hrow'', hrole'.trans hrole, hage'.trans hage, ?_⟩
  rcases hsame' with rfl | herased
  · exact hsame
  · exact Or.inr herased

theorem User.anonymized_of_anonymize (u : User) (d : ErasureDraws) : (d.user P u).Anonymized P :=
  ⟨rfl, rfl, rfl, rfl, ⟨_, rfl⟩, _, _, rfl⟩

/-- An erasure whose entity is out of date: the row has been erased since it was loaded. -/
theorem User.Anonymized.changes {q entity : User} {d : ErasureDraws} (h : q.Anonymized P)
    (hnew : entity.anonymizedAt = none) : ((entity.changes (d.user P entity)).on q).Anonymized P := by
  have hcolumn : ∀ {α : Type} [DecidableEq α] (a b c : α), (dirty a b).getD c = b ∨
      (dirty a b).getD c = c := by
    intro α _ a b c
    unfold dirty
    split
    · exact Or.inr rfl
    · exact Or.inl rfl
  refine ⟨?_, ?_, ?_, ?_, ?_, ?_⟩
  · rcases hcolumn entity.isActive false q.isActive with heq | heq
    · exact heq
    · exact heq.trans h.inactive
  · simp [User.changes, ErasureDraws.user, User.anonymize, UserSet.on, dirty, hnew]
  · rcases hcolumn entity.fullName anonymizedName q.fullName with heq | heq
    · exact heq
    · exact heq.trans h.name
  · rcases hcolumn entity.phone none q.phone with heq | heq
    · exact heq
    · exact heq.trans h.phone
  · rcases hcolumn entity.email (anonymousEmail d.uuid) q.email with heq | heq
    · exact ⟨_, heq⟩
    · exact h.email.imp fun x hx => heq.trans hx
  · rcases hcolumn entity.hashedPassword (P.hash d.token d.salt) q.hashedPassword with heq | heq
    · exact ⟨_, _, heq⟩
    · obtain ⟨token, salt, hq⟩ := h.password
      exact ⟨token, salt, heq.trans hq⟩

/-! ## What a commit does to the accounts -/

inductive LifeCommit (P : Platform) (s : Database) : List Stmt → Prop
  | quiet {ws : List Stmt} (h : ∀ w ∈ ws, w.updatesUser = false) : LifeCommit P s ws
  | erasure {t : Database} {entity : User} {d : ErasureDraws} {renters : List Renter}
      {consents : List UserConsent} {actorId : Int} {correlationId : String} (ht : t.Ages P s)
      (hrow : t.users.find? entity.id = some entity) (hnew : entity.anonymizedAt = none) :
      LifeCommit P s (erasureFlush P entity d renters consents actorId correlationId)

theorem lifeCommit_rules : ErasureRules P (Database.Ages P) (LifeCommit P) where
  refl := Ages.refl
  trans := Ages.trans
  quiet _ _ h := .quiet h
  erasure _ _ _ _ _ _ _ _ ht hrow hnew := .erasure ht hrow hnew

/-- Every account is live or erased. -/
def Database.Aged (P : Platform) (db : Database) : Prop :=
  ∀ row ∈ db.users.rows, row.Live ∨ row.Anonymized P

/-- The row that an erasure leaves. -/
theorem anonymized_of_erasure {t : Database} {entity q : User} {d : ErasureDraws} (ht : t.Ages P db)
    (hrow : t.users.find? entity.id = some entity) (hnew : entity.anonymizedAt = none)
    (hq : db.users.find? entity.id = some q) :
    ((entity.changes (d.user P entity)).on q).Anonymized P := by
  obtain ⟨q', hq', -, -, rfl | herased⟩ := ht entity.id entity hrow
  · obtain rfl := Option.some.inj (hq.symm.trans hq')
    have hon := User.on_changes_anonymize q (anonymousEmail d.uuid) (P.hash d.token d.salt) d.erasedAt
    exact hon ▸ User.anonymized_of_anonymize q d
  · obtain rfl := Option.some.inj (hq.symm.trans hq')
    exact herased.changes hnew

theorem LifeCommit.ages {ws : List Stmt} (h : LifeCommit P db ws)
    (happ : dialect.applyAll ws db = .ok db') : db.Ages P db' := by
  cases h with
  | quiet hws => exact fun u row hrow => ⟨row, find?_user_of_applyAll hws happ hrow, rfl, rfl, Or.inl rfl⟩
  | @erasure t entity d renters consents actorId correlationId ht hrow hnew =>
      obtain ⟨⟨q, hq⟩, consentHistory, hseq, -, rfl⟩ := erasureFlush_ok happ
      intro u row hu
      by_cases hid : u = entity.id
      · subst hid
        obtain rfl := Option.some.inj (hq.symm.trans hu)
        have hself : (db.users.update entity.id (entity.changes (d.user P entity)).on
            (UserSet.key_on _)).find? entity.id = some ((entity.changes (d.user P entity)).on q) :=
          Table.find?_update_self hq
        exact ⟨_, hself, rfl, rfl, Or.inr (anonymized_of_erasure ht hrow hnew hq)⟩
      · have hother : (db.users.update entity.id (entity.changes (d.user P entity)).on
            (UserSet.key_on _)).find? u = some row := (Table.find?_update_of_ne hid).trans hu
        exact ⟨row, hother, rfl, rfl, Or.inl rfl⟩

/-- A statement that updates no user leaves the accounts, or adds one. -/
theorem mem_users_of_apply {w : Stmt} (hw : w.updatesUser = false) (h : dialect.apply w db = .ok db')
    {row : User} (hrow : row ∈ db'.users.rows) :
    row ∈ db.users.rows ∨ ∃ new id, w = .insertUser new ∧ row = { new with id } := by
  cases hwrites : w.writesUsers with
  | false =>
      rw [users_of_apply hwrites h] at hrow
      exact Or.inl hrow
  | true =>
      cases w with
      | insertUser new =>
          obtain ⟨-, hseq, rfl⟩ := insertUser_ok.mp h
          rcases List.mem_append.mp hrow with hrow | hrow
          · exact Or.inl hrow
          · exact Or.inr ⟨new, _, rfl, List.mem_singleton.mp hrow⟩
      | updateUser => cases hw
      | _ => cases hwrites

theorem aged_of_quiet {r : ApiRequest} {s : Database} {ws : List Stmt}
    (hws : ∀ w ∈ ws, w.updatesUser = false) (hperm : ∀ w ∈ ws, Permits r s w) (h : db.Aged P)
    (happ : dialect.applyAll ws db = .ok db') : db'.Aged P := by
  induction ws generalizing db with
  | nil => cases happ; exact h
  | cons w ws ih =>
      obtain ⟨db₁, h₁, happ⟩ := dialect.applyAll_cons_ok.mp happ
      refine ih (fun w hw => hws w (List.mem_cons_of_mem _ hw))
        (fun w hw => hperm w (List.mem_cons_of_mem _ hw)) (fun row hrow => ?_) happ
      rcases mem_users_of_apply (hws w List.mem_cons_self) h₁ hrow with hold | ⟨new, id, rfl, rfl⟩
      · exact h row hold
      · obtain ⟨⟨hactive, hunstamped⟩, -⟩ := hperm _ List.mem_cons_self
        exact Or.inl ⟨hactive, hunstamped⟩

theorem LifeCommit.aged {r : ApiRequest} {ws : List Stmt} (h : LifeCommit P db ws)
    (hperm : ∀ w ∈ ws, Permits r db w) (haged : db.Aged P)
    (happ : dialect.applyAll ws db = .ok db') : db'.Aged P := by
  cases h with
  | quiet hws => exact aged_of_quiet hws hperm haged happ
  | @erasure t entity d renters consents actorId correlationId ht hrow hnew =>
      obtain ⟨⟨q, hq⟩, consentHistory, hseq, -, rfl⟩ := erasureFlush_ok happ
      have hrows : ∀ row ∈ (db.users.update entity.id (entity.changes (d.user P entity)).on
          (UserSet.key_on _)).rows, row.Live ∨ row.Anonymized P :=
        Table.forall_mem_update (UserSet.key_on _) (fun row hmem _ => haged row hmem) fun r hr =>
          Or.inr (anonymized_of_erasure ht hrow hnew hr)
      exact hrows

/-! ## Runs of the API -/

section Runs
variable {ι : Type} [DecidableEq ι] {requests : ι → ApiRequest} {p q : ApiPool ι}
  {a : ι × Choice Draw Error} {u : Int}

/-- A token is accepted exactly while its account is live. -/
theorem getCurrentUser_iff_live (h : db.Aged P) {draws : Nat → Draw} {n : Nat} {row : User} :
    ((getCurrentUser (some u)).eval dialect (Tx.calmly draws) ⟨db, [], n⟩).1 = .ok row ↔
      db.users.find? u = some row ∧ row.Live := by
  cases hrow : db.users.find? u with
  | none =>
      have hnot : ∀ x, ((getCurrentUser (some u)).eval dialect (Tx.calmly draws) ⟨db, [], n⟩).1 ≠ .ok x := by
        intro x hx
        unfold getCurrentUser at hx
        rcases eval_get_cases db draws n Database.users u with heval | heval
        · simp only [Tx.eval_bind_error heval] at hx
          cases hx
        · simp only [Tx.eval_bind_ok heval, hrow] at hx
          cases hx
      exact ⟨fun hx => absurd hx (hnot row), fun hx => by cases hx.1⟩
  | some r =>
      unfold getCurrentUser
      simp only [eval_get (Nat.le_refl _) hrow]
      rcases h r (Table.mem_of_find? hrow) with hlive | herased
      · simp only [hlive.active, if_true, Tx.pure_eq, Tx.eval_ret, Except.ok.injEq, Option.some.injEq]
        constructor
        · rintro rfl
          exact ⟨rfl, hlive⟩
        · exact fun hx => hx.1
      · simp only [herased.inactive, Bool.false_eq_true, if_false]
        constructor
        · intro hx
          cases hx
        · rintro ⟨hr, hlive⟩
          cases hr
          exact absurd (hlive.active.symm.trans herased.inactive) nofun

structure LifeInv (P : Platform) (requests : ι → ApiRequest) (p : ApiPool ι) : Prop where
  permitted : CommitsPermitted requests p
  commits : p.AllMeet dialect (fun _ => True) (Database.Ages P) fun _ => LifeCommit P
  aged : p.store.Aged P

theorem LifeInv.ages (h : LifeInv P requests p) : p.store.Ages P (p.step dialect a).store := by
  cases hpub : p.publishes dialect a with
  | none =>
      rw [(Pool.step_of_silent hpub).1]
      exact Ages.refl _
  | some ws =>
      obtain ⟨s, hs, hst, -⟩ := Pool.step_of_publishes hpub
      rw [hst]
      exact (h.commits.publishes Ages.refl trivial hpub).ages hs

theorem LifeInv.step (h : LifeInv P requests p) : LifeInv P requests (p.step dialect a) where
  permitted := h.permitted.step
  commits := Pool.AllMeet.step Ages.refl Ages.trans trivial h.commits h.ages
  aged := by
    cases hpub : p.publishes dialect a with
    | none =>
        rw [(Pool.step_of_silent hpub).1]
        exact h.aged
    | some ws =>
        obtain ⟨s, hs, hst, -⟩ := Pool.step_of_publishes hpub
        rw [hst]
        exact (h.commits.publishes Ages.refl trivial hpub).aged
          (h.permitted.publishes KeepsOwners.refl trivial hpub) h.aged hs

/-- In every run, whatever the interleaving of the requests: an account keeps its role and its age, and is
as it was or erased of all that identifies the person; it is never both live and erased, nor neither; and a
token gives its account exactly while that is live. -/
theorem account_lifecycle (hdb : db.Aged P) (requests : ι → ApiRequest)
    (schedule : List (ι × Choice Draw Error))
    (h : Runs.VisitsThen (Pool.step dialect) (apiRequests P db requests) schedule p q) :
    p.store.Ages P q.store ∧ q.store.Aged P ∧ ∀ u row draws n,
      ((getCurrentUser (some u)).eval dialect (Tx.calmly draws) ⟨q.store, [], n⟩).1 = .ok row ↔
        q.store.users.find? u = some row ∧ row.Live := by
  have hinit : LifeInv P requests (apiRequests P db requests) :=
    ⟨fun i => handler_authorized _, fun i => handler_erasures lifeCommit_rules _, hdb⟩
  let R := fun p q : ApiPool ι => p.store.Ages P q.store
  have hages : R p q :=
    Runs.relation_of_guarded (R := R) (fun _ => Ages.refl _) (fun _ _ _ => Ages.trans _ _ _)
      (fun _ _ h (_ : True) => LifeInv.step h) (fun _ _ h _ => LifeInv.ages h) hinit
      (fun _ _ _ => trivial) p q h
  have hq : LifeInv P requests q := by
    obtain ⟨bs, cs, hpre, rfl, rfl⟩ := h
    exact Runs.invariant_of_step (fun _ _ h => LifeInv.step h) hinit _
      ⟨bs ++ cs, hpre, Runs.run_append _ _ _⟩
  exact ⟨hages, hq.aged, fun u row draws n => getCurrentUser_iff_live hq.aged⟩

end Runs

/-! ## Two overlapping erasures -/

theorem clientele_lifecycle :
    let p := Runs.run (Pool.step dialect) (apiRequests plainPlatform clientele lateRequests) untilErasure
    let q := Runs.run (Pool.step dialect) p ((0, stepAt 4) :: afterErasure)
    p.store.Ages plainPlatform q.store ∧ q.store.Aged plainPlatform ∧ ∀ u row draws n,
      ((getCurrentUser (some u)).eval dialect (Tx.calmly draws) ⟨q.store, [], n⟩).1 = .ok row ↔
        q.store.users.find? u = some row ∧ row.Live := by
  have haged : clientele.Aged plainPlatform := by
    intro row hrow
    obtain rfl := List.mem_singleton.mp (show row ∈ [_] from hrow)
    exact Or.inl ⟨rfl, rfl⟩
  exact account_lifecycle haged lateRequests (untilErasure ++ ((0, stepAt 4) :: afterErasure))
    ⟨untilErasure, (0, stepAt 4) :: afterErasure, List.prefix_refl _, rfl, rfl⟩

end FleetManagement
