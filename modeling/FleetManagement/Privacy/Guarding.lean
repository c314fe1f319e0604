import FleetManagement.Privacy.Authority

/-!
# Guarded data and admins

What the permissions of the statements come to in the runs of the API: nobody but a user and the admins
changes what belongs to the user, and nobody but an admin or the operator makes an admin.
-/

namespace FleetManagement

variable {P : Platform} {db db' : Database}

/-! ## What belongs to a user -/

/-- The rows that belong to one user, other than the rentals, which the open fleet routes write. -/
structure PersonalData where
  account : Option User
  renters : List Renter
  consents : List UserConsent
  consentHistory : List ConsentHistory
  activity : List UserActivity
  marketingMessages : List MarketingMessage
  analyticsEvents : List AnalyticsEvent
  deriving DecidableEq

def Database.personalData (db : Database) (u : Int) : PersonalData where
  account := db.users.find? u
  renters := db.rentersOf u
  consents := db.userConsents.rows.filter fun c => c.userId = u
  consentHistory := db.consentHistory.rows.filter fun h => h.userId = u
  activity := db.userActivity.rows.filter fun a => a.userId = u
  marketingMessages := db.marketingMessages.rows.filter fun m => m.userId = u
  analyticsEvents := db.analyticsEvents.rows.filter fun e => e.userId = u

/-- What `r` may do to the data of `u` between the two states: anything with a token of `u` or of an admin,
or where there was no such account; else a login adds to the activity, and nothing else happens. -/
def Guarded (r : ApiRequest) (u : Int) (db db' : Database) : Prop :=
  db.MayActFor r.token? u ∨ db.users.find? u = none ∨ ∃ added, (added ≠ [] → r.isLogin = true) ∧
    db'.personalData u = { db.personalData u with activity := (db.personalData u).activity ++ added }

section Guarded
variable {s : Database} {r : ApiRequest} {u : Int}

/-- A statement that is permitted, but not to one who may act for `u`. -/
theorem personalData_of_apply {w : Stmt} (hs : s.KeepsOwners db) (hmay : ¬ s.MayActFor r.token? u)
    {row : User} (hrow : db.users.find? u = some row) (hperm : Permits r s w)
    (h : dialect.apply w db = .ok db') : ∃ added, (added ≠ [] → r.isLogin = true) ∧
      db'.personalData u = { db.personalData u with activity := (db.personalData u).activity ++ added } := by
  have same : db'.personalData u = db.personalData u → ∃ added, (added ≠ [] → r.isLogin = true) ∧
      db'.personalData u = { db.personalData u with activity := (db.personalData u).activity ++ added } := by
    intro heq
    exact ⟨[], fun hne => absurd rfl hne, by rw [heq, List.append_nil]⟩
  have hne : ∀ {v}, s.MayActFor r.token? v → v ≠ u := by
    rintro v hv rfl
    exact hmay hv
  cases w with
  | insertStation => obtain ⟨-, hseq, rfl⟩ := insertStation_ok.mp h; exact same rfl
  | insertVehicle => obtain ⟨-, hseq, rfl⟩ := insertVehicle_ok.mp h; exact same rfl
  | insertRental => obtain ⟨-, hseq, rfl⟩ := insertRental_ok.mp h; exact same rfl
  | insertAuditEvent => obtain ⟨-, hseq, rfl⟩ := insertAuditEvent_ok.mp h; exact same rfl
  | updateVehicle => obtain ⟨-, -, rfl⟩ := updateVehicle_ok.mp h; exact same rfl
  | updateRental => obtain ⟨-, -, rfl⟩ := updateRental_ok.mp h; exact same rfl
  | insertRenter new =>
      obtain ⟨-, hseq, rfl⟩ := insertRenter_ok.mp h
      have hother : new.userId ≠ some u := by
        rcases hperm with ⟨hnone, -⟩ | ⟨v, huser, hv⟩
        · simp [hnone]
        · simpa [huser] using hne hv
      refine same ?_
      simp [Database.personalData, Database.rentersOf, hother]
  | insertUser =>
      obtain ⟨-, hseq, rfl⟩ := insertUser_ok.mp h
      refine same ?_
      simp [Database.personalData, Database.rentersOf, Table.find?_insert_of_some, hrow]
  | insertUserConsent new =>
      obtain ⟨-, hseq, rfl⟩ := insertUserConsent_ok.mp h
      refine same ?_
      simp [Database.personalData, Database.rentersOf, hne hperm]
  | insertConsentHistory new =>
      obtain ⟨-, hseq, rfl⟩ := insertConsentHistory_ok.mp h
      refine same ?_
      simp [Database.personalData, Database.rentersOf, hne hperm]
  | insertMarketingMessage new =>
      obtain ⟨-, hseq, rfl⟩ := insertMarketingMessage_ok.mp h
      refine same ?_
      simp [Database.personalData, Database.rentersOf, hne hperm]
  | insertAnalyticsEvent new =>
      obtain ⟨-, hseq, rfl⟩ := insertAnalyticsEvent_ok.mp h
      refine same ?_
      simp [Database.personalData, Database.rentersOf, hne hperm]
  | insertUserActivity new =>
      obtain ⟨-, hseq, rfl⟩ := insertUserActivity_ok.mp h
      refine ⟨if new.userId = u then [{ new with id := db.userActivity.seq + 1 }] else [],
        fun _ => hperm, ?_⟩
      simp [Database.personalData, Database.rentersOf, List.filter_cons]
  | updateUser id set =>
      obtain ⟨-, -, rfl⟩ := updateUser_ok.mp h
      refine same ?_
      simp [Database.personalData, Database.rentersOf, Table.find?_update_of_ne (hne hperm).symm]
  | updateRenter id set =>
      obtain ⟨-, -, rfl⟩ := updateRenter_ok.mp h
      obtain ⟨q, v, hq, huser, hv⟩ := hperm
      obtain ⟨q', hq', howner⟩ := hs.renters id q hq
      refine same ?_
      have hrenters : ((db.renters.update id set.on set.key_on).rows.filter fun q => q.userId = some u) =
          db.renters.rows.filter fun q => q.userId = some u := by
        refine Table.filter_update_of_not set.key_on (fun _ => rfl) fun q'' hq'' => ?_
        obtain rfl := Option.some.inj (hq'.symm.trans hq'')
        simp [howner, huser, hne hv]
      simp only [Database.personalData, Database.rentersOf, Database.withRenters, hrenters]
  | updateUserConsent id set =>
      obtain ⟨-, -, rfl⟩ := updateUserConsent_ok.mp h
      obtain ⟨q, hq, hv⟩ := hperm
      obtain ⟨q', hq', howner⟩ := hs.consents id q hq
      refine same ?_
      have hconsents : ((db.userConsents.update id set.on set.key_on).rows.filter fun c => c.userId = u) =
          db.userConsents.rows.filter fun c => c.userId = u := by
        refine Table.filter_update_of_not set.key_on (fun _ => rfl) fun q'' hq'' => ?_
        obtain rfl := Option.some.inj (hq'.symm.trans hq'')
        simp [howner, hne hv]
      simp only [Database.personalData, Database.rentersOf, Database.withUserConsents, hconsents]
  | updateMarketingMessage => exact absurd (Or.inr hperm) hmay
  | deleteUserActivity v =>
      cases h
      refine same ?_
      have hactivity : (db.userActivity.deleteWhere (·.userId = v)).rows.filter (fun a => a.userId = u) =
          db.userActivity.rows.filter fun a => a.userId = u :=
        Table.filter_deleteWhere_of_ne (hne hperm)
      simp only [Database.personalData, Database.rentersOf, Database.withUserActivity, hactivity]
  | deleteMarketingMessages v =>
      cases h
      refine same ?_
      have hmessages : (db.marketingMessages.deleteWhere (·.userId = v)).rows.filter (fun m => m.userId = u) =
          db.marketingMessages.rows.filter fun m => m.userId = u :=
        Table.filter_deleteWhere_of_ne (hne hperm)
      simp only [Database.personalData, Database.rentersOf, Database.withMarketingMessages, hmessages]
  | deleteAnalyticsEvents v =>
      cases h
      refine same ?_
      have hevents : (db.analyticsEvents.deleteWhere (·.userId = v)).rows.filter (fun e => e.userId = u) =
          db.analyticsEvents.rows.filter fun e => e.userId = u :=
        Table.filter_deleteWhere_of_ne (hne hperm)
      simp only [Database.personalData, Database.rentersOf, Database.withAnalyticsEvents, hevents]

theorem personalData_of_applyAll {ws : List Stmt} (hs : s.KeepsOwners db)
    (hmay : ¬ s.MayActFor r.token? u) {row : User} (hrow : db.users.find? u = some row)
    (hperm : ∀ w ∈ ws, Permits r s w) (h : dialect.applyAll ws db = .ok db') :
    ∃ added, (added ≠ [] → r.isLogin = true) ∧
      db'.personalData u = { db.personalData u with activity := (db.personalData u).activity ++ added } := by
  induction ws generalizing db row with
  | nil =>
      cases h
      exact ⟨[], fun hne => absurd rfl hne, by rw [List.append_nil]⟩
  | cons w ws ih =>
      obtain ⟨db₁, h₁, h⟩ := dialect.applyAll_cons_ok.mp h
      obtain ⟨added, hlogin, hdata⟩ := personalData_of_apply hs hmay hrow (hperm w List.mem_cons_self) h₁
      have hkeep := keepsOwners_of_apply h₁
      obtain ⟨row', hrow', -⟩ := hkeep.users u row hrow
      obtain ⟨added', hlogin', hdata'⟩ := ih (KeepsOwners.trans _ _ _ hs hkeep) hrow'
        (fun w hw => hperm w (List.mem_cons_of_mem _ hw)) h
      refine ⟨added ++ added', fun hne => ?_, by rw [hdata', hdata, List.append_assoc]⟩
      by_cases hnil : added = []
      · exact hlogin' fun hnil' => hne (by rw [hnil, hnil', List.append_nil])
      · exact hlogin hnil

theorem guarded_of_applyAll {ws : List Stmt} (hperm : ∀ w ∈ ws, Permits r db w)
    (h : dialect.applyAll ws db = .ok db') : Guarded r u db db' := by
  by_cases hmay : db.MayActFor r.token? u
  · exact Or.inl hmay
  · cases hrow : db.users.find? u with
    | none => exact Or.inr (Or.inl hrow)
    | some row => exact Or.inr (Or.inr (personalData_of_applyAll (KeepsOwners.refl db) hmay hrow hperm h))

end Guarded

/-! ## Where admins come from -/

section Admins
variable {s : Database} {r : ApiRequest} {u : Int}

/-- A statement that leaves the admins as they are, or adds the next account as one. -/
theorem hasAdmin_of_apply {w : Stmt} (h : dialect.apply w db = .ok db') (hu : db'.HasAdmin u) :
    db.HasAdmin u ∨ ∃ row, w = .insertUser row ∧ row.role = .admin ∧ u = db.users.seq + 1 := by
  cases hwrites : w.writesUsers with
  | false =>
      unfold Database.HasAdmin at hu
      rw [users_of_apply hwrites h] at hu
      exact Or.inl hu
  | true =>
      obtain ⟨row, hrow, hrole⟩ := hu
      cases w with
      | insertUser new =>
          obtain ⟨-, hseq, rfl⟩ := insertUser_ok.mp h
          rw [Database.withUsers_users, Table.find?_insert] at hrow
          split at hrow
          · rename_i hid
            cases hrow
            exact Or.inr ⟨new, rfl, hrole, hid⟩
          · exact Or.inl ⟨row, hrow, hrole⟩
      | updateUser id set =>
          obtain ⟨-, ⟨q, hq⟩, rfl⟩ := updateUser_ok.mp h
          by_cases hid : u = id
          · subst hid
            rw [Database.withUsers_users, Table.find?_update_self hq] at hrow
            cases hrow
            exact Or.inl ⟨q, hq, hrole⟩
          · rw [Database.withUsers_users, Table.find?_update_of_ne hid] at hrow
            exact Or.inl ⟨row, hrow, hrole⟩
      | _ => cases hwrites

/-- `r` may make `u` an admin: it is the console command, or it creates an admin with the token of an admin
who is older than `u`. -/
def MayMakeAdmin (r : ApiRequest) (u : Int) (db : Database) : Prop :=
  r.isConsoleCommand = true ∨
    r.isCreateAdmin = true ∧ ∃ t, t < u ∧ r.token? = some t ∧ db.HasAdmin t

theorem mayMakeAdmin_of_applyAll {ws : List Stmt} (hs : s.KeepsOwners db) (hperm : ∀ w ∈ ws, Permits r s w)
    (h : dialect.applyAll ws db = .ok db') (hu : db'.HasAdmin u) : db.HasAdmin u ∨ MayMakeAdmin r u s := by
  induction ws generalizing db with
  | nil => cases h; exact Or.inl hu
  | cons w ws ih =>
      obtain ⟨db₁, h₁, h⟩ := dialect.applyAll_cons_ok.mp h
      rcases ih (KeepsOwners.trans _ _ _ hs (keepsOwners_of_apply h₁))
        (fun w hw => hperm w (List.mem_cons_of_mem _ hw)) h with hu₁ | hmade
      · rcases hasAdmin_of_apply h₁ hu₁ with hu₀ | ⟨row, rfl, hrole, hid⟩
        · exact Or.inl hu₀
        · rcases (hperm _ List.mem_cons_self).2 with ⟨huser, -⟩ | hconsole | ⟨hcreate, t, htoken, hadmin⟩
          · rw [hrole] at huser
            cases huser
          · exact Or.inr (Or.inl hconsole)
          · obtain ⟨q, hq, -⟩ := hs.hasAdmin hadmin
            have hle : t ≤ db.users.seq := by
              have hkey : q.id = t := Table.key_of_find? hq
              rw [← hkey]
              exact (db.users.issued q (Table.mem_of_find? hq)).2
            exact Or.inr (Or.inr ⟨hcreate, t, by omega, htoken, hadmin⟩)
      · exact Or.inr hmade

end Admins

/-! ## Runs of the API -/

section Runs
variable {ι : Type} [DecidableEq ι] {requests : ι → ApiRequest} {p : ApiPool ι} {a : ι × Choice Draw Error}

def CommitsPermitted (requests : ι → ApiRequest) (p : ApiPool ι) : Prop :=
  p.AllMeet dialect (fun _ => True) Database.KeepsOwners
    fun i s ws => ∀ w ∈ ws, Permits (requests i) s w

theorem keepsOwners_step (p : ApiPool ι) (a : ι × Choice Draw Error) :
    p.store.KeepsOwners (p.step dialect a).store := by
  cases hpub : p.publishes dialect a with
  | none =>
      rw [(Pool.step_of_silent hpub).1]
      exact KeepsOwners.refl _
  | some ws =>
      obtain ⟨s, hs, hst, -⟩ := Pool.step_of_publishes hpub
      rw [hst]
      exact keepsOwners_of_applyAll hs

theorem CommitsPermitted.step (h : CommitsPermitted requests p) :
    CommitsPermitted requests (p.step dialect a) :=
  Pool.AllMeet.step KeepsOwners.refl KeepsOwners.trans trivial h (keepsOwners_step p a)

theorem commitsPermitted_of_visits {schedule : List (ι × Choice Draw Error)}
    (h : Runs.Visits (Pool.step dialect) (apiRequests P db requests) schedule p) :
    CommitsPermitted requests p :=
  Runs.invariant_of_step (fun _ _ h => CommitsPermitted.step h)
    (fun i => handler_authorized (requests i)) p h

/-- In every run of any requests, whatever their interleaving and failures: the data of a user change only
where the request that commits carries a token of the user or of an admin, or where a login of the user is
recorded, or where there was no such account. -/
theorem personal_data_guarded (requests : ι → ApiRequest) (schedule : List (ι × Choice Draw Error))
    (u : Int) (htakes : Runs.Takes (Pool.step dialect) (apiRequests P db requests) schedule p a) :
    Guarded (requests a.1) u p.store (p.step dialect a).store := by
  have hp := commitsPermitted_of_visits htakes.visits
  cases hpub : p.publishes dialect a with
  | none =>
      rw [(Pool.step_of_silent hpub).1]
      exact Or.inr (Or.inr ⟨[], fun hne => absurd rfl hne, by rw [List.append_nil]⟩)
  | some ws =>
      obtain ⟨s, hs, hst, -⟩ := Pool.step_of_publishes hpub
      rw [hst]
      exact guarded_of_applyAll (Pool.AllMeet.publishes KeepsOwners.refl trivial hp hpub) hs

/-- An admin after a step was one before it, or is a new account that the request of this step may make an
admin. -/
theorem hasAdmin_step (hp : CommitsPermitted requests p) {u : Int}
    (hu : (p.step dialect a).store.HasAdmin u) : p.store.HasAdmin u ∨
      p.store.users.find? u = none ∧ MayMakeAdmin (requests a.1) u p.store := by
  have hnew : ¬ p.store.HasAdmin u → p.store.users.find? u = none := by
    intro hnot
    cases hrow : p.store.users.find? u with
    | none => rfl
    | some row =>
        obtain ⟨row', hrow', hrole⟩ := (keepsOwners_step p a).users u row hrow
        obtain ⟨admin, hadmin, his⟩ := hu
        obtain rfl := Option.some.inj (hadmin.symm.trans hrow')
        exact absurd ⟨row, hrow, hrole.symm.trans his⟩ hnot
  cases hpub : p.publishes dialect a with
  | none =>
      rw [(Pool.step_of_silent hpub).1] at hu
      exact Or.inl hu
  | some ws =>
      obtain ⟨s, hs, hst, -⟩ := Pool.step_of_publishes hpub
      have hmade := mayMakeAdmin_of_applyAll (KeepsOwners.refl _)
        (Pool.AllMeet.publishes KeepsOwners.refl trivial hp hpub) hs (hst ▸ hu)
      exact or_iff_not_imp_left.mpr fun hnot => ⟨hnew hnot, hmade.resolve_left hnot⟩

/-- In every run, whatever the interleaving: accounts have the role that they were created with; an admin
who was not there before a step is a new account, and the request of the step is the console command, or
carries the token of an older admin and creates an admin; and where there was no admin and the console is
not used, there never is one. -/
theorem no_privilege_escalation (db : Database) (requests : ι → ApiRequest)
    (schedule : List (ι × Choice Draw Error)) :
    (∀ p, Runs.Visits (Pool.step dialect) (apiRequests P db requests) schedule p →
      ∀ u row, db.users.find? u = some row →
        ∃ row', p.store.users.find? u = some row' ∧ row'.role = row.role) ∧
    (∀ p a, Runs.Takes (Pool.step dialect) (apiRequests P db requests) schedule p a →
      ∀ u, (p.step dialect a).store.HasAdmin u → p.store.HasAdmin u ∨
        p.store.users.find? u = none ∧ MayMakeAdmin (requests a.1) u p.store) ∧
    ((∀ u, ¬ db.HasAdmin u) → (∀ i, (requests i).isConsoleCommand = false) →
      ∀ p, Runs.Visits (Pool.step dialect) (apiRequests P db requests) schedule p →
        ∀ u, ¬ p.store.HasAdmin u) := by
  refine ⟨fun p hp => ?_, fun p a htakes u hu =>
    hasAdmin_step (commitsPermitted_of_visits htakes.visits) hu, fun hnone hconsole p hp => ?_⟩
  · have hkept : db.KeepsOwners p.store :=
      Runs.invariant_of_step (J := fun p : ApiPool ι => db.KeepsOwners p.store)
        (fun p a h => KeepsOwners.trans _ _ _ h (keepsOwners_step p a)) (KeepsOwners.refl db) p hp
    exact hkept.users
  · have hinv : CommitsPermitted requests p ∧ ∀ u, ¬ p.store.HasAdmin u := by
      have hinit : CommitsPermitted requests (apiRequests P db requests) :=
        fun i => handler_authorized (requests i)
      refine Runs.invariant_of_step (J := fun p => CommitsPermitted requests p ∧
        ∀ u, ¬ p.store.HasAdmin u) ?_ ⟨hinit, hnone⟩ p hp
      rintro p a ⟨hcommits, hnone⟩
      refine ⟨hcommits.step, fun u hu => ?_⟩
      rcases hasAdmin_step hcommits hu with hold | ⟨-, hcommand | ⟨-, t, -, -, ht⟩⟩
      · exact hnone u hold
      · rw [hconsole a.1] at hcommand
        cases hcommand
      · exact hnone t ht
    exact hinv.2

end Runs

/-! ## An admin makes an admin and erases an account -/

def backOffice : Database :=
  .seeded [.insertUser ⟨0, "olha@fleet.org", "secret$", "Olha Kravets", .admin, none, true, 0, none⟩,
    .insertUser ⟨0, "ivan@fleet.org", "secret$", "Ivan Petrenko", .user, none, true, 0, none⟩]

def backOfficeRequests : Nat → ApiRequest
  | 0 => .createAdmin (some 1) "petro@fleet.org" "password" "Petro Bondar" none
  | _ => .privacy ⟨some "c", .anonymize (some 1) 2⟩

def backOfficeDay : List (Nat × Choice Draw Error) :=
  List.replicate 3 (1, stepAt 1) ++ List.replicate 6 (0, stepAt 2) ++ List.replicate 12 (1, stepAt 3)

/-- In the last of these steps of the first request, the third account is a new admin. -/
theorem backOffice_new_admin :
    let p := Runs.run (Pool.step dialect) (apiRequests plainPlatform backOffice backOfficeRequests)
      (backOfficeDay.take 6)
    p.store.users.rows.map User.role = [.admin, .user] ∧
    (p.step dialect (0, stepAt 2)).store.users.rows.map User.role = [.admin, .user, .admin] ∧
    ∀ u, (p.step dialect (0, stepAt 2)).store.HasAdmin u → p.store.HasAdmin u ∨
      p.store.users.find? u = none ∧ MayMakeAdmin (backOfficeRequests 0) u p.store :=
  ⟨by decide +kernel, by decide +kernel,
    (no_privilege_escalation backOffice backOfficeRequests backOfficeDay).2.1 _ (0, stepAt 2)
      ⟨backOfficeDay.take 6, ⟨backOfficeDay.drop 7, rfl⟩, rfl⟩⟩

theorem backOffice_data_guarded :
    let p := Runs.run (Pool.step dialect) (apiRequests plainPlatform backOffice backOfficeRequests)
      backOfficeDay
    p.store.personalData 2 ≠ (p.step dialect (1, stepAt 3)).store.personalData 2 ∧
    Guarded (backOfficeRequests 1) 2 p.store (p.step dialect (1, stepAt 3)).store :=
  ⟨by decide +kernel, personal_data_guarded backOfficeRequests (backOfficeDay ++ [(1, stepAt 3)]) 2
    ⟨backOfficeDay, List.prefix_refl _, rfl⟩⟩

end FleetManagement
