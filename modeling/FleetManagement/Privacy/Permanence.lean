import FleetManagement.Library.Runs
import FleetManagement.Privacy.Requests

/-!
# Erasure is permanent

What an erasure removes does not come back, as long as nobody grants a consent or creates a renter
profile for an erased account. Nothing in these two routes looks at `anonymized_at`.
-/

namespace FleetManagement

open Keyed (key maxKey)

def Renter.Anonymous (r : Renter) : Prop :=
  r.fullName = anonymizedName ∧ ∃ x, r.licenseNumber = anonymousLicense x

structure Database.Forgotten (db : Database) (u : User) : Prop where
  inactive : u.isActive = false
  fullName : u.fullName = anonymizedName
  phone : u.phone = none
  email : ∃ x, u.email = anonymousEmail x
  renters : ∀ r ∈ db.renters.rows, r.userId = some u.id → r.Anonymous
  activity : ∀ a ∈ db.userActivity.rows, a.userId ≠ u.id
  messages : ∀ m ∈ db.marketingMessages.rows, m.userId ≠ u.id
  events : ∀ e ∈ db.analyticsEvents.rows, e.userId ≠ u.id
  consents : ∀ c ∈ db.userConsents.rows, c.userId = u.id → c.status = .withdrawn

def Database.KeepsErased (db : Database) : Prop :=
  ∀ u ∈ db.users.rows, u.anonymizedAt.isSome = true → db.Forgotten u

/-- The request adds personal data to an erased account, and nothing stops it: neither the access check,
nor its schema, nor a constraint of the database. -/
def PrivacyRequest.Reidentifies (db : Database) : PrivacyRequest → Prop
  | .grantConsent token userId purpose policyVersion source =>
      (∃ a, Admits db token userId a ∧ a.subject.anonymizedAt.isSome = true) ∧
      (field 1 20 policyVersion && field 1 50 source) = true ∧
      (history userId purpose .grant policyVersion source 0).check db = .ok ()
  | .createRenterProfile token userId fullName licenseNumber =>
      (∃ a, Admits db token userId a ∧ a.subject.anonymizedAt.isSome = true) ∧
      (field 1 150 fullName && field 1 50 licenseNumber) = true ∧
      (newRenterProfile userId fullName licenseNumber).check db = .ok () ∧
      ¬ (newRenterProfile userId fullName licenseNumber).Anonymous
  | _ => False

section Step
variable {P : Platform} {db db' : Database} {u v : User}

theorem eq_of_id (hu : u ∈ db.users.rows) (hv : v ∈ db.users.rows) (h : u.id = v.id) : u = v :=
  Table.eq_of_key hu hv h

theorem Database.Forgotten.not_consented {purpose : ConsentPurpose} {userId : Int} (h : db.Forgotten u)
    (hc : db.Consented userId purpose) : userId ≠ u.id := by
  rintro rfl
  obtain ⟨c, hfor, hg, -⟩ := hc
  obtain ⟨hmem, huser, -⟩ := mem_consentsFor hfor
  rw [h.consents c hmem huser] at hg; cases hg

/-! ## Requests that leave the accounts alone -/

/-- From `db` to `db'`, no account has changed and no forgotten account is remembered. -/
structure Database.Spares (db db' : Database) : Prop where
  users : db'.users = db.users
  forgotten : ∀ u ∈ db.users.rows, u.anonymizedAt.isSome = true → db.Forgotten u → db'.Forgotten u

theorem Database.Spares.keepsErased (h : db.Spares db') (hk : db.KeepsErased) : db'.KeepsErased := by
  intro u hu herased
  rw [h.users] at hu
  exact h.forgotten u hu herased (hk u hu herased)

theorem spares_refl : db.Spares db := ⟨rfl, fun _ _ _ hf => hf⟩

theorem spares_audited {event : AuditEvent} (ha : Audited db event db') : db.Spares db' := by
  obtain ⟨-, -, rfl⟩ := insertAuditEvent_ok.mp (dialect.applyAll_singleton_ok.mp ha)
  exact ⟨rfl, fun u _ _ hf => { hf with }⟩

theorem spares_insertUserActivity {row : UserActivity}
    (hne : ∀ u ∈ db.users.rows, u.anonymizedAt.isSome = true → db.Forgotten u → row.userId ≠ u.id)
    (h : dialect.applyAll [.insertUserActivity row] db = .ok db') : db.Spares db' := by
  obtain ⟨-, -, rfl⟩ := insertUserActivity_ok.mp (dialect.applyAll_singleton_ok.mp h)
  refine ⟨rfl, fun u hu herased hf => { hf with activity := List.forall_mem_append.mpr ⟨hf.activity, ?_⟩ }⟩
  simpa using hne u hu herased hf

theorem spares_insertMarketingMessage {row : MarketingMessage}
    (hne : ∀ u ∈ db.users.rows, u.anonymizedAt.isSome = true → db.Forgotten u → row.userId ≠ u.id)
    (h : dialect.applyAll [.insertMarketingMessage row] db = .ok db') : db.Spares db' := by
  obtain ⟨-, -, rfl⟩ := insertMarketingMessage_ok.mp (dialect.applyAll_singleton_ok.mp h)
  refine ⟨rfl, fun u hu herased hf => { hf with messages := List.forall_mem_append.mpr ⟨hf.messages, ?_⟩ }⟩
  simpa using hne u hu herased hf

theorem spares_insertAnalyticsEvent {row : AnalyticsEvent}
    (hne : ∀ u ∈ db.users.rows, u.anonymizedAt.isSome = true → db.Forgotten u → row.userId ≠ u.id)
    (h : dialect.applyAll [.insertAnalyticsEvent row] db = .ok db') : db.Spares db' := by
  obtain ⟨-, -, rfl⟩ := insertAnalyticsEvent_ok.mp (dialect.applyAll_singleton_ok.mp h)
  refine ⟨rfl, fun u hu herased hf => { hf with events := List.forall_mem_append.mpr ⟨hf.events, ?_⟩ }⟩
  simpa using hne u hu herased hf

theorem spares_insertRenter {row : Renter}
    (hne : ∀ u ∈ db.users.rows, u.anonymizedAt.isSome = true → row.userId = some u.id → row.Anonymous)
    (h : dialect.applyAll [.insertRenter row] db = .ok db') : db.Spares db' := by
  obtain ⟨-, -, rfl⟩ := insertRenter_ok.mp (dialect.applyAll_singleton_ok.mp h)
  refine ⟨rfl, fun u hu herased hf => { hf with renters := List.forall_mem_append.mpr ⟨hf.renters, ?_⟩ }⟩
  intro r hr huser
  obtain rfl := List.mem_singleton.mp hr
  exact hne u hu herased huser

theorem spares_userConsents {t : Table UserConsent} (row : ConsentHistory) (hh)
    (h : ∀ u ∈ db.users.rows, u.anonymizedAt.isSome = true → db.Forgotten u →
      ∀ c ∈ t.rows, c.userId = u.id → c.status = .withdrawn) :
    db.Spares ((db.withUserConsents t).logged row hh) :=
  ⟨rfl, fun u hu herased hf => { hf with consents := h u hu herased hf }⟩

theorem spares_dispatchFlush {outcomes : List DispatchOutcome}
    (h : dialect.applyAll (dispatchFlush outcomes) db = .ok db') : db.Spares db' := by
  induction outcomes generalizing db with
  | nil => cases h; exact spares_refl
  | cons o outcomes ih =>
      obtain ⟨db₁, h₁, hrest⟩ := dialect.applyAll_cons_ok.mp h
      obtain ⟨-, rfl⟩ := updateMarketingMessage_ok.mp h₁
      have hih := ih hrest
      refine ⟨hih.users, fun u hu herased hf => hih.forgotten u hu herased { hf with messages := ?_ }⟩
      refine Table.forall_mem_update o.changes.key_on (fun m hm _ => hf.messages m hm) fun m hm => ?_
      exact hf.messages m (Table.mem_of_find? hm)

/-! ## The erasure itself -/

theorem ErasureDraws.renter_anonymous {d : ErasureDraws} {userId : Int} {r : Renter}
    (h : r.userId = some userId) : (d.renter userId r).Anonymous := by
  rw [ErasureDraws.renter, if_pos h]
  exact ⟨rfl, _, rfl⟩

theorem ErasureDraws.userId_renter (d : ErasureDraws) (userId : Int) (r : Renter) :
    (d.renter userId r).userId = r.userId := by
  unfold ErasureDraws.renter; split <;> rfl

theorem ErasureDraws.userId_consent (d : ErasureDraws) (userId : Int) (c : UserConsent) :
    (d.consent userId c).userId = c.userId := by
  unfold ErasureDraws.consent; split <;> rfl

theorem ErasureDraws.status_consent {d : ErasureDraws} {userId : Int} {c : UserConsent}
    (h : c.userId = userId ∨ c.status = .withdrawn) : (d.consent userId c).status = .withdrawn := by
  unfold ErasureDraws.consent
  split
  · rfl
  · rename_i hne
    rcases h with h | h
    · cases hc : c.status with
      | granted => exact absurd ⟨h, hc⟩ hne
      | withdrawn => rfl
    · exact h

theorem Erased.keepsErased {d : ErasureDraws} {event : AuditEvent} (h : Erased P db u d event db')
    (hk : db.KeepsErased) : db'.KeepsErased := by
  -- A forgotten account stays forgotten, and the subject of the erasure becomes one.
  have hrest : ∀ v, (v.id = u.id ∨ db.Forgotten v) →
      (∀ r ∈ db'.renters.rows, r.userId = some v.id → r.Anonymous) ∧
      (∀ c ∈ db'.userConsents.rows, c.userId = v.id → c.status = .withdrawn) := by
    intro v hv
    rw [h.renters, h.userConsents]
    refine ⟨List.forall_mem_map.mpr fun q hq huser => ?_, List.forall_mem_map.mpr fun q hq huser => ?_⟩
    · rw [ErasureDraws.userId_renter] at huser
      by_cases hq' : q.userId = some u.id
      · exact ErasureDraws.renter_anonymous hq'
      · rw [ErasureDraws.renter, if_neg hq']
        rcases hv with hv | hv
        · exact absurd (hv ▸ huser) hq'
        · exact hv.renters q hq huser
    · rw [ErasureDraws.userId_consent] at huser
      rcases hv with hv | hv
      · exact ErasureDraws.status_consent (Or.inl (huser.trans hv))
      · exact ErasureDraws.status_consent (Or.inr (hv.consents q hq huser))
  intro v hv herased
  rw [h.users] at hv
  rcases Table.mem_update.mp hv with ⟨hv, hne⟩ | ⟨w, hw, rfl⟩
  · have hf := hk v hv herased
    obtain ⟨hrenters, hconsents⟩ := hrest v (Or.inr hf)
    refine { hf with
      renters := hrenters, activity := ?_, messages := ?_, events := ?_, consents := hconsents }
    · rw [h.userActivity]; exact fun a ha => hf.activity a (List.mem_of_mem_filter ha)
    · rw [h.marketingMessages]; exact fun m hm => hf.messages m (List.mem_of_mem_filter hm)
    · rw [h.analyticsEvents]; exact fun e he => hf.events e (List.mem_of_mem_filter he)
  · have hid : w.id = u.id := Table.key_of_find? hw
    obtain ⟨hrenters, hconsents⟩ := hrest _ (Or.inl hid)
    refine ⟨rfl, rfl, rfl, ⟨_, rfl⟩, hrenters, ?_, ?_, ?_, hconsents⟩
    · rw [h.userActivity]; intro a ha; simpa [User.anonymize, hid] using (List.mem_filter.mp ha).2
    · rw [h.marketingMessages]; intro m hm; simpa [User.anonymize, hid] using (List.mem_filter.mp hm).2
    · rw [h.analyticsEvents]; intro e he; simpa [User.anonymize, hid] using (List.mem_filter.mp he).2

/-! ## One request -/

theorem Admits.not_reidentified {token : Option Int} {userId : Int} {a : SubjectAccess}
    (ha : Admits db token userId a) (hu : u ∈ db.users.rows) (hid : userId = u.id) : a.subject = u :=
  eq_of_id (Table.mem_of_find? ha.subject) hu (ha.id.trans hid)

theorem Accepted.keepsErased {id : String} {request : PrivacyRequest} {response : PrivacyResponse}
    (h : Accepted P db id request response db') (hk : db.KeepsErased) (hok : ¬ request.Reidentifies db) :
    db'.KeepsErased := by
  cases h with
  | register hemail h =>
      obtain ⟨-, -, rfl⟩ := insertUser_ok.mp (dialect.applyAll_singleton_ok.mp h)
      intro u hu herased
      rcases List.mem_append.mp hu with hu | hu
      · exact { hk u hu herased with }
      · rw [List.mem_singleton.mp hu] at herased; cases herased
  | login huser hactive hid h =>
      refine Database.Spares.keepsErased (spares_insertUserActivity (fun u hu _ hf heq => ?_) h) hk
      -- An erased account is inactive, so nobody logs in to it.
      rw [eq_of_id huser hu (hid.symm.trans heq), hf.inactive] at hactive
      cases hactive
  | createRenterProfile ha hvalid h =>
      obtain ⟨hcheck, -, -⟩ := insertRenter_ok.mp (dialect.applyAll_singleton_ok.mp h)
      refine Database.Spares.keepsErased (spares_insertRenter (fun u hu herased huser => ?_) h) hk
      obtain rfl := ha.not_reidentified hu (Option.some.inj huser)
      by_contra hname
      exact hok ⟨⟨_, ha, herased⟩, hvalid, hcheck, hname⟩
  | grantedBefore ha ho hsome => exact hk
  | @granted token userId purpose policyVersion source a o c t db' ha hvalid ho hnone h =>
      have hlive : (history userId purpose .grant policyVersion source t).check db = .ok () →
          ∀ u ∈ db.users.rows, u.anonymizedAt.isSome = true → userId ≠ u.id := by
        intro hcheck u hu herased heq
        obtain rfl := ha.not_reidentified hu heq
        exact hok ⟨⟨_, ha, herased⟩, hvalid, hcheck⟩
      cases o with
      | none =>
          obtain ⟨-, hcheck, hc, hh, rfl⟩ := grantFlush_none h
          refine Database.Spares.keepsErased (spares_userConsents _ hh fun u hu herased hf => ?_) hk
          refine List.forall_mem_append.mpr ⟨hf.consents, fun c hc huser => ?_⟩
          rw [List.mem_singleton.mp hc] at huser
          exact absurd huser (hlive hcheck u hu herased)
      | some c =>
          obtain ⟨hmem, huser, -⟩ := mem_consentsFor ho
          obtain ⟨hcheck, hh, rfl⟩ := grantFlush_some (Table.find?_key hmem) h
          refine Database.Spares.keepsErased (spares_userConsents _ hh fun u hu herased hf => ?_) hk
          refine Table.forall_mem_update _ (fun q hq _ => hf.consents q hq) fun q hq hquser => ?_
          obtain rfl := Option.some.inj ((Table.find?_key hmem).symm.trans hq)
          exact absurd (huser.symm.trans hquser) (hlive hcheck u hu herased)
  | notGranted ha ho hw => exact hk
  | revoked ha hc hg h =>
      obtain ⟨hmem, -, -⟩ := mem_consentsFor hc
      obtain ⟨hh, rfl⟩ := revokeFlush_ok (Table.find?_key hmem) h
      refine Database.Spares.keepsErased (spares_userConsents _ hh fun u hu herased hf => ?_) hk
      exact Table.forall_mem_update _ (fun q hq _ => hf.consents q hq) fun q hq _ => rfl
  | queued message ha hc h =>
      exact (spares_insertMarketingMessage (fun u _ _ hf => hf.not_consented hc) h).keepsErased hk
  | tracked event ha hc h =>
      exact (spares_insertAnalyticsEvent (fun u _ _ hf => hf.not_consented hc) h).keepsErased hk
  | dispatched h => exact (spares_dispatchFlush h).keepsErased hk
  | erasedBefore ha hu h => exact (spares_audited h).keepsErased hk
  | erased ha hu h => exact h.keepsErased hk

theorem servePrivacy_keepsErased {a : PrivacyAction} (hk : db.KeepsErased)
    (hok : ¬ a.1.request.Reidentifies db) : (servePrivacy P db a).KeepsErased := by
  obtain ⟨id, -, hout⟩ := servePrivacy_outcome P db a
  generalize a.answer P db = answer at hout
  generalize servePrivacy P db a = db' at hout ⊢
  cases hout with
  | accepted h => exact h.keepsErased hk hok
  | unanswered h => exact h.keepsErased hk hok
  | unchanged => exact hk
  | audited h => exact (spares_audited h).keepsErased hk

/-- Who is told that an account had been erased before is told about an account of the database. -/
theorem mem_of_alreadyAnonymized {a : PrivacyAction} {r : ErasureResult}
    (h : a.answer P db = .ok (.erasure r)) (hr : r.status = .alreadyAnonymized) :
    r.subject ∈ (servePrivacy P db a).users.rows ∧ r.subject.anonymizedAt.isSome = true := by
  obtain ⟨id, -, hout⟩ := servePrivacy_outcome P db a
  rw [h] at hout
  generalize a.1.request = request at hout
  generalize servePrivacy P db a = db' at hout ⊢
  cases hout with
  | accepted h =>
      cases h with
      | erasedBefore ha hu h =>
          rw [(spares_audited h).users]
          exact ⟨Table.mem_of_find? ha.subject, hu⟩
      | erased ha hu h => cases hr

end Step

/-! ## Whole histories -/

/-- In a history in which no request gives new personal data to an erased account, every erased account
stays forgotten, and the answer `already_anonymized` is only given where nothing personal is stored. -/
theorem erasure_permanent {P : Platform} {db : Database} (hdb : db.KeepsErased)
    (actions : List PrivacyAction)
    (hok : ∀ s a, Runs.Takes (servePrivacy P) db actions s a → ¬ a.1.request.Reidentifies s) :
    (∀ s, Runs.Visits (servePrivacy P) db actions s → s.KeepsErased) ∧
    ∀ s a r, Runs.Takes (servePrivacy P) db actions s a → a.answer P s = .ok (.erasure r) →
      r.status = .alreadyAnonymized → (servePrivacy P s a).Forgotten r.subject := by
  have hinv : ∀ s, Runs.Visits (servePrivacy P) db actions s → s.KeepsErased :=
    Runs.invariant_of_guarded (fun _ _ hs ha => servePrivacy_keepsErased hs ha) hdb hok
  refine ⟨hinv, fun s a r ht hanswer hr => ?_⟩
  obtain ⟨hu, herased⟩ := mem_of_alreadyAnonymized hanswer hr
  exact hinv _ ht.visits_step _ hu herased

/-! ## Histories without and with such a request -/

theorem keepsErased_of_none {db : Database} (h : ∀ u ∈ db.users.rows, u.anonymizedAt = none) :
    db.KeepsErased := by
  intro u hu herased
  rw [h u hu] at herased; cases herased

theorem not_reidentifies_of_none {db : Database} (h : ∀ u ∈ db.users.rows, u.anonymizedAt = none)
    (request : PrivacyRequest) : ¬ request.Reidentifies db := by
  have hsubject : ∀ token userId,
      ¬ ∃ a, Admits db token userId a ∧ a.subject.anonymizedAt.isSome = true := by
    rintro token userId ⟨a, ha, herased⟩
    rw [h a.subject (Table.mem_of_find? ha.subject)] at herased; cases herased
  cases request with
  | grantConsent token userId purpose policyVersion source => exact fun hr => hsubject _ _ hr.1
  | createRenterProfile token userId fullName licenseNumber => exact fun hr => hsubject _ _ hr.1
  | _ => exact id

def erasedAccount : List PrivacyAction :=
  [asks (.register "ivan@fleet.org" "password" "Ivan Petrenko" none),
    asks (.grantConsent (some 2) 2 .marketingEmail "2026-01" "web"), asks (.anonymize (some 2) 2),
    asks (.anonymize (some 1) 2)]

theorem erasedAccount_permanent :
    (∀ s, Runs.Visits (servePrivacy plainPlatform) office erasedAccount s → s.KeepsErased) ∧
    ∀ s a r, Runs.Takes (servePrivacy plainPlatform) office erasedAccount s a →
      a.answer plainPlatform s = .ok (.erasure r) → r.status = .alreadyAnonymized →
      (servePrivacy plainPlatform s a).Forgotten r.subject := by
  refine erasure_permanent (keepsErased_of_none (by decide)) erasedAccount fun s a ht => ?_
  rcases Runs.takes_cons.mp ht with ⟨rfl, rfl⟩ | ht
  · exact id
  rcases Runs.takes_cons.mp ht with ⟨rfl, rfl⟩ | ht
  · exact not_reidentifies_of_none (by decide) _
  rcases Runs.takes_cons.mp ht with ⟨rfl, rfl⟩ | ht
  · exact id
  rcases Runs.takes_cons.mp ht with ⟨rfl, rfl⟩ | ht
  · exact id
  exact absurd ht Runs.takes_nil

/-- After the erasure, the administrator links a renter profile to the account and grants a consent. -/
def restoredAccount : List PrivacyAction :=
  erasedAccount ++ [asks (.createRenterProfile (some 1) 2 "Ivan Petrenko" "AB123456"),
    asks (.grantConsent (some 1) 2 .marketingEmail "2026-01" "web")]

theorem not_keepsErased {db : Database} {i : Int}
    (hu : ∃ u ∈ db.users.rows, u.id = i ∧ u.anonymizedAt.isSome = true)
    (hc : ∃ c ∈ db.userConsents.rows, c.userId = i ∧ c.status = .granted) : ¬ db.KeepsErased := by
  obtain ⟨u, hu, rfl, herased⟩ := hu
  obtain ⟨c, hc, huser, hg⟩ := hc
  intro h
  rw [(h u hu herased).consents c hc huser] at hg; cases hg

theorem restored_account_is_remembered :
    office.KeepsErased ∧ ¬ ∀ s, Runs.Visits (servePrivacy plainPlatform) office restoredAccount s →
      s.KeepsErased := by
  refine ⟨keepsErased_of_none (by decide), fun h => ?_⟩
  exact not_keepsErased (i := 2) (by decide) (by decide) (h _ (Runs.Visits.last _ _))

end FleetManagement
