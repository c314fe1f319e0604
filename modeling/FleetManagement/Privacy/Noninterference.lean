import FleetManagement.Library.Runs
import FleetManagement.Privacy.Requests

/-!
# What an erased account had said

Two histories of the same accepted requests of one subject, which differ in the free text that the
subject supplied only. After the erasures, the databases tell them apart by the sources of consent
changes and by nothing else.
-/

namespace FleetManagement

open Keyed (key maxKey)

/-! ## The histories of one subject -/

/-- The request without the free text of the subject. -/
def PrivacyRequest.shape : PrivacyRequest → PrivacyRequest
  | .register _ _ _ _ => .register "" "" "" none
  | .login _ _ _ _ => .login "" "" none none
  | .createRenterProfile token userId _ _ => .createRenterProfile token userId "" ""
  | .grantConsent token userId purpose policyVersion _ =>
      .grantConsent token userId purpose policyVersion ""
  | .revokeConsent token userId purpose _ => .revokeConsent token userId purpose none
  | .queueMarketingEmail token userId _ => .queueMarketingEmail token userId ""
  | .trackAnalyticsEvent token userId _ => .trackAnalyticsEvent token userId ""
  | request => request

def PrivacyRequest.BySubject (i : Int) : PrivacyRequest → PrivacyResponse → Prop
  | .register _ _ _ _, .user row => row.id = i
  | .login _ _ _ _, .token userId _ => userId = i
  | .createRenterProfile token userId _ _, _ => token = some i ∧ userId = i
  | .grantConsent token userId _ _ _, _ => token = some i ∧ userId = i
  | .revokeConsent token userId _ _, _ => token = some i ∧ userId = i
  | .queueMarketingEmail token userId _, _ => token = some i ∧ userId = i
  | .trackAnalyticsEvent token userId _, _ => token = some i ∧ userId = i
  | _, _ => False

def PrivacyAction.AcceptedOf (P : Platform) (i : Int) (db : Database) (a : PrivacyAction) : Prop :=
  ∃ response, a.answer P db = .ok response ∧ a.1.request.BySubject i response

def PrivacyAction.Erasing (P : Platform) (i : Int) (db : Database) (a : PrivacyAction) : Prop :=
  ∃ token r, a.1.request = .anonymize token i ∧ a.answer P db = .ok (.erasure r) ∧ r.status = .anonymized

/-- The source that the request leaves in the consent history, if it changes a consent. -/
def PrivacyRequest.loggedSource (db : Database) : PrivacyRequest → List String
  | .grantConsent _ userId purpose policyVersion source =>
      if (db.consentsFor userId purpose).any (UserConsent.grants policyVersion) then [] else [source]
  | .revokeConsent _ userId purpose source =>
      if (db.consentsFor userId purpose).any fun c => c.status = .granted then [source.getD "api"] else []
  | _ => []

/-- The sources that a history leaves in the consent history, each for the state it is served in. -/
def loggedSources (P : Platform) : Database → List PrivacyAction → List String
  | _, [] => []
  | db, a :: actions => a.1.request.loggedSource db ++ loggedSources P (servePrivacy P db a) actions

/-! ## Equal up to random values and timestamps -/

def User.blank (i : Int) (u : User) : User :=
  if u.id = i then
    { u with
      email := "", hashedPassword := "", createdAt := 0, anonymizedAt := u.anonymizedAt.map fun _ => 0 }
  else u

def Renter.blank (i : Int) (r : Renter) : Renter :=
  if r.userId = some i then { r with licenseNumber := "" } else r

def UserConsent.blank (i : Int) (c : UserConsent) : UserConsent :=
  if c.userId = i then
    { c with
      grantedAt := c.grantedAt.map fun _ => 0, withdrawnAt := c.withdrawnAt.map fun _ => 0, updatedAt := 0 }
  else c

def ConsentHistory.blank (i : Int) (h : ConsentHistory) : ConsentHistory :=
  if h.userId = i then { h with occurredAt := 0 } else h

/-- A correlation id is random if it is `generated`. -/
def AuditEvent.blank (generated : Bool) (i : Int) (e : AuditEvent) : AuditEvent :=
  if e.subjectId = some i then
    { e with occurredAt := 0, correlationId := if generated then "" else e.correlationId }
  else e

theorem User.key_blank (i : Int) (u : User) : key (u.blank i) = key u := by
  unfold User.blank; split <;> rfl

theorem Renter.key_blank (i : Int) (r : Renter) : key (r.blank i) = key r := by
  unfold Renter.blank; split <;> rfl

theorem UserConsent.key_blank (i : Int) (c : UserConsent) : key (c.blank i) = key c := by
  unfold UserConsent.blank; split <;> rfl

theorem ConsentHistory.key_blank (i : Int) (h : ConsentHistory) : key (h.blank i) = key h := by
  unfold ConsentHistory.blank; split <;> rfl

theorem AuditEvent.key_blank (generated : Bool) (i : Int) (e : AuditEvent) :
    key (e.blank generated i) = key e := by
  unfold AuditEvent.blank; split <;> rfl

/-- What identifies the account `i` was drawn at random. -/
structure Database.Drawn (P : Platform) (i : Int) (db : Database) : Prop where
  account : ∀ u ∈ db.users.rows, u.id = i →
    (∃ x, u.email = anonymousEmail x) ∧ ∃ token salt, u.hashedPassword = P.hash token salt
  renters : ∀ r ∈ db.renters.rows, r.userId = some i → ∃ x, r.licenseNumber = anonymousLicense x

/-- The contents are equal up to random values and timestamps of the account `i`. -/
structure SameUpToDraws (P : Platform) (generated : Bool) (i : Int) (db db' : Database) : Prop where
  users : db.users.mapRows (User.blank i) (User.key_blank i) =
    db'.users.mapRows (User.blank i) (User.key_blank i)
  renters : db.renters.mapRows (Renter.blank i) (Renter.key_blank i) =
    db'.renters.mapRows (Renter.blank i) (Renter.key_blank i)
  userConsents : db.userConsents.mapRows (UserConsent.blank i) (UserConsent.key_blank i) =
    db'.userConsents.mapRows (UserConsent.blank i) (UserConsent.key_blank i)
  consentHistory : db.consentHistory.mapRows (ConsentHistory.blank i) (ConsentHistory.key_blank i) =
    db'.consentHistory.mapRows (ConsentHistory.blank i) (ConsentHistory.key_blank i)
  auditEvents :
    db.auditEvents.mapRows (AuditEvent.blank generated i) (AuditEvent.key_blank generated i) =
      db'.auditEvents.mapRows (AuditEvent.blank generated i) (AuditEvent.key_blank generated i)
  userActivity : db.userActivity = db'.userActivity
  marketingMessages : db.marketingMessages = db'.marketingMessages
  analyticsEvents : db.analyticsEvents = db'.analyticsEvents
  stations : db.stations = db'.stations
  vehicles : db.vehicles = db'.vehicles
  rentals : db.rentals = db'.rentals
  telemetryReadings : db.telemetryReadings = db'.telemetryReadings
  drawn : db.Drawn P i ∧ db'.Drawn P i

/-! ## While the account is in use

During the histories, all that the subject says is blanked too; `f` is what is kept of a source. -/

def User.masked (i : Int) (u : User) : User :=
  if u.id = i then
    { u with email := "", hashedPassword := "", fullName := "", phone := none, createdAt := 0 }
  else u

def Renter.masked (i : Int) (r : Renter) : Renter :=
  if r.userId = some i then { r with fullName := "", licenseNumber := "" } else r

def UserConsent.masked (f : String → String) (i : Int) (c : UserConsent) : UserConsent :=
  if c.userId = i then { c.blank i with source := f c.source } else c

def ConsentHistory.masked (f : String → String) (i : Int) (h : ConsentHistory) : ConsentHistory :=
  if h.userId = i then { h.blank i with source := f h.source } else h

theorem User.key_masked (i : Int) (u : User) : key (u.masked i) = key u := by
  unfold User.masked; split <;> rfl

theorem Renter.key_masked (i : Int) (r : Renter) : key (r.masked i) = key r := by
  unfold Renter.masked; split <;> rfl

theorem UserConsent.key_masked (f : String → String) (i : Int) (c : UserConsent) :
    key (c.masked f i) = key c := by
  unfold UserConsent.masked
  split
  · exact UserConsent.key_blank i c
  · rfl

theorem ConsentHistory.key_masked (f : String → String) (i : Int) (h : ConsentHistory) :
    key (h.masked f i) = key h := by
  unfold ConsentHistory.masked
  split
  · exact ConsentHistory.key_blank i h
  · rfl

/-- Two databases that differ in what the account `i` has said only. -/
structure Alike (f : String → String) (i : Int) (s s' : Database) : Prop where
  users : s.users.mapRows (User.masked i) (User.key_masked i) =
    s'.users.mapRows (User.masked i) (User.key_masked i)
  renters : s.renters.mapRows (Renter.masked i) (Renter.key_masked i) =
    s'.renters.mapRows (Renter.masked i) (Renter.key_masked i)
  userConsents : s.userConsents.mapRows (UserConsent.masked f i) (UserConsent.key_masked f i) =
    s'.userConsents.mapRows (UserConsent.masked f i) (UserConsent.key_masked f i)
  consentHistory :
    s.consentHistory.mapRows (ConsentHistory.masked f i) (ConsentHistory.key_masked f i) =
      s'.consentHistory.mapRows (ConsentHistory.masked f i) (ConsentHistory.key_masked f i)
  userActivity : s.userActivity.deleteWhere (·.userId = i) = s'.userActivity.deleteWhere (·.userId = i)
  marketingMessages : s.marketingMessages.deleteWhere (·.userId = i) =
    s'.marketingMessages.deleteWhere (·.userId = i)
  analyticsEvents : s.analyticsEvents.deleteWhere (·.userId = i) =
    s'.analyticsEvents.deleteWhere (·.userId = i)
  auditEvents : s.auditEvents = s'.auditEvents
  stations : s.stations = s'.stations
  vehicles : s.vehicles = s'.vehicles
  rentals : s.rentals = s'.rentals
  telemetryReadings : s.telemetryReadings = s'.telemetryReadings

theorem Alike.refl (f : String → String) (i : Int) (s : Database) : Alike f i s s where
  users := rfl
  renters := rfl
  userConsents := rfl
  consentHistory := rfl
  userActivity := rfl
  marketingMessages := rfl
  analyticsEvents := rfl
  auditEvents := rfl
  stations := rfl
  vehicles := rfl
  rentals := rfl
  telemetryReadings := rfl

section Masks
variable {f : String → String} {i : Int}

theorem UserConsent.fields_masked (c : UserConsent) : (c.masked f i).id = c.id ∧
    (c.masked f i).userId = c.userId ∧ (c.masked f i).purpose = c.purpose ∧
    (c.masked f i).status = c.status ∧ (c.masked f i).policyVersion = c.policyVersion := by
  unfold UserConsent.masked UserConsent.blank
  split <;> simp

theorem UserConsent.fields_of_masked {c c' : UserConsent} (h : c.masked f i = c'.masked f i) :
    c.id = c'.id ∧ c.userId = c'.userId ∧ c.purpose = c'.purpose ∧ c.status = c'.status ∧
      c.policyVersion = c'.policyVersion := by
  obtain ⟨h₁, h₂, h₃, h₄, h₅⟩ := fields_masked (f := f) (i := i) c
  obtain ⟨h₁', h₂', h₃', h₄', h₅'⟩ := fields_masked (f := f) (i := i) c'
  exact ⟨by rw [← h₁, h, h₁'], by rw [← h₂, h, h₂'], by rw [← h₃, h, h₃'], by rw [← h₄, h, h₄'],
    by rw [← h₅, h, h₅']⟩

theorem UserConsent.masked_granted {c : UserConsent} (h : c.userId = i) (policyVersion source : String)
    (t : DateTime) : (c.granted policyVersion source t).masked f i =
      { c.masked f i with status := .granted, policyVersion, grantedAt := some 0, source := f source } := by
  simp [UserConsent.masked, UserConsent.blank, UserConsent.granted, h]

theorem UserConsent.masked_withdrawn {c : UserConsent} (h : c.userId = i) (source : String)
    (t : DateTime) :
    (c.withdrawn source t).masked f i =
      { c.masked f i with status := .withdrawn, withdrawnAt := some 0, source := f source } := by
  simp [UserConsent.masked, UserConsent.blank, UserConsent.withdrawn, h]

theorem ConsentHistory.masked_history (purpose : ConsentPurpose) (action : ConsentAction)
    (policyVersion source : String) (t : DateTime) (id : Int) :
    ConsentHistory.masked f i { history i purpose action policyVersion source t with id } =
      ⟨id, i, purpose, action, policyVersion, f source, 0⟩ := by
  simp [ConsentHistory.masked, ConsentHistory.blank, history]

end Masks

section Step
variable {f : String → String} {i : Int} {s s' t t' : Database}

/-- The mask does not hide which consents a query selects. -/
theorem Alike.filter_consents (h : Alike f i s s') {p : UserConsent → Bool}
    (hp : ∀ c : UserConsent, p (c.masked f i) = p c) :
    (s.userConsents.rows.filter p).map (UserConsent.masked f i) =
      (s'.userConsents.rows.filter p).map (UserConsent.masked f i) := by
  have hcomm : ∀ rows : List UserConsent, (rows.filter p).map (UserConsent.masked f i) =
      (rows.map (UserConsent.masked f i)).filter p := by
    intro rows
    rw [List.filter_map]
    congr 1
    exact List.filter_congr fun c _ => (hp c).symm
  rw [hcomm, hcomm, Table.rows_of_mapRows _ h.userConsents]

theorem Alike.consentsFor (h : Alike f i s s') (purpose : ConsentPurpose) :
    (s.consentsFor i purpose).map (UserConsent.masked f i) =
      (s'.consentsFor i purpose).map (UserConsent.masked f i) := by
  refine h.filter_consents fun c => ?_
  obtain ⟨-, huser, hpurpose, -⟩ := UserConsent.fields_masked (f := f) (i := i) c
  rw [huser, hpurpose]

theorem Alike.grantedConsents (h : Alike f i s s') :
    (s.grantedConsents i).map (UserConsent.masked f i) =
      (s'.grantedConsents i).map (UserConsent.masked f i) := by
  refine h.filter_consents fun c => ?_
  obtain ⟨-, huser, -, hstatus, -⟩ := UserConsent.fields_masked (f := f) (i := i) c
  rw [huser, hstatus]

theorem Alike.any_consentsFor (h : Alike f i s s') (purpose : ConsentPurpose) {p : UserConsent → Bool}
    (hp : ∀ c c' : UserConsent, c.status = c'.status → c.policyVersion = c'.policyVersion → p c = p c') :
    (s.consentsFor i purpose).any p = (s'.consentsFor i purpose).any p := by
  have hmap : (s.consentsFor i purpose).map p = (s'.consentsFor i purpose).map p := by
    refine Table.map_eq_of_related (h.consentsFor purpose) fun c _ c' _ hcc => ?_
    obtain ⟨-, -, -, hstatus, hversion⟩ := UserConsent.fields_of_masked hcc
    exact hp c c' hstatus hversion
  have hany : ∀ l : List UserConsent, l.any p = (l.map p).any id := fun l => by simp [List.any_map]
  rw [hany, hany, hmap]

/-- A change of consents that is logged with the same source keeps the databases alike. -/
theorem Alike.logged {u u' : Table UserConsent} {purpose : ConsentPurpose} {action : ConsentAction}
    {policyVersion source source' : String} {d d' : DateTime} {hh hh'} (h : Alike f i s s')
    (hu : u.mapRows (UserConsent.masked f i) (UserConsent.key_masked f i) =
      u'.mapRows (UserConsent.masked f i) (UserConsent.key_masked f i)) (hsource : f source = f source') :
    Alike f i ((s.withUserConsents u).logged (history i purpose action policyVersion source d) hh)
      ((s'.withUserConsents u').logged (history i purpose action policyVersion source' d') hh') := by
  refine { h with userConsents := hu, consentHistory := ?_ }
  refine Table.mapRows_insert_congr _ h.consentHistory ?_
  have hseq := Table.seq_of_mapRows _ h.consentHistory
  simp only [Database.withUserConsents_consentHistory, ConsentHistory.masked_history, hsource, hseq]

theorem alike_grantFlush {purpose : ConsentPurpose} {o o' : Option UserConsent}
    {policyVersion source source' : String} {d d' : DateTime} (h : Alike f i s s')
    (ho : s.consentsFor i purpose = Option.toList o) (ho' : s'.consentsFor i purpose = Option.toList o')
    (hsource : f source = f source')
    (hs : dialect.applyAll (grantFlush i purpose o policyVersion source d) s = .ok t)
    (hs' : dialect.applyAll (grantFlush i purpose o' policyVersion source' d') s' = .ok t') :
    Alike f i t t' := by
  have hfor := h.consentsFor purpose
  rw [ho, ho'] at hfor
  cases o with
  | none =>
      cases o' with
      | none =>
          obtain ⟨-, -, hc, hh, rfl⟩ := grantFlush_none hs
          obtain ⟨-, -, hc', hh', rfl⟩ := grantFlush_none hs'
          refine h.logged (Table.mapRows_insert_congr _ h.userConsents ?_) hsource
          have hseq := Table.seq_of_mapRows _ h.userConsents
          simp [UserConsent.masked, UserConsent.blank, newConsent, hsource, hseq]
      | some c' => cases hfor
  | some c =>
      cases o' with
      | none => cases hfor
      | some c' =>
          obtain ⟨hmem, huser, -⟩ := mem_consentsFor ho
          obtain ⟨hmem', -, -⟩ := mem_consentsFor ho'
          obtain ⟨-, hh, rfl⟩ := grantFlush_some (Table.find?_key hmem) hs
          obtain ⟨-, hh', rfl⟩ := grantFlush_some (Table.find?_key hmem') hs'
          have hcc : c.masked f i = c'.masked f i := (List.cons_eq_cons.mp hfor).1
          obtain ⟨hid, -⟩ := UserConsent.fields_of_masked hcc
          rw [← hid] at hh' ⊢
          refine h.logged (Table.mapRows_update_congr _ h.userConsents ?_ fun _ _ _ hrr => hrr) hsource
          intro r hr r' _ hkey hrr
          obtain rfl := Table.eq_of_key hr hmem hkey
          have huser' : r'.userId = i := (UserConsent.fields_of_masked hrr).2.1 ▸ huser
          rw [UserConsent.masked_granted huser, UserConsent.masked_granted huser', hrr, hsource]

theorem alike_revokeFlush {purpose : ConsentPurpose} {c c' : UserConsent} {source source' : String}
    {d d' : DateTime} (h : Alike f i s s') (hc : s.consentsFor i purpose = [c])
    (hc' : s'.consentsFor i purpose = [c']) (hsource : f source = f source')
    (hs : dialect.applyAll (revokeFlush c i purpose source d) s = .ok t)
    (hs' : dialect.applyAll (revokeFlush c' i purpose source' d') s' = .ok t') :
    Alike f i t t' := by
  have hfor := h.consentsFor purpose
  rw [hc, hc'] at hfor
  obtain ⟨hmem, huser, -⟩ := mem_consentsFor hc
  obtain ⟨hmem', -, -⟩ := mem_consentsFor hc'
  obtain ⟨hh, rfl⟩ := revokeFlush_ok (Table.find?_key hmem) hs
  obtain ⟨hh', rfl⟩ := revokeFlush_ok (Table.find?_key hmem') hs'
  have hcc : c.masked f i = c'.masked f i := (List.cons_eq_cons.mp hfor).1
  obtain ⟨hid, -, -, -, hversion⟩ := UserConsent.fields_of_masked hcc
  simp only [← hid, ← hversion] at hh' ⊢
  refine h.logged (Table.mapRows_update_congr _ h.userConsents ?_ fun _ _ _ hrr => hrr) hsource
  intro r hr r' _ hkey hrr
  obtain rfl := Table.eq_of_key hr hmem hkey
  have huser' : r'.userId = i := (UserConsent.fields_of_masked hrr).2.1 ▸ huser
  rw [UserConsent.masked_withdrawn huser, UserConsent.masked_withdrawn huser', hrr, hsource]

theorem any_toList {α : Type} (o : Option α) (p : α → Bool) : (Option.toList o).any p = o.any p := by
  cases o <;> simp

theorem Alike.any_grants (h : Alike f i s s') {purpose : ConsentPurpose} {o o' : Option UserConsent}
    (ho : s.consentsFor i purpose = Option.toList o) (ho' : s'.consentsFor i purpose = Option.toList o')
    (policyVersion : String) :
    o.any (UserConsent.grants policyVersion) = o'.any (UserConsent.grants policyVersion) := by
  have hany := h.any_consentsFor purpose (p := UserConsent.grants policyVersion) fun c c' hs hv => by
    simp only [UserConsent.grants, hs, hv]
  rwa [ho, ho', any_toList, any_toList] at hany

theorem Alike.any_granted (h : Alike f i s s') (purpose : ConsentPurpose) :
    (s.consentsFor i purpose).any (fun c => c.status = .granted) =
      (s'.consentsFor i purpose).any fun c => c.status = .granted :=
  h.any_consentsFor purpose fun c c' hs _ => by rw [hs]

theorem loggedSource_granted {token : Option Int} {purpose : ConsentPurpose}
    {policyVersion source : String}
    {o : Option UserConsent} (ho : s.consentsFor i purpose = Option.toList o)
    (hnone : o.any (UserConsent.grants policyVersion) = false) :
    (PrivacyRequest.grantConsent token i purpose policyVersion source).loggedSource s = [source] := by
  have hany : (s.consentsFor i purpose).any (UserConsent.grants policyVersion) = false := by
    rw [ho, any_toList, hnone]
  rw [PrivacyRequest.loggedSource, if_neg (Bool.eq_false_iff.mp hany)]

theorem loggedSource_grantedBefore {token : Option Int} {purpose : ConsentPurpose}
    {policyVersion source : String} {o : Option UserConsent}
    (ho : s.consentsFor i purpose = Option.toList o)
    (hsome : o.any (UserConsent.grants policyVersion) = true) :
    (PrivacyRequest.grantConsent token i purpose policyVersion source).loggedSource s = [] := by
  have hany : (s.consentsFor i purpose).any (UserConsent.grants policyVersion) = true := by
    rw [ho, any_toList, hsome]
  rw [PrivacyRequest.loggedSource, if_pos hany]

theorem loggedSource_revoked {token : Option Int} {purpose : ConsentPurpose} {source : Option String}
    {c : UserConsent} (hc : s.consentsFor i purpose = [c]) (hg : c.status = .granted) :
    (PrivacyRequest.revokeConsent token i purpose source).loggedSource s = [source.getD "api"] := by
  rw [PrivacyRequest.loggedSource, if_pos (by simp [hc, hg])]

theorem none_granted {purpose : ConsentPurpose} {o : Option UserConsent}
    (ho : s.consentsFor i purpose = Option.toList o) (hw : ∀ c ∈ o, c.status = .withdrawn) :
    ((s.consentsFor i purpose).any fun c => c.status = .granted) = false := by
  rw [ho, any_toList]
  cases o with
  | none => rfl
  | some c => simp [hw c rfl]

theorem loggedSource_notGranted {token : Option Int} {purpose : ConsentPurpose} {source : Option String}
    {o : Option UserConsent} (ho : s.consentsFor i purpose = Option.toList o)
    (hw : ∀ c ∈ o, c.status = .withdrawn) :
    (PrivacyRequest.revokeConsent token i purpose source).loggedSource s = [] := by
  rw [PrivacyRequest.loggedSource, if_neg (Bool.eq_false_iff.mp (none_granted ho hw))]

/-- One request of each history: what it does to the databases is the same but for what is masked. -/
theorem Accepted.alike {P : Platform} {id id' : String} {request request' : PrivacyRequest}
    {response response' : PrivacyResponse} (h : Accepted P s id request response t)
    (h' : Accepted P s' id' request' response' t') (hshape : request.shape = request'.shape)
    (hby : request.BySubject i response) (hby' : request'.BySubject i response') (hs : Alike f i s s')
    (hsource : (request.loggedSource s).map f = (request'.loggedSource s').map f) : Alike f i t t' := by
  cases h with
  | register hemail h =>
      cases h' with
      | register hemail' h' =>
          obtain ⟨-, hseq, rfl⟩ := insertUser_ok.mp (dialect.applyAll_singleton_ok.mp h)
          obtain ⟨-, hseq', rfl⟩ := insertUser_ok.mp (dialect.applyAll_singleton_ok.mp h')
          refine { hs with users := Table.mapRows_insert_congr _ hs.users ?_ }
          simp only [PrivacyRequest.BySubject, Database.withUsers_users, Table.seq_insert] at hby hby'
          push_cast at hby hby'
          simp [User.masked, newUser, hby, hby']
      | _ => cases hshape
  | login huser hactive hid h =>
      cases h' with
      | login huser' hactive' hid' h' =>
          obtain ⟨-, hseq, rfl⟩ := insertUserActivity_ok.mp (dialect.applyAll_singleton_ok.mp h)
          obtain ⟨-, hseq', rfl⟩ := insertUserActivity_ok.mp (dialect.applyAll_singleton_ok.mp h')
          refine { hs with userActivity := Table.deleteWhere_insert_congr hs.userActivity ?_ ?_ }
          · exact decide_eq_true (hid.trans hby)
          · exact decide_eq_true (hid'.trans hby')
      | _ => cases hshape
  | createRenterProfile ha hvalid h =>
      cases h' with
      | createRenterProfile ha' hvalid' h' =>
          cases hshape
          obtain ⟨-, hseq, rfl⟩ := insertRenter_ok.mp (dialect.applyAll_singleton_ok.mp h)
          obtain ⟨-, hseq', rfl⟩ := insertRenter_ok.mp (dialect.applyAll_singleton_ok.mp h')
          refine { hs with renters := Table.mapRows_insert_congr _ hs.renters ?_ }
          have hids := Table.seq_of_mapRows _ hs.renters
          obtain ⟨-, rfl⟩ := hby
          simp [Renter.masked, newRenterProfile, hids]
      | _ => cases hshape
  | grantedBefore ha ho hsome =>
      cases h' with
      | grantedBefore ha' ho' hsome' => exact hs
      | granted ha' hvalid' ho' hnone' h' =>
          cases hshape
          obtain ⟨-, rfl⟩ := hby
          rw [hs.any_grants ho ho', hnone'] at hsome; cases hsome
      | _ => cases hshape
  | granted ha hvalid ho hnone h =>
      cases h' with
      | grantedBefore ha' ho' hsome' =>
          cases hshape
          obtain ⟨-, rfl⟩ := hby
          rw [hs.any_grants ho ho', hsome'] at hnone; cases hnone
      | granted ha' hvalid' ho' hnone' h' =>
          cases hshape
          obtain ⟨-, rfl⟩ := hby
          rw [loggedSource_granted ho hnone, loggedSource_granted ho' hnone'] at hsource
          exact alike_grantFlush hs ho ho' (List.cons_eq_cons.mp hsource).1 h h'
      | _ => cases hshape
  | notGranted ha ho hw =>
      cases h' with
      | notGranted ha' ho' hw' => exact hs
      | revoked ha' hc' hg' h' =>
          cases hshape
          obtain ⟨-, rfl⟩ := hby
          have hany := (none_granted ho hw).symm.trans (hs.any_granted _)
          simp [hc', hg'] at hany
      | _ => cases hshape
  | revoked ha hc hg h =>
      cases h' with
      | notGranted ha' ho' hw' =>
          cases hshape
          obtain ⟨-, rfl⟩ := hby
          have hany := (hs.any_granted _).trans (none_granted ho' hw')
          simp [hc, hg] at hany
      | revoked ha' hc' hg' h' =>
          cases hshape
          obtain ⟨-, rfl⟩ := hby
          rw [loggedSource_revoked hc hg, loggedSource_revoked hc' hg'] at hsource
          exact alike_revokeFlush hs hc hc' (List.cons_eq_cons.mp hsource).1 h h'
      | _ => cases hshape
  | queued message ha hc h =>
      cases h' with
      | queued message' ha' hc' h' =>
          cases hshape
          obtain ⟨-, hseq, rfl⟩ := insertMarketingMessage_ok.mp (dialect.applyAll_singleton_ok.mp h)
          obtain ⟨-, hseq', rfl⟩ := insertMarketingMessage_ok.mp (dialect.applyAll_singleton_ok.mp h')
          refine { hs with marketingMessages := Table.deleteWhere_insert_congr hs.marketingMessages ?_ ?_ }
          · exact decide_eq_true hby.2
          · exact decide_eq_true hby.2
      | _ => cases hshape
  | tracked event ha hc h =>
      cases h' with
      | tracked event' ha' hc' h' =>
          cases hshape
          obtain ⟨-, hseq, rfl⟩ := insertAnalyticsEvent_ok.mp (dialect.applyAll_singleton_ok.mp h)
          obtain ⟨-, hseq', rfl⟩ := insertAnalyticsEvent_ok.mp (dialect.applyAll_singleton_ok.mp h')
          refine { hs with analyticsEvents := Table.deleteWhere_insert_congr hs.analyticsEvents ?_ ?_ }
          · exact decide_eq_true hby.2
          · exact decide_eq_true hby.2
      | _ => cases hshape
  | dispatched h => exact hby.elim
  | erasedBefore ha hu h => exact hby.elim
  | erased ha hu h => exact hby.elim

theorem Alike.length_loggedSource (hs : Alike f i s s') {request request' : PrivacyRequest}
    {response : PrivacyResponse} (hshape : request.shape = request'.shape)
    (hby : request.BySubject i response) :
    (request.loggedSource s).length = (request'.loggedSource s').length := by
  cases request with
  | grantConsent token userId purpose policyVersion source =>
      cases request' with
      | grantConsent token' userId' purpose' policyVersion' source' =>
          cases hshape
          obtain ⟨-, rfl⟩ := hby
          have hany := hs.any_consentsFor purpose (p := UserConsent.grants policyVersion)
            fun c c' hs hv => by simp only [UserConsent.grants, hs, hv]
          simp only [PrivacyRequest.loggedSource, hany]
          split <;> rfl
      | _ => cases hshape
  | revokeConsent token userId purpose source =>
      cases request' with
      | revokeConsent token' userId' purpose' source' =>
          cases hshape
          obtain ⟨-, rfl⟩ := hby
          simp only [PrivacyRequest.loggedSource, hs.any_granted purpose]
          split <;> rfl
      | _ => cases hshape
  | _ =>
      cases request' with
      | grantConsent token' userId' purpose' policyVersion' source' => cases hshape
      | revokeConsent token' userId' purpose' source' => cases hshape
      | _ => rfl

def Database.sources (s : Database) : List String := s.consentHistory.rows.map (·.source)

theorem sources_logged (row : ConsentHistory) (u : Table UserConsent) (hh) :
    ((s.withUserConsents u).logged row hh).sources = s.sources ++ [row.source] := by
  simp [Database.sources, Database.logged]

theorem Accepted.sources {P : Platform} {id : String} {request : PrivacyRequest}
    {response : PrivacyResponse} (h : Accepted P s id request response t)
    (hby : request.BySubject i response) : t.sources = s.sources ++ request.loggedSource s := by
  cases h with
  | register hemail h =>
      obtain ⟨-, hseq, rfl⟩ := insertUser_ok.mp (dialect.applyAll_singleton_ok.mp h)
      exact (List.append_nil _).symm
  | login huser hactive hid h =>
      obtain ⟨-, hseq, rfl⟩ := insertUserActivity_ok.mp (dialect.applyAll_singleton_ok.mp h)
      exact (List.append_nil _).symm
  | createRenterProfile ha hvalid h =>
      obtain ⟨-, hseq, rfl⟩ := insertRenter_ok.mp (dialect.applyAll_singleton_ok.mp h)
      exact (List.append_nil _).symm
  | grantedBefore ha ho hsome =>
      rw [loggedSource_grantedBefore ho hsome, List.append_nil]
  | @granted token userId purpose policyVersion source a o c d t ha hvalid ho hnone h =>
      rw [loggedSource_granted ho hnone]
      cases o with
      | none =>
          obtain ⟨-, -, hc, hh, rfl⟩ := grantFlush_none h
          exact sources_logged _ _ hh
      | some c =>
          obtain ⟨-, hh, rfl⟩ := grantFlush_some (Table.find?_key (mem_consentsFor ho).1) h
          exact sources_logged _ _ hh
  | notGranted ha ho hw =>
      rw [loggedSource_notGranted ho hw, List.append_nil]
  | revoked ha hc hg h =>
      rw [loggedSource_revoked hc hg]
      obtain ⟨hh, rfl⟩ := revokeFlush_ok (Table.find?_key (mem_consentsFor hc).1) h
      exact sources_logged _ _ hh
  | queued message ha hc h =>
      obtain ⟨-, hseq, rfl⟩ := insertMarketingMessage_ok.mp (dialect.applyAll_singleton_ok.mp h)
      exact (List.append_nil _).symm
  | tracked event ha hc h =>
      obtain ⟨-, hseq, rfl⟩ := insertAnalyticsEvent_ok.mp (dialect.applyAll_singleton_ok.mp h)
      exact (List.append_nil _).symm
  | dispatched h => exact hby.elim
  | erasedBefore ha hu h => exact hby.elim
  | erased ha hu h => exact hby.elim

end Step

/-! ## Whole histories -/

section Histories
variable {P : Platform} {f : String → String} {i : Int}

theorem run_sources {s : Database} {actions : List PrivacyAction}
    (hacc : ∀ u a, Runs.Takes (servePrivacy P) s actions u a → a.AcceptedOf P i u) :
    (Runs.run (servePrivacy P) s actions).sources = s.sources ++ loggedSources P s actions := by
  induction actions generalizing s with
  | nil => exact (List.append_nil _).symm
  | cons a actions ih =>
      obtain ⟨response, hanswer, hby⟩ := hacc s a (Runs.takes_cons.mpr (Or.inl ⟨rfl, rfl⟩))
      obtain ⟨id, -, haccepted⟩ := accepted_of_answer hanswer
      rw [Runs.run_cons, ih fun u b hu => hacc u b (Runs.takes_cons.mpr (Or.inr hu)),
        haccepted.sources hby, loggedSources, List.append_assoc]

theorem map_const {α β : Type} {f : α → β} (hf : ∀ x y, f x = f y) {l l' : List α}
    (h : l.length = l'.length) : l.map f = l'.map f := by
  refine List.ext_getElem (by simpa using h) fun n _ _ => ?_
  rw [List.getElem_map, List.getElem_map]
  exact hf _ _

/-- Histories of the same shape lead from alike databases to alike databases, if their sources agree or
nothing is kept of a source. -/
theorem run_alike {s s' : Database} {actions actions' : List PrivacyAction}
    (hshape : actions.map (·.1.request.shape) = actions'.map (·.1.request.shape))
    (hacc : ∀ u a, Runs.Takes (servePrivacy P) s actions u a → a.AcceptedOf P i u)
    (hacc' : ∀ u a, Runs.Takes (servePrivacy P) s' actions' u a → a.AcceptedOf P i u)
    (hs : Alike f i s s')
    (hsource : (∀ x y, f x = f y) ∨ loggedSources P s actions = loggedSources P s' actions') :
    Alike f i (Runs.run (servePrivacy P) s actions) (Runs.run (servePrivacy P) s' actions') := by
  induction actions generalizing s s' actions' with
  | nil =>
      rw [List.map_eq_nil_iff.mp hshape.symm]
      exact hs
  | cons a actions ih =>
      cases actions' with
      | nil => cases hshape
      | cons a' actions' =>
          obtain ⟨hhead, htail⟩ := List.cons_eq_cons.mp hshape
          obtain ⟨response, hanswer, hby⟩ := hacc s a (Runs.takes_cons.mpr (Or.inl ⟨rfl, rfl⟩))
          obtain ⟨response', hanswer', hby'⟩ := hacc' s' a' (Runs.takes_cons.mpr (Or.inl ⟨rfl, rfl⟩))
          obtain ⟨id, -, h⟩ := accepted_of_answer hanswer
          obtain ⟨id', -, h'⟩ := accepted_of_answer hanswer'
          have hlen := hs.length_loggedSource hhead hby
          -- The sources of the first requests agree, and so do those of the rest.
          have hsplit : (∀ x y, f x = f y) ∨ a.1.request.loggedSource s = a'.1.request.loggedSource s' ∧
              loggedSources P (servePrivacy P s a) actions =
                loggedSources P (servePrivacy P s' a') actions' :=
            hsource.imp_right fun heq => List.append_inj heq hlen
          have hone : (a.1.request.loggedSource s).map f = (a'.1.request.loggedSource s').map f := by
            rcases hsplit with hf | ⟨heq, -⟩
            · exact map_const hf hlen
            · rw [heq]
          rw [Runs.run_cons, Runs.run_cons]
          refine ih htail (fun u b hu => hacc u b (Runs.takes_cons.mpr (Or.inr hu)))
            (fun u b hu => hacc' u b (Runs.takes_cons.mpr (Or.inr hu)))
            (h.alike h' hhead hby hby' hs hone) (hsplit.imp_right And.right)

end Histories

/-! ## The erasures -/

section Erasures
variable {P : Platform} {i : Int} {s s' t t' : Database} {u u' : User} {d d' : ErasureDraws}
  {event event' : AuditEvent} {generated : Bool}

theorem Erased.sources (h : Erased P s u d event t) (hu : u.id = i) :
    t.sources = s.sources ++ List.replicate (s.grantedConsents i).length "erasure" := by
  have hrows := h.consentHistory.map_rows (f := ConsentHistory.source) (b := "erasure") <|
    List.forall_mem_map.mpr fun c _ id => rfl
  rw [List.length_map, hu] at hrows
  exact hrows

theorem Erased.drawn (h : Erased P s u d event t) (hu : u.id = i) : t.Drawn P i := by
  subst hu
  constructor
  · rw [h.users]
    refine Table.forall_mem_update _ (fun v _ hne hv => absurd hv hne) fun v _ _ => ?_
    exact ⟨⟨_, rfl⟩, _, _, rfl⟩
  · rw [h.renters]
    refine List.forall_mem_map.mpr fun r _ huser => ?_
    unfold ErasureDraws.renter at huser ⊢
    split at huser
    · rename_i hr; rw [if_pos hr]; exact ⟨_, rfl⟩
    · rename_i hr; exact absurd huser hr

theorem masked_id_userConsent (c : UserConsent) : c.masked id i = c.blank i := by
  unfold UserConsent.masked UserConsent.blank
  split <;> rfl

theorem masked_id_consentHistory (h : ConsentHistory) : h.masked id i = h.blank i := by
  unfold ConsentHistory.masked ConsentHistory.blank
  split <;> rfl

theorem User.blank_anonymize {r : User} (hid : r.id = i) (email hashedPassword : String) (t : DateTime) :
    (r.anonymize email hashedPassword t).blank i =
      { r.masked i with fullName := anonymizedName, isActive := false, anonymizedAt := some 0 } := by
  simp [User.blank, User.masked, User.anonymize, hid]

theorem Renter.userId_masked (r : Renter) : (r.masked i).userId = r.userId := by
  unfold Renter.masked; split <;> rfl

theorem Renter.blank_renter (d : ErasureDraws) (r : Renter) : (d.renter i r).blank i =
    if r.userId = some i then { r.masked i with fullName := anonymizedName } else r.masked i := by
  unfold ErasureDraws.renter Renter.blank Renter.masked
  by_cases hr : r.userId = some i <;> simp [hr, Renter.anonymize]

theorem blank_consent (d : ErasureDraws) (c : UserConsent) : (d.consent i c).blank i =
    if c.userId = i ∧ c.status = .granted then
      { c.masked id i with status := .withdrawn, withdrawnAt := some 0, source := "erasure" }
    else c.masked id i := by
  rw [masked_id_userConsent]
  unfold ErasureDraws.consent
  split
  · rename_i hc
    simp [UserConsent.blank, UserConsent.withdrawn, hc.1]
  · rfl

theorem ConsentHistory.blank_history (d : ErasureDraws) (c : UserConsent) (n : Int) :
    (d.history i c n).blank i = ⟨n, i, c.purpose, .revoke, c.policyVersion, "erasure", 0⟩ := by
  simp [ConsentHistory.blank, ErasureDraws.history, history]

/-- After the erasures, alike databases are equal up to random values and timestamps. -/
theorem Erased.sameUpToDraws (h : Erased P s u d event t) (h' : Erased P s' u' d' event' t')
    (hu : u.id = i) (hu' : u'.id = i) (hs : Alike id i s s')
    (hevent : ∀ n, AuditEvent.blank generated i { event with id := n } =
      AuditEvent.blank generated i { event' with id := n }) : SameUpToDraws P generated i t t' := by
  subst hu
  have hgranted := hs.grantedConsents
  obtain ⟨hseq, haudit⟩ := h.auditEvents
  obtain ⟨hseq', haudit'⟩ := h'.auditEvents
  refine ⟨?_, ?_, ?_, ?_, ?_, ?_, ?_, ?_, ?_, ?_, ?_, ?_, h.drawn rfl, h'.drawn hu'⟩
  · rw [h.users, h'.users, hu']
    refine Table.mapRows_update_congr _ hs.users ?_ ?_
    · intro r _ r' _ hid hrr
      have hid' : r'.id = u.id := by
        rw [← hid, ← User.key_masked u.id r, hrr]
        exact (User.key_masked u.id r').symm
      rw [User.blank_anonymize hid, User.blank_anonymize hid', hrr]
    · intro r r' hne hrr
      have hne' : r'.id ≠ u.id := by
        rw [← User.key_masked u.id r, hrr] at hne
        exact fun heq => hne ((User.key_masked u.id r').trans heq)
      have hr : r.masked u.id = r := if_neg hne
      have hr' : r'.masked u.id = r' := if_neg hne'
      rw [← hr, hrr, hr']
  · rw [h.renters, h'.renters, hu']
    refine Table.mapRows_mapRows_congr _ hs.renters fun r _ r' _ hrr => ?_
    have huser : r.userId = r'.userId := by
      rw [← Renter.userId_masked (i := u.id) r, hrr, Renter.userId_masked]
    rw [Renter.blank_renter, Renter.blank_renter, hrr, huser]
  · rw [h.userConsents, h'.userConsents, hu']
    refine Table.mapRows_mapRows_congr _ hs.userConsents fun c _ c' _ hcc => ?_
    obtain ⟨-, huser, -, hstatus, -⟩ := UserConsent.fields_of_masked hcc
    rw [blank_consent, blank_consent, hcc, huser, hstatus]
  · have hhistory := Table.mapRows_congr_of_related _ (ConsentHistory.key_blank u.id) hs.consentHistory
      fun r r' hrr => by rwa [masked_id_consentHistory, masked_id_consentHistory] at hrr
    refine Table.Extends.mapRows_congr _ hhistory h.consentHistory h'.consentHistory ?_
    rw [hu', List.map_map, List.map_map]
    refine Table.map_eq_of_related hgranted fun c _ c' _ hcc => ?_
    obtain ⟨-, -, hpurpose, -, hversion⟩ := UserConsent.fields_of_masked hcc
    funext n
    simp only [Function.comp_apply, ConsentHistory.blank_history, hpurpose, hversion]
  · rw [haudit, haudit']
    refine Table.mapRows_insert_congr _ (by rw [hs.auditEvents]) ?_
    rw [hs.auditEvents]
    exact hevent _
  · rw [h.userActivity, h'.userActivity, hu', hs.userActivity]
  · rw [h.marketingMessages, h'.marketingMessages, hu', hs.marketingMessages]
  · rw [h.analyticsEvents, h'.analyticsEvents, hu', hs.analyticsEvents]
  · rw [h.stations, h'.stations, hs.stations]
  · rw [h.vehicles, h'.vehicles, hs.vehicles]
  · rw [h.rentals, h'.rentals, hs.rentals]
  · rw [h.telemetryReadings, h'.telemetryReadings, hs.telemetryReadings]

end Erasures

/-! ## The two runs -/

theorem erased_of_erasing {P : Platform} {i : Int} {s : Database} {e : PrivacyAction}
    (h : e.Erasing P i s) :
    ∃ token id a d, e.1.request = .anonymize token i ∧ Correlates e.1.header id ∧ Admits s token i a ∧
      Erased P s a.subject d (erasureEvent a.subject a.actor.id id d.auditedAt) (servePrivacy P s e) := by
  obtain ⟨token, r, hrequest, hanswer, hr⟩ := h
  obtain ⟨id, hid, haccepted⟩ := accepted_of_answer hanswer
  rw [hrequest] at haccepted
  generalize servePrivacy P s e = t at haccepted ⊢
  cases haccepted with
  | erasedBefore ha hu h => cases hr
  | @erased _ _ a d _ ha hu h => exact ⟨token, id, a, d, hrequest, hid, ha, h⟩

theorem SameUpToDraws.sources {P : Platform} {generated : Bool} {i : Int} {t t' : Database}
    (h : SameUpToDraws P generated i t t') : t.sources = t'.sources := by
  refine Table.map_eq_of_related (Table.rows_of_mapRows _ h.consentHistory) fun r _ r' _ hrr => ?_
  have hsource : ∀ r : ConsentHistory, (r.blank i).source = r.source := fun r => by
    unfold ConsentHistory.blank; split <;> rfl
  rw [← hsource r, hrr, hsource]

/-- Two histories of the same accepted requests of one subject, each followed by its erasure, leave the
same contents up to random values and timestamps exactly when the requests that changed a consent had the
same sources. -/
theorem erasure_noninterference {P : Platform} {i : Int} {db : Database}
    {actions actions' : List PrivacyAction} {e e' : PrivacyAction}
    (hshape : actions.map (·.1.request.shape) = actions'.map (·.1.request.shape))
    (hacc : ∀ s a, Runs.Takes (servePrivacy P) db actions s a → a.AcceptedOf P i s)
    (hacc' : ∀ s a, Runs.Takes (servePrivacy P) db actions' s a → a.AcceptedOf P i s)
    (hcall : e.1 = e'.1) (herase : e.Erasing P i (Runs.run (servePrivacy P) db actions))
    (herase' : e'.Erasing P i (Runs.run (servePrivacy P) db actions')) :
    SameUpToDraws P (!e.1.header.any isCorrelationId) i
      (Runs.run (servePrivacy P) db (actions ++ [e])) (Runs.run (servePrivacy P) db (actions' ++ [e'])) ↔
    loggedSources P db actions = loggedSources P db actions' := by
  simp only [Runs.run_append, Runs.run_cons, Runs.run_nil]
  obtain ⟨token, corr, a, d, hrequest, hid, ha, h⟩ := erased_of_erasing herase
  obtain ⟨token', corr', a', d', hrequest', hid', ha', h'⟩ := erased_of_erasing herase'
  constructor
  · intro hsame
    -- The erasures log the same number of sources, whatever the subject has said.
    have halike := run_alike (f := fun _ => "") hshape hacc hacc' (Alike.refl _ i db)
      (Or.inl fun _ _ => rfl)
    have hlen : ((Runs.run (servePrivacy P) db actions).grantedConsents i).length =
        ((Runs.run (servePrivacy P) db actions').grantedConsents i).length := by
      simpa using congrArg List.length halike.grantedConsents
    have hsources := hsame.sources
    rw [h.sources ha.id, h'.sources ha'.id, run_sources hacc, run_sources hacc', hlen,
      List.append_cancel_right_eq, List.append_cancel_left_eq] at hsources
    exact hsources
  · intro hsource
    have halike := run_alike (f := id) hshape hacc hacc' (Alike.refl _ i db) (Or.inr hsource)
    refine h.sameUpToDraws h' ha.id ha'.id halike fun n => ?_
    have hactor : a.actor.id = a'.actor.id := by
      have htoken : token = token' := by
        rw [hcall, hrequest'] at hrequest
        cases hrequest; rfl
      exact Option.some.inj (ha.token.symm.trans (htoken.trans ha'.token))
    have hcorr : e.1.header.any isCorrelationId = true → corr = corr' := by
      intro hvalid
      rw [← hcall] at hid'
      exact Option.some.inj ((hid hvalid).symm.trans (hid' hvalid))
    cases hvalid : e.1.header.any isCorrelationId with
    | false => simp [AuditEvent.blank, erasureEvent, auditEvent, ha.id, ha'.id, hactor]
    | true => simp [AuditEvent.blank, erasureEvent, auditEvent, ha.id, ha'.id, hactor, hcorr hvalid]

/-! ## Two histories of one account -/

def saying (email fullName source : String) : List PrivacyAction :=
  [asks (.register email "password" fullName none),
    asks (.grantConsent (some 2) 2 .marketingEmail "2026-01" source)]

def forgetMe : PrivacyAction := asks (.anonymize (some 2) 2)

theorem ivan_accepted : ∀ s a, Runs.Takes (servePrivacy plainPlatform) office
    (saying "ivan@fleet.org" "Ivan Petrenko" "web") s a → a.AcceptedOf plainPlatform 2 s := by
  intro s a ht
  rcases Runs.takes_cons.mp ht with ⟨rfl, rfl⟩ | ht
  · exact ⟨_, rfl, rfl⟩
  rcases Runs.takes_cons.mp ht with ⟨rfl, rfl⟩ | ht
  · exact ⟨_, rfl, rfl, rfl⟩
  exact absurd ht Runs.takes_nil

theorem olena_accepted : ∀ s a, Runs.Takes (servePrivacy plainPlatform) office
    (saying "olena@fleet.org" "Olena Bondar" "olena@fleet.org") s a → a.AcceptedOf plainPlatform 2 s := by
  intro s a ht
  rcases Runs.takes_cons.mp ht with ⟨rfl, rfl⟩ | ht
  · exact ⟨_, rfl, rfl⟩
  rcases Runs.takes_cons.mp ht with ⟨rfl, rfl⟩ | ht
  · exact ⟨_, rfl, rfl, rfl⟩
  exact absurd ht Runs.takes_nil

theorem ivan_erased : forgetMe.Erasing plainPlatform 2
    (Runs.run (servePrivacy plainPlatform) office (saying "ivan@fleet.org" "Ivan Petrenko" "web")) :=
  ⟨_, _, rfl, rfl, rfl⟩

theorem olena_erased : forgetMe.Erasing plainPlatform 2
    (Runs.run (servePrivacy plainPlatform) office
      (saying "olena@fleet.org" "Olena Bondar" "olena@fleet.org")) :=
  ⟨_, _, rfl, rfl, rfl⟩

/-- Histories that differ in free text only, and the address that was given as a source is still there. -/
theorem source_survives_erasure :
    (saying "ivan@fleet.org" "Ivan Petrenko" "web").map (·.1.request.shape) =
      (saying "olena@fleet.org" "Olena Bondar" "olena@fleet.org").map (·.1.request.shape) ∧
    (∀ s a, Runs.Takes (servePrivacy plainPlatform) office
      (saying "ivan@fleet.org" "Ivan Petrenko" "web") s a →
      a.AcceptedOf plainPlatform 2 s) ∧
    (∀ s a, Runs.Takes (servePrivacy plainPlatform) office
      (saying "olena@fleet.org" "Olena Bondar" "olena@fleet.org") s a → a.AcceptedOf plainPlatform 2 s) ∧
    forgetMe.Erasing plainPlatform 2 (Runs.run (servePrivacy plainPlatform) office
      (saying "ivan@fleet.org" "Ivan Petrenko" "web")) ∧
    forgetMe.Erasing plainPlatform 2 (Runs.run (servePrivacy plainPlatform) office
      (saying "olena@fleet.org" "Olena Bondar" "olena@fleet.org")) ∧
    ¬ SameUpToDraws plainPlatform (!forgetMe.1.header.any isCorrelationId) 2
      (Runs.run (servePrivacy plainPlatform) office
        (saying "ivan@fleet.org" "Ivan Petrenko" "web" ++ [forgetMe]))
      (Runs.run (servePrivacy plainPlatform) office
        (saying "olena@fleet.org" "Olena Bondar" "olena@fleet.org" ++ [forgetMe])) :=
  ⟨rfl, ivan_accepted, olena_accepted, ivan_erased, olena_erased, fun h => absurd h.sources (by decide)⟩

theorem saying_noninterference :
    SameUpToDraws plainPlatform (!forgetMe.1.header.any isCorrelationId) 2
      (Runs.run (servePrivacy plainPlatform) office
        (saying "ivan@fleet.org" "Ivan Petrenko" "web" ++ [forgetMe]))
      (Runs.run (servePrivacy plainPlatform) office
        (saying "olena@fleet.org" "Olena Bondar" "olena@fleet.org" ++ [forgetMe])) ↔
    loggedSources plainPlatform office (saying "ivan@fleet.org" "Ivan Petrenko" "web") =
      loggedSources plainPlatform office (saying "olena@fleet.org" "Olena Bondar" "olena@fleet.org") :=
  erasure_noninterference (by rfl) ivan_accepted olena_accepted rfl ivan_erased olena_erased

end FleetManagement
