import FleetManagement.Library.References
import FleetManagement.Library.Rely
import FleetManagement.Privacy.Guarding

/-!
# What requests can rely on

Whatever other requests commit, the unique constraints and the foreign keys hold, the rows that requests
refer to stay, and rentals that have ended stay so.
-/

namespace FleetManagement

variable {P : Platform} {db db' : Database}

/-! ## Unique columns -/

section Unique
variable {ρ κ : Type} [Keyed ρ] {t : Table ρ} {f : ρ → Option κ}

theorem UniqueBy.insert {h mk hk} (hunique : UniqueBy t f)
    (hnew : ∀ k, f (mk (t.seq + 1)) = some k → ∀ r ∈ t.rows, f r ≠ some k) :
    UniqueBy (t.insert h mk hk) f := by
  have hfresh : ∀ r ∈ t.rows, f r = f (mk (t.seq + 1)) → (f r).isSome = true → False := by
    intro r hr heq hsome
    obtain ⟨k, hk⟩ := Option.isSome_iff_exists.mp hsome
    exact hnew k (heq ▸ hk) r hr hk
  intro a ha b hb heq hsome
  rcases List.mem_append.mp ha with ha | ha <;> rcases List.mem_append.mp hb with hb | hb
  · exact hunique a ha b hb heq hsome
  · rw [List.mem_singleton.mp hb] at heq
    exact (hfresh a ha heq hsome).elim
  · rw [List.mem_singleton.mp ha] at heq hsome
    exact (hfresh b hb heq.symm (heq ▸ hsome)).elim
  · rw [List.mem_singleton.mp ha, List.mem_singleton.mp hb]

/-- An update that gives the column a value that no other row has, or leaves it as it is. -/
theorem UniqueBy.update {i : Int} {g : ρ → ρ} (hunique : UniqueBy t f)
    (hg : ∀ r, Keyed.key (g r) = Keyed.key r)
    (hnew : ∀ r, f (g r) = f r ∨
      ∀ k, f (g r) = some k → ∀ q ∈ t.rows, Keyed.key q ≠ i → f q ≠ some k) :
    UniqueBy (t.update i g hg) f := by
  have hother : ∀ a ∈ t.rows, Keyed.key a ≠ i → ∀ r, t.find? i = some r → f a = f (g r) →
      (f a).isSome = true → a = g r := by
    intro a ha hne r hr heq hsome
    rcases hnew r with hsame | hfresh
    · rw [hsame] at heq
      have har := hunique a ha r (Table.mem_of_find? hr) heq hsome
      exact absurd (har ▸ Table.key_of_find? hr) hne
    · obtain ⟨k, hk⟩ := Option.isSome_iff_exists.mp hsome
      exact absurd hk (hfresh k (heq ▸ hk) a ha hne)
  intro a ha b hb heq hsome
  rcases Table.mem_update.mp ha with ⟨ha, hna⟩ | ⟨r, hr, rfl⟩ <;>
    rcases Table.mem_update.mp hb with ⟨hb, hnb⟩ | ⟨q, hq, rfl⟩
  · exact hunique a ha b hb heq hsome
  · exact hother a ha hna q hq heq hsome
  · exact (hother b hb hnb r hr heq.symm (heq ▸ hsome)).symm
  · rw [Option.some.inj (hr.symm.trans hq)]

theorem unique_ok_iff {p : ρ → Bool} : unique t p = .ok () ↔ ∀ r ∈ t.rows, p r = false := by
  simp [unique_ok]

theorem optional_ok {α : Type} {check : α → Except Error Unit} {o : Option α} :
    optional check o = .ok () ↔ ∀ a, o = some a → check a = .ok () := by
  cases o <;> simp [optional]

end Unique

/-! ## What the schema asks of the rows -/

structure Database.Sound (db : Database) : Prop where
  unique : db.MeetsUnique
  vehicleStation : db.vehicles.Refers (fun v => some v.stationId) db.stations
  rentalRenter : db.rentals.Refers (fun r => some r.renterId) db.renters
  rentalVehicle : db.rentals.Refers (fun r => some r.vehicleId) db.vehicles
  rentalStart : db.rentals.Refers (fun r => some r.startStationId) db.stations
  rentalEnd : db.rentals.Refers (fun r => r.endStationId) db.stations
  readingVehicle : db.telemetryReadings.Refers (fun r => some r.vehicleId) db.vehicles
  renterUser : db.renters.Refers (fun r => r.userId) db.users
  consentUser : db.userConsents.Refers (fun c => some c.userId) db.users
  historyUser : db.consentHistory.Refers (fun h => some h.userId) db.users
  activityUser : db.userActivity.Refers (fun a => some a.userId) db.users
  messageUser : db.marketingMessages.Refers (fun m => some m.userId) db.users
  eventUser : db.analyticsEvents.Refers (fun e => some e.userId) db.users

theorem sound_empty : Database.empty.Sound := by
  constructor
  · constructor <;> exact fun _ ha => by cases ha
  all_goals exact Table.refers_empty

theorem checks_cons {c : Except Error Unit} {k : Unit → Except Error Unit} :
    (c >>= k) = .ok () ↔ c = .ok () ∧ k () = .ok () := by
  rw [bind_eq_ok]
  exact ⟨fun ⟨_, hc, hk⟩ => ⟨hc, hk⟩, fun ⟨hc, hk⟩ => ⟨(), hc, hk⟩⟩

/-! ## The columns that an update writes -/

theorem VehicleSet.stationId_on {set : VehicleSet} (hcheck : set.check db = .ok ()) (v : Vehicle) :
    some (set.on v).stationId = some v.stationId ∨
      ∀ i, some (set.on v).stationId = some i → ∃ q, db.stations.find? i = some q := by
  simp only [VehicleSet.check, optional_ok, references_ok] at hcheck
  cases hset : set.stationId with
  | none => simp [VehicleSet.on, hset]
  | some i =>
      obtain ⟨q, hq⟩ := hcheck i hset
      refine Or.inr fun j hj => ⟨q, ?_⟩
      have hij : i = j := by simpa [VehicleSet.on, hset] using hj
      exact hij ▸ hq

theorem RentalSet.endStationId_on {set : RentalSet} (hcheck : set.check db = .ok ()) (r : Rental) :
    (set.on r).endStationId = r.endStationId ∨
      ∀ i, (set.on r).endStationId = some i → ∃ q, db.stations.find? i = some q := by
  simp only [RentalSet.check, optional_ok, references_ok] at hcheck
  cases hset : set.endStationId with
  | none => simp [RentalSet.on, hset]
  | some o => exact Or.inr fun i hi => hcheck o hset i (by simpa [RentalSet.on, hset] using hi)

theorem UserSet.email_on {set : UserSet} {id : Int} (hcheck : set.check db id = .ok ()) (u : User) :
    some (set.on u).email = some u.email ∨ ∀ e, some (set.on u).email = some e →
      ∀ q ∈ db.users.rows, q.id ≠ id → some q.email ≠ some e := by
  simp only [UserSet.check, checks_cons, optional_ok, unique_ok_iff] at hcheck
  cases hset : set.email with
  | none => simp [UserSet.on, hset]
  | some e =>
      refine Or.inr fun e' he' q hq hne heq => ?_
      have hemail : q.email = e := by
        rw [← he'] at heq
        simpa [UserSet.on, hset] using heq
      simpa [hne, hemail] using hcheck.2.2.2.2 e hset q hq

theorem RenterSet.licenseNumber_on {set : RenterSet} {id : Int} (hcheck : set.check db id = .ok ())
    (r : Renter) : some (set.on r).licenseNumber = some r.licenseNumber ∨
      ∀ l, some (set.on r).licenseNumber = some l →
        ∀ q ∈ db.renters.rows, q.id ≠ id → some q.licenseNumber ≠ some l := by
  simp only [RenterSet.check, checks_cons, optional_ok, unique_ok_iff] at hcheck
  cases hset : set.licenseNumber with
  | none => simp [RenterSet.on, hset]
  | some l =>
      refine Or.inr fun l' hl' q hq hne heq => ?_
      have hlicense : q.licenseNumber = l := by
        rw [← hl'] at heq
        simpa [RenterSet.on, hset] using heq
      simpa [hne, hlicense] using hcheck.2.2 l hset q hq

/-! ## What a statement keeps -/

theorem Database.Sound.apply {w : Stmt} (h : db.Sound) (happ : dialect.apply w db = .ok db') : db'.Sound := by
  have hu := h.unique
  cases w with
  | insertStation row =>
      obtain ⟨-, hseq, rfl⟩ := insertStation_ok.mp happ
      exact { h with
        unique := { hu with }
        vehicleStation := h.vehicleStation.insert_right
        rentalStart := h.rentalStart.insert_right
        rentalEnd := h.rentalEnd.insert_right }
  | insertVehicle row =>
      obtain ⟨hcheck, hseq, rfl⟩ := insertVehicle_ok.mp happ
      simp only [Vehicle.check, checks_cons, unique_ok_iff, references_ok] at hcheck
      obtain ⟨-, -, hplate, hstation⟩ := hcheck
      exact { h with
        unique := { hu with
          licensePlate := hu.licensePlate.insert fun k hk r hr => by
            cases hk
            simpa using hplate r hr }
        vehicleStation := h.vehicleStation.insert fun i hi => by cases hi; exact hstation
        rentalVehicle := h.rentalVehicle.insert_right
        readingVehicle := h.readingVehicle.insert_right }
  | insertRenter row =>
      obtain ⟨hcheck, hseq, rfl⟩ := insertRenter_ok.mp happ
      simp only [Renter.check, checks_cons, unique_ok_iff, references_ok, optional_ok] at hcheck
      obtain ⟨-, -, hlicense, huser, hexists⟩ := hcheck
      exact { h with
        unique := { hu with
          licenseNumber := hu.licenseNumber.insert fun k hk r hr => by
            cases hk
            simpa using hlicense r hr
          renterOfUser := hu.renterOfUser.insert fun k hk r hr => by simpa using huser k hk r hr }
        rentalRenter := h.rentalRenter.insert_right
        renterUser := h.renterUser.insert hexists }
  | insertRental row =>
      obtain ⟨hcheck, hseq, rfl⟩ := insertRental_ok.mp happ
      simp only [Rental.check, checks_cons, references_ok, optional_ok] at hcheck
      obtain ⟨hrenter, hvehicle, hstart, hend⟩ := hcheck
      exact { h with
        unique := { hu with }
        rentalRenter := h.rentalRenter.insert fun i hi => by cases hi; exact hrenter
        rentalVehicle := h.rentalVehicle.insert fun i hi => by cases hi; exact hvehicle
        rentalStart := h.rentalStart.insert fun i hi => by cases hi; exact hstart
        rentalEnd := h.rentalEnd.insert hend }
  | insertUser row =>
      obtain ⟨hcheck, hseq, rfl⟩ := insertUser_ok.mp happ
      simp only [User.check, checks_cons, unique_ok_iff] at hcheck
      obtain ⟨-, -, -, -, hemail⟩ := hcheck
      exact { h with
        unique := { hu with
          email := hu.email.insert fun k hk r hr => by
            cases hk
            simpa using hemail r hr }
        renterUser := h.renterUser.insert_right
        consentUser := h.consentUser.insert_right
        historyUser := h.historyUser.insert_right
        activityUser := h.activityUser.insert_right
        messageUser := h.messageUser.insert_right
        eventUser := h.eventUser.insert_right }
  | insertUserConsent row =>
      obtain ⟨hcheck, hseq, rfl⟩ := insertUserConsent_ok.mp happ
      simp only [UserConsent.check, checks_cons, unique_ok_iff, references_ok] at hcheck
      obtain ⟨-, -, hpurpose, huser⟩ := hcheck
      exact { h with
        unique := { hu with
          consent := hu.consent.insert fun k hk r hr => by
            cases hk
            simpa using hpurpose r hr }
        consentUser := h.consentUser.insert fun i hi => by cases hi; exact huser }
  | insertConsentHistory row =>
      obtain ⟨hcheck, hseq, rfl⟩ := insertConsentHistory_ok.mp happ
      simp only [ConsentHistory.check, checks_cons, references_ok] at hcheck
      exact { h with
        unique := { hu with }
        historyUser := h.historyUser.insert fun i hi => by cases hi; exact hcheck.2.2 }
  | insertUserActivity row =>
      obtain ⟨hcheck, hseq, rfl⟩ := insertUserActivity_ok.mp happ
      simp only [UserActivity.check, checks_cons, references_ok] at hcheck
      exact { h with
        unique := { hu with }
        activityUser := h.activityUser.insert fun i hi => by cases hi; exact hcheck.2.2.2 }
  | insertAuditEvent row =>
      obtain ⟨-, hseq, rfl⟩ := insertAuditEvent_ok.mp happ
      exact { h with unique := { hu with } }
  | insertMarketingMessage row =>
      obtain ⟨hcheck, hseq, rfl⟩ := insertMarketingMessage_ok.mp happ
      simp only [MarketingMessage.check, checks_cons, references_ok] at hcheck
      exact { h with
        unique := { hu with }
        messageUser := h.messageUser.insert fun i hi => by cases hi; exact hcheck.2 }
  | insertAnalyticsEvent row =>
      obtain ⟨hcheck, hseq, rfl⟩ := insertAnalyticsEvent_ok.mp happ
      simp only [AnalyticsEvent.check, checks_cons, references_ok] at hcheck
      exact { h with
        unique := { hu with }
        eventUser := h.eventUser.insert fun i hi => by cases hi; exact hcheck.2 }
  | updateVehicle id set =>
      obtain ⟨hcheck, -, rfl⟩ := updateVehicle_ok.mp happ
      exact { h with
        unique := { hu with licensePlate := hu.licensePlate.update set.key_on fun r => Or.inl rfl }
        vehicleStation := h.vehicleStation.update set.key_on (VehicleSet.stationId_on hcheck)
        rentalVehicle := h.rentalVehicle.update_right set.key_on
        readingVehicle := h.readingVehicle.update_right set.key_on }
  | updateRental id set =>
      obtain ⟨hcheck, -, rfl⟩ := updateRental_ok.mp happ
      exact { h with
        unique := { hu with }
        rentalRenter := h.rentalRenter.update set.key_on fun r => Or.inl rfl
        rentalVehicle := h.rentalVehicle.update set.key_on fun r => Or.inl rfl
        rentalStart := h.rentalStart.update set.key_on fun r => Or.inl rfl
        rentalEnd := h.rentalEnd.update set.key_on (RentalSet.endStationId_on hcheck) }
  | updateUser id set =>
      obtain ⟨hcheck, -, rfl⟩ := updateUser_ok.mp happ
      exact { h with
        unique := { hu with email := hu.email.update set.key_on (UserSet.email_on hcheck) }
        renterUser := h.renterUser.update_right set.key_on
        consentUser := h.consentUser.update_right set.key_on
        historyUser := h.historyUser.update_right set.key_on
        activityUser := h.activityUser.update_right set.key_on
        messageUser := h.messageUser.update_right set.key_on
        eventUser := h.eventUser.update_right set.key_on }
  | updateRenter id set =>
      obtain ⟨hcheck, -, rfl⟩ := updateRenter_ok.mp happ
      exact { h with
        unique := { hu with
          licenseNumber := hu.licenseNumber.update set.key_on (RenterSet.licenseNumber_on hcheck)
          renterOfUser := hu.renterOfUser.update set.key_on fun r => Or.inl rfl }
        rentalRenter := h.rentalRenter.update_right set.key_on
        renterUser := h.renterUser.update set.key_on fun r => Or.inl rfl }
  | updateUserConsent id set =>
      obtain ⟨-, -, rfl⟩ := updateUserConsent_ok.mp happ
      exact { h with
        unique := { hu with consent := hu.consent.update set.key_on fun r => Or.inl rfl }
        consentUser := h.consentUser.update set.key_on fun r => Or.inl rfl }
  | updateMarketingMessage id set =>
      obtain ⟨-, rfl⟩ := updateMarketingMessage_ok.mp happ
      exact { h with
        unique := { hu with }
        messageUser := h.messageUser.update set.key_on fun r => Or.inl rfl }
  | deleteUserActivity userId =>
      cases happ
      exact { h with unique := { hu with }, activityUser := h.activityUser.deleteWhere }
  | deleteMarketingMessages userId =>
      cases happ
      exact { h with unique := { hu with }, messageUser := h.messageUser.deleteWhere }
  | deleteAnalyticsEvents userId =>
      cases happ
      exact { h with unique := { hu with }, eventUser := h.eventUser.deleteWhere }

theorem Database.Sound.applyAll {ws : List Stmt} (h : db.Sound) (happ : dialect.applyAll ws db = .ok db') :
    db'.Sound := by
  induction ws generalizing db with
  | nil => cases happ; exact h
  | cons w ws ih =>
      obtain ⟨db₁, h₁, happ⟩ := dialect.applyAll_cons_ok.mp happ
      exact ih (h.apply h₁) happ

/-! ## Rows that stay -/

/-- What is still true of the rows that an earlier query has returned. -/
structure Database.Keeps (db db' : Database) : Prop where
  stations : db.stations.Retains (fun _ _ => True) db'.stations
  vehicles : db.vehicles.Retains (fun _ _ => True) db'.vehicles
  renters : db.renters.Retains (fun r q => q.userId = r.userId) db'.renters
  rentals : db.rentals.Retains (fun r q => q.vehicleId = r.vehicleId ∧ (r.endedAt ≠ none → q.endedAt ≠ none))
    db'.rentals
  users : db.users.Retains (fun _ _ => True) db'.users
  consents : db.userConsents.Retains (fun c d => d.userId = c.userId ∧ d.purpose = c.purpose)
    db'.userConsents

theorem Keeps.refl (s : Database) : s.Keeps s where
  stations := Table.retains_refl (fun _ => trivial) _
  vehicles := Table.retains_refl (fun _ => trivial) _
  renters _ r hr := ⟨r, hr, rfl⟩
  rentals := Table.retains_refl (fun _ => ⟨rfl, id⟩) _
  users := Table.retains_refl (fun _ => trivial) _
  consents := Table.retains_refl (fun _ => ⟨rfl, rfl⟩) _

theorem Keeps.trans (s t u : Database) (h : s.Keeps t) (h' : t.Keeps u) : s.Keeps u where
  stations := h.stations.trans (fun _ _ _ _ _ => trivial) h'.stations
  vehicles := h.vehicles.trans (fun _ _ _ _ _ => trivial) h'.vehicles
  renters := h.renters.trans (fun _ _ _ hpq hqr => hqr.trans hpq) h'.renters
  rentals := h.rentals.trans (fun _ _ _ hpq hqr => ⟨hqr.1.trans hpq.1, fun hp => hqr.2 (hpq.2 hp)⟩) h'.rentals
  users := h.users.trans (fun _ _ _ _ _ => trivial) h'.users
  consents := h.consents.trans (fun _ _ _ hpq hqr => ⟨hqr.1.trans hpq.1, hqr.2.trans hpq.2⟩) h'.consents

theorem Database.Keeps.has_user (h : db.Keeps db') {u : Int} (hu : ∃ row, db.users.find? u = some row) :
    ∃ row, db'.users.find? u = some row := by
  obtain ⟨row, hrow⟩ := hu
  obtain ⟨row', hrow', -⟩ := h.users u row hrow
  exact ⟨row', hrow'⟩

theorem Database.Keeps.no_user (h : db.Keeps db') {u : Int} (hu : ∃ row, db.users.find? u = some row)
    (hnone : db'.users.find? u = none) : False := by
  obtain ⟨row, hrow⟩ := hu
  obtain ⟨row', hrow', -⟩ := h.users u row hrow
  rw [hnone] at hrow'
  cases hrow'

/-- The statement reopens no rental. -/
def Stmt.keepsEnds : Stmt → Bool
  | .updateRental _ set => set.endedAt ≠ some none
  | _ => true

theorem RentalSet.endedAt_on {set : RentalSet} (h : set.endedAt ≠ some none) {r : Rental}
    (hr : r.endedAt ≠ none) : (set.on r).endedAt ≠ none := by
  cases hset : set.endedAt with
  | none => simpa [RentalSet.on, hset] using hr
  | some o => simpa [RentalSet.on, hset] using fun ho => h (hset.trans (congrArg some ho))

theorem keeps_of_apply {w : Stmt} (hw : w.keepsEnds = true) (h : dialect.apply w db = .ok db') :
    db.Keeps db' := by
  have hrefl := Keeps.refl db
  cases w with
  | insertStation =>
      obtain ⟨-, -, rfl⟩ := insertStation_ok.mp h
      exact { hrefl with stations := Table.retains_insert fun _ => trivial }
  | insertVehicle =>
      obtain ⟨-, -, rfl⟩ := insertVehicle_ok.mp h
      exact { hrefl with vehicles := Table.retains_insert fun _ => trivial }
  | insertRenter =>
      obtain ⟨-, -, rfl⟩ := insertRenter_ok.mp h
      exact { hrefl with renters := Table.retains_insert fun _ => rfl }
  | insertRental =>
      obtain ⟨-, -, rfl⟩ := insertRental_ok.mp h
      exact { hrefl with rentals := Table.retains_insert fun _ => ⟨rfl, id⟩ }
  | insertUser =>
      obtain ⟨-, -, rfl⟩ := insertUser_ok.mp h
      exact { hrefl with users := Table.retains_insert fun _ => trivial }
  | insertUserConsent =>
      obtain ⟨-, -, rfl⟩ := insertUserConsent_ok.mp h
      exact { hrefl with consents := Table.retains_insert fun _ => ⟨rfl, rfl⟩ }
  | insertConsentHistory => obtain ⟨-, -, rfl⟩ := insertConsentHistory_ok.mp h; exact { hrefl with }
  | insertUserActivity => obtain ⟨-, -, rfl⟩ := insertUserActivity_ok.mp h; exact { hrefl with }
  | insertAuditEvent => obtain ⟨-, -, rfl⟩ := insertAuditEvent_ok.mp h; exact { hrefl with }
  | insertMarketingMessage => obtain ⟨-, -, rfl⟩ := insertMarketingMessage_ok.mp h; exact { hrefl with }
  | insertAnalyticsEvent => obtain ⟨-, -, rfl⟩ := insertAnalyticsEvent_ok.mp h; exact { hrefl with }
  | updateVehicle id set =>
      obtain ⟨-, -, rfl⟩ := updateVehicle_ok.mp h
      exact { hrefl with vehicles := Table.retains_update set.key_on (fun _ => trivial) fun _ => trivial }
  | updateRental id set =>
      obtain ⟨-, -, rfl⟩ := updateRental_ok.mp h
      have hset : set.endedAt ≠ some none := by simpa [Stmt.keepsEnds] using hw
      exact { hrefl with
        rentals := Table.retains_update set.key_on (fun _ => ⟨rfl, fun hr => hr⟩)
          fun _ => ⟨rfl, RentalSet.endedAt_on hset⟩ }
  | updateUser id set =>
      obtain ⟨-, -, rfl⟩ := updateUser_ok.mp h
      exact { hrefl with users := Table.retains_update set.key_on (fun _ => trivial) fun _ => trivial }
  | updateRenter id set =>
      obtain ⟨-, -, rfl⟩ := updateRenter_ok.mp h
      exact { hrefl with renters := Table.retains_update set.key_on (fun _ => rfl) fun _ => rfl }
  | updateUserConsent id set =>
      obtain ⟨-, -, rfl⟩ := updateUserConsent_ok.mp h
      exact { hrefl with
        consents := Table.retains_update set.key_on (fun _ => ⟨rfl, rfl⟩) fun _ => ⟨rfl, rfl⟩ }
  | updateMarketingMessage => obtain ⟨-, rfl⟩ := updateMarketingMessage_ok.mp h; exact { hrefl with }
  | deleteUserActivity => cases h; exact { hrefl with }
  | deleteMarketingMessages => cases h; exact { hrefl with }
  | deleteAnalyticsEvents => cases h; exact { hrefl with }

theorem keeps_of_applyAll {ws : List Stmt} (hws : ∀ w ∈ ws, w.keepsEnds = true)
    (h : dialect.applyAll ws db = .ok db') : db.Keeps db' := by
  induction ws generalizing db with
  | nil => cases h; exact Keeps.refl _
  | cons w ws ih =>
      obtain ⟨db₁, h₁, h⟩ := dialect.applyAll_cons_ok.mp h
      exact Keeps.trans _ _ _ (keeps_of_apply (hws w List.mem_cons_self) h₁)
        (ih (fun w hw => hws w (List.mem_cons_of_mem _ hw)) h)

/-! ## Runs -/

section Runs
variable {ι : Type} [DecidableEq ι] {requests : ι → ApiRequest} {p : ApiPool ι} {a : ι × Choice Draw Error}

/-- No transaction of the request reopens a rental: it is permitted none, or it is a fleet route. -/
theorem handler_keepsEnds (r : ApiRequest) (s : Database) :
    Tx.Meets dialect (fun _ => True) Database.KeepsOwners
      (fun _ ws => r.isFleet = true → ∀ w ∈ ws, w.keepsEnds = true) (r.handler P) s [] := by
  cases r with
  | fleet request =>
      have hemits : Tx.Emits (fun w => w.ofFleet = true) ((ApiRequest.fleet request).handler P) :=
        Tx.emits_bind (emits_route request) fun _ => trivial
      refine Tx.Emits.meets (fun _ ws hws _ w hw => ?_) hemits (by simp)
      have hfleet := hws w hw
      cases w with
      | updateRental id set => exact hfleet
      | _ => rfl
  | _ =>
      exact Tx.Emits.meets (p := fun _ => True) (fun _ _ _ hfleet => by cases hfleet)
        (Tx.emits_any (fun _ => trivial) _) (by simp)

/-- What every step of the API leaves true. -/
structure StaysSound (requests : ι → ApiRequest) (p : ApiPool ι) : Prop where
  sound : p.store.Sound
  permitted : CommitsPermitted requests p
  ends : p.AllMeet dialect (fun _ => True) Database.KeepsOwners
    fun i _ ws => (requests i).isFleet = true → ∀ w ∈ ws, w.keepsEnds = true

theorem StaysSound.keeps (h : StaysSound requests p) : p.store.Keeps (p.step dialect a).store := by
  cases hpub : p.publishes dialect a with
  | none =>
      rw [(Pool.step_of_silent hpub).1]
      exact Keeps.refl _
  | some ws =>
      obtain ⟨s, hs, hst, -⟩ := Pool.step_of_publishes hpub
      rw [hst]
      refine keeps_of_applyAll (fun w hw => ?_) hs
      have hpermits := Pool.AllMeet.publishes KeepsOwners.refl trivial h.permitted hpub w hw
      have hends := Pool.AllMeet.publishes KeepsOwners.refl trivial h.ends hpub
      cases w with
      | updateRental id set => exact hends hpermits _ hw
      | _ => rfl

theorem StaysSound.step (h : StaysSound requests p) : StaysSound requests (p.step dialect a) where
  sound := by
    cases hpub : p.publishes dialect a with
    | none =>
        rw [(Pool.step_of_silent hpub).1]
        exact h.sound
    | some ws =>
        obtain ⟨s, hs, hst, -⟩ := Pool.step_of_publishes hpub
        rw [hst]
        exact h.sound.applyAll hs
  permitted := h.permitted.step
  ends := Pool.AllMeet.step KeepsOwners.refl KeepsOwners.trans trivial h.ends (keepsOwners_step p a)

/-- How the requests of a run can end and what they note, where they rely on states of the run that are sound
and keep their rows, and on failing steps that raise what `B` allows. -/
theorem reports_of_visits {ν : Type} {note : List Stmt → List ν} {B : Error → Prop} {V : Database → Prop}
    {E : ι → Error → List ν → Prop} {Q : ι → ApiResponse → List ν → Prop} (hdb : db.Sound)
    (requests : ι → ApiRequest) (schedule : List (ι × Choice Draw Error))
    (hfaults : ∀ q a, Runs.Takes (Pool.step dialect) (apiRequests P db requests) schedule q a →
      V q.store ∧ ∀ e, a.2.fault = some e → B e)
    (hstart : ∀ i, Tx.Reports dialect (fun t => t.Sound ∧ V t) Database.Keeps B note
      (fun e _ told => E i e told) (fun response _ _ told => Q i response told) ((requests i).handler P) db [] [])
    (h : Runs.Visits (Pool.step dialect) (apiRequests P db requests) schedule p) :
    p.AllReports dialect (fun t => t.Sound ∧ V t) Database.Keeps B note (fun i e _ told => E i e told)
      fun i response _ _ told => Q i response told := by
  let Inv : ApiPool ι → Prop := fun q => StaysSound requests q ∧ q.AllReports dialect
    (fun t => t.Sound ∧ V t) Database.Keeps B note (fun i e _ told => E i e told)
    fun i response _ _ told => Q i response told
  have hkeep : ∀ (q : ApiPool ι) (a : ι × Choice Draw Error), Inv q →
      (V q.store ∧ ∀ e, a.2.fault = some e → B e) → Inv (q.step dialect a) := by
    intro q a hq hok
    refine ⟨hq.1.step, hq.2.step Keeps.refl Keeps.trans (fun _ _ _ _ _ _ => id) (fun _ _ _ _ _ _ _ => id)
      hok.2 ⟨hq.1.sound, hok.1⟩ hq.1.keeps⟩
  have hsteady : StaysSound requests (apiRequests P db requests) :=
    ⟨hdb, fun i => handler_authorized (requests i), fun i => handler_keepsEnds (requests i) db⟩
  exact (Runs.invariant_of_guarded hkeep ⟨hsteady, hstart⟩ hfaults p h).2

theorem rely_of_visits {B : Error → Prop} {V : Database → Prop} {E : ι → Error → Prop}
    {Q : ι → ApiResponse → Prop} (hdb : db.Sound) (requests : ι → ApiRequest)
    (schedule : List (ι × Choice Draw Error))
    (hfaults : ∀ q a, Runs.Takes (Pool.step dialect) (apiRequests P db requests) schedule q a →
      V q.store ∧ ∀ e, a.2.fault = some e → B e)
    (hstart : ∀ i, Tx.Rely dialect (fun t => t.Sound ∧ V t) Database.Keeps B (fun e _ => E i e)
      (fun response _ _ => Q i response) ((requests i).handler P) db [])
    (h : Runs.Visits (Pool.step dialect) (apiRequests P db requests) schedule p) :
    p.AllRely dialect (fun t => t.Sound ∧ V t) Database.Keeps B (fun i e _ => E i e)
      fun i response _ _ => Q i response :=
  reports_of_visits (E := fun i e _ => E i e) (Q := fun i response _ => Q i response) hdb requests schedule
    hfaults hstart h

end Runs

end FleetManagement
