import FleetManagement.Lemmas.Statements

/-!
# What a rejected statement raises

`Fails φ x` says that `x` raises nothing but errors that satisfy `φ`; each statement comes with the state
of the database in which it raises an `IntegrityError` or a `StaleDataError`.
-/

namespace FleetManagement

def Fails {β : Type} (φ : Error → Prop) (x : Except Error β) : Prop := ∀ e, x = .error e → φ e

variable {φ : Error → Prop} {db : Database}

theorem fails_ok {β : Type} (b : β) : Fails φ (.ok b : Except Error β) := fun _ h => by cases h

theorem fails_bind {β γ : Type} {x : Except Error β} {f : β → Except Error γ} (hx : Fails φ x)
    (hf : ∀ b, x = .ok b → Fails φ (f b)) : Fails φ (x >>= f) := by
  intro e h
  cases x with
  | error e' =>
      obtain rfl : e' = e := by simpa [bind, Except.bind] using h
      exact hx e' rfl
  | ok b => exact hf b rfl e h

/-! ## Checks -/

theorem fails_varchar (hdata : φ .dataError) (n : Nat) (v : String) : Fails φ (varchar n v) := by
  intro e h
  unfold varchar at h
  split at h
  · cases h
  · cases h; exact hdata

theorem fails_integer (hdata : φ .dataError) (i : Int) : Fails φ (integer i) := by
  intro e h
  unfold integer at h
  split at h
  · cases h
  · cases h; exact hdata

theorem fails_optional {β : Type} {check : β → Except Error Unit} {o : Option β}
    (h : ∀ b, o = some b → Fails φ (check b)) : Fails φ (optional check o) := by
  cases o with
  | none => exact fails_ok ()
  | some b => exact h b rfl

section Rows
variable {ρ : Type} [Keyed ρ] {t : Table ρ}

theorem fails_unique {p : ρ → Bool} (h : (∃ r ∈ t.rows, p r = true) → φ .integrityError) :
    Fails φ (unique t p) := by
  intro e he
  unfold unique at he
  split at he
  · rename_i hany
    cases he
    exact h (List.any_eq_true.mp hany)
  · cases he

theorem fails_references {i : Int} (h : t.find? i = none → φ .integrityError) : Fails φ (references t i) := by
  intro e he
  unfold references at he
  split at he
  · cases he
  · rename_i hnone
    cases he
    exact h (by simpa using hnone)

theorem fails_insertRow (hdata : φ .dataError) {mk : Int → ρ} {hk} : Fails φ (insertRow t mk hk) := by
  intro e he
  unfold insertRow at he
  split at he
  · cases he
  · cases he; exact hdata

theorem fails_updateRow {i : Int} {f : ρ → ρ} {hf} (h : t.find? i = none → φ .staleDataError) :
    Fails φ (updateRow t i f hf) := by
  intro e he
  unfold updateRow at he
  split at he
  · cases he
  · rename_i hnone
    cases he
    exact h (by simpa using hnone)

theorem fails_checked_insert (hdata : φ .dataError) {c : Except Error Unit} {set : Table ρ → Database}
    {mk : Int → ρ} {hk} (hc : Fails φ c) : Fails φ (do c; return set (← insertRow t mk hk)) :=
  fails_bind hc fun _ _ => fails_bind (fails_insertRow hdata) fun _ _ => fails_ok _

theorem fails_checked_update {c : Except Error Unit} {set : Table ρ → Database} {i : Int} {f : ρ → ρ} {hf}
    (hc : Fails φ c) (h : t.find? i = none → φ .staleDataError) :
    Fails φ (do c; return set (← updateRow t i f hf)) :=
  fails_bind hc fun _ _ => fails_bind (fails_updateRow h) fun _ _ => fails_ok _

end Rows

/-! ## Statements -/

theorem fails_insertStation (hdata : φ .dataError) {row : Station} :
    Fails φ (dialect.apply (.insertStation row) db) :=
  fails_checked_insert hdata (fails_bind (fails_varchar hdata _ _) fun _ _ => fails_integer hdata _)

theorem fails_insertVehicle (hdata : φ .dataError) {row : Vehicle}
    (hplate : (∃ v ∈ db.vehicles.rows, v.licensePlate = row.licensePlate) → φ .integrityError)
    (hstation : db.stations.find? row.stationId = none → φ .integrityError) :
    Fails φ (dialect.apply (.insertVehicle row) db) := by
  refine fails_checked_insert hdata (fails_bind (fails_varchar hdata _ _) fun _ _ => ?_)
  refine fails_bind (fails_varchar hdata _ _) fun _ _ => fails_bind ?_ fun _ _ => ?_
  · exact fails_unique (by simpa using hplate)
  · exact fails_references hstation

theorem fails_insertRenter (hdata : φ .dataError) {row : Renter}
    (hlicense : (∃ r ∈ db.renters.rows, r.licenseNumber = row.licenseNumber) → φ .integrityError)
    (hrenter : (∃ r ∈ db.renters.rows, r.userId ≠ none ∧ r.userId = row.userId) → φ .integrityError)
    (huser : (∃ u, row.userId = some u ∧ db.users.find? u = none) → φ .integrityError) :
    Fails φ (dialect.apply (.insertRenter row) db) := by
  refine fails_checked_insert hdata (fails_bind (fails_varchar hdata _ _) fun _ _ => ?_)
  refine fails_bind (fails_varchar hdata _ _) fun _ _ => fails_bind ?_ fun _ _ => ?_
  · exact fails_unique (by simpa using hlicense)
  · refine fails_bind (fails_optional fun u hu => fails_unique ?_) fun _ _ => fails_optional fun u hu => ?_
    · rintro ⟨r, hr, heq⟩
      have heq : r.userId = some u := of_decide_eq_true heq
      exact hrenter ⟨r, hr, by simp [heq], heq.trans hu.symm⟩
    · exact fails_references fun hnone => huser ⟨u, hu, hnone⟩

theorem fails_insertRental (hdata : φ .dataError) {row : Rental}
    (hrenter : db.renters.find? row.renterId = none → φ .integrityError)
    (hvehicle : db.vehicles.find? row.vehicleId = none → φ .integrityError)
    (hstart : db.stations.find? row.startStationId = none → φ .integrityError)
    (hend : ∀ i, row.endStationId = some i → db.stations.find? i = none → φ .integrityError) :
    Fails φ (dialect.apply (.insertRental row) db) := by
  refine fails_checked_insert hdata (fails_bind (fails_references hrenter) fun _ _ => ?_)
  refine fails_bind (fails_references hvehicle) fun _ _ => fails_bind (fails_references hstart) fun _ _ => ?_
  exact fails_optional fun i hi => fails_references (hend i hi)

theorem fails_insertUser (hdata : φ .dataError) {row : User}
    (hemail : (∃ u ∈ db.users.rows, u.email = row.email) → φ .integrityError) :
    Fails φ (dialect.apply (.insertUser row) db) := by
  refine fails_checked_insert hdata (fails_bind (fails_varchar hdata _ _) fun _ _ => ?_)
  refine fails_bind (fails_varchar hdata _ _) fun _ _ => fails_bind (fails_varchar hdata _ _) fun _ _ => ?_
  refine fails_bind (fails_optional fun _ _ => fails_varchar hdata _ _) fun _ _ => ?_
  exact fails_unique (by simpa using hemail)

theorem fails_insertUserConsent (hdata : φ .dataError) {row : UserConsent}
    (hpurpose : (∃ c ∈ db.userConsents.rows, c.userId = row.userId ∧ c.purpose = row.purpose) →
      φ .integrityError)
    (huser : db.users.find? row.userId = none → φ .integrityError) :
    Fails φ (dialect.apply (.insertUserConsent row) db) := by
  refine fails_checked_insert hdata (fails_bind (fails_varchar hdata _ _) fun _ _ => ?_)
  refine fails_bind (fails_varchar hdata _ _) fun _ _ => fails_bind ?_ fun _ _ => ?_
  · exact fails_unique (by simpa using hpurpose)
  · exact fails_references huser

theorem fails_insertConsentHistory (hdata : φ .dataError) {row : ConsentHistory}
    (huser : db.users.find? row.userId = none → φ .integrityError) :
    Fails φ (dialect.apply (.insertConsentHistory row) db) := by
  refine fails_checked_insert hdata (fails_bind (fails_varchar hdata _ _) fun _ _ => ?_)
  exact fails_bind (fails_varchar hdata _ _) fun _ _ => fails_references huser

theorem fails_insertUserActivity (hdata : φ .dataError) {row : UserActivity}
    (huser : db.users.find? row.userId = none → φ .integrityError) :
    Fails φ (dialect.apply (.insertUserActivity row) db) := by
  refine fails_checked_insert hdata (fails_bind (fails_varchar hdata _ _) fun _ _ => ?_)
  refine fails_bind (fails_optional fun _ _ => fails_varchar hdata _ _) fun _ _ => ?_
  exact fails_bind (fails_optional fun _ _ => fails_varchar hdata _ _) fun _ _ => fails_references huser

theorem fails_insertAuditEvent (hdata : φ .dataError) {row : AuditEvent} :
    Fails φ (dialect.apply (.insertAuditEvent row) db) := by
  refine fails_checked_insert hdata (fails_bind (fails_varchar hdata _ _) fun _ _ => ?_)
  refine fails_bind (fails_optional fun _ _ => fails_integer hdata _) fun _ _ => ?_
  refine fails_bind (fails_optional fun _ _ => fails_integer hdata _) fun _ _ => ?_
  exact fails_bind (fails_varchar hdata _ _) fun _ _ => fails_varchar hdata _ _

theorem fails_insertMarketingMessage (hdata : φ .dataError) {row : MarketingMessage}
    (huser : db.users.find? row.userId = none → φ .integrityError) :
    Fails φ (dialect.apply (.insertMarketingMessage row) db) :=
  fails_checked_insert hdata (fails_bind (fails_varchar hdata _ _) fun _ _ => fails_references huser)

theorem fails_insertAnalyticsEvent (hdata : φ .dataError) {row : AnalyticsEvent}
    (huser : db.users.find? row.userId = none → φ .integrityError) :
    Fails φ (dialect.apply (.insertAnalyticsEvent row) db) :=
  fails_checked_insert hdata (fails_bind (fails_varchar hdata _ _) fun _ _ => fails_references huser)

theorem fails_updateVehicle {id : Int} {set : VehicleSet}
    (hstation : ∀ i, set.stationId = some i → db.stations.find? i = none → φ .integrityError)
    (hrow : db.vehicles.find? id = none → φ .staleDataError) :
    Fails φ (dialect.apply (.updateVehicle id set) db) :=
  fails_checked_update (fails_optional fun i hi => fails_references (hstation i hi)) hrow

theorem fails_updateRental {id : Int} {set : RentalSet}
    (hstation : ∀ i, set.endStationId = some (some i) → db.stations.find? i = none → φ .integrityError)
    (hrow : db.rentals.find? id = none → φ .staleDataError) :
    Fails φ (dialect.apply (.updateRental id set) db) := by
  refine fails_checked_update (fails_optional fun o ho => fails_optional fun i hi => ?_) hrow
  exact fails_references (hstation i (ho.trans (congrArg some hi)))

theorem fails_updateUserConsent (hdata : φ .dataError) {id : Int} {set : UserConsentSet}
    (hrow : db.userConsents.find? id = none → φ .staleDataError) :
    Fails φ (dialect.apply (.updateUserConsent id set) db) := by
  refine fails_checked_update (fails_bind (fails_optional fun _ _ => fails_varchar hdata _ _) fun _ _ => ?_) hrow
  exact fails_optional fun _ _ => fails_varchar hdata _ _

theorem fails_updateMarketingMessage {id : Int} {set : MarketingMessageSet}
    (hrow : db.marketingMessages.find? id = none → φ .staleDataError) :
    Fails φ (dialect.apply (.updateMarketingMessage id set) db) :=
  fails_bind (fails_updateRow hrow) fun _ _ => fails_ok _

/-- Whatever the statement, what it raises is an error of the database. -/
theorem fails_apply (hdata : φ .dataError) (hintegrity : φ .integrityError) (hstale : φ .staleDataError)
    (w : Stmt) : Fails φ (dialect.apply w db) := by
  cases w with
  | insertStation => exact fails_insertStation hdata
  | insertVehicle => exact fails_insertVehicle hdata (fun _ => hintegrity) fun _ => hintegrity
  | insertRenter =>
      exact fails_insertRenter hdata (fun _ => hintegrity) (fun _ => hintegrity) fun _ => hintegrity
  | insertRental =>
      exact fails_insertRental hdata (fun _ => hintegrity) (fun _ => hintegrity) (fun _ => hintegrity)
        fun _ _ _ => hintegrity
  | insertUser => exact fails_insertUser hdata fun _ => hintegrity
  | insertUserConsent => exact fails_insertUserConsent hdata (fun _ => hintegrity) fun _ => hintegrity
  | insertConsentHistory => exact fails_insertConsentHistory hdata fun _ => hintegrity
  | insertUserActivity => exact fails_insertUserActivity hdata fun _ => hintegrity
  | insertAuditEvent => exact fails_insertAuditEvent hdata
  | insertMarketingMessage => exact fails_insertMarketingMessage hdata fun _ => hintegrity
  | insertAnalyticsEvent => exact fails_insertAnalyticsEvent hdata fun _ => hintegrity
  | updateVehicle => exact fails_updateVehicle (fun _ _ _ => hintegrity) fun _ => hstale
  | updateRental => exact fails_updateRental (fun _ _ _ => hintegrity) fun _ => hstale
  | updateUser id set =>
      refine fails_checked_update (fails_bind (fails_optional fun _ _ => fails_varchar hdata _ _) fun _ _ => ?_)
        fun _ => hstale
      refine fails_bind (fails_optional fun _ _ => fails_varchar hdata _ _) fun _ _ => ?_
      refine fails_bind (fails_optional fun _ _ => fails_varchar hdata _ _) fun _ _ => ?_
      refine fails_bind (fails_optional fun _ _ => fails_optional fun _ _ => fails_varchar hdata _ _) fun _ _ => ?_
      exact fails_optional fun _ _ => fails_unique fun _ => hintegrity
  | updateRenter id set =>
      refine fails_checked_update (fails_bind (fails_optional fun _ _ => fails_varchar hdata _ _) fun _ _ => ?_)
        fun _ => hstale
      refine fails_bind (fails_optional fun _ _ => fails_varchar hdata _ _) fun _ _ => ?_
      exact fails_optional fun _ _ => fails_unique fun _ => hintegrity
  | updateUserConsent => exact fails_updateUserConsent hdata fun _ => hstale
  | updateMarketingMessage => exact fails_updateMarketingMessage fun _ => hstale
  | deleteUserActivity => exact fails_ok _
  | deleteMarketingMessages => exact fails_ok _
  | deleteAnalyticsEvents => exact fails_ok _

/-! ## Transactions -/

theorem fails_applyAll_cons {w : Stmt} {ws : List Stmt} (hw : Fails φ (dialect.apply w db))
    (hws : ∀ db', dialect.apply w db = .ok db' → Fails φ (dialect.applyAll ws db')) :
    Fails φ (dialect.applyAll (w :: ws) db) := fails_bind hw hws

theorem fails_applyAll_singleton {w : Stmt} (hw : Fails φ (dialect.apply w db)) :
    Fails φ (dialect.applyAll [w] db) := fails_applyAll_cons hw fun _ _ => fails_ok _

theorem fails_applyAll (hdata : φ .dataError) (hintegrity : φ .integrityError) (hstale : φ .staleDataError)
    (ws : List Stmt) : Fails φ (dialect.applyAll ws db) := by
  induction ws generalizing db with
  | nil => exact fails_ok _
  | cons w ws ih => exact fails_applyAll_cons (fails_apply hdata hintegrity hstale w) fun _ _ => ih

end FleetManagement
