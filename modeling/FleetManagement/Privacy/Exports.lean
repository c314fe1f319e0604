import FleetManagement.Lemmas.Outcomes

/-!
# Exports among other requests

An export reads its sections one after another while others commit. Each section is the complete one of a
state of the run, and no section has a row of anybody else.
-/

namespace FleetManagement

variable {P : Platform} {V : Database → Prop} {B : Error → Prop} {E : Error → Database → Prop}
  {db s : Database}

/-- Each section lists what is linked to the user in a state that satisfies `V`. -/
structure ExportedAmong (V : Database → Prop) (userId : Int) (e : PersonalDataExport) : Prop where
  subject : e.subjectId = userId
  profile : ∃ t, V t ∧ ∃ user ∈ t.users.rows, user.id = userId ∧ e.profile = .modelValidate user ∧
    e.settings = ⟨user.role.value, user.isActive, user.anonymizedAt.isSome⟩
  renter : ∃ t, V t ∧ ∀ profile, e.renterProfile = some profile ↔
    ∃ r ∈ t.renters.rows, r.userId = some userId ∧ profile = .modelValidate r
  rentals : ∃ t, V t ∧ ∃ rows, t.rentals.Lists (t.RentalOf userId) rows ∧ e.rentals = rows.map .modelValidate
  activity : ∃ t, V t ∧ ∃ rows, t.userActivity.Lists (fun a => a.userId = userId) rows ∧
    e.activity = rows.map .modelValidate
  marketing : ∃ t, V t ∧ ∃ rows, t.marketingMessages.Lists (fun m => m.userId = userId) rows ∧
    e.marketingMessages = rows.map .modelValidate
  analytics : ∃ t, V t ∧ ∃ rows, t.analyticsEvents.Lists (fun a => a.userId = userId) rows ∧
    e.analyticsEvents = rows.map .modelValidate
  history : ∃ t, V t ∧ ∃ rows, t.consentHistory.Lists (fun h => h.userId = userId) rows ∧
    e.consents.history = rows.map .modelValidate
  current : ∃ t, V t ∧ ∃ rows : List UserConsent, rows.Nodup ∧
    (∀ c, c ∈ rows ↔ c ∈ t.userConsents.rows ∧ c.userId = userId) ∧
    e.consents.current = rows.map .modelValidate

/-! ## Sections -/

theorem among_all (hE : Tolerates B E) {ρ : Type} [Keyed ρ] {table : Database → Table ρ} {p : ρ → Bool}
    {Q : List ρ → Database → List Stmt → Prop}
    (h : ∀ t, t.Sound → V t → s.Keeps t → Q ((table t).rows.filter p) t []) :
    Among V B E Q (all table p) s [] := Tx.rely_bind (among_select hE h)

/-- The rentals of a renter that was read before are those of the user when they are read. -/
theorem lists_rentalsOf_later {t : Database} {u : Int} {renter : Renter} (hsound : t.Sound)
    (hrenter : ∃ r, t.renters.find? renter.id = some r ∧ r.userId = some u) :
    t.rentals.Lists (t.RentalOf u) (t.rentals.rows.filter fun r => r.renterId = renter.id) := by
  obtain ⟨r, hr, huser⟩ := hrenter
  have hid : r.id = renter.id := Table.key_of_find? hr
  have hof : ∀ rental, t.RentalOf u rental ↔ rental.renterId = renter.id := by
    intro rental
    constructor
    · rintro ⟨r', hr', huser', hrental⟩
      obtain rfl := hsound.unique.renterOfUser r' hr' r (Table.mem_of_find? hr) (huser'.trans huser.symm)
        (by simp [huser'])
      exact hrental.trans hid
    · exact fun hrental => ⟨r, Table.mem_of_find? hr, huser, hrental.trans hid.symm⟩
  have hlists := t.rentals.lists_filter fun r => r.renterId = renter.id
  exact ⟨fun rental => by rw [hof]; exact hlists.mem rental, hlists.ordered⟩

/-- The user had no renter in `t`, and so no rentals. -/
theorem lists_no_rentals {t : Database} {u : Int} (h : ∀ r ∈ t.renters.rows, r.userId ≠ some u) :
    t.rentals.Lists (t.RentalOf u) [] := by
  refine ⟨fun rental => ?_, List.Pairwise.nil⟩
  constructor
  · intro hmem
    cases hmem
  · rintro ⟨-, r, hr, huser, -⟩
    exact absurd huser (h r hr)

theorem among_rentalsOf (hE : Tolerates B E) {t : Database} {u : Int} {renter : Option Renter}
    {Q : List Rental → Database → List Stmt → Prop} (hV : V t) (hts : t.Keeps s)
    (hmem : ∀ r, renter = some r ↔ r ∈ t.renters.rows ∧ r.userId = some u)
    (h : ∀ rentals s', (∃ t, V t ∧ t.rentals.Lists (t.RentalOf u) rentals) → Q rentals s' []) :
    Among V B E Q (rentalsOf renter) s [] := by
  cases renter with
  | none =>
      refine h [] s ⟨t, hV, lists_no_rentals fun r hr huser => ?_⟩
      exact absurd ((hmem r).mpr ⟨hr, huser⟩) nofun
  | some renter =>
      refine among_all hE fun t' h' hV' hst' => h _ t' ⟨t', hV', lists_rentalsOf_later h' ?_⟩
      obtain ⟨hrow, huser⟩ := (hmem renter).mp rfl
      obtain ⟨r, hr, hr'⟩ := (Keeps.trans _ _ _ hts hst').renters renter.id renter (Table.find?_key hrow)
      exact ⟨r, hr, hr'.trans huser⟩

theorem among_buildExport (hE : Tolerates B E) {subject : User}
    {Q : PersonalDataExport → Database → List Stmt → Prop} (hsubject : ∃ t, V t ∧ subject ∈ t.users.rows)
    (h : ∀ e u, ExportedAmong V subject.id e → Q e u []) : Among V B E Q (buildExport subject) s [] := by
  unfold buildExport
  refine Tx.rely_bind (among_all hE fun t₁ h₁ hV₁ _ => ?_)
  refine Tx.rely_bind (among_scalarOneOrNone (rentersOf_toList h₁.unique subject.id) fun renter hrenter => ?_)
  have hmem := mem_rentersOf hrenter
  refine Tx.rely_bind (among_all hE fun t₂ _ hV₂ h₁₂ => Tx.rely_bind (among_all hE fun t₃ _ hV₃ h₂₃ => ?_))
  refine Tx.rely_bind (among_all hE fun t₄ _ hV₄ h₃₄ => Tx.rely_bind (Tx.rely_bind
    (among_select hE fun t₅ _ hV₅ h₄₅ => Tx.rely_bind (among_now fun now => Tx.rely_bind ?_))))
  have h₁₅ : t₁.Keeps t₅ := Keeps.trans _ _ _ h₁₂ (Keeps.trans _ _ _ h₂₃ (Keeps.trans _ _ _ h₃₄ h₄₅))
  refine among_rentalsOf hE hV₁ h₁₅ hmem fun rentals t hrentals => Tx.rely_bind (Tx.rely_bind
    (among_select hE fun t₆ _ hV₆ _ => h _ t₆ ?_))
  obtain ⟨t₀, hV₀, hrow⟩ := hsubject
  obtain ⟨t₇, hV₇, hlists⟩ := hrentals
  exact {
    subject := rfl
    profile := ⟨t₀, hV₀, subject, hrow, rfl, rfl, rfl⟩
    renter := by
      refine ⟨t₁, hV₁, fun profile => ?_⟩
      constructor
      · intro hprofile
        obtain ⟨r, hr, rfl⟩ := Option.map_eq_some_iff.mp hprofile
        obtain ⟨hrow, huser⟩ := (hmem r).mp hr
        exact ⟨r, hrow, huser, rfl⟩
      · rintro ⟨r, hrow, huser, rfl⟩
        exact Option.map_eq_some_iff.mpr ⟨r, (hmem r).mpr ⟨hrow, huser⟩, rfl⟩
    rentals := ⟨t₇, hV₇, rentals, hlists, rfl⟩
    activity := ⟨t₂, hV₂, _, Table.lists_filter _ _, rfl⟩
    marketing := ⟨t₃, hV₃, _, Table.lists_filter _ _, rfl⟩
    analytics := ⟨t₄, hV₄, _, Table.lists_filter _ _, rfl⟩
    history := ⟨t₅, hV₅, _, Table.lists_filter _ _, rfl⟩
    current := ⟨t₆, hV₆, _, nodup_consentsOf t₆ subject.id, mem_consentsOf, rfl⟩ }

theorem among_exportPersonalData (hE : Tolerates B E) {token : Option Int} {userId : Int}
    {correlationId : String} {Q : PersonalDataExport → Database → List Stmt → Prop}
    (hdeny : Unauthenticated V token → ∀ t, E unauthorized t)
    (hhidden : Hidden V token userId → ∀ t, E (.notFound "User not found") t)
    (h : ∀ e u, ExportedAmong V userId e → Q e u []) :
    Among V B E Q (exportPersonalData token userId correlationId) s [] := by
  unfold exportPersonalData
  refine Tx.rely_bind (among_subjectAccess hE hdeny hhidden fun t a _ hid hsubject _ => ?_)
  refine Tx.rely_bind (among_buildExport hE hsubject fun e u he => ?_)
  exact Tx.rely_bind (among_recordAuditEvent hE fun u _ => h e u (hid ▸ he))

/-! ## Runs -/

/-- What the response says about the request `r`, if it is an export. -/
def Exports (V : Database → Prop) (r : ApiRequest) (response : ApiResponse) : Prop :=
  ∀ e, response = .subject (.personalData e) → ∃ header token userId,
    r = .subject ⟨header, token, userId, .exportPersonalData⟩ ∧ ExportedAmong V userId e

end FleetManagement
