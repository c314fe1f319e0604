import FleetManagement.Lemmas.Handlers
import FleetManagement.Privacy.Erasure

/-!
# What the account services guarantee

The sessions of `get_current_user`, `subject_access` and `anonymize_user` while others are at work: the
entities that they decide on are rows that were committed when they were loaded.
-/

namespace FleetManagement

variable {α : Type} {I : Database → Prop} {R : Database → Database → Prop}
  {Φ : Database → List Stmt → Prop} {P : Platform} {s : Database} {ws : List Stmt}

theorem meets_recordAuditEvent {eventType result correlationId : String} {actorId subjectId : Option Int}
    {f : Unit → Db α}
    (hΦ : ∀ t u, I u → R s u →
      Φ u [.insertAuditEvent (auditEvent eventType actorId subjectId result correlationId t)])
    (h : ∀ t, Tx.Meets dialect I R Φ (f ()) t []) :
    Tx.Meets dialect I R Φ (recordAuditEvent eventType actorId subjectId result correlationId >>= f)
      s [] := by
  unfold recordAuditEvent
  simp only [Tx.bind_assoc]
  exact meets_now fun t => Tx.meets_commitAll (fun u hu hsu => hΦ t u hu hsu) fun u => h u

theorem meets_getCurrentUser {token : Option Int} {f : User → Db α}
    (h : ∀ t actor, I t → R s t → t.users.find? actor.id = some actor → token = some actor.id →
      Tx.Meets dialect I R Φ (f actor) t []) :
    Tx.Meets dialect I R Φ (getCurrentUser token >>= f) s [] := by
  unfold getCurrentUser
  cases token with
  | none => exact Tx.meets_raise _
  | some userId =>
      simp only [Tx.bind_assoc]
      refine meets_get fun t ht hst => ?_
      cases hrow : t.users.find? userId with
      | none => exact Tx.meets_raise _
      | some actor =>
          obtain rfl : actor.id = userId := Table.key_of_find? hrow
          simp only
          split
          · exact h t actor ht hst hrow rfl
          · exact Tx.meets_raise _

/-- Every entity of the session was a committed row when it was loaded. -/
def IdentityMap.LoadedBefore (R : Database → Database → Prop) (m : IdentityMap) (s : Database) : Prop :=
  ∀ e ∈ m, ∃ t, R t s ∧ t.users.find? e.id = some e

/-- The actor is the account of the token, and the subject itself or an admin. -/
theorem meets_subjectAccess_of (refl : ∀ s, R s s) (trans : ∀ s t u, R s t → R t u → R s u)
    {eventType correlationId : String} {token : Option Int} {userId : Int} {f : SubjectAccess → Db α}
    (hΦ : ∀ actorId result t u, token = some actorId → result = "denied" ∨ result = "not_found" → I u →
      Φ u [.insertAuditEvent (auditEvent eventType (some actorId) (some userId) result correlationId t)])
    (h : ∀ t a, R s t → token = some a.actor.id → a.actor.id = userId ∨ a.actor.role = .admin →
      a.subject.id = userId → IdentityMap.LoadedBefore R a.loaded t → Tx.Meets dialect I R Φ (f a) t []) :
    Tx.Meets dialect I R Φ (subjectAccess eventType token userId correlationId >>= f) s [] := by
  unfold subjectAccess
  rw [Tx.bind_assoc]
  refine meets_getCurrentUser fun t actor ht hst hactor htoken => ?_
  have hdeny : ∀ t result, result = "denied" ∨ result = "not_found" → Tx.Meets dialect I R Φ ((do
      recordAuditEvent eventType (some actor.id) (some userId) result correlationId
      throw (.notFound "User not found")) >>= f) t [] := by
    intro t result hres
    rw [Tx.bind_assoc]
    exact meets_recordAuditEvent (fun t u hu _ => hΦ _ _ t u htoken hres hu) fun _ => Tx.meets_raise _
  simp only
  by_cases hallowed : actor.id = userId ∨ actor.role = .admin
  · rw [if_pos hallowed, if_pos hallowed, Tx.bind_assoc]
    unfold getUser IdentityMap.find
    by_cases hself : actor.id = userId
    · simp only [List.find?_cons, hself, decide_true]
      refine h t ⟨actor, actor⟩ hst htoken hallowed hself fun e he => ?_
      obtain rfl : e = actor := by simpa [SubjectAccess.loaded] using he
      exact ⟨t, refl t, hactor⟩
    · simp only [List.find?_cons, hself, decide_false, List.find?_nil]
      refine meets_get fun t' ht' htt' => ?_
      cases hrow : t'.users.find? userId with
      | none => exact hdeny t' _ (Or.inr rfl)
      | some subject =>
          have hid : subject.id = userId := Table.key_of_find? hrow
          refine h t' ⟨subject, actor⟩ (trans _ _ _ hst htt') htoken hallowed hid fun e he => ?_
          rcases List.mem_cons.mp he with rfl | he
          · exact ⟨t, htt', hactor⟩
          · obtain rfl := List.mem_singleton.mp he
            exact ⟨t', refl t', hid.symm ▸ hrow⟩
  · rw [if_neg hallowed, if_neg hallowed]
    exact hdeny t _ (Or.inl rfl)

theorem meets_subjectAccess (refl : ∀ s, R s s) (trans : ∀ s t u, R s t → R t u → R s u)
    {eventType correlationId : String} {token : Option Int} {userId : Int} {f : SubjectAccess → Db α}
    (hΦ : ∀ actorId result t u, result = "denied" ∨ result = "not_found" → I u →
      Φ u [.insertAuditEvent (auditEvent eventType actorId (some userId) result correlationId t)])
    (h : ∀ t a, R s t → a.subject.id = userId → IdentityMap.LoadedBefore R a.loaded t →
      Tx.Meets dialect I R Φ (f a) t []) :
    Tx.Meets dialect I R Φ (subjectAccess eventType token userId correlationId >>= f) s [] :=
  meets_subjectAccess_of refl trans (fun actorId result t u _ => hΦ (some actorId) result t u)
    fun t a hst _ _ hid hm => h t a hst hid hm

/-! ## What the sessions have seen -/

section Watched
variable {R : (RowKey → Prop) → Database → Database → Prop}
  {Φ : List Database → Database → List Stmt → (Except Error Database → Db α) → Prop} {held : RowKey → Prop}
  {seen : List Database}

theorem obeys_recordAuditEvent {eventType result correlationId : String} {actorId subjectId : Option Int}
    {f : Unit → Db α} (hΦ : ∀ seen s event k, Φ seen s [.insertAuditEvent event] k)
    (h : ∀ t, Tx.Obeys dialect I R Φ (f ()) t [] (fun _ => False) seen) :
    Tx.Obeys dialect I R Φ (recordAuditEvent eventType actorId subjectId result correlationId >>= f)
      s [] held seen := by
  unfold recordAuditEvent
  simp only [Tx.bind_assoc]
  exact obeys_now fun t => Tx.obeys_commitAll (fun _ _ _ => hΦ _ _ _ _) fun u => h u

theorem obeys_getCurrentUser {token : Option Int} {f : User → Db α}
    (h : ∀ t actor, t.users.find? actor.id = some actor → token = some actor.id →
      Tx.Obeys dialect I R Φ (f actor) t [] held (seen ++ [t])) :
    Tx.Obeys dialect I R Φ (getCurrentUser token >>= f) s [] held seen := by
  unfold getCurrentUser
  cases token with
  | none => exact Tx.obeys_raise _
  | some userId =>
      simp only [Tx.bind_assoc]
      refine obeys_get fun t _ _ => ?_
      cases hrow : t.users.find? userId with
      | none => exact Tx.obeys_raise _
      | some actor =>
          obtain rfl : actor.id = userId := Table.key_of_find? hrow
          simp only
          split
          · exact h t actor hrow rfl
          · exact Tx.obeys_raise _

/-- The state in which `subject_access` has loaded the subject: with the account of the token, where that
is the subject. -/
def loadOf (token : Option Int) (userId : Int) (seen : List Database) : Option Database :=
  if token = some userId then seen[0]? else seen[1]?

theorem loadOf_append {token : Option Int} {userId : Int} {more : List Database} {g : Database}
    (h : loadOf token userId seen = some g) : loadOf token userId (seen ++ more) = some g := by
  unfold loadOf at h ⊢
  split at h
  · rename_i hself
    rw [if_pos hself, List.getElem?_append_left (List.getElem?_eq_some_iff.mp h).1, h]
  · rename_i hself
    rw [if_neg hself, List.getElem?_append_left (List.getElem?_eq_some_iff.mp h).1, h]

theorem mem_of_loadOf {token : Option Int} {userId : Int} {g : Database}
    (h : loadOf token userId seen = some g) : g ∈ seen := by
  unfold loadOf at h
  split at h
  · exact List.mem_of_getElem? h
  · exact List.mem_of_getElem? h

/-- The entity of the subject is its row in the state in which it was loaded. -/
theorem obeys_subjectAccess {eventType correlationId : String} {token : Option Int} {userId : Int}
    {f : SubjectAccess → Db α} (hΦ : ∀ seen s event k, Φ seen s [.insertAuditEvent event] k)
    (h : ∀ t g a seen, loadOf token userId seen = some g → g.users.find? userId = some a.subject →
      a.loaded.find userId = some a.subject → Tx.Obeys dialect I R Φ (f a) t [] held seen) :
    Tx.Obeys dialect I R Φ (subjectAccess eventType token userId correlationId >>= f) s [] held [] := by
  unfold subjectAccess
  rw [Tx.bind_assoc]
  refine obeys_getCurrentUser fun t actor hactor htoken => ?_
  have hdeny : ∀ t seen result, Tx.Obeys dialect I R Φ ((do
      recordAuditEvent eventType (some actor.id) (some userId) result correlationId
      throw (.notFound "User not found")) >>= f) t [] held seen := by
    intro t seen result
    rw [Tx.bind_assoc]
    exact obeys_recordAuditEvent hΦ fun _ => Tx.obeys_raise _
  simp only
  by_cases hallowed : actor.id = userId ∨ actor.role = .admin
  · rw [if_pos hallowed, if_pos hallowed, Tx.bind_assoc]
    unfold getUser IdentityMap.find
    by_cases hself : actor.id = userId
    · simp only [List.find?_cons, hself, decide_true]
      refine h t t ⟨actor, actor⟩ _ ?_ (hself ▸ hactor) ?_
      · rw [loadOf, if_pos (hself ▸ htoken)]
        rfl
      · simp [IdentityMap.find, SubjectAccess.loaded, hself]
    · simp only [List.find?_cons, hself, decide_false, List.find?_nil]
      refine obeys_get fun t' _ _ => ?_
      cases hrow : t'.users.find? userId with
      | none => exact hdeny t' _ _
      | some subject =>
          have hid : subject.id = userId := Table.key_of_find? hrow
          refine h t' t' ⟨subject, actor⟩ _ ?_ hrow ?_
          · rw [loadOf, if_neg (fun hsome => hself (Option.some.inj (htoken.symm.trans hsome)))]
            rfl
          · simp [IdentityMap.find, SubjectAccess.loaded, hself, hid]
  · rw [if_neg hallowed, if_neg hallowed]
    exact hdeny t _ _

end Watched

/-! ## The loops of an erasure -/

theorem meets_anonymizeRenters {renters : List Renter} (hnd : (renters.map Renter.id).Nodup)
    {f : List Stmt → Db α}
    (h : ∀ license, Tx.Meets dialect I R Φ (f (renterUpdates license renters)) s ws) :
    Tx.Meets dialect I R Φ (anonymizeRenters renters >>= f) s ws := by
  induction renters generalizing f with
  | nil => exact h fun _ => zeroUuid
  | cons r renters ih =>
      rw [List.map_cons, List.nodup_cons] at hnd
      unfold anonymizeRenters uuid4
      simp only [Tx.bind_assoc]
      refine Tx.meets_sample fun d => ih hnd.2 fun license => ?_
      rw [← renterUpdates_cons license d.uuid hnd.1]
      exact h _

theorem meets_executeAll (refl : ∀ s, R s s) (trans : ∀ s t u, R s t → R t u → R s u) {l : List Stmt}
    {f : Unit → Db α} (h : ∀ t, R s t → Tx.Meets dialect I R Φ (f ()) t (ws ++ l)) :
    Tx.Meets dialect I R Φ (executeAll l >>= f) s ws := by
  induction l generalizing s ws with
  | nil =>
      have hnil := h s (refl s)
      rw [List.append_nil] at hnil
      exact hnil
  | cons w l ih =>
      unfold executeAll
      rw [Tx.bind_assoc]
      refine Tx.meets_execute fun t _ hst _ => ih fun t' htt' => ?_
      rw [List.append_assoc, List.singleton_append]
      exact h t' (trans _ _ _ hst htt')

/-- The renters and the consents that the erasure writes were rows of the user when they were read. -/
theorem meets_erase_of (refl : ∀ s, R s s) (trans : ∀ s t u, R s t → R t u → R s u) {u : User}
    {t : DateTime} {f : User × List Stmt × ErasureActions → Db α}
    (h : ∀ (d : ErasureDraws) renters consents user actions t', R s t' →
      (∀ r ∈ renters, ∃ v, R v t' ∧ v.renters.find? r.id = some r ∧ r.userId = some u.id) →
      (∀ c ∈ consents, ∃ v, R v t' ∧ v.userConsents.find? c.id = some c ∧ c.userId = u.id) →
      Tx.Meets dialect I R Φ (f (user, withdrawFlush consents u.id "erasure" d.withdrawnAt, actions)) t'
        (eraseStatements P u d renters)) :
    Tx.Meets dialect I R Φ (erase P u t >>= f) s [] := by
  unfold erase anonymizeUserRow uuid4
  simp only [Tx.bind_assoc]
  refine Tx.meets_sample fun x => Tx.meets_sample fun y => Tx.meets_sample fun z => ?_
  refine Tx.meets_execute fun s₁ _ h₁ _ => Tx.meets_select fun s₂ _ h₂ view hview => ?_
  refine meets_anonymizeRenters (nodup_rentersOf _ _) fun license =>
    meets_executeAll refl trans fun s₃ h₃ => ?_
  refine Tx.meets_execute fun s₄ _ h₄ _ => Tx.meets_execute fun s₅ _ h₅ _ => ?_
  refine Tx.meets_execute fun s₆ _ h₆ _ => ?_
  unfold withdrawAll
  simp only [Tx.bind_assoc]
  refine Tx.meets_select fun s₇ _ h₇ view' hview' => meets_now fun t' => ?_
  have hlate : R s₂ s₇ := trans _ _ _ h₃ (trans _ _ _ h₄ (trans _ _ _ h₅ (trans _ _ _ h₆ h₇)))
  let d : ErasureDraws := ⟨x.uuid, y.token, z.salt, license, t, t', 0⟩
  have hrenters : ∀ r ∈ view.rentersOf u.id, ∃ v, R v s₇ ∧ v.renters.find? r.id = some r ∧
      r.userId = some u.id := by
    intro r hr
    obtain ⟨-, -, rfl⟩ := updateUser_ok.mp (dialect.applyAll_singleton_ok.mp hview)
    obtain ⟨hmem, huser⟩ := List.mem_filter.mp hr
    exact ⟨s₂, hlate, Table.find?_key hmem, of_decide_eq_true huser⟩
  simp only [List.nil_append, List.append_assoc, List.singleton_append] at hview' ⊢
  have hconsents : ∀ c ∈ view'.grantedConsents u.id, ∃ v, R v s₇ ∧
      v.userConsents.find? c.id = some c ∧ c.userId = u.id := by
    intro c hc
    obtain ⟨-, rfl⟩ := eraseStatements_ok (d := d) hview'
    obtain ⟨hmem, huser⟩ := List.mem_filter.mp hc
    exact ⟨s₇, refl _, Table.find?_key hmem, (of_decide_eq_true huser).1⟩
  exact h d (view.rentersOf u.id) (view'.grantedConsents u.id) _ _ _
    (trans _ _ _ h₁ (trans _ _ _ h₂ hlate)) hrenters hconsents

/-- The entity that is tested is the one with the id of the row, whenever it was loaded. -/
theorem IdentityMap.id_entity (m : IdentityMap) (row : User) : (m.entity row).id = row.id := by
  unfold IdentityMap.entity
  cases h : m.find row.id with
  | none => rfl
  | some u =>
      unfold IdentityMap.find at h
      simpa using List.find?_some h

theorem IdentityMap.LoadedBefore.entity (refl : ∀ s, R s s) {m : IdentityMap} {id : Int} {row : User}
    (h : m.LoadedBefore R s) (hrow : s.users.find? id = some row) :
    ∃ t, R t s ∧ t.users.find? id = some (m.entity row) := by
  obtain rfl : row.id = id := Table.key_of_find? hrow
  have hid := m.id_entity row
  unfold IdentityMap.entity at hid ⊢
  cases hfind : m.find row.id with
  | none => exact ⟨s, refl s, hrow⟩
  | some u =>
      rw [hfind] at hid
      obtain ⟨t, hts, hu⟩ := h u (List.mem_of_find?_eq_some hfind)
      exact ⟨t, hts, by rw [← hid]; exact hu⟩

theorem IdentityMap.LoadedBefore.mono (trans : ∀ s t u, R s t → R t u → R s u) {m : IdentityMap}
    {t : Database} (h : m.LoadedBefore R s) (hst : R s t) : m.LoadedBefore R t := by
  intro e he
  obtain ⟨t₀, h₀, hrow⟩ := h e he
  exact ⟨t₀, trans _ _ _ h₀ hst, hrow⟩

/-- `anonymize_user` commits an audit event, or an erasure of an entity that had been committed without
`anonymized_at` when it was loaded. -/
theorem anonymizeUser_meets_of (refl : ∀ s, R s s) (trans : ∀ s t u, R s t → R t u → R s u)
    {m : IdentityMap} {subjectId actorId : Int} {correlationId : String} (hm : m.LoadedBefore R s)
    (haudit : ∀ t u, I u → R s u → Φ u [.insertAuditEvent (auditEvent "user_anonymize" (some actorId)
      (some subjectId) "already_anonymized" correlationId t)])
    (herase : ∀ t u entity d renters consents, R s u → R t u → t.users.find? subjectId = some entity →
      entity.anonymizedAt = none →
      (∀ r ∈ renters, ∃ v, R v u ∧ v.renters.find? r.id = some r ∧ r.userId = some subjectId) →
      (∀ c ∈ consents, ∃ v, R v u ∧ v.userConsents.find? c.id = some c ∧ c.userId = subjectId) →
      Φ u (erasureFlush P entity d renters consents actorId correlationId)) :
    Tx.Meets dialect I R Φ (anonymizeUser P m subjectId actorId correlationId) s [] := by
  unfold anonymizeUser
  refine meets_integerParameter fun _ => Tx.meets_selectForUpdate fun s₁ _ h₁ v hv => ?_
  cases hv
  cases hrow : s₁.users.find? subjectId with
  | none => exact Tx.meets_raise _
  | some row =>
      have hid : (m.entity row).id = subjectId := (m.id_entity row).trans (Table.key_of_find? hrow)
      obtain ⟨t, ht, hentity⟩ := (hm.mono trans h₁).entity refl hrow
      simp only
      split
      · rw [hid]
        exact meets_recordAuditEvent (fun t u hu hR => haudit t u hu (trans _ _ _ h₁ hR))
          fun _ => Tx.meets_ret _
      · rename_i hnew
        refine Tx.meets_tryCatch (fun e s ws => Tx.meets_rollbackAll (Tx.meets_raise e))
          (meets_now fun t₀ => meets_erase_of refl trans ?_)
        intro d renters consents user actions t' ht' hrenters hconsents
        refine meets_now fun t₁ => Tx.meets_commitAll (fun w _ hw => ?_) fun _ => Tx.meets_ret _
        refine herase t w (m.entity row) { d with auditedAt := t₁ } renters consents
          (trans _ _ _ h₁ (trans _ _ _ ht' hw)) (trans _ _ _ ht (trans _ _ _ ht' hw)) hentity
          (Option.not_isSome_iff_eq_none.mp hnew) (fun r hr => ?_) fun c hc => ?_
        · obtain ⟨v, hv, hfind, huser⟩ := hrenters r hr
          exact ⟨v, trans _ _ _ hv hw, hfind, by rw [huser, hid]⟩
        · obtain ⟨v, hv, hfind, huser⟩ := hconsents c hc
          exact ⟨v, trans _ _ _ hv hw, hfind, by rw [huser, hid]⟩

theorem anonymizeUser_meets (refl : ∀ s, R s s) (trans : ∀ s t u, R s t → R t u → R s u)
    {m : IdentityMap} {subjectId actorId : Int} {correlationId : String} (hm : m.LoadedBefore R s)
    (haudit : ∀ t u, I u → Φ u [.insertAuditEvent (auditEvent "user_anonymize" (some actorId)
      (some subjectId) "already_anonymized" correlationId t)])
    (herase : ∀ t u entity d renters consents, R t u → t.users.find? subjectId = some entity →
      entity.anonymizedAt = none → Φ u (erasureFlush P entity d renters consents actorId correlationId)) :
    Tx.Meets dialect I R Φ (anonymizeUser P m subjectId actorId correlationId) s [] :=
  anonymizeUser_meets_of refl trans hm (fun t u hu _ => haudit t u hu)
    fun t u entity d renters consents _ htu hrow hnew _ _ => herase t u entity d renters consents htu hrow hnew

end FleetManagement
