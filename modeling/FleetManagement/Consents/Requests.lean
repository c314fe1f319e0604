import FleetManagement.Lemmas.Handlers
import FleetManagement.Lemmas.Services

/-!
# Consent requests at work on one database

Any number of grants, revokes and consent-dependent actions, interleaved with the `withdraw_all` of
erasures. What a request commits rests on the consent row that it has locked, or on what it saw when it
asked the gate.
-/

namespace FleetManagement

inductive ConsentRequest where
  | grant (userId : Int) (purpose : ConsentPurpose) (policyVersion source : String)
  | revoke (userId : Int) (purpose : ConsentPurpose) (source : String)
  | enqueueMarketingEmail (userId : Int) (campaign : String) (actorId : Int) (correlationId : String)
  | recordAnalyticsEvent (userId : Int) (eventName : String) (actorId : Int) (correlationId : String)
  | dispatchPendingMarketing
  deriving DecidableEq, Repr

inductive ConsentResponse where
  | change (change : ConsentChange)
  | message (message : MarketingMessage)
  | event (event : AnalyticsEvent)
  | summary (summary : DispatchSummary)
  deriving DecidableEq, Repr

def ConsentRequest.handler : ConsentRequest → Db ConsentResponse
  | .grant userId purpose policyVersion source => do
      return .change (← FleetManagement.grant userId purpose policyVersion source)
  | .revoke userId purpose source => do
      return .change (← FleetManagement.revoke userId purpose source)
  | .enqueueMarketingEmail userId campaign actorId correlationId => do
      return .message (← FleetManagement.enqueueMarketingEmail userId campaign actorId correlationId)
  | .recordAnalyticsEvent userId eventName actorId correlationId => do
      return .event (← FleetManagement.recordAnalyticsEvent userId eventName actorId correlationId)
  | .dispatchPendingMarketing => do
      return .summary (← FleetManagement.dispatchPendingMarketing)

abbrev ConsentWorld (ι : Type) := Watched ι Database Stmt RowKey Draw Error ConsentResponse

def consentWorld {ι : Type} (requests : ι → ConsentRequest) (db : Database) : ConsentWorld ι :=
  Watched.init db fun i => (requests i).handler

/-- A step of one request, or the `withdraw_all` of an erasure. -/
inductive ConsentStep (ι : Type) where
  | request (i : ι) (choice : Choice Draw Error)
  | withdrawAll (userId : Int) (source : String) (now : DateTime)

def ConsentWorld.step {ι : Type} [DecidableEq ι] (w : ConsentWorld ι) : ConsentStep ι → ConsentWorld ι
  | .request i choice => Watched.step dialect w (i, choice)
  | .withdrawAll userId source now =>
      w.atomically dialect (withdrawFlush (w.pool.store.grantedConsents userId) userId source now)

/-! ## What the requests rely on -/

/-- History and messages are kept, and a message that has left the queue does not return to it. -/
structure Database.Grows (s t : Database) : Prop where
  history : s.consentHistory.rows <+: t.consentHistory.rows
  messages : ∀ id m, s.marketingMessages.find? id = some m →
    ∃ m', t.marketingMessages.find? id = some m' ∧ m'.userId = m.userId ∧
      (m'.status = .queued → m.status = .queued)

theorem Database.Grows.refl (s : Database) : s.Grows s :=
  ⟨List.prefix_refl _, fun _ m hm => ⟨m, hm, rfl, id⟩⟩

theorem Database.Grows.trans {s t u : Database} (h : s.Grows t) (h' : t.Grows u) : s.Grows u where
  history := h.history.trans h'.history
  messages id m hm := by
    obtain ⟨m', hm', hu', hq'⟩ := h.messages id m hm
    obtain ⟨m'', hm'', hu'', hq''⟩ := h'.messages id m' hm'
    exact ⟨m'', hm'', hu''.trans hu', fun hq => hq' (hq'' hq)⟩

/-- The consent rows that a session has locked stay as they are. -/
structure Moves (held : RowKey → Prop) (s t : Database) : Prop where
  locked : ∀ id c, held (.userConsent id) → s.userConsents.find? id = some c →
    t.userConsents.find? id = some c
  grows : s.Grows t

theorem Moves.refl (held : RowKey → Prop) (s : Database) : Moves held s s :=
  ⟨fun _ _ _ hc => hc, .refl s⟩

theorem Moves.trans (held : RowKey → Prop) (s t u : Database) (h : Moves held s t) (h' : Moves held t u) :
    Moves held s u :=
  ⟨fun id c hid hc => h'.locked id c hid (h.locked id c hid hc), h.grows.trans h'.grows⟩

theorem Moves.anti (held held' : RowKey → Prop) (s t : Database) (hheld : ∀ q, held q → held' q)
    (h : Moves held' s t) : Moves held s t :=
  ⟨fun id c hid hc => h.locked id c (hheld _ hid) hc, h.grows⟩

/-! ## What the requests commit -/

/-- The decision of the gate on the committed database. -/
def Database.gate (db : Database) (userId : Int) (purpose : ConsentPurpose) : GateDecision :=
  decideGate (db.consentsFor userId purpose).head? currentPolicyVersion

def Database.queued (db : Database) : List MarketingMessage :=
  db.marketingMessages.rows.filter fun m => m.status = .queued

/-- The outcome for each message of a queue, from what the gate saw when it was asked about it. -/
def outcomes (processedAt : DateTime) (queue : List MarketingMessage) (gates : List Database) :
    List DispatchOutcome :=
  (queue.zip gates).map fun x => ⟨x.1, (x.2.gate x.1.userId .marketingEmail).allowed, processedAt⟩

section Kinds
variable (seen : List Database) (s : Database) (ws : List Stmt)

def GrantCommit (userId : Int) (purpose : ConsentPurpose) (policyVersion source : String) : Prop :=
  ∃ o t, ws = grantFlush userId purpose o policyVersion source t ∧ ∀ c ∈ o,
    s.userConsents.find? c.id = some c ∧ c.userId = userId ∧ c.purpose = purpose ∧
      c.grants policyVersion = false

def RevokeCommit (userId : Int) (purpose : ConsentPurpose) (source : String) : Prop :=
  ∃ c t, ws = revokeFlush c userId purpose source t ∧ s.userConsents.find? c.id = some c ∧
    c.userId = userId ∧ c.purpose = purpose ∧ c.status = .granted

/-- An action that the gate has allowed, or the audit event of one that it has denied. -/
def GatedCommit (userId : Int) (purpose : ConsentPurpose) (insert : DateTime → Stmt) : Prop :=
  (∃ g t, seen = [g] ∧ (g.gate userId purpose).allowed = true ∧ ws = [insert t]) ∨
    ∃ event, ws = [.insertAuditEvent event]

def DispatchCommit (k : Except Error Database → Db DispatchSummary) : Prop :=
  ∃ g gates t, seen = g :: gates ∧ gates.length = g.queued.length ∧
    ws = dispatchFlush (outcomes t g.queued gates) ∧
    ∀ u, k (.ok u) = .ret (summary (outcomes t g.queued gates))

end Kinds

def ConsentRequest.Commits (r : ConsentRequest) (seen : List Database) (s : Database) (ws : List Stmt)
    (k : Except Error Database → Db ConsentResponse) : Prop :=
  match r with
  | .grant userId purpose policyVersion source => GrantCommit s ws userId purpose policyVersion source
  | .revoke userId purpose source => RevokeCommit s ws userId purpose source
  | .enqueueMarketingEmail userId campaign _ _ =>
      GatedCommit seen ws userId .marketingEmail fun t =>
        .insertMarketingMessage (newMessage userId campaign t)
  | .recordAnalyticsEvent userId eventName _ _ =>
      GatedCommit seen ws userId .optionalAnalytics fun t =>
        .insertAnalyticsEvent ⟨0, userId, eventName, t⟩
  | .dispatchPendingMarketing =>
      ∃ k', k = (fun x => k' x >>= fun s => .ret (.summary s)) ∧ DispatchCommit seen ws k'

abbrev Obeys (I : Database → Prop) {α : Type}
    (Φ : List Database → Database → List Stmt → (Except Error Database → Db α) → Prop) (t : Db α)
    (s : Database) (ws : List Stmt) (held : RowKey → Prop) (seen : List Database) : Prop :=
  Tx.Obeys dialect I Moves Φ t s ws held seen

section Obeys
variable {I : Database → Prop} {α : Type}
  {Φ : List Database → Database → List Stmt → (Except Error Database → Db α) → Prop}
  {s : Database} {ws : List Stmt} {held : RowKey → Prop} {seen : List Database} {userId : Int}
  {purpose : ConsentPurpose}

theorem obeys_scalarOneOrNone {ρ : Type} {rows : List ρ} {f : Option ρ → Db α}
    (h : ∀ o, rows = Option.toList o → Obeys I Φ (f o) s ws held seen) :
    Obeys I Φ (scalarOneOrNone rows >>= f) s ws held seen := by
  match rows with
  | [] => exact h none rfl
  | [row] => exact h (some row) rfl
  | _ :: _ :: _ => exact Tx.obeys_raise _

theorem obeys_lockCurrent {f : Option UserConsent → Db α}
    (h : ∀ t o, t.consentsFor userId purpose = Option.toList o →
      Obeys I Φ (f o) t [] (fun q => q ∈ (Option.toList o).map (fun c => .userConsent c.id) ∨ held q)
        (seen ++ [t])) :
    Obeys I Φ (getCurrent userId purpose true >>= f) s [] held seen := by
  unfold getCurrent
  simp only [if_true, Tx.bind_assoc]
  refine Tx.obeys_selectForUpdate fun t _ _ u hu => ?_
  cases hu
  refine obeys_scalarOneOrNone fun o ho => ?_
  rw [ho]
  exact h t o ho

theorem obeys_checkConsent {f : GateDecision → Db α}
    (h : ∀ t, Obeys I Φ (f (t.gate userId purpose)) t [] held (seen ++ [t])) :
    Obeys I Φ (checkConsent userId purpose >>= f) s [] held seen := by
  unfold checkConsent ConsentPolicyGate.check getCurrent
  simp only [Bool.false_eq_true, if_false, Tx.bind_assoc]
  refine Tx.obeys_select fun t _ _ u hu => ?_
  cases hu
  refine obeys_scalarOneOrNone fun o ho => ?_
  have hgate := h t
  unfold Database.gate at hgate
  rw [ho, Option.head?_toList] at hgate
  exact hgate

/-! ## Grants and revokes -/

theorem consentsFor_toList {t : Database} {c : UserConsent}
    (h : t.consentsFor userId purpose = Option.toList (some c)) :
    t.userConsents.find? c.id = some c ∧ c.userId = userId ∧ c.purpose = purpose := by
  obtain ⟨hrow, hu, hp⟩ := mem_consentsFor h
  exact ⟨Table.find?_key hrow, hu, hp⟩

theorem grantOnce_obeys {policyVersion source : String} :
    Obeys I (fun _ s ws _ => GrantCommit s ws userId purpose policyVersion source)
      (grantOnce userId purpose policyVersion source) s [] held seen := by
  unfold grantOnce
  refine obeys_now fun now => obeys_lockCurrent fun t o ho => ?_
  split
  · exact Tx.obeys_ret _
  · rename_i hnew
    refine Tx.obeys_commitAll (fun u _ htu => ?_) fun u => ?_
    · refine ⟨o, now, rfl, fun c hc => ?_⟩
      cases o with
      | none => cases hc
      | some d =>
          cases hc
          obtain ⟨hrow, hu, hp⟩ := consentsFor_toList ho
          exact ⟨htu.locked _ _ (Or.inl (by simp)) hrow, hu, hp, Bool.eq_false_iff.mpr hnew⟩
    · cases o with
      | none => exact Tx.obeys_ret _
      | some c => exact Tx.obeys_ret _

theorem grant_obeys {policyVersion source : String} :
    Obeys I (fun _ s ws _ => GrantCommit s ws userId purpose policyVersion source)
      (grant userId purpose policyVersion source) s [] held seen := by
  refine Tx.obeys_tryCatch (fun _ _ _ _ _ h => h) (fun e s ws held seen => ?_) grantOnce_obeys
  split
  · exact Tx.obeys_rollbackAll grantOnce_obeys
  · exact Tx.obeys_raise _

theorem revoke_obeys {source : String} :
    Obeys I (fun _ s ws _ => RevokeCommit s ws userId purpose source) (revoke userId purpose source)
      s [] held seen := by
  unfold revoke
  refine obeys_lockCurrent fun t o ho => ?_
  cases o with
  | none => exact Tx.obeys_ret _
  | some c =>
      simp only
      split
      · exact Tx.obeys_ret _
      · rename_i hw
        have hg : c.status = .granted := by cases hc : c.status <;> simp_all
        obtain ⟨hrow, hu, hp⟩ := consentsFor_toList ho
        refine obeys_now fun now => Tx.obeys_commitAll (fun u _ htu => ?_) fun u => Tx.obeys_ret _
        exact ⟨c, now, rfl, htu.locked _ _ (Or.inl (by simp)) hrow, hu, hp, hg⟩

/-! ## Actions behind the gate -/

theorem obeys_requireConsent {actorId : Int} {correlationId : String} {f : Unit → Db α}
    (hdeny : ∀ seen s event k, Φ seen s [.insertAuditEvent event] k)
    (h : ∀ t, (t.gate userId purpose).allowed = true → Obeys I Φ (f ()) t [] held (seen ++ [t])) :
    Obeys I Φ (requireConsent userId purpose actorId correlationId >>= f) s [] held seen := by
  unfold requireConsent
  rw [Tx.bind_assoc]
  refine obeys_checkConsent fun t => ?_
  split
  · rename_i hallowed; exact h t hallowed
  · unfold recordAuditEvent
    simp only [Tx.bind_assoc]
    exact obeys_now fun now => Tx.obeys_commitAll (fun u _ _ => hdeny _ _ _ _) fun u => Tx.obeys_raise _

theorem enqueueMarketingEmail_obeys {campaign : String} {actorId : Int} {correlationId : String} :
    Obeys I (fun seen _ ws _ => GatedCommit seen ws userId .marketingEmail fun t =>
        .insertMarketingMessage (newMessage userId campaign t))
      (enqueueMarketingEmail userId campaign actorId correlationId) s [] held [] := by
  unfold enqueueMarketingEmail
  refine obeys_requireConsent (fun _ _ event _ => Or.inr ⟨event, rfl⟩) fun t hallowed => ?_
  refine obeys_now fun now => Tx.obeys_commitAll (fun u _ _ => ?_) fun u => obeys_refresh
  exact Or.inl ⟨t, now, rfl, hallowed, rfl⟩

theorem recordAnalyticsEvent_obeys {eventName : String} {actorId : Int} {correlationId : String} :
    Obeys I (fun seen _ ws _ => GatedCommit seen ws userId .optionalAnalytics fun t =>
        .insertAnalyticsEvent ⟨0, userId, eventName, t⟩)
      (recordAnalyticsEvent userId eventName actorId correlationId) s [] held [] := by
  unfold recordAnalyticsEvent
  refine obeys_requireConsent (fun _ _ event _ => Or.inr ⟨event, rfl⟩) fun t hallowed => ?_
  refine obeys_now fun now => Tx.obeys_commitAll (fun u _ _ => ?_) fun u => obeys_refresh
  exact Or.inl ⟨t, now, rfl, hallowed, rfl⟩

/-! ## The dispatch job -/

theorem obeys_verdicts {now : DateTime} {messages : List MarketingMessage}
    {f : List DispatchOutcome → Db α}
    (h : ∀ gates t, gates.length = messages.length →
      Obeys I Φ (f (outcomes now messages gates)) t [] held (seen ++ gates)) :
    Obeys I Φ (verdicts now messages >>= f) s [] held seen := by
  induction messages generalizing s seen f with
  | nil =>
      have hnil := h [] s rfl
      rw [List.append_nil] at hnil
      exact hnil
  | cons m messages ih =>
      unfold verdicts
      rw [Tx.bind_assoc]
      refine obeys_checkConsent fun t => ?_
      rw [Tx.bind_assoc]
      refine ih fun gates t' hlen => ?_
      have hall := h (t :: gates) t' (by simp [hlen])
      rw [List.append_assoc]
      exact hall

theorem dispatchPendingMarketing_obeys :
    Obeys I (fun seen _ ws k => DispatchCommit seen ws k) dispatchPendingMarketing s [] held [] := by
  unfold dispatchPendingMarketing decideQueue
  simp only [Tx.bind_assoc]
  refine obeys_now fun now => Tx.obeys_select fun t _ _ u hu => ?_
  cases hu
  refine obeys_verdicts fun gates t' hlen => Tx.obeys_commitAll (fun u _ _ => ?_) fun u => Tx.obeys_ret _
  exact ⟨t, gates, now, rfl, hlen, rfl, fun u => rfl⟩

theorem handler_obeys (r : ConsentRequest) :
    Obeys I r.Commits r.handler s [] held [] := by
  cases r with
  | grant userId purpose policyVersion source => exact grant_obeys.map fun _ _ _ _ h => h
  | revoke userId purpose source => exact revoke_obeys.map fun _ _ _ _ h => h
  | enqueueMarketingEmail userId campaign actorId correlationId =>
      exact enqueueMarketingEmail_obeys.map fun _ _ _ _ h => h
  | recordAnalyticsEvent userId eventName actorId correlationId =>
      exact recordAnalyticsEvent_obeys.map fun _ _ _ _ h => h
  | dispatchPendingMarketing =>
      exact dispatchPendingMarketing_obeys.map fun _ _ _ k h => ⟨k, rfl, h⟩

end Obeys

end FleetManagement
