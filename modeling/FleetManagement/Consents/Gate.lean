import FleetManagement.Consents.Replay

/-!
# How long a decision of the gate holds

The gate decides on the consent row as it is when it is asked, and the action that it allows is committed
later. In between, other requests may withdraw the consent: the consent is in force at the commit exactly
when the changes since then end with a grant of the current version.
-/

namespace FleetManagement

/-! ## Changes since the gate was asked -/

/-- The entries for a consent in `s` that come after those in `g`. -/
def Database.changesSince (g s : Database) (userId : Int) (purpose : ConsentPurpose) :
    List ConsentHistory :=
  (s.historyFor userId purpose).drop (g.historyFor userId purpose).length

/-- The consent has not changed since `g`, or the last change is a GRANT of the current version. -/
def StaysInForce (g s : Database) (userId : Int) (purpose : ConsentPurpose) : Prop :=
  g.changesSince s userId purpose ≠ [] → LastGrants currentPolicyVersion (g.changesSince s userId purpose)

section Changes
variable {g s : Database} {userId : Int} {purpose : ConsentPurpose}

theorem Database.Grows.changes (h : g.Grows s) :
    s.historyFor userId purpose = g.historyFor userId purpose ++ g.changesSince s userId purpose := by
  obtain ⟨l, hl⟩ := h.history.filter fun h => h.userId = userId ∧ h.purpose = purpose
  unfold Database.changesSince Database.historyFor
  rw [← hl, List.drop_left]

theorem Database.FollowsHistory.consented_iff (h : s.FollowsHistory userId purpose) :
    s.Consented userId purpose ↔ LastGrants currentPolicyVersion (s.historyFor userId purpose) := by
  obtain ⟨o, ho⟩ := h.consents
  rw [← h.lastGrants_iff ho, decideGate_allowed_iff]
  unfold Database.Consented
  rw [ho]
  cases o <;> simp

theorem Database.FollowsHistory.gate_iff (h : s.FollowsHistory userId purpose) :
    (s.gate userId purpose).allowed = true ↔ s.Consented userId purpose := by
  obtain ⟨o, ho⟩ := h.consents
  unfold Database.gate Database.Consented
  rw [ho, Option.head?_toList, decideGate_allowed_iff]
  cases o <;> simp

/-- A consent that was in force is in force still exactly when its last change, if any, put it so. -/
theorem consented_iff_staysInForce (hg : g.FollowsHistory userId purpose)
    (hs : s.FollowsHistory userId purpose) (hgs : g.Grows s) (h : g.Consented userId purpose) :
    s.Consented userId purpose ↔ StaysInForce g s userId purpose := by
  have hlast := hg.consented_iff.mp h
  rw [hs.consented_iff, hgs.changes]
  unfold StaysInForce LastGrants at *
  cases hc : g.changesSince s userId purpose with
  | nil => simpa using hlast
  | cons c cs => simp [List.getLast?_append, List.getLast?_cons]

theorem Database.Consented.gate (h : s.Consented userId purpose) :
    (s.gate userId purpose).allowed = true := by
  obtain ⟨c, hc, hstatus, hversion⟩ := h
  unfold Database.gate
  rw [hc, List.head?_cons]
  exact decideGate_allowed_iff.mpr ⟨c, rfl, hstatus, hversion⟩

end Changes

section World
variable {ι : Type} [DecidableEq ι] {requests : ι → ConsentRequest} {db : Database} {w : ConsentWorld ι}

omit [DecidableEq ι] in
theorem ConsentInv.seen {I : Database → Prop} {i : ι} {g : Database} (hw : ConsentInv I requests w)
    (hg : g ∈ w.seen i) : I g ∧ g.Grows w.pool.store :=
  ⟨(hw.past i g hg).1, (hw.past i g hg).2.grows⟩

omit [DecidableEq ι] in
/-- A consent that the gate has allowed is in force as long as its last change since then put it in
force. -/
theorem ConsentInv.consented_iff (hw : ConsentInv Database.Replayed requests w) {i : ι} {g : Database}
    (hg : g ∈ w.seen i) {userId : Int} {purpose : ConsentPurpose}
    (hallowed : (g.gate userId purpose).allowed = true) :
    w.pool.store.Consented userId purpose ↔ StaysInForce g w.pool.store userId purpose := by
  obtain ⟨hreplayed, hgrows⟩ := hw.seen hg
  exact consented_iff_staysInForce (hreplayed _ _) (hw.store _ _) hgrows
    ((hreplayed _ _).gate_iff.mp hallowed)

/-! ## Queued messages and analytics events -/

/-- What the step inserts, it inserts for users whose consent is in force. -/
def InsertsConsented (w : ConsentWorld ι) : ConsentStep ι → Prop
  | .request i c => ∀ ws, w.pool.publishes dialect (i, c) = some ws →
      (∀ row, .insertMarketingMessage row ∈ ws → w.pool.store.Consented row.userId .marketingEmail) ∧
      ∀ row, .insertAnalyticsEvent row ∈ ws → w.pool.store.Consented row.userId .optionalAnalytics
  | .withdrawAll _ _ _ => True

/-- Since the request asked the gate, the consent has not changed or its last change put it in force. -/
def InsertsInForce (w : ConsentWorld ι) : ConsentStep ι → Prop
  | .request i c => ∀ ws, w.pool.publishes dialect (i, c) = some ws → ∀ g ∈ (w.seen i).head?,
      (∀ row, .insertMarketingMessage row ∈ ws →
        StaysInForce g w.pool.store row.userId .marketingEmail) ∧
      ∀ row, .insertAnalyticsEvent row ∈ ws →
        StaysInForce g w.pool.store row.userId .optionalAnalytics
  | .withdrawAll _ _ _ => True

theorem mem_audit {event : AuditEvent} {stmt : Stmt} (h : stmt ∈ [Stmt.insertAuditEvent event]) :
    stmt = .insertAuditEvent event := List.mem_singleton.mp h

/-- The statements of a commit that insert a message or an event are those of an allowed action. -/
theorem ConsentRequest.Commits.inserts {r : ConsentRequest} {seen : List Database} {s : Database}
    {ws : List Stmt} {k : Except Error Database → Db ConsentResponse} (h : r.Commits seen s ws k) :
    (∀ row, .insertMarketingMessage row ∈ ws →
      ∃ g, seen = [g] ∧ (g.gate row.userId .marketingEmail).allowed = true) ∧
    ∀ row, .insertAnalyticsEvent row ∈ ws →
      ∃ g, seen = [g] ∧ (g.gate row.userId .optionalAnalytics).allowed = true := by
  cases r with
  | grant userId purpose policyVersion source =>
      obtain ⟨o, t, rfl, -⟩ := h
      cases o <;> simp [grantFlush]
  | revoke userId purpose source =>
      obtain ⟨c, t, rfl, -⟩ := h
      simp [revokeFlush]
  | enqueueMarketingEmail userId campaign actorId correlationId =>
      rcases h with ⟨g, t, hseen, hallowed, rfl⟩ | ⟨event, rfl⟩
      · refine ⟨fun row hrow => ?_, fun row hrow => by simp at hrow⟩
        obtain rfl : row = newMessage userId campaign t := by simpa using hrow
        exact ⟨g, hseen, hallowed⟩
      · exact ⟨fun row hrow => (by cases mem_audit hrow), fun row hrow => (by cases mem_audit hrow)⟩
  | recordAnalyticsEvent userId eventName actorId correlationId =>
      rcases h with ⟨g, t, hseen, hallowed, rfl⟩ | ⟨event, rfl⟩
      · refine ⟨fun row hrow => by simp at hrow, fun row hrow => ?_⟩
        obtain rfl : row = ⟨0, userId, eventName, t⟩ := by simpa using hrow
        exact ⟨g, hseen, hallowed⟩
      · exact ⟨fun row hrow => (by cases mem_audit hrow), fun row hrow => (by cases mem_audit hrow)⟩
  | dispatchPendingMarketing =>
      obtain ⟨k', -, g, gates, t, -, -, rfl, -⟩ := h
      simp [dispatchFlush]

theorem ConsentInv.insertsConsented_iff (hw : ConsentInv Database.Replayed requests w)
    (a : ConsentStep ι) : InsertsConsented w a ↔ InsertsInForce w a := by
  cases a with
  | withdrawAll userId source now => exact Iff.rfl
  | request i c =>
      refine forall₂_congr fun ws hpub => ?_
      obtain ⟨k, hk, -⟩ := hw.publishes hpub
      obtain ⟨hmessages, hevents⟩ := hk.inserts
      have honly : ∀ {g}, w.seen i = [g] → g ∈ w.seen i := fun hseen => by
        rw [hseen]
        exact List.mem_singleton_self _
      constructor
      · rintro ⟨hm, he⟩ g hg
        refine ⟨fun row hrow => ?_, fun row hrow => ?_⟩
        · obtain ⟨g', hseen, hallowed⟩ := hmessages row hrow
          rw [hseen] at hg
          cases hg
          exact (hw.consented_iff (honly hseen) hallowed).mp (hm row hrow)
        · obtain ⟨g', hseen, hallowed⟩ := hevents row hrow
          rw [hseen] at hg
          cases hg
          exact (hw.consented_iff (honly hseen) hallowed).mp (he row hrow)
      · intro h
        refine ⟨fun row hrow => ?_, fun row hrow => ?_⟩
        · obtain ⟨g, hseen, hallowed⟩ := hmessages row hrow
          exact (hw.consented_iff (honly hseen) hallowed).mpr ((h g (by rw [hseen]; rfl)).1 row hrow)
        · obtain ⟨g, hseen, hallowed⟩ := hevents row hrow
          exact (hw.consented_iff (honly hseen) hallowed).mpr ((h g (by rw [hseen]; rfl)).2 row hrow)

/-- Messages and events are committed under consent in every step of a run exactly when none of the steps
that commit one comes after a withdrawal that the gate has not seen. -/
theorem insertsConsented_iff_inForce (hdb : db.Replayed) (steps : List (ConsentStep ι)) :
    (∀ w a, Runs.Takes ConsentWorld.step (consentWorld requests db) steps w a → InsertsConsented w a) ↔
    ∀ w a, Runs.Takes ConsentWorld.step (consentWorld requests db) steps w a → InsertsInForce w a :=
  forall₂_congr fun w a => forall_congr' fun ht =>
    (visits_replayed hdb w ht.visits).insertsConsented_iff a

/-! ## Dispatched messages -/

/-- The messages that the step commits as SENT belong to users whose consent is in force. -/
def SendsConsented (w : ConsentWorld ι) : ConsentStep ι → Prop
  | .request i c => ∀ ws, w.pool.publishes dialect (i, c) = some ws →
      ∀ id set, .updateMarketingMessage id set ∈ ws → set.status = some .sent →
        ∃ m, w.pool.store.marketingMessages.find? id = some m ∧
          w.pool.store.Consented m.userId .marketingEmail
  | .withdrawAll _ _ _ => True

/-- For each message of the queue that the gate allowed: since the gate was asked about it, the consent has
not changed or its last change put it in force. -/
def SendsInForce (requests : ι → ConsentRequest) (w : ConsentWorld ι) : ConsentStep ι → Prop
  | .request i c => requests i = .dispatchPendingMarketing → w.pool.publishes dialect (i, c) ≠ none →
      ∀ first ∈ (w.seen i).head?, ∀ m g, (m, g) ∈ first.queued.zip (w.seen i).tail →
        (g.gate m.userId .marketingEmail).allowed = true →
          StaysInForce g w.pool.store m.userId .marketingEmail
  | .withdrawAll _ _ _ => True

theorem no_updates {r : ConsentRequest} {seen : List Database} {s : Database} {ws : List Stmt}
    {k : Except Error Database → Db ConsentResponse} (h : r.Commits seen s ws k)
    (hr : r ≠ .dispatchPendingMarketing) {id : Int} {set : MarketingMessageSet} :
    .updateMarketingMessage id set ∉ ws := by
  cases r with
  | grant userId purpose policyVersion source =>
      obtain ⟨o, t, rfl, -⟩ := h
      cases o <;> simp [grantFlush]
  | revoke userId purpose source =>
      obtain ⟨c, t, rfl, -⟩ := h
      simp [revokeFlush]
  | enqueueMarketingEmail userId campaign actorId correlationId =>
      rcases h with ⟨g, t, -, -, rfl⟩ | ⟨event, rfl⟩ <;> simp
  | recordAnalyticsEvent userId eventName actorId correlationId =>
      rcases h with ⟨g, t, -, -, rfl⟩ | ⟨event, rfl⟩ <;> simp
  | dispatchPendingMarketing => exact absurd rfl hr

theorem DispatchOutcome.changes_status {o : DispatchOutcome} (h : o.message.status = .queued) :
    o.changes.status = some o.status := by
  simp [DispatchOutcome.changes, dirty, h, o.status_ne_queued]

theorem DispatchOutcome.status_eq_sent {o : DispatchOutcome} : o.status = .sent ↔ o.allowed = true := by
  unfold DispatchOutcome.status
  cases o.allowed <;> simp

theorem ConsentInv.sendsConsented_iff (hw : ConsentInv Database.Replayed requests w)
    (a : ConsentStep ι) : SendsConsented w a ↔ SendsInForce requests w a := by
  cases a with
  | withdrawAll userId source now => exact Iff.rfl
  | request i c =>
      cases hpub : w.pool.publishes dialect (i, c) with
      | none => simp [SendsConsented, SendsInForce, hpub]
      | some ws =>
          obtain ⟨k, hk, -⟩ := hw.publishes hpub
          by_cases hr : requests i = .dispatchPendingMarketing
          · rw [hr] at hk
            obtain ⟨k', -, first, gates, t, hseen, -, rfl, -⟩ := hk
            have hrow : ∀ m ∈ first.queued, ∃ m',
                w.pool.store.marketingMessages.find? m.id = some m' ∧ m'.userId = m.userId := by
              intro m hm
              obtain ⟨-, hgrows⟩ := hw.seen (i := i) (g := first) (by rw [hseen]; exact List.mem_cons_self)
              obtain ⟨m', hm', hu, -⟩ :=
                hgrows.messages m.id m (Table.find?_key (List.mem_of_mem_filter hm))
              exact ⟨m', hm', hu⟩
            have hgates : ∀ {g}, g ∈ gates → g ∈ w.seen i := fun hg => by
              rw [hseen]
              exact List.mem_cons_of_mem _ hg
            simp only [SendsConsented, SendsInForce, hpub, hr, hseen, List.head?_cons, List.tail_cons,
              Option.mem_def, Option.some.injEq, forall_eq', ne_eq, reduceCtorEq, not_false_eq_true,
              forall_true_left]
            constructor
            · intro h m g hmg hallowed
              obtain ⟨hm, hg⟩ := List.of_mem_zip hmg
              have hq : m.status = .queued := of_decide_eq_true (List.mem_filter.mp hm).2
              have ho : (⟨m, true, t⟩ : DispatchOutcome) ∈ outcomes t first.queued gates :=
                List.mem_map.mpr ⟨(m, g), hmg, by rw [hallowed]⟩
              obtain ⟨m', hm', hconsent⟩ := h m.id _ (List.mem_map.mpr ⟨_, ho, rfl⟩)
                ((DispatchOutcome.changes_status hq).trans rfl)
              obtain ⟨m'', hm'', hu⟩ := hrow m hm
              obtain rfl : m' = m'' := Option.some.inj (hm'.symm.trans hm'')
              rw [hu] at hconsent
              exact (hw.consented_iff (hgates hg) hallowed).mp hconsent
            · intro h id set hmem hsent
              obtain ⟨o, ho, hstmt⟩ := List.mem_map.mp hmem
              obtain ⟨rfl, rfl⟩ : o.message.id = id ∧ o.changes = set := by simpa using hstmt
              have hq := outcomes_queued o ho
              rw [DispatchOutcome.changes_status hq, Option.some.injEq,
                DispatchOutcome.status_eq_sent] at hsent
              obtain ⟨⟨m, g⟩, hmg, rfl⟩ := List.mem_map.mp ho
              obtain ⟨hm, hg⟩ := List.of_mem_zip hmg
              obtain ⟨m', hm', hu⟩ := hrow m hm
              refine ⟨m', hm', ?_⟩
              rw [hu]
              exact (hw.consented_iff (hgates hg) hsent).mpr (h m g hmg hsent)
          · refine ⟨fun _ hr' => absurd hr' hr, fun _ ws' hws' id set hmem => ?_⟩
            rw [hpub] at hws'
            cases hws'
            exact absurd hmem (no_updates hk hr)

/-- Messages are committed as SENT under consent in every step of a run exactly when no run of the job
commits after a withdrawal that the gate has not seen. -/
theorem sendsConsented_iff_inForce (hdb : db.Replayed) (steps : List (ConsentStep ι)) :
    (∀ w a, Runs.Takes ConsentWorld.step (consentWorld requests db) steps w a → SendsConsented w a) ↔
    ∀ w a, Runs.Takes ConsentWorld.step (consentWorld requests db) steps w a →
      SendsInForce requests w a :=
  forall₂_congr fun w a => forall_congr' fun ht =>
    (visits_replayed hdb w ht.visits).sendsConsented_iff a

end World

/-! ## Withdrawals that come too late -/

/-- A grant, a revoke, and two actions that depend on the consent. -/
def lateRevoke : Nat → ConsentRequest
  | 0 => .grant 1 .marketingEmail "2026-01" "web"
  | 1 => .enqueueMarketingEmail 1 "spring" 1 "c"
  | 2 => .dispatchPendingMarketing
  | _ => .revoke 1 .marketingEmail "web"

/-- The gate allows the message, and the revoke is committed before it. -/
def revokedWhileQueued : List (ConsentStep Nat) :=
  [.request 0 (stepAt 1), .request 0 (stepAt 2), .request 0 (stepAt 3), .request 1 (stepAt 4),
    .request 3 (stepAt 5), .request 3 (stepAt 6), .request 3 (stepAt 7), .request 1 (stepAt 8)]

theorem message_queued_after_revoke :
    office.Replayed ∧ ¬ ∀ w a, Runs.Takes ConsentWorld.step (consentWorld lateRevoke office)
      (revokedWhileQueued ++ [.request 1 (stepAt 9)]) w a → InsertsConsented w a := by
  refine ⟨replayed_of_no_consents rfl rfl, fun h => ?_⟩
  have hstep := h _ _ ⟨revokedWhileQueued, List.prefix_refl _, rfl⟩
    [.insertMarketingMessage (newMessage 1 "spring" 8)] (by decide)
  exact absurd (hstep.1 _ List.mem_cons_self).gate (by decide)

theorem office_insertsConsented_iff :
    (∀ w a, Runs.Takes ConsentWorld.step (consentWorld lateRevoke office)
      (revokedWhileQueued ++ [.request 1 (stepAt 9)]) w a → InsertsConsented w a) ↔
    ∀ w a, Runs.Takes ConsentWorld.step (consentWorld lateRevoke office)
      (revokedWhileQueued ++ [.request 1 (stepAt 9)]) w a → InsertsInForce w a :=
  insertsConsented_iff_inForce (replayed_of_no_consents rfl rfl) _

/-- The job asks the gate about the message, and the revoke is committed before the outcomes. -/
def revokedWhileSending : List (ConsentStep Nat) :=
  [.request 0 (stepAt 1), .request 0 (stepAt 2), .request 0 (stepAt 3), .request 1 (stepAt 4),
    .request 1 (stepAt 5), .request 1 (stepAt 6), .request 2 (stepAt 7), .request 2 (stepAt 8),
    .request 2 (stepAt 9), .request 3 (stepAt 10), .request 3 (stepAt 11), .request 3 (stepAt 12)]

theorem message_sent_after_revoke :
    office.Replayed ∧ ¬ ∀ w a, Runs.Takes ConsentWorld.step (consentWorld lateRevoke office)
      (revokedWhileSending ++ [.request 2 (stepAt 13)]) w a → SendsConsented w a := by
  refine ⟨replayed_of_no_consents rfl rfl, fun h => ?_⟩
  obtain ⟨m, hm, hconsent⟩ := h _ _ ⟨revokedWhileSending, List.prefix_refl _, rfl⟩
    [.updateMarketingMessage 1 ⟨some .sent, some (some 7)⟩] (by decide) 1 _ List.mem_cons_self rfl
  obtain rfl : m = ⟨1, 1, "spring", .queued, 5, none⟩ := by
    refine Option.some.inj (hm.symm.trans ?_)
    decide
  exact absurd hconsent.gate (by decide)

theorem office_sendsConsented_iff :
    (∀ w a, Runs.Takes ConsentWorld.step (consentWorld lateRevoke office)
      (revokedWhileSending ++ [.request 2 (stepAt 13)]) w a → SendsConsented w a) ↔
    ∀ w a, Runs.Takes ConsentWorld.step (consentWorld lateRevoke office)
      (revokedWhileSending ++ [.request 2 (stepAt 13)]) w a → SendsInForce lateRevoke w a :=
  sendsConsented_iff_inForce (replayed_of_no_consents rfl rfl) _

end FleetManagement
