import FleetManagement.Consents.History

/-!
# What the requests commit

The effect of each transaction on one consent, and on the rows that other sessions rely on.
-/

namespace FleetManagement

open Keyed (key)

/-! ## What each commit does to a consent -/

section Turns
variable {db db' : Database} {userId : Int} {purpose : ConsentPurpose} {ws : List Stmt}
  {user : Int} {about : ConsentPurpose} {source : String}

theorem GrantCommit.turn {policyVersion : String} (h : GrantCommit db ws user about policyVersion source)
    (hI : db.FollowsHistory userId purpose) (happ : dialect.applyAll ws db = .ok db') :
    Turn userId purpose db db' := by
  obtain ⟨o, t, rfl, ho⟩ := h
  cases o with
  | none =>
      obtain ⟨hfree, -, hc, hh, rfl⟩ := grantFlush_none happ
      by_cases hpair : user = userId ∧ about = purpose
      · obtain ⟨rfl, rfl⟩ := hpair
        refine .changed (o := none)
          (c := { newConsent user about policyVersion source t with id := db.userConsents.seq + 1 })
          (h := { history user about .grant policyVersion source t with
                  id := db.consentHistory.seq + 1 }) hfree ?_ ?_ rfl ?_
        · rw [consentsFor_logged, consentsFor_insert, hfree, if_pos ⟨rfl, rfl⟩]
          rfl
        · rw [historyFor_logged, if_pos ⟨rfl, rfl⟩]
          rfl
        · intro s hs; cases hs
      · refine .same ?_ ?_
        · rw [consentsFor_logged]
          exact consentsFor_insert_of_ne hpair
        · exact historyFor_logged_of_ne hpair
  | some c =>
      obtain ⟨hrow, rfl, rfl, hnew⟩ := ho c rfl
      obtain ⟨-, hh, hdb⟩ := grantFlush_some hrow happ
      refine turn_of_update hI hrow hdb (fun c => ⟨rfl, rfl⟩) rfl rfl rfl ?_
      intro s hs hgranted heq
      cases hs
      simp only [UserConsent.grants, Bool.decide_and, Bool.and_eq_false_iff, decide_eq_false_iff_not] at hnew
      rcases hnew with hnew | hnew
      · exact hnew hgranted
      · exact hnew heq.symm

theorem RevokeCommit.turn (h : RevokeCommit db ws user about source)
    (hI : db.FollowsHistory userId purpose) (happ : dialect.applyAll ws db = .ok db') :
    Turn userId purpose db db' := by
  obtain ⟨c, t, rfl, hrow, rfl, rfl, hgranted⟩ := h
  obtain ⟨hh, hdb⟩ := revokeFlush_ok hrow happ
  exact turn_of_update hI hrow hdb (fun c => ⟨rfl, rfl⟩) rfl rfl rfl ⟨_, rfl, hgranted⟩

/-- A transaction that writes other tables. -/
theorem turn_of_eq (hc : db'.userConsents = db.userConsents) (hh : db'.consentHistory = db.consentHistory) :
    Turn userId purpose db db' :=
  .same (by unfold Database.consentsFor; rw [hc]) (by unfold Database.historyFor; rw [hh])

/-- The entries that `withdraw_all` writes for one user and purpose. -/
theorem historyFor_withdrawn (userId : Int) (purpose : ConsentPurpose) {t : DateTime}
    {u : Table ConsentHistory}
    (hu : db.consentHistory.Extends ((db.grantedConsents user).map (withdrawnHistory user source t)) u) :
    ∃ added, (db.withConsentHistory u).historyFor userId purpose =
        db.historyFor userId purpose ++ added ∧
      List.Forall₂ (fun h c => ∃ i, h = withdrawnHistory user source t c i) added
        ((db.consentsFor userId purpose).filter fun c => userId = user ∧ c.status = .granted) := by
  obtain ⟨added, hrows, hadded⟩ := hu.added
  rw [List.forall₂_map_right_iff] at hadded
  have hfilter := List.rel_filter
    (p := fun h : ConsentHistory => h.userId = userId ∧ h.purpose = purpose)
    (q := fun c : UserConsent => user = userId ∧ c.purpose = purpose)
    (fun h c hhc => by
      obtain ⟨i, rfl⟩ := hhc
      exact Iff.rfl) hadded
  refine ⟨_, by rw [Database.historyFor, Database.withConsentHistory_consentHistory, hrows,
    List.filter_append]; rfl, ?_⟩
  have hlist : (db.grantedConsents user).filter (fun c => user = userId ∧ c.purpose = purpose) =
      (db.consentsFor userId purpose).filter fun c => userId = user ∧ c.status = .granted := by
    unfold Database.grantedConsents Database.consentsFor
    rw [List.filter_filter, List.filter_filter]
    refine List.filter_congr fun c _ => ?_
    by_cases huser : user = userId
    · subst huser
      simp [Bool.and_assoc, Bool.and_comm, Bool.and_left_comm]
    · simp [huser, Ne.symm huser]
  rw [← hlist]
  exact hfilter

theorem consentsFor_withdrawn {t : DateTime} : (db.withUserConsents
    (db.userConsents.mapRows (UserConsent.withdrawnFor user source t)
      (UserConsent.key_withdrawnFor user source t))).consentsFor userId purpose =
    (db.consentsFor userId purpose).map (UserConsent.withdrawnFor user source t) := by
  have hsame : ∀ c : UserConsent, (c.withdrawnFor user source t).userId = c.userId ∧
      (c.withdrawnFor user source t).purpose = c.purpose := by
    intro c
    unfold UserConsent.withdrawnFor
    split <;> exact ⟨rfl, rfl⟩
  unfold Database.consentsFor
  rw [Database.withUserConsents_userConsents, Table.rows_mapRows, List.filter_map]
  congr 1
  exact List.filter_congr fun c _ => by simp [hsame c]

theorem withdrawFlush_turn {t : DateTime} (hI : db.FollowsHistory userId purpose)
    (happ : dialect.applyAll (withdrawFlush (db.grantedConsents user) user source t) db = .ok db') :
    Turn userId purpose db db' := by
  obtain ⟨u, hu, rfl⟩ := withdrawFlush_ok happ
  obtain ⟨added, hadded, hrel⟩ := historyFor_withdrawn userId purpose hu
  obtain ⟨o, ho⟩ := hI.consents
  have hc : ((db.withUserConsents (db.userConsents.mapRows (UserConsent.withdrawnFor user source t)
      (UserConsent.key_withdrawnFor user source t))).withConsentHistory u).consentsFor userId purpose =
      (Option.toList o).map (UserConsent.withdrawnFor user source t) := by
    rw [← ho]; exact consentsFor_withdrawn
  have hh : ((db.withUserConsents (db.userConsents.mapRows (UserConsent.withdrawnFor user source t)
      (UserConsent.key_withdrawnFor user source t))).withConsentHistory u).historyFor userId purpose =
      db.historyFor userId purpose ++ added := hadded
  rw [ho] at hrel
  cases o with
  | none =>
      cases hrel
      exact .same (by rw [hc, ho]; rfl) (by rw [hh, List.append_nil])
  | some c =>
      have huser : c.userId = userId := (mem_consentsFor ho).2.1
      by_cases hgranted : userId = user ∧ c.status = .granted
      · have hfilter : (Option.toList (some c)).filter
            (fun c => userId = user ∧ c.status = .granted) = [c] := by simp [hgranted]
        rw [hfilter] at hrel
        obtain ⟨h, hs, ⟨i, rfl⟩, hnil, rfl⟩ := List.forall₂_cons_right_iff.mp hrel
        cases hnil
        refine .changed (o := some c) (c := c.withdrawn source t) ho ?_ hh rfl ⟨_, rfl, hgranted.2⟩
        rw [hc]
        simp [UserConsent.withdrawnFor, huser, hgranted]
      · have hfilter : (Option.toList (some c)).filter
            (fun c => userId = user ∧ c.status = .granted) = [] := by simpa using hgranted
        rw [hfilter] at hrel
        cases hrel
        refine .same ?_ (by rw [hh, List.append_nil])
        rw [hc, ho]
        simp only [Option.toList_some, List.map_singleton, UserConsent.withdrawnFor]
        rw [if_neg (by rw [huser]; exact hgranted)]

end Turns

/-! ## The dispatch job -/

/-- The messages after the outcomes have been applied. -/
def dispatched (t : Table MarketingMessage) : List DispatchOutcome → Table MarketingMessage
  | [] => t
  | o :: os => dispatched (t.update o.message.id o.changes.on o.changes.key_on) os

theorem dispatchFlush_ok {db db' : Database} {os : List DispatchOutcome}
    (h : dialect.applyAll (dispatchFlush os) db = .ok db') :
    db' = db.withMarketingMessages (dispatched db.marketingMessages os) := by
  induction os generalizing db with
  | nil => cases h; rfl
  | cons o os ih =>
      obtain ⟨u, hu, hrest⟩ := dialect.applyAll_cons_ok.mp h
      obtain ⟨-, rfl⟩ := updateMarketingMessage_ok.mp hu
      exact ih hrest

theorem DispatchOutcome.status_ne_queued (o : DispatchOutcome) : o.status ≠ .queued := by
  unfold DispatchOutcome.status; split <;> simp

theorem DispatchOutcome.status_on {o : DispatchOutcome} (h : o.message.status = .queued)
    (m : MarketingMessage) : (o.changes.on m).status = o.status := by
  simp [DispatchOutcome.changes, MarketingMessageSet.on, dirty, h, o.status_ne_queued]

theorem find?_dispatched {t : Table MarketingMessage} {os : List DispatchOutcome}
    (hq : ∀ o ∈ os, o.message.status = .queued) {id : Int} {m : MarketingMessage}
    (hm : t.find? id = some m) : ∃ m', (dispatched t os).find? id = some m' ∧ m'.userId = m.userId ∧
      (m'.status = .queued → m.status = .queued) := by
  induction os generalizing t m with
  | nil => exact ⟨m, hm, rfl, fun hq => hq⟩
  | cons o os ih =>
      have hrest := fun p hp => hq p (List.mem_cons_of_mem _ hp)
      by_cases hid : id = o.message.id
      · subst hid
        have hrow : (t.update o.message.id o.changes.on o.changes.key_on).find? o.message.id =
            some (o.changes.on m) := Table.find?_update_self hm
        obtain ⟨m', hm', hu, hs⟩ := ih hrest hrow
        refine ⟨m', hm', hu, fun hqueued => ?_⟩
        have hon := hs hqueued
        rw [o.status_on (hq o List.mem_cons_self)] at hon
        exact absurd hon o.status_ne_queued
      · exact ih hrest ((Table.find?_update_of_ne hid).trans hm)

theorem outcomes_queued {t : DateTime} {db : Database} {gates : List Database} :
    ∀ o ∈ outcomes t db.queued gates, o.message.status = .queued := by
  intro o ho
  obtain ⟨⟨m, g⟩, hmg, rfl⟩ := List.mem_map.mp ho
  exact of_decide_eq_true (List.mem_filter.mp (List.of_mem_zip hmg).1).2

/-! ## What a commit leaves to the other sessions -/

section Commits
variable {db db' : Database} {held : RowKey → Prop} {ws : List Stmt} {seen : List Database}
  {userId : Int} {purpose : ConsentPurpose} {source : String}

theorem moves_of_eq (hc : db'.userConsents = db.userConsents) (hh : db'.consentHistory = db.consentHistory)
    (hm : ∀ id m, db.marketingMessages.find? id = some m →
      ∃ m', db'.marketingMessages.find? id = some m' ∧ m'.userId = m.userId ∧
        (m'.status = .queued → m.status = .queued)) : Moves held db db' where
  locked id c _ hrow := by rw [hc]; exact hrow
  grows := ⟨by rw [hh], hm⟩

/-- A transaction that writes consents and history only. -/
theorem moves_of_messages (hm : db'.marketingMessages = db.marketingMessages)
    (hh : db.consentHistory.rows <+: db'.consentHistory.rows)
    (hc : ∀ id c, held (.userConsent id) → db.userConsents.find? id = some c →
      db'.userConsents.find? id = some c) : Moves held db db' :=
  ⟨hc, hh, fun id m hrow => ⟨m, by rw [hm]; exact hrow, rfl, fun hq => hq⟩⟩

theorem find?_update_unlocked {c d : UserConsent} {f : UserConsent → UserConsent}
    (hf : ∀ c, key (f c) = key c) (hfree : ¬ held (.userConsent c.id)) {id : Int}
    (hid : held (.userConsent id)) (hrow : db.userConsents.find? id = some d) :
    (db.userConsents.update c.id f hf).find? id = some d := by
  have hne : id ≠ c.id := fun heq => hfree (by rw [← heq]; exact hid)
  rw [Table.find?_update_of_ne hne, hrow]

theorem GrantCommit.moves {policyVersion : String}
    (h : GrantCommit db ws userId purpose policyVersion source)
    (happ : dialect.applyAll ws db = .ok db') (hheld : ∀ q ∈ ws.flatMap Stmt.touches, ¬ held q) :
    Moves held db db' := by
  obtain ⟨o, t, rfl, ho⟩ := h
  cases o with
  | none =>
      obtain ⟨-, -, hc, hh, rfl⟩ := grantFlush_none happ
      exact moves_of_messages rfl (List.prefix_append _ _) fun id c _ hrow =>
        Table.find?_insert_of_some hrow
  | some c =>
      obtain ⟨hrow, -⟩ := ho c rfl
      obtain ⟨-, hh, rfl⟩ := grantFlush_some hrow happ
      have hfree : ¬ held (.userConsent c.id) := hheld _ (by simp [grantFlush, Stmt.touches])
      exact moves_of_messages rfl (List.prefix_append _ _) fun id d hid hrow' =>
        find?_update_unlocked (UserConsent.key_granted policyVersion source t) hfree hid hrow'

theorem RevokeCommit.moves (h : RevokeCommit db ws userId purpose source)
    (happ : dialect.applyAll ws db = .ok db') (hheld : ∀ q ∈ ws.flatMap Stmt.touches, ¬ held q) :
    Moves held db db' := by
  obtain ⟨c, t, rfl, hrow, -⟩ := h
  obtain ⟨hh, rfl⟩ := revokeFlush_ok hrow happ
  have hfree : ¬ held (.userConsent c.id) := hheld _ (by simp [revokeFlush, Stmt.touches])
  exact moves_of_messages rfl (List.prefix_append _ _) fun id d hid hrow' =>
    find?_update_unlocked (UserConsent.key_withdrawn source t) hfree hid hrow'

theorem withdrawFlush_moves {t : DateTime}
    (happ : dialect.applyAll (withdrawFlush (db.grantedConsents userId) userId source t) db = .ok db')
    (hheld : ∀ q ∈ (withdrawFlush (db.grantedConsents userId) userId source t).flatMap Stmt.touches,
      ¬ held q) : Moves held db db' := by
  obtain ⟨u, hu, rfl⟩ := withdrawFlush_ok happ
  obtain ⟨added, hrows, -⟩ := hu.added
  refine moves_of_messages rfl ?_ fun id c hid hrow => ?_
  · rw [Database.withConsentHistory_consentHistory, hrows]
    exact List.prefix_append _ _
  · have hkeep : c.withdrawnFor userId source t = c := by
      unfold UserConsent.withdrawnFor
      refine if_neg fun hc => hheld (.userConsent id) ?_ hid
      have hmem : c ∈ db.grantedConsents userId :=
        List.mem_filter.mpr ⟨Table.mem_of_find? hrow, decide_eq_true hc⟩
      have hkey : c.id = id := Table.key_of_find? hrow
      simp only [withdrawFlush, List.flatMap_append, List.mem_append, List.mem_flatMap, List.mem_map]
      exact Or.inl ⟨_, ⟨c, hmem, rfl⟩, by simp [Stmt.touches, hkey]⟩
    refine Table.find?_eq_some.mpr ⟨?_, Table.key_of_find? hrow⟩
    exact List.mem_map.mpr ⟨c, Table.mem_of_find? hrow, hkeep⟩

theorem applyAll_audit {event : AuditEvent} (h : dialect.applyAll [.insertAuditEvent event] db = .ok db') :
    ∃ t, db' = db.withAuditEvents t := by
  obtain ⟨-, hseq, rfl⟩ := insertAuditEvent_ok.mp (dialect.applyAll_singleton_ok.mp h)
  exact ⟨_, rfl⟩

theorem applyAll_message {row : MarketingMessage}
    (h : dialect.applyAll [.insertMarketingMessage row] db = .ok db') :
    ∃ hseq, db' = db.withMarketingMessages
      (db.marketingMessages.insert hseq (fun id => { row with id }) fun _ => rfl) :=
  (insertMarketingMessage_ok.mp (dialect.applyAll_singleton_ok.mp h)).2

theorem applyAll_event {row : AnalyticsEvent}
    (h : dialect.applyAll [.insertAnalyticsEvent row] db = .ok db') :
    ∃ t, db' = db.withAnalyticsEvents t := by
  obtain ⟨-, hseq, rfl⟩ := insertAnalyticsEvent_ok.mp (dialect.applyAll_singleton_ok.mp h)
  exact ⟨_, rfl⟩

/-- One commit: its effect on each consent, and what the other sessions may rely on. -/
theorem ConsentRequest.Commits.effect {r : ConsentRequest} {k : Except Error Database → Db ConsentResponse}
    (h : r.Commits seen db ws k) (happ : dialect.applyAll ws db = .ok db') :
    (∀ userId purpose, db.FollowsHistory userId purpose → Turn userId purpose db db') ∧
      ∀ held : RowKey → Prop, (∀ q ∈ ws.flatMap Stmt.touches, ¬ held q) → Moves held db db' := by
  have hsame : ∀ id m, db.marketingMessages.find? id = some m →
      ∃ m', db.marketingMessages.find? id = some m' ∧ m'.userId = m.userId ∧
        (m'.status = .queued → m.status = .queued) := fun _ m hm => ⟨m, hm, rfl, fun hq => hq⟩
  have haudit : ∀ {event : AuditEvent}, dialect.applyAll [.insertAuditEvent event] db = .ok db' →
      (∀ userId purpose, db.FollowsHistory userId purpose → Turn userId purpose db db') ∧
      ∀ held : RowKey → Prop, (∀ q ∈ ws.flatMap Stmt.touches, ¬ held q) → Moves held db db' := by
    intro event hevent
    obtain ⟨t, rfl⟩ := applyAll_audit hevent
    exact ⟨fun _ _ _ => turn_of_eq rfl rfl, fun _ _ => moves_of_eq rfl rfl hsame⟩
  cases r with
  | grant user about policyVersion source =>
      have hc : GrantCommit db ws user about policyVersion source := h
      exact ⟨fun _ _ hI => hc.turn hI happ, fun _ hheld => hc.moves happ hheld⟩
  | revoke user about source =>
      have hc : RevokeCommit db ws user about source := h
      exact ⟨fun _ _ hI => hc.turn hI happ, fun _ hheld => hc.moves happ hheld⟩
  | enqueueMarketingEmail user campaign actorId correlationId =>
      rcases h with ⟨g, t, -, -, rfl⟩ | ⟨event, rfl⟩
      · obtain ⟨hseq, rfl⟩ := applyAll_message happ
        exact ⟨fun _ _ _ => turn_of_eq rfl rfl, fun _ _ => moves_of_eq rfl rfl fun id m hm =>
          ⟨m, Table.find?_insert_of_some hm, rfl, fun hq => hq⟩⟩
      · exact haudit happ
  | recordAnalyticsEvent user eventName actorId correlationId =>
      rcases h with ⟨g, t, -, -, rfl⟩ | ⟨event, rfl⟩
      · obtain ⟨t, rfl⟩ := applyAll_event happ
        exact ⟨fun _ _ _ => turn_of_eq rfl rfl, fun _ _ => moves_of_eq rfl rfl hsame⟩
      · exact haudit happ
  | dispatchPendingMarketing =>
      obtain ⟨k', -, g, gates, t, -, -, rfl, -⟩ := h
      obtain rfl := dispatchFlush_ok happ
      exact ⟨fun _ _ _ => turn_of_eq rfl rfl, fun _ _ => moves_of_eq rfl rfl fun id m hm =>
        find?_dispatched outcomes_queued hm⟩

end Commits

/-! ## The requests at work -/

section World
variable {ι : Type} {requests : ι → ConsentRequest} {I : Database → Prop} {db : Database}

/-- A property of databases that the turns of consents preserve. -/
def KeptByTurns (I : Database → Prop) : Prop :=
  ∀ db db', (∀ userId purpose, db.FollowsHistory userId purpose → Turn userId purpose db db') →
    db.Grows db' → I db → I db'

theorem keptByTurns_replayed : KeptByTurns Database.Replayed :=
  fun _ _ ht _ h userId purpose => (h userId purpose).turn (ht userId purpose (h userId purpose))

theorem keptByTurns_grows : KeptByTurns db.Grows := fun _ _ _ hgrows h => h.trans hgrows

/-- The invariant of the world: no request has lost the rows that it relies on, nor what it has seen. -/
structure ConsentInv (I : Database → Prop) (requests : ι → ConsentRequest) (w : ConsentWorld ι) :
    Prop where
  store : I w.pool.store
  safe : ∀ i, Watched.Safe dialect I Moves (fun i => (requests i).Commits) w i
  past : Watched.Recalls I Moves w

variable [DecidableEq ι]

theorem consentInv_init (hdb : I db) : ConsentInv I requests (consentWorld requests db) :=
  ⟨hdb, fun i => Watched.safe_init (handler_obeys (requests i)), Watched.recalls_init _ _⟩

variable {w : ConsentWorld ι}

/-- What a request commits: a transaction of its kind, with the effect of that kind. -/
theorem ConsentInv.publishes (hw : ConsentInv I requests w) {i : ι} {c : Choice Draw Error}
    {ws : List Stmt} (hpub : w.pool.publishes dialect (i, c) = some ws) :
    ∃ k, (requests i).Commits (w.seen i) w.pool.store ws k ∧
      ∃ s, dialect.applyAll ws w.pool.store = .ok s ∧ (w.pool.step dialect (i, c)).store = s ∧
        (w.pool.step dialect (i, c)).log = w.pool.log ++ [(i, ws)] ∧
        ((w.pool.step dialect (i, c)).procs i).prog = k (.ok s) := by
  obtain ⟨k, hk, hprog, -⟩ := (hw.safe i).publishes Moves.refl hw.store hpub
  obtain ⟨s, hs, hst, hlog⟩ := Pool.step_of_publishes hpub
  exact ⟨k, hk, s, hs, hst, hlog, hprog s hs⟩

theorem ConsentInv.step (hkeep : KeptByTurns I) (hw : ConsentInv I requests w) (a : ConsentStep ι) :
    ConsentInv I requests (w.step a) := by
  cases a with
  | request i c =>
      have hmove : ∀ ws, w.pool.publishes dialect (i, c) = some ws → ∀ held : RowKey → Prop,
          (∀ q ∈ ws.flatMap Stmt.touches, ¬ held q) →
          Moves held w.pool.store (w.pool.step dialect (i, c)).store := by
        intro ws hws held hheld
        obtain ⟨k, hk, s, hs, hst, -⟩ := hw.publishes hws
        rw [hst]
        exact (hk.effect hs).2 held hheld
      refine ⟨?_, Watched.safe_step Moves.refl Moves.trans Moves.anti hw.store hw.safe hmove,
        hw.past.step Moves.trans hw.store ?_⟩
      · show I (w.pool.step dialect (i, c)).store
        cases hpub : w.pool.publishes dialect (i, c) with
        | none => rw [(Pool.step_of_silent hpub).1]; exact hw.store
        | some ws =>
            obtain ⟨k, hk, s, hs, hst, -⟩ := hw.publishes hpub
            rw [hst]
            exact hkeep _ _ (hk.effect hs).1 ((hk.effect hs).2 (fun _ => False) fun _ _ h => h).grows hw.store
      · cases hpub : w.pool.publishes dialect (i, c) with
        | none => rw [(Pool.step_of_silent hpub).1]; exact Moves.refl _ _
        | some ws => exact hmove ws hpub _ fun _ _ h => h
  | withdrawAll userId source now =>
      have hmove : ∀ s, dialect.applyAll (withdrawFlush (w.pool.store.grantedConsents userId) userId
          source now) w.pool.store = .ok s → ∀ held : RowKey → Prop,
          (∀ q ∈ (withdrawFlush (w.pool.store.grantedConsents userId) userId source now).flatMap
            Stmt.touches, ¬ held q) → Moves held w.pool.store s :=
        fun s hs held hheld => withdrawFlush_moves hs hheld
      refine ⟨?_, Watched.safe_atomically Moves.trans Moves.anti hw.safe hmove,
        hw.past.atomically Moves.trans ?_⟩
      · show I (w.pool.atomically dialect _).store
        rcases Watched.atomically_cases (D := dialect) w.pool _ with hsame | ⟨s, hs, -, hst⟩
        · rw [hsame]; exact hw.store
        · rw [hst]
          exact hkeep _ _ (fun _ _ hI => withdrawFlush_turn hI hs)
            (hmove s hs (fun _ => False) fun _ _ h => h).grows hw.store
      · rcases Watched.atomically_cases (D := dialect) w.pool _ with hsame | ⟨s, hs, -, hst⟩
        · rw [hsame]; exact Moves.refl _ _
        · rw [hst]
          exact hmove s hs _ fun _ _ h => h

end World

end FleetManagement
