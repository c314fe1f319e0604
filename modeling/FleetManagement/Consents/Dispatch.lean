import FleetManagement.Consents.Gate
import Mathlib.Algebra.Ring.Nat
import Mathlib.Data.List.Dedup

/-!
# Overlapping runs of the dispatch job

A run selects its queue without locking it and writes its outcomes without testing the messages again.
Messages leave the queue once, and are counted by one run, exactly as long as no run commits an outcome for
a message that another run has taken out of the queue.
-/

namespace FleetManagement

/-! ## What the runs report -/

def Stmt.processes (id : Int) : Stmt → Bool
  | .updateMarketingMessage i _ => i = id
  | _ => false

def Stmt.setsStatus (status : MarketingStatus) : Stmt → Bool
  | .updateMarketingMessage _ set => set.status = some status
  | _ => false

def Database.messages (db : Database) (status : MarketingStatus) : Nat :=
  db.marketingMessages.count fun m => m.status = status

def Database.Processed (db : Database) (id : Int) : Prop :=
  ∃ m, db.marketingMessages.find? id = some m ∧ m.status ≠ .queued

namespace ConsentWorld

variable {ι : Type} (requests : ι → ConsentRequest) (w : ConsentWorld ι)

/-- The summary that a run has returned. -/
def summary (i : ι) : DispatchSummary :=
  match (w.pool.procs i).prog with
  | .ret (.summary s) => s
  | _ => ⟨0, 0⟩

/-- The runs whose transaction writes the outcome of a message. -/
def countedBy (id : Int) : List ι :=
  (w.pool.log.filter fun e => e.2.any (Stmt.processes id)).map Prod.fst

/-- The runs of the job that have committed. -/
def dispatches [DecidableEq ι] : List ι :=
  ((w.pool.log.map Prod.fst).filter fun i => requests i = .dispatchPendingMarketing).dedup

end ConsentWorld

section World
variable {ι : Type} [DecidableEq ι] (requests : ι → ConsentRequest)

/-- Every message is counted by one run if it has left the queue since `db` and by none otherwise, and the
summaries add up to the messages that have been sent and skipped. -/
structure CountsOnce (db : Database) (w : ConsentWorld ι) : Prop where
  once : ∀ id m, w.pool.store.marketingMessages.find? id = some m →
    ((m.status = .queued ∨ db.Processed id) → w.countedBy id = []) ∧
    (m.status ≠ .queued → ¬ db.Processed id → (w.countedBy id).length = 1)
  answers : ∀ e ∈ w.pool.log, requests e.1 = .dispatchPendingMarketing →
    w.summary e.1 = ⟨e.2.countP (Stmt.setsStatus .sent), e.2.countP (Stmt.setsStatus .skipped)⟩
  sent : db.messages .sent + ((w.dispatches requests).map fun i => (w.summary i).sent).sum =
    w.pool.store.messages .sent
  skipped : db.messages .skipped + ((w.dispatches requests).map fun i => (w.summary i).skipped).sum =
    w.pool.store.messages .skipped

/-- A message that has left the queue keeps its status and the time of its processing. -/
def KeepsProcessed (w u : ConsentWorld ι) : Prop :=
  ∀ id m, w.pool.store.marketingMessages.find? id = some m → m.status ≠ .queued →
    ∃ m', u.pool.store.marketingMessages.find? id = some m' ∧ m'.status = m.status ∧
      m'.processedAt = m.processedAt

/-- The run of the job that commits in this step finds all messages of its queue still QUEUED. -/
def DispatchesQueued (w : ConsentWorld ι) : ConsentStep ι → Prop
  | .request i c => requests i = .dispatchPendingMarketing → w.pool.publishes dialect (i, c) ≠ none →
      ∀ first ∈ (w.seen i).head?, ∀ m ∈ first.queued,
        ∃ m', w.pool.store.marketingMessages.find? m.id = some m' ∧ m'.status = .queued
  | .withdrawAll _ _ _ => True

end World

/-! ## The outcomes of one run -/

section Outcomes
variable {t : Table MarketingMessage} {os : List DispatchOutcome}

theorem dispatched_of_ne {id : Int} (h : ∀ o ∈ os, o.message.id ≠ id) :
    (dispatched t os).find? id = t.find? id := by
  induction os generalizing t with
  | nil => rfl
  | cons o os ih =>
      unfold dispatched
      rw [ih fun p hp => h p (List.mem_cons_of_mem _ hp),
        Table.find?_update_of_ne (Ne.symm (h o List.mem_cons_self))]

/-- Every outcome has its own message, which is still in the queue. -/
structure StillQueued (t : Table MarketingMessage) (os : List DispatchOutcome) : Prop where
  nodup : (os.map fun o => o.message.id).Nodup
  loaded : ∀ o ∈ os, o.message.status = .queued
  queued : ∀ o ∈ os, ∃ m, t.find? o.message.id = some m ∧ m.status = .queued

theorem StillQueued.tail {o : DispatchOutcome} (h : StillQueued t (o :: os)) :
    (∀ p ∈ os, p.message.id ≠ o.message.id) ∧
      StillQueued (t.update o.message.id o.changes.on o.changes.key_on) os := by
  have hnd := List.nodup_cons.mp (by simpa using h.nodup :
    (o.message.id :: os.map fun o => o.message.id).Nodup)
  have hne : ∀ p ∈ os, p.message.id ≠ o.message.id := fun p hp heq =>
    hnd.1 (List.mem_map.mpr ⟨p, hp, heq⟩)
  refine ⟨hne, hnd.2, fun p hp => h.loaded p (List.mem_cons_of_mem _ hp), fun p hp => ?_⟩
  rw [Table.find?_update_of_ne (hne p hp)]
  exact h.queued p (List.mem_cons_of_mem _ hp)

theorem StillQueued.status (h : StillQueued t os) : ∀ o ∈ os, ∃ m,
    (dispatched t os).find? o.message.id = some m ∧ m.status = o.status := by
  induction os generalizing t with
  | nil => intro o ho; cases ho
  | cons o os ih =>
      obtain ⟨hne, htail⟩ := h.tail
      intro p hp
      rcases List.mem_cons.mp hp with rfl | hp
      · obtain ⟨m, hm, -⟩ := h.queued p List.mem_cons_self
        refine ⟨p.changes.on m, ?_, p.status_on (h.loaded p List.mem_cons_self) m⟩
        unfold dispatched
        rw [dispatched_of_ne hne]
        exact Table.find?_update_self hm
      · exact ih htail p hp

theorem StillQueued.count (h : StillQueued t os) {s : MarketingStatus} (hs : s ≠ .queued) :
    (dispatched t os).count (fun m => m.status = s) =
      t.count (fun m => m.status = s) + os.countP fun o => o.status = s := by
  induction os generalizing t with
  | nil => rfl
  | cons o os ih =>
      obtain ⟨-, htail⟩ := h.tail
      obtain ⟨m, hm, hq⟩ := h.queued o List.mem_cons_self
      have hupdate := Table.count_update o.changes.key_on (fun m => m.status = s) hm
      have hold : decide (m.status = s) = false := by simp [hq, Ne.symm hs]
      have hnew : decide ((o.changes.on m).status = s) = decide (o.status = s) := by
        rw [o.status_on (h.loaded o List.mem_cons_self)]
      rw [hold, hnew] at hupdate
      unfold dispatched
      rw [ih htail, List.countP_cons]
      cases hos : decide (o.status = s) <;> rw [hos] at hupdate <;> simp at hupdate ⊢ <;> omega

theorem countP_dispatchFlush (h : ∀ o ∈ os, o.message.status = .queued) (s : MarketingStatus) :
    (dispatchFlush os).countP (Stmt.setsStatus s) = os.countP fun o => o.status = s := by
  unfold dispatchFlush
  rw [List.countP_map]
  refine List.countP_congr fun o ho => ?_
  simp [Stmt.setsStatus, DispatchOutcome.changes_status (h o ho)]

theorem any_dispatchFlush {id : Int} :
    (dispatchFlush os).any (Stmt.processes id) = true ↔ ∃ o ∈ os, o.message.id = id := by
  simp [dispatchFlush, Stmt.processes]

theorem map_message_outcomes {t : DateTime} {queue : List MarketingMessage} {gates : List Database}
    (h : gates.length = queue.length) :
    (outcomes t queue gates).map DispatchOutcome.message = queue := by
  unfold outcomes
  rw [List.map_map]
  exact List.map_fst_zip (by omega)

theorem stillQueued_outcomes {now : DateTime} {first : Database} {gates : List Database}
    (hlen : gates.length = first.queued.length)
    (h : ∀ m ∈ first.queued, ∃ m', t.find? m.id = some m' ∧ m'.status = .queued) :
    StillQueued t (outcomes now first.queued gates) where
  nodup := by
    have hids : (outcomes now first.queued gates).map (fun o => o.message.id) =
        first.queued.map Keyed.key := by
      have hmap := congrArg (List.map Keyed.key) (map_message_outcomes (t := now) hlen)
      rw [List.map_map] at hmap
      exact hmap
    rw [hids]
    exact first.marketingMessages.nodup_keys.sublist (List.filter_sublist.map _)
  loaded := outcomes_queued
  queued o ho := by
    refine h o.message ?_
    rw [← map_message_outcomes (t := now) hlen]
    exact List.mem_map_of_mem ho

end Outcomes

/-! ## What a step does to the messages -/

section World
variable {ι : Type} [DecidableEq ι] {requests : ι → ConsentRequest} {db : Database} {w : ConsentWorld ι}

/-- The three kinds of steps: the messages stay as they are, one is queued, or a run ends. -/
inductive MessageStep (requests : ι → ConsentRequest) (w : ConsentWorld ι) : ConsentStep ι → Prop
  | quiet {a : ConsentStep ι} {l : List (ι × List Stmt)}
      (hm : (w.step a).pool.store.marketingMessages = w.pool.store.marketingMessages)
      (hlog : (w.step a).pool.log = w.pool.log ++ l)
      (hl : ∀ e ∈ l, requests e.1 ≠ .dispatchPendingMarketing ∧ ∀ id, e.2.any (Stmt.processes id) = false)
      (hok : DispatchesQueued requests w a) : MessageStep requests w a
  | queued {a : ConsentStep ι} {row : MarketingMessage} {hseq} {e : ι × List Stmt}
      (hrow : row.status = .queued)
      (hm : (w.step a).pool.store.marketingMessages =
        w.pool.store.marketingMessages.insert hseq (fun id => { row with id }) fun _ => rfl)
      (hlog : (w.step a).pool.log = w.pool.log ++ [e])
      (he : requests e.1 ≠ .dispatchPendingMarketing ∧ ∀ id, e.2.any (Stmt.processes id) = false)
      (hok : DispatchesQueued requests w a) : MessageStep requests w a
  | dispatched {i : ι} {c : Choice Draw Error} {first : Database} {gates : List Database} {now : DateTime}
      (hr : requests i = .dispatchPendingMarketing) (hpub : w.pool.publishes dialect (i, c) ≠ none)
      (hseen : w.seen i = first :: gates) (hlen : gates.length = first.queued.length)
      (hm : (w.step (.request i c)).pool.store.marketingMessages =
        dispatched w.pool.store.marketingMessages (outcomes now first.queued gates))
      (hlog : (w.step (.request i c)).pool.log =
        w.pool.log ++ [(i, dispatchFlush (outcomes now first.queued gates))])
      (hprog : ((w.step (.request i c)).pool.procs i).prog =
        .ret (.summary (summary (outcomes now first.queued gates)))) :
      MessageStep requests w (.request i c)

theorem no_processes {r : ConsentRequest} {seen : List Database} {s : Database} {ws : List Stmt}
    {k : Except Error Database → Db ConsentResponse} (h : r.Commits seen s ws k)
    (hr : r ≠ .dispatchPendingMarketing) (id : Int) : ws.any (Stmt.processes id) = false := by
  refine List.any_eq_false.mpr fun stmt hstmt => ?_
  cases stmt with
  | updateMarketingMessage i set => exact absurd hstmt (no_updates h hr)
  | _ => simp [Stmt.processes]

/-- A request other than the job leaves the messages alone or queues a new one. -/
theorem ConsentRequest.Commits.messages {r : ConsentRequest} {seen : List Database} {s s' : Database}
    {ws : List Stmt} {k : Except Error Database → Db ConsentResponse} (h : r.Commits seen s ws k)
    (hr : r ≠ .dispatchPendingMarketing) (hs : dialect.applyAll ws s = .ok s') :
    s'.marketingMessages = s.marketingMessages ∨
      ∃ (row : MarketingMessage) (hseq : _), row.status = .queued ∧ s'.marketingMessages =
        s.marketingMessages.insert hseq (fun id => { row with id }) fun _ => rfl := by
  cases r with
  | grant userId purpose policyVersion source =>
      obtain ⟨o, t, rfl, ho⟩ := h
      cases o with
      | none =>
          obtain ⟨-, -, hc, hh, rfl⟩ := grantFlush_none hs
          exact Or.inl rfl
      | some c =>
          obtain ⟨-, hh, rfl⟩ := grantFlush_some (ho c rfl).1 hs
          exact Or.inl rfl
  | revoke userId purpose source =>
      obtain ⟨c, t, rfl, hrow, -⟩ := h
      obtain ⟨hh, rfl⟩ := revokeFlush_ok hrow hs
      exact Or.inl rfl
  | enqueueMarketingEmail userId campaign actorId correlationId =>
      rcases h with ⟨g, t, -, -, rfl⟩ | ⟨event, rfl⟩
      · obtain ⟨hseq, rfl⟩ := applyAll_message hs
        exact Or.inr ⟨newMessage userId campaign t, hseq, rfl, rfl⟩
      · obtain ⟨t, rfl⟩ := applyAll_audit hs
        exact Or.inl rfl
  | recordAnalyticsEvent userId eventName actorId correlationId =>
      rcases h with ⟨g, t, -, -, rfl⟩ | ⟨event, rfl⟩
      · obtain ⟨t, rfl⟩ := applyAll_event hs
        exact Or.inl rfl
      · obtain ⟨t, rfl⟩ := applyAll_audit hs
        exact Or.inl rfl
  | dispatchPendingMarketing => exact absurd rfl hr

theorem ConsentInv.messageStep {I : Database → Prop} (hw : ConsentInv I requests w)
    (a : ConsentStep ι) : MessageStep requests w a := by
  cases a with
  | withdrawAll userId source now =>
      refine .quiet (l := []) ?_ ?_ (fun e he => (by cases he)) trivial
      · show (w.pool.atomically dialect _).store.marketingMessages = _
        rcases Watched.atomically_cases (D := dialect) w.pool _ with hsame | ⟨s, hs, -, hst⟩
        · rw [hsame]
        · obtain ⟨u, -, rfl⟩ := withdrawFlush_ok hs
          rw [hst]
          rfl
      · show (w.pool.atomically dialect _).log = _
        rw [List.append_nil]
        rcases Watched.atomically_cases (D := dialect) w.pool _ with hsame | ⟨s, -, -, hst⟩
        · rw [hsame]
        · rw [hst]
  | request i c =>
      cases hpub : w.pool.publishes dialect (i, c) with
      | none =>
          obtain ⟨hst, hlog⟩ := Pool.step_of_silent hpub
          refine .quiet (l := []) (congrArg Database.marketingMessages hst) ?_ (fun e he => (by cases he))
            fun _ hne => absurd hpub hne
          rw [List.append_nil]
          exact hlog
      | some ws =>
          obtain ⟨k, hk, s, hs, hst, hlog, hprog⟩ := hw.publishes hpub
          by_cases hr : requests i = .dispatchPendingMarketing
          · rw [hr] at hk
            obtain ⟨k', rfl, first, gates, now, hseen, hlen, rfl, hret⟩ := hk
            obtain rfl := dispatchFlush_ok hs
            refine .dispatched hr (by rw [hpub]; exact Option.some_ne_none _) hseen hlen ?_ hlog ?_
            · exact congrArg Database.marketingMessages hst
            · show ((w.pool.step dialect (i, c)).procs i).prog = _
              rw [hprog]
              simp only [hret]
              rfl
          · have hquiet : (requests i ≠ .dispatchPendingMarketing) ∧
                ∀ id, ws.any (Stmt.processes id) = false := ⟨hr, no_processes hk hr⟩
            have hok : DispatchesQueued requests w (.request i c) := fun hr' => absurd hr' hr
            have hm := congrArg Database.marketingMessages hst
            rcases hk.messages hr hs with hsame | ⟨row, hseq, hrow, hinsert⟩
            · exact .quiet (l := [(i, ws)]) (hm.trans hsame) hlog
                (fun e he => by rw [List.mem_singleton.mp he]; exact hquiet) hok
            · exact .queued hrow (hm.trans hinsert) hlog hquiet hok

/-! ## Runs whose steps dispatch what is still queued -/

/-- The invariant of the world: messages are counted once, by the runs on record, which have ended. -/
structure DispatchInv (requests : ι → ConsentRequest) (db : Database) (w : ConsentWorld ι) : Prop where
  base : ConsentInv db.Grows requests w
  counts : CountsOnce requests db w
  ended : ∀ e ∈ w.pool.log, requests e.1 = .dispatchPendingMarketing →
    (w.pool.procs e.1).prog.ended = true
  once : ((w.pool.log.map Prod.fst).filter fun i => requests i = .dispatchPendingMarketing).Nodup
  known : ∀ e ∈ w.pool.log, ∀ id, e.2.any (Stmt.processes id) = true →
    ∃ m, w.pool.store.marketingMessages.find? id = some m

theorem dispatchInv_init : DispatchInv requests db (consentWorld requests db) where
  base := consentInv_init (.refl db)
  counts :=
    { once := fun _ m hm => ⟨fun _ => rfl, fun hne hfresh => absurd ⟨m, hm, hne⟩ hfresh⟩
      answers := fun _ he => absurd he List.not_mem_nil
      sent := rfl
      skipped := rfl }
  ended _ he := absurd he List.not_mem_nil
  once := List.nodup_nil
  known _ he := absurd he List.not_mem_nil

theorem procs_step {i : ι} (h : (w.pool.procs i).prog.ended = true) (a : ConsentStep ι) :
    (w.step a).pool.procs i = w.pool.procs i := by
  cases a with
  | request j c => exact Watched.procs_ended h (j, c)
  | withdrawAll userId source now =>
      show (w.pool.atomically dialect _).procs i = _
      rcases Watched.atomically_cases (D := dialect) w.pool _ with hsame | ⟨s, -, -, hst⟩
      · rw [hsame]
      · rw [hst]

theorem DispatchInv.summary_step (h : DispatchInv requests db w) {e : ι × List Stmt}
    (he : e ∈ w.pool.log) (hr : requests e.1 = .dispatchPendingMarketing) (a : ConsentStep ι) :
    (w.step a).summary e.1 = w.summary e.1 := by
  unfold ConsentWorld.summary
  rw [procs_step (h.ended e he hr) a]

theorem DispatchInv.dispatches_eq (h : DispatchInv requests db w) : w.dispatches requests =
    (w.pool.log.map Prod.fst).filter fun i => requests i = .dispatchPendingMarketing :=
  h.once.dedup

/-- The summaries of the runs on record stay as they are. -/
theorem DispatchInv.sum_step (h : DispatchInv requests db w) (a : ConsentStep ι)
    (f : DispatchSummary → Nat) :
    ((w.dispatches requests).map fun i => f ((w.step a).summary i)).sum =
      ((w.dispatches requests).map fun i => f (w.summary i)).sum := by
  rw [h.dispatches_eq]
  congr 1
  refine List.map_congr_left fun i hi => ?_
  obtain ⟨hmem, hr⟩ := List.mem_filter.mp hi
  obtain ⟨e, he, rfl⟩ := List.mem_map.mp hmem
  rw [h.summary_step he (of_decide_eq_true hr)]

/-- A step that ends no run and keeps the messages that are on record. -/
theorem DispatchInv.of_quiet (h : DispatchInv requests db w) {a : ConsentStep ι}
    {l : List (ι × List Stmt)} (hlog : (w.step a).pool.log = w.pool.log ++ l)
    (hl : ∀ e ∈ l, requests e.1 ≠ .dispatchPendingMarketing ∧ ∀ id, e.2.any (Stmt.processes id) = false)
    (hkeep : ∀ id m, w.pool.store.marketingMessages.find? id = some m →
      (w.step a).pool.store.marketingMessages.find? id = some m)
    (hnew : ∀ id m, (w.step a).pool.store.marketingMessages.find? id = some m →
      w.pool.store.marketingMessages.find? id = some m ∨
        m.status = .queued ∧ w.pool.store.marketingMessages.find? id = none)
    (hcount : ∀ s ≠ .queued, (w.step a).pool.store.messages s = w.pool.store.messages s) :
    DispatchInv requests db (w.step a) := by
  have hcounted : ∀ id, (w.step a).countedBy id = w.countedBy id := by
    intro id
    have hnil : (l.filter fun e => e.2.any (Stmt.processes id)) = [] :=
      List.filter_eq_nil_iff.mpr fun e he => by rw [(hl e he).2 id]; exact Bool.false_ne_true
    unfold ConsentWorld.countedBy
    rw [hlog, List.filter_append, hnil, List.append_nil]
  have hruns : ((w.step a).pool.log.map Prod.fst).filter
      (fun i => requests i = .dispatchPendingMarketing) =
      (w.pool.log.map Prod.fst).filter fun i => requests i = .dispatchPendingMarketing := by
    rw [hlog, List.map_append, List.filter_append]
    refine (congrArg _ (List.filter_eq_nil_iff.mpr fun i hi => ?_)).trans (List.append_nil _)
    obtain ⟨e, he, rfl⟩ := List.mem_map.mp hi
    simp [(hl e he).1]
  have hdispatches : (w.step a).dispatches requests = w.dispatches requests := by
    unfold ConsentWorld.dispatches
    rw [hruns]
  have hold : ∀ e ∈ (w.step a).pool.log, requests e.1 = .dispatchPendingMarketing → e ∈ w.pool.log := by
    intro e he hr
    rw [hlog] at he
    exact (List.mem_append.mp he).resolve_right fun hin => (hl e hin).1 hr
  refine ⟨h.base.step keptByTurns_grows a, ⟨fun id m hm => ?_, fun e he hr => ?_, ?_, ?_⟩,
    fun e he hr => ?_, by rw [hruns]; exact h.once, fun e he id hid => ?_⟩
  · rw [hcounted]
    rcases hnew id m hm with hm | ⟨hq, hnone⟩
    · exact h.counts.once id m hm
    · refine ⟨fun _ => ?_, fun hne => absurd hq hne⟩
      unfold ConsentWorld.countedBy
      rw [List.map_eq_nil_iff, List.filter_eq_nil_iff]
      intro e he hid
      obtain ⟨m', hm'⟩ := h.known e he id hid
      rw [hnone] at hm'
      cases hm'
  · rw [h.summary_step (hold e he hr) hr]
    exact h.counts.answers e (hold e he hr) hr
  · rw [hdispatches, h.sum_step a DispatchSummary.sent, hcount _ (by simp)]
    exact h.counts.sent
  · rw [hdispatches, h.sum_step a DispatchSummary.skipped, hcount _ (by simp)]
    exact h.counts.skipped
  · rw [procs_step (h.ended e (hold e he hr) hr)]
    exact h.ended e (hold e he hr) hr
  · rw [hlog] at he
    rcases List.mem_append.mp he with he | he
    · obtain ⟨m, hm⟩ := h.known e he id hid
      exact ⟨m, hkeep id m hm⟩
    · rw [(hl e he).2 id] at hid; cases hid

theorem ended_of_publishes {a : ι × Choice Draw Error} (h : w.pool.publishes dialect a ≠ none) :
    (w.pool.procs a.1).prog.ended = false := by
  unfold Pool.publishes at h
  cases hprog : (w.pool.procs a.1).prog with
  | commit ws k => rfl
  | _ => rw [hprog] at h; exact absurd rfl h

omit [DecidableEq ι] in
theorem summary_of_ret {i : ι} {s : DispatchSummary} (h : (w.pool.procs i).prog = .ret (.summary s)) :
    w.summary i = s := by
  unfold ConsentWorld.summary
  rw [h]

omit [DecidableEq ι] in
theorem countedBy_append {u : ConsentWorld ι} {i : ι} {ws : List Stmt}
    (hlog : u.pool.log = w.pool.log ++ [(i, ws)]) (id : Int) :
    u.countedBy id = w.countedBy id ++ if ws.any (Stmt.processes id) then [i] else [] := by
  unfold ConsentWorld.countedBy
  rw [hlog, List.filter_append, List.map_append, List.filter_singleton]
  cases ws.any (Stmt.processes id) <;> rfl

/-- A run that ends while the messages of its queue are still QUEUED. -/
theorem DispatchInv.of_dispatched (h : DispatchInv requests db w) {i : ι} {c : Choice Draw Error}
    {os : List DispatchOutcome} (hr : requests i = .dispatchPendingMarketing)
    (hpub : w.pool.publishes dialect (i, c) ≠ none)
    (hm : (w.step (.request i c)).pool.store.marketingMessages =
      dispatched w.pool.store.marketingMessages os)
    (hlog : (w.step (.request i c)).pool.log = w.pool.log ++ [(i, dispatchFlush os)])
    (hprog : ((w.step (.request i c)).pool.procs i).prog = .ret (.summary (summary os)))
    (hos : StillQueued w.pool.store.marketingMessages os) :
    DispatchInv requests db (w.step (.request i c)) := by
  have hsummary := summary_of_ret hprog
  have hnew : i ∉ (w.pool.log.map Prod.fst).filter fun i => requests i = .dispatchPendingMarketing := by
    intro hmem
    obtain ⟨e, he, rfl⟩ := List.mem_map.mp (List.mem_filter.mp hmem).1
    have hended := h.ended e he hr
    rw [ended_of_publishes hpub] at hended
    cases hended
  have hruns : ((w.step (.request i c)).pool.log.map Prod.fst).filter
      (fun i => requests i = .dispatchPendingMarketing) =
      ((w.pool.log.map Prod.fst).filter fun i => requests i = .dispatchPendingMarketing) ++ [i] := by
    rw [hlog, List.map_append, List.filter_append]
    simp [hr]
  have hnodup : (((w.pool.log.map Prod.fst).filter fun i =>
      requests i = .dispatchPendingMarketing) ++ [i]).Nodup :=
    List.Nodup.append h.once (List.nodup_singleton i) (List.disjoint_singleton.mpr hnew)
  have hdispatches : (w.step (.request i c)).dispatches requests = w.dispatches requests ++ [i] := by
    unfold ConsentWorld.dispatches
    rw [hruns, hnodup.dedup, h.once.dedup]
  have hsum : ∀ (f : DispatchSummary → Nat) s, s ≠ .queued →
      f (summary os) = os.countP (fun o => o.status = s) →
      db.messages s + ((w.dispatches requests).map fun i => f (w.summary i)).sum =
        w.pool.store.messages s →
      db.messages s + (((w.step (.request i c)).dispatches requests).map fun j =>
        f ((w.step (.request i c)).summary j)).sum = (w.step (.request i c)).pool.store.messages s := by
    intro f s hs hf hold
    have hcount := hos.count hs
    unfold Database.messages at hold ⊢
    rw [hdispatches, List.map_append, List.sum_append, h.sum_step, List.map_singleton, List.sum_singleton,
      hsummary, hf, hm, hcount]
    omega
  refine ⟨h.base.step keptByTurns_grows _, ⟨fun id m hrow => ?_, fun e he hre => ?_, ?_, ?_⟩,
    fun e he hre => ?_, by rw [hruns]; exact hnodup, fun e he id hid => ?_⟩
  · rw [countedBy_append hlog]
    by_cases hid : (dispatchFlush os).any (Stmt.processes id) = true
    · obtain ⟨o, ho, rfl⟩ := any_dispatchFlush.mp hid
      obtain ⟨m', hm', hstatus⟩ := hos.status o ho
      obtain ⟨m₀, hm₀, hq₀⟩ := hos.queued o ho
      rw [hm, hm'] at hrow
      cases hrow
      have hunprocessed : ¬ db.Processed o.message.id := by
        rintro ⟨d, hd, hne⟩
        obtain ⟨m₁, hm₁, -, hq⟩ := h.base.store.messages _ d hd
        rw [hm₀] at hm₁
        cases hm₁
        exact hne (hq hq₀)
      have hnone := (h.counts.once _ m₀ hm₀).1 (Or.inl hq₀)
      rw [if_pos hid, hnone]
      refine ⟨fun hq => ?_, fun _ _ => rfl⟩
      rcases hq with hq | hq
      · rw [hstatus] at hq; exact absurd hq o.status_ne_queued
      · exact absurd hq hunprocessed
    · rw [if_neg hid, List.append_nil]
      have hne : ∀ o ∈ os, o.message.id ≠ id := fun o ho heq =>
        hid (any_dispatchFlush.mpr ⟨o, ho, heq⟩)
      rw [hm, dispatched_of_ne hne] at hrow
      exact h.counts.once id m hrow
  · rw [hlog] at he
    rcases List.mem_append.mp he with he | he
    · rw [h.summary_step he hre]
      exact h.counts.answers e he hre
    · rw [List.mem_singleton.mp he, hsummary, countP_dispatchFlush hos.loaded,
        countP_dispatchFlush hos.loaded]
      rfl
  · exact hsum DispatchSummary.sent .sent (by simp) rfl h.counts.sent
  · exact hsum DispatchSummary.skipped .skipped (by simp) rfl h.counts.skipped
  · rw [hlog] at he
    rcases List.mem_append.mp he with he | he
    · rw [procs_step (h.ended e he hre)]
      exact h.ended e he hre
    · rw [List.mem_singleton.mp he, hprog]
      rfl
  · rw [hm]
    rw [hlog] at he
    rcases List.mem_append.mp he with he | he
    · obtain ⟨m, hrow⟩ := h.known e he id hid
      obtain ⟨m', hm', -⟩ := find?_dispatched hos.loaded hrow
      exact ⟨m', hm'⟩
    · rw [List.mem_singleton.mp he] at hid
      obtain ⟨o, ho, rfl⟩ := any_dispatchFlush.mp hid
      obtain ⟨m, hrow, -⟩ := hos.status o ho
      exact ⟨m, hrow⟩

theorem DispatchInv.stillQueued {i : ι} {c : Choice Draw Error} {first : Database}
    {gates : List Database} {now : DateTime} (hr : requests i = .dispatchPendingMarketing)
    (hpub : w.pool.publishes dialect (i, c) ≠ none) (hseen : w.seen i = first :: gates)
    (hlen : gates.length = first.queued.length) (hok : DispatchesQueued requests w (.request i c)) :
    StillQueued w.pool.store.marketingMessages (outcomes now first.queued gates) :=
  stillQueued_outcomes hlen (hok hr hpub first (by rw [hseen]; rfl))

theorem DispatchInv.step (h : DispatchInv requests db w) {a : ConsentStep ι}
    (hok : DispatchesQueued requests w a) : DispatchInv requests db (w.step a) := by
  cases h.base.messageStep a with
  | quiet hm hlog hl _ =>
      refine h.of_quiet hlog hl (fun id m hrow => by rw [hm]; exact hrow) (fun id m hrow => Or.inl ?_)
        fun s _ => by unfold Database.messages; rw [hm]
      rw [hm] at hrow; exact hrow
  | queued hrow hm hlog he _ =>
      refine h.of_quiet hlog (fun e' he' => by rw [List.mem_singleton.mp he']; exact he)
        (fun id m hfind => by rw [hm]; exact Table.find?_insert_of_some hfind) (fun id m hfind => ?_)
        fun s hs => ?_
      · rw [hm, Table.find?_insert] at hfind
        split at hfind
        · rename_i hid
          cases hfind
          exact Or.inr ⟨hrow, hid ▸ Table.find?_fresh (by omega)⟩
        · exact Or.inl hfind
      · unfold Database.messages
        rw [hm, Table.count_insert]
        simp [hrow, Ne.symm hs]
  | dispatched hr hpub hseen hlen hm hlog hprog =>
      exact h.of_dispatched hr hpub hm hlog hprog (stillQueued hr hpub hseen hlen hok)

/-- A run that finds a message of its queue processed counts it a second time. -/
theorem DispatchInv.dispatchesQueued (h : DispatchInv requests db w) {a : ConsentStep ι}
    (hP : CountsOnce requests db (w.step a)) : DispatchesQueued requests w a := by
  cases h.base.messageStep a with
  | quiet hm hlog hl hok => exact hok
  | queued hrow hm hlog he hok => exact hok
  | dispatched hr hpub hseen hlen hm hlog hprog =>
      rename_i i c first gates now
      intro _ _ first' hfirst m hmem
      rw [hseen, List.head?_cons, Option.mem_def, Option.some.injEq] at hfirst
      subst hfirst
      obtain ⟨hgrows, hfirst⟩ := h.base.seen (i := i) (g := first)
        (by rw [hseen]; exact List.mem_cons_self)
      have hrow : first.marketingMessages.find? m.id = some m :=
        Table.find?_key (List.mem_of_mem_filter hmem)
      have hq : m.status = .queued := of_decide_eq_true (List.mem_filter.mp hmem).2
      obtain ⟨m', hm', -⟩ := hfirst.messages m.id m hrow
      refine ⟨m', hm', Classical.byContradiction fun hne => ?_⟩
      have hunprocessed : ¬ db.Processed m.id := by
        rintro ⟨d, hd, hnd⟩
        obtain ⟨m₁, hm₁, -, hq₁⟩ := hgrows.messages _ d hd
        rw [hrow] at hm₁
        cases hm₁
        exact hnd (hq₁ hq)
      have hone := (h.counts.once m.id m' hm').2 hne hunprocessed
      have hloaded : ∀ o ∈ outcomes now first.queued gates, o.message.status = .queued := outcomes_queued
      obtain ⟨m'', hm'', -⟩ := find?_dispatched hloaded hm'
      have hmem' : (dispatchFlush (outcomes now first.queued gates)).any (Stmt.processes m.id) = true := by
        have hmap := map_message_outcomes (t := now) hlen
        rw [← hmap] at hmem
        obtain ⟨o, ho, rfl⟩ := List.mem_map.mp hmem
        exact any_dispatchFlush.mpr ⟨o, ho, rfl⟩
      have hcounted : ((w.step (.request i c)).countedBy m.id).length = 2 := by
        rw [countedBy_append hlog, List.length_append, hone, if_pos hmem']
        rfl
      have hlimit := hP.once m.id m'' (by rw [hm]; exact hm'')
      by_cases hnew : m''.status = .queued
      · rw [hlimit.1 (Or.inl hnew)] at hcounted; cases hcounted
      · rw [hlimit.2 hnew hunprocessed] at hcounted; cases hcounted

theorem keepsProcessed_step (h : DispatchInv requests db w) {a : ConsentStep ι}
    (hok : DispatchesQueued requests w a) : KeepsProcessed w (w.step a) := by
  intro id m hrow hne
  cases h.base.messageStep a with
  | quiet hm hlog hl _ => exact ⟨m, by rw [hm]; exact hrow, rfl, rfl⟩
  | queued hq hm hlog he _ => exact ⟨m, by rw [hm]; exact Table.find?_insert_of_some hrow, rfl, rfl⟩
  | dispatched hr hpub hseen hlen hm hlog hprog =>
      rename_i i c first gates now
      have hos : StillQueued w.pool.store.marketingMessages (outcomes now first.queued gates) :=
        DispatchInv.stillQueued hr hpub hseen hlen hok
      refine ⟨m, ?_, rfl, rfl⟩
      rw [hm, dispatched_of_ne fun o ho heq => ?_]
      · exact hrow
      · obtain ⟨m', hm', hq'⟩ := hos.queued o ho
        rw [heq, hrow] at hm'
        cases hm'
        exact hne hq'

omit [DecidableEq ι] in
theorem KeepsProcessed.refl (w : ConsentWorld ι) : KeepsProcessed w w :=
  fun _ m hm _ => ⟨m, hm, rfl, rfl⟩

omit [DecidableEq ι] in
theorem KeepsProcessed.trans (t u v : ConsentWorld ι) (h : KeepsProcessed t u) (h' : KeepsProcessed u v) :
    KeepsProcessed t v := by
  intro id m hm hne
  obtain ⟨m', hm', hs', hp'⟩ := h id m hm hne
  obtain ⟨m'', hm'', hs'', hp''⟩ := h' id m' hm' (by rw [hs']; exact hne)
  exact ⟨m'', hm'', hs''.trans hs', hp''.trans hp'⟩

/-- In a run, messages leave the queue once and are counted by one run of the job exactly when every run
of the job commits while all messages of its queue are still QUEUED. -/
theorem countsOnce_iff_dispatchesQueued (steps : List (ConsentStep ι)) :
    ((∀ w, Runs.Visits ConsentWorld.step (consentWorld requests db) steps w →
        CountsOnce requests db w) ∧
      ∀ w u, Runs.VisitsThen ConsentWorld.step (consentWorld requests db) steps w u →
        KeepsProcessed w u) ↔
    ∀ w a, Runs.Takes ConsentWorld.step (consentWorld requests db) steps w a →
      DispatchesQueued requests w a := by
  constructor
  · rintro ⟨hP, -⟩
    exact Runs.guarded_of_invariant (fun _ _ hw hok => hw.step hok)
      (fun _ _ hw hP => hw.dispatchesQueued hP) dispatchInv_init hP
  · intro hok
    refine ⟨fun w hw => ?_, ?_⟩
    · exact (Runs.invariant_of_guarded (fun _ _ hw hok => hw.step hok) dispatchInv_init hok w hw).counts
    · exact Runs.relation_of_guarded KeepsProcessed.refl KeepsProcessed.trans
        (fun _ _ hw hok => hw.step hok) (fun _ _ hw hok => keepsProcessed_step hw hok) dispatchInv_init hok

end World

/-! ## Two overlapping runs -/

/-- A grant, a message, and two runs of the job. -/
def overlappingRuns : Nat → ConsentRequest
  | 0 => .grant 1 .marketingEmail "2026-01" "web"
  | 1 => .enqueueMarketingEmail 1 "spring" 1 "c"
  | _ => .dispatchPendingMarketing

/-- Both runs select the queue with message 1 before either commits. -/
def overlappingDispatches : List (ConsentStep Nat) :=
  [.request 0 (stepAt 1), .request 0 (stepAt 2), .request 0 (stepAt 3), .request 1 (stepAt 4),
    .request 1 (stepAt 5), .request 1 (stepAt 6), .request 2 (stepAt 7), .request 2 (stepAt 8),
    .request 2 (stepAt 9), .request 3 (stepAt 10), .request 3 (stepAt 11), .request 3 (stepAt 12),
    .request 2 (stepAt 13), .request 3 (stepAt 14)]

theorem overlapping_runs_count_twice :
    ¬ ((∀ w, Runs.Visits ConsentWorld.step (consentWorld overlappingRuns office) overlappingDispatches w →
        CountsOnce overlappingRuns office w) ∧
      ∀ w u, Runs.VisitsThen ConsentWorld.step (consentWorld overlappingRuns office)
        overlappingDispatches w u → KeepsProcessed w u) := by
  rintro ⟨h, -⟩
  have hsent := (h _ (Runs.Visits.last _ _)).sent
  exact absurd hsent (by decide)

end FleetManagement
