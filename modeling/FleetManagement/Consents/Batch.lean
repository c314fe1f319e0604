import FleetManagement.Consents.Replay

/-!
# One run of the dispatch job

A run that nothing overlaps: every queued message gets the verdict of its user's consent, and a run that
raises leaves the database as it was.
-/

namespace FleetManagement

open Keyed (key)

/-! ## What a run does to the messages -/

/-- The consent that a marketing message needs. -/
def Database.allowsMarketing (db : Database) (userId : Int) : Bool :=
  db.userConsents.rows.any fun c => c.userId = userId ∧ c.purpose = .marketingEmail ∧
    c.status = .granted ∧ c.policyVersion = currentPolicyVersion

def Database.marked (db : Database) (processedAt : DateTime) (m : MarketingMessage) : MarketingMessage :=
  if m.status = .queued then
    { m with
      status := if db.allowsMarketing m.userId then .sent else .skipped
      processedAt := some processedAt }
  else m

theorem Database.key_marked (db : Database) (processedAt : DateTime) (m : MarketingMessage) :
    key (db.marked processedAt m) = key m := by
  unfold Database.marked
  split <;> rfl

/-- A run that returns `s` has left `db'`. No other table and no other message has changed. -/
structure Dispatched (db db' : Database) (s : DispatchSummary) : Prop where
  messages : ∃ t, db' = db.withMarketingMessages
    (db.marketingMessages.mapRows (db.marked t) (db.key_marked t))
  sent : s.sent = db.queued.countP fun m => db.allowsMarketing m.userId
  skipped : s.skipped = db.queued.countP fun m => !db.allowsMarketing m.userId
  total : s.sent + s.skipped = db.queued.length

/-- `dispatch_pending_marketing` alone on `db`, where `env` decides which of its steps fail. -/
def dispatchRun (env : Nat → Choice Draw Error) (db : Database) (n : Nat) :
    Except Error DispatchSummary × Session Database Stmt :=
  dispatchPendingMarketing.eval dialect env ⟨db, [], n⟩

/-- A run on `db` finds nothing to do. -/
structure NothingQueued (db : Database) : Prop where
  unchanged : ∀ env n, (dispatchRun env db n).2.store = db
  zeros : ∀ env n s, (dispatchRun env db n).1 = .ok s → s = ⟨0, 0⟩
  returns : ∀ draws n, (dispatchRun (Tx.calmly draws) db n).1 = .ok ⟨0, 0⟩

/-! ## The verdicts -/

section Run
variable {db : Database} {G : Draw → Prop} {t : DateTime}

theorem allowsMarketing_eq {userId : Int} {o : Option UserConsent}
    (h : db.consentsFor userId .marketingEmail = Option.toList o) :
    (decideGate o currentPolicyVersion).allowed = db.allowsMarketing userId := by
  have hmem : ∀ c, c ∈ o ↔ c ∈ db.userConsents.rows ∧ c.userId = userId ∧ c.purpose = .marketingEmail := by
    intro c
    have hlist : c ∈ o ↔ c ∈ db.consentsFor userId .marketingEmail := by
      rw [h]
      exact Option.mem_toList.symm
    rw [hlist]
    simp [Database.consentsFor]
  rw [Bool.eq_iff_iff, decideGate_allowed_iff]
  simp only [hmem, Database.allowsMarketing, List.any_eq_true, decide_eq_true_eq, and_assoc]

/-- The verdict for a message of the queue. -/
def Database.verdict (db : Database) (t : DateTime) (m : MarketingMessage) : DispatchOutcome :=
  ⟨m, db.allowsMarketing m.userId, t⟩

theorem wp_verdicts_exact {messages : List MarketingMessage}
    {Q : Except Error (List DispatchOutcome) → Database → List Stmt → Prop}
    (hok : Q (.ok (messages.map (db.verdict t))) db []) (herr : ∀ e, Q (.error e) db []) :
    Tx.Wp dialect G Q (verdicts t messages) db [] := by
  induction messages generalizing Q with
  | nil => exact hok
  | cons m messages ih =>
      refine Tx.wp_bind (wp_checkConsent (fun o ho => ?_) herr)
      have hallowed := allowsMarketing_eq ho
      refine Tx.wp_bind (ih ?_ herr)
      show Q (.ok (⟨m, (decideGate o currentPolicyVersion).allowed, t⟩ :: messages.map (db.verdict t))) db []
      rw [hallowed]
      exact hok

/-! ## The run -/

theorem dispatched_eq_updateAll (table : Table MarketingMessage) (queue : List MarketingMessage) :
    dispatched table (queue.map (db.verdict t)) = table.updateAll
      (fun q m => (db.verdict t q).changes.on m) (fun q m => (db.verdict t q).changes.key_on m) queue := by
  induction queue generalizing table with
  | nil => rfl
  | cons m queue ih => exact ih _

/-- A queued message is written as its verdict says. -/
theorem verdict_changes_on {m : MarketingMessage} (hm : m.status = .queued) :
    (db.verdict t m).changes.on m = db.marked t m := by
  have hstatus : (db.verdict t m).status = if db.allowsMarketing m.userId then .sent else .skipped := rfl
  simp only [DispatchOutcome.changes, MarketingMessageSet.on, Database.marked, hm, if_true, ← hstatus]
  rw [show (db.verdict t m).message = m from rfl, ← hm, dirty_getD, dirty_getD]
  rfl

theorem dispatched_queued : dispatched db.marketingMessages (db.queued.map (db.verdict t)) =
    db.marketingMessages.mapRows (db.marked t) (db.key_marked t) := by
  rw [dispatched_eq_updateAll]
  refine Table.updateAll_filter (fun m : MarketingMessage => decide (m.status = .queued)) _ _
    (fun m hm => ?_) fun m hm => ?_
  · exact verdict_changes_on (of_decide_eq_true hm)
  · exact if_neg (of_decide_eq_false hm)

theorem summary_verdicts (queue : List MarketingMessage) :
    summary (queue.map (db.verdict t)) =
      ⟨queue.countP fun m => db.allowsMarketing m.userId,
        queue.countP fun m => !db.allowsMarketing m.userId⟩ := by
  unfold summary
  rw [List.countP_map, List.countP_map]
  congr 1
  · refine List.countP_congr fun m _ => ?_
    cases hallowed : db.allowsMarketing m.userId <;>
      simp [Database.verdict, DispatchOutcome.status, hallowed]
  · refine List.countP_congr fun m _ => ?_
    cases hallowed : db.allowsMarketing m.userId <;>
      simp [Database.verdict, DispatchOutcome.status, hallowed]

/-- A run returns after it has marked the queue, or it raises and has changed nothing. -/
theorem wp_dispatch_exact : Tx.Wp dialect G (fun r db' _ => match r with
    | .ok s => Dispatched db db' s
    | .error _ => db' = db) dispatchPendingMarketing db [] := by
  unfold dispatchPendingMarketing decideQueue
  refine Tx.wp_bind (wp_now fun t => Tx.wp_bind (Tx.wp_bind (Tx.wp_select rfl ?_ fun _ => rfl)))
  refine wp_verdicts_exact ?_ fun _ => rfl
  refine Tx.wp_bind (Tx.wp_commitAll (fun u hu => ?_) fun _ => rfl)
  show Dispatched db u (summary (db.queued.map (db.verdict t)))
  rw [summary_verdicts]
  refine ⟨⟨t, ?_⟩, rfl, rfl, ?_⟩
  · rw [dispatchFlush_ok hu, ← dispatched_queued]
    rfl
  · have hlength := List.length_eq_countP_add_countP (fun m => db.allowsMarketing m.userId)
      (l := db.queued)
    simpa using hlength.symm

end Run

/-! ## The next run -/

section Next
variable {db db' : Database} {s : DispatchSummary}

theorem Dispatched.queued_eq_nil (h : Dispatched db db' s) : db'.queued = [] := by
  obtain ⟨t, rfl⟩ := h.messages
  unfold Database.queued
  rw [Database.withMarketingMessages_marketingMessages, Table.rows_mapRows, List.filter_eq_nil_iff]
  intro m hm
  obtain ⟨m, -, rfl⟩ := List.mem_map.mp hm
  unfold Database.marked
  by_cases hq : m.status = .queued
  · cases db.allowsMarketing m.userId <;> simp [hq]
  · simp [hq]

/-- A run over an empty queue changes nothing. -/
theorem Dispatched.of_empty (h : Dispatched db db' s) (hempty : db.queued = []) :
    db' = db ∧ s = ⟨0, 0⟩ := by
  obtain ⟨t, rfl⟩ := h.messages
  refine ⟨?_, ?_⟩
  · have hnone : ∀ m ∈ db.marketingMessages.rows, m.status ≠ .queued := fun m hm hq => by
      have hmem : m ∈ db.queued := List.mem_filter.mpr ⟨hm, decide_eq_true hq⟩
      rw [hempty] at hmem
      cases hmem
    have htable : db.marketingMessages.mapRows (db.marked t) (db.key_marked t) = db.marketingMessages := by
      refine Table.ext ?_ rfl
      have hmarked : ∀ m ∈ db.marketingMessages.rows, db.marked t m = id m := fun m hm =>
        if_neg (hnone m hm)
      rw [Table.rows_mapRows, List.map_congr_left hmarked]
      exact List.map_id _
    rw [htable]
    rfl
  · have hsent := h.sent
    have hskipped := h.skipped
    rw [hempty] at hsent hskipped
    cases s
    cases hsent
    cases hskipped
    rfl

theorem dispatchRun_cases (env : Nat → Choice Draw Error) (db : Database) (n : Nat) :
    match (dispatchRun env db n).1 with
    | .ok s => Dispatched db (dispatchRun env db n).2.store s
    | .error _ => (dispatchRun env db n).2.store = db :=
  Tx.wp_sound (G := fun _ => True) (fun _ => trivial) n wp_dispatch_exact

theorem nothingQueued_of_empty (hempty : db.queued = []) : NothingQueued db where
  unchanged env n := by
    have hrun := dispatchRun_cases env db n
    cases hr : (dispatchRun env db n).1 with
    | error e => rw [hr] at hrun; exact hrun
    | ok s => rw [hr] at hrun; exact (hrun.of_empty hempty).1
  zeros env n s hs := by
    have hrun := dispatchRun_cases env db n
    rw [hs] at hrun
    exact (hrun.of_empty hempty).2
  returns draws n := by
    have hqueue : db.marketingMessages.rows.filter (fun m => decide (m.status = .queued)) = [] := hempty
    unfold dispatchRun dispatchPendingMarketing decideQueue now
    rw [Tx.bind_assoc, Tx.sample_bind]
    simp only [Tx.eval, Tx.pure_eq, Tx.ret_bind, Tx.bind_assoc]
    rw [Tx.eval_select rfl, hqueue]
    unfold verdicts
    simp only [Tx.pure_eq, Tx.ret_bind, List.map_nil]
    rw [Tx.eval_commitAll rfl]
    rfl

end Next

/-- A run that returns has given every queued message its verdict, and the next one finds nothing to do; a
run that raises has changed nothing. -/
theorem dispatch_run_exact (env : Nat → Choice Draw Error) (db : Database) (n : Nat) :
    (∀ s, (dispatchRun env db n).1 = .ok s →
      Dispatched db (dispatchRun env db n).2.store s ∧ NothingQueued (dispatchRun env db n).2.store) ∧
    ∀ e, (dispatchRun env db n).1 = .error e → (dispatchRun env db n).2.store = db := by
  have hrun := dispatchRun_cases env db n
  refine ⟨fun s hs => ?_, fun e he => ?_⟩
  · rw [hs] at hrun
    exact ⟨hrun, nothingQueued_of_empty hrun.queued_eq_nil⟩
  · rw [he] at hrun
    exact hrun

end FleetManagement
