import FleetManagement.Library.Runs
import FleetManagement.Telemetry.Worker

/-!
# Deliveries

One worker and its queue. A delivery that is acked or rejected leaves the queue; one that is requeued
stays there until it is delivered again. The queue holds the bodies of a run from its start, and the
broker delivers them in any order.
-/

namespace FleetManagement

/-! ## Storing and caching a message again -/

section Store
variable {m m' : TelemetryMessage} {db db' : Database} {redis redis' : Redis}

theorem Redis.upToDate_iff : redis.upToDate m ↔ ∃ cached,
    redis (vehicleStateKey m.vehicleId) = some cached ∧
      m.recordedAt.instant ≤ cached.recordedAt.instant := by
  simp [Redis.upToDate, Option.any_eq_true]

theorem Redis.upToDate_store_self : (redis.store m).upToDate m :=
  Redis.upToDate_iff.mpr ⟨_, Redis.store_self, le_refl _⟩

/-- Caching a message that is news keeps what was up to date up to date. -/
theorem Redis.upToDate_store (h : redis.upToDate m') (hm : redis.upToDate m = false) :
    (redis.store m).upToDate m' := by
  obtain ⟨cached, hcached, hle⟩ := Redis.upToDate_iff.mp h
  by_cases hid : m'.vehicleId = m.vehicleId
  · have hlt : ¬ m.recordedAt.instant ≤ cached.recordedAt.instant := fun hm' => by
      rw [Redis.upToDate_iff.mpr ⟨cached, hid ▸ hcached, hm'⟩] at hm
      cases hm
    exact Redis.upToDate_iff.mpr ⟨m.mapping, hid ▸ Redis.store_self, hle.trans (not_le.mp hlt).le⟩
  · refine Redis.upToDate_iff.mpr ⟨cached, ?_, hle⟩
    have hkey : vehicleStateKey m'.vehicleId ≠ vehicleStateKey m.vehicleId := fun h =>
      hid ((vehicleStateKey_inj m'.vehicleId_pos m.vehicleId_pos).mp h)
    exact (Redis.store_of_ne hkey).trans hcached

/-- The message has a row after it was stored. -/
theorem Stores.recorded (h : Stores m db db') : ∃ r ∈ db'.telemetryReadings.rows, m.recordedIn r := by
  rcases h.rows with ⟨hrows, r, hr, hm⟩ | ⟨id, hrows, -⟩
  · exact ⟨r, hrows ▸ hr, hm⟩
  · refine ⟨m.reading id, by rw [hrows]; simp, ?_⟩
    simp [TelemetryMessage.recordedIn, TelemetryMessage.reading]

end Store

/-! ## The queue -/

structure Queued (Body : Type) where
  body : Body
  redelivered : Bool

structure TelemetryWorld (Body : Type) where
  backend : Backend
  queue : List (Queued Body)
  /-- The deliveries so far and how each was settled. -/
  log : List (Body × List Settlement)

inductive TelemetryAction where
  /-- The worker handles the delivery at this place of the queue. -/
  | deliver (place : Nat) (env : Nat → Circumstance)
  | restartRedis

/-- The broker forgets a delivery that was settled so. -/
def Settlement.forgets : Settlement → Bool
  | .ack => true
  | .reject requeue => !requeue
  | .nack requeue => !requeue

namespace TelemetryWorld
variable {Body Json : Type} (pydantic : Pydantic Body Json)

def start (db : Database) (bodies : List Body) : TelemetryWorld Body where
  backend := ⟨db, none, .empty, []⟩
  queue := bodies.map fun body => ⟨body, false⟩
  log := []

/-- What is left in the queue of a delivery: nothing, once its first settlement forgets it. -/
def requeued (body : Body) (settlements : List Settlement) : List (Queued Body) :=
  if settlements.head?.any Settlement.forgets then [] else [⟨body, true⟩]

def step (w : TelemetryWorld Body) : TelemetryAction → TelemetryWorld Body
  | .deliver place env =>
      match w.queue[place]? with
      | none => w
      | some delivery =>
          let s := ((handleMessage pydantic delivery.body).eval device env
            { w.backend with settled := [] } 0).state
          { backend := s
            queue := w.queue.eraseIdx place ++ requeued delivery.body s.settled
            log := w.log ++ [(delivery.body, s.settled)] }
  | .restartRedis => { w with backend := { w.backend with redis := .empty } }

/-- Every delivery made so far has been acked or rejected. -/
def AtRest (w : TelemetryWorld Body) : Prop := ∀ q ∈ w.queue, q.redelivered = false

/-- The message was delivered and its vehicle is known. -/
def Accepted (w : TelemetryWorld Body) (m : TelemetryMessage) : Prop :=
  ∃ e ∈ w.log, TelemetryMessage.modelValidateJson pydantic e.1 = some m ∧
    (w.backend.db.vehicles.find? m.vehicleId).isSome

/-- The message was delivered and waits for its redelivery. -/
def Unsettled (w : TelemetryWorld Body) (m : TelemetryMessage) : Prop :=
  ∃ q ∈ w.queue, q.redelivered ∧ TelemetryMessage.modelValidateJson pydantic q.body = some m

/-! ## One delivery -/

/-- A delivery with the settlement `x`, after which the database is `db'` and Redis is `redis'`. -/
def settle (w : TelemetryWorld Body) (place : Nat) (body : Body) (x : Settlement) (db' : Database)
    (redis' : Redis) : TelemetryWorld Body where
  backend := ⟨db', none, redis', [x]⟩
  queue := w.queue.eraseIdx place ++ requeued body [x]
  log := w.log ++ [(body, [x])]

/-- What the delivery of `body` does to the database and to Redis. -/
def Outcome (env : Nat → Circumstance) (body : Body) (db : Database) (redis : Redis) (x : Settlement)
    (db' : Database) (redis' : Redis) : Prop :=
  match TelemetryMessage.modelValidateJson pydantic body with
  | none => x = .reject false ∧ db' = db ∧ redis' = redis
  | some m => Handled env m db redis x db' redis'

variable {pydantic} {w : TelemetryWorld Body} {place : Nat} {env : Nat → Circumstance}

theorem step_deliver_some (env : Nat → Circumstance) (ht : w.backend.transaction = none)
    {delivery : Queued Body} (hq : w.queue[place]? = some delivery) :
    ∃ x db' redis', Outcome pydantic env delivery.body w.backend.db w.backend.redis x db' redis' ∧
      step pydantic w (.deliver place env) = w.settle place delivery.body x db' redis' := by
  cases hv : TelemetryMessage.modelValidateJson pydantic delivery.body with
  | none =>
      have hs := ensures_invalid env (s := { w.backend with settled := [] }) (n := 0) hv
      refine ⟨.reject false, _, _, by unfold Outcome; rw [hv]; exact ⟨rfl, rfl, rfl⟩, ?_⟩
      simp only [step, hq, settle]
      rw [show _ = _ from hs]
      simp [ht]
  | some m =>
      obtain ⟨x, db', redis', hx, hs⟩ :=
        ensures_handleMessage env (s := { w.backend with settled := [] }) hv ht
      refine ⟨x, db', redis', by unfold Outcome; rw [hv]; exact hx, ?_⟩
      simp only [step, hq, settle]
      rw [show _ = _ from hs]
      rfl

theorem step_deliver (ht : w.backend.transaction = none) :
    step pydantic w (.deliver place env) = w ∨
    ∃ delivery x db' redis', w.queue[place]? = some delivery ∧
      Outcome pydantic env delivery.body w.backend.db w.backend.redis x db' redis' ∧
      step pydantic w (.deliver place env) = w.settle place delivery.body x db' redis' := by
  cases hq : w.queue[place]? with
  | none => exact Or.inl (by simp only [step, hq])
  | some delivery =>
      obtain ⟨x, db', redis', hout, hstep⟩ := step_deliver_some env ht hq
      exact Or.inr ⟨delivery, x, db', redis', rfl, hout, hstep⟩

/-! ## What is delivered and what is unsettled after a delivery -/

section Settle
variable {delivery : Queued Body} {x : Settlement} {db' : Database} {redis' : Redis}
  {m : TelemetryMessage}

theorem mem_requeued {body : Body} {q : Queued Body} :
    q ∈ requeued body [x] ↔ x.forgets = false ∧ q = ⟨body, true⟩ := by
  cases h : x.forgets <;> simp [requeued, h]

theorem mem_eraseIdx_or (place : Nat) {q : Queued Body} {l : List (Queued Body)} (h : q ∈ l) :
    q ∈ l.eraseIdx place ∨ l[place]? = some q := by
  obtain ⟨i, hi, rfl⟩ := List.mem_iff_getElem.mp h
  by_cases hip : i = place
  · subst hip
    exact Or.inr (List.getElem?_eq_getElem hi)
  · exact Or.inl (List.mem_eraseIdx_iff_getElem.mpr ⟨i, hi, hip, rfl⟩)

/-- An unsettled message stays so, unless this was its delivery and the broker forgets it. -/
theorem Unsettled.settle (hq : w.queue[place]? = some delivery) (h : w.Unsettled pydantic m) :
    (w.settle place delivery.body x db' redis').Unsettled pydantic m ∨
      (TelemetryMessage.modelValidateJson pydantic delivery.body = some m ∧ x.forgets) := by
  obtain ⟨q, hmem, hre, hv⟩ := h
  rcases mem_eraseIdx_or place hmem with hmem | hplace
  · exact Or.inl ⟨q, List.mem_append_left _ hmem, hre, hv⟩
  · cases hq.symm.trans hplace
    cases hx : x.forgets with
    | true => exact Or.inr ⟨hv, rfl⟩
    | false =>
        exact Or.inl ⟨_, List.mem_append_right _ (mem_requeued.mpr ⟨hx, rfl⟩), rfl, hv⟩

/-- A delivery that the broker does not forget leaves its message unsettled. -/
theorem unsettled_settle (hv : TelemetryMessage.modelValidateJson pydantic delivery.body = some m)
    (hx : x.forgets = false) :
    (w.settle place delivery.body x db' redis').Unsettled pydantic m :=
  ⟨_, List.mem_append_right _ (mem_requeued.mpr ⟨hx, rfl⟩), rfl, hv⟩

theorem accepted_settle (hvehicles : db'.vehicles = w.backend.db.vehicles) :
    (w.settle place delivery.body x db' redis').Accepted pydantic m ↔ w.Accepted pydantic m ∨
      (TelemetryMessage.modelValidateJson pydantic delivery.body = some m ∧
        (w.backend.db.vehicles.find? m.vehicleId).isSome) := by
  simp only [Accepted, TelemetryWorld.settle, hvehicles, List.mem_append, List.mem_singleton]
  constructor
  · rintro ⟨e, he | rfl, hv, hknown⟩
    · exact Or.inl ⟨e, he, hv, hknown⟩
    · exact Or.inr ⟨hv, hknown⟩
  · rintro (⟨e, he, hv, hknown⟩ | ⟨hv, hknown⟩)
    · exact ⟨e, Or.inl he, hv, hknown⟩
    · exact ⟨_, Or.inr rfl, hv, hknown⟩

theorem mem_queue_settle {q : Queued Body} (hq : w.queue[place]? = some delivery)
    (h : q ∈ (w.settle place delivery.body x db' redis').queue) :
    ∃ p ∈ w.queue, p.body = q.body := by
  rcases List.mem_append.mp h with h | h
  · exact ⟨q, List.mem_of_mem_eraseIdx h, rfl⟩
  · obtain ⟨-, rfl⟩ := mem_requeued.mp h
    exact ⟨delivery, List.mem_of_getElem? hq, rfl⟩

end Settle

end TelemetryWorld

end FleetManagement
