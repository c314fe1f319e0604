import FleetManagement.Telemetry.Delivery

/-!
# Telemetry converges

Whatever the order of the deliveries, their duplicates and the calls that fail, the readings and the
cached states at rest are a function of the set of delivered messages, as long as Redis keeps its data.
-/

namespace FleetManagement

/-- What a delivery leaves behind while Redis keeps its data. -/
structure Steady (m : TelemetryMessage) (db : Database) (redis : Redis) (x : Settlement)
    (db' : Database) (redis' : Redis) : Prop where
  database : db' = db ∨ Stores m db db'
  cache : redis' = redis ∨ (redis' = redis.store m ∧ redis.upToDate m = false ∧ Stores m db db')
  settlement : x = .nack true ∨ (x = .ack ∧ Stores m db db' ∧ redis'.upToDate m) ∨
    (x = .reject false ∧ db.vehicles.find? m.vehicleId = none)

theorem Handled.steady {env : Nat → Circumstance} {m : TelemetryMessage} {db db' : Database}
    {redis redis' : Redis} {x : Settlement} (henv : ∀ n, (env n).restarts = false)
    (h : Handled env m db redis x db' redis') : Steady m db redis x db' redis' := by
  cases h with
  | rejected hi h => exact ⟨Or.inl rfl, Or.inl rfl, Or.inr (Or.inr ⟨rfl, h⟩)⟩
  | failed h => exact ⟨Or.inl rfl, Or.inl rfl, Or.inl rfl⟩
  | stored h hdb => exact ⟨Or.inr h, Or.inl rfl, Or.inl rfl⟩
  | cached h hdb hc =>
      cases hc with
      | unread => exact ⟨Or.inr h, Or.inl (Redis.after_of_steady (henv 4)), Or.inl rfl⟩
      | upToDate hnew =>
          exact ⟨Or.inr h, Or.inl (Redis.after_of_steady (henv 4)), Or.inr (Or.inl ⟨rfl, h, hnew⟩)⟩
      | unwritten =>
          refine ⟨Or.inr h, Or.inl ?_, Or.inl rfl⟩
          rw [Redis.after_of_steady (henv 5), Redis.after_of_steady (henv 4)]
      | written hr hnew =>
          rw [Redis.after_of_steady (henv 4)] at hnew
          rw [Redis.after_of_steady (henv 5), Redis.after_of_steady (henv 4)]
          refine ⟨Or.inr h, Or.inr ⟨rfl, hnew, h⟩, ?_⟩
          rcases hr with rfl | ⟨-, e, rfl⟩
          · exact Or.inr (Or.inl ⟨rfl, h, Redis.upToDate_store_self⟩)
          · exact Or.inl rfl

/-- Redis is not restarted during the action. -/
def TelemetryAction.keepsRedis : TelemetryAction → Prop
  | .deliver _ env => ∀ n, (env n).restarts = false
  | .restartRedis => False

/-! ## The invariant -/

namespace TelemetryWorld
variable {Body Json : Type} (pydantic : Pydantic Body Json)

/-- The delivery was settled once, and rejected only if its body is invalid or its vehicle unknown. -/
def SettledOnce (db : Database) (e : Body × List Settlement) : Prop :=
  ∃ x, e.2 = [x] ∧ ∀ requeue, x = .reject requeue →
    ∀ m, TelemetryMessage.modelValidateJson pydantic e.1 = some m →
      db.vehicles.find? m.vehicleId = none

def slot (r : TelemetryReading) : Int × DateTime := (r.vehicleId, r.recordedAt)

structure Converging (db : Database) (bodies : List Body) (w : TelemetryWorld Body) : Prop where
  closed : w.backend.transaction = none
  vehicles : w.backend.db.vehicles = db.vehicles
  queued : ∀ q ∈ w.queue, q.body ∈ bodies
  logged : ∀ e ∈ w.log, e.1 ∈ bodies ∧ SettledOnce pydantic db e
  rows_unique : (w.backend.db.telemetryReadings.rows.map slot).Nodup
  rows_from : ∀ r ∈ w.backend.db.telemetryReadings.rows, ∃ m, w.Accepted pydantic m ∧ r = m.reading r.id
  rows_for : ∀ m, w.Accepted pydantic m → w.Unsettled pydantic m ∨
    ∃ r ∈ w.backend.db.telemetryReadings.rows, m.recordedIn r
  cache_from : ∀ key cached, w.backend.redis key = some cached →
    ∃ m, w.Accepted pydantic m ∧ key = vehicleStateKey m.vehicleId ∧ cached = m.mapping
  cache_for : ∀ m, w.Accepted pydantic m → w.Unsettled pydantic m ∨ w.backend.redis.upToDate m

variable {pydantic} {db : Database} {bodies : List Body} {w : TelemetryWorld Body}

theorem converging_start (h : db.telemetryReadings.rows = []) {queue : List Body}
    (hqueue : ∀ body ∈ queue, body ∈ bodies) : Converging pydantic db bodies (start db queue) where
  closed := rfl
  vehicles := rfl
  queued := by
    intro q hq
    obtain ⟨body, hbody, rfl⟩ := List.mem_map.mp hq
    exact hqueue body hbody
  logged := fun e he => by cases he
  rows_unique := by simp [start, h]
  rows_from := fun r hr => by simp [start, h] at hr
  rows_for := fun m ⟨e, he, _⟩ => by cases he
  cache_from := fun key cached h => by cases h
  cache_for := fun m ⟨e, he, _⟩ => by cases he

section Step
variable {place : Nat} {delivery : Queued Body} {x : Settlement} {db' : Database} {redis' : Redis}

/-- The message that this delivery brings, where its vehicle is known. -/
def Brings (pydantic : Pydantic Body Json) (w : TelemetryWorld Body) (delivery : Queued Body)
    (m : TelemetryMessage) : Prop :=
  TelemetryMessage.modelValidateJson pydantic delivery.body = some m ∧
    (w.backend.db.vehicles.find? m.vehicleId).isSome

/-- What held of the accepted messages still does, where it held of all but the unsettled ones and this
delivery is not forgotten before it holds of its message. -/
theorem accepted_carry {P Q : TelemetryMessage → Prop} (hq : w.queue[place]? = some delivery)
    (hvehicles : db'.vehicles = w.backend.db.vehicles) (hPQ : ∀ m, P m → Q m)
    (hQ : ∀ m, x.forgets → Brings pydantic w delivery m → Q m)
    (hP : ∀ m, w.Accepted pydantic m → w.Unsettled pydantic m ∨ P m) {m : TelemetryMessage}
    (hm : (w.settle place delivery.body x db' redis').Accepted pydantic m) :
    (w.settle place delivery.body x db' redis').Unsettled pydantic m ∨ Q m := by
  rcases (accepted_settle hvehicles).mp hm with hold | hnew
  · rcases hP m hold with hun | hPm
    · rcases hun.settle hq with hun | ⟨hv, hx⟩
      · exact Or.inl hun
      · obtain ⟨_, _, _, hknown⟩ := hold
        exact Or.inr (hQ m hx ⟨hv, hknown⟩)
    · exact Or.inr (hPQ m hPm)
  · cases hx : x.forgets with
    | true => exact Or.inr (hQ m hx hnew)
    | false => exact Or.inl (unsettled_settle hnew.1 hx)

/-- A reading that conflicts with no row has a vehicle and instant of its own. -/
theorem nodup_slots_append {rows : List TelemetryReading} {m : TelemetryMessage}
    (h : (rows.map slot).Nodup) (hnone : ∀ r ∈ rows, m.recordedIn r = false) (id : Int) :
    ((rows ++ [m.reading id]).map slot).Nodup := by
  rw [List.map_append, List.map_singleton]
  refine List.nodup_append.mpr ⟨h, List.nodup_singleton _, ?_⟩
  intro a ha b hb hab
  obtain ⟨r, hr, rfl⟩ := List.mem_map.mp ha
  rw [List.mem_singleton.mp hb] at hab
  have hno := hnone r hr
  simp only [slot, TelemetryMessage.reading, Prod.mk.injEq] at hab
  simp [TelemetryMessage.recordedIn, hab] at hno

/-- A delivery stores and caches at most the message that it brings, and both once it is forgotten. -/
theorem Converging.settle (hw : Converging pydantic db bodies w)
    (hq : w.queue[place]? = some delivery) (hvehicles : db'.vehicles = w.backend.db.vehicles)
    (honce : SettledOnce pydantic db (delivery.body, [x]))
    (hrows : db'.telemetryReadings.rows = w.backend.db.telemetryReadings.rows ∨
      ∃ m id, Brings pydantic w delivery m ∧
        db'.telemetryReadings.rows = w.backend.db.telemetryReadings.rows ++ [m.reading id] ∧
        ∀ r ∈ w.backend.db.telemetryReadings.rows, m.recordedIn r = false)
    (hcache : redis' = w.backend.redis ∨ ∃ m, Brings pydantic w delivery m ∧
      redis' = w.backend.redis.store m ∧ w.backend.redis.upToDate m = false)
    (hdone : x.forgets → ∀ m, Brings pydantic w delivery m →
      (∃ r ∈ db'.telemetryReadings.rows, m.recordedIn r) ∧ redis'.upToDate m) :
    Converging pydantic db bodies (w.settle place delivery.body x db' redis') := by
  have haccept : ∀ m, (w.settle place delivery.body x db' redis').Accepted pydantic m ↔
      w.Accepted pydantic m ∨ Brings pydantic w delivery m := fun m => accepted_settle hvehicles
  have hkept : ∀ r ∈ w.backend.db.telemetryReadings.rows, r ∈ db'.telemetryReadings.rows := by
    intro r hr
    rcases hrows with hrows | ⟨m, id, -, hrows, -⟩
    · exact hrows ▸ hr
    · exact hrows ▸ List.mem_append_left _ hr
  have hfresh : ∀ m, w.backend.redis.upToDate m → redis'.upToDate m := by
    intro m hm
    rcases hcache with rfl | ⟨m', -, rfl, hnew⟩
    · exact hm
    · exact Redis.upToDate_store hm hnew
  constructor
  · rfl
  · exact hvehicles.trans hw.vehicles
  · intro q hmem
    obtain ⟨p, hp, hpq⟩ := mem_queue_settle hq hmem
    exact hpq ▸ hw.queued p hp
  · intro e he
    rcases List.mem_append.mp he with he | he
    · exact hw.logged e he
    · rw [List.mem_singleton.mp he]
      exact ⟨hw.queued _ (List.mem_of_getElem? hq), honce⟩
  · show (db'.telemetryReadings.rows.map slot).Nodup
    rcases hrows with hrows | ⟨m, id, -, hrows, hnone⟩
    · exact hrows ▸ hw.rows_unique
    · exact hrows ▸ nodup_slots_append hw.rows_unique hnone id
  · intro r hr
    have hr : r ∈ db'.telemetryReadings.rows := hr
    rcases hrows with hrows | ⟨m, id, hm, hrows, -⟩
    · obtain ⟨m, hm, hrm⟩ := hw.rows_from r (hrows ▸ hr)
      exact ⟨m, (haccept m).mpr (Or.inl hm), hrm⟩
    · rw [hrows] at hr
      rcases List.mem_append.mp hr with hr | hr
      · obtain ⟨m, hm, hrm⟩ := hw.rows_from r hr
        exact ⟨m, (haccept m).mpr (Or.inl hm), hrm⟩
      · rw [List.mem_singleton.mp hr]
        exact ⟨m, (haccept m).mpr (Or.inr hm), rfl⟩
  · intro m hm
    refine accepted_carry hq hvehicles (fun m h => ?_) (fun m hx hm => (hdone hx m hm).1) hw.rows_for hm
    obtain ⟨r, hr, hm⟩ := h
    exact ⟨r, hkept r hr, hm⟩
  · intro key cached hkey
    rcases hcache with rfl | ⟨m, hm, rfl, -⟩
    · obtain ⟨m, hm, hkm⟩ := hw.cache_from key cached hkey
      exact ⟨m, (haccept m).mpr (Or.inl hm), hkm⟩
    · by_cases hk : key = vehicleStateKey m.vehicleId
      · subst hk
        have hkey : (w.backend.redis.store m) _ = some cached := hkey
        rw [Redis.store_self] at hkey
        cases hkey
        exact ⟨m, (haccept m).mpr (Or.inr hm), rfl, rfl⟩
      · have hold : w.backend.redis key = some cached :=
          (Redis.store_of_ne hk).symm.trans hkey
        obtain ⟨m', hm', hkm⟩ := hw.cache_from key cached hold
        exact ⟨m', (haccept m').mpr (Or.inl hm'), hkm⟩
  · intro m hm
    exact accepted_carry hq hvehicles hfresh (fun m hx hm => (hdone hx m hm).2) hw.cache_for hm

theorem Converging.settle_invalid (hw : Converging pydantic db bodies w)
    (hq : w.queue[place]? = some delivery)
    (hv : TelemetryMessage.modelValidateJson pydantic delivery.body = none) :
    Converging pydantic db bodies
      (w.settle place delivery.body (.reject false) w.backend.db w.backend.redis) := by
  refine hw.settle hq rfl ⟨_, rfl, fun _ _ m hm => ?_⟩ (Or.inl rfl) (Or.inl rfl) fun _ m hm => ?_
  · exact absurd (hv.symm.trans hm) (by simp)
  · exact absurd (hv.symm.trans hm.1) (by simp)

theorem Converging.settle_valid (hw : Converging pydantic db bodies w)
    (hq : w.queue[place]? = some delivery) {m : TelemetryMessage}
    (hv : TelemetryMessage.modelValidateJson pydantic delivery.body = some m)
    (hs : Steady m w.backend.db w.backend.redis x db' redis') :
    Converging pydantic db bodies (w.settle place delivery.body x db' redis') := by
  refine hw.settle hq ?_ ⟨x, rfl, ?_⟩ ?_ ?_ ?_
  · rcases hs.database with rfl | hs
    · rfl
    · exact hs.vehicles
  · intro requeue hx m' hm'
    cases hv.symm.trans hm'
    rcases hs.settlement with h | ⟨h, -⟩ | ⟨-, h⟩
    · rw [h] at hx; cases hx
    · rw [h] at hx; cases hx
    · exact hw.vehicles ▸ h
  · rcases hs.database with rfl | hs
    · exact Or.inl rfl
    · rcases hs.rows with ⟨hrows, -⟩ | ⟨id, hrows, hnone⟩
      · exact Or.inl hrows
      · exact Or.inr ⟨m, id, ⟨hv, hs.1⟩, hrows, hnone⟩
  · rcases hs.cache with rfl | ⟨rfl, hnew, hs⟩
    · exact Or.inl rfl
    · exact Or.inr ⟨m, ⟨hv, hs.1⟩, rfl, hnew⟩
  · intro hx m' hm'
    cases hv.symm.trans hm'.1
    rcases hs.settlement with rfl | ⟨-, hs, hnew⟩ | ⟨-, h⟩
    · cases hx
    · exact ⟨hs.recorded, hnew⟩
    · have hknown := hm'.2
      rw [h] at hknown
      cases hknown

end Step

theorem Converging.step (hw : Converging pydantic db bodies w) {a : TelemetryAction}
    (ha : a.keepsRedis) : Converging pydantic db bodies (w.step pydantic a) := by
  cases a with
  | restartRedis => cases ha
  | deliver place env =>
      rcases step_deliver hw.closed with hstep | ⟨delivery, x, db', redis', hq, hout, hstep⟩
      · rw [hstep]; exact hw
      · rw [hstep]
        unfold Outcome at hout
        cases hv : TelemetryMessage.modelValidateJson pydantic delivery.body with
        | none =>
            rw [hv] at hout
            obtain ⟨rfl, rfl, rfl⟩ := hout
            exact hw.settle_invalid hq hv
        | some m =>
            rw [hv] at hout
            exact hw.settle_valid hq hv (Handled.steady ha hout)

/-! ## The state at rest -/

/-- Messages with the same vehicle and instant carry the same payload. -/
def Consistent (pydantic : Pydantic Body Json) (bodies : List Body) : Prop :=
  ∀ b ∈ bodies, ∀ b' ∈ bodies, ∀ m m', TelemetryMessage.modelValidateJson pydantic b = some m →
    TelemetryMessage.modelValidateJson pydantic b' = some m' → m.vehicleId = m'.vehicleId →
    m.recordedAt.instant = m'.recordedAt.instant →
    m.latitude = m'.latitude ∧ m.longitude = m'.longitude ∧ m.fuelLevel = m'.fuelLevel ∧
      m.isLocked = m'.isLocked

/-- The accepted message with the greatest `recorded_at` of its vehicle. -/
def Newest (pydantic : Pydantic Body Json) (w : TelemetryWorld Body) (m : TelemetryMessage) : Prop :=
  w.Accepted pydantic m ∧ ∀ m', w.Accepted pydantic m' → m'.vehicleId = m.vehicleId →
    m'.recordedAt.instant ≤ m.recordedAt.instant

/-- The columns of a reading but for its key. -/
def contents (r : TelemetryReading) : Int × DateTime × Rat × Rat × Rat × Bool :=
  (r.vehicleId, r.recordedAt, r.latitude, r.longitude, r.fuelLevel, r.isLocked)

def hashContents (cached : VehicleHash) : DateTime × Rat × Rat × Rat × Int :=
  (cached.recordedAt.instant, cached.latitude, cached.longitude, cached.fuelLevel, cached.isLocked)

/-- The tables of readings and the contents of Redis are the same, but for the order and the keys of the
rows and the offsets of the clocks. -/
def SameState (w w' : TelemetryWorld Body) : Prop :=
  (w.backend.db.telemetryReadings.rows.map contents).Perm
      (w'.backend.db.telemetryReadings.rows.map contents) ∧
    ∀ key, (w.backend.redis key).map hashContents = (w'.backend.redis key).map hashContents

/-- One row for each distinct vehicle and instant of the accepted messages, and the newest message of each
vehicle in the cache. -/
structure Converged (pydantic : Pydantic Body Json) (w : TelemetryWorld Body) : Prop where
  rows_unique : (w.backend.db.telemetryReadings.rows.map slot).Nodup
  rows_exactly : ∀ p, p ∈ w.backend.db.telemetryReadings.rows.map slot ↔
    ∃ m, w.Accepted pydantic m ∧ (m.vehicleId, m.recordedAt.instant) = p
  rows_contents : ∀ m, w.Accepted pydantic m →
    ∃ r ∈ w.backend.db.telemetryReadings.rows, r = m.reading r.id
  cached : ∀ m, w.Accepted pydantic m → ∃ newest, w.Newest pydantic newest ∧
    newest.vehicleId = m.vehicleId ∧
    w.backend.redis (vehicleStateKey m.vehicleId) = some newest.mapping
  cached_contents : ∀ m, w.Newest pydantic m →
    (w.backend.redis (vehicleStateKey m.vehicleId)).map hashContents = some (hashContents m.mapping)

theorem AtRest.not_unsettled (h : w.AtRest) {m : TelemetryMessage} : ¬ w.Unsettled pydantic m := by
  rintro ⟨q, hq, hre, -⟩
  rw [h q hq] at hre
  cases hre

section Rest
variable {m m' : TelemetryMessage}

theorem Converging.recorded (hw : Converging pydantic db bodies w) (hrest : w.AtRest)
    (hm : w.Accepted pydantic m) : ∃ r ∈ w.backend.db.telemetryReadings.rows, m.recordedIn r :=
  (hw.rows_for m hm).resolve_left hrest.not_unsettled

theorem Converging.upToDate (hw : Converging pydantic db bodies w) (hrest : w.AtRest)
    (hm : w.Accepted pydantic m) : w.backend.redis.upToDate m :=
  (hw.cache_for m hm).resolve_left hrest.not_unsettled

/-- Accepted messages of one vehicle and instant differ at most in the offsets of their clocks. -/
theorem Converging.same_payload (hw : Converging pydantic db bodies w)
    (hsame : Consistent pydantic bodies) (hm : w.Accepted pydantic m) (hm' : w.Accepted pydantic m')
    (hid : m.vehicleId = m'.vehicleId) (hat : m.recordedAt.instant = m'.recordedAt.instant) :
    (∀ id, m.reading id = m'.reading id) ∧ hashContents m.mapping = hashContents m'.mapping := by
  obtain ⟨e, he, hv, -⟩ := hm
  obtain ⟨e', he', hv', -⟩ := hm'
  obtain ⟨hlat, hlon, hfuel, hlocked⟩ :=
    hsame _ (hw.logged e he).1 _ (hw.logged e' he').1 m m' hv hv' hid hat
  constructor
  · intro id
    simp [TelemetryMessage.reading, hid, hat, hlat, hlon, hfuel, hlocked]
  · simp [hashContents, TelemetryMessage.mapping, hat, hlat, hlon, hfuel, hlocked]

/-- What is cached for the vehicle of an accepted message comes from its newest message. -/
theorem Converging.cached (hw : Converging pydantic db bodies w) (hrest : w.AtRest)
    (hm : w.Accepted pydantic m) : ∃ newest, w.Newest pydantic newest ∧
      newest.vehicleId = m.vehicleId ∧
      w.backend.redis (vehicleStateKey m.vehicleId) = some newest.mapping := by
  obtain ⟨cached, hcached, -⟩ := Redis.upToDate_iff.mp (hw.upToDate hrest hm)
  obtain ⟨newest, hnewest, hkey, rfl⟩ := hw.cache_from _ cached hcached
  have hid := (vehicleStateKey_inj m.vehicleId_pos newest.vehicleId_pos).mp hkey
  refine ⟨newest, ⟨hnewest, fun m' hm' hid' => ?_⟩, hid.symm, hcached⟩
  obtain ⟨cached', hcached', hle⟩ := Redis.upToDate_iff.mp (hw.upToDate hrest hm')
  rw [hid', ← hid, hcached] at hcached'
  cases hcached'
  exact hle

theorem Converging.converged (hw : Converging pydantic db bodies w)
    (hsame : Consistent pydantic bodies) (hrest : w.AtRest) : Converged pydantic w where
  rows_unique := hw.rows_unique
  rows_exactly := by
    intro p
    constructor
    · intro hp
      obtain ⟨r, hr, rfl⟩ := List.mem_map.mp hp
      obtain ⟨m, hm, hrm⟩ := hw.rows_from r hr
      exact ⟨m, hm, by rw [hrm]; rfl⟩
    · rintro ⟨m, hm, rfl⟩
      obtain ⟨r, hr, hrm⟩ := hw.recorded hrest hm
      refine List.mem_map.mpr ⟨r, hr, ?_⟩
      simpa [slot, TelemetryMessage.recordedIn] using hrm
  rows_contents := by
    intro m hm
    obtain ⟨r, hr, hrm⟩ := hw.recorded hrest hm
    obtain ⟨m', hm', hrm'⟩ := hw.rows_from r hr
    simp only [TelemetryMessage.recordedIn, decide_eq_true_eq] at hrm
    rw [hrm'] at hrm
    exact ⟨r, hr, hrm'.trans ((hw.same_payload hsame hm' hm hrm.1 hrm.2).1 r.id)⟩
  cached := fun m hm => hw.cached hrest hm
  cached_contents := by
    intro m hm
    obtain ⟨newest, hnewest, hid, hcached⟩ := hw.cached hrest hm.1
    rw [hcached, Option.map_some]
    have hle := hm.2 newest hnewest.1 hid
    have hge := hnewest.2 m hm.1 hid.symm
    rw [(hw.same_payload hsame hnewest.1 hm.1 hid (le_antisymm hle hge)).2]

/-! ## Two runs over the same messages -/

/-- The same bodies were delivered in both worlds. -/
def SameDeliveries (w w' : TelemetryWorld Body) : Prop :=
  ∀ body, body ∈ w.log.map Prod.fst ↔ body ∈ w'.log.map Prod.fst

variable {w' : TelemetryWorld Body}

theorem SameDeliveries.accepted (hw : Converging pydantic db bodies w)
    (hw' : Converging pydantic db bodies w') (h : SameDeliveries w w') :
    w.Accepted pydantic m ↔ w'.Accepted pydantic m := by
  have hlog : ∀ u : TelemetryWorld Body, Converging pydantic db bodies u →
      (u.Accepted pydantic m ↔ ∃ body ∈ u.log.map Prod.fst,
        TelemetryMessage.modelValidateJson pydantic body = some m ∧
          (db.vehicles.find? m.vehicleId).isSome) := by
    intro u hu
    simp only [Accepted, hu.vehicles, List.mem_map, exists_exists_and_eq_and]
  rw [hlog w hw, hlog w' hw']
  exact exists_congr fun body => and_congr (h body) Iff.rfl

theorem Converged.mem_contents (h : Converged pydantic w)
    {c : Int × DateTime × Rat × Rat × Rat × Bool} :
    c ∈ w.backend.db.telemetryReadings.rows.map contents ↔
      ∃ m, w.Accepted pydantic m ∧ contents (m.reading 0) = c := by
  constructor
  · intro hc
    obtain ⟨r, hr, rfl⟩ := List.mem_map.mp hc
    obtain ⟨m, hm, hslot⟩ := (h.rows_exactly (slot r)).mp (List.mem_map_of_mem hr)
    obtain ⟨r', hr', hrm⟩ := h.rows_contents m hm
    have hrr : slot r' = slot r := by rw [← hslot, hrm]; rfl
    cases List.inj_on_of_nodup_map h.rows_unique hr' hr hrr
    exact ⟨m, hm, by rw [hrm]; rfl⟩
  · rintro ⟨m, hm, rfl⟩
    obtain ⟨r, hr, hrm⟩ := h.rows_contents m hm
    exact List.mem_map.mpr ⟨r, hr, by rw [hrm]; rfl⟩

/-- What is cached in one world is cached in the other. -/
theorem Converging.cached_of_cached (hw : Converging pydantic db bodies w)
    (hw' : Converging pydantic db bodies w') (hsame : Consistent pydantic bodies) (hrest : w.AtRest)
    (hrest' : w'.AtRest) (h : SameDeliveries w w') {key : String} {cached : VehicleHash}
    (hkey : w.backend.redis key = some cached) :
    (w'.backend.redis key).map hashContents = some (hashContents cached) := by
  obtain ⟨m, hm, rfl, rfl⟩ := hw.cache_from key cached hkey
  have hnewest : w'.Newest pydantic m := by
    refine ⟨(h.accepted hw hw').mp hm, fun m' hm' hid => ?_⟩
    obtain ⟨cached', hcached', hle⟩ :=
      Redis.upToDate_iff.mp (hw.upToDate hrest ((h.accepted hw hw').mpr hm'))
    rw [hid, hkey] at hcached'
    cases hcached'
    exact hle
  exact (hw'.converged hsame hrest').cached_contents m hnewest

theorem SameDeliveries.symm (h : SameDeliveries w w') : SameDeliveries w' w := fun body => (h body).symm

theorem Converging.sameState (hw : Converging pydantic db bodies w)
    (hw' : Converging pydantic db bodies w') (hsame : Consistent pydantic bodies) (hrest : w.AtRest)
    (hrest' : w'.AtRest) (h : SameDeliveries w w') : SameState w w' := by
  have hnodup : ∀ u : TelemetryWorld Body, Converging pydantic db bodies u →
      (u.backend.db.telemetryReadings.rows.map contents).Nodup := by
    intro u hu
    refine List.Nodup.of_map (fun c => (c.1, c.2.1)) ?_
    rw [List.map_map]
    exact hu.rows_unique
  constructor
  · refine (List.perm_ext_iff_of_nodup (hnodup w hw) (hnodup w' hw')).mpr fun c => ?_
    rw [(hw.converged hsame hrest).mem_contents, (hw'.converged hsame hrest').mem_contents]
    exact exists_congr fun m => and_congr (h.accepted hw hw') Iff.rfl
  · intro key
    cases hkey : w.backend.redis key with
    | some cached => rw [hw.cached_of_cached hw' hsame hrest hrest' h hkey]; rfl
    | none =>
        cases hkey' : w'.backend.redis key with
        | none => rfl
        | some cached =>
            have hcached := hw'.cached_of_cached hw hsame hrest' hrest h.symm hkey'
            rw [hkey] at hcached
            cases hcached

end Rest

/-- Telemetry converges: in every run, with any calls failing, each delivery is settled once and rejected
only for a reason, and at rest the state is that of the set of delivered messages. -/
theorem telemetry_converges (pydantic : Pydantic Body Json) (db : Database)
    (hempty : db.telemetryReadings.rows = []) (bodies : List Body) (hsame : Consistent pydantic bodies)
    (as : List TelemetryAction) (hkeeps : ∀ a ∈ as, a.keepsRedis) (w : TelemetryWorld Body)
    (hw : Runs.Visits (step pydantic) (start db bodies) as w) :
    (∀ e ∈ w.log, SettledOnce pydantic db e) ∧ (w.AtRest → Converged pydantic w) ∧
    ∀ (bodies' : List Body) (as' : List TelemetryAction) (w' : TelemetryWorld Body),
      (∀ body ∈ bodies', body ∈ bodies) → (∀ a ∈ as', a.keepsRedis) →
      Runs.Visits (step pydantic) (start db bodies') as' w' →
      w.AtRest → w'.AtRest → SameDeliveries w w' → SameState w w' := by
  have hrun : ∀ (queue : List Body) (as : List TelemetryAction) (w : TelemetryWorld Body),
      (∀ body ∈ queue, body ∈ bodies) → (∀ a ∈ as, a.keepsRedis) →
      Runs.Visits (step pydantic) (start db queue) as w → Converging pydantic db bodies w := by
    intro queue as w hqueue has hw
    have keep : ∀ u a, Converging pydantic db bodies u → a.keepsRedis →
        Converging pydantic db bodies (step pydantic u a) := fun u a hu ha => hu.step ha
    refine Runs.invariant_of_guarded keep (converging_start hempty hqueue) (fun u a hu => ?_) w hw
    obtain ⟨bs, hbs, -⟩ := hu
    exact has a (hbs.subset (by simp))
  have hconverging := hrun bodies as w (fun _ h => h) hkeeps hw
  refine ⟨fun e he => (hconverging.logged e he).2, hconverging.converged hsame, ?_⟩
  intro bodies' as' w' hbodies' has' hw' hrest hrest' hdelivered
  exact hconverging.sameState (hrun bodies' as' w' hbodies' has' hw') hsame hrest hrest' hdelivered

/-- A reading, an older one and a duplicate of the first. -/
def lateBodies : List (List (String × SampleValue)) :=
  [sampleBody 1 (utcClock 1789466700000000) 70, sampleBody 1 (utcClock 1789466400000000) 75,
    sampleBody 1 (utcClock 1789466700000000) 70]

/-- The `HSET` of the delivery times out after it took effect. -/
def writeTimesOut : Nat → Circumstance := fun n =>
  if n = 5 then ⟨false, none, some (.after, .timeoutError), 0⟩ else .calm

def lateRun : List TelemetryAction :=
  [.deliver 0 writeTimesOut, .deliver 0 fun _ => .calm, .deliver 0 fun _ => .calm,
    .deliver 0 fun _ => .calm]

theorem lateBodies_consistent : Consistent samplePydantic lateBodies := by
  have hmessage : ∀ b ∈ lateBodies, ∀ m, TelemetryMessage.modelValidateJson samplePydantic b = some m →
      m.latitude = 49 ∧ m.longitude = 24 ∧ m.isLocked = true ∧
        m.fuelLevel = if m.recordedAt.instant = 1789466700000000 then 70 else 75 := by
    intro b hb m hm
    simp only [lateBodies, List.mem_cons, List.not_mem_nil, or_false] at hb
    rcases hb with rfl | rfl | rfl
    all_goals
      obtain ⟨hat, hlat, hlon, hfuel, hlocked⟩ := sampleBody_message hm
      refine ⟨hlat, hlon, hlocked, ?_⟩
      rw [hfuel, hat]
      decide
  intro b hb b' hb' m m' hm hm' _ hat
  obtain ⟨hlat, hlon, hlocked, hfuel⟩ := hmessage b hb m hm
  obtain ⟨hlat', hlon', hlocked', hfuel'⟩ := hmessage b' hb' m' hm'
  rw [hlat, hlat', hlon, hlon', hlocked, hlocked', hfuel, hfuel', hat]
  exact ⟨rfl, rfl, rfl, rfl⟩

theorem lateRun_converges :
    (Runs.run (step samplePydantic) (start oneVehicle lateBodies) lateRun).AtRest ∧
      Converged samplePydantic (Runs.run (step samplePydantic) (start oneVehicle lateBodies) lateRun) := by
  have hrest : (Runs.run (step samplePydantic) (start oneVehicle lateBodies) lateRun).AtRest := by
    unfold AtRest
    decide
  have hkeeps : ∀ a ∈ lateRun, a.keepsRedis := by
    intro a ha
    simp only [lateRun, List.mem_cons, List.not_mem_nil, or_false] at ha
    rcases ha with rfl | rfl | rfl | rfl
    · intro n
      by_cases hn : n = 5 <;> simp [writeTimesOut, hn, Circumstance.calm]
    · exact fun n => rfl
    · exact fun n => rfl
    · exact fun n => rfl
  exact ⟨hrest, (telemetry_converges samplePydantic oneVehicle (by decide) lateBodies
    lateBodies_consistent lateRun hkeeps _ (Runs.Visits.last _ _)).2.1 hrest⟩

end TelemetryWorld

end FleetManagement
