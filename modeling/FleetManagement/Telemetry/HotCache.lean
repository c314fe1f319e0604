import FleetManagement.Telemetry.Delivery
import FleetManagement.Telemetry.Positions

/-!
# The hot cache and the source of truth

The database keeps the first reading of an instant, the cache the first state of an instant that is newer
than its own, and a restart empties the cache alone. What a vehicle shows at rest is its newest reading
as long as no delivery writes a state over which the database has a newer or a different reading.
-/

namespace FleetManagement

/-- The state has the data of the reading. -/
def VehicleStateRead.Reports (st : VehicleStateRead) (r : TelemetryReading) : Prop :=
  st.recordedAt = r.recordedAt ∧ st.latitude = r.latitude ∧ st.longitude = r.longitude ∧
    st.fuelLevel = r.fuelLevel ∧ st.isLocked = r.isLocked

/-- The stored reading of the vehicle with the greatest `recorded_at`. -/
def NewestStored (db : Database) (vehicleId : Int) (r : TelemetryReading) : Prop :=
  r ∈ db.telemetryReadings.rows ∧ r.vehicleId = vehicleId ∧
    ∀ q ∈ db.telemetryReadings.rows, q.vehicleId = vehicleId → q.recordedAt ≤ r.recordedAt

/-- `get_vehicle_state` returns for every vehicle with telemetry its newest stored reading. -/
def CacheAgrees (db : Database) (redis : Redis) : Prop :=
  ∀ v ∈ db.vehicles.rows, ∀ r, NewestStored db v.id r → ∀ env, Healthy env →
    ∀ policy : Option RetryPolicy,
      ∃ st, vehicleState env db redis policy v.id = .ok st ∧ st.Reports r

/-- A delivery in `env` reaches its `HSET`, which takes effect. -/
structure Writes (env : Nat → Circumstance) (m : TelemetryMessage) (db : Database) (redis : Redis) :
    Prop where
  known : (db.vehicles.find? m.vehicleId).isSome
  fits : Fits m db
  database : databaseWorks env 0
  read : (env 4).redis = none
  newer : (redis.after (env 4)).upToDate m = false
  write : ∀ e, (env 5).redis ≠ some (.before, e)

/-! ## Readings and cached states -/

section Readings
variable {db db' : Database} {m : TelemetryMessage} {r : TelemetryReading} {vehicleId : Int}

theorem newestStored_iff (hunique : db.UniqueReadings) :
    NewestStored db vehicleId r ↔ db.newestReading vehicleId = some r := by
  rw [Database.newestReading, Query.newest?_eq_some]
  · simp only [NewestStored, List.mem_filter, decide_eq_true_eq, and_imp, and_assoc]
  · intro p hp q hq hpq
    simp only [List.mem_filter, decide_eq_true_eq] at hp hq
    exact hunique p hp.1 q hq.1 (hp.2.trans hq.2.symm) hpq

theorem fromCache_mapping (id : Int) : (fromCache vehicleId m.mapping).Reports (m.reading id) := by
  refine ⟨rfl, rfl, rfl, rfl, ?_⟩
  cases h : m.isLocked <;> simp [fromCache, TelemetryMessage.mapping, TelemetryMessage.reading, h]

theorem fromReading_reports (degraded : Bool) : (fromReading r degraded).Reports r :=
  ⟨rfl, rfl, rfl, rfl, rfl⟩

theorem vehicleId_reading (h : m.reading r.id = r) : r.vehicleId = m.vehicleId := by
  rw [← h]; rfl

theorem recordedAt_reading (h : m.reading r.id = r) : r.recordedAt = m.recordedAt.instant := by
  rw [← h]; rfl

theorem recordedIn_iff :
    m.recordedIn r ↔ r.vehicleId = m.vehicleId ∧ r.recordedAt = m.recordedAt.instant := by
  simp [TelemetryMessage.recordedIn]

/-- The readings of other vehicles stay as they are. -/
theorem Stores.newestStored_of_ne (h : Stores m db db') (hne : vehicleId ≠ m.vehicleId) :
    NewestStored db' vehicleId r ↔ NewestStored db vehicleId r := by
  rcases h.rows with ⟨hrows, -⟩ | ⟨id, hrows, -⟩
  · simp only [NewestStored, hrows]
  · have hnew : (m.reading id).vehicleId ≠ vehicleId := Ne.symm hne
    simp only [NewestStored, hrows, List.mem_append, List.mem_singleton]
    constructor
    · rintro ⟨hr | rfl, hid, hmax⟩
      · exact ⟨hr, hid, fun q hq => hmax q (Or.inl hq)⟩
      · exact absurd hid hnew
    · rintro ⟨hr, hid, hmax⟩
      refine ⟨Or.inl hr, hid, fun q hq hqid => ?_⟩
      rcases hq with hq | rfl
      · exact hmax q hq hqid
      · exact absurd hqid hnew

/-- The newest reading of the vehicle of a stored message was the newest before, or it is the message,
which is news. -/
theorem Stores.newestStored_self (h : Stores m db db') (hr : NewestStored db' m.vehicleId r) :
    NewestStored db m.vehicleId r ∨
      (∃ id, r = m.reading id) ∧ ∀ q ∈ db.telemetryReadings.rows, m.recordedIn q = false := by
  obtain ⟨hmem, hid, hmax⟩ := hr
  rcases h.rows with ⟨hrows, -⟩ | ⟨id, hrows, hnone⟩
  · exact Or.inl ⟨hrows ▸ hmem, hid, fun q hq => hmax q (hrows ▸ hq)⟩
  · rw [hrows] at hmem hmax
    rcases List.mem_append.mp hmem with hmem | hmem
    · exact Or.inl ⟨hmem, hid, fun q hq => hmax q (List.mem_append_left _ hq)⟩
    · exact Or.inr ⟨⟨id, List.mem_singleton.mp hmem⟩, hnone⟩

theorem Stores.kept (h : Stores m db db') (hr : r ∈ db.telemetryReadings.rows) :
    r ∈ db'.telemetryReadings.rows := by
  rcases h.rows with ⟨hrows, -⟩ | ⟨id, hrows, -⟩
  · exact hrows ▸ hr
  · exact hrows ▸ List.mem_append_left _ hr

theorem Stores.uniqueReadings (h : Stores m db db') (hunique : db.UniqueReadings) :
    db'.UniqueReadings := by
  rcases h.rows with ⟨hrows, -⟩ | ⟨id, hrows, hnone⟩
  · unfold Database.UniqueReadings
    rw [hrows]
    exact hunique
  · have hdiffer : ∀ q ∈ db.telemetryReadings.rows, q.vehicleId = m.vehicleId →
        q.recordedAt ≠ m.recordedAt.instant := by
      intro q hq hid hat
      have hno := hnone q hq
      rw [recordedIn_iff.mpr ⟨hid, hat⟩] at hno
      cases hno
    intro p hp q hq hpq hat
    rw [hrows] at hp hq
    rcases List.mem_append.mp hp with hp | hp <;> rcases List.mem_append.mp hq with hq | hq
    · exact hunique p hp q hq hpq hat
    · rw [List.mem_singleton.mp hq] at hpq hat
      exact absurd hat (hdiffer p hp hpq)
    · rw [List.mem_singleton.mp hp] at hpq hat
      exact absurd hat.symm (hdiffer q hq hpq.symm)
    · rw [List.mem_singleton.mp hp, List.mem_singleton.mp hq]

end Readings

/-! ## One delivery -/

/-- What a delivery leaves behind, whether or not Redis keeps its data. -/
structure Aftermath (env : Nat → Circumstance) (m : TelemetryMessage) (db : Database) (redis : Redis)
    (x : Settlement) (db' : Database) (redis' : Redis) : Prop where
  database : db' = db ∨ Stores m db db'
  cache : ∀ key cached, redis' key = some cached → redis key = some cached ∨
    (key = vehicleStateKey m.vehicleId ∧ cached = m.mapping ∧ Writes env m db redis ∧ Stores m db db')
  settlement : x.forgets →
    (Stores m db db' ∧ redis'.upToDate m) ∨ db.vehicles.find? m.vehicleId = none

section Delivery
variable {env : Nat → Circumstance} {m : TelemetryMessage} {db db' : Database} {redis redis' : Redis}
  {x : Settlement}

theorem Redis.after_some {c : Circumstance} {key : String} {cached : VehicleHash}
    (h : redis.after c key = some cached) : redis key = some cached := by
  unfold Redis.after at h
  split at h
  · cases h
  · exact h

theorem Handled.aftermath (h : Handled env m db redis x db' redis') :
    Aftermath env m db redis x db' redis' := by
  cases h with
  | rejected hi h => exact ⟨Or.inl rfl, fun _ _ h => Or.inl h, fun _ => Or.inr h⟩
  | failed h => exact ⟨Or.inl rfl, fun _ _ h => Or.inl h, fun h => by cases h⟩
  | stored h hdb => exact ⟨Or.inr h, fun _ _ h => Or.inl h, fun h => by cases h⟩
  | cached h hdb hc =>
      cases hc with
      | unread => exact ⟨Or.inr h, fun _ _ h => Or.inl (Redis.after_some h), fun h => by cases h⟩
      | upToDate hnew =>
          exact ⟨Or.inr h, fun _ _ h => Or.inl (Redis.after_some h), fun _ => Or.inl ⟨h, hnew⟩⟩
      | unwritten =>
          refine ⟨Or.inr h, fun _ _ h => Or.inl ?_, fun h => by cases h⟩
          exact Redis.after_some (Redis.after_some h)
      | written hr hnew hread hwrite =>
          refine ⟨Or.inr h, fun key cached hkey => ?_, fun _ => Or.inl ⟨h, Redis.upToDate_store_self⟩⟩
          by_cases hk : key = vehicleStateKey m.vehicleId
          · subst hk
            rw [Redis.store_self] at hkey
            exact Or.inr ⟨rfl, (Option.some.inj hkey).symm, ⟨h.1, h.fits, hdb, hread, hnew, hwrite⟩, h⟩
          · rw [Redis.store_of_ne hk] at hkey
            exact Or.inl (Redis.after_some (Redis.after_some hkey))

/-- A delivery that writes, and whose `HSET` is answered, is acked. -/
theorem Handled.writes (h : Handled env m db redis x db' redis') (hw : Writes env m db redis)
    (hc : (env 5).redis = none) :
    x = .ack ∧ Stores m db db' ∧ redis' (vehicleStateKey m.vehicleId) = some m.mapping := by
  cases h with
  | rejected hi h => have hknown := hw.known; rw [h] at hknown; cases hknown
  | failed h =>
      rcases h with h | hi | ⟨-, hfit⟩
      · exact absurd hw.database h
      · rw [hw.fits.1] at hi; cases hi
      · exact absurd hw.fits hfit
  | stored h hdb => exact absurd hw.database hdb
  | cached h hdb hcache =>
      refine ⟨hcache.settlementOf_eq_ack hw.read hc, h, ?_⟩
      cases hcache with
      | unread hread => exact absurd hw.read hread
      | upToDate hnew => rw [hw.newer] at hnew; cases hnew
      | unwritten hwrite => exact absurd hc hwrite
      | written => exact Redis.store_self

theorem Aftermath.vehicles (h : Aftermath env m db redis x db' redis') : db'.vehicles = db.vehicles := by
  rcases h.database with rfl | hs
  · rfl
  · exact hs.vehicles

theorem Aftermath.uniqueReadings (h : Aftermath env m db redis x db' redis') (hunique : db.UniqueReadings) :
    db'.UniqueReadings := by
  rcases h.database with rfl | hs
  · exact hunique
  · exact hs.uniqueReadings hunique

theorem Aftermath.kept (h : Aftermath env m db redis x db' redis') {r : TelemetryReading}
    (hr : r ∈ db.telemetryReadings.rows) : r ∈ db'.telemetryReadings.rows := by
  rcases h.database with rfl | hs
  · exact hr
  · exact hs.kept hr

/-- The newest reading of a vehicle was its newest one before the delivery, or the delivery brought it. -/
theorem Aftermath.newestStored (h : Aftermath env m db redis x db' redis') {vehicleId : Int}
    {r : TelemetryReading} (hr : NewestStored db' vehicleId r) : NewestStored db vehicleId r ∨
      (vehicleId = m.vehicleId ∧ (∃ id, r = m.reading id) ∧
        ∀ q ∈ db.telemetryReadings.rows, m.recordedIn q = false) := by
  rcases h.database with rfl | hs
  · exact Or.inl hr
  · by_cases hid : vehicleId = m.vehicleId
    · subst hid
      exact (hs.newestStored_self hr).imp id fun hnew => ⟨rfl, hnew⟩
    · exact Or.inl ((hs.newestStored_of_ne hid).mp hr)

end Delivery

/-! ## Runs -/

namespace TelemetryWorld
variable {Body Json : Type} (pydantic : Pydantic Body Json)

/-- Where the message is no news to the database, its vehicle's newest reading is its own, or the
newer reading of a message that will be delivered again. -/
def Current (w : TelemetryWorld Body) (m : TelemetryMessage) : Prop :=
  ∀ r, NewestStored w.backend.db m.vehicleId r → m.recordedAt.instant ≤ r.recordedAt →
    m.reading r.id = r ∨ (m.recordedAt.instant < r.recordedAt ∧
      ∃ m', w.Unsettled pydantic m' ∧ m'.reading r.id = r)

/-- A delivery that writes its state to the cache is one of a current message. -/
def WritesCurrent (w : TelemetryWorld Body) : TelemetryAction → Prop
  | .deliver place env => ∀ delivery m, w.queue[place]? = some delivery →
      TelemetryMessage.modelValidateJson pydantic delivery.body = some m →
      Writes env m w.backend.db w.backend.redis → w.Current pydantic m
  | .restartRedis => True

/-- The cached state of a vehicle is that of its newest reading, or an older one while the message of
that reading waits for its redelivery. -/
structure Coherent (w : TelemetryWorld Body) : Prop where
  closed : w.backend.transaction = none
  unique : w.backend.db.UniqueReadings
  backed : ∀ v ∈ w.backend.db.vehicles.rows, ∀ cached,
    w.backend.redis (vehicleStateKey v.id) = some cached →
    ∃ r ∈ w.backend.db.telemetryReadings.rows, r.vehicleId = v.id ∧ r.recordedAt = cached.recordedAt.instant
  fresh : ∀ v ∈ w.backend.db.vehicles.rows, ∀ r, NewestStored w.backend.db v.id r → ∀ cached,
    w.backend.redis (vehicleStateKey v.id) = some cached → (fromCache v.id cached).Reports r ∨
      (cached.recordedAt.instant < r.recordedAt ∧ ∃ m, w.Unsettled pydantic m ∧ m.reading r.id = r)

variable {pydantic} {w : TelemetryWorld Body}

theorem Coherent.start {db : Database} (hunique : db.UniqueReadings) (bodies : List Body) :
    Coherent pydantic (start db bodies) where
  closed := rfl
  unique := hunique
  backed := fun v hv cached hcached => by cases hcached
  fresh := fun v hv r hr cached hcached => by cases hcached

theorem Coherent.restart (hw : Coherent pydantic w) : Coherent pydantic (w.step pydantic .restartRedis) where
  closed := hw.closed
  unique := hw.unique
  backed := fun v hv cached hcached => by cases hcached
  fresh := fun v hv r hr cached hcached => by cases hcached

theorem vehicleId_pos_of_mem {db : Database} {v : Vehicle} (hv : v ∈ db.vehicles.rows) : 0 < v.id :=
  (db.vehicles.issued v hv).1

section Settle
variable {place : Nat} {delivery : Queued Body} {env : Nat → Circumstance} {m : TelemetryMessage}
  {x : Settlement} {db' : Database} {redis' : Redis} {v : Vehicle} {r : TelemetryReading}
  {cached : VehicleHash}

/-- A message of the vehicle that the broker forgets is up to date in the cache. -/
theorem upToDate_of_forgets (ha : Aftermath env m w.backend.db w.backend.redis x db' redis')
    (hv : v ∈ w.backend.db.vehicles.rows) (hid : v.id = m.vehicleId)
    (hcached : redis' (vehicleStateKey v.id) = some cached) (hx : x.forgets) :
    m.recordedAt.instant ≤ cached.recordedAt.instant := by
  rcases ha.settlement hx with ⟨-, hnew⟩ | hnone
  · obtain ⟨cached', hcached', hle⟩ := Redis.upToDate_iff.mp hnew
    rw [← hid, hcached] at hcached'
    cases hcached'
    exact hle
  · exact absurd hid (Table.find?_eq_none.mp hnone v hv)

/-- While the cache has an older state than the reading of an unsettled message, the message stays
unsettled. -/
theorem Unsettled.of_older (ha : Aftermath env m w.backend.db w.backend.redis x db' redis')
    (hq : w.queue[place]? = some delivery)
    (hm : TelemetryMessage.modelValidateJson pydantic delivery.body = some m)
    (hv : v ∈ w.backend.db.vehicles.rows) (hr : r.vehicleId = v.id)
    (hcached : redis' (vehicleStateKey v.id) = some cached)
    (holder : cached.recordedAt.instant < r.recordedAt)
    {m' : TelemetryMessage} (h : w.Unsettled pydantic m') (hreading : m'.reading r.id = r) :
    (w.settle place delivery.body x db' redis').Unsettled pydantic m' := by
  rcases h.settle hq with h | ⟨hm', hx⟩
  · exact h
  · cases hm.symm.trans hm'
    have hid : v.id = m.vehicleId := hr.symm.trans (vehicleId_reading hreading)
    have hle := upToDate_of_forgets ha hv hid hcached hx
    rw [← recordedAt_reading hreading] at hle
    exact absurd holder (not_lt.mpr hle)

/-- A state that was cached before and a reading that the delivery brought: the reading is newer, and
its message is requeued. -/
theorem Coherent.news (hw : Coherent pydantic w)
    (ha : Aftermath env m w.backend.db w.backend.redis x db' redis')
    (hm : TelemetryMessage.modelValidateJson pydantic delivery.body = some m)
    (hv : v ∈ w.backend.db.vehicles.rows) (hid : v.id = m.vehicleId) {id : Int}
    (hr : NewestStored db' v.id (m.reading id))
    (hnone : ∀ q ∈ w.backend.db.telemetryReadings.rows, m.recordedIn q = false)
    (hold : w.backend.redis (vehicleStateKey v.id) = some cached)
    (hcached : redis' (vehicleStateKey v.id) = some cached) :
    cached.recordedAt.instant < m.recordedAt.instant ∧
      (w.settle place delivery.body x db' redis').Unsettled pydantic m := by
  obtain ⟨q, hq, hqid, hat⟩ := hw.backed v hv cached hold
  have hle : q.recordedAt ≤ m.recordedAt.instant := hr.2.2 q (ha.kept hq) hqid
  have hne : q.recordedAt ≠ m.recordedAt.instant := by
    intro heq
    have hno := hnone q hq
    rw [recordedIn_iff.mpr ⟨hqid.trans hid, heq⟩] at hno
    cases hno
  have hlt : cached.recordedAt.instant < m.recordedAt.instant := hat ▸ lt_of_le_of_ne hle hne
  refine ⟨hlt, unsettled_settle hm ?_⟩
  cases hx : x.forgets with
  | false => rfl
  | true => exact absurd hlt (not_lt.mpr (upToDate_of_forgets ha hv hid hcached hx))

/-- A state that the delivery wrote and a reading that was stored before. -/
theorem Current.written (hcurrent : w.Current pydantic m)
    (ha : Aftermath env m w.backend.db w.backend.redis x db' redis') (hs : Stores m w.backend.db db')
    (hq : w.queue[place]? = some delivery)
    (hm : TelemetryMessage.modelValidateJson pydantic delivery.body = some m)
    (hv : v ∈ w.backend.db.vehicles.rows) (hid : v.id = m.vehicleId)
    (hr : NewestStored db' v.id r) (hold : NewestStored w.backend.db v.id r)
    (hcached : redis' (vehicleStateKey v.id) = some m.mapping) :
    (fromCache v.id m.mapping).Reports r ∨ (m.recordedAt.instant < r.recordedAt ∧
      ∃ m', (w.settle place delivery.body x db' redis').Unsettled pydantic m' ∧ m'.reading r.id = r) := by
  rcases le_or_gt m.recordedAt.instant r.recordedAt with hle | hlt
  · rcases hcurrent r (hid ▸ hold) hle with hsame | ⟨hlt, m', hun, hreading⟩
    · exact Or.inl (hsame ▸ fromCache_mapping r.id)
    · exact Or.inr ⟨hlt, m', hun.of_older ha hq hm hv hr.2.1 hcached hlt hreading, hreading⟩
  · obtain ⟨q, hq, hmq⟩ := hs.recorded
    obtain ⟨hqid, hat⟩ := recordedIn_iff.mp hmq
    have hle := hr.2.2 q hq (hqid.trans hid.symm)
    rw [hat] at hle
    exact absurd hlt (not_lt.mpr hle)

theorem Coherent.settle (hw : Coherent pydantic w) (hq : w.queue[place]? = some delivery)
    (hm : TelemetryMessage.modelValidateJson pydantic delivery.body = some m)
    (ha : Aftermath env m w.backend.db w.backend.redis x db' redis')
    (hok : Writes env m w.backend.db w.backend.redis → w.Current pydantic m) :
    Coherent pydantic (w.settle place delivery.body x db' redis') := by
  have hkey : ∀ v ∈ w.backend.db.vehicles.rows, vehicleStateKey v.id = vehicleStateKey m.vehicleId →
      v.id = m.vehicleId := fun v hv h =>
    (vehicleStateKey_inj (vehicleId_pos_of_mem hv) m.vehicleId_pos).mp h
  constructor
  · rfl
  · exact ha.uniqueReadings hw.unique
  · intro v hv cached hcached
    have hv : v ∈ w.backend.db.vehicles.rows := ha.vehicles ▸ hv
    rcases ha.cache _ _ hcached with hold | ⟨hkv, rfl, -, hs⟩
    · obtain ⟨r, hr, hid, hat⟩ := hw.backed v hv cached hold
      exact ⟨r, ha.kept hr, hid, hat⟩
    · obtain ⟨r, hr, hmr⟩ := hs.recorded
      obtain ⟨hid, hat⟩ := recordedIn_iff.mp hmr
      exact ⟨r, hr, hid.trans (hkey v hv hkv).symm, hat⟩
  · intro v hv r hr cached hcached
    have hv : v ∈ w.backend.db.vehicles.rows := ha.vehicles ▸ hv
    -- Both the cached state and the newest reading are old ones, or this delivery's.
    rcases ha.cache _ _ hcached with hold | ⟨hkv, rfl, hwrites, hs⟩
    · rcases ha.newestStored hr with hrold | ⟨hid, ⟨id, rfl⟩, hnone⟩
      · rcases hw.fresh v hv r hrold cached hold with hreports | ⟨hlt, m', hun, hreading⟩
        · exact Or.inl hreports
        · exact Or.inr ⟨hlt, m', hun.of_older ha hq hm hv hr.2.1 hcached hlt hreading, hreading⟩
      · obtain ⟨hlt, hun⟩ := hw.news ha hm hv hid hr hnone hold hcached
        exact Or.inr ⟨hlt, m, hun, rfl⟩
    · rcases ha.newestStored hr with hrold | ⟨hid, ⟨id, rfl⟩, -⟩
      · exact (hok hwrites).written ha hs hq hm hv (hkey v hv hkv) hr hrold hcached
      · exact Or.inl (fromCache_mapping id)

end Settle

theorem Coherent.step (hw : Coherent pydantic w) {a : TelemetryAction} (hok : w.WritesCurrent pydantic a) :
    Coherent pydantic (w.step pydantic a) := by
  cases a with
  | restartRedis => exact hw.restart
  | deliver place env =>
      rcases step_deliver hw.closed with hstep | ⟨delivery, x, db', redis', hq, hout, hstep⟩
      · rw [hstep]; exact hw
      · rw [hstep]
        unfold Outcome at hout
        cases hm : TelemetryMessage.modelValidateJson pydantic delivery.body with
        | none =>
            rw [hm] at hout
            obtain ⟨-, rfl, rfl⟩ := hout
            have hsame : ∀ m, w.Unsettled pydantic m →
                (w.settle place delivery.body x w.backend.db w.backend.redis).Unsettled pydantic m := by
              intro m hun
              rcases hun.settle hq with hun | ⟨hm', -⟩
              · exact hun
              · cases hm.symm.trans hm'
            exact ⟨rfl, hw.unique, hw.backed, fun v hv r hr cached hcached =>
              (hw.fresh v hv r hr cached hcached).imp id fun ⟨hlt, m, hun, hreading⟩ =>
                ⟨hlt, m, hsame m hun, hreading⟩⟩
        | some m =>
            rw [hm] at hout
            exact hw.settle hq hm hout.aftermath (hok delivery m hq hm)

theorem vehicleState_eq {env : Nat → Circumstance} {db : Database} {redis : Redis}
    {policy : Option RetryPolicy} {v : Vehicle} (henv : Healthy env) (hv : v ∈ db.vehicles.rows) :
    vehicleState env db redis policy v.id = answered (noTelemetry v.id)
      (known (redis (vehicleStateKey v.id)) (db.newestReading v.id) false v.id) :=
  ensures_getVehicleState henv (isInteger_of_vehicle hv) policy

theorem Coherent.cacheAgrees (hw : Coherent pydantic w) (hrest : w.AtRest) :
    CacheAgrees w.backend.db w.backend.redis := by
  intro v hv r hr env henv policy
  rw [vehicleState_eq henv hv, (newestStored_iff hw.unique).mp hr]
  cases hcached : w.backend.redis (vehicleStateKey v.id) with
  | none => exact ⟨_, rfl, fromReading_reports false⟩
  | some cached =>
      rcases hw.fresh v hv r hr cached hcached with hreports | ⟨-, m, ⟨q, hq, hre, -⟩, -⟩
      · exact ⟨_, rfl, hreports⟩
      · rw [hrest q hq] at hre
        cases hre

theorem reading_of_reports {m : TelemetryMessage} {r : TelemetryReading} (hid : r.vehicleId = m.vehicleId)
    (h : (fromCache m.vehicleId m.mapping).Reports r) : m.reading r.id = r := by
  obtain ⟨hat, hlat, hlon, hfuel, hlocked⟩ := h
  have hreports : (fromCache m.vehicleId m.mapping).Reports (m.reading r.id) := fromCache_mapping r.id
  have hlocked' := hreports.2.2.2.2
  cases r
  simp only [TelemetryMessage.reading] at hlocked' ⊢
  simp only at hid hat hlat hlon hfuel hlocked
  rw [hid, ← hat, ← hlat, ← hlon, ← hfuel, ← hlocked, hlocked']
  rfl

/-- The endpoint disagrees with the newest reading of the vehicle. -/
theorem not_cacheAgrees {db : Database} {redis : Redis} {v : Vehicle} {r : TelemetryReading}
    {st : VehicleStateRead} (hv : v ∈ db.vehicles.rows) (hr : NewestStored db v.id r)
    (hst : vehicleState (fun _ => .calm) db redis none v.id = .ok st) (hne : ¬ st.Reports r) :
    ¬ CacheAgrees db redis := by
  intro hagrees
  obtain ⟨st', hst', hreports⟩ := hagrees v hv r hr (fun _ => .calm) (fun _ => ⟨rfl, rfl, rfl⟩) none
  rw [hst] at hst'
  cases hst'
  exact hne hreports

/-- At rest, a delivery that writes over a newer or a different reading leaves the cache in disagreement,
with no message unsettled. -/
theorem disagrees_of_stale_write (ht : w.backend.transaction = none) (hrest : w.AtRest) {place : Nat}
    {env : Nat → Circumstance} (hc : (env 5).redis = none)
    (hstale : ¬ w.WritesCurrent pydantic (.deliver place env)) :
    (w.step pydantic (.deliver place env)).AtRest ∧
      ¬ CacheAgrees (w.step pydantic (.deliver place env)).backend.db
        (w.step pydantic (.deliver place env)).backend.redis := by
  simp only [WritesCurrent, Current, not_forall, not_or] at hstale
  obtain ⟨delivery, m, hq, hm, hwrites, r, hr, hle, hne, -⟩ := hstale
  obtain ⟨x, db', redis', hout, hstep⟩ := step_deliver_some env ht hq
  unfold Outcome at hout
  rw [hm] at hout
  obtain ⟨rfl, hs, hcached⟩ := Handled.writes hout hwrites hc
  rw [hstep]
  constructor
  · intro q hq
    rcases List.mem_append.mp hq with hq | hq
    · exact hrest q (List.mem_of_mem_eraseIdx hq)
    · cases (mem_requeued.mp hq).1
  · obtain ⟨v, hfind⟩ := Option.isSome_iff_exists.mp hwrites.known
    have hv : v ∈ db'.vehicles.rows := hs.vehicles ▸ Table.mem_of_find? hfind
    have hid : v.id = m.vehicleId := Table.key_of_find? hfind
    have hnewest : NewestStored db' v.id r := by
      refine ⟨hs.kept hr.1, hr.2.1.trans hid.symm, fun q hq hqid => ?_⟩
      rcases hs.rows with ⟨hrows, -⟩ | ⟨id, hrows, -⟩
      · exact hr.2.2 q (hrows ▸ hq) (hqid.trans hid)
      · rw [hrows] at hq
        rcases List.mem_append.mp hq with hq | hq
        · exact hr.2.2 q hq (hqid.trans hid)
        · rw [List.mem_singleton.mp hq]
          exact hle
    have hst : vehicleState (fun _ => .calm) db' redis' none v.id =
        .ok (fromCache m.vehicleId m.mapping) := by
      rw [vehicleState_eq (fun _ => ⟨rfl, rfl, rfl⟩) hv, hid, hcached]
      rfl
    exact not_cacheAgrees hv hnewest hst fun hreports => hne (reading_of_reports hr.2.1 hreports)

/-- The cache never contradicts the database at rest, as long as no delivery writes over a newer or a
different reading; one that does so at rest and is acked leaves the two in disagreement. -/
theorem cache_agrees_while_current (pydantic : Pydantic Body Json) (db : Database)
    (hunique : db.UniqueReadings) (bodies : List Body) (as : List TelemetryAction)
    (hok : ∀ w a, Runs.Takes (step pydantic) (start db bodies) as w a →
      w.WritesCurrent pydantic a) (w : TelemetryWorld Body)
    (hw : Runs.Visits (step pydantic) (start db bodies) as w) (hrest : w.AtRest) :
    CacheAgrees w.backend.db w.backend.redis ∧
    ∀ place env, (env 5).redis = none → ¬ w.WritesCurrent pydantic (.deliver place env) →
      (w.step pydantic (.deliver place env)).AtRest ∧
        ¬ CacheAgrees (w.step pydantic (.deliver place env)).backend.db
          (w.step pydantic (.deliver place env)).backend.redis := by
  have keep : ∀ u a, Coherent pydantic u → u.WritesCurrent pydantic a →
      Coherent pydantic (step pydantic u a) := fun u a hu ha => hu.step ha
  have hcoherent : Coherent pydantic w :=
    Runs.invariant_of_guarded keep (Coherent.start hunique bodies) hok w hw
  exact ⟨hcoherent.cacheAgrees hrest, fun place env hc => disagrees_of_stale_write hcoherent.closed hrest hc⟩

/-! ## Runs of two messages -/

/-- A message is current where the cache is up to date or every stored reading of its vehicle is older. -/
theorem writesCurrent_of_news {place : Nat} {env : Nat → Circumstance}
    (h : w.queue[place]?.all fun delivery =>
      (TelemetryMessage.modelValidateJson pydantic delivery.body).all fun m =>
        (w.backend.redis.after (env 4)).upToDate m ∨
          ∀ r ∈ w.backend.db.telemetryReadings.rows, r.vehicleId = m.vehicleId →
            r.recordedAt < m.recordedAt.instant) : w.WritesCurrent pydantic (.deliver place env) := by
  intro delivery m hq hm hwrites r hr hle
  simp only [hq, hm, Option.all_some, decide_eq_true_eq] at h
  rcases h with hnew | hnew
  · rw [hwrites.newer] at hnew
    cases hnew
  · exact absurd hle (not_le.mpr (hnew r hr.1 hr.2.1))

instance (db : Database) (vehicleId : Int) (r : TelemetryReading) :
    Decidable (NewestStored db vehicleId r) :=
  inferInstanceAs (Decidable (_ ∧ _ ∧ ∀ q ∈ db.telemetryReadings.rows, q.vehicleId = vehicleId → _))

/-- The `HSET` of the delivery fails. -/
def writeFails : Nat → Circumstance := fun n =>
  if n = 5 then ⟨false, none, some (.before, .connectionError), 0⟩ else .calm

def olderBody : List (String × SampleValue) := sampleBody 1 (utcClock 1789466400000000) 75

def newerBody : List (String × SampleValue) := sampleBody 1 (utcClock 1789466700000000) 70

/-- A reading of the instant of `newerBody` with another fuel level. -/
def rivalBody : List (String × SampleValue) := sampleBody 1 (utcClock 1789466700000000) 75

/-- The older message is delivered again after the newer one, and Redis is restarted after that. -/
def redeliveryRun : List TelemetryAction :=
  [.deliver 0 writeFails, .deliver 0 fun _ => .calm, .deliver 0 fun _ => .calm, .restartRedis]

theorem redeliveryRun_agrees :
    (Runs.run (step samplePydantic) (start oneVehicle [olderBody, newerBody]) redeliveryRun).AtRest ∧
      CacheAgrees
        (Runs.run (step samplePydantic) (start oneVehicle [olderBody, newerBody]) redeliveryRun).backend.db
        (Runs.run (step samplePydantic) (start oneVehicle [olderBody, newerBody]) redeliveryRun).backend.redis := by
  have hrest : (Runs.run (step samplePydantic) (start oneVehicle [olderBody, newerBody])
      redeliveryRun).AtRest := by
    unfold AtRest
    decide
  have hunique : oneVehicle.UniqueReadings := fun p hp => by cases hp
  refine ⟨hrest, (cache_agrees_while_current samplePydantic oneVehicle hunique [olderBody, newerBody]
    redeliveryRun ?_ _ (Runs.Visits.last _ _) hrest).1⟩
  intro w a ha
  rcases Runs.takes_cons.mp ha with ⟨rfl, rfl⟩ | ha
  · exact writesCurrent_of_news (by decide)
  · rcases Runs.takes_cons.mp ha with ⟨rfl, rfl⟩ | ha
    · exact writesCurrent_of_news (by decide)
    · rcases Runs.takes_cons.mp ha with ⟨rfl, rfl⟩ | ha
      · exact writesCurrent_of_news (by decide)
      · rcases Runs.takes_cons.mp ha with ⟨rfl, rfl⟩ | ha
        · trivial
        · exact absurd ha Runs.takes_nil

/-- Redis is restarted between the newer message and the older one. -/
def restartRun : List TelemetryAction :=
  [.deliver 0 fun _ => .calm, .restartRedis, .deliver 0 fun _ => .calm]

/-- The first of two messages of one instant is delivered again after the second one. -/
def tieRun : List TelemetryAction :=
  [.deliver 0 writeFails, .deliver 0 fun _ => .calm, .deliver 0 fun _ => .calm]

/-- The run delivers valid messages of known vehicles and ends at rest, where the cache disagrees. -/
def EndsInDisagreement (bodies : List (List (String × SampleValue))) (as : List TelemetryAction) : Prop :=
  (∀ body ∈ bodies, (TelemetryMessage.modelValidateJson samplePydantic body).any
    fun m => (oneVehicle.vehicles.find? m.vehicleId).isSome) ∧
  (Runs.run (step samplePydantic) (start oneVehicle bodies) as).AtRest ∧
  ¬ CacheAgrees (Runs.run (step samplePydantic) (start oneVehicle bodies) as).backend.db
    (Runs.run (step samplePydantic) (start oneVehicle bodies) as).backend.redis

/-- The newest reading has the fuel level of `newerBody`, and the endpoint shows the other one. -/
theorem not_cacheAgrees_of_shown {db : Database} {redis : Redis} (v : Vehicle) (r : TelemetryReading)
    (hv : v ∈ db.vehicles.rows) (hr : NewestStored db v.id r) (hfuel : r.fuelLevel = 70)
    (hst : (vehicleState (fun _ => .calm) db redis none v.id).toOption.any (·.fuelLevel = 75)) :
    ¬ CacheAgrees db redis := by
  cases hstate : vehicleState (fun _ => .calm) db redis none v.id with
  | error e => rw [hstate] at hst; cases hst
  | ok st =>
      refine not_cacheAgrees hv hr hstate fun hreports => ?_
      rw [hstate] at hst
      have hshown : st.fuelLevel = 75 := by simpa [Except.toOption] using hst
      have hstored : st.fuelLevel = 70 := hreports.2.2.2.1.trans hfuel
      rw [hshown] at hstored
      exact absurd hstored (by decide)

theorem restart_and_tie_disagree :
    EndsInDisagreement [newerBody, olderBody] restartRun ∧
      EndsInDisagreement [newerBody, rivalBody] tieRun := by
  refine ⟨⟨by decide, by unfold AtRest; decide, ?_⟩, ⟨by decide, by unfold AtRest; decide, ?_⟩⟩
  · exact not_cacheAgrees_of_shown ⟨1, "BC1234AA", "Skoda Octavia", .available, 1⟩
      ⟨1, 1, 1789466700000000, 49, 24, 70, true⟩ (by decide) (by decide) rfl (by decide)
  · exact not_cacheAgrees_of_shown ⟨1, "BC1234AA", "Skoda Octavia", .available, 1⟩
      ⟨1, 1, 1789466700000000, 49, 24, 70, true⟩ (by decide) (by decide) rfl (by decide)

end TelemetryWorld

end FleetManagement
