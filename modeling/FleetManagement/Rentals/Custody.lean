import Mathlib.Data.List.Chain
import FleetManagement.Rentals.History

/-!
# The chain of custody of a vehicle

A vehicle is parked at a station or on the road, and each of its rentals moves it. Replaying its rentals
in the order of their ids, from the station it was created at, gives the status and the station of its
row.
-/

namespace FleetManagement

/-- Where a vehicle is: its status and its station. -/
abbrev Place : Type := VehicleStatus × Int

def move : Place → Rental → Option Place
  | (.available, station), r =>
      if r.startStationId = station then
        match r.status, r.endStationId, r.endedAt with
        | .active, none, none => some (.rented, station)
        | .completed, some stationId, some _ => some (.available, stationId)
        | _, _, _ => none
      else none
  | _, _ => none

/-- The place of a vehicle created at the station `created` after the rentals `rs`. -/
def replay (created : Int) (rs : List Rental) : Option Place :=
  rs.foldlM move (.available, created)

def Database.rentalsOf (db : Database) (vehicleId : Int) : List Rental :=
  db.rentals.rows.filter fun r => r.vehicleId = vehicleId

/-! ## Replaying rentals -/

variable {created station : Int} {place place' : Place} {r : Rental} {rs l l' : List Rental}

theorem replay_append : replay created (l ++ l') = (replay created l).bind fun p => l'.foldlM move p := by
  unfold replay
  rw [List.foldlM_append]
  rfl

theorem move_eq_some : move place r = some place' ↔ place = (.available, r.startStationId) ∧
    ((r.status = .active ∧ r.endStationId = none ∧ r.endedAt = none ∧
        place' = (.rented, r.startStationId)) ∨
      ∃ e t, r.status = .completed ∧ r.endStationId = some e ∧ r.endedAt = some t ∧
        place' = (.available, e)) := by
  obtain ⟨status, s⟩ := place
  cases status with
  | available =>
      simp only [move]
      split
      · subst_vars
        split <;> simp_all [eq_comm]
      · rename_i hs
        simp [Ne.symm hs]
  | rented => simp [move]
  | maintenance => simp [move]

theorem replay_concat : replay created (l ++ [r]) = some place ↔
    replay created l = some (.available, r.startStationId) ∧
      move (.available, r.startStationId) r = some place := by
  rw [replay_append, Option.bind_eq_some_iff]
  constructor
  · rintro ⟨p, hp, hmove⟩
    have hmove : move p r = some place := by simpa using hmove
    obtain ⟨rfl, -⟩ := move_eq_some.mp hmove
    exact ⟨hp, hmove⟩
  · rintro ⟨hp, hmove⟩
    exact ⟨_, hp, by simpa using hmove⟩

theorem eq_nil_of_rented (h : rs.foldlM move ((.rented, station) : Place) = some place) : rs = [] := by
  cases rs with
  | nil => rfl
  | cons r rs => cases h

theorem active_is_last (h : replay created rs = some place) (hr : r ∈ rs) (ha : r.status = .active) :
    ∃ l, rs = l ++ [r] := by
  obtain ⟨l, l', rfl⟩ := List.append_of_mem hr
  rw [replay_append, Option.bind_eq_some_iff] at h
  obtain ⟨p, -, h⟩ := h
  rw [List.foldlM_cons] at h
  obtain ⟨q, hq, h⟩ := Option.bind_eq_some_iff.mp h
  obtain ⟨-, ⟨-, -, -, rfl⟩ | ⟨e, t, hc, -⟩⟩ := move_eq_some.mp hq
  · rw [eq_nil_of_rented h]; exact ⟨l, rfl⟩
  · rw [ha] at hc; cases hc

theorem completed_of_replay (h : replay created rs = some (.available, station)) :
    ∀ r ∈ rs, r.status = .completed := by
  induction rs using List.reverseRecOn generalizing station with
  | nil => exact fun r hr => absurd hr List.not_mem_nil
  | append_singleton l r ih =>
      obtain ⟨hl, hmove⟩ := replay_concat.mp h
      intro q hq
      rcases List.mem_append.mp hq with hq | hq
      · exact ih hl q hq
      · rw [List.mem_singleton.mp hq]
        obtain ⟨-, ⟨-, -, -, heq⟩ | ⟨e, t, hc, -⟩⟩ := move_eq_some.mp hmove
        · cases heq
        · exact hc

/-! ## What a replay says about the rentals -/

/-- The rentals `rs` of the vehicle `v` hand it on from one to the next, from the station it was created
at to the place that its row names. -/
structure Custody (created : Int) (rs : List Rental) (v : Vehicle) : Prop where
  order : rs.Pairwise fun r r' => r.id < r'.id
  earlier : ∀ r ∈ rs.dropLast, r.status = .completed
  latest : ∀ r ∈ rs.getLast?, r.status = .active ∨ r.status = .completed
  rented : v.status = .rented ↔ ∃ r ∈ rs.getLast?, r.status = .active
  available : v.status = .available ↔ ¬ ∃ r ∈ rs.getLast?, r.status = .active
  first : ∀ r ∈ rs.head?, r.startStationId = created
  chain : rs.IsChain fun r r' => r.endStationId = some r'.startStationId
  unused : rs = [] → v.stationId = created
  onRoad : ∀ r ∈ rs.getLast?, r.status = .active → v.stationId = r.startStationId
  returned : ∀ r ∈ rs.getLast?, r.status = .completed → r.endStationId = some v.stationId
  ended : ∀ r ∈ rs, r.status = .completed ↔ r.endedAt.isSome ∧ r.endStationId.isSome

theorem head_of_replay (h : replay created rs = some place) :
    ∀ r ∈ rs.head?, r.startStationId = created := by
  cases rs with
  | nil => exact fun r hr => by cases hr
  | cons r rs =>
      rintro _ ⟨⟩
      unfold replay at h
      rw [List.foldlM_cons] at h
      obtain ⟨q, hq, -⟩ := Option.bind_eq_some_iff.mp h
      obtain ⟨heq, -⟩ := move_eq_some.mp hq
      exact (congrArg Prod.snd heq).symm

/-- The station of a vehicle that is parked after its rentals is where the last one ended. -/
theorem last_of_replay (h : replay created rs = some (.available, station)) :
    ∀ r ∈ rs.getLast?, r.endStationId = some station := by
  rcases rs.eq_nil_or_concat' with rfl | ⟨l, r, rfl⟩
  · exact fun r hr => by cases hr
  · obtain ⟨-, hmove⟩ := replay_concat.mp h
    obtain ⟨-, ⟨-, -, -, heq⟩ | ⟨e, t, -, he, -, heq⟩⟩ := move_eq_some.mp hmove
    · cases heq
    · cases heq
      rw [List.getLast?_concat]
      rintro _ ⟨⟩
      exact he

theorem chain_of_replay (h : replay created rs = some place) :
    rs.IsChain fun r r' => r.endStationId = some r'.startStationId := by
  induction rs using List.reverseRecOn generalizing place with
  | nil => exact List.IsChain.nil
  | append_singleton l r ih =>
      obtain ⟨hl, -⟩ := replay_concat.mp h
      refine List.isChain_append.mpr ⟨ih hl, List.IsChain.singleton r, ?_⟩
      rintro q hq _ ⟨⟩
      exact last_of_replay hl q hq

theorem ended_of_replay (h : replay created rs = some place) :
    ∀ r ∈ rs, r.status = .completed ↔ r.endedAt.isSome ∧ r.endStationId.isSome := by
  induction rs using List.reverseRecOn generalizing place with
  | nil => exact fun r hr => absurd hr List.not_mem_nil
  | append_singleton l r ih =>
      obtain ⟨hl, hmove⟩ := replay_concat.mp h
      intro q hq
      rcases List.mem_append.mp hq with hq | hq
      · exact ih hl q hq
      · rw [List.mem_singleton.mp hq]
        obtain ⟨-, ⟨ha, he, ht, -⟩ | ⟨e, t, hc, he, ht, -⟩⟩ := move_eq_some.mp hmove
        · simp [ha, he]
        · simp [hc, he, ht]

/-- A vehicle whose row is the replay of its rentals is in unbroken custody. -/
theorem custody_of_replay {v : Vehicle} (horder : rs.Pairwise fun r r' => r.id < r'.id)
    (h : replay created rs = some (v.status, v.stationId)) : Custody created rs v := by
  have hhead := head_of_replay h
  have hchain := chain_of_replay h
  have hended := ended_of_replay h
  rcases rs.eq_nil_or_concat' with rfl | ⟨l, r, rfl⟩
  · obtain ⟨hs, hst⟩ := Prod.ext_iff.mp (Option.some.inj h)
    simp only at hs hst
    exact ⟨horder, by simp, by simp, by simp [← hs], by simp [← hs], hhead, hchain, fun _ => hst.symm,
      by simp, by simp, hended⟩
  · obtain ⟨hl, hmove⟩ := replay_concat.mp h
    have hearlier : ∀ q ∈ (l ++ [r]).dropLast, q.status = .completed := by
      rw [List.dropLast_concat]; exact completed_of_replay hl
    obtain ⟨-, ⟨ha, -, -, heq⟩ | ⟨e, t, hc, he, -, heq⟩⟩ := move_eq_some.mp hmove
    · obtain ⟨hs, hst⟩ := Prod.ext_iff.mp heq
      simp only at hs hst
      exact ⟨horder, hearlier, by simp [ha], by simp [hs, ha], by simp [hs, ha], hhead, hchain, by simp,
        by simp [hst], by simp [ha], hended⟩
    · obtain ⟨hs, hst⟩ := Prod.ext_iff.mp heq
      simp only at hs hst
      exact ⟨horder, hearlier, by simp [hc], by simp [hs, hc], by simp [hs, hc], hhead, hchain, by simp,
        by simp [hc], by simp [he, hst], hended⟩

/-! ## The invariant -/

/-- The row of every vehicle is the replay of its rentals. -/
structure CustodyInv (db : Database) (cars : List Vehicle) : Prop where
  ids : cars.map Keyed.key = db.vehicles.rows.map Keyed.key
  replays : ∀ v ∈ db.vehicles.rows, ∀ c ∈ cars, c.id = v.id →
    replay c.stationId (db.rentalsOf v.id) = some (v.status, v.stationId)
  referenced : ∀ r ∈ db.rentals.rows, ∃ v, db.vehicles.find? r.vehicleId = some v

section Invariant
variable {db : Database} {cars : List Vehicle}

theorem CustodyInv.replay_row (h : CustodyInv db cars) {v : Vehicle} (hv : v ∈ db.vehicles.rows) :
    ∃ c ∈ cars, c.id = v.id ∧ replay c.stationId (db.rentalsOf v.id) = some (v.status, v.stationId) := by
  have hmem : Keyed.key v ∈ cars.map Keyed.key := h.ids ▸ List.mem_map_of_mem hv
  obtain ⟨c, hc, hid⟩ := List.mem_map.mp hmem
  exact ⟨c, hc, hid, h.replays v hv c hc hid⟩

theorem CustodyInv.createVehicle (h : CustodyInv db cars) {row : Vehicle} (hs : row.status = .available)
    (hseq) : CustodyInv
      (db.withVehicles (db.vehicles.insert hseq (fun id => { row with id }) fun _ => rfl))
      (cars ++ [{ row with id := db.vehicles.seq + 1 }]) where
  ids := by rw [List.map_append, h.ids]; simp
  replays := by
    have hle : ∀ v ∈ db.vehicles.rows, v.id ≤ db.vehicles.seq := fun v hv => (db.vehicles.issued v hv).2
    intro v hv c hc hid
    rcases List.mem_append.mp hv with hv | hv <;> rcases List.mem_append.mp hc with hc | hc
    · exact h.replays v hv c hc hid
    · rw [List.mem_singleton.mp hc] at hid
      have := hle v hv
      simp only at hid
      omega
    · rw [List.mem_singleton.mp hv] at hid
      have hmem : Keyed.key c ∈ db.vehicles.rows.map Keyed.key := h.ids ▸ List.mem_map_of_mem hc
      obtain ⟨w, hw, hwid⟩ := List.mem_map.mp hmem
      have := hle w hw
      have hwid : w.id = c.id := hwid
      simp only at hid
      omega
    · rw [List.mem_singleton.mp hv, List.mem_singleton.mp hc]
      have hnone : db.rentalsOf (db.vehicles.seq + 1) = [] := by
        refine List.filter_eq_nil_iff.mpr fun r hr hveh => ?_
        obtain ⟨w, hw⟩ := h.referenced r hr
        rw [of_decide_eq_true hveh, Table.find?_fresh (by omega)] at hw
        cases hw
      show replay row.stationId (db.rentalsOf (db.vehicles.seq + 1)) = some (row.status, row.stationId)
      rw [hnone, hs]
      rfl
  referenced := by
    intro r hr
    obtain ⟨v, hv⟩ := h.referenced r hr
    exact ⟨v, Table.find?_insert_of_some hv⟩

theorem rentalsOf_started (hseq) (renterId vehicleId stationId : Int) (t : DateTime) (v : Int) :
    (db.started hseq renterId vehicleId stationId t).rentalsOf v = db.rentalsOf v ++
      if vehicleId = v then [startedRental renterId vehicleId stationId t (db.rentals.seq + 1)] else [] := by
  simp only [Database.rentalsOf, Database.started_rentals, Table.filter_insert]
  by_cases hv : vehicleId = v <;> simp [startedRental, hv]

theorem CustodyInv.startRental (h : CustodyInv db cars) {renterId vehicleId : Int} {vehicle : Vehicle}
    {t : DateTime} (hseq) (hv : db.vehicles.find? vehicleId = some vehicle)
    (hs : vehicle.status = .available) :
    CustodyInv (db.started hseq renterId vehicleId vehicle.stationId t) cars where
  ids := by rw [h.ids, Database.started_vehicles, Table.keys_update]
  replays := by
    refine Table.forall_mem_update Vehicle.key_takeOut (fun v hv' hne c hc hid => ?_)
      fun v hv' c hc hid => ?_
    · have hne' : ¬ vehicleId = v.id := fun heq => hne heq.symm
      rw [rentalsOf_started, if_neg hne', List.append_nil]
      exact h.replays v hv' c hc hid
    · obtain rfl : vehicle = v := Option.some.inj (hv.symm.trans hv')
      have hvid : vehicleId = vehicle.takeOut.id := (Table.key_of_find? hv).symm
      have hbefore := h.replays vehicle (Table.mem_of_find? hv) c hc hid
      rw [hs] at hbefore
      rw [rentalsOf_started, if_pos hvid]
      exact replay_concat.mpr ⟨hbefore, move_eq_some.mpr ⟨rfl, Or.inl ⟨rfl, rfl, rfl, rfl⟩⟩⟩
  referenced := by
    intro r hr
    rcases List.mem_append.mp hr with hr | hr
    · obtain ⟨w, hw⟩ := h.referenced r hr
      exact Table.exists_find?_update Vehicle.key_takeOut hw
    · rw [List.mem_singleton.mp hr]
      exact Table.exists_find?_update Vehicle.key_takeOut hv

theorem map_last {f : Rental → Rental} (horder : (l ++ [r]).Pairwise fun r r' => r.id < r'.id) :
    (l ++ [r]).map (fun q => if q.id = r.id then f q else q) = l ++ [f r] := by
  have hne : ∀ q ∈ l, Keyed.key q ≠ r.id := by
    intro q hq
    have hlt := (List.pairwise_append.mp horder).2.2 q hq r List.mem_cons_self
    exact Int.ne_of_lt hlt
  rw [List.map_append]
  have hl : (l.map fun q => if q.id = r.id then f q else q) = l := Table.map_update_of_ne hne
  rw [hl]
  simp

theorem rentalsOf_sorted (db : Database) (v : Int) :
    (db.rentalsOf v).Pairwise fun r r' => r.id < r'.id := db.rentals.sorted.filter _

theorem rentalsOf_ended (rentalId vehicleId stationId : Int) (t : DateTime) (v : Int) :
    (db.ended rentalId vehicleId stationId t).rentalsOf v =
      (db.rentalsOf v).map fun r => if r.id = rentalId then r.complete stationId t else r :=
  Table.filter_update (Rental.key_complete stationId t) _ fun _ => rfl

theorem CustodyInv.endRental (h : CustodyInv db cars) {rentalId stationId : Int} {rental : Rental}
    {vehicle : Vehicle} {t : DateTime} (hr : db.rentals.find? rentalId = some rental)
    (ha : rental.status = .active) (hv : db.vehicles.find? rental.vehicleId = some vehicle) :
    CustodyInv (db.ended rentalId rental.vehicleId stationId t) cars where
  ids := by rw [h.ids, Database.ended_vehicles, Table.keys_update]
  replays := by
    have hrid : rental.id = rentalId := Table.key_of_find? hr
    refine Table.forall_mem_update (Vehicle.key_bringBack stationId) (fun v hv' hne c hc hid => ?_)
      fun v hv' c hc hid => ?_
    · -- The rental is not among the rentals of the other vehicles.
      have hother : ∀ q ∈ db.rentalsOf v.id, Keyed.key q ≠ rentalId := by
        intro q hq hqid
        obtain ⟨hq, hqv⟩ := List.mem_filter.mp hq
        obtain rfl : q = rental := Table.eq_of_key hq (Table.mem_of_find? hr) (hqid.trans hrid.symm)
        exact hne (of_decide_eq_true hqv).symm
      have hsame := Table.map_update_of_ne (f := Rental.complete stationId t) hother
      rw [rentalsOf_ended]
      exact (congrArg (replay c.stationId) hsame).trans (h.replays v hv' c hc hid)
    · obtain rfl : vehicle = v := Option.some.inj (hv.symm.trans hv')
      have hvid : vehicle.id = rental.vehicleId := Table.key_of_find? hv
      have hbefore := h.replays vehicle (Table.mem_of_find? hv) c hc hid
      have hmem : rental ∈ db.rentalsOf vehicle.id :=
        List.mem_filter.mpr ⟨Table.mem_of_find? hr, decide_eq_true hvid.symm⟩
      obtain ⟨l, hl⟩ := active_is_last hbefore hmem ha
      have hsorted := rentalsOf_sorted db vehicle.id
      have hrow : (vehicle.bringBack stationId).id = vehicle.id := rfl
      rw [hl] at hbefore hsorted
      rw [rentalsOf_ended, hrow, hl, ← hrid, map_last hsorted]
      refine replay_concat.mpr ⟨(replay_concat.mp hbefore).1, move_eq_some.mpr ⟨rfl, Or.inr ?_⟩⟩
      exact ⟨stationId, t, rfl, rfl, rfl, rfl⟩
  referenced := by
    refine Table.forall_mem_update (Rental.key_complete stationId t) (fun r hr _ => ?_) fun r hr => ?_
    · obtain ⟨w, hw⟩ := h.referenced r hr
      exact Table.exists_find?_update (Vehicle.key_bringBack stationId) hw
    · obtain ⟨w, hw⟩ := h.referenced r (Table.mem_of_find? hr)
      exact Table.exists_find?_update (Vehicle.key_bringBack stationId) hw

theorem CustodyInv.rented_of_active (h : CustodyInv db cars) {rental : Rental} {vehicle : Vehicle}
    (hr : rental ∈ db.rentals.rows) (ha : rental.status = .active)
    (hv : db.vehicles.find? rental.vehicleId = some vehicle) : vehicle.status = .rented := by
  have hvid : vehicle.id = rental.vehicleId := Table.key_of_find? hv
  obtain ⟨c, -, -, hreplay⟩ := h.replay_row (Table.mem_of_find? hv)
  have hmem : rental ∈ db.rentalsOf vehicle.id := List.mem_filter.mpr ⟨hr, decide_eq_true hvid.symm⟩
  obtain ⟨l, hl⟩ := active_is_last hreplay hmem ha
  rw [hl] at hreplay
  obtain ⟨-, ⟨-, -, -, heq⟩ | ⟨e, t, hc, -⟩⟩ := move_eq_some.mp (replay_concat.mp hreplay).2
  · exact congrArg Prod.fst heq
  · rw [ha] at hc; cases hc

theorem CustodyInv.served {h h' : History} {r : FleetRequest} (hinv : CustodyInv h.db h.created)
    (hserved : Served h r h') : CustodyInv h'.db h'.created := by
  cases hserved with
  | rejected => exact hinv
  | createStation hseq => exact ⟨hinv.ids, hinv.replays, hinv.referenced⟩
  | createVehicle hseq hst hcheck => exact hinv.createVehicle rfl hseq
  | createRenter hseq => exact ⟨hinv.ids, hinv.replays, hinv.referenced⟩
  | startRental hseq hv hs => exact hinv.startRental hseq hv hs
  | endRental hr ha hst hfree hv => exact hinv.endRental hr ha hv

end Invariant

theorem custodyInv_of_visits {requests : List (FleetRequest × (Nat → Choice Draw Error))} {h : History}
    (hv : Runs.Visits serve .empty requests h) : CustodyInv h.db h.created := by
  refine Runs.invariant_of_step (J := fun h : History => CustodyInv h.db h.created)
    (fun h a hinv => hinv.served (serve_served h a)) ?_ h hv
  exact ⟨rfl, fun v hv => absurd hv List.not_mem_nil, fun r hr => absurd hr List.not_mem_nil⟩

/-- Over every sequence of requests from the empty database, the rentals of every vehicle hand it on from
the station it was created at to where it is, and a rental is COMPLETED exactly when its end is set. -/
theorem chain_of_custody (requests : List (FleetRequest × (Nat → Choice Draw Error))) (h : History)
    (hvisits : Runs.Visits serve .empty requests h) :
    (∀ v ∈ h.db.vehicles.rows, ∃ c ∈ h.created, c.id = v.id ∧
      Custody c.stationId (h.db.rentalsOf v.id) v) ∧
    ∀ r ∈ h.db.rentals.rows, r.status = .completed ↔ r.endedAt.isSome ∧ r.endStationId.isSome := by
  have hinv := custodyInv_of_visits hvisits
  constructor
  · intro v hv
    obtain ⟨c, hc, hid, hreplay⟩ := hinv.replay_row hv
    exact ⟨c, hc, hid, custody_of_replay (rentalsOf_sorted h.db v.id) hreplay⟩
  · intro r hr
    obtain ⟨v, hv⟩ := hinv.referenced r hr
    have hvid : v.id = r.vehicleId := Table.key_of_find? hv
    obtain ⟨c, -, -, hreplay⟩ := hinv.replay_row (Table.mem_of_find? hv)
    exact ended_of_replay hreplay r (List.mem_filter.mpr ⟨hr, decide_eq_true hvid.symm⟩)

/-! ## A day of the fleet -/

def calmRequest (r : FleetRequest) (t : DateTime) : FleetRequest × (Nat → Choice Draw Error) :=
  (r, fun _ => stepAt t)

/-- A vehicle goes from station 1 to station 2 and out again, and a second return is rejected. -/
def fleetDay : List (FleetRequest × (Nat → Choice Draw Error)) :=
  [calmRequest (.createStation "Station street 1" 5) 1,
   calmRequest (.createStation "Station street 2" 1) 2,
   calmRequest (.createVehicle "AA1234BB" "Skoda Fabia" 1) 3,
   calmRequest (.createRenter "Ivan Petrenko" "AB123456") 4,
   calmRequest (.rental (.startRental 1 1)) 5, calmRequest (.rental (.endRental 1 2)) 6,
   calmRequest (.rental (.endRental 1 2)) 7, calmRequest (.rental (.startRental 1 1)) 8]

theorem fleetDay_chain_of_custody :
    (∀ v ∈ (Runs.run serve .empty fleetDay).db.vehicles.rows,
      ∃ c ∈ (Runs.run serve .empty fleetDay).created, c.id = v.id ∧
        Custody c.stationId ((Runs.run serve .empty fleetDay).db.rentalsOf v.id) v) ∧
    ∀ r ∈ (Runs.run serve .empty fleetDay).db.rentals.rows,
      r.status = .completed ↔ r.endedAt.isSome ∧ r.endStationId.isSome :=
  chain_of_custody fleetDay _ (Runs.Visits.last _ _)

example : (Runs.run serve .empty fleetDay).db.rentals.rows.map (fun r => (r.status, r.endStationId)) =
    [(.completed, some 2), (.active, none)] := by decide

end FleetManagement
