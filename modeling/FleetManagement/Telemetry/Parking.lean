import FleetManagement.Telemetry.Simulator
import Mathlib.Analysis.Real.Pi.Bounds
import Mathlib.Analysis.SpecialFunctions.Complex.Arg
import Mathlib.Tactic.Linarith
import Mathlib.Tactic.NormNum
import Mathlib.Tactic.Positivity

/-!
# Parked vehicles in the simulator

A vehicle that is not rented stands at the station that the simulator has for it. A listing that moves such a
vehicle to another station, as after a rental between two polls, does not move it in the simulator.
-/

namespace FleetManagement

section Parking
variable {K : Type} [Field K] [LinearOrder K] [IsStrictOrderedRing K]

/-- What `math` guarantees. -/
structure Trig.Sound (trig : Trig K) : Prop where
  three_le_pi : 3 ≤ trig.pi
  half_le_cos : ∀ x, 0 ≤ x → x ≤ trig.pi / 3 → 1 / 2 ≤ trig.cos x

/-- The vehicle is within the spread of the hub of the station. -/
def SimVehicle.AtStation (trig : Trig K) (v : SimVehicle K) (stationId : Int) : Prop :=
  ∃ north east : K, |north| ≤ stationSpreadM ∧ |east| ≤ stationSpreadM ∧
    (v.latitude, v.longitude) =
      offset trig (point (stationHub stationId).2).1 (point (stationHub stationId).2).2 north east

/-- Every listed vehicle that is not rented has no target and stands at the station reported for it. -/
def SimWorld.Parked (trig : Trig K) (w : SimWorld K) : Prop := ∀ data ∈ w.listed, data.status ≠ .rented →
  ∃ v, w.fleet data.id = some v ∧ v.target = none ∧ v.AtStation trig data.stationId

/-- What a listing must not do: give a parked vehicle a station with another hub. -/
def SimWorld.Meets (w : SimWorld K) : SimEvent K → Prop
  | .sync listing => ∀ data ∈ listing.entries, data.status ≠ .rented → ∀ v, w.fleet data.id = some v →
      v.status = .rented ∨ stationHub data.stationId = stationHub v.stationId
  | .advance _ _ => True

/-- A vehicle that is not rented has no target and stands at its station. -/
def SimVehicle.Settled (trig : Trig K) (v : SimVehicle K) : Prop :=
  v.status ≠ .rented → v.target = none ∧ v.AtStation trig v.stationId

/-- The vehicle is as the entry of the listing says. -/
structure SimVehicle.Shows (v : SimVehicle K) (data : VehicleEntry) : Prop where
  status : v.status = data.status
  stationId : v.stationId = data.stationId

structure SimWorld.Inv (trig : Trig K) (w : SimWorld K) : Prop where
  settled : ∀ id v, w.fleet id = some v → v.Settled trig
  shows : ∀ data ∈ w.listed, ∃ v, w.fleet data.id = some v ∧ v.Shows data

variable {trig : Trig K} {w : SimWorld K}

omit [IsStrictOrderedRing K] in
theorem SimWorld.Inv.parked (h : w.Inv trig) : w.Parked trig := by
  intro data hdata hstatus
  obtain ⟨v, hv, hshows⟩ := h.shows data hdata
  obtain ⟨htarget, hat⟩ := h.settled _ v hv (hshows.status ▸ hstatus)
  exact ⟨v, hv, htarget, hshows.stationId ▸ hat⟩

/-! ## Parking -/

theorem abs_uniform_le (rng : Rng K) : |(rng.uniform (-1) 1).1 * stationSpreadM| ≤ stationSpreadM := by
  obtain ⟨hlow, hhigh⟩ := (rng.unit rng.drawn).property
  have hspread : (0 : K) ≤ stationSpreadM := by simp [stationSpreadM]
  rw [abs_mul, abs_of_nonneg hspread]
  refine mul_le_of_le_one_left hspread (abs_le.mpr ⟨?_, ?_⟩)
  · simp only [Rng.uniform]
    linarith
  · simp only [Rng.uniform]
    linarith

theorem parkAtStation_spec (v : SimVehicle K) (rng : Rng K) :
    (parkAtStation trig v rng).1.AtStation trig v.stationId ∧ (parkAtStation trig v rng).1.target = none ∧
      (parkAtStation trig v rng).1.status = v.status ∧ (parkAtStation trig v rng).1.stationId = v.stationId :=
  ⟨⟨_, _, abs_uniform_le rng, abs_uniform_le _, rfl⟩, rfl, rfl, rfl⟩

theorem settled_parkAtStation (v : SimVehicle K) (rng : Rng K) :
    (parkAtStation trig v rng).1.Settled trig := fun _ =>
  ⟨(parkAtStation_spec v rng).2.1, (parkAtStation_spec v rng).1⟩

/-! ## Listings -/

omit [IsStrictOrderedRing K] in
theorem shows_syncVehicle (data : VehicleEntry) (known : Option (SimVehicle K)) (rng : Rng K) :
    (syncVehicle trig data known rng).1.Shows data := by
  unfold syncVehicle
  cases known with
  | none => exact ⟨rfl, rfl⟩
  | some v =>
      dsimp only
      split
      · exact ⟨rfl, rfl⟩
      · exact ⟨rfl, rfl⟩

theorem settled_syncVehicle {data : VehicleEntry} {known : Option (SimVehicle K)} {rng : Rng K}
    (hknown : ∀ v ∈ known, v.Settled trig)
    (hmeets : data.status ≠ .rented → ∀ v ∈ known, v.status = .rented ∨
      stationHub data.stationId = stationHub v.stationId) :
    (syncVehicle trig data known rng).1.Settled trig := by
  unfold syncVehicle
  cases known with
  | none => exact settled_parkAtStation _ _
  | some v =>
      dsimp only
      split
      · exact settled_parkAtStation _ _
      · rename_i hstays
        intro hstatus
        have hstatus : data.status ≠ .rented := hstatus
        have hnot : v.status ≠ .rented := fun hrented => hstays (by simp [SimVehicle.driving, hrented, hstatus])
        obtain ⟨htarget, hat⟩ := hknown v rfl hnot
        have hhub := (hmeets hstatus v rfl).resolve_left hnot
        refine ⟨htarget, ?_⟩
        unfold SimVehicle.AtStation at hat ⊢
        dsimp only
        rw [hhub]
        exact hat

omit [IsStrictOrderedRing K] in
/-- Where a vehicle stays, its position is the one that it had. -/
theorem position_syncVehicle {data : VehicleEntry} {v : SimVehicle K} {rng : Rng K} (hnot : v.status ≠ .rented) :
    (syncVehicle trig data (some v) rng).1.latitude = v.latitude ∧
      (syncVehicle trig data (some v) rng).1.longitude = v.longitude := by
  have hdriving : v.driving = false := decide_eq_false hnot
  simp [syncVehicle, hdriving]

omit [IsStrictOrderedRing K] in
/-- A listing without the id leaves the vehicle alone. -/
theorem syncFleet_other {vehicles : List VehicleEntry} {fleet : SimFleet K} {rng : Rng K} {id : Int}
    (h : id ∉ vehicles.map (·.id)) : (syncFleet trig fleet vehicles rng).1 id = fleet id := by
  induction vehicles generalizing fleet rng with
  | nil => rfl
  | cons data vehicles ih =>
      rw [List.map_cons, List.mem_cons, not_or] at h
      have hstep : (syncFleet trig fleet (data :: vehicles) rng).1 id =
          Function.update fleet data.id (some (syncVehicle trig data (fleet data.id) rng).1) id := ih h.2
      exact hstep.trans (Function.update_of_ne h.1 _ _)

omit [IsStrictOrderedRing K] in
/-- An entry of a listing meets the vehicle as it was before the listing. -/
theorem syncFleet_entry {vehicles : List VehicleEntry} (hnodup : (vehicles.map (·.id)).Nodup)
    {fleet : SimFleet K} {rng : Rng K} {data : VehicleEntry} (hdata : data ∈ vehicles) :
    ∃ rng', (syncFleet trig fleet vehicles rng).1 data.id =
      some (syncVehicle trig data (fleet data.id) rng').1 := by
  induction vehicles generalizing fleet rng with
  | nil => cases hdata
  | cons other vehicles ih =>
      obtain ⟨hfirst, hnodup⟩ := List.nodup_cons.mp hnodup
      rcases List.mem_cons.mp hdata with rfl | hdata
      · refine ⟨rng, ?_⟩
        have hlater : (syncFleet trig fleet (data :: vehicles) rng).1 data.id =
            Function.update fleet data.id (some (syncVehicle trig data (fleet data.id) rng).1) data.id :=
          syncFleet_other hfirst
        exact hlater.trans (Function.update_self ..)
      · have hne : data.id ≠ other.id := fun h => hfirst (List.mem_map.mpr ⟨data, hdata, h⟩)
        have hstep : ∃ rng', (syncFleet trig fleet (other :: vehicles) rng).1 data.id =
            some (syncVehicle trig data (Function.update fleet other.id
              (some (syncVehicle trig other (fleet other.id) rng).1) data.id) rng').1 := ih hnodup hdata
        obtain ⟨rng', hsync⟩ := hstep
        rw [Function.update_of_ne hne] at hsync
        exact ⟨rng', hsync⟩

omit [IsStrictOrderedRing K] in
theorem fleet_sync (trig : Trig K) (w : SimWorld K) (listing : ApiListing) {data : VehicleEntry}
    (hdata : data ∈ listing.entries) : ∃ rng', (w.step trig (.sync listing)).fleet data.id =
      some (syncVehicle trig data (w.fleet data.id) rng').1 :=
  syncFleet_entry listing.nodup hdata

/-! ## Advancing -/

/-- What `advance` keeps: the status and the station, and all that a parked vehicle stands on. -/
structure SimVehicle.Keeps (v v' : SimVehicle K) : Prop where
  status : v'.status = v.status
  stationId : v'.stationId = v.stationId
  parked : v.status ≠ .rented →
    v'.target = v.target ∧ (v'.latitude, v'.longitude) = (v.latitude, v.longitude)

omit [IsStrictOrderedRing K] in
theorem keeps_advance {v v' : SimVehicle K} {dt : K} {rng rng' : Rng K}
    (h : advance trig v dt rng = some (v', rng')) : v.Keeps v' := by
  unfold advance at h
  split at h
  · simp only [Option.some.injEq, Prod.mk.injEq] at h
    obtain ⟨rfl, -⟩ := h
    exact ⟨rfl, rfl, fun _ => ⟨rfl, rfl⟩⟩
  · rename_i hdriving
    have hrented : v.status = .rented := by simpa [SimVehicle.driving] using hdriving
    cases htarget : v.target with
    | some target =>
        simp only [htarget, Option.pure_def, Option.bind_eq_bind, Option.bind_some, Option.some.injEq,
          Prod.mk.injEq] at h
        obtain ⟨rfl, -⟩ := h
        exact ⟨rfl, rfl, fun hnot => absurd hrented hnot⟩
    | none =>
        simp only [htarget, Option.pure_def, Option.bind_eq_bind, Option.bind_some] at h
        obtain ⟨⟨target, rng⟩, -, h⟩ := Option.bind_eq_some_iff.mp h
        simp only [Option.some.injEq, Prod.mk.injEq] at h
        obtain ⟨rfl, -⟩ := h
        exact ⟨rfl, rfl, fun hnot => absurd hrented hnot⟩

omit [IsStrictOrderedRing K] in
theorem SimVehicle.Keeps.settled {v v' : SimVehicle K} (h : v.Keeps v') (hv : v.Settled trig) :
    v'.Settled trig := by
  intro hstatus
  rw [h.status] at hstatus
  obtain ⟨htarget, hat⟩ := hv hstatus
  obtain ⟨hsame, hposition⟩ := h.parked hstatus
  refine ⟨hsame.trans htarget, ?_⟩
  unfold SimVehicle.AtStation at hat ⊢
  rw [hposition, h.stationId]
  exact hat

/-! ## The invariant -/

omit [Field K] [LinearOrder K] [IsStrictOrderedRing K] in
theorem update_cases {fleet : SimFleet K} {id other : Int} {v u : SimVehicle K}
    (h : Function.update fleet id (some v) other = some u) :
    (other = id ∧ u = v) ∨ (other ≠ id ∧ fleet other = some u) := by
  by_cases hid : other = id
  · subst hid
    rw [Function.update_self, Option.some.injEq] at h
    exact .inl ⟨rfl, h.symm⟩
  · rw [Function.update_of_ne hid] at h
    exact .inr ⟨hid, h⟩

theorem simInv_sync {listing : ApiListing} (h : w.Inv trig) (hmeets : w.Meets (.sync listing)) :
    (w.step trig (.sync listing)).Inv trig := by
  constructor
  · intro id v hv
    by_cases hid : id ∈ listing.entries.map (·.id)
    · obtain ⟨data, hdata, rfl⟩ := List.mem_map.mp hid
      obtain ⟨rng', hsync⟩ := fleet_sync trig w listing hdata
      obtain rfl : _ = v := Option.some.inj (hsync.symm.trans hv)
      exact settled_syncVehicle (fun u hu => h.settled data.id u hu) (hmeets data hdata)
    · exact h.settled id v ((syncFleet_other hid).symm.trans hv)
  · intro data hdata
    obtain ⟨rng', hsync⟩ := fleet_sync trig w listing hdata
    exact ⟨_, hsync, shows_syncVehicle data _ rng'⟩

omit [IsStrictOrderedRing K] in
theorem simInv_advance {id : Int} {dt : K} (h : w.Inv trig) : (w.step trig (.advance id dt)).Inv trig := by
  simp only [SimWorld.step]
  split
  · rename_i v rng hadvance
    obtain ⟨u, hu, hadvance⟩ := Option.bind_eq_some_iff.mp hadvance
    have hkeeps := keeps_advance hadvance
    constructor
    · intro other v' hv'
      rcases update_cases hv' with ⟨rfl, rfl⟩ | ⟨-, hother⟩
      · exact hkeeps.settled (h.settled _ u hu)
      · exact h.settled other v' hother
    · intro data hdata
      obtain ⟨v', hv', hshows⟩ := h.shows data hdata
      by_cases hid : data.id = id
      · subst hid
        obtain rfl : u = v' := Option.some.inj (hu.symm.trans hv')
        exact ⟨v, Function.update_self .., hkeeps.status.trans hshows.status,
          hkeeps.stationId.trans hshows.stationId⟩
      · exact ⟨v', (Function.update_of_ne hid _ _).trans hv', hshows⟩
  · exact h

theorem simInv_step {e : SimEvent K} (h : w.Inv trig) (hmeets : w.Meets e) : (w.step trig e).Inv trig := by
  cases e with
  | sync listing => exact simInv_sync h hmeets
  | advance id dt => exact simInv_advance h

omit [IsStrictOrderedRing K] in
theorem simInv_start (rng : Rng K) : (SimWorld.start rng).Inv trig :=
  ⟨fun _ _ hv => absurd hv (by simp [SimWorld.start]), fun _ hdata => absurd hdata List.not_mem_nil⟩

/-! ## Hubs -/

/-- Two hubs so close that a vehicle could stand at both are one. -/
theorem hub_of_close : ∀ a ∈ allHubs, ∀ b ∈ allHubs,
    |a.2.1 - b.2.1| ≤ 8 → |a.2.2 - b.2.2| ≤ 16 → a = b := by
  decide +kernel

theorem hub_latitude : ∀ a ∈ allHubs, 0 ≤ a.2.1 ∧ a.2.1 ≤ 600000 := by decide +kernel

theorem stationHub_mem (stationId : Int) : stationHub stationId ∈ allHubs := by
  have hpos : (0 : Int) < allHubs.length := by decide
  have hlow := Int.emod_nonneg (stationId - 1) hpos.ne'
  have hhigh := Int.emod_lt_of_pos (stationId - 1) hpos
  have hindex : ((stationId - 1) % allHubs.length).toNat < allHubs.length := by omega
  unfold stationHub
  rw [List.getD_eq_getElem?_getD, List.getElem?_eq_getElem hindex]
  exact List.getElem_mem hindex

theorem abs_degrees_le (h : trig.Sound) {x b : K} (hx : |x| ≤ b) : |degrees trig x| ≤ b * 60 := by
  have hpi : 3 ≤ trig.pi := h.three_le_pi
  have hb : 0 ≤ b := (abs_nonneg x).trans hx
  have hpos : 0 < trig.pi := by linarith
  unfold degrees
  rw [abs_div, abs_mul, abs_of_pos hpos, abs_of_pos (by norm_num : (0 : K) < 180), div_le_iff₀ hpos]
  calc |x| * 180 ≤ b * 180 := by gcongr
    _ = b * 60 * 3 := by ring
    _ ≤ b * 60 * trig.pi := by gcongr

theorem abs_northing_le (h : trig.Sound) {north : K} (hnorth : |north| ≤ stationSpreadM) :
    |degrees trig (north / earthRadiusM)| ≤ 4 / 10000 := by
  have hradius : (0 : K) < earthRadiusM := by norm_num [earthRadiusM]
  have hle : |north / earthRadiusM| ≤ stationSpreadM / earthRadiusM := by
    rw [abs_div, abs_of_pos hradius]
    gcongr
  refine (abs_degrees_le h hle).trans ?_
  norm_num [stationSpreadM, earthRadiusM]

theorem abs_easting_le (h : trig.Sound) {lat east : K} (hlow : 0 ≤ lat) (hhigh : lat ≤ 60)
    (heast : |east| ≤ stationSpreadM) :
    |degrees trig (east / (earthRadiusM * trig.cos (radians trig lat)))| ≤ 8 / 10000 := by
  have hpi : 3 ≤ trig.pi := h.three_le_pi
  have hcos : 1 / 2 ≤ trig.cos (radians trig lat) := by
    refine h.half_le_cos _ ?_ ?_
    · unfold radians
      positivity
    · unfold radians
      nlinarith
  have hradius : (0 : K) < earthRadiusM := by norm_num [earthRadiusM]
  have hpos : 0 < earthRadiusM * trig.cos (radians trig lat) := by positivity
  have hspread : (0 : K) ≤ stationSpreadM := by norm_num [stationSpreadM]
  have hle : |east / (earthRadiusM * trig.cos (radians trig lat))| ≤
      stationSpreadM / (earthRadiusM * (1 / 2)) := by
    rw [abs_div, abs_of_pos hpos]
    gcongr
  refine (abs_degrees_le h hle).trans ?_
  norm_num [stationSpreadM, earthRadiusM]

theorem latitude_bounds {hub : Bank × Int × Int} (hhub : hub ∈ allHubs) :
    0 ≤ (point hub.2 : K × K).1 ∧ (point hub.2 : K × K).1 ≤ 60 := by
  obtain ⟨hlow, hhigh⟩ := hub_latitude hub hhub
  have hlow : (0 : K) ≤ hub.2.1 := by exact_mod_cast hlow
  have hhigh : (hub.2.1 : K) ≤ 600000 := by exact_mod_cast hhigh
  unfold point
  constructor
  · positivity
  · rw [div_le_iff₀ (by norm_num)]
    linarith

/-- A vehicle stands within the spread of one hub only. -/
theorem hub_of_shared (h : trig.Sound) {v u : SimVehicle K} {a b : Int} (hv : v.AtStation trig a)
    (hu : u.AtStation trig b) (hposition : (v.latitude, v.longitude) = (u.latitude, u.longitude)) :
    stationHub a = stationHub b := by
  obtain ⟨north, east, hnorth, heast, hv⟩ := hv
  obtain ⟨north', east', hnorth', heast', hu⟩ := hu
  generalize hp : stationHub a = p at hv ⊢
  generalize hq : stationHub b = q at hu ⊢
  have hpmem : p ∈ allHubs := hp ▸ stationHub_mem a
  have hqmem : q ∈ allHubs := hq ▸ stationHub_mem b
  have hsame := hv.symm.trans (hposition.trans hu)
  simp only [offset, point, Prod.mk.injEq] at hsame
  obtain ⟨hlat, hlon⟩ := hsame
  have hn := abs_le.mp (abs_northing_le h hnorth)
  have hn' := abs_le.mp (abs_northing_le h hnorth')
  have he := abs_le.mp (abs_easting_le h (latitude_bounds hpmem).1 (latitude_bounds hpmem).2 heast)
  have he' := abs_le.mp (abs_easting_le h (latitude_bounds hqmem).1 (latitude_bounds hqmem).2 heast')
  simp only [point] at he he'
  refine hub_of_close p hpmem q hqmem ?_ ?_
  · have hdiff : |((p.2.1 - q.2.1 : Int) : K)| ≤ 8 := by
      push_cast
      exact abs_le.mpr ⟨by linarith, by linarith⟩
    exact_mod_cast hdiff
  · have hdiff : |((p.2.2 - q.2.2 : Int) : K)| ≤ 16 := by
      push_cast
      exact abs_le.mpr ⟨by linarith, by linarith⟩
    exact_mod_cast hdiff

/-! ## Runs -/

theorem meets_of_parked (h : trig.Sound) {e : SimEvent K} (hinv : w.Inv trig)
    (hparked : (w.step trig e).Parked trig) : w.Meets e := by
  cases e with
  | advance id dt => trivial
  | sync listing =>
      intro data hdata hstatus v hv
      by_cases hrented : v.status = .rented
      · exact .inl hrented
      · obtain ⟨u, hu, -, hat⟩ := hparked data hdata hstatus
        obtain ⟨rng', hsync⟩ := fleet_sync trig w listing hdata
        obtain rfl : _ = u := Option.some.inj (hsync.symm.trans hu)
        rw [hv] at hat
        refine .inr (hub_of_shared h hat (hinv.settled _ v hv hrented).2 ?_)
        exact Prod.ext (position_syncVehicle hrented).1 (position_syncVehicle hrented).2

/-- Throughout a run the parked vehicles stand at their stations exactly when no listing of the run gives a
vehicle that the simulator has parked a station with another hub. -/
theorem parked_throughout_iff (h : trig.Sound) (rng : Rng K) (es : List (SimEvent K)) :
    (∀ w, Runs.Visits (SimWorld.step trig) (.start rng) es w → w.Parked trig) ↔
      ∀ w e, Runs.Takes (SimWorld.step trig) (.start rng) es w e → w.Meets e :=
  Runs.invariant_iff_guarded (J := SimWorld.Inv trig) (fun _ hinv => hinv.parked)
    (fun _ _ hinv hmeets => simInv_step hinv hmeets) (fun _ _ hinv hparked => meets_of_parked h hinv hparked)
    (simInv_start rng)

end Parking

/-! ## Two rides -/

/-- The functions of `math` on the real numbers. -/
noncomputable def realTrig : Trig ℝ where
  pi := Real.pi
  cos := Real.cos
  sin := Real.sin
  atan2 y x := Complex.arg ⟨x, y⟩
  hypot x y := √(x ^ 2 + y ^ 2)

theorem realTrig_sound : realTrig.Sound where
  three_le_pi := Real.pi_gt_three.le
  half_le_cos x hlow hhigh := by
    have hpi : (3 : ℝ) < Real.pi := Real.pi_gt_three
    have hhigh : x ≤ Real.pi / 3 := hhigh
    rw [← Real.cos_pi_div_three]
    exact Real.cos_le_cos_of_nonneg_of_le_pi hlow (by linarith) hhigh

def lowest : Rng ℝ := ⟨fun _ => ⟨0, le_rfl, zero_lt_one⟩, fun _ => 0, 0⟩

/-- A listing of the first vehicle alone. -/
def listOne (stationId : Int) (status : VehicleStatus) : ApiListing := ⟨[⟨1, stationId, status⟩], by simp⟩

/-- After a listing of one vehicle the simulator has it as listed. -/
theorem shown_of_listOne (w : SimWorld ℝ) (stationId : Int) (status : VehicleStatus) {v : SimVehicle ℝ}
    (hv : (w.step realTrig (.sync (listOne stationId status))).fleet 1 = some v) :
    v.Shows ⟨1, stationId, status⟩ := by
  obtain ⟨rng', hsync⟩ := fleet_sync realTrig w (listOne stationId status) (List.mem_singleton_self _)
  obtain rfl : _ = v := Option.some.inj (hsync.symm.trans hv)
  exact shows_syncVehicle _ _ _

theorem meets_start (rng : Rng ℝ) (e : SimEvent ℝ) : (SimWorld.start rng).Meets e := by
  cases e with
  | advance id dt => trivial
  | sync listing => exact fun _ _ _ v hv => absurd hv (by simp [SimWorld.start])

/-- A ride that the simulator sees: it parks the vehicle at the station of the return. -/
theorem parked_after_seen_ride : (Runs.run (SimWorld.step realTrig) (.start lowest)
    [.sync (listOne 1 .rented), .sync (listOne 2 .available)]).Parked realTrig := by
  refine (parked_throughout_iff realTrig_sound lowest _).mpr ?_ _ (Runs.Visits.last _ _)
  intro w e htakes
  simp only [Runs.takes_cons, Runs.takes_nil, or_false] at htakes
  rcases htakes with ⟨rfl, rfl⟩ | ⟨rfl, rfl⟩
  · exact meets_start _ _
  · intro data hdata _ v hv
    obtain rfl := List.mem_singleton.mp hdata
    exact .inl (shown_of_listOne _ _ _ hv).status

/-- A ride between two listings leaves the vehicle where it was. -/
theorem unseen_ride_leaves_vehicle : ¬ (Runs.run (SimWorld.step realTrig) (.start lowest)
    [.sync (listOne 1 .available), .sync (listOne 2 .available)]).Parked realTrig := by
  intro hparked
  rw [Runs.run_cons, Runs.run_cons, Runs.run_nil] at hparked
  have hstart : (SimWorld.start lowest).Inv realTrig := simInv_start lowest
  have hinv := simInv_step hstart (meets_start lowest (.sync (listOne 1 .available)))
  have hmeets := meets_of_parked realTrig_sound hinv hparked
  obtain ⟨v, hv, hshows⟩ := hinv.shows _ (List.mem_singleton_self _)
  rcases hmeets ⟨1, 2, .available⟩ (List.mem_singleton_self _) (by decide) v hv with hrented | hhub
  · rw [hshows.status] at hrented
    exact absurd hrented (by decide)
  · rw [hshows.stationId] at hhub
    exact absurd hhub (by decide)

end FleetManagement
