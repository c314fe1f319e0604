import FleetManagement.Telemetry.Parking
import Mathlib.Algebra.Order.Monoid.Prod
import Mathlib.Analysis.Convex.Basic
import Mathlib.Tactic.FieldSimp

/-!
# Drives in the simulator

The loop of the simulator never raises. Its vehicles drive on straight lines to hubs of their own bank, no
faster than the fastest drive, and what it publishes are valid messages with places of the city.
-/

namespace FleetManagement

section Driving
variable {K : Type} [Field K] [LinearOrder K] [IsStrictOrderedRing K] {trig : Trig K}

/-- What else `math` guarantees. -/
structure Trig.Polar (trig : Trig K) : Prop where
  hypot_mul_cos : ∀ x y, trig.hypot x y * trig.cos (trig.atan2 y x) = x
  hypot_mul_sin : ∀ x y, trig.hypot x y * trig.sin (trig.atan2 y x) = y
  hypot_scale : ∀ a x y, 0 ≤ a → trig.hypot (a * x) (a * y) = a * trig.hypot x y
  abs_le_hypot : ∀ x y, |x| ≤ trig.hypot x y

/-! ## Banks -/

/-- The corners of what the hubs of a bank and their spreads take, in ten-thousandths of a degree. -/
def Bank.southWest : Bank → Int × Int
  | .right => (504045, 304191)
  | .left => (503949, 305974)

def Bank.northEast : Bank → Int × Int
  | .right => (505017, 305397)
  | .left => (504651, 306534)

def Bank.area (bank : Bank) : Set (K × K) := Set.Icc (point bank.southWest) (point bank.northEast)

theorem hub_within : ∀ hub ∈ allHubs,
    hub.1.southWest.1 + 4 ≤ hub.2.1 ∧ hub.1.southWest.2 + 8 ≤ hub.2.2 ∧
      hub.2.1 + 4 ≤ hub.1.northEast.1 ∧ hub.2.2 + 8 ≤ hub.1.northEast.2 := by
  decide +kernel

theorem hubs_subset : ∀ bank, ∀ hub ∈ hubs bank, (bank, hub) ∈ allHubs := by
  intro bank hub hhub
  cases bank with
  | right => exact List.mem_append_left _ (List.mem_map.mpr ⟨hub, hhub, rfl⟩)
  | left => exact List.mem_append_right _ (List.mem_map.mpr ⟨hub, hhub, rfl⟩)

/-- No place is close to all the hubs of a bank. -/
theorem hubs_apart : ∀ bank : Bank, ∃ hub ∈ hubs bank, ∃ hub' ∈ hubs bank, hub.1 + 100 ≤ hub'.1 := by
  intro bank
  cases bank with
  | right => exact ⟨(504049, 305167), by decide, (505013, 304983), by decide, by decide⟩
  | left => exact ⟨(503953, 306163), by decide, (504647, 306457), by decide, by decide⟩

omit [IsStrictOrderedRing K] in
theorem point_mem_area {bank : Bank} {lat lon : K} :
    (lat, lon) ∈ bank.area (K := K) ↔ ((bank.southWest.1 : K) / 10000 ≤ lat ∧
      (bank.southWest.2 : K) / 10000 ≤ lon) ∧ lat ≤ (bank.northEast.1 : K) / 10000 ∧
      lon ≤ (bank.northEast.2 : K) / 10000 := Iff.rfl

theorem hub_mem_area {bank : Bank} {hub : K × K} (h : hub ∈ (hubs bank).map point) : hub ∈ bank.area := by
  obtain ⟨p, hp, rfl⟩ := List.mem_map.mp h
  obtain ⟨hs, hw, hn, he⟩ := hub_within _ (hubs_subset bank p hp)
  have hs : (bank.southWest.1 : K) ≤ p.1 := by exact_mod_cast (by linarith : bank.southWest.1 ≤ p.1)
  have hw : (bank.southWest.2 : K) ≤ p.2 := by exact_mod_cast (by linarith : bank.southWest.2 ≤ p.2)
  have hn : (p.1 : K) ≤ bank.northEast.1 := by exact_mod_cast (by linarith : p.1 ≤ bank.northEast.1)
  have he : (p.2 : K) ≤ bank.northEast.2 := by exact_mod_cast (by linarith : p.2 ≤ bank.northEast.2)
  unfold point
  rw [point_mem_area]
  refine ⟨⟨?_, ?_⟩, ?_, ?_⟩ <;> gcongr

theorem latitude_of_area {bank : Bank} {lat lon : K} (h : (lat, lon) ∈ bank.area) : 0 ≤ lat ∧ lat ≤ 60 := by
  obtain ⟨⟨hs, -⟩, hn, -⟩ := point_mem_area.mp h
  cases bank <;> simp only [Bank.southWest, Bank.northEast] at hs hn <;> norm_num at hs hn <;>
    constructor <;> linarith

theorem convex_area (bank : Bank) : Convex K (bank.area : Set (K × K)) := convex_Icc _ _

/-- The spread of a station is in the area of its bank. -/
theorem atStation_mem_area (h : trig.Sound) {v : SimVehicle K} {stationId : Int}
    (hv : v.AtStation trig stationId) : (v.latitude, v.longitude) ∈ (stationHub stationId).1.area := by
  obtain ⟨north, east, hnorth, heast, hv⟩ := hv
  have hmem := stationHub_mem stationId
  generalize stationHub stationId = hub at hv hmem ⊢
  have hn := abs_le.mp (abs_northing_le h hnorth)
  have he := abs_le.mp (abs_easting_le h (latitude_bounds hmem).1 (latitude_bounds hmem).2 heast)
  obtain ⟨hs', hw', hn', he'⟩ := hub_within hub hmem
  have hs' : (hub.1.southWest.1 : K) + 4 ≤ hub.2.1 := by exact_mod_cast hs'
  have hw' : (hub.1.southWest.2 : K) + 8 ≤ hub.2.2 := by exact_mod_cast hw'
  have hn' : (hub.2.1 : K) + 4 ≤ hub.1.northEast.1 := by exact_mod_cast hn'
  have he' : (hub.2.2 : K) + 8 ≤ hub.1.northEast.2 := by exact_mod_cast he'
  rw [hv]
  simp only [offset, point, point_mem_area] at hn he ⊢
  refine ⟨⟨?_, ?_⟩, ?_, ?_⟩ <;> linarith

/-! ## One drive -/

section Geometry
variable {lat lon lat' lon' : K}

theorem radians_mul (trig : Trig K) (a x : K) : radians trig (a * x) = a * radians trig x := by
  unfold radians
  ring

theorem cos_pos (h : trig.Sound) (hlow : 0 ≤ lat) (hhigh : lat ≤ 60) : 0 < trig.cos (radians trig lat) := by
  have hpi : 3 ≤ trig.pi := h.three_le_pi
  have hcos : 1 / 2 ≤ trig.cos (radians trig lat) := by
    apply h.half_le_cos
    · unfold radians
      positivity
    · unfold radians
      nlinarith
  linarith

theorem degrees_radians (h : trig.Sound) (x : K) : degrees trig (radians trig x) = x := by
  have hpi : trig.pi ≠ 0 := by linarith [h.three_le_pi]
  unfold degrees radians
  field_simp

/-- The distance in radii. -/
theorem distanceM_eq (hp : trig.Polar) : distanceM trig lat lon lat' lon' = earthRadiusM *
    trig.hypot (radians trig (lat' - lat)) (radians trig (lon' - lon) * trig.cos (radians trig lat)) := by
  have hradius : (0 : K) ≤ earthRadiusM := by norm_num [earthRadiusM]
  rw [← hp.hypot_scale _ _ _ hradius]
  unfold distanceM
  congr 1 <;> ring

theorem distanceM_nonneg (hp : trig.Polar) : 0 ≤ distanceM trig lat lon lat' lon' :=
  (abs_nonneg _).trans (hp.abs_le_hypot _ _)

/-- A part of the way is that part of the distance. -/
theorem distanceM_part (hp : trig.Polar) {part : K} (hpart : 0 ≤ part) :
    distanceM trig lat lon (lat + part * (lat' - lat)) (lon + part * (lon' - lon)) =
      part * distanceM trig lat lon lat' lon' := by
  rw [distanceM_eq hp, distanceM_eq hp, add_sub_cancel_left, add_sub_cancel_left, radians_mul, radians_mul,
    mul_assoc part, hp.hypot_scale _ _ _ hpart]
  ring

theorem distanceM_self (hp : trig.Polar) : distanceM trig lat lon lat lon = 0 := by
  have hpart : distanceM trig lat lon (lat + 0 * (lat - lat)) (lon + 0 * (lon - lon)) =
      0 * distanceM trig lat lon lat lon := distanceM_part hp le_rfl
  simpa using hpart

/-- A step in the direction of a place is a part of the way to it. -/
theorem offset_bearing (h : trig.Sound) (hp : trig.Polar) (hlow : 0 ≤ lat) (hhigh : lat ≤ 60) (part : K) :
    offset trig lat lon
      (part * distanceM trig lat lon lat' lon' * trig.cos (bearingRad trig lat lon lat' lon'))
      (part * distanceM trig lat lon lat' lon' * trig.sin (bearingRad trig lat lon lat' lon')) =
    (lat + part * (lat' - lat), lon + part * (lon' - lon)) := by
  have hcos := (cos_pos h hlow hhigh).ne'
  have hradius : (earthRadiusM : K) ≠ 0 := by norm_num [earthRadiusM]
  have hnorth : part * distanceM trig lat lon lat' lon' * trig.cos (bearingRad trig lat lon lat' lon') /
      earthRadiusM = radians trig (part * (lat' - lat)) := by
    rw [distanceM_eq hp, radians_mul, div_eq_iff hradius]
    unfold bearingRad
    linear_combination part * earthRadiusM * hp.hypot_mul_cos (radians trig (lat' - lat))
      (radians trig (lon' - lon) * trig.cos (radians trig lat))
  have heast : part * distanceM trig lat lon lat' lon' * trig.sin (bearingRad trig lat lon lat' lon') /
      (earthRadiusM * trig.cos (radians trig lat)) = radians trig (part * (lon' - lon)) := by
    rw [distanceM_eq hp, radians_mul, div_eq_iff (mul_ne_zero hradius hcos)]
    unfold bearingRad
    linear_combination part * earthRadiusM * hp.hypot_mul_sin (radians trig (lat' - lat))
      (radians trig (lon' - lon) * trig.cos (radians trig lat))
  unfold offset
  rw [hnorth, heast, degrees_radians h, degrees_radians h]

/-- A step that does not pass the place is a part of the way. -/
theorem part_of_step {step remaining : K} (hstep : 0 ≤ step) (hle : step ≤ remaining) :
    ∃ part, 0 ≤ part ∧ part ≤ 1 ∧ step = part * remaining := by
  rcases (hstep.trans hle).eq_or_lt with hzero | hpos
  · exact ⟨0, le_rfl, zero_le_one, by linarith⟩
  · refine ⟨step / remaining, by positivity, (div_le_one hpos).mpr hle, ?_⟩
    field_simp

end Geometry

/-! ## Targets -/

omit [IsStrictOrderedRing K] in
theorem choice_of_ne_nil {α : Type} {options : List α} (h : options ≠ []) (rng : Rng K) :
    ∃ a ∈ options, rng.choice options = some (a, { rng with drawn := rng.drawn + 1 }) := by
  have hlt := Nat.mod_lt (rng.index rng.drawn) (List.length_pos_of_ne_nil h)
  exact ⟨_, List.getElem_mem hlt, by simp [Rng.choice, List.getElem?_eq_getElem hlt]⟩

theorem uniform_bounds {a b : K} (hab : a ≤ b) (rng : Rng K) :
    a ≤ (rng.uniform a b).1 ∧ (rng.uniform a b).1 ≤ b := by
  obtain ⟨hlow, hhigh⟩ := (rng.unit rng.drawn).property
  simp only [Rng.uniform]
  constructor
  · have := mul_nonneg (sub_nonneg.mpr hab) hlow
    linarith
  · have := mul_le_mul_of_nonneg_left hhigh.le (sub_nonneg.mpr hab)
    linarith

theorem far_of_latitude (h : trig.Sound) (hp : trig.Polar) {lat lon lat' lon' : K}
    (hfar : 1 / 200 ≤ |lat' - lat|) : arrivalM * 4 < distanceM trig lat lon lat' lon' := by
  have hpi : 3 ≤ trig.pi := h.three_le_pi
  have hradius : (0 : K) < earthRadiusM := by norm_num [earthRadiusM]
  have hnorth : 1 / 200 * 3 / 180 ≤ |radians trig (lat' - lat)| := by
    unfold radians
    rw [abs_div, abs_mul, abs_of_pos (by linarith : 0 < trig.pi), abs_of_pos (by norm_num : (0 : K) < 180)]
    gcongr
  calc (arrivalM * 4 : K) < 1 / 200 * 3 / 180 * earthRadiusM := by norm_num [arrivalM, earthRadiusM]
    _ ≤ |radians trig (lat' - lat)| * earthRadiusM := by gcongr
    _ = |radians trig (lat' - lat) * earthRadiusM| := by rw [abs_mul, abs_of_pos hradius]
    _ ≤ distanceM trig lat lon lat' lon' := hp.abs_le_hypot _ _

/-- Two hubs of the bank are so far apart in latitude that one of them is a target. -/
theorem pickTarget_some (h : trig.Sound) (hp : trig.Polar) (v : SimVehicle K) (rng : Rng K) :
    ∃ hub ∈ (hubs v.bank).map point, ∃ rng', pickTarget trig v rng = some (hub, rng') := by
  obtain ⟨p, hp₁, q, hq₁, hpq⟩ := hubs_apart v.bank
  have hpq : (p.1 : K) + 100 ≤ q.1 := by exact_mod_cast hpq
  have hfar : ∃ hub ∈ hubs v.bank, 1 / 200 ≤ |(point hub : K × K).1 - v.latitude| := by
    by_cases hle : (p.1 : K) / 10000 + 1 / 200 ≤ v.latitude
    · refine ⟨p, hp₁, ?_⟩
      rw [abs_sub_comm]
      refine le_trans ?_ (le_abs_self _)
      simp only [point]
      linarith
    · refine ⟨q, hq₁, le_trans ?_ (le_abs_self _)⟩
      simp only [point]
      linarith
  obtain ⟨hub, hhub, hfar⟩ := hfar
  have hmem : point hub ∈ ((hubs v.bank).map (point (K := K))).filter fun hub =>
      arrivalM * 4 < distanceM trig v.latitude v.longitude hub.1 hub.2 := by
    simp only [List.mem_filter, List.mem_map, decide_eq_true_eq]
    exact ⟨⟨hub, hhub, rfl⟩, far_of_latitude h hp hfar⟩
  obtain ⟨target, htarget, hpick⟩ := choice_of_ne_nil (List.ne_nil_of_mem hmem) rng
  exact ⟨target, List.mem_of_mem_filter htarget, _, hpick⟩

/-! ## One vehicle -/

structure SimVehicle.OnBank (v : SimVehicle K) : Prop where
  position : (v.latitude, v.longitude) ∈ v.bank.area
  target : ∀ hub, v.target = some hub → hub ∈ (hubs v.bank).map point
  speed : 0 ≤ v.speed ∧ v.speed ≤ driveSpeedMps.2
  fuel : 0 ≤ v.fuelLevel ∧ v.fuelLevel ≤ 100

/-- From `v` to `v'` in at most the interval, on the line to a hub of the bank. -/
structure SimVehicle.Moves (trig : Trig K) (interval : K) (v v' : SimVehicle K) : Prop where
  bank : v'.bank = v.bank
  line : ∃ hub ∈ (hubs v.bank).map point,
    (v'.latitude, v'.longitude) ∈ segment K (v.latitude, v.longitude) hub
  distance : distanceM trig v.latitude v.longitude v'.latitude v'.longitude ≤ driveSpeedMps.2 * interval
  parked : v'.driving = false → (v'.latitude, v'.longitude) = (v.latitude, v.longitude)

section Vehicle
variable {v : SimVehicle K} {dt : K} {rng : Rng K} {target : K × K}

omit [IsStrictOrderedRing K] in
theorem advance_of_target (hdriving : v.driving = true) (htarget : v.target = some target) :
    advance trig v dt rng = some (v.driven trig dt target v.speed, rng) := by
  simp [advance, hdriving, htarget, SimVehicle.driven]

omit [IsStrictOrderedRing K] in
theorem advance_of_pick {rng' : Rng K} (hdriving : v.driving = true) (htarget : v.target = none)
    (hpick : pickTarget trig v rng = some (target, rng')) : advance trig v dt rng =
      some (v.driven trig dt target (rng'.uniform driveSpeedMps.1 driveSpeedMps.2).1,
        (rng'.uniform driveSpeedMps.1 driveSpeedMps.2).2) := by
  simp [advance, hdriving, htarget, hpick, SimVehicle.driven]

theorem moves_driven (h : trig.Sound) (hp : trig.Polar) (hv : v.OnBank) (hdriving : v.driving = true)
    (hdt : 0 ≤ dt) (htarget : target ∈ (hubs v.bank).map point) {speed : K} (hspeed : 0 ≤ speed)
    (hfast : speed ≤ driveSpeedMps.2) :
    (v.driven trig dt target speed).OnBank ∧ v.Moves trig dt (v.driven trig dt target speed) := by
  obtain ⟨hlow, hhigh⟩ := latitude_of_area hv.position
  have hremaining : 0 ≤ distanceM trig v.latitude v.longitude target.1 target.2 := distanceM_nonneg hp
  have hstep : 0 ≤ min (speed * dt) (distanceM trig v.latitude v.longitude target.1 target.2) :=
    le_min (mul_nonneg hspeed hdt) hremaining
  obtain ⟨part, hpart, hone, heq⟩ := part_of_step hstep (min_le_right _ _)
  have hposition : ((v.driven trig dt target speed).latitude, (v.driven trig dt target speed).longitude) =
      (v.latitude + part * (target.1 - v.latitude), v.longitude + part * (target.2 - v.longitude)) := by
    rw [← offset_bearing h hp hlow hhigh, ← heq]
    rfl
  have hpair : ((v.driven trig dt target speed).latitude, (v.driven trig dt target speed).longitude) =
      (v.latitude, v.longitude) + part • (target - (v.latitude, v.longitude)) := hposition
  obtain ⟨hlat, hlon⟩ := Prod.mk.inj hposition
  constructor
  · constructor
    · rw [hpair]
      exact (convex_area v.bank).add_smul_sub_mem hv.position (hub_mem_area htarget) ⟨hpart, hone⟩
    · intro hub hhub
      simp only [SimVehicle.driven] at hhub
      split at hhub
      · cases hhub
      · exact Option.some.inj hhub ▸ htarget
    · exact ⟨hspeed, hfast⟩
    · have huse : 0 ≤ fuelUsePerKm * min (speed * dt)
          (distanceM trig v.latitude v.longitude target.1 target.2) / 1000 := by
        have : (0 : K) ≤ fuelUsePerKm := by norm_num [fuelUsePerKm]
        positivity
      refine ⟨le_max_left _ _, max_le (by norm_num) ?_⟩
      linarith [hv.fuel.2]
  · constructor
    · rfl
    · refine ⟨target, htarget, ?_⟩
      rw [hpair, segment_eq_image']
      exact ⟨part, ⟨hpart, hone⟩, rfl⟩
    · rw [hlat, hlon, distanceM_part hp hpart, ← heq]
      exact (min_le_left _ _).trans (mul_le_mul_of_nonneg_right hfast hdt)
    · intro hparked
      exact absurd hdriving (by rw [show v.driving = false from hparked]; simp)

/-- A vehicle that stays where it is. -/
theorem moves_of_same (hp : trig.Polar) (hdt : 0 ≤ dt) {v' : SimVehicle K} (hbank : v'.bank = v.bank)
    (hlat : v'.latitude = v.latitude) (hlon : v'.longitude = v.longitude) : v.Moves trig dt v' := by
  have hspeed : (0 : K) ≤ driveSpeedMps.2 := by norm_num [driveSpeedMps]
  obtain ⟨hub, hhub, -⟩ := hubs_apart v.bank
  constructor
  · exact hbank
  · exact ⟨point hub, List.mem_map_of_mem hhub, by rw [hlat, hlon]; exact left_mem_segment K _ _⟩
  · rw [hlat, hlon, distanceM_self hp]
    exact mul_nonneg hspeed hdt
  · intro _
    rw [hlat, hlon]

/-- `advance` does not raise. -/
theorem advance_spec (h : trig.Sound) (hp : trig.Polar) (hv : v.OnBank) (hdt : 0 ≤ dt) (rng : Rng K) :
    ∃ v' rng', advance trig v dt rng = some (v', rng') ∧ v'.OnBank ∧ v.Moves trig dt v' ∧
      v'.vehicleId = v.vehicleId ∧ v'.status = v.status ∧ v'.stationId = v.stationId := by
  have hspeeds : (0 : K) ≤ driveSpeedMps.1 ∧ (driveSpeedMps.1 : K) ≤ driveSpeedMps.2 := by
    norm_num [driveSpeedMps]
  by_cases hdriving : v.driving = true
  · cases htarget : v.target with
    | some target =>
        obtain ⟨hbank, hmoves⟩ :=
          moves_driven h hp hv hdriving hdt (hv.target target htarget) hv.speed.1 hv.speed.2
        exact ⟨_, rng, advance_of_target hdriving htarget, hbank, hmoves, rfl, rfl, rfl⟩
    | none =>
        obtain ⟨target, hhub, rng', hpick⟩ := pickTarget_some h hp v rng
        obtain ⟨hslow, hfast⟩ := uniform_bounds hspeeds.2 rng'
        obtain ⟨hbank, hmoves⟩ := moves_driven h hp hv hdriving hdt hhub (hspeeds.1.trans hslow) hfast
        exact ⟨_, _, advance_of_pick hdriving htarget hpick, hbank, hmoves, rfl, rfl, rfl⟩
  · have hparked : v.driving = false := by simpa using hdriving
    have hrecharge : (0 : K) ≤ fuelRechargePerTick := by norm_num [fuelRechargePerTick]
    refine ⟨{ v with speed := 0, fuelLevel := min 100 (v.fuelLevel + fuelRechargePerTick) }, rng,
      by simp [advance, hparked], ?_, moves_of_same hp hdt rfl rfl rfl, rfl, rfl, rfl⟩
    constructor
    · exact hv.position
    · exact hv.target
    · exact ⟨le_rfl, hspeeds.1.trans hspeeds.2⟩
    · refine ⟨le_min (by norm_num) ?_, min_le_left _ _⟩
      linarith [hv.fuel.1]

end Vehicle

/-! ## Messages -/

section Messages
variable [FloorRing K]

omit [IsStrictOrderedRing K] in
theorem le_roundTo (digits : Nat) (n : Int) {x : K} (h : (n : K) ≤ x * 10 ^ digits) :
    (n : Rat) / 10 ^ digits ≤ roundTo digits x := by
  have hfloor : n ≤ ⌊x * 10 ^ digits⌋ := Int.le_floor.mpr h
  unfold roundTo
  dsimp only
  gcongr
  split
  · exact hfloor
  · omega

theorem roundTo_le (digits : Nat) (n : Int) {x : K} (h : x * 10 ^ digits ≤ n) :
    roundTo digits x ≤ (n : Rat) / 10 ^ digits := by
  have hfloor : ⌊x * 10 ^ digits⌋ ≤ n := Int.cast_le.mp ((Int.floor_le _).trans h)
  unfold roundTo
  dsimp only
  gcongr
  split
  · exact hfloor
  · rename_i hup
    -- Rounding up from `n` itself would need a rest.
    have hne : ⌊x * 10 ^ digits⌋ ≠ n := by
      intro heq
      refine hup (Or.inl ?_)
      rw [heq]
      linarith
    omega

/-- What the message says of the vehicle. -/
structure TelemetryMessage.Reports (m : TelemetryMessage) (v : SimVehicle K) (now : AwareDatetime) : Prop where
  vehicleId : m.vehicleId = v.vehicleId
  recordedAt : m.recordedAt = now
  latitude : m.latitude = roundTo 6 v.latitude
  longitude : m.longitude = roundTo 6 v.longitude
  fuelLevel : m.fuelLevel = roundTo 1 v.fuelLevel
  isLocked : m.isLocked = !v.driving

def TelemetryMessage.OnBank (m : TelemetryMessage) : Prop :=
  ∃ bank : Bank, (m.latitude, m.longitude) ∈ bank.area (K := Rat)

/-- Rounding does not leave the area. -/
theorem roundTo_mem_area {bank : Bank} {lat lon : K} (h : (lat, lon) ∈ bank.area) :
    (roundTo 6 lat, roundTo 6 lon) ∈ bank.area (K := Rat) := by
  have hlow : ∀ {n : Int} {x : K}, (n : K) / 10000 ≤ x → (n : Rat) / 10000 ≤ roundTo 6 x := by
    intro n x hx
    have hround := le_roundTo 6 (n * 100) (x := x) (by push_cast; linarith)
    push_cast at hround
    linarith
  have hhigh : ∀ {n : Int} {x : K}, x ≤ (n : K) / 10000 → roundTo 6 x ≤ (n : Rat) / 10000 := by
    intro n x hx
    have hround := roundTo_le 6 (n * 100) (x := x) (by push_cast; linarith)
    push_cast at hround
    linarith
  rw [point_mem_area] at h ⊢
  exact ⟨⟨hlow h.1.1, hlow h.1.2⟩, hhigh h.2.1, hhigh h.2.2⟩

/-- A vehicle on a bank has a valid message. -/
theorem toMessage_spec {v : SimVehicle K} (hv : v.OnBank) (hid : 0 < v.vehicleId) (now : AwareDatetime) :
    ∃ m, toMessage v now = some m ∧ m.Reports v now ∧ m.OnBank := by
  have harea := roundTo_mem_area hv.position
  obtain ⟨⟨hs, hw⟩, hn, he⟩ := point_mem_area.mp harea
  have hfuel : 0 ≤ roundTo 1 v.fuelLevel ∧ roundTo 1 v.fuelLevel ≤ 100 := by
    have hlow := le_roundTo 1 0 (x := v.fuelLevel) (by push_cast; linarith [hv.fuel.1])
    have hhigh := roundTo_le 1 1000 (x := v.fuelLevel)
      (by push_cast; linarith [hv.fuel.2])
    push_cast at hlow hhigh
    constructor <;> linarith
  have hvalid : 0 < v.vehicleId ∧ (-90 ≤ roundTo 6 v.latitude ∧ roundTo 6 v.latitude ≤ 90) ∧
      (-180 ≤ roundTo 6 v.longitude ∧ roundTo 6 v.longitude ≤ 180) ∧
      (0 ≤ roundTo 1 v.fuelLevel ∧ roundTo 1 v.fuelLevel ≤ 100) := by
    generalize v.bank = bank at hs hw hn he
    refine ⟨hid, ⟨?_, ?_⟩, ⟨?_, ?_⟩, hfuel⟩ <;> cases bank <;>
      simp only [Bank.southWest, Bank.northEast] at hs hw hn he <;> norm_num at hs hw hn he <;> linarith
  refine ⟨_, dif_pos hvalid, ⟨rfl, rfl, rfl, rfl, rfl, rfl⟩, v.bank, harea⟩

end Messages

/-! ## Listings -/

def SimWorld.OnBanks (w : SimWorld K) : Prop :=
  ∀ id v, w.fleet id = some v → v.OnBank ∧ v.vehicleId = id ∧ 0 < id

/-- What a listing does to a vehicle: it stays where it is, or its ride has ended and it is parked. -/
def SimVehicle.Refreshed (trig : Trig K) (v v' : SimVehicle K) : Prop :=
  (v'.bank = v.bank ∧ v'.latitude = v.latitude ∧ v'.longitude = v.longitude) ∨
    v.driving = true ∧ v'.driving = false ∧ v'.AtStation trig v'.stationId

section Listings
variable {v : SimVehicle K} {rng : Rng K} {data : VehicleEntry}

theorem onBank_parkAtStation (h : trig.Sound) (hfuel : 0 ≤ v.fuelLevel ∧ v.fuelLevel ≤ 100) :
    (parkAtStation trig v rng).1.OnBank where
  position := atStation_mem_area h (parkAtStation_spec v rng).1
  target hub hhub := by rw [(parkAtStation_spec v rng).2.1] at hhub; cases hhub
  speed := ⟨le_rfl, by simp [parkAtStation, driveSpeedMps]⟩
  fuel := hfuel

theorem onBank_syncVehicle (h : trig.Sound) (rng : Rng K) {known : Option (SimVehicle K)}
    (hknown : ∀ v, known = some v → v.OnBank ∧ v.vehicleId = data.id) :
    (syncVehicle trig data known rng).1.OnBank ∧ (syncVehicle trig data known rng).1.vehicleId = data.id := by
  cases known with
  | none =>
      refine ⟨onBank_parkAtStation h ?_, rfl⟩
      obtain ⟨hlow, hhigh⟩ := uniform_bounds (by norm_num : (40 : K) ≤ 100) (rng.uniform 0 (2 * trig.pi)).2
      exact ⟨le_trans (by norm_num) hlow, hhigh⟩
  | some v =>
      obtain ⟨hv, hid⟩ := hknown v rfl
      unfold syncVehicle
      dsimp only
      split
      · exact ⟨onBank_parkAtStation h hv.fuel, hid⟩
      · exact ⟨⟨hv.position, hv.target, hv.speed, hv.fuel⟩, hid⟩

theorem refreshed_syncVehicle : v.Refreshed trig (syncVehicle trig data (some v) rng).1 := by
  unfold syncVehicle
  dsimp only
  split
  · rename_i hreturned
    simp only [Bool.and_eq_true, decide_eq_true_eq] at hreturned
    exact Or.inr ⟨hreturned.1, by simp [SimVehicle.driving, parkAtStation, hreturned.2],
      (parkAtStation_spec _ rng).1⟩
  · exact Or.inl ⟨rfl, rfl, rfl⟩

theorem onBanks_sync (h : trig.Sound) {w : SimWorld K} (hw : w.OnBanks) {listing : ApiListing}
    (hids : ∀ data ∈ listing.entries, 0 < data.id) : (w.step trig (.sync listing)).OnBanks := by
  intro id v hv
  by_cases hid : id ∈ listing.entries.map (·.id)
  · obtain ⟨data, hdata, rfl⟩ := List.mem_map.mp hid
    obtain ⟨rng', hsync⟩ := fleet_sync trig w listing hdata
    obtain rfl : _ = v := Option.some.inj (hsync.symm.trans hv)
    obtain ⟨hbank, hsame⟩ := onBank_syncVehicle h rng' fun u hu =>
      ⟨(hw data.id u hu).1, (hw data.id u hu).2.1⟩
    exact ⟨hbank, hsame, hids data hdata⟩
  · exact hw id v ((syncFleet_other hid).symm.trans hv)

/-- A listing removes no vehicle. -/
theorem refreshed_sync (trig : Trig K) {w : SimWorld K} (listing : ApiListing) {id : Int} (hv : w.fleet id = some v) :
    ∃ v', (w.step trig (.sync listing)).fleet id = some v' ∧ v.Refreshed trig v' := by
  by_cases hid : id ∈ listing.entries.map (·.id)
  · obtain ⟨data, hdata, rfl⟩ := List.mem_map.mp hid
    obtain ⟨rng', hsync⟩ := fleet_sync trig w listing hdata
    rw [hv] at hsync
    exact ⟨_, hsync, refreshed_syncVehicle⟩
  · exact ⟨v, (syncFleet_other hid).trans hv, Or.inl ⟨rfl, rfl, rfl⟩⟩

end Listings

/-! ## The loop -/

section Loop
variable [FloorRing K] {interval : K}

/-- What the `for` over the fleet does. -/
structure Published (trig : Trig K) (interval : K) (now : AwareDatetime) (ids : List Int) (w w' : SimWorld K)
    (messages : List TelemetryMessage) : Prop where
  onBanks : w'.OnBanks
  vehicleIds : messages.map (·.vehicleId) = ids
  others : ∀ id, id ∉ ids → w'.fleet id = w.fleet id
  moves : ∀ id ∈ ids, ∃ v v', w.fleet id = some v ∧ w'.fleet id = some v' ∧ v.Moves trig interval v' ∧
    v'.status = v.status ∧ v'.stationId = v.stationId
  reports : ∀ m ∈ messages, m.OnBank ∧ ∃ v, w'.fleet m.vehicleId = some v ∧ m.Reports v now

theorem publishReadings_spec (h : trig.Sound) (hp : trig.Polar) (hinterval : 0 ≤ interval)
    (now : AwareDatetime) {ids : List Int} (hnodup : ids.Nodup) {w : SimWorld K} (hw : w.OnBanks)
    (hknown : ∀ id ∈ ids, ∃ v, w.fleet id = some v) :
    ∃ w' messages, publishReadings trig interval now ids w = some (w', messages) ∧
      Published trig interval now ids w w' messages := by
  induction ids generalizing w with
  | nil =>
      refine ⟨w, [], rfl, hw, rfl, fun _ _ => rfl, ?_, ?_⟩
      · intro id hid
        cases hid
      · intro m hm
        cases hm
  | cons id ids ih =>
      obtain ⟨hfirst, hnodup⟩ := List.nodup_cons.mp hnodup
      obtain ⟨v, hv⟩ := hknown id List.mem_cons_self
      obtain ⟨hbank, hid, hpos⟩ := hw id v hv
      obtain ⟨v', rng', hadvance, hbank', hmoves, hid', hstatus, hstation⟩ :=
        advance_spec h hp hbank hinterval w.rng
      have hidv' : v'.vehicleId = id := hid'.trans hid
      obtain ⟨m, hm, hreports, hon⟩ := toMessage_spec hbank' (hidv' ▸ hpos) now
      have hw₁ : SimWorld.OnBanks { w with fleet := Function.update w.fleet id (some v'), rng := rng' } := by
        intro other u hu
        rcases update_cases hu with ⟨rfl, rfl⟩ | ⟨-, hother⟩
        · exact ⟨hbank', hidv', hpos⟩
        · exact hw other u hother
      have hother : ∀ other ∈ ids, Function.update w.fleet id (some v') other = w.fleet other :=
        fun other hmem => Function.update_of_ne (ne_of_mem_of_not_mem hmem hfirst) _ _
      obtain ⟨w', messages, hpublish, hrest⟩ := ih hnodup hw₁ fun other hmem => by
        obtain ⟨u, hu⟩ := hknown other (List.mem_cons_of_mem _ hmem)
        exact ⟨u, (hother other hmem).trans hu⟩
      have hkept : w'.fleet id = some v' := (hrest.others id hfirst).trans (Function.update_self ..)
      refine ⟨w', m :: messages, by simp [publishReadings, hv, hadvance, hm, hpublish], ?_⟩
      constructor
      · exact hrest.onBanks
      · rw [List.map_cons, hrest.vehicleIds, hreports.vehicleId, hidv']
      · intro other hmem
        rw [List.mem_cons, not_or] at hmem
        exact (hrest.others other hmem.2).trans (Function.update_of_ne hmem.1 _ _)
      · intro other hmem
        rcases List.mem_cons.mp hmem with rfl | hmem
        · exact ⟨v, v', hv, hkept, hmoves, hstatus, hstation⟩
        · obtain ⟨u, u', hu, hrest'⟩ := hrest.moves other hmem
          exact ⟨u, u', (hother other hmem).symm.trans hu, hrest'⟩
      · intro m' hm'
        rcases List.mem_cons.mp hm' with rfl | hm'
        · exact ⟨hon, v', (by rw [hreports.vehicleId, hidv']; exact hkept), hreports⟩
        · exact hrest.reports m' hm'

theorem mem_insertKeys {ids : List Int} {entries : List VehicleEntry} {id : Int} :
    id ∈ insertKeys ids entries ↔ id ∈ ids ∨ id ∈ entries.map (·.id) := by
  induction entries generalizing ids with
  | nil => simp [insertKeys]
  | cons data entries ih =>
      have hstep : insertKeys ids (data :: entries) =
          insertKeys (if data.id ∈ ids then ids else ids ++ [data.id]) entries := rfl
      rw [hstep, ih, List.map_cons, List.mem_cons]
      split
      · rename_i hmem
        constructor
        · rintro (h | h)
          · exact Or.inl h
          · exact Or.inr (Or.inr h)
        · rintro (h | rfl | h)
          · exact Or.inl h
          · exact Or.inl hmem
          · exact Or.inr h
      · simp [or_assoc]

theorem nodup_insertKeys {ids : List Int} {entries : List VehicleEntry} (h : ids.Nodup) :
    (insertKeys ids entries).Nodup := by
  induction entries generalizing ids with
  | nil => exact h
  | cons data entries ih =>
      have hstep : insertKeys ids (data :: entries) =
          insertKeys (if data.id ∈ ids then ids else ids ++ [data.id]) entries := rfl
      rw [hstep]
      apply ih
      split
      · exact h
      · rename_i hnew
        simp only [List.nodup_append, List.nodup_singleton, List.mem_singleton]
        exact ⟨h, trivial, fun a ha b hb hab => hnew (hb ▸ hab ▸ ha)⟩

structure SimLoop.Inv (s : SimLoop K) : Prop where
  onBanks : s.world.OnBanks
  nodup : s.ids.Nodup
  keys : ∀ id, id ∈ s.ids ↔ ∃ v, s.world.fleet id = some v
  published : ∀ m ∈ s.published, m.OnBank

/-- What one tick does. -/
structure SimLoop.Ticked (trig : Trig K) (interval : K) (now : AwareDatetime) (s s' : SimLoop K) : Prop where
  vehicles : ∀ id v, s.world.fleet id = some v → ∃ v', s'.world.fleet id = some v' ∧
    (v.Moves trig interval v' ∨ v.driving = true ∧ v'.driving = false ∧ v'.AtStation trig v'.stationId)
  messages : ∃ messages, s'.published = s.published ++ messages ∧ messages.map (·.vehicleId) = s'.ids ∧
    ∀ m ∈ messages, ∃ v, s'.world.fleet m.vehicleId = some v ∧ m.Reports v now

omit [IsStrictOrderedRing K] [FloorRing K] in
theorem loopInv_start (rng : Rng K) : (SimLoop.start rng).Inv := by
  constructor
  · intro id v hv
    cases hv
  · exact List.nodup_nil
  · simp [SimLoop.start, SimWorld.start]
  · intro m hm
    cases hm

variable {s : SimLoop K}

omit [FloorRing K] in
theorem loopInv_refresh (h : trig.Sound) (hs : s.Inv) {listing : ApiListing}
    (hids : ∀ data ∈ listing.entries, 0 < data.id) : (s.refresh trig listing).Inv where
  onBanks := onBanks_sync h hs.onBanks hids
  nodup := nodup_insertKeys hs.nodup
  keys id := by
    rw [show (s.refresh trig listing).ids = insertKeys s.ids listing.entries from rfl, mem_insertKeys, hs.keys]
    constructor
    · rintro (⟨v, hv⟩ | hid)
      · obtain ⟨v', hv', -⟩ := refreshed_sync trig listing hv
        exact ⟨v', hv'⟩
      · obtain ⟨data, hdata, rfl⟩ := List.mem_map.mp hid
        obtain ⟨rng', hsync⟩ := fleet_sync trig s.world listing hdata
        exact ⟨_, hsync⟩
    · rintro ⟨v, hv⟩
      by_cases hid : id ∈ listing.entries.map (·.id)
      · exact Or.inr hid
      · exact Or.inl ⟨v, (syncFleet_other hid).symm.trans hv⟩
  published := hs.published

omit [FloorRing K] in
/-- The state in which the `for` starts. -/
theorem refreshed_tick (h : trig.Sound) (hs : s.Inv) (t : SimTick)
    (hids : ∀ listing, t.fetched = some listing → ∀ data ∈ listing.entries, 0 < data.id) :
    ∃ s₁ : SimLoop K, (if s.tick % refreshEveryTicks = 0 then t.fetched.elim s (s.refresh trig) else s) = s₁ ∧
      s₁.Inv ∧ s₁.published = s.published ∧
      ∀ id v, s.world.fleet id = some v → ∃ v', s₁.world.fleet id = some v' ∧ v.Refreshed trig v' := by
  have hsame : ∀ id v, s.world.fleet id = some v → ∃ v', s.world.fleet id = some v' ∧ v.Refreshed trig v' :=
    fun id v hv => ⟨v, hv, Or.inl ⟨rfl, rfl, rfl⟩⟩
  refine ⟨_, rfl, ?_⟩
  split
  · cases hfetched : t.fetched with
    | none => exact ⟨hs, rfl, hsame⟩
    | some listing =>
        exact ⟨loopInv_refresh h hs (hids listing hfetched), rfl, fun id v hv => refreshed_sync trig listing hv⟩
  · exact ⟨hs, rfl, hsame⟩

omit [IsStrictOrderedRing K] [FloorRing K] in
theorem SimVehicle.Refreshed.moves {v v₁ v' : SimVehicle K} (hv : v.Refreshed trig v₁)
    (hmoves : v₁.Moves trig interval v') (hstatus : v'.status = v₁.status)
    (hstation : v'.stationId = v₁.stationId) :
    v.Moves trig interval v' ∨ v.driving = true ∧ v'.driving = false ∧ v'.AtStation trig v'.stationId := by
  rcases hv with ⟨hbank, hlat, hlon⟩ | ⟨hdriving, hparked, hat⟩
  · refine Or.inl ⟨hmoves.bank.trans hbank, ?_, ?_, ?_⟩
    · rw [← hbank, ← hlat, ← hlon]
      exact hmoves.line
    · rw [← hlat, ← hlon]
      exact hmoves.distance
    · rw [← hlat, ← hlon]
      exact hmoves.parked
  · have hparked' : v'.driving = false := by
      unfold SimVehicle.driving at hparked ⊢
      rw [hstatus]
      exact hparked
    refine Or.inr ⟨hdriving, hparked', ?_⟩
    unfold SimVehicle.AtStation at hat ⊢
    rw [hmoves.parked hparked', hstation]
    exact hat

theorem loop_step (h : trig.Sound) (hp : trig.Polar) (hinterval : 0 ≤ interval) (hs : s.Inv) (t : SimTick)
    (hids : ∀ listing, t.fetched = some listing → ∀ data ∈ listing.entries, 0 < data.id) :
    ∃ s', s.step trig interval t = some s' ∧ s'.Inv ∧ s.Ticked trig interval t.now s' := by
  obtain ⟨s₁, hs₁, hinv, hpublished, hrefreshed⟩ := refreshed_tick h hs t hids
  obtain ⟨w', messages, hpublish, hdone⟩ := publishReadings_spec h hp hinterval t.now hinv.nodup hinv.onBanks
    fun id hid => (hinv.keys id).mp hid
  refine ⟨{ s₁ with world := w', tick := s₁.tick + 1, published := s₁.published ++ messages },
    by simp only [SimLoop.step, hs₁, hpublish]; rfl, ?_, ?_⟩
  · constructor
    · exact hdone.onBanks
    · exact hinv.nodup
    · intro id
      by_cases hid : id ∈ s₁.ids
      · obtain ⟨-, v', -, hv', -⟩ := hdone.moves id hid
        simp [hid, hv']
      · rw [hinv.keys id] at hid
        rw [hinv.keys id, hdone.others id ((hinv.keys id).not.mpr hid)]
    · intro m hm
      rcases List.mem_append.mp hm with hm | hm
      · exact hinv.published m hm
      · exact (hdone.reports m hm).1
  · constructor
    · intro id v hv
      obtain ⟨v₁, hv₁, hstay⟩ := hrefreshed id v hv
      obtain ⟨u, v', hu, hv', hmoves, hstatus, hstation⟩ := hdone.moves id ((hinv.keys id).mpr ⟨v₁, hv₁⟩)
      obtain rfl : u = v₁ := Option.some.inj (hu.symm.trans hv₁)
      exact ⟨v', hv', hstay.moves hmoves hstatus hstation⟩
    · exact ⟨messages, by rw [hpublished], hdone.vehicleIds, fun m hm => (hdone.reports m hm).2⟩

/-! ## Runs -/

def simulate (trig : Trig K) (interval : K) (s : Option (SimLoop K)) (t : SimTick) : Option (SimLoop K) :=
  s.bind fun s => s.step trig interval t

theorem loopInv_visits (h : trig.Sound) (hp : trig.Polar) (hinterval : 0 ≤ interval) (rng : Rng K)
    (ticks : List SimTick) (hids : ∀ t ∈ ticks, ∀ listing, t.fetched = some listing →
      ∀ data ∈ listing.entries, 0 < data.id) {p : Option (SimLoop K)}
    (hvisits : Runs.Visits (simulate trig interval) (some (.start rng)) ticks p) :
    ∃ s, p = some s ∧ s.Inv := by
  have keep : ∀ p t, (∃ s, p = some s ∧ s.Inv) → t ∈ ticks →
      ∃ s, simulate trig interval p t = some s ∧ s.Inv := by
    rintro p t ⟨s, rfl, hs⟩ ht
    obtain ⟨s', hs', hinv, -⟩ := loop_step h hp hinterval hs t (hids t ht)
    exact ⟨s', hs', hinv⟩
  exact Runs.invariant_of_guarded keep ⟨_, rfl, loopInv_start rng⟩ (fun _ _ htakes => htakes.mem) p hvisits

/-- In every run, whatever the listings and the random numbers: the loop never raises, no vehicle leaves the
area of its bank, and every message that it publishes is one from there. -/
theorem simulator_never_raises (h : trig.Sound) (hp : trig.Polar) (hinterval : 0 ≤ interval) (rng : Rng K)
    (ticks : List SimTick) (hids : ∀ t ∈ ticks, ∀ listing, t.fetched = some listing →
      ∀ data ∈ listing.entries, 0 < data.id) {p : Option (SimLoop K)}
    (hvisits : Runs.Visits (simulate trig interval) (some (.start rng)) ticks p) :
    ∃ s, p = some s ∧ (∀ id v, s.world.fleet id = some v → v.OnBank) ∧ ∀ m ∈ s.published, m.OnBank := by
  obtain ⟨s, hs, hinv⟩ := loopInv_visits h hp hinterval rng ticks hids hvisits
  exact ⟨s, hs, fun id v hv => (hinv.onBanks id v hv).1, hinv.published⟩

/-- In every tick of a run: the vehicles drive on straight lines to hubs of their own bank, no faster than the
fastest drive, unless a ride has ended and the vehicle is parked, and each has one message about where it is. -/
theorem vehicles_keep_to_lines (h : trig.Sound) (hp : trig.Polar) (hinterval : 0 ≤ interval) (rng : Rng K)
    (ticks : List SimTick) (hids : ∀ t ∈ ticks, ∀ listing, t.fetched = some listing →
      ∀ data ∈ listing.entries, 0 < data.id) {p : Option (SimLoop K)} {t : SimTick}
    (htakes : Runs.Takes (simulate trig interval) (some (.start rng)) ticks p t) :
    ∃ s s', p = some s ∧ s.step trig interval t = some s' ∧ s.Ticked trig interval t.now s' := by
  obtain ⟨s, rfl, hinv⟩ := loopInv_visits h hp hinterval rng ticks hids htakes.visits
  obtain ⟨s', hs', -, hticked⟩ := loop_step h hp hinterval hinv t (hids t htakes.mem)
  exact ⟨s, s', rfl, hs', hticked⟩

end Loop

end Driving

/-! ## One ride -/

theorem realTrig_polar : realTrig.Polar where
  hypot_mul_cos x y := by
    have h := Complex.norm_mul_cos_arg ⟨x, y⟩
    rwa [Complex.norm_eq_sqrt_sq_add_sq] at h
  hypot_mul_sin x y := by
    have h := Complex.norm_mul_sin_arg ⟨x, y⟩
    rwa [Complex.norm_eq_sqrt_sq_add_sq] at h
  hypot_scale a x y ha := by
    simp only [realTrig]
    rw [show (a * x) ^ 2 + (a * y) ^ 2 = a ^ 2 * (x ^ 2 + y ^ 2) by ring,
      Real.sqrt_mul (sq_nonneg a), Real.sqrt_sq ha]
  abs_le_hypot x y := Real.abs_le_sqrt (by nlinarith [sq_nonneg y])

/-- A ride that starts at the second refresh. -/
def oneRide : List SimTick :=
  let now : AwareDatetime := ⟨0, 0, by decide, by decide⟩
  [⟨some (listOne 1 .available), now⟩, ⟨none, now⟩, ⟨none, now⟩, ⟨none, now⟩, ⟨none, now⟩,
    ⟨some (listOne 1 .rented), now⟩]

theorem oneRide_ids : ∀ t ∈ oneRide, ∀ listing, t.fetched = some listing →
    ∀ data ∈ listing.entries, 0 < data.id := by
  intro t ht listing hlisting data hdata
  simp only [oneRide, List.mem_cons, List.not_mem_nil, or_false] at ht
  rcases ht with rfl | rfl | rfl | rfl | rfl | rfl <;>
    simp only [Option.some.injEq, reduceCtorEq] at hlisting <;> subst hlisting <;>
    simp only [listOne, List.mem_singleton] at hdata <;> subst hdata <;> decide

theorem oneRide_runs : ∃ s, Runs.run (simulate realTrig 2) (some (.start lowest)) oneRide = some s ∧
    (∀ id v, s.world.fleet id = some v → v.OnBank) ∧ ∀ m ∈ s.published, m.OnBank :=
  simulator_never_raises realTrig_sound realTrig_polar (by norm_num) lowest oneRide oneRide_ids
    (Runs.Visits.last _ _)

theorem oneRide_drives : ∃ s s', Runs.run (simulate realTrig 2) (some (.start lowest)) (oneRide.take 5) = some s ∧
    s.step realTrig 2 ⟨some (listOne 1 .rented), ⟨0, 0, by decide, by decide⟩⟩ = some s' ∧
      s.Ticked realTrig 2 ⟨0, 0, by decide, by decide⟩ s' :=
  vehicles_keep_to_lines realTrig_sound realTrig_polar (by norm_num) lowest oneRide oneRide_ids
    ⟨oneRide.take 5, by exact List.prefix_rfl, rfl⟩

end FleetManagement
