import FleetManagement.Telemetry.Worker

/-!
# Bodies that are requeued forever

How `handle_message` settles a delivery while PostgreSQL and Redis work.
-/

namespace FleetManagement

variable {Body Json : Type}

def calmSettlements (pydantic : Pydantic Body Json) (body : Body) (db : Database) (redis : Redis) :
    List Settlement :=
  ((handleMessage pydantic body).eval device (fun _ => .calm) ⟨db, none, redis, []⟩ 0).state.settled

/-- The broker will not deliver the message again. -/
def SettledForGood (settlements : List Settlement) : Prop :=
  settlements = [.ack] ∨ settlements = [.reject false]

instance (settlements : List Settlement) : Decidable (SettledForGood settlements) :=
  inferInstanceAs (Decidable (_ ∨ _))

theorem isInteger_iff_le {m : TelemetryMessage} : isInteger m.vehicleId ↔ m.vehicleId ≤ maxInteger := by
  have := m.vehicleId_pos
  simp only [isInteger, maxInteger, decide_eq_true_eq]
  omega

/-- A message that passes validation is settled for good exactly when the values that reach the database
fit its columns: a message of an unknown vehicle reaches it with its `vehicle_id` alone. -/
theorem settledForGood_iff_fits (pydantic : Pydantic Body Json) (body : Body) (db : Database)
    (redis : Redis) :
    SettledForGood (calmSettlements pydantic body db redis) ↔
      ∀ m, TelemetryMessage.modelValidateJson pydantic body = some m →
        m.vehicleId ≤ maxInteger ∧ ((db.vehicles.find? m.vehicleId).isSome →
          representable m.recordedAt.instant ∧
            db.telemetryReadings.seq < Keyed.maxKey TelemetryReading) := by
  cases hv : TelemetryMessage.modelValidateJson pydantic body with
  | none =>
      have hs := ensures_invalid (fun _ => .calm) (s := ⟨db, none, redis, []⟩) (n := 0) hv
      have hreject : calmSettlements pydantic body db redis = [.reject false] :=
        congrArg Backend.settled hs
      rw [hreject]
      exact ⟨fun _ m hm => (by cases hm), fun _ => Or.inr rfl⟩
  | some m =>
      obtain ⟨x, db', redis', hx, hs⟩ :=
        ensures_handleMessage (fun _ => .calm) (s := ⟨db, none, redis, []⟩) hv rfl
      have hsettled : calmSettlements pydantic body db redis = [x] := congrArg Backend.settled hs
      have hcalm : databaseWorks (fun _ => .calm) 0 := ⟨rfl, rfl, rfl⟩
      rw [hsettled]
      cases hx with
      | rejected hi h =>
          refine ⟨fun _ m' hm' => ?_, fun _ => Or.inr rfl⟩
          cases hm'
          exact ⟨isInteger_iff_le.mp hi, fun hknown => by rw [h] at hknown; cases hknown⟩
      | failed h =>
          refine ⟨fun h' => (by rcases h' with h' | h' <;> cases h'), fun hfits => ?_⟩
          obtain ⟨hle, hreach⟩ := hfits m rfl
          rcases h with h | hi | ⟨hknown, hfit⟩
          · exact absurd hcalm h
          · rw [isInteger_iff_le.mpr hle] at hi; cases hi
          · exact absurd ⟨isInteger_iff_le.mpr hle, hreach hknown⟩ hfit
      | stored _ hdb => exact absurd hcalm hdb
      | cached h _ hc =>
          rw [hc.settlementOf_eq_ack rfl rfl]
          refine ⟨fun _ m' hm' => ?_, fun _ => Or.inl rfl⟩
          cases hm'
          exact ⟨isInteger_iff_le.mp h.fits.1, fun _ => h.fits.2⟩

/-- The body of a vehicle whose id is the first that an `INTEGER` cannot hold. -/
theorem large_vehicle_id_is_requeued :
    ¬ SettledForGood (calmSettlements samplePydantic
      (sampleBody 2147483648 (utcClock 1789466400000000) 72) oneVehicle Redis.empty) := by
  decide

end FleetManagement
