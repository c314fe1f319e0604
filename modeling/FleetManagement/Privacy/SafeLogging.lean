import FleetManagement.Privacy.LogRecords
import FleetManagement.Privacy.Rebuilding

/-!
# Records that can be logged

When the filter returns: the values can be rebuilt, and formatting the message raises nothing but what
`_safe_message` catches.
-/

namespace FleetManagement

open PyFormat

/-! ## Formatting -/

/-- Operands without texts. -/
def bare : Formatter Operand := ⟨id, fun _ _ _ => []⟩

/-- The relation of all texts. -/
def AnyTexts (_ _ : Text) : Prop := True

theorem anyTexts_additive : Additive AnyTexts := ⟨trivial, fun _ => trivial, fun _ _ => trivial⟩

/-- What `_safe_message` catches. -/
def caught : Except PyError Text → Bool
  | .ok _ | .error .typeError | .error .valueError => true
  | _ => false

/-- The operand that the sanitized value of a key is. -/
def seenUnder (t : TextTables) (key : Text) (v : PyValue) : Operand :=
  if isSecretKey t key then .other
  else
    match v with
    | .str s => if isNameKey t key then .other else seen (.str s)
    | v => seen v

/-- Formatting with the operands of the arguments. -/
def LogArgs.formatSeen (t : TextTables) (msg : Text) : LogArgs → Except PyError Text
  | .none => .ok msg
  | .tuple items => percent bare Option.none (items.map seen) msg
  | .dict items => percent bare (some fun key => (lookupStr items key).map (seenUnder t key)) [.other] msg

/-- The values of the arguments can be sanitized. -/
def LogArgs.Rebuilds (t : TextTables) : LogArgs → Prop
  | .none => True
  | .tuple items => ∀ v ∈ items, FleetManagement.Rebuilds t v
  | .dict items => ∀ p ∈ items, isSecretKey t (keyText t p.1) = false → FleetManagement.Rebuilds t p.2

/-- Nothing in the record makes the filter raise. -/
structure LogRecord.Safe (t : TextTables) (record : LogRecord) : Prop where
  args : record.args.Rebuilds t
  message : record.args.truthy = true → caught (record.args.formatSeen t record.msg) = true
  extra : ∀ p ∈ record.extra, isSecretKey t p.1 = false → Rebuilds t p.2
  named : record.unnamed = []

section Logging
variable {t : TextTables} {key msg : Text} {v r : PyValue} {args args' : LogArgs} {record : LogRecord}

theorem caught_of_sameOutcome {S : Text → Text → Prop} {x y : Except PyError Text} (h : SameOutcome S x y) :
    caught x = caught y := by
  cases x with
  | ok a =>
      cases y with
      | ok b => rfl
      | error e => exact absurd h id
  | error e =>
      cases y with
      | ok b => exact absurd h id
      | error e' =>
          obtain rfl : e = e' := h
          cases e <;> rfl

theorem operandOf_maskName (s : Text) : operandOf (.str (maskName s)) = .other := by
  cases s with
  | nil => rfl
  | cons c s => rfl

theorem operandOf_item (h : sanitizeItem t key v = .ok r) : operandOf r = seenUnder t key v := by
  unfold seenUnder
  cases hsecret : isSecretKey t key with
  | true =>
      rw [sanitizeItem_secret hsecret] at h
      cases h
      rfl
  | false =>
      by_cases hname : isNameKey t key = true ∧ ∃ s, v = .str s
      · obtain ⟨hname, s, rfl⟩ := hname
        rw [sanitizeItem_name hsecret hname] at h
        cases h
        simp [hname, operandOf_maskName]
      · have hno : isNameKey t key = true → ∀ s, v ≠ .str s := fun hk s hs => hname ⟨hk, s, hs⟩
        rw [sanitizeItem_other hsecret hno] at h
        rw [(resembles_of_ok h).operand]
        cases v with
        | str s => simp [Bool.eq_false_iff.mpr fun hk => hno hk s rfl]
        | _ => rfl

/-- What stands under a key, before and after. -/
theorem lookupStr_sanitized {β : Type} {R : PyValue → β → Prop} {g : PyValue → β} {items rs : List (PyValue × PyValue)}
    (h : sanitizeItems t items = .ok rs)
    (hR : ∀ v r, (.str key, v) ∈ items → sanitizeItem t key v = .ok r → R r (g v)) :
    Option.Rel R (lookupStr rs key) ((lookupStr items key).map g) := by
  rw [sanitizeItems_ok] at h
  induction h with
  | nil => exact .none
  | @cons p q items rs hpq _ ih =>
      obtain ⟨k, v⟩ := p
      obtain ⟨k', r⟩ := q
      obtain ⟨rfl, hr⟩ := hpq
      have hlater := ih fun v r hv => hR v r (List.mem_cons_of_mem _ hv)
      unfold lookupStr at hlater ⊢
      rw [List.findSome?_cons, List.findSome?_cons]
      cases k' with
      | str s =>
          by_cases hs : s = key
          · subst hs
            simp only [if_true]
            exact .some (hR v r List.mem_cons_self hr)
          · simp only [hs, if_false]
            exact hlater
      | _ => exact hlater

theorem sameOperands_values {vs rs : List PyValue} (h : sanitizeValues t vs = .ok rs) :
    SameOperands (formatter t.isPrintable t.number) bare AnyTexts rs (vs.map seen) := by
  have hresembles := resembles_of_values h fun v _ r hr => resembles_of_ok hr
  refine List.forall₂_map_right_iff.mpr (hresembles.flip.imp fun r v hvr => ⟨hvr.operand, fun _ _ _ => trivial⟩)

/-- Formatting with the sanitized arguments ends as the operands of the arguments say. -/
theorem format_seen (h : sanitizeArgs t args = .ok args') :
    caught (args'.format t msg) = caught (args.formatSeen t msg) := by
  cases args with
  | none =>
      cases h
      rfl
  | tuple items =>
      obtain ⟨rs, hrs, h⟩ := PyValue.bind_ok.mp h
      cases h
      have hmapping : SameMapping (formatter t.isPrintable t.number) bare AnyTexts none none := trivial
      exact caught_of_sameOutcome (percent_alike anyTexts_additive hmapping (sameOperands_values hrs) msg)
  | dict items =>
      obtain ⟨rs, hrs, h⟩ := PyValue.bind_ok.mp h
      cases h
      have hmapping : SameMapping (formatter t.isPrintable t.number) bare AnyTexts (some (lookupStr rs))
        (some fun key => (lookupStr items key).map (seenUnder t key)) := fun key =>
          lookupStr_sanitized hrs fun v r _ hr => ⟨operandOf_item hr, fun _ _ _ => trivial⟩
      exact caught_of_sameOutcome (percent_alike anyTexts_additive hmapping (.cons ⟨rfl, fun _ _ _ => trivial⟩ .nil) msg)

theorem sanitizeArgs_ok_iff : (∃ args', sanitizeArgs t args = .ok args') ↔ args.Rebuilds t := by
  cases args with
  | none => exact ⟨fun _ => trivial, fun _ => ⟨_, rfl⟩⟩
  | tuple items =>
      refine ok_bind_ok.trans (sanitizeValues_ok_iff.trans ?_)
      exact forall₂_congr fun v _ => sanitizes_iff
  | dict items =>
      refine ok_bind_ok.trans (sanitizeItems_ok_iff.trans ?_)
      exact forall₂_congr fun p _ => imp_congr_right fun _ => sanitizes_iff

theorem truthy_sanitizeArgs (h : sanitizeArgs t args = .ok args') : args'.truthy = args.truthy := by
  have hempty : ∀ {α β : Type} {R : α → β → Prop} {as : List α} {bs : List β}, List.Forall₂ R as bs →
      (!bs.isEmpty) = !as.isEmpty := fun h => by
    cases h <;> rfl
  cases args with
  | none =>
      cases h
      rfl
  | tuple items =>
      obtain ⟨rs, hrs, h⟩ := PyValue.bind_ok.mp h
      cases h
      exact hempty (sanitizeValues_ok.mp hrs)
  | dict items =>
      obtain ⟨rs, hrs, h⟩ := PyValue.bind_ok.mp h
      cases h
      exact hempty (sanitizeItems_ok.mp hrs)

theorem safeMessage_ok_iff :
    (∃ text, safeMessage t record = .ok text) ↔ caught (record.getMessage t) = true := by
  unfold safeMessage
  cases record.getMessage t with
  | ok text => exact ⟨fun _ => rfl, fun _ => ⟨text, rfl⟩⟩
  | error e => cases e <;> simp [caught]

/-! ## Extras -/

theorem sanitizeExtra_ok_iff :
    (∃ r, sanitizeExtra t key v = .ok r) ↔ (isSecretKey t key = false → Rebuilds t v) := by
  rw [← sanitizes_iff, ← sanitizeItem_ok_iff]
  constructor
  · rintro ⟨r, h⟩
    obtain ⟨cleaned, hcleaned, -⟩ := PyValue.bind_ok.mp h
    exact ⟨cleaned, hcleaned⟩
  · rintro ⟨cleaned, h⟩
    unfold sanitizeExtra
    rw [h]
    cases cleaned <;> exact ⟨_, rfl⟩

theorem sanitizeExtras_ok_iff {extra : List (Text × PyValue)} : (∃ rs, sanitizeExtras t extra = .ok rs) ↔
    ∀ p ∈ extra, isSecretKey t p.1 = false → Rebuilds t p.2 := by
  induction extra with
  | nil => exact ⟨fun _ p hp => (by cases hp), fun _ => ⟨[], rfl⟩⟩
  | cons p extra ih =>
      obtain ⟨key, v⟩ := p
      rw [List.forall_mem_cons, ← ih, ← sanitizeExtra_ok_iff]
      constructor
      · rintro ⟨rs, h⟩
        obtain ⟨r, hr, h⟩ := PyValue.bind_ok.mp h
        obtain ⟨rs', hrs, -⟩ := PyValue.bind_ok.mp h
        exact ⟨⟨r, hr⟩, rs', hrs⟩
      · rintro ⟨⟨r, hr⟩, rs, hrs⟩
        exact ⟨(key, r) :: rs, by rw [sanitizeExtras, hr, hrs]; rfl⟩

theorem setUnnamed_ok_iff : record.setUnnamed t = .ok () ↔ record.unnamed = [] := by
  unfold LogRecord.setUnnamed
  cases record.unnamed with
  | nil => exact ⟨fun _ => rfl, fun _ => rfl⟩
  | cons p rest =>
      refine ⟨fun h => ?_, fun h => (by cases h)⟩
      dsimp only at h
      split at h
      · obtain ⟨_, -, h⟩ := PyValue.bind_ok.mp h
        cases h
      · cases h

/-! ## Records -/

theorem rebuilds_of_falsy (h : args.truthy = false) : args.Rebuilds t := by
  match args, h with
  | .none, _ => trivial
  | .tuple [], _ => exact fun v hv => by cases hv
  | .dict [], _ => exact fun p hp => by cases hp

/-- The arguments and the message of the record are ready for the rest. -/
theorem formatted_ok_iff : (∃ args text, cleanArgs t record.args = .ok args ∧
      safeMessage t { record with args } = .ok text) ↔
    record.args.Rebuilds t ∧
      (record.args.truthy = true → caught (record.args.formatSeen t record.msg) = true) := by
  unfold cleanArgs
  cases htruthy : record.args.truthy with
  | false =>
      have hmessage : ∃ text, safeMessage t { record with args := record.args } = .ok text := by
        rw [safeMessage_ok_iff, LogRecord.getMessage, htruthy]
        rfl
      obtain ⟨text, htext⟩ := hmessage
      exact ⟨fun _ => ⟨rebuilds_of_falsy htruthy, fun h => (by cases h)⟩, fun _ =>
        ⟨record.args, text, rfl, htext⟩⟩
  | true =>
      have hmessage : ∀ args, sanitizeArgs t record.args = .ok args →
          ((∃ text, safeMessage t { record with args } = .ok text) ↔
            caught (record.args.formatSeen t record.msg) = true) := fun args hargs => by
        rw [safeMessage_ok_iff, LogRecord.getMessage, truthy_sanitizeArgs hargs, htruthy, if_pos rfl,
          format_seen hargs]
      simp only [if_true, forall_const]
      rw [← sanitizeArgs_ok_iff]
      constructor
      · rintro ⟨args, text, hargs, htext⟩
        exact ⟨⟨args, hargs⟩, (hmessage args hargs).mp ⟨text, htext⟩⟩
      · rintro ⟨⟨args, hargs⟩, hcaught⟩
        obtain ⟨text, htext⟩ := (hmessage args hargs).mpr hcaught
        exact ⟨args, text, hargs, htext⟩

theorem sanitizeRecord_ok_iff {context : Option Text} :
    (∃ r, sanitizeRecord t context record = .ok r) ↔ truthy record.piiSanitized = true ∨ record.Safe t := by
  unfold sanitizeRecord
  dsimp only
  cases hsanitized : truthy record.piiSanitized with
  | true => exact ⟨fun _ => .inl rfl, fun _ => ⟨_, rfl⟩⟩
  | false =>
      have hformatted : (∃ args text, cleanArgs t record.args = .ok args ∧
          safeMessage t { record with correlationId := record.correlation context, args } = .ok text) ↔
          record.args.Rebuilds t ∧
            (record.args.truthy = true → caught (record.args.formatSeen t record.msg) = true) :=
        formatted_ok_iff
      have hsafe : record.Safe t ↔ (∃ args text, cleanArgs t record.args = .ok args ∧
          safeMessage t { record with correlationId := record.correlation context, args } = .ok text) ∧
          record.setUnnamed t = .ok () ∧ ∃ extra, sanitizeExtras t record.extra = .ok extra := by
        rw [sanitizeExtras_ok_iff, setUnnamed_ok_iff, hformatted]
        exact ⟨fun h => ⟨⟨h.args, h.message⟩, h.named, h.extra⟩, fun h => ⟨h.1.1, h.1.2, h.2.2, h.2.1⟩⟩
      simp only [Bool.false_eq_true, if_false, false_or]
      rw [hsafe]
      constructor
      · rintro ⟨r, h⟩
        obtain ⟨args, hargs, h⟩ := PyValue.bind_ok.mp h
        obtain ⟨text, htext, h⟩ := PyValue.bind_ok.mp h
        obtain ⟨⟨⟩, hnamed, h⟩ := PyValue.bind_ok.mp h
        obtain ⟨extra, hextra, -⟩ := PyValue.bind_ok.mp h
        exact ⟨⟨args, text, hargs, htext⟩, hnamed, extra, hextra⟩
      · rintro ⟨⟨args, text, hargs, htext⟩, hnamed, extra, hextra⟩
        exact ⟨_, PyValue.bind_ok.mpr ⟨args, hargs, PyValue.bind_ok.mpr ⟨text, htext,
          PyValue.bind_ok.mpr ⟨(), hnamed, PyValue.bind_ok.mpr ⟨extra, hextra, rfl⟩⟩⟩⟩⟩

end Logging

end FleetManagement
