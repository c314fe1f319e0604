import FleetManagement.Privacy.SafeLogging
import FleetManagement.Privacy.WritableValues

/-!
# Faithful log lines

A JSON line has the fields of its record and the extras, each under its own name, unless an extra has the name
of a field or of an attribute that the layer itself uses.
-/

namespace FleetManagement

/-- The sanitized message. -/
def LogRecord.cleanMessage (t : TextTables) (record : LogRecord) : Except PyError Text := do
  let args ← cleanArgs t record.args
  return sanitizeText t.toCharTables (← safeMessage t { record with args })

/-- The names of the fields, and those of the layer's own attributes, that an extra may have. -/
def takenNames : List Text :=
  ["timestamp", "level", "logger", "correlation_id", "exception", "_pii_sanitized"].map String.toList

section Lines
variable {t : TextTables} {context : Option Text} {call : LogCall} {record r : LogRecord} {message : Text}
  {members : List (Text × Json)}

/-! ## Making records -/

/-- The record but for what extras can set. -/
def LogRecord.core (record : LogRecord) : LogRecord :=
  { record with correlationId := .none, piiSanitized := .bool false, extra := [] }

theorem core_setAttr (key : Text) (value : PyValue) : (record.setAttr key value).core = record.core := by
  unfold LogRecord.setAttr
  split
  · rfl
  · split
    · rfl
    · rfl

theorem extra_setAttr_own {key : Text} {value : PyValue} (h : key ∈ ownAttrs) :
    (record.setAttr key value).extra = record.extra := by
  have hkeys : key = "correlation_id".toList ∨ key = "_pii_sanitized".toList := by simpa [ownAttrs] using h
  unfold LogRecord.setAttr
  rcases hkeys with rfl | rfl
  · rfl
  · rfl

theorem setAttr_other {key : Text} {value : PyValue} (h : key ∉ ownAttrs) :
    record.setAttr key value = { record with extra := record.extra ++ [(key, value)] } := by
  have hkeys : ¬ key = "correlation_id".toList ∧ ¬ key = "_pii_sanitized".toList := by simpa [ownAttrs] using h
  rw [LogRecord.setAttr, if_neg hkeys.1, if_neg hkeys.2]

theorem core_addExtra {extra : List (Text × PyValue)} (h : addExtra record extra = .ok r) :
    r.core = record.core ∧ ∀ p ∈ extra, p.1 ≠ "message".toList := by
  induction extra generalizing record with
  | nil =>
      cases h
      exact ⟨rfl, fun p hp => (by cases hp)⟩
  | cons p extra ih =>
      obtain ⟨key, value⟩ := p
      rw [addExtra] at h
      split at h
      · cases h
      · rename_i hkey
        obtain ⟨hcore, hnames⟩ := ih h
        rw [not_or] at hkey
        exact ⟨hcore.trans (core_setAttr key value), List.forall_mem_cons.mpr ⟨hkey.1, hnames⟩⟩

theorem extra_addExtra {extra : List (Text × PyValue)} (h : addExtra record extra = .ok r) :
    r.extra = record.extra ++ extra.filter fun p => p.1 ∉ ownAttrs := by
  induction extra generalizing record with
  | nil =>
      cases h
      simp
  | cons p extra ih =>
      obtain ⟨key, value⟩ := p
      rw [addExtra] at h
      split at h
      · cases h
      · rw [ih h]
        by_cases hown : key ∈ ownAttrs
        · simp [extra_setAttr_own hown, hown]
        · simp [setAttr_other hown, hown]

theorem addExtra_of_other {extra : List (Text × PyValue)} (h : addExtra record extra = .ok r)
    (hother : ∀ p ∈ extra, p.1 ∉ ownAttrs) : r = { record with extra := record.extra ++ extra } := by
  induction extra generalizing record with
  | nil =>
      cases h
      simp
  | cons p extra ih =>
      obtain ⟨key, value⟩ := p
      obtain ⟨hkey, hother⟩ := List.forall_mem_cons.mp hother
      rw [addExtra] at h
      split at h
      · cases h
      · rw [ih h hother, setAttr_other hkey]
        simp

/-- The record that a call makes. -/
structure Made (call : LogCall) (record : LogRecord) : Prop where
  core : record.core = call.record
  extra : record.extra = call.extra.filter fun p => p.1 ∉ ownAttrs
  other : (∀ p ∈ call.extra, p.1 ∉ ownAttrs) → record = { call.record with extra := call.extra }
  message : ∀ p ∈ call.extra, p.1 ≠ "message".toList

theorem made_of_makeRecord (h : makeRecord call = .ok record) : Made call record where
  core := (core_addExtra h).1
  extra := extra_addExtra h
  other := addExtra_of_other h
  message := (core_addExtra h).2

/-! ## Sanitized records -/

/-- What `sanitize_record` makes of a record that is not sanitized yet. -/
structure Sanitized (t : TextTables) (context : Option Text) (record r : LogRecord) : Prop where
  name : r.name = record.name
  levelname : r.levelname = record.levelname
  created : r.created = record.created
  correlationId : r.correlationId = record.correlation context
  args : r.args = .none
  message : record.cleanMessage t = .ok r.msg
  excText : record.excText = none → r.excText = record.excInfo.map (sanitizeText t.toCharTables)
  named : record.unnamed = [] ∧ r.unnamed = []
  extra : sanitizeExtras t record.extra = .ok r.extra

theorem safeMessage_congr (hmsg : record.msg = r.msg) (hargs : record.args = r.args) :
    safeMessage t record = safeMessage t r := by
  unfold safeMessage LogRecord.getMessage
  rw [hmsg, hargs]

theorem sanitized_of_ok (hno : truthy record.piiSanitized = false) (h : sanitizeRecord t context record = .ok r) :
    Sanitized t context record r := by
  unfold sanitizeRecord at h
  simp only [hno, Bool.false_eq_true, if_false] at h
  obtain ⟨args, hargs, h⟩ := PyValue.bind_ok.mp h
  obtain ⟨text, htext, h⟩ := PyValue.bind_ok.mp h
  obtain ⟨⟨⟩, hnamed, h⟩ := PyValue.bind_ok.mp h
  obtain ⟨extra, hextra, h⟩ := PyValue.bind_ok.mp h
  have hempty : record.unnamed = [] := setUnnamed_ok_iff.mp hnamed
  have hmessage : safeMessage t { record with args } = .ok text := by
    rw [← htext]
    exact safeMessage_congr rfl rfl
  have hclean : record.cleanMessage t = .ok (sanitizeText t.toCharTables text) := by
    rw [LogRecord.cleanMessage, hargs]
    show (safeMessage t { record with args } >>= _) = _
    rw [hmessage]
    rfl
  cases h
  refine ⟨rfl, rfl, rfl, rfl, rfl, ?_, ?_, ⟨hempty, hempty⟩, ?_⟩
  · dsimp only
    exact hclean
  · intro hnone
    simp only [hnone]
    cases record.excInfo with
    | none => rfl
    | some s => rfl
  · exact hextra

theorem sanitizeExtras_ok {extra rs : List (Text × PyValue)} : sanitizeExtras t extra = .ok rs ↔
    List.Forall₂ (fun p q => q.1 = p.1 ∧ sanitizeExtra t p.1 p.2 = .ok q.2) extra rs := by
  refine PyValue.listed_ok (by rw [sanitizeExtras]; rfl) fun p extra rs => ?_
  obtain ⟨key, v⟩ := p
  rw [sanitizeExtras, PyValue.bind_ok]
  constructor
  · rintro ⟨r, hr, h⟩
    obtain ⟨rs', hrs, h⟩ := PyValue.bind_ok.mp h
    exact ⟨(key, r), rs', ⟨rfl, hr⟩, hrs, (Except.ok.inj h).symm⟩
  · rintro ⟨⟨key', r⟩, rs', ⟨rfl, hr⟩, hrs, rfl⟩
    exact ⟨r, hr, PyValue.bind_ok.mpr ⟨rs', hrs, rfl⟩⟩

theorem keys_of_forall₂ {α β : Type} {R : Text × α → Text × β → Prop} {as : List (Text × α)}
    {bs : List (Text × β)} (hR : ∀ a b, R a b → b.1 = a.1) (h : List.Forall₂ R as bs) :
    bs.map Prod.fst = as.map Prod.fst := by
  induction h with
  | nil => rfl
  | cons hab _ ih => rw [List.map_cons, List.map_cons, hR _ _ hab, ih]

/-! ## Members -/

/-- The members of the line have the items of the payload. -/
def Encodes (t : TextTables) (items : List (Text × PyValue)) (members : List (Text × Json)) : Prop :=
  List.Forall₂ (fun p m => m.1 = p.1 ∧ p.2.toJson t.isPrintable = .ok m.2) items members

theorem named_ok {items : List (Text × PyValue)} :
    PyValue.itemsToJson t.isPrintable (named items) = .ok members ↔ Encodes t items members := by
  rw [named, PyValue.itemsToJson_ok, List.forall₂_map_left_iff, Encodes]
  have hkey : ∀ (p : Text × PyValue) (m : Text × Json), PyValue.keyJson (.str p.1) = .ok m.1 ↔ m.1 = p.1 :=
    fun p m => ⟨fun h => (Except.ok.inj h).symm, fun h => congrArg Except.ok h.symm⟩
  simp only [hkey]

theorem jsonMembers_ok : jsonMembers t context record = .ok members ↔
    ∃ r, sanitizeRecord t context record = .ok r ∧ ∃ message, r.getMessage t = .ok message ∧
      ∃ items, r.lineItems message = .ok items ∧ PyValue.itemsToJson t.isPrintable items = .ok members := by
  unfold jsonMembers
  simp only [PyValue.bind_ok]

theorem lineItems_of_named (h : record.unnamed = []) :
    record.lineItems message = .ok (named (record.payload message)) := by
  rw [LogRecord.lineItems, h]
  rfl

theorem Encodes.keys {items : List (Text × PyValue)} (h : Encodes t items members) :
    members.map Prod.fst = items.map Prod.fst := keys_of_forall₂ (fun _ _ hm => hm.1) h

theorem Encodes.lookup {items : List (Text × PyValue)} (h : Encodes t items members)
    (hdistinct : (items.map Prod.fst).Nodup) {key : Text} {v : PyValue} (hmem : (key, v) ∈ items) :
    ∃ j, v.toJson t.isPrintable = .ok j ∧ members.lookup key = some j := by
  obtain ⟨m, hm, hkey, hj⟩ := exists_mem_of_forall₂ h _ hmem
  obtain ⟨key', j⟩ := m
  obtain rfl : key' = key := hkey
  exact ⟨j, hj, PyDict.lookup_of_mem (h.keys ▸ hdistinct) hm⟩

def fieldNames : List Text := ["timestamp", "level", "logger", "correlation_id", "message"].map String.toList

/-- The assignments of a line, in their order. -/
def LogRecord.items (record : LogRecord) (message : Text) : List (Text × PyValue) :=
  record.fields message ++ (record.extraItems ++ record.exceptionItems)

theorem payload_eq : record.payload message =
    PyDict.update (record.fields message) (record.extraItems ++ record.exceptionItems) :=
  PyDict.update_append.symm

theorem perm_extraItems : record.extraItems.Perm record.extra := List.mergeSort_perm _ _

theorem distinct_items_iff (hextra : (record.extra.map Prod.fst).Nodup) :
    ((record.items message).map Prod.fst).Nodup ↔
      ∀ p ∈ record.extra, p.1 ∉ fieldNames ∧ p.1 ∉ record.exceptionItems.map Prod.fst := by
  have hkeys : (record.extraItems.map Prod.fst).Perm (record.extra.map Prod.fst) := perm_extraItems.map _
  have hfields : fieldNames.Nodup := by decide
  have hexception : (record.exceptionItems.map Prod.fst).Nodup ∧
      ∀ key ∈ record.exceptionItems.map Prod.fst, key ∉ fieldNames := by
    unfold LogRecord.exceptionItems
    split
    · split
      · simp
      · simp only [List.map_cons, List.map_nil, List.nodup_singleton, List.mem_singleton, forall_eq, true_and]
        decide
    · simp
  rw [LogRecord.items, List.map_append, List.map_append]
  show (fieldNames ++ _).Nodup ↔ _
  rw [List.nodup_append', List.nodup_append', hkeys.nodup_iff, List.disjoint_append_right]
  constructor
  · rintro ⟨-, ⟨-, -, hlast⟩, hfirst, -⟩ p hp
    have hmem : p.1 ∈ record.extraItems.map Prod.fst := hkeys.mem_iff.mpr (List.mem_map_of_mem hp)
    exact ⟨fun h => hfirst h hmem, fun h => hlast hmem h⟩
  · intro h
    have hmem : ∀ key ∈ record.extraItems.map Prod.fst,
        key ∉ fieldNames ∧ key ∉ record.exceptionItems.map Prod.fst := fun key hkey => by
      obtain ⟨p, hp, rfl⟩ := List.mem_map.mp (hkeys.mem_iff.mp hkey)
      exact h p hp
    exact ⟨hfields, ⟨hextra, hexception.1, fun key hkey => (hmem key hkey).2⟩,
      fun key hfield hkey => (hmem key hkey).1 hfield, fun key hfield hkey => hexception.2 key hkey hfield⟩

theorem exceptionItems_eq {traceback : Option Text} (h : record.excText = traceback)
    (hsome : ∀ s ∈ traceback, s ≠ []) :
    record.exceptionItems = (traceback.map fun s => ("exception".toList, PyValue.str s)).toList := by
  unfold LogRecord.exceptionItems
  rw [h]
  cases traceback with
  | none => rfl
  | some s => simp [hsome s rfl]

theorem Made.unnamed (h : Made call record) : record.unnamed = call.unnamed :=
  congrArg LogRecord.unnamed h.core

theorem Made.excText (h : Made call record) : record.excText = none := congrArg LogRecord.excText h.core

theorem Made.excInfo (h : Made call record) : ∀ s ∈ record.excInfo, s ≠ [] := by
  have hinfo : record.excInfo = call.excInfo.map Subtype.val := congrArg LogRecord.excInfo h.core
  rw [hinfo]
  rintro s hs rfl
  obtain ⟨⟨s, hne⟩, -, rfl⟩ := Option.mem_map.mp hs
  exact hne rfl

theorem Sanitized.exceptionItems (h : Sanitized t context record r) (hmade : Made call record) :
    r.exceptionItems =
      (record.excInfo.map fun s => ("exception".toList, PyValue.str (sanitizeText t.toCharTables s))).toList := by
  have hsome : ∀ s ∈ record.excInfo.map (sanitizeText t.toCharTables), s ≠ [] := by
    rintro _ hs rfl
    obtain ⟨s, hs, hempty⟩ := Option.mem_map.mp hs
    rcases keepsLength_sanitizeText t.toCharTables s with hsame | ⟨-, hlong⟩
    · exact hmade.excInfo s hs (hsame.symm.trans hempty)
    · rw [hempty] at hlong
      exact absurd hlong (by decide)
  rw [exceptionItems_eq (h.excText hmade.excText) hsome, Option.map_map]
  rfl

theorem Sanitized.keys (h : Sanitized t context record r) :
    r.extra.map Prod.fst = record.extra.map Prod.fst :=
  keys_of_forall₂ (fun _ _ hpq => hpq.1) (sanitizeExtras_ok.mp h.extra)

theorem unnamed_of_sanitized (hr : sanitizeRecord t context record = .ok r) : r.unnamed = record.unnamed := by
  cases hno : truthy record.piiSanitized with
  | true =>
      rw [sanitizeRecord] at hr
      simp only [hno, if_true] at hr
      cases hr
      rfl
  | false =>
      have hs := sanitized_of_ok hno hr
      rw [hs.named.1, hs.named.2]

theorem not_taken_iff {key : Text} : key ∉ takenNames ↔
    key ∉ ownAttrs ∧ (key = "message".toList ∨ key ∉ fieldNames) ∧ key ≠ "exception".toList := by
  simp only [takenNames, ownAttrs, fieldNames, List.map_cons, List.map_nil, List.mem_cons, List.not_mem_nil, or_false]
  grind

/-! ## Lines -/

/-- The items of a line can all be written. -/
theorem encodes_items (hs : Sanitized t context record r) (hmade : Made call record)
    (hid : ∃ j, (record.correlation context).toJson t.isPrintable = .ok j)
    (hwrites : ∀ p ∈ record.extra, isSecretKey t p.1 = false → Writable t p.2) :
    ∃ members, Encodes t (r.items r.msg) members := by
  have hall : ∀ p ∈ r.items r.msg, ∃ j, p.2.toJson t.isPrintable = .ok j := by
    intro p hp
    rcases List.mem_append.mp hp with hp | hp
    · simp only [LogRecord.fields, List.mem_cons, List.not_mem_nil, or_false] at hp
      rcases hp with rfl | rfl | rfl | rfl | rfl
      · exact ⟨_, rfl⟩
      · exact ⟨_, rfl⟩
      · exact ⟨_, rfl⟩
      · rw [← hs.correlationId] at hid
        exact hid
      · exact ⟨_, rfl⟩
    · rcases List.mem_append.mp hp with hp | hp
      · obtain ⟨q, hq, hkey, hvalue⟩ :=
          exists_mem_of_forall₂ (sanitizeExtras_ok.mp hs.extra).flip p (perm_extraItems.mem_iff.mp hp)
        exact (written_extra hvalue).mpr (hwrites q hq)
      · rw [hs.exceptionItems hmade] at hp
        obtain ⟨s, -, rfl⟩ := Option.mem_map.mp (Option.mem_toList.mp hp)
        exact ⟨_, rfl⟩
  refine exists_forall₂.mpr fun p hp => ?_
  obtain ⟨j, hj⟩ := hall p hp
  exact ⟨(p.1, j), rfl, hj⟩

theorem correlation_of_none (h : record.correlationId = .none) : ∃ s, record.correlation context = .str s := by
  unfold LogRecord.correlation
  rw [h, if_neg (by decide : ¬ truthy .none = true)]
  cases context with
  | none => exact ⟨_, rfl⟩
  | some id =>
      dsimp only
      split
      · exact ⟨_, rfl⟩
      · exact ⟨_, rfl⟩

theorem distinct_of_names (hmade : Made call record) (hs : Sanitized t context record r)
    (hextra : record.extra = call.extra) (hnames : ∀ p ∈ call.extra, p.1 ∉ takenNames) :
    ((r.items message).map Prod.fst).Nodup := by
  have hkeys : r.extra.map Prod.fst = call.extra.map Prod.fst := by rw [hs.keys, hextra]
  refine (distinct_items_iff (hkeys ▸ call.distinct)).mpr fun q hq => ?_
  have hin : q.1 ∈ call.extra.map Prod.fst := hkeys ▸ List.mem_map_of_mem hq
  obtain ⟨p, hp, hpq⟩ := List.mem_map.mp hin
  obtain ⟨-, hfield, hexception⟩ := not_taken_iff.mp (hnames p hp)
  rw [← hpq]
  refine ⟨hfield.resolve_left (hmade.message p hp), fun hlast => ?_⟩
  rw [hs.exceptionItems hmade] at hlast
  obtain ⟨last, hmem, hname⟩ := List.mem_map.mp hlast
  obtain ⟨s, -, rfl⟩ := Option.mem_map.mp (Option.mem_toList.mp hmem)
  exact hexception hname.symm

/-- A record with names of its own has a line if it can be sanitized and its extras can be written. -/
theorem members_of_writable (hmade : Made call record) (hnames : ∀ p ∈ call.extra, p.1 ∉ takenNames)
    (hsafe : record.Safe t) (hwrites : ∀ p ∈ call.extra, isSecretKey t p.1 = false → Writable t p.2) :
    ∃ members r, jsonMembers t context record = .ok members ∧ Sanitized t context record r ∧
      ((r.items r.msg).map Prod.fst).Nodup ∧ Encodes t (r.items r.msg) members := by
  have hrecord := hmade.other fun p hp => (not_taken_iff.mp (hnames p hp)).1
  have hextra : record.extra = call.extra := by rw [hrecord]
  obtain ⟨r, hr⟩ := sanitizeRecord_ok_iff.mpr (.inr hsafe)
  have hs : Sanitized t context record r := sanitized_of_ok (by rw [hrecord]; rfl) hr
  have hdistinct : ((r.items r.msg).map Prod.fst).Nodup := distinct_of_names hmade hs hextra hnames
  have hid : ∃ j, (record.correlation context).toJson t.isPrintable = .ok j := by
    have hnone : record.correlationId = .none := by rw [hrecord]; rfl
    obtain ⟨s, hid⟩ : ∃ s, record.correlation context = .str s := correlation_of_none hnone
    exact ⟨.str s, by rw [hid]; rfl⟩
  obtain ⟨members, hmembers⟩ := encodes_items hs hmade hid (hextra ▸ hwrites)
  have hpayload : r.payload r.msg = r.items r.msg := payload_eq.trans (PyDict.update_of_nodup hdistinct)
  have hmessage : r.getMessage t = .ok r.msg := by
    rw [LogRecord.getMessage, hs.args]
    rfl
  have hitems : r.lineItems r.msg = .ok (named (r.items r.msg)) := by
    rw [lineItems_of_named hs.named.2, hpayload]
  exact ⟨members, r, jsonMembers_ok.mpr ⟨r, hr, r.msg, hmessage, _, hitems, named_ok.mpr hmembers⟩, hs, hdistinct,
    hmembers⟩

end Lines

end FleetManagement
