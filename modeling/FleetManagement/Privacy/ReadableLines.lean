import FleetManagement.Library.PyFloats
import FleetManagement.Privacy.FaithfulLines

/-!
# Logs that can be read back

A log of JSON lines has one line for each record, whatever the texts in the records are, and a JSON reader gets
from each line the members that the formatter has put in it.
-/

namespace FleetManagement

/-- The floats among the attributes of the record are written as `float.__repr__` writes them. -/
structure LogRecord.FloatsWritten (record : LogRecord) : Prop where
  correlationId : record.correlationId.FloatsWritten
  extra : ∀ p ∈ record.extra, p.2.FloatsWritten
  unnamed : ∀ p ∈ record.unnamed, p.2.FloatsWritten

section Floats
variable {t : TextTables} {context : Option Text} {record r : LogRecord} {key : Text} {v w : PyValue}

/-! ## Sanitized values -/

theorem exists_source {α β : Type} {R : α → β → Prop} {as : List α} {bs : List β} (h : List.Forall₂ R as bs) :
    ∀ b ∈ bs, ∃ a ∈ as, R a b := by
  induction h with
  | nil => simp
  | cons hab _ ih =>
      intro b hb
      rcases List.mem_cons.mp hb with rfl | hb
      · exact ⟨_, List.mem_cons_self, hab⟩
      · obtain ⟨a, ha, hR⟩ := ih b hb
        exact ⟨a, List.mem_cons_of_mem _ ha, hR⟩

theorem floats_of_item (h : sanitizeItem t key v = .ok w)
    (hvalue : sanitizeValue t v = .ok w → w.FloatsWritten) : w.FloatsWritten := by
  cases hsecret : isSecretKey t key with
  | true =>
      rw [sanitizeItem_secret hsecret] at h
      cases h
      exact trivial
  | false =>
      by_cases hname : isNameKey t key = true ∧ ∃ s, v = .str s
      · obtain ⟨hname, s, rfl⟩ := hname
        rw [sanitizeItem_name hsecret hname] at h
        cases h
        exact trivial
      · rw [sanitizeItem_other hsecret fun h s hs => hname ⟨h, s, hs⟩] at h
        exact hvalue h

/-- The induction is on the size, as a dataclass and a model are sanitized as their dictionaries. -/
theorem floats_of_weight (n : Nat) (hn : v.weight ≤ n) (hv : v.FloatsWritten) (h : sanitizeValue t v = .ok w) :
    w.FloatsWritten := by
  induction n generalizing v w with
  | zero =>
      have := v.weight_pos
      omega
  | succ n ih =>
      have helements : ∀ {vs ws : List PyValue}, 1 + PyValue.allWeight vs ≤ n + 1 → PyValue.AllWritten vs →
          sanitizeValues t vs = .ok ws → PyValue.AllWritten ws := by
        intro vs ws hn hvs hws
        rw [PyValue.allWritten_iff] at hvs ⊢
        intro w hw
        obtain ⟨v, hmem, hsanitize⟩ := exists_source (sanitizeValues_ok.mp hws) w hw
        have := PyValue.weight_of_mem hmem
        exact ih (by omega) (hvs v hmem) hsanitize
      cases v with
      | str s =>
          rw [sanitizeValue_str] at h
          cases h
          exact trivial
      | none | bool _ | int _ | float _ _ | exception _ | generator =>
          rw [sanitizeValue.eq_def] at h
          cases h
          exact hv
      | dict items =>
          rw [sanitizeValue] at h
          obtain ⟨ws, hws, h⟩ := PyValue.bind_ok.mp h
          cases h
          have hitems := PyValue.itemsWritten_iff.mp hv
          refine PyValue.itemsWritten_iff.mpr fun q hq => ?_
          obtain ⟨p, hp, -, hsanitize⟩ := exists_source (sanitizeItems_ok.mp hws) q hq
          have := PyValue.weight_of_mem_items hp
          simp only [PyValue.weight] at hn
          exact floats_of_item hsanitize fun hvalue => ih (by omega) (hitems p hp) hvalue
      | list items | tuple items =>
          rw [sanitizeValue] at h
          obtain ⟨ws, hws, h⟩ := PyValue.bind_ok.mp h
          cases h
          exact helements hn hv hws
      | namedTuple name fields defaults items =>
          rw [sanitizeValue, PyValue.construct] at h
          split at h
          · cases h
            refine ⟨hv.1, PyValue.allWritten_iff.mpr fun w hw => ?_⟩
            rcases List.mem_append.mp hw with hw | hw
            · obtain rfl := List.mem_singleton.mp hw
              exact trivial
            · exact PyValue.allWritten_iff.mp hv.1 w (List.mem_of_mem_drop hw)
          · cases h
      | set items | frozenset items =>
          rw [sanitizeValue] at h
          obtain ⟨ws, hws, h⟩ := PyValue.bind_ok.mp h
          obtain ⟨ds, hds, h⟩ := PyValue.bind_ok.mp h
          cases h
          unfold PyValue.distinct at hds
          split at hds
          · cases hds
            exact helements hn hv hws
          · cases hds
      | dataclass object fields =>
          rw [sanitizeValue_dataclass] at h
          obtain ⟨d, hd, h⟩ := PyValue.bind_ok.mp h
          have := PyValue.weight_asdict_dataclass hd
          exact ih (by omega) (PyValue.written_asdict _ hv hd) h
      | model object dump =>
          cases dump with
          | error e =>
              rw [sanitizeValue] at h
              cases h
          | ok dump =>
              rw [sanitizeValue] at h
              have hdump : dump.FloatsWritten := hv
              simp only [PyValue.weight] at hn
              exact ih (by omega) hdump h

theorem floats_of_extra (hv : v.FloatsWritten) (h : sanitizeExtra t key v = .ok w) : w.FloatsWritten := by
  obtain ⟨cleaned, hcleaned, h⟩ := PyValue.bind_ok.mp h
  have hfloats : cleaned.FloatsWritten := floats_of_item hcleaned (floats_of_weight _ le_rfl hv)
  cases cleaned with
  | exception object =>
      cases h
      exact trivial
  | _ =>
      cases h
      exact hfloats

/-! ## Lines -/

theorem LogRecord.FloatsWritten.correlation (h : record.FloatsWritten) :
    (record.correlation context).FloatsWritten := by
  unfold LogRecord.correlation
  split
  · exact h.correlationId
  · split
    · split
      · exact trivial
      · exact trivial
    · exact trivial

theorem floats_of_sanitizeRecord (hfloats : record.FloatsWritten) (h : sanitizeRecord t context record = .ok r) :
    r.FloatsWritten := by
  cases hdone : truthy record.piiSanitized with
  | true =>
      simp only [sanitizeRecord, hdone, if_true] at h
      cases h
      exact ⟨hfloats.correlation, hfloats.extra, hfloats.unnamed⟩
  | false =>
      have hs := sanitized_of_ok hdone h
      refine ⟨hs.correlationId ▸ hfloats.correlation, fun q hq => ?_,
        unnamed_of_sanitized h ▸ hfloats.unnamed⟩
      obtain ⟨p, hp, -, hextra⟩ := exists_source (sanitizeExtras_ok.mp hs.extra) q hq
      exact floats_of_extra (hfloats.extra p hp) hextra

theorem floats_of_fields (h : r.FloatsWritten) (message : Text) :
    (∀ p ∈ r.fields message, p.2.FloatsWritten) ∧ ∀ p ∈ r.exceptionItems, p.2.FloatsWritten := by
  constructor
  · intro p hp
    simp only [LogRecord.fields, List.mem_cons, List.not_mem_nil, or_false] at hp
    rcases hp with rfl | rfl | rfl | rfl | rfl
    · exact trivial
    · exact trivial
    · exact trivial
    · exact h.correlationId
    · exact trivial
  · intro p hp
    unfold LogRecord.exceptionItems at hp
    split at hp
    · split at hp
      · cases hp
      · obtain rfl := List.mem_singleton.mp hp
        exact trivial
    · cases hp

theorem floats_of_payload (h : r.FloatsWritten) {message : Text} : ∀ p ∈ r.payload message, p.2.FloatsWritten := by
  obtain ⟨hfields, hexception⟩ := floats_of_fields h message
  intro p hp
  rcases PyDict.mem_of_mem_update hp with hp | hp
  · rcases PyDict.mem_of_mem_update hp with hp | hp
    · exact hfields p hp
    · have hperm : r.extraItems.Perm r.extra := perm_extraItems
      exact h.extra p (hperm.mem_iff.mp hp)
  · exact hexception p hp

theorem floats_of_named {items : List (Text × PyValue)} (h : ∀ p ∈ items, p.2.FloatsWritten) :
    ∀ p ∈ named items, p.2.FloatsWritten := by
  intro p hp
  obtain ⟨q, hq, rfl⟩ := List.mem_map.mp hp
  exact h q hq

theorem floats_of_lineItems (h : r.FloatsWritten) {message : Text} {items : List (PyValue × PyValue)}
    (hitems : r.lineItems message = .ok items) : ∀ p ∈ items, p.2.FloatsWritten := by
  obtain ⟨hfields, hexception⟩ := floats_of_fields h message
  unfold LogRecord.lineItems at hitems
  split at hitems
  · cases hitems
    exact floats_of_named (floats_of_payload h)
  · split at hitems
    · cases hitems
      intro p hp
      rcases List.mem_append.mp hp with hp | hp
      · rcases List.mem_append.mp hp with hp | hp
        · exact floats_of_named hfields p hp
        · exact h.unnamed p hp
      · exact floats_of_named hexception p hp
    · cases hitems

theorem readable_jsonMembers {members : List (Text × Json)} (hfloats : record.FloatsWritten)
    (h : jsonMembers t context record = .ok members) : (Json.obj members).Readable := by
  obtain ⟨r, hr, message, -, items, hitems, hmembers⟩ := jsonMembers_ok.mp h
  have hwritten := floats_of_lineItems (floats_of_sanitizeRecord hfloats hr) hitems
  refine Json.membersReadable_iff.mpr fun m hm => ?_
  obtain ⟨p, hp, -, hj⟩ := exists_source (PyValue.itemsToJson_ok.mp hmembers) m hm
  exact PyValue.readable_toJson p.2 (hwritten p hp) hj

/-! ## Logs -/

/-- What a `StreamHandler` writes of one record after another, each with the identifier of its request. -/
def writeLog (t : TextTables) (records : List (Option Text × LogRecord)) : Except PyError Text := do
  return Json.writeLines (← records.mapM fun p => formatJson t p.1 p.2)

/-- `[json.loads(line) for line in log]` -/
def readLog (log : Text) : Option (List Json) := (Json.readLines log).mapM Json.loads

theorem lines_of_records {records : List (Option Text × LogRecord)} {lines : List Text}
    (hfloats : ∀ p ∈ records, p.2.FloatsWritten)
    (h : records.mapM (fun p => formatJson t p.1 p.2) = .ok lines) :
    ∃ objects, records.mapM (fun p => jsonMembers t p.1 p.2) = .ok objects ∧
      (∀ line ∈ lines, '\n' ∉ line) ∧ lines.mapM Json.loads = some (objects.map Json.obj) := by
  induction records generalizing lines with
  | nil =>
      cases h
      exact ⟨[], rfl, by simp, rfl⟩
  | cons p records ih =>
      rw [List.mapM_cons] at h
      obtain ⟨line, hline, h⟩ := PyValue.bind_ok.mp h
      obtain ⟨lines', hlines, h⟩ := PyValue.bind_ok.mp h
      cases h
      obtain ⟨members, hmembers, hdumps⟩ := PyValue.bind_ok.mp hline
      cases hdumps
      have hreadable := readable_jsonMembers (hfloats p List.mem_cons_self) hmembers
      obtain ⟨objects, hobjects, hones, hloads⟩ := ih (fun q hq => hfloats q (List.mem_cons_of_mem _ hq)) hlines
      refine ⟨members :: objects, ?_, ?_, ?_⟩
      · rw [List.mapM_cons, hmembers, hobjects]
        rfl
      · exact List.forall_mem_cons.mpr ⟨Json.newline_not_mem_dumps hreadable, hones⟩
      · rw [List.mapM_cons, Json.loads_dumps hreadable, hloads]
        rfl

end Floats

/-- A log of any records that can be formatted reads back as their members, one object for each. -/
theorem log_reads_back {t : TextTables} {records : List (Option Text × LogRecord)} {log : Text}
    (hfloats : ∀ p ∈ records, p.2.FloatsWritten) (h : writeLog t records = .ok log) :
    ∃ objects, records.mapM (fun p => jsonMembers t p.1 p.2) = .ok objects ∧
      readLog log = some (objects.map .obj) := by
  obtain ⟨lines, hlines, h⟩ := PyValue.bind_ok.mp h
  cases h
  obtain ⟨objects, hobjects, hones, hloads⟩ := lines_of_records hfloats hlines
  refine ⟨objects, hobjects, ?_⟩
  rw [readLog, Json.readLines_writeLines hones]
  exact hloads

/-- `logger.info(msg)` -/
def noteCall (msg : Text) : LogCall where
  name := "fleet_management".toList
  levelname := "INFO".toList
  created := "2026-01-01T00:00:00+00:00".toList
  msg := msg
  extra := []
  distinct := List.nodup_nil

theorem note_formatted (context : Option Text) (msg : Text) :
    ∃ line, formatJson asciiText context (noteCall msg).record = .ok line := by
  have hmade : Made (noteCall msg) (noteCall msg).record := made_of_makeRecord rfl
  have hsafe : (noteCall msg).record.Safe asciiText := ⟨trivial, nofun, nofun, rfl⟩
  obtain ⟨members, hmembers⟩ : ∃ members, jsonMembers asciiText context (noteCall msg).record = .ok members := by
    obtain ⟨members, r, hmembers, -⟩ := members_of_writable hmade nofun hsafe nofun
    exact ⟨members, hmembers⟩
  exact ⟨_, by rw [formatJson, hmembers]; rfl⟩

theorem note_floatsWritten (msg : Text) : (noteCall msg).record.FloatsWritten where
  correlationId := trivial
  extra p hp := by cases hp
  unnamed p hp := by cases hp

/-- A message that would forge a line of its own, and another one. -/
def forgingRecords : List (Option Text × LogRecord) :=
  [(some "a1".toList, (noteCall "booked\n\x7b\"level\": \"CRITICAL\"\x7d".toList).record),
    (none, (noteCall "returned".toList).record)]

theorem forged_line_is_quoted : ∃ log objects, writeLog asciiText forgingRecords = .ok log ∧
    forgingRecords.mapM (fun p => jsonMembers asciiText p.1 p.2) = .ok objects ∧
      readLog log = some (objects.map .obj) := by
  obtain ⟨line, hline⟩ := note_formatted (some "a1".toList) "booked\n\x7b\"level\": \"CRITICAL\"\x7d".toList
  obtain ⟨line', hline'⟩ := note_formatted none "returned".toList
  have hlog : writeLog asciiText forgingRecords = .ok (Json.writeLines [line, line']) := by
    simp only [writeLog, forgingRecords, List.mapM_cons, List.mapM_nil, hline, hline']
    rfl
  have hfloats : ∀ p ∈ forgingRecords, p.2.FloatsWritten := by
    intro p hp
    simp only [forgingRecords, List.mem_cons, List.not_mem_nil, or_false] at hp
    rcases hp with rfl | rfl
    · exact note_floatsWritten _
    · exact note_floatsWritten _
  obtain ⟨objects, hobjects, hread⟩ := log_reads_back hfloats hlog
  exact ⟨_, objects, hlog, hobjects, hread⟩

end FleetManagement
