import FleetManagement.Privacy.LeakingMessages
import FleetManagement.Privacy.LeakingValues

/-!
# Lines that leak an address

From which records an address gets into the JSON line.
-/

namespace FleetManagement

/-- A value that is sanitized to an exception. -/
inductive GivesException : PyValue → PyInstance → Prop where
  | exception (object : PyInstance) : GivesException (.exception object) object
  | model {object object' : PyInstance} {dump : PyValue} (h : GivesException dump object') :
      GivesException (.model object (.ok dump)) object'

/-- What an extra leaks by its value: the text of an exception is sanitized here. -/
def LeaksExtra (t : TextTables) (a key : Text) (v : PyValue) : Prop :=
  (∀ object, ¬ GivesException v object) ∧ LeaksUnder t a key v

/-- The texts of the record that every line has as they are. -/
def LogRecord.headTexts (record : LogRecord) : List (Text × Text) :=
  [("timestamp".toList, record.created), ("level".toList, record.levelname), ("logger".toList, record.name)]

/-- An item of a dictionary that is written as it is. -/
def ShowsItem (t : TextTables) (a : Text) (p : PyValue × PyValue) : Prop :=
  (∃ key, p.1.keyJson = .ok key ∧ ShownIn a key) ∨ Carries t a p.2

/-- Where an address gets from the record into its line: the texts that are written as they are. -/
inductive LogRecord.Leaks (t : TextTables) (context : Option Text) (a : Text) (record : LogRecord) : Prop where
  | head {p : Text × Text} (hp : p ∈ record.headTexts) (hkey : p.1 ∉ record.extra.map Prod.fst)
      (h : ShownIn a p.2)
  | correlationId (h : Carries t a (record.correlation context))
  | extraName {p : Text × PyValue} (hp : p ∈ record.extra) (h : ShownIn a p.1)
  /-- The traceback takes the place of an extra `exception`. -/
  | extra {p : Text × PyValue} (hno : truthy record.piiSanitized = false) (hp : p ∈ record.extra)
      (hkey : record.excInfo = none ∨ p.1 ≠ "exception".toList) (h : LeaksExtra t a p.1 p.2)
  /-- A record that comes with a mark of the layer is written as it is. -/
  | rawMessage {text : Text} (hyes : truthy record.piiSanitized = true) (htext : record.getMessage t = .ok text)
      (h : ShownIn a text)
  | rawExtra {p : Text × PyValue} (hyes : truthy record.piiSanitized = true) (hp : p ∈ record.extra)
      (h : Carries t a p.2)
  | rawUnnamed {p : PyValue × PyValue} (hyes : truthy record.piiSanitized = true) (hp : p ∈ record.unnamed)
      (h : ShowsItem t a p)

section Leaking
variable {t : TextTables} {a key message line : Text} {v w : PyValue} {j : Json} {context : Option Text}
  {call : LogCall} {record r : LogRecord} {members : List (Text × Json)}

/-! ## Extras -/

theorem Made.keys (h : Made call record) : (record.extra.map Prod.fst).Nodup ∧
    "correlation_id".toList ∉ record.extra.map Prod.fst ∧ "message".toList ∉ record.extra.map Prod.fst := by
  have hsub : (record.extra.map Prod.fst).Sublist (call.extra.map Prod.fst) := by
    rw [h.extra]
    exact List.filter_sublist.map _
  refine ⟨call.distinct.sublist hsub, fun hmem => ?_, fun hmem => ?_⟩
  · rw [h.extra] at hmem
    obtain ⟨p, hp, hname⟩ := List.mem_map.mp hmem
    have hother := (List.mem_filter.mp hp).2
    rw [hname] at hother
    exact absurd hother (by decide)
  · obtain ⟨p, hp, hname⟩ := List.mem_map.mp (hsub.subset hmem)
    exact h.message p hp hname

end Leaking

end FleetManagement
