import FleetManagement.Privacy.FaithfulLines
import FleetManagement.Privacy.Middleware

/-!
# One id for each request

Whatever other tasks do in between, all that a request leaves behind (the headers of its response, its log
records and what it reads itself) has one correlation id, and the middleware changes nothing else.
-/

namespace FleetManagement

section Correlation
variable {ι μ ν ω τ ε : Type} {S : ω → Type}

/-! ## Applications on their own -/

/-- The answered calls of an application, the last one first. -/
abbrev Course (μ ν : Type) {ω : Type} (S : ω → Type) (ε : Type) :=
  List (Call Unit Unit (AppCall ν ω) (AppCall.Answer μ S) ε)

/-- The message that the call has sent. -/
def AppCall.sent : (w : AppCall ν ω) → Except ε (w.Answer μ S) → List (AsgiMessage ν)
  | .send m, .ok _ => [m]
  | _, _ => []

def AppCall.logged : (w : AppCall ν ω) → Except ε (w.Answer μ S) → List LogCall
  | .log call, .ok _ => [call]
  | _, _ => []

/-- The status that the call announces, even if its message is not sent. -/
def AppCall.status (before : Int) : AppCall ν ω → Int
  | .send m => m.status before
  | _ => before

/-- A call that asks for the id of the request gets `id`. -/
def AppCall.Reads (id : String) : (w : AppCall ν ω) → Except ε (w.Answer μ S) → Prop
  | .correlationId, x => x = .ok (some id)
  | _, _ => True

def sentBy (course : Course μ ν S ε) : List (AsgiMessage ν) :=
  course.reverse.flatMap fun c => c.command.sent c.answer

def loggedBy (course : Course μ ν S ε) : List LogCall := course.reverse.flatMap fun c => c.command.logged c.answer

def statusBy (course : Course μ ν S ε) : Int := course.foldr (fun c before => c.command.status before) 500

/-! ## Requests as others see them -/

/-- What a task has left behind. -/
structure View (ν : Type) where
  context : Option String
  sent : List (AsgiMessage ν)
  records : List LogRecord

def Server.view [DecidableEq ι] (s : Server ι ν) (i : ι) : View ν where
  context := s.context i
  sent := s.sent i
  records := (s.log.filter fun p => p.1 = i).map Prod.snd

/-- The record of the call has the id, unless the call passes on one of its own. -/
structure Stamped (t : TextTables) (id : String) (call : LogCall) (record : LogRecord) : Prop where
  made : recordOf t (some id) call = .ok record
  id : "correlation_id".toList ∉ call.extra.map Prod.fst → record.correlationId = .str id.toList

/-- The id of a request: the one that its client proposes, if it is well formed. -/
structure Scope.IdFor (scope : Scope) (id : String) : Prop where
  accepted : isCorrelationId scope.incoming = true → id = scope.incoming ∧ encodeUtf8 id = scope.rawId
  generated : isCorrelationId scope.incoming = false → ∃ u : UuidHex, id = u.val
  readable : decodeLatin1 (encodeUtf8 id) = id

/-- What the task of the application has left behind, where `u` is left of the application: its own messages, with
the id in a header, and its own records, with the id. -/
structure Attended (t : TextTables) (scope : Scope) (app : AppJob μ ν S ε) (id : String) (course : Course μ ν S ε)
    (u : AppJob μ ν S ε) (sent : List (AsgiMessage ν)) (records : List LogRecord) : Prop where
  idFor : scope.IdFor id
  follows : Job.Follows app course u
  sent : sent = (sentBy course).map (·.withHeader id)
  records : List.Forall₂ (Stamped t id) (loggedBy course) records
  reads : ∀ c ∈ course, c.command.Reads id c.answer

/-- A request that may have begun, may be served or may have its access record. It has ended with what its
application ends with. -/
inductive Exchange (t : TextTables) (milliseconds : τ → τ → Text) (scope : Scope) (app : AppJob μ ν S ε)
    (before : Option String) (job : TaskJob μ ν S τ ε Unit) (view : View ν) : Prop
  | waiting (sent : view.sent = []) (records : view.records = []) (unfinished : ∀ o, job ≠ .ofExcept o)
  | serving (id : String) (course : Course μ ν S ε) (u : AppJob μ ν S ε)
      (served : Attended t scope app id course u view.sent view.records) (unfinished : ∀ o, job ≠ .ofExcept o)
  | logged (id : String) (course : Course μ ν S ε) (o : Except ε Unit) (started ended : τ) (created : Text)
      (records : List LogRecord) (record : LogRecord)
      (served : Attended t scope app id course (.ofExcept o) view.sent records)
      (stamped : Stamped t id (scope.accessCall (statusBy course) (milliseconds started ended) created) record)
      (last : view.records = records ++ [record])
      (finished : ∀ o', job = .ofExcept o' → o' = o ∧ view.context = before)

/-! ## Ids and bytes -/

theorem ascii_of_isIdChar {c : Char} (h : isIdChar c = true) : c.toNat < 128 := by
  delta isIdChar Char.isAlphanum Char.isAlpha Char.isUpper Char.isLower Char.isDigit at h
  simp only [Bool.or_eq_true, Bool.and_eq_true, decide_eq_true_eq, UInt32.le_iff_toNat_le] at h
  have htoNat : c.toNat = c.val.toNat := rfl
  rcases h with (((((h | h) | h) | rfl) | rfl) | rfl)
  all_goals first | decide | (simp at h; omega)

theorem ascii_of_isCorrelationId {s : String} (h : isCorrelationId s = true) : ∀ c ∈ s.toList, c.toNat < 128 := by
  intro c hc
  rcases matchesLine_iff.mp (isCorrelationId_iff.mp h) with hid | ⟨w, hid, rfl⟩
  · exact ascii_of_isIdChar (hid.chars c hc)
  · rw [String.toList_append] at hc
    rcases List.mem_append.mp hc with hc | hc
    · exact ascii_of_isIdChar (hid.chars c hc)
    · obtain rfl := List.mem_singleton.mp hc
      decide

theorem encode_ascii {s : String} (h : ∀ c ∈ s.toList, c.toNat < 128) :
    encodeUtf8 s = s.toList.map fun c => c.val.toUInt8 := by
  rw [encodeUtf8, ← List.flatMap_pure_eq_map]
  refine List.flatMap_congr fun c hc => String.utf8EncodeChar_eq_singleton ?_
  have hle : c.val ≤ 127 := UInt32.le_iff_toNat_le.mpr (by simpa using Nat.le_of_lt_succ (h c hc))
  simp [Char.utf8Size, hle]

theorem decode_encode {s : String} (h : ∀ c ∈ s.toList, c.toNat < 128) : decodeLatin1 (encodeUtf8 s) = s := by
  have hchars : ∀ c ∈ s.toList, ((fun b : UInt8 => Char.ofNat b.toNat) ∘ fun c : Char => c.val.toUInt8) c = id c := by
    intro c hc
    have hmod : c.val.toUInt8.toNat = c.toNat := by
      rw [UInt32.toNat_toUInt8]
      exact Nat.mod_eq_of_lt ((h c hc).trans (by decide))
    simp only [Function.comp_apply, hmod, Char.ofNat_toNat, id_eq]
  rw [decodeLatin1, encode_ascii h, List.map_map, List.map_congr_left hchars, List.map_id, String.ofList_toList]

theorem encode_decode {bytes : Bytes} (h : ∀ c ∈ (decodeLatin1 bytes).toList, c.toNat < 128) :
    encodeUtf8 (decodeLatin1 bytes) = bytes := by
  rw [encode_ascii h, decodeLatin1, String.toList_ofList, List.map_map]
  have hall : ∀ n < 256, (Char.ofNat n).val.toUInt8.toNat = n := by decide +kernel
  have hbytes : ∀ b ∈ bytes, ((fun c : Char => c.val.toUInt8) ∘ fun b : UInt8 => Char.ofNat b.toNat) b = id b := by
    intro b _
    exact UInt8.toNat.inj (hall b.toNat b.toNat_lt)
  rw [List.map_congr_left hbytes, List.map_id]

theorem idFor_accepted {scope : Scope} (h : isCorrelationId scope.incoming = true) : scope.IdFor scope.incoming where
  accepted _ := ⟨rfl, encode_decode (ascii_of_isCorrelationId h)⟩
  generated hno := absurd h (by simp [hno])
  readable := decode_encode (ascii_of_isCorrelationId h)

theorem idFor_generated {scope : Scope} (h : isCorrelationId scope.incoming = false) (u : UuidHex) :
    scope.IdFor u.val where
  accepted hyes := absurd hyes (by simp [h])
  generated _ := ⟨u, rfl⟩
  readable := decode_encode fun c hc => ascii_of_isIdChar ((isId_uuid u).chars c hc)

theorem Scope.IdFor.ne_empty {scope : Scope} {id : String} (h : scope.IdFor id) : id ≠ "" := by
  rintro rfl
  cases haccept : isCorrelationId scope.incoming with
  | true =>
      rw [← (h.accepted haccept).1] at haccept
      exact absurd haccept (by decide)
  | false =>
      obtain ⟨u, hu⟩ := h.generated haccept
      have := (isId_uuid u).min
      rw [← hu] at this
      exact absurd this (by decide)

/-! ## Records -/

theorem correlationId_sanitized {t : TextTables} {context : Option Text} {record r : LogRecord}
    (h : sanitizeRecord t context record = .ok r) : r.correlationId = record.correlation context := by
  cases hdone : truthy record.piiSanitized with
  | true =>
      simp only [sanitizeRecord, hdone, if_true] at h
      cases h
      rfl
  | false => exact (sanitized_of_ok hdone h).correlationId

theorem correlationId_addExtra {record r : LogRecord} {extra : List (Text × PyValue)}
    (h : addExtra record extra = .ok r) (hno : "correlation_id".toList ∉ extra.map Prod.fst) :
    r.correlationId = record.correlationId := by
  induction extra generalizing record with
  | nil =>
      cases h
      rfl
  | cons p extra ih =>
      obtain ⟨key, value⟩ := p
      rw [List.map_cons, List.mem_cons, not_or] at hno
      rw [addExtra] at h
      split at h
      · cases h
      · rw [ih h hno.2, LogRecord.setAttr, if_neg fun hkey => hno.1 hkey.symm]
        split
        · rfl
        · rfl

theorem stamped {t : TextTables} {id : String} {call : LogCall} {record : LogRecord} (hid : id ≠ "")
    (h : recordOf t (some id) call = .ok record) : Stamped t id call record where
  made := h
  id hno := by
    obtain ⟨made, hmade, hsanitize⟩ := PyValue.bind_ok.mp h
    have hnone : made.correlationId = .none := correlationId_addExtra hmade hno
    have hne : id.toList ≠ [] := fun h => hid (String.toList_eq_nil_iff.mp h)
    rw [correlationId_sanitized hsanitize]
    simp [LogRecord.correlation, hnone, truthy, hne]

theorem accessCall_recorded (t : TextTables) (scope : Scope) (context : Option String) (status : Int)
    (milliseconds created : Text) : ∃ record, recordOf t context (scope.accessCall status milliseconds created) =
      .ok record := by
  have hsafe : (scope.accessCall status milliseconds created).record.Safe t := by
    refine ⟨?_, fun _ => ?_, fun p hp => (by cases hp), rfl⟩
    · intro v hv
      simp only [List.mem_cons, List.not_mem_nil, or_false] at hv
      rcases hv with rfl | rfl | rfl | rfl
      · exact .str _
      · exact .str _
      · exact .int _
      · exact .float _ _
    · rfl
  exact sanitizeRecord_ok_iff.mpr (.inr hsafe)

/-! ## The way of a task -/

section Way
variable (t : TextTables) (milliseconds : τ → τ → Text) (scope : Scope) (app : AppJob μ ν S ε)
  (before : Option String)

/-- What is left of a task that has to write its access record. -/
def noteTask (course : Course μ ν S ε) (o : Except ε Unit) (started ended : τ) (created : Text) :
    TaskJob μ ν S τ ε Unit :=
  Job.perform (TaskCall.app (.log (scope.accessCall (statusBy course) (milliseconds started ended) created))) >>=
    fun _ => resetTask before o

/-- How far a task is, with what it has left behind. -/
inductive Stage : TaskJob μ ν S τ ε Unit → View ν → Prop
  | arriving (hno : isCorrelationId scope.incoming = false) :
      Stage (Job.perform TaskCall.uuid4 >>= fun uuid => serveAs milliseconds app scope uuid.val) ⟨before, [], []⟩
  | binding {id : String} (hid : scope.IdFor id) : Stage (serveAs milliseconds app scope id) ⟨before, [], []⟩
  | timing {id : String} (hid : scope.IdFor id) :
      Stage (Job.perform TaskCall.perfCounter >>= fun started =>
        runWithHeader id 500 app >>= closeTask milliseconds scope before started) ⟨some id, [], []⟩
  | running {id : String} {course : Course μ ν S ε} {u : AppJob μ ν S ε} {sent : List (AsgiMessage ν)}
      {records : List LogRecord} (h : Attended t scope app id course u sent records) (started : τ) :
      Stage (runWithHeader id (statusBy course) u >>= closeTask milliseconds scope before started)
        ⟨some id, sent, records⟩
  | ending {id : String} {course : Course μ ν S ε} {o : Except ε Unit} {sent : List (AsgiMessage ν)}
      {records : List LogRecord} (h : Attended t scope app id course (.ofExcept o) sent records) (started ended : τ) :
      Stage (Job.perform TaskCall.now >>= noteTask milliseconds scope before course o started ended)
        ⟨some id, sent, records⟩
  | noting {id : String} {course : Course μ ν S ε} {o : Except ε Unit} {sent : List (AsgiMessage ν)}
      {records : List LogRecord} (h : Attended t scope app id course (.ofExcept o) sent records) (started ended : τ)
      (created : Text) :
      Stage (noteTask milliseconds scope before course o started ended created) ⟨some id, sent, records⟩
  | leaving {id : String} {course : Course μ ν S ε} {o : Except ε Unit} {sent : List (AsgiMessage ν)}
      {records : List LogRecord} (h : Attended t scope app id course (.ofExcept o) sent records) {started ended : τ}
      {created : Text} {record : LogRecord}
      (hrecord : Stamped t id (scope.accessCall (statusBy course) (milliseconds started ended) created) record) :
      Stage (resetTask before o) ⟨some id, sent, records ++ [record]⟩
  | gone {id : String} {course : Course μ ν S ε} {o : Except ε Unit} {sent : List (AsgiMessage ν)}
      {records : List LogRecord} (h : Attended t scope app id course (.ofExcept o) sent records) {started ended : τ}
      {created : Text} {record : LogRecord}
      (hrecord : Stamped t id (scope.accessCall (statusBy course) (milliseconds started ended) created) record) :
      Stage (.ofExcept o) ⟨before, sent, records ++ [record]⟩

end Way

section Steps
variable {t : TextTables} {raised : PyError → ε} {milliseconds : τ → τ → Text} {scope : Scope}
  {app : AppJob μ ν S ε} {before : Option String}

/-! ## The calls of the application -/

theorem sentBy_cons (c : Call Unit Unit (AppCall ν ω) (AppCall.Answer μ S) ε) (course : Course μ ν S ε) :
    sentBy (c :: course) = sentBy course ++ c.command.sent c.answer := by
  simp [sentBy]

theorem loggedBy_cons (c : Call Unit Unit (AppCall ν ω) (AppCall.Answer μ S) ε) (course : Course μ ν S ε) :
    loggedBy (c :: course) = loggedBy course ++ c.command.logged c.answer := by
  simp [loggedBy]

theorem attended_start {id : String} (hid : scope.IdFor id) : Attended t scope app id [] app [] [] where
  idFor := hid
  follows := .start
  sent := rfl
  records := .nil
  reads := by simp

/-- One more call of the application. -/
theorem Attended.step {id : String} {course : Course μ ν S ε} {w : AppCall ν ω}
    {k : Except ε (w.Answer μ S) → AppJob μ ν S ε} {sent : List (AsgiMessage ν)} {records more : List LogRecord}
    (h : Attended t scope app id course (.call w k) sent records) (x : Except ε (w.Answer μ S))
    (hrecords : List.Forall₂ (Stamped t id) (w.logged x) more) (hreads : w.Reads id x) :
    Attended t scope app id (⟨(), w, x, ()⟩ :: course) (k x) (sent ++ (w.sent x).map (·.withHeader id))
      (records ++ more) where
  idFor := h.idFor
  follows := .answered () x () h.follows
  sent := by rw [sentBy_cons, List.map_append, h.sent]
  records := by
    rw [loggedBy_cons]
    exact List.rel_append h.records hrecords
  reads := List.forall_mem_cons.mpr ⟨hreads, h.reads⟩

/-! ## Steps -/

variable [DecidableEq ι] {i j : ι} {c : Occasion μ S τ ε} {s s' : Server ι ν} {view : View ν}
  {w : TaskCall ν ω} {k : Except ε (w.Answer μ S τ) → TaskJob μ ν S τ ε Unit} {x : Except ε (w.Answer μ S τ)}

/-- A call of one task does not touch what another one has left behind. -/
theorem view_other (hij : j ≠ i) (h : answerTask t raised j w c s = some (x, s')) : s'.view i = s.view i := by
  have hji : i ≠ j := fun h => hij h.symm
  cases w with
  | app w =>
      cases w with
      | send m =>
          simp only [answerTask] at h
          split at h
          · cases h
            rfl
          · cases h
            simp [Server.view, Function.update_of_ne hji]
      | log call =>
          simp only [answerTask] at h
          split at h
          · cases h
            simp [Server.view, List.filter_append, hij]
          · cases h
            rfl
      | receive | correlationId | outside w =>
          cases h
          rfl
  | setVar id | resetVar token =>
      cases h
      simp [Server.view, Function.update_of_ne hji]
  | uuid4 | perfCounter | now =>
      cases h
      rfl

theorem stage_running {id : String} {course : Course μ ν S ε} {w : AppCall ν ω}
    {k : Except ε (w.Answer μ S) → AppJob μ ν S ε} {sent : List (AsgiMessage ν)} {records more : List LogRecord}
    (h : Attended t scope app id course (.call w k) sent records) (started : τ) (x : Except ε (w.Answer μ S))
    (hrecords : List.Forall₂ (Stamped t id) (w.logged x) more) (hreads : w.Reads id x)
    (hview : view = ⟨some id, sent ++ (w.sent x).map (·.withHeader id), records ++ more⟩) :
    Stage t milliseconds scope app before (runWithHeader id (w.status (statusBy course)) (k x) >>=
      closeTask milliseconds scope before started) view :=
  hview ▸ .running (h.step x hrecords hreads) started

/-- The next call of an application under the middleware. -/
theorem stage_app {id : String} {course : Course μ ν S ε} {w' : AppCall ν ω}
    {k' : Except ε (w'.Answer μ S) → AppJob μ ν S ε} {sent : List (AsgiMessage ν)} {records : List LogRecord}
    (h : Attended t scope app id course (.call w' k') sent records) (started : τ)
    (hview : s.view i = ⟨some id, sent, records⟩)
    (hjob : runWithHeader id (statusBy course) (.call w' k') >>= closeTask milliseconds scope before started =
      .call w k)
    (hanswer : answerTask t raised i w c s = some (x, s')) :
    Stage t milliseconds scope app before (k x) (s'.view i) := by
  obtain ⟨hcontext, hsent, hrecords⟩ := View.mk.inj hview
  cases w' with
  | receive =>
      cases hjob
      cases hanswer
      exact stage_running h started _ .nil trivial (by simp [hview, AppCall.sent])
  | outside w =>
      cases hjob
      cases hanswer
      exact stage_running h started _ .nil trivial (by simp [hview, AppCall.sent])
  | correlationId =>
      cases hjob
      cases hanswer
      exact stage_running h started _ .nil (congrArg _ hcontext) (by simp [hview, AppCall.sent])
  | send m =>
      cases hjob
      simp only [answerTask] at hanswer
      split at hanswer
      · cases hanswer
        exact stage_running h started _ .nil trivial (by simp [hview, AppCall.sent])
      · cases hanswer
        refine stage_running h started _ .nil trivial ?_
        simp [Server.view, AppCall.sent, hcontext, hsent, hrecords]
  | log call =>
      cases hjob
      simp only [answerTask, hcontext] at hanswer
      split at hanswer
      · rename_i record hrecord
        cases hanswer
        refine stage_running h started _ (.cons (stamped h.idFor.ne_empty hrecord) .nil) trivial ?_
        simp [Server.view, AppCall.sent, hcontext, hsent, ← hrecords, List.filter_append]
      · cases hanswer
        exact stage_running h started _ .nil trivial (by simp [hview, AppCall.sent])

/-- A task that has taken one more of its calls is one stage on. -/
theorem Stage.step {job : TaskJob μ ν S τ ε Unit} (h : Stage t milliseconds scope app before job view)
    (hview : s.view i = view) (hjob : job = .call w k) (hanswer : answerTask t raised i w c s = some (x, s')) :
    Stage t milliseconds scope app before (k x) (s'.view i) := by
  cases h with
  | arriving hno =>
      cases hjob
      cases hanswer
      exact hview ▸ .binding (idFor_generated hno c.uuid)
  | @binding id hid =>
      obtain ⟨hcontext, hsent, hrecords⟩ := View.mk.inj hview
      cases hjob
      cases hanswer
      have hafter : Server.view { s with context := Function.update s.context i (some id) } i =
          ⟨some id, [], []⟩ := by
        simp [Server.view, hsent, ← hrecords]
      rw [hafter]
      exact hcontext ▸ .timing hid
  | timing hid =>
      cases hjob
      cases hanswer
      exact hview ▸ .running (attended_start hid) c.counter
  | @running id course u sent records h started =>
      cases u with
      | ret a =>
          cases hjob
          cases hanswer
          exact hview ▸ Stage.ending (o := .ok a) h started c.counter
      | raise e =>
          cases hjob
          cases hanswer
          exact hview ▸ Stage.ending (o := .error e) h started c.counter
      | call w' k' => exact stage_app h started hview hjob hanswer
  | ending h started ended =>
      cases hjob
      cases hanswer
      exact hview ▸ .noting h started ended c.now
  | @noting id course o sent records h started ended created =>
      obtain ⟨hcontext, hsent, hrecords⟩ := View.mk.inj hview
      cases hjob
      obtain ⟨record, hrecord⟩ := accessCall_recorded t scope (s.context i) (statusBy course)
        (milliseconds started ended) created
      simp only [answerTask, hrecord] at hanswer
      cases hanswer
      have hafter : Server.view { s with log := s.log ++ [(i, record)] } i = ⟨some id, sent, records ++ [record]⟩ := by
        simp [Server.view, hcontext, hsent, ← hrecords, List.filter_append]
      rw [hcontext] at hrecord
      rw [hafter]
      exact .leaving h (stamped h.idFor.ne_empty hrecord)
  | @leaving id course o sent records h started ended created record hrecord =>
      obtain ⟨hcontext, hsent, hrecords⟩ := View.mk.inj hview
      cases hjob
      cases hanswer
      have hafter : Server.view { s with context := Function.update s.context i before } i =
          ⟨before, sent, records ++ [record]⟩ := by
        simp [Server.view, hsent, ← hrecords]
      rw [hafter]
      exact .gone h hrecord
  | @gone id course o sent records h =>
      cases o with
      | ok a => cases hjob
      | error e => cases hjob

theorem stage_start (hhttp : scope.type = "http") {app : Scope → AppJob μ ν S ε} :
    Stage t milliseconds scope (app scope) before (correlationIdMiddleware milliseconds app scope)
      ⟨before, [], []⟩ := by
  rw [correlationIdMiddleware, if_neg (not_not_intro hhttp)]
  cases haccept : isCorrelationId scope.incoming with
  | true =>
      rw [if_pos rfl]
      exact .binding (idFor_accepted haccept)
  | false =>
      rw [if_neg Bool.false_ne_true]
      exact .arriving haccept

theorem unfinished_running {id : String} {status : Int} {u : AppJob μ ν S ε} {started : τ} (o : Except ε Unit) :
    runWithHeader id status u >>= closeTask milliseconds scope before started ≠ .ofExcept o := by
  intro h
  cases u with
  | ret a => cases o <;> cases h
  | raise e => cases o <;> cases h
  | call w k => cases w <;> cases o <;> cases h

/-- What a stage shows to others. -/
theorem Stage.exchange {job : TaskJob μ ν S τ ε Unit} (h : Stage t milliseconds scope app before job view) :
    Exchange t milliseconds scope app before job view := by
  have hcall : ∀ (w : TaskCall ν ω) (k : _ → TaskJob μ ν S τ ε Unit) (o : Except ε Unit),
      .call w k ≠ Job.ofExcept o := by
    intro w k o h
    cases o <;> cases h
  cases h with
  | arriving hno => exact .waiting rfl rfl (hcall _ _)
  | binding hid => exact .waiting rfl rfl (hcall _ _)
  | timing hid => exact .waiting rfl rfl (hcall _ _)
  | running h started => exact .serving _ _ _ h unfinished_running
  | ending h started ended => exact .serving _ _ _ h (hcall _ _)
  | noting h started ended created => exact .serving _ _ _ h (hcall _ _)
  | leaving h hrecord => exact .logged _ _ _ _ _ _ _ _ h hrecord rfl fun o' ho => absurd ho (hcall _ _ _)
  | @gone id course o sent records h started ended created record hrecord =>
      refine .logged _ _ _ _ _ _ _ _ h hrecord rfl fun o' ho => ⟨?_, rfl⟩
      cases o <;> cases o' <;> cases ho <;> rfl

end Steps

/-! ## Runs -/

/-- However the tasks of any number of requests are interleaved, whatever their applications do and whichever
of their calls fail: a request leaves behind what its application does, with one id in every response and in
every record, and one access record at its end. -/
theorem requests_keep_their_ids [DecidableEq ι] {t : TextTables} {raised : PyError → ε}
    {milliseconds : τ → τ → Text} (requests : ι → Scope × (Scope → AppJob μ ν S ε)) (contexts : ι → Option String)
    (actions : List (ι × Occasion μ S τ ε)) {i : ι} (hhttp : (requests i).1.type = "http") :
    let p := Runs.run (Crew.step (answerTask t raised))
      (Crew.init ⟨contexts, fun _ => [], []⟩ fun j => correlationIdMiddleware milliseconds (requests j).2 (requests j).1)
      actions
    Exchange t milliseconds (requests i).1 ((requests i).2 (requests i).1) (contexts i) (p.jobs i)
      (p.state.view i) := by
  have hkeep : ∀ (p : Crew ι (Server ι ν) (TaskCall ν ω) (TaskCall.Answer μ S τ) ε Unit)
      (a : ι × Occasion μ S τ ε),
      Stage t milliseconds (requests i).1 ((requests i).2 (requests i).1) (contexts i) (p.jobs i) (p.state.view i) →
      Stage t milliseconds (requests i).1 ((requests i).2 (requests i).1) (contexts i)
        ((p.step (answerTask t raised) a).jobs i) ((p.step (answerTask t raised) a).state.view i) := by
    intro p a h
    rcases Crew.step_cases (answerTask t raised) p a with ⟨w, k, x, s, hjob, hanswer, hstep⟩ | hstep
    · rw [hstep]
      by_cases hi : i = a.1
      · subst hi
        simp only [Function.update_self]
        exact h.step rfl hjob hanswer
      · simp only [Function.update_of_ne hi, view_other (fun h => hi h.symm) hanswer]
        exact h
    · rw [hstep]
      exact h
  exact (Runs.invariant_of_step hkeep (stage_start hhttp) _ (Runs.Visits.last ..)).exchange

end Correlation

/-- An application that answers with one message. -/
def helloApp (_ : Scope) : AppJob Unit Unit (fun _ : Empty => Unit) PyError :=
  .call (.send (.responseStart 200 none ())) fun _ => .ret ()

/-- `GET /` with an id of the client. -/
def helloScope (incoming : String) : Scope where
  type := "http"
  method := "GET".toList
  path := "/".toList
  headers := [(headerKey, encodeUtf8 incoming)]

def helloOccasion : Occasion Unit (fun _ : Empty => Unit) Nat PyError where
  fault := none
  message := ()
  outside w := w.elim
  uuid := (stepAt 0).draw.uuid
  counter := 0
  now := "2026-01-01T00:00:00+00:00".toList

/-- Two requests that take turns, until both have ended. -/
theorem hellos_keep_their_ids :
    let p := Runs.run (Crew.step (answerTask asciiText id))
      (Crew.init ⟨fun _ => none, fun _ => [], []⟩ fun _ : Bool =>
        correlationIdMiddleware (fun a b : Nat => (toString (1000 * (b - a))).toList) helloApp (helloScope "a-1"))
      ((List.replicate 7 [(true, helloOccasion), (false, helloOccasion)]).flatten)
    Exchange asciiText (fun a b : Nat => (toString (1000 * (b - a))).toList) (helloScope "a-1")
      (helloApp (helloScope "a-1")) none (p.jobs true) (p.state.view true) :=
  requests_keep_their_ids (fun _ => (helloScope "a-1", helloApp)) (fun _ => none) _ rfl

end FleetManagement
