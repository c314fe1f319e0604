import FleetManagement.Library.Crew
import FleetManagement.Privacy.CorrelationIds
import FleetManagement.Privacy.JsonLines

/-!
# The correlation middleware

`fleet_management.privacy.middleware`: what `CorrelationIdMiddleware` does around an ASGI application, and the
server that runs the tasks of the requests.
-/

namespace FleetManagement

/-! ## Bytes -/

abbrev Bytes := List UInt8

/-- `bytes.decode("latin-1")` -/
def decodeLatin1 (bytes : Bytes) : String := String.ofList (bytes.map fun b => Char.ofNat b.toNat)

/-- `str.encode()` -/
def encodeUtf8 (s : String) : Bytes := s.toList.flatMap String.utf8EncodeChar

abbrev Header := Bytes × Bytes

/-- `_HEADER_KEY` -/
def headerKey : Bytes := encodeUtf8 "X-Correlation-ID".toLower

/-! ## Applications -/

/-- What the middleware reads of the scope of a request. -/
structure Scope where
  type : String
  method : Text
  path : Text
  headers : List Header

/-- A message to the server, with the entries `ν` that the middleware leaves alone. -/
inductive AsgiMessage (ν : Type) where
  /-- `http.response.start` -/
  | responseStart (status : Int) (headers : Option (List Header)) (entries : ν)
  | other (entries : ν)

/-- What an application asks for; `ω` is what else it does. -/
inductive AppCall (ν ω : Type) where
  | receive
  | send (message : AsgiMessage ν)
  /-- A call of a logger. -/
  | log (call : LogCall)
  /-- `correlation_id_var.get()` -/
  | correlationId
  | outside (w : ω)

@[reducible] def AppCall.Answer {ν ω : Type} (μ : Type) (S : ω → Type) : AppCall ν ω → Type
  | .receive => μ
  | .send _ => Unit
  | .log _ => Unit
  | .correlationId => Option String
  | .outside w => S w

/-- What a task asks for: what the application in it does, and the middleware's own calls. -/
inductive TaskCall (ν ω : Type) where
  | app (c : AppCall ν ω)
  | uuid4
  /-- `correlation_id_var.set(id)`, answered with the value before. -/
  | setVar (id : String)
  | resetVar (token : Option String)
  | perfCounter
  /-- The time of a log record. -/
  | now

@[reducible] def TaskCall.Answer {ν ω : Type} (μ : Type) (S : ω → Type) (τ : Type) : TaskCall ν ω → Type
  | .app c => c.Answer μ S
  | .uuid4 => UuidHex
  | .setVar _ => Option String
  | .resetVar _ => Unit
  | .perfCounter => τ
  | .now => Text

section Middleware
variable {μ ν ω τ ε : Type} {S : ω → Type}

/-- An application at work. -/
abbrev AppJob (μ ν : Type) {ω : Type} (S : ω → Type) (ε : Type) := Job (AppCall ν ω) (AppCall.Answer μ S) ε Unit

abbrev TaskJob (μ ν : Type) {ω : Type} (S : ω → Type) (τ ε α : Type) :=
  Job (TaskCall ν ω) (TaskCall.Answer μ S τ) ε α

/-- An application as it is. -/
def runPlain : AppJob μ ν S ε → TaskJob μ ν S τ ε Unit
  | .ret a => .ret a
  | .raise e => .raise e
  | .call c k => .call (.app c) fun x => runPlain (k x)

/-! ## `CorrelationIdMiddleware` -/

/-- The message that `send_with_header` passes on. -/
def AsgiMessage.withHeader (id : String) : AsgiMessage ν → AsgiMessage ν
  | .responseStart status headers entries =>
      .responseStart status (some (headers.getD [] ++ [(headerKey, encodeUtf8 id)])) entries
  | .other entries => .other entries

/-- The `status_code` after the message. -/
def AsgiMessage.status (before : Int) : AsgiMessage ν → Int
  | .responseStart status _ _ => status
  | .other _ => before

/-- The application with `send_with_header`. It ends with its outcome and the last `status_code`. -/
def runWithHeader (id : String) (status : Int) : AppJob μ ν S ε → TaskJob μ ν S τ ε (Except ε Unit × Int)
  | .ret a => .ret (.ok a, status)
  | .raise e => .ret (.error e, status)
  | .call (.send m) k => .call (.app (.send (m.withHeader id))) fun x => runWithHeader id (m.status status) (k x)
  | .call .receive k => .call (.app .receive) fun x => runWithHeader id status (k x)
  | .call (.log call) k => .call (.app (.log call)) fun x => runWithHeader id status (k x)
  | .call .correlationId k => .call (.app .correlationId) fun x => runWithHeader id status (k x)
  | .call (.outside w) k => .call (.app (.outside w)) fun x => runWithHeader id status (k x)

/-- `dict(scope["headers"]).get(_HEADER_KEY, b"")`: of two headers with one name the later one counts. -/
def Scope.rawId (scope : Scope) : Bytes := (scope.headers.reverse.lookup headerKey).getD []

def Scope.incoming (scope : Scope) : String := decodeLatin1 scope.rawId

/-- The access log line. -/
def Scope.accessCall (scope : Scope) (status : Int) (milliseconds created : Text) : LogCall where
  name := "fleet_management.access".toList
  levelname := "INFO".toList
  created := created
  msg := "http_request method=%s path=%s status=%s duration_ms=%.1f".toList
  args := .tuple [.str scope.method, .str scope.path, .int status, .float milliseconds .finite]
  extra := []
  distinct := List.nodup_nil

variable (milliseconds : τ → τ → Text)

/-- `correlation_id_var.reset(token)`, and then the outcome. -/
def resetTask (token : Option String) (outcome : Except ε Unit) : TaskJob μ ν S τ ε Unit := do
  let _ ← .perform (.resetVar token)
  .ofExcept outcome

/-- The `finally` block. -/
def closeTask (scope : Scope) (token : Option String) (started : τ) (ending : Except ε Unit × Int) :
    TaskJob μ ν S τ ε Unit := do
  let ended ← .perform .perfCounter
  let created ← .perform .now
  let _ ← .perform (.app (.log (scope.accessCall ending.2 (milliseconds started ended) created)))
  resetTask token ending.1

def serveAs (app : AppJob μ ν S ε) (scope : Scope) (id : String) : TaskJob μ ν S τ ε Unit := do
  let token ← .perform (.setVar id)
  let started ← .perform .perfCounter
  closeTask milliseconds scope token started (← runWithHeader id 500 app)

/-- `CorrelationIdMiddleware.__call__`, where `milliseconds` is the time between two readings of the counter. -/
def correlationIdMiddleware (app : Scope → AppJob μ ν S ε) (scope : Scope) : TaskJob μ ν S τ ε Unit :=
  if scope.type ≠ "http" then runPlain (app scope)
  else if isCorrelationId scope.incoming then serveAs milliseconds (app scope) scope scope.incoming
  else do
    let uuid ← Job.perform TaskCall.uuid4
    serveAs milliseconds (app scope) scope uuid.val

end Middleware

/-! ## The server -/

/-- Each task has a context of its own. All write one log. -/
structure Server (ι ν : Type) where
  context : ι → Option String
  sent : ι → List (AsgiMessage ν)
  log : List (ι × LogRecord)

/-- What the environment decides at a call. -/
structure Occasion (μ : Type) {ω : Type} (S : ω → Type) (τ ε : Type) where
  fault : Option ε
  message : μ
  outside : (w : ω) → S w
  uuid : UuidHex
  counter : τ
  now : Text

section Server
variable {ι μ ν ω τ ε : Type} {S : ω → Type} [DecidableEq ι]

def Occasion.answer {α : Type} (c : Occasion μ S τ ε) (a : α) : Except ε α :=
  match c.fault with
  | some e => .error e
  | none => .ok a

/-- The record of a call, as a handler writes it. -/
def recordOf (t : TextTables) (context : Option String) (call : LogCall) : Except PyError LogRecord := do
  sanitizeRecord t (context.map String.toList) (← makeRecord call)

/-- The calls of task `i`. A logger raises what the filter raises. -/
def answerTask (t : TextTables) (raised : PyError → ε) :
    SharedDevice ι (Server ι ν) (Occasion μ S τ ε) (TaskCall ν ω) (TaskCall.Answer μ S τ) ε
  | _, .app .receive, c, s => some (c.answer c.message, s)
  | i, .app (.send m), c, s =>
      match c.fault with
      | some e => some (.error e, s)
      | none => some (.ok (), { s with sent := Function.update s.sent i (s.sent i ++ [m]) })
  | i, .app (.log call), _, s =>
      match recordOf t (s.context i) call with
      | .ok record => some (.ok (), { s with log := s.log ++ [(i, record)] })
      | .error e => some (.error (raised e), s)
  | i, .app .correlationId, _, s => some (.ok (s.context i), s)
  | _, .app (.outside w), c, s => some (c.answer (c.outside w), s)
  | _, .uuid4, c, s => some (.ok c.uuid, s)
  | i, .setVar id, _, s => some (.ok (s.context i), { s with context := Function.update s.context i (some id) })
  | i, .resetVar token, _, s => some (.ok (), { s with context := Function.update s.context i token })
  | _, .perfCounter, c, s => some (.ok c.counter, s)
  | _, .now, c, s => some (.ok c.now, s)

end Server

end FleetManagement
