import FleetManagement.Library.Runs
import FleetManagement.Models

/-!
# The hash router

`static/js/app.js`: every hash change starts a `render`, which suspends while it asks for the session's user
and again while its view loads. The requests succeed here.
-/

namespace FleetManagement

/-! ## Routes -/

structure Route where
  path : String
  isPublic : Bool := false
  role : Option UserRole := none
  wide : Bool := false
  deriving DecidableEq

def routes : List Route :=
  [{ path := "/login", isPublic := true }, { path := "/register", isPublic := true },
   { path := "/stations", role := some .user }, { path := "/stations/:id", role := some .user },
   { path := "/rentals", role := some .user }, { path := "/admin", role := some .admin },
   { path := "/admin/map", role := some .admin, wide := true },
   { path := "/admin/stations", role := some .admin }, { path := "/admin/vehicles", role := some .admin },
   { path := "/admin/rentals", role := some .admin }, { path := "/admin/users", role := some .admin },
   { path := "/profile" }]

structure NavLink where
  href : String
  label : String
  active : Bool
  deriving DecidableEq

def nav : UserRole → List (String × String)
  | .user => [("/stations", "Станції"), ("/rentals", "Мої поїздки"), ("/profile", "Профіль")]
  | .admin =>
      [("/admin", "Огляд"), ("/admin/map", "Карта"), ("/admin/stations", "Станції"),
       ("/admin/vehicles", "Автомобілі"), ("/admin/rentals", "Оренди"), ("/admin/users", "Користувачі"),
       ("/profile", "Профіль")]

/-- `HOME`, and the login page for nobody. -/
def home : Option UserRole → String
  | none => "/login"
  | some .user => "/stations"
  | some .admin => "/admin"

/-- The session of a browser and the standard library of its script. -/
structure Browser where
  /-- The role of the user whose token is stored. -/
  token : Option UserRole
  /-- `decodeURIComponent`, which throws on malformed input. -/
  decodeURIComponent : String → Option String

/-- The segments of a path. -/
def segments (path : String) : List (List Char) := path.toList.splitOn '/'

/-- Matches the segments of a path with those of a route, and returns the parameters. -/
def matchSegments : List (List Char) → List (List Char) → Option (List (String × String))
  | [], [] => some []
  | (':' :: name) :: pattern, segment :: path =>
      if segment = [] then none
      else (matchSegments pattern path).map ((String.ofList name, String.ofList segment) :: ·)
  | literal :: pattern, segment :: path => if literal = segment then matchSegments pattern path else none
  | _, _ => none

inductive Found where
  | route (route : Route)
  | nothing
  | throws
  deriving DecidableEq

/-- `match`: the first route that matches. -/
def Browser.find (browser : Browser) (path : String) : List Route → Found
  | [] => .nothing
  | route :: rest =>
      match matchSegments (segments route.path) (segments path) with
      | some params =>
          if params.all fun p => (browser.decodeURIComponent p.2).isSome then .route route else .throws
      | none => browser.find path rest

inductive Verdict where
  | show (route : Route)
  | redirect (path : String)
  | throws
  deriving DecidableEq

/-- What `render` does with a path once the user is known. -/
def Browser.verdict (browser : Browser) (user : Option UserRole) (path : String) : Verdict :=
  match browser.find path routes with
  | .throws => .throws
  | .nothing => .redirect (home user)
  | .route route =>
      if route.isPublic ∧ user.isSome then .redirect (home user)
      else if ¬route.isPublic ∧ user = none then .redirect "/login"
      else if route.role ≠ none ∧ route.role ≠ user then .redirect (home user)
      else .show route

/-! ## The page -/

inductive Content where
  | blank
  | spinner
  | view (path : String)
  deriving DecidableEq

structure Topbar where
  hidden : Bool
  links : List NavLink
  deriving DecidableEq

def navLinks (role : UserRole) (path : String) : List NavLink :=
  (nav role).map fun (href, label) =>
    ⟨href, label, path = href || (href != "/admin" && (href ++ "/").toList.isPrefixOf path.toList)⟩

def renderChrome (user : Option UserRole) (path : String) (topbar : Topbar) : Topbar :=
  match user with
  | none => { topbar with hidden := true }
  | some role => ⟨false, navLinks role path⟩

/-- The path of a hash, which is `location.hash` without its first character. -/
def pathOf (hash : String) : String := if hash = "" then "/" else hash

structure Router where
  hash : String
  /-- The `hashchange` events that have not been dispatched yet. -/
  queue : Nat
  /-- `renderSeq` -/
  seq : Nat
  user : Option UserRole
  /-- The renders that wait for `/auth/me`, with their sequence numbers and paths. -/
  waiting : List (Nat × String)
  /-- The renders that wait for their view. -/
  loading : List (Nat × String)
  app : Content
  topbar : Topbar
  wide : Bool
  deriving DecidableEq

inductive RouterEvent where
  /-- The hash is changed. -/
  | navigate (path : String)
  | hashchange
  | authMe (seq : Nat)
  /-- The view of a render has loaded. -/
  | loaded (seq : Nat)
  deriving DecidableEq

namespace Router

/-- The page before its first `render`. -/
def start (path : String) : Router := ⟨path, 1, 0, none, [], [], .blank, ⟨true, []⟩, false⟩

/-- `ctx.navigate`, where `again` is `render`. -/
def navigate (again : Router → Router) (path : String) (s : Router) : Router :=
  if s.hash = path then again s else { s with hash := path, queue := s.queue + 1 }

/-- The spinner and the chrome of a route whose view now loads. -/
def showRoute (n : Nat) (path : String) (route : Route) (s : Router) : Router :=
  { s with
    topbar := renderChrome s.user path s.topbar
    wide := route.wide
    app := .spinner
    loading := s.loading ++ [(n, path)] }

/-- `render` from `match` on. -/
def proceed (browser : Browser) (again : Router → Router) (n : Nat) (path : String) (s : Router) : Router :=
  match browser.verdict s.user path with
  | .throws => s
  | .redirect target => s.navigate again target
  | .show route => s.showRoute n path route

/-- `render` up to the first point where it suspends, with `calls` calls of itself to go. -/
def renderCalls (browser : Browser) : (calls : Nat) → Router → Router
  | 0, s => s
  | calls + 1, s =>
      let s := { s with seq := s.seq + 1 }
      if s.user = none ∧ browser.token ≠ none then { s with waiting := s.waiting ++ [(s.seq, pathOf s.hash)] }
      else s.proceed browser (renderCalls browser calls) s.seq (pathOf s.hash)

/-- A redirection leads to a page that is shown, so `render` calls itself once at most. -/
def render (browser : Browser) (s : Router) : Router := s.renderCalls browser 2

/-- The render `n` goes on with the user that `/auth/me` has answered. -/
def onAuthMe (browser : Browser) (n : Nat) (s : Router) : Router :=
  match s.waiting.lookup n with
  | none => s
  | some path =>
      { s with waiting := s.waiting.filter (·.1 ≠ n), user := browser.token }.proceed browser (render browser) n path

/-- The render `n` goes on with its view. -/
def onLoaded (n : Nat) (s : Router) : Router :=
  match s.loading.lookup n with
  | none => s
  | some path =>
      let s := { s with loading := s.loading.filter (·.1 ≠ n) }
      if n = s.seq then { s with app := .view path } else s

def step (browser : Browser) (s : Router) : RouterEvent → Router
  | .navigate path => s.navigate id path
  | .hashchange => if s.queue = 0 then s else { s with queue := s.queue - 1 }.render browser
  | .authMe n => s.onAuthMe browser n
  | .loaded n => s.onLoaded n

end Router

end FleetManagement
