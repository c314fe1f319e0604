import FleetManagement.Web.Router
import Mathlib.Tactic.SplitIfs

/-!
# Overlapping navigations

The sequence number of a render is tested after its view has loaded, but not when it goes on after
`/auth/me`. The page follows the newest render exactly as long as no older one goes on in between.
-/

namespace FleetManagement

/-! ## The page of the newest render -/

/-- The account's links are shown, with the entry of `path` highlighted. -/
def Browser.HasChrome (browser : Browser) (topbar : Topbar) (path : String) : Prop :=
  match browser.token with
  | none => topbar.hidden = true
  | some role => topbar = ⟨false, navLinks role path⟩

/-- Once no hash change is to come and the newest render has its user, the page has the chrome of the last
navigated route, and its view or, while that loads, the spinner. -/
def Router.ShowsNewest (browser : Browser) (s : Router) : Prop :=
  s.queue = 0 → (∀ path, (s.seq, path) ∉ s.waiting) →
    browser.HasChrome s.topbar (pathOf s.hash) ∧
      (s.app = .view (pathOf s.hash) ∨ s.app = .spinner ∧ (s.seq, pathOf s.hash) ∈ s.loading)

/-- All requests and hash changes have been dealt with. -/
def Router.Settled (s : Router) : Prop := s.queue = 0 ∧ s.waiting = [] ∧ s.loading = []

/-- The page of the last navigated route. -/
def Router.Right (browser : Browser) (s : Router) : Prop :=
  s.app = .view (pathOf s.hash) ∧ browser.HasChrome s.topbar (pathOf s.hash)

theorem Router.ShowsNewest.right {browser : Browser} {s : Router} (h : s.ShowsNewest browser) (hs : s.Settled) :
    s.Right browser := by
  obtain ⟨hqueue, hwaiting, hloading⟩ := hs
  obtain ⟨hchrome, happ | ⟨-, hspinner⟩⟩ := h hqueue (by simp [hwaiting])
  · exact ⟨happ, hchrome⟩
  · rw [hloading] at hspinner
    cases hspinner

/-- The path has no malformed parameter. -/
def Browser.Decodes (browser : Browser) (path : String) : Prop := browser.find path routes ≠ .throws

/-- The condition on a step. A render that has been superseded may show its route only while a newer one is
still to do so, or while the newest one loads a view with the same chrome; and the newest render needs a path
that it can decode. -/
def Router.Meets (browser : Browser) (s : Router) : RouterEvent → Prop
  | .navigate _ => True
  | .loaded _ => True
  | .hashchange =>
      s.queue = 1 → ¬(s.user = none ∧ browser.token ≠ none) → browser.Decodes (pathOf s.hash)
  | .authMe n => ∀ path, s.waiting.lookup n = some path → s.queue = 0 →
      (n = s.seq → browser.Decodes path) ∧
      (n ≠ s.seq → (∃ route, browser.verdict browser.token path = .show route) →
        (∃ newest, (s.seq, newest) ∈ s.waiting) ∨
          (s.seq, pathOf s.hash) ∈ s.loading ∧
            ∀ role ∈ browser.token, navLinks role path = navLinks role (pathOf s.hash))

/-! ## The invariant -/

/-- What holds also while a handler is at work. -/
structure Router.Sound (browser : Browser) (s : Router) : Prop where
  known : s.user = none ∨ s.user = browser.token
  numbered : ∀ e ∈ s.waiting ++ s.loading, e.1 ≤ s.seq
  newest : s.queue = 0 → ∀ path, (s.seq, path) ∈ s.waiting ++ s.loading → path = pathOf s.hash
  loads : ∀ e ∈ s.loading, browser.Decodes e.2
  shown : ∀ path, s.app = .view path → browser.Decodes path

structure Router.Inv (browser : Browser) (s : Router) : Prop extends s.Sound browser where
  view : s.ShowsNewest browser

section Lemmas
variable {browser : Browser} {s : Router} {n : Nat} {path : String} {route : Route}

theorem verdict_home (browser : Browser) (user : Option UserRole) :
    ∃ route, browser.verdict user (home user) = .show route := by
  rcases user with _ | _ | _
  · exact ⟨_, rfl⟩
  · exact ⟨_, rfl⟩
  · exact ⟨_, rfl⟩

theorem verdict_redirect {user : Option UserRole} {target : String}
    (h : browser.verdict user path = .redirect target) : target = home user := by
  unfold Browser.verdict at h
  cases hfind : browser.find path routes with
  | throws => rw [hfind] at h; cases h
  | nothing =>
      rw [hfind] at h
      cases h
      rfl
  | route r =>
      rw [hfind] at h
      simp only at h
      split_ifs at h with hpublic hnobody hrole
      · cases h; rfl
      · cases h
        rw [hnobody.2]
        rfl
      · cases h; rfl

theorem verdict_throws {user : Option UserRole} : browser.verdict user path = .throws ↔ ¬browser.Decodes path := by
  unfold Browser.verdict Browser.Decodes
  cases hfind : browser.find path routes with
  | throws => simp
  | nothing => simp
  | route r =>
      simp only
      split_ifs <;> simp

theorem decodes_of_show {user : Option UserRole} (h : browser.verdict user path = .show route) :
    browser.Decodes path := by
  by_contra hthrows
  rw [verdict_throws.mpr hthrows] at h
  cases h

theorem hasChrome_renderChrome (topbar : Topbar) (path : String) :
    browser.HasChrome (renderChrome browser.token path topbar) path := by
  unfold Browser.HasChrome renderChrome
  cases browser.token <;> rfl

theorem renderChrome_congr {user : Option UserRole} {topbar : Topbar} {path path' : String}
    (h : ∀ role ∈ user, navLinks role path = navLinks role path') :
    renderChrome user path topbar = renderChrome user path' topbar := by
  unfold renderChrome
  cases user with
  | none => rfl
  | some role => exact congrArg (Topbar.mk false) (h role rfl)

theorem mem_of_lookup {l : List (Nat × String)} (h : l.lookup n = some path) : (n, path) ∈ l := by
  obtain ⟨l₁, l₂, rfl, -⟩ := List.lookup_eq_some_iff.mp h
  exact List.mem_append_right _ List.mem_cons_self

/-- The renders other than `n`. -/
theorem mem_others {l : List (Nat × String)} {m : Nat} (hm : m ≠ n) :
    (m, path) ∈ l.filter (·.1 ≠ n) ↔ (m, path) ∈ l := by
  simp [List.mem_filter, hm]

theorem not_mem_others {l : List (Nat × String)} : (n, path) ∉ l.filter (·.1 ≠ n) := by
  simp [List.mem_filter]

/-! ## Renders that go on -/

theorem proceed_throws {again : Router → Router} (h : ¬browser.Decodes path) :
    s.proceed browser again n path = s := by
  unfold Router.proceed
  rw [verdict_throws.mpr h]

theorem proceed_show {again : Router → Router} (h : browser.verdict s.user path = .show route) :
    s.proceed browser again n path = s.showRoute n path route := by
  unfold Router.proceed
  rw [h]

/-- The spinner and the chrome of `path` are in place, where they do not mislead. -/
theorem inv_showRoute (h : s.Sound browser) (hn : n ≤ s.seq) (hdecodes : browser.Decodes path)
    (hpath : n = s.seq → s.queue = 0 → path = pathOf s.hash)
    (hview : s.queue = 0 → (∀ p, (s.seq, p) ∉ s.waiting) →
      browser.HasChrome (renderChrome s.user path s.topbar) (pathOf s.hash) ∧
        (s.seq, pathOf s.hash) ∈ s.loading ++ [(n, path)]) :
    (s.showRoute n path route).Inv browser where
  known := h.known
  numbered e he := by
    rcases List.mem_append.mp he with he | he
    · exact h.numbered e (List.mem_append_left _ he)
    · rcases List.mem_append.mp he with he | he
      · exact h.numbered e (List.mem_append_right _ he)
      · rw [List.mem_singleton.mp he]
        exact hn
  newest hqueue p hp := by
    rcases List.mem_append.mp hp with hp | hp
    · exact h.newest hqueue p (List.mem_append_left _ hp)
    · rcases List.mem_append.mp hp with hp | hp
      · exact h.newest hqueue p (List.mem_append_right _ hp)
      · obtain ⟨hseq, rfl⟩ := Prod.mk.inj (List.mem_singleton.mp hp)
        exact hpath hseq.symm hqueue
  loads e he := by
    rcases List.mem_append.mp he with he | he
    · exact h.loads e he
    · rw [List.mem_singleton.mp he]
      exact hdecodes
  shown p hp := by cases hp
  view hqueue hwaits := by
    obtain ⟨hchrome, hloading⟩ := hview hqueue hwaits
    exact ⟨hchrome, .inr ⟨rfl, hloading⟩⟩

theorem inv_showRoute_newest (h : s.Sound browser) (huser : s.user = browser.token)
    (hdecodes : browser.Decodes path) (hpath : s.queue = 0 → path = pathOf s.hash) :
    (s.showRoute s.seq path route).Inv browser := by
  refine inv_showRoute h le_rfl hdecodes (fun _ => hpath) fun hqueue _ => ?_
  rw [huser, ← hpath hqueue]
  exact ⟨hasChrome_renderChrome _ _, List.mem_append_right _ (List.mem_singleton_self _)⟩

theorem pathOf_home (user : Option UserRole) : pathOf (home user) = home user := by
  rcases user with _ | _ | _ <;> rfl

/-- Another render than those so far. -/
theorem sound_next (h : s.Sound browser) : ({ s with seq := s.seq + 1 } : Router).Sound browser where
  known := h.known
  numbered e he := (h.numbered e he).trans (Nat.le_succ _)
  newest _ _ hp := absurd (h.numbered _ hp) (Nat.not_succ_le_self _)
  loads := h.loads
  shown := h.shown

/-- A redirection to the page that already has the hash renders it at once. -/
theorem inv_renderCalls_home (h : s.Sound browser) (huser : s.user = browser.token)
    (hhash : s.hash = home s.user) (calls : Nat) : (s.renderCalls browser (calls + 1)).Inv browser := by
  have hknown : ¬(s.user = none ∧ browser.token ≠ none) := fun hs => hs.2 (huser ▸ hs.1)
  obtain ⟨route, hshow⟩ := verdict_home browser s.user
  have hpath : pathOf s.hash = home s.user := by rw [hhash, pathOf_home]
  show (if s.user = none ∧ browser.token ≠ none then _ else _ : Router).Inv browser
  rw [if_neg hknown]
  unfold Router.proceed
  rw [hpath]
  simp only [hshow]
  exact inv_showRoute_newest (sound_next h) huser (decodes_of_show hshow) fun _ => hpath.symm

theorem inv_redirect (h : s.Sound browser) (huser : s.user = browser.token) {target : String}
    (hv : browser.verdict s.user path = .redirect target) (calls : Nat) :
    (s.navigate (Router.renderCalls browser (calls + 1)) target).Inv browser := by
  obtain rfl := verdict_redirect hv
  unfold Router.navigate
  split_ifs with hhash
  · exact inv_renderCalls_home h huser hhash calls
  · exact
      { known := h.known
        numbered := h.numbered
        newest := fun hqueue => by cases hqueue
        loads := h.loads
        shown := h.shown
        view := fun hqueue => by cases hqueue }

theorem inv_proceed_newest (h : s.Sound browser) (huser : s.user = browser.token)
    (hpath : s.queue = 0 → path = pathOf s.hash) (hdecodes : s.queue = 0 → browser.Decodes path)
    (calls : Nat) : (s.proceed browser (Router.renderCalls browser (calls + 1)) s.seq path).Inv browser := by
  unfold Router.proceed
  cases hv : browser.verdict s.user path with
  | throws => exact ⟨h, fun hqueue => absurd (hdecodes hqueue) (verdict_throws.mp hv)⟩
  | redirect target => exact inv_redirect h huser hv calls
  | «show» route => exact inv_showRoute_newest h huser (decodes_of_show hv) hpath

theorem inv_proceed_older (h : s.Sound browser) (huser : s.user = browser.token) (hn : n < s.seq)
    (hview : s.ShowsNewest browser)
    (hmeets : s.queue = 0 → (∃ route, browser.verdict browser.token path = .show route) →
      (∃ newest, (s.seq, newest) ∈ s.waiting) ∨ (s.seq, pathOf s.hash) ∈ s.loading ∧
        ∀ role ∈ browser.token, navLinks role path = navLinks role (pathOf s.hash))
    (calls : Nat) : (s.proceed browser (Router.renderCalls browser (calls + 1)) n path).Inv browser := by
  unfold Router.proceed
  cases hv : browser.verdict s.user path with
  | throws => exact ⟨h, hview⟩
  | redirect target => exact inv_redirect h huser hv calls
  | «show» route =>
      refine inv_showRoute h hn.le (decodes_of_show hv) (fun heq => absurd heq hn.ne) fun hqueue hwaits => ?_
      rw [huser] at hv ⊢
      rcases hmeets hqueue ⟨route, hv⟩ with ⟨newest, hnewest⟩ | ⟨hloading, hlinks⟩
      · exact absurd hnewest (hwaits newest)
      · refine ⟨?_, List.mem_append_left _ hloading⟩
        rw [renderChrome_congr hlinks]
        exact hasChrome_renderChrome _ _

/-! ## Step by step -/

theorem Router.Inv.hashchange (h : s.Inv browser) (hmeets : s.Meets browser .hashchange) :
    (s.step browser .hashchange).Inv browser := by
  show (if s.queue = 0 then s else _ : Router).Inv browser
  split_ifs with hqueue
  · exact h
  have hnext : ({ s with queue := s.queue - 1, seq := s.seq + 1 } : Router).Sound browser :=
    { known := h.known
      numbered := fun e he => (h.numbered e he).trans (Nat.le_succ _)
      newest := fun _ _ hp => absurd (h.numbered _ hp) (Nat.not_succ_le_self _)
      loads := h.loads
      shown := h.shown }
  show (if s.user = none ∧ browser.token ≠ none then _ else _ : Router).Inv browser
  split_ifs with hunknown
  · -- the new render waits for the user
    exact
      { known := h.known
        numbered := fun e he => by
          rcases List.mem_append.mp he with he | he
          · rcases List.mem_append.mp he with he | he
            · exact hnext.numbered e (List.mem_append_left _ he)
            · rw [List.mem_singleton.mp he]
          · exact hnext.numbered e (List.mem_append_right _ he)
        newest := fun hlast p hp => by
          rcases List.mem_append.mp hp with hp | hp
          · rcases List.mem_append.mp hp with hp | hp
            · exact hnext.newest hlast p (List.mem_append_left _ hp)
            · exact (Prod.mk.inj (List.mem_singleton.mp hp)).2
          · exact hnext.newest hlast p (List.mem_append_right _ hp)
        loads := h.loads
        shown := h.shown
        view := fun _ hwaits =>
          absurd (List.mem_append_right _ (List.mem_singleton_self _)) (hwaits (pathOf s.hash)) }
  · have huser : s.user = browser.token := by
      rcases h.known with hnone | hknown
      · rw [hnone]
        by_contra htoken
        exact hunknown ⟨hnone, fun hn => htoken hn.symm⟩
      · exact hknown
    refine inv_proceed_newest hnext huser (fun _ => rfl) (fun hlast => hmeets ?_ hunknown) 0
    change s.queue - 1 = 0 at hlast
    omega

theorem Router.Inv.authMe (h : s.Inv browser) (hmeets : s.Meets browser (.authMe n)) :
    (s.onAuthMe browser n).Inv browser := by
  unfold Router.onAuthMe
  cases hlookup : s.waiting.lookup n with
  | none => exact h
  | some path =>
      have hmem := mem_of_lookup hlookup
      have hnow : ({ s with waiting := s.waiting.filter (·.1 ≠ n), user := browser.token } : Router).Sound
          browser :=
        { known := .inr rfl
          numbered := fun e he => h.numbered e (by
            rcases List.mem_append.mp he with he | he
            · exact List.mem_append_left _ (List.mem_of_mem_filter he)
            · exact List.mem_append_right _ he)
          newest := fun hqueue p hp => h.newest hqueue p (by
            rcases List.mem_append.mp hp with hp | hp
            · exact List.mem_append_left _ (List.mem_of_mem_filter hp)
            · exact List.mem_append_right _ hp)
          loads := h.loads
          shown := h.shown }
      rcases Nat.lt_or_eq_of_le (h.numbered _ (List.mem_append_left _ hmem)) with hn | hn
      · refine inv_proceed_older hnow rfl hn (fun hqueue hwaits => ?_) (fun hqueue hshow => ?_) 1
        · exact h.view hqueue fun p hp => hwaits p ((mem_others (Nat.ne_of_gt hn)).mpr hp)
        · refine ((hmeets path hlookup hqueue).2 (Nat.ne_of_lt hn) hshow).imp_left ?_
          rintro ⟨newest, hnewest⟩
          exact ⟨newest, (mem_others (Nat.ne_of_gt hn)).mpr hnewest⟩
      · obtain rfl : n = s.seq := hn
        exact inv_proceed_newest hnow rfl
          (fun hqueue => h.newest hqueue path (List.mem_append_left _ hmem))
          (fun hqueue => (hmeets path hlookup hqueue).1 rfl) 1

theorem Router.Inv.loaded (h : s.Inv browser) (n : Nat) : (s.onLoaded n).Inv browser := by
  unfold Router.onLoaded
  cases hlookup : s.loading.lookup n with
  | none => exact h
  | some path =>
      have hmem := mem_of_lookup hlookup
      have hsub : ∀ e, e ∈ s.waiting ++ s.loading.filter (·.1 ≠ n) → e ∈ s.waiting ++ s.loading := by
        intro e he
        rcases List.mem_append.mp he with he | he
        · exact List.mem_append_left _ he
        · exact List.mem_append_right _ (List.mem_of_mem_filter he)
      have hnow : ({ s with loading := s.loading.filter (·.1 ≠ n) } : Router).Sound browser :=
        { known := h.known
          numbered := fun e he => h.numbered e (hsub e he)
          newest := fun hqueue p hp => h.newest hqueue p (hsub _ hp)
          loads := fun e he => h.loads e (List.mem_of_mem_filter he)
          shown := h.shown }
      show (if n = s.seq then _ else _ : Router).Inv browser
      split_ifs with hn
      · subst hn
        exact
          { known := hnow.known
            numbered := hnow.numbered
            newest := hnow.newest
            loads := hnow.loads
            shown := fun p hp => by
              cases hp
              exact h.loads _ hmem
            view := fun hqueue hwaits => by
              have hpath := h.newest hqueue path (List.mem_append_right _ hmem)
              exact ⟨(h.view hqueue hwaits).1, .inl (congrArg Content.view hpath)⟩ }
      · refine ⟨hnow, fun hqueue hwaits => ?_⟩
        obtain ⟨hchrome, happ⟩ := h.view hqueue hwaits
        exact ⟨hchrome, happ.imp_right fun hspinner => ⟨hspinner.1, (mem_others (Ne.symm hn)).mpr hspinner.2⟩⟩

theorem Router.Inv.step (h : s.Inv browser) {e : RouterEvent} (hmeets : s.Meets browser e) :
    (s.step browser e).Inv browser := by
  cases e with
  | navigate path =>
      show (s.navigate id path).Inv browser
      unfold Router.navigate
      split_ifs
      · exact h
      · exact
          { known := h.known
            numbered := h.numbered
            newest := fun hqueue => by cases hqueue
            loads := h.loads
            shown := h.shown
            view := fun hqueue => by cases hqueue }
  | hashchange => exact h.hashchange hmeets
  | authMe n => exact h.authMe hmeets
  | loaded n => exact h.loaded n

/-! ## Steps that must meet the condition -/

theorem meets_hashchange (h : s.Inv browser) (hshows : (s.step browser .hashchange).ShowsNewest browser) :
    s.Meets browser .hashchange := by
  intro hlast hknown
  by_contra hthrows
  -- the newest render breaks off, and the page of an older one stays
  have hstep : s.step browser .hashchange = { s with queue := 0, seq := s.seq + 1 } := by
    show (if s.queue = 0 then s else _ : Router) = _
    rw [if_neg (by omega)]
    show (if s.user = none ∧ browser.token ≠ none then _ else _ : Router) = _
    rw [if_neg hknown, proceed_throws hthrows, hlast]
  rw [hstep] at hshows
  have hnew : ∀ path, (s.seq + 1, path) ∉ s.waiting ++ s.loading := fun path hp =>
    absurd (h.numbered _ hp) (Nat.not_succ_le_self _)
  obtain ⟨-, happ | ⟨-, hloading⟩⟩ := hshows rfl fun path hp => hnew path (List.mem_append_left _ hp)
  · exact hthrows (h.shown _ happ)
  · exact hnew _ (List.mem_append_right _ hloading)

theorem meets_authMe (h : s.Inv browser) (hshows : (s.onAuthMe browser n).ShowsNewest browser) :
    s.Meets browser (.authMe n) := by
  intro path hlookup hqueue
  have hmem := mem_of_lookup hlookup
  unfold Router.onAuthMe at hshows
  rw [hlookup] at hshows
  simp only at hshows
  refine ⟨fun hn => ?_, fun hn ⟨route, hshow⟩ => ?_⟩
  · subst hn
    by_contra hthrows
    rw [proceed_throws hthrows] at hshows
    have hpath := h.newest hqueue path (List.mem_append_left _ hmem)
    obtain ⟨-, happ | ⟨-, hloading⟩⟩ := hshows hqueue fun p => not_mem_others
    · exact hthrows (hpath ▸ h.shown _ happ)
    · exact hthrows (hpath ▸ h.loads (s.seq, pathOf s.hash) hloading)
  · by_cases hnewest : ∃ newest, (s.seq, newest) ∈ s.waiting
    · exact .inl hnewest
    · rw [proceed_show hshow] at hshows
      obtain ⟨hchrome, happ | ⟨-, hloading⟩⟩ := hshows hqueue fun p hp =>
        hnewest ⟨p, (mem_others (Ne.symm hn)).mp hp⟩
      · cases happ
      · refine .inr ⟨?_, fun role hrole => ?_⟩
        · rcases List.mem_append.mp hloading with hloading | hself
          · exact hloading
          · exact absurd (Prod.mk.inj (List.mem_singleton.mp hself)).1.symm hn
        · unfold Browser.HasChrome at hchrome
          rw [show browser.token = some role from hrole] at hchrome
          exact congrArg Topbar.links hchrome

theorem meets_of_showsNewest (h : s.Inv browser) {e : RouterEvent}
    (hshows : (s.step browser e).ShowsNewest browser) : s.Meets browser e := by
  cases e with
  | navigate path => trivial
  | hashchange => exact meets_hashchange h hshows
  | authMe n => exact meets_authMe h hshows
  | loaded n => trivial

theorem inv_start (browser : Browser) (path : String) : (Router.start path).Inv browser where
  known := .inl rfl
  numbered e he := by cases he
  newest _ _ hp := by cases hp
  loads e he := by cases he
  shown p hp := by cases hp
  view hqueue := by cases hqueue

end Lemmas

/-! ## Runs -/

/-- The page follows the newest render in every state of a run exactly if every step of the run meets the
condition, and then the last navigation has won whenever all requests have settled. -/
theorem last_navigation_wins_iff (browser : Browser) (path : String) (es : List RouterEvent) :
    ((∀ s, Runs.Visits (Router.step browser) (Router.start path) es s → s.ShowsNewest browser) ↔
      ∀ s e, Runs.Takes (Router.step browser) (Router.start path) es s e → s.Meets browser e) ∧
    ((∀ s e, Runs.Takes (Router.step browser) (Router.start path) es s e → s.Meets browser e) →
      ∀ s, Runs.Visits (Router.step browser) (Router.start path) es s → s.Settled → s.Right browser) := by
  refine ⟨Runs.invariant_iff_guarded (J := Router.Inv browser) (fun _ h => h.view) (fun _ _ h => h.step)
    (fun _ _ h => meets_of_showsNewest h) (inv_start browser path), fun hmeets s hs hsettled => ?_⟩
  have hinv : s.Inv browser :=
    Runs.invariant_of_guarded (fun _ _ h => h.step) (inv_start browser path) hmeets s hs
  exact hinv.view.right hsettled

/-- The session of a renter. -/
def renterBrowser : Browser := ⟨some .user, some⟩

/-- Two renders ask for the user, and the answer for the older one comes last. -/
def overtakenRender : List RouterEvent :=
  [.hashchange, .navigate "/rentals", .hashchange, .authMe 2, .loaded 2, .authMe 1, .loaded 1]

theorem late_answer_leaves_spinner :
    (Runs.run (Router.step renterBrowser) (Router.start "/profile") overtakenRender).Settled ∧
      ¬(Runs.run (Router.step renterBrowser) (Router.start "/profile") overtakenRender).Right renterBrowser := by
  have hrun : Runs.run (Router.step renterBrowser) (Router.start "/profile") overtakenRender =
      ⟨"/rentals", 0, 2, some .user, [], [], .spinner, ⟨false, navLinks .user "/profile"⟩, false⟩ := by
    decide +kernel
  rw [hrun]
  refine ⟨⟨rfl, rfl, rfl⟩, ?_⟩
  rintro ⟨happ, -⟩
  cases happ

end FleetManagement
