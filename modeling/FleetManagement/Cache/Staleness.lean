import FleetManagement.Cache.Paths

/-!
# How old a cached list can be

Every entry of the cache was stored by a list request that had loaded it from the database, and Redis drops
it when its time is over, so a missed invalidation or a failure of Redis never makes a list older than that.
-/

namespace FleetManagement

variable {ι : Type} [DecidableEq ι]

abbrev SiteCrew (ι : Type) := Crew ι (Site ι) SiteCommand SiteAnswer Failure SiteResponse

/-- Requests that have not begun, on the database `db` and a Redis with no keys. -/
def siteRequests (settings : CacheSettings) (adapters : Adapters) (db : Database) (clock : DateTime)
    (requests : ι → SiteRequest) : SiteCrew ι :=
  Crew.init (Sessions.init db, TextRedis.empty clock) fun i => (requests i).serve settings adapters

/-! ## What one call does -/

section Calls
variable {i j : ι} {t : SiteTurn} {s s' : Site ι}

theorem TextRedis.outcome_snd {α : Type} (redis : TextRedis) (t : CacheTurn)
    (r : Except RedisError α × TextRedis) :
    (redis.outcome t r).2 = redis ∨ (redis.outcome t r).2 = r.2 := by
  unfold TextRedis.outcome
  split
  · exact Or.inr rfl
  · exact Or.inl rfl
  · exact Or.inr rfl

theorem TextRedis.clock_execute (redis : TextRedis) (w : CacheCommand) :
    (redis.execute w).2.clock = redis.clock := by
  cases w with
  | get key => rfl
  | set key value ex => simp only [execute, set]; split <;> rfl
  | delete keys => simp only [execute, delete]; split <;> rfl

/-- Only a `SET` puts an entry there. -/
theorem TextRedis.entries_execute {redis : TextRedis} {w : CacheCommand} {key : String} {e : CacheEntry}
    (h : (redis.execute w).2.entries key = some e) : redis.entries key = some e ∨
      ∃ ex, w = .set key e.value ex ∧ e.expiresAt = redis.clock + 1000000 * ex := by
  cases w with
  | get key' => exact Or.inl h
  | set key' value ex =>
      simp only [execute, set] at h
      split at h
      · by_cases hkey : key = key'
        · subst hkey
          simp only [Function.update_self, Option.some.injEq] at h
          subst h
          exact Or.inr ⟨ex, rfl, rfl⟩
        · simp only [Function.update_of_ne hkey] at h
          exact Or.inl h
      · exact Or.inl h
  | delete keys =>
      simp only [execute, delete] at h
      split at h
      · exact Or.inl h
      · change (if key ∈ keys then none else redis.entries key) = some e at h
        split at h
        · cases h
        · exact Or.inl h

theorem clock_le_site {w : SiteCommand} {x : Except Failure (SiteAnswer w)}
    (h : site i w t s = some (x, s')) : s.2.clock ≤ s'.2.clock := by
  cases w with
  | inl w => rw [(site_inl h).1]
  | inr w =>
      obtain ⟨-, -, hredis⟩ := site_inr h
      have hafter : s.2.clock ≤ (s.2.after t.2).clock := by simp [TextRedis.after]
      rw [hredis]
      rcases (s.2.after t.2).outcome_snd t.2 ((s.2.after t.2).execute w) with heq | heq <;> rw [heq]
      · exact hafter
      · rw [TextRedis.clock_execute]; exact hafter

/-- An entry was there before, or the call is the `SET` that stores it. -/
theorem entries_site {w : SiteCommand} {x : Except Failure (SiteAnswer w)} {key : String}
    {e : CacheEntry} (h : site i w t s = some (x, s')) (he : s'.2.entries key = some e) :
    s.2.entries key = some e ∨
      ∃ ex, w = .inr (.set key e.value ex) ∧ e.expiresAt = s'.2.clock + 1000000 * ex := by
  cases w with
  | inl w => rw [(site_inl h).1] at he; exact Or.inl he
  | inr w =>
      obtain ⟨-, -, hredis⟩ := site_inr h
      have hafter : ∀ e, (s.2.after t.2).entries key = some e → s.2.entries key = some e := by
        intro e he
        simp only [TextRedis.after] at he
        split at he
        · cases he
        · exact he
      rcases (s.2.after t.2).outcome_snd t.2 ((s.2.after t.2).execute w) with heq | heq
      · rw [hredis, heq] at he
        exact Or.inl (hafter e he)
      · rw [hredis, heq] at he
        rcases TextRedis.entries_execute he with he | ⟨ex, rfl, hex⟩
        · exact Or.inl (hafter e he)
        · refine Or.inr ⟨ex, rfl, ?_⟩
          rw [hredis, heq, TextRedis.clock_execute]
          exact hex

theorem TextRedis.outcome_ok {α : Type} {redis : TextRedis} {t : CacheTurn}
    {r : Except RedisError α × TextRedis} {a : α} (h : (redis.outcome t r).1 = .ok a) :
    r.1 = .ok a ∧ (redis.outcome t r).2 = r.2 := by
  unfold TextRedis.outcome at h ⊢
  split at h
  · obtain ⟨r | b, redis'⟩ := r <;> cases h
    exact ⟨rfl, rfl⟩
  · cases h
  · cases h

/-- A `GET` finds an entry whose time is not over. -/
theorem lookup_site {x : Except Failure (Option String)} {key body : String}
    (h : site i (.inr (.get key)) t s = some (x, s')) (hx : x = .ok (some body)) :
    ∃ e, s'.2.entries key = some e ∧ e.value = body ∧ s'.2.clock < e.expiresAt := by
  obtain ⟨-, rfl, hredis⟩ := site_inr h
  obtain ⟨hlookup, hstate⟩ := TextRedis.outcome_ok hx
  rw [hredis, hstate]
  have hfound : (s.2.after t.2).lookup key = some body := Except.ok.inj hlookup
  unfold TextRedis.lookup at hfound
  split at hfound
  · rename_i e he
    split at hfound
    · exact ⟨e, he, Option.some.inj hfound, by assumption⟩
    · cases hfound
  · cases hfound

/-- A load sees what is committed, where the session has no statements of its own. -/
theorem load_site {x : Except Failure (Except Error Database)} {db : Database}
    (h : site i (.inl .read) t s = some (x, s')) (hx : x = .ok (.ok db)) (hidle : s.1.pending i = []) :
    db = s'.1.store := by
  obtain ⟨-, y, rfl, hserve⟩ := site_inl h
  cases hx
  simp only [Sessions.serve, hidle, Option.some.injEq, Prod.mk.injEq] at hserve
  obtain ⟨hanswer, hs⟩ := hserve
  rw [← hs]
  exact (Except.ok.inj (Choice.answer_ok.mp hanswer).2).symm

end Calls

/-! ## The invariant -/

/-- The list request that made both calls loaded the list `l` and stored its text `body`, which Redis keeps
until `list_cache_ttl_seconds` have passed. -/
structure Fills (settings : CacheSettings) (l : Listing) (load store : SiteCall ι) (body : String) : Prop where
  caller : load.caller = store.caller
  loads : loaded load = some load.state.1.store
  text : body = l.render load.state.1.store
  stores : store.command = .inr (.set l.key body settings.listCacheTtlSeconds)
  kept : store.state.2.entries l.key =
    some ⟨body, store.state.2.clock + 1000000 * settings.listCacheTtlSeconds⟩

section Invariant
variable {settings : CacheSettings} {adapters : Adapters} {requests : ι → SiteRequest} {p : SiteCrew ι}
  {a : ι × SiteTurn} {l : Listing}

/-- Two keys of the listings are the same only if the listings are. -/
theorem SiteRequest.listing_eq_of_key {r r' : SiteRequest} {l l' : Listing}
    (h : r.listing adapters = some l) (h' : r'.listing adapters = some l') (hkey : l.key = l'.key) :
    l = l' := by
  have hne : vehiclesListKey ≠ stationsListKey := by decide
  cases r with
  | listVehicles =>
      cases r' with
      | listVehicles => exact Option.some.inj (h.symm.trans h')
      | listStations => cases h; cases h'; exact absurd hkey hne
      | fleet r' => cases h'
  | listStations =>
      cases r' with
      | listVehicles => cases h; cases h'; exact absurd hkey hne.symm
      | listStations => exact Option.some.inj (h.symm.trans h')
      | fleet r' => cases h'
  | fleet r => cases h

/-- Where the entries of the cache and the hits come from. -/
structure Traced (settings : CacheSettings) (adapters : Adapters) (requests : ι → SiteRequest)
    (p : SiteCrew ι) : Prop where
  path : Crew.OnPath (fun i => (requests i).serve settings adapters) p
  possible : ∀ c ∈ p.log, Possible c.command c.answer
  idle : ∀ i l, (requests i).listing adapters = some l → p.state.1.pending i = []
  loads : ∀ c ∈ p.log, ∀ l, (requests c.caller).listing adapters = some l → ∀ db, loaded c = some db →
    db = c.state.1.store
  clock : ∀ c ∈ p.log, c.state.2.clock ≤ p.state.2.clock
  entries : ∀ key e, p.state.2.entries key = some e → ∃ store load l, [store, load].Sublist p.log ∧
    (requests store.caller).listing adapters = some l ∧ l.key = key ∧ Fills settings l load store e.value ∧
    e.expiresAt = store.state.2.clock + 1000000 * settings.listCacheTtlSeconds
  hits : ∀ c ∈ p.log, ∀ key body, hit c = some (key, body) → ∃ store load l,
    [c, store, load].Sublist p.log ∧ (requests store.caller).listing adapters = some l ∧ l.key = key ∧
    Fills settings l load store body ∧ store.state.2.clock ≤ c.state.2.clock ∧
    c.state.2.clock < store.state.2.clock + 1000000 * settings.listCacheTtlSeconds

theorem traced_init (settings : CacheSettings) (adapters : Adapters) (db : Database) (clock : DateTime)
    (requests : ι → SiteRequest) :
    Traced settings adapters requests (siteRequests settings adapters db clock requests) where
  path := Crew.onPath_init _ _
  possible c hc := absurd hc List.not_mem_nil
  idle i l hl := rfl
  loads c hc := absurd hc List.not_mem_nil
  clock c hc := absurd hc List.not_mem_nil
  entries key e he := by cases he
  hits c hc := absurd hc List.not_mem_nil

theorem Traced.callsPossible (h : Traced settings adapters requests p) (i : ι) :
    ∀ c ∈ p.calls i, Possible c.command c.answer :=
  fun c hc => h.possible c (Crew.mem_calls.mp hc).1

theorem Traced.listPath (h : Traced settings adapters requests p) {i : ι}
    (hl : (requests i).listing adapters = some l) : ListRequestPath settings l (p.calls i) (p.jobs i) :=
  SiteRequest.listPath hl (h.path i) (h.callsPossible i)

theorem Traced.writePath (h : Traced settings adapters requests p) {i : ι} {r : FleetRequest}
    (hr : requests i = .fleet r) : WriteRequestPath r.staleLists (p.calls i) (p.jobs i) := by
  have hpath := h.path i
  simp only [hr] at hpath
  exact SiteRequest.writePath hpath (h.callsPossible i)

/-- A request that is about to store a list has loaded it. -/
theorem Traced.storing (h : Traced settings adapters requests p) {i : ι} {key value : String} {ex : Int}
    (hnext : nextCommand (p.jobs i) = some (.inr (.set key value ex))) : ∃ l load,
    (requests i).listing adapters = some l ∧ key = l.key ∧ ex = settings.listCacheTtlSeconds ∧
    load ∈ p.calls i ∧ loaded load = some load.state.1.store ∧ value = l.render load.state.1.store := by
  cases hl : (requests i).listing adapters with
  | some l =>
      obtain ⟨hkey, hex, load, hload, db, hdb, hvalue⟩ := (h.listPath hl).storing key value ex hnext
      obtain ⟨hlog, rfl⟩ := Crew.mem_calls.mp hload
      obtain rfl := h.loads load hlog l hl db hdb
      exact ⟨l, load, rfl, hkey, hex, hload, hdb, hvalue⟩
  | none =>
      cases hr : requests i with
      | listVehicles => rw [hr] at hl; cases hl
      | listStations => rw [hr] at hl; cases hl
      | fleet r => exact absurd hnext ((h.writePath hr).neverStores key value ex)

theorem Traced.step (h : Traced settings adapters requests p) (a : ι × SiteTurn) :
    Traced settings adapters requests (p.step site a) := by
  have hpath := h.path.step (D := site) a
  rcases Crew.step_cases site p a with ⟨w, k, x, s, hjob, hanswer, hstep⟩ | hstep
  swap
  · rw [hstep]; exact h
  rw [hstep] at hpath ⊢
  have hnext : nextCommand (p.jobs a.1) = some w := by rw [hjob]; rfl
  have hclock : ∀ c ∈ (⟨a.1, w, x, s⟩ : SiteCall ι) :: p.log, c.state.2.clock ≤ s.2.clock :=
    List.forall_mem_cons.mpr ⟨le_rfl, fun c hc => (h.clock c hc).trans (clock_le_site hanswer)⟩
  have hentries : ∀ key e, s.2.entries key = some e → ∃ store load l,
      [store, load].Sublist ((⟨a.1, w, x, s⟩ : SiteCall ι) :: p.log) ∧
      (requests store.caller).listing adapters = some l ∧ l.key = key ∧ Fills settings l load store e.value ∧
      e.expiresAt = store.state.2.clock + 1000000 * settings.listCacheTtlSeconds := by
    intro key e he
    rcases entries_site hanswer he with hold | ⟨ex, rfl, hex⟩
    · obtain ⟨store, load, l, hsub, hfills⟩ := h.entries key e hold
      exact ⟨store, load, l, hsub.cons _, hfills⟩
    · obtain ⟨l, load, hl, rfl, rfl, hload, hloaded, hvalue⟩ := h.storing hnext
      obtain ⟨hlog, hcaller⟩ := Crew.mem_calls.mp hload
      refine ⟨⟨a.1, _, x, s⟩, load, l, (List.singleton_sublist.mpr hlog).cons_cons _, hl, rfl, ?_, hex⟩
      refine ⟨hcaller, hloaded, hvalue, rfl, ?_⟩
      rw [← hex]
      exact he
  exact
    { path := hpath
      possible := List.forall_mem_cons.mpr ⟨site_possible hanswer, h.possible⟩
      idle := by
        intro i l hl
        have hidle := h.idle i l hl
        cases w with
        | inr w => rw [(site_inr hanswer).1]; exact hidle
        | inl w =>
            obtain ⟨-, y, -, hserve⟩ := site_inl hanswer
            by_cases hi : i = a.1
            · subst hi
              refine Sessions.pending_self hserve (fun stmt hw => ?_) hidle
              exact (h.listPath hl).reading stmt (by rw [hnext, hw])
            · rw [Sessions.pending_of_ne hserve hi]; exact hidle
      loads := by
        refine List.forall_mem_cons.mpr ⟨fun l hl db hdb => ?_, h.loads⟩
        obtain ⟨i, s', hcall⟩ := loaded_eq_some hdb
        cases hcall
        exact load_site hanswer rfl (h.idle _ l hl)
      clock := hclock
      entries := hentries
      hits := by
        refine List.forall_mem_cons.mpr ⟨fun key body hbody => ?_, fun c hc key body hbody => ?_⟩
        · obtain ⟨i, s', hcall⟩ := hit_eq_some hbody
          cases hcall
          obtain ⟨e, he, rfl, hlive⟩ := lookup_site hanswer rfl
          -- The entry is older than the call that finds it.
          rcases entries_site hanswer he with hold | ⟨ex, hset, -⟩
          · obtain ⟨store, load, l, hsub, hl, hkey, hfills, hexpires⟩ := h.entries key e hold
            have hstore : store ∈ p.log := hsub.subset List.mem_cons_self
            exact ⟨store, load, l, hsub.cons_cons _, hl, hkey, hfills,
              hclock store (List.mem_cons_of_mem _ hstore), hexpires ▸ hlive⟩
          · cases hset
        · obtain ⟨store, load, l, hsub, hfills⟩ := h.hits c hc key body hbody
          exact ⟨store, load, l, hsub.cons _, hfills⟩ }

theorem traced_of_visits {db : Database} {clock : DateTime} {schedule : List (ι × SiteTurn)}
    (h : Runs.Visits (Crew.step site) (siteRequests settings adapters db clock requests) schedule p) :
    Traced settings adapters requests p :=
  Runs.invariant_of_step (J := Traced settings adapters requests) (fun _ a ht => ht.step a)
    (traced_init settings adapters db clock requests) p h

end Invariant

/-! ## Bounded staleness -/

/-- The request `i` loaded the list itself. -/
def LoadedItself (l : Listing) (p : SiteCrew ι) (i : ι) (body : String) : Prop :=
  ∃ load ∈ p.calls i, loaded load = some load.state.1.store ∧ body = l.render load.state.1.store

/-- The request `i` found the list in the cache, where another request that had loaded it stored it less
than `list_cache_ttl_seconds` before. -/
def FoundFresh (settings : CacheSettings) (l : Listing) (p : SiteCrew ι) (i : ι) (body : String) : Prop :=
  ∃ get store load, [get, store, load].Sublist p.log ∧ get.caller = i ∧ store.caller ≠ i ∧
    hit get = some (l.key, body) ∧ Fills settings l load store body ∧
    store.state.2.clock ≤ get.state.2.clock ∧
    get.state.2.clock < store.state.2.clock + 1000000 * settings.listCacheTtlSeconds

section Staleness
variable {settings : CacheSettings} {adapters : Adapters} {requests : ι → SiteRequest} {p : SiteCrew ι}

/-- Every list is the request's own or at most `list_cache_ttl_seconds` old, and no error of Redis fails a
request, in every state of every run. -/
theorem list_staleness_bounded {db : Database} {clock : DateTime} {schedule : List (ι × SiteTurn)}
    (h : Runs.Visits (Crew.step site) (siteRequests settings adapters db clock requests) schedule p) (i : ι) :
    (∀ f, p.jobs i = .raise f → ∃ e, f = .error e) ∧
    ∀ l, (requests i).listing adapters = some l →
      (∀ f, p.jobs i = .raise f → ∃ load ∈ p.calls i, ∃ e, loadError load = some e ∧ f = .error e) ∧
      ∀ r, p.jobs i = .ret r →
        ∃ body, r = .json body ∧ (LoadedItself l p i body ∨ FoundFresh settings l p i body) := by
  have htraced := traced_of_visits h
  refine ⟨fun f hf => ?_, fun l hl => ⟨fun f hf => (htraced.listPath hl).raised f hf, fun r hr => ?_⟩⟩
  · cases hr : requests i with
    | fleet r => exact (htraced.writePath hr).raised f hf
    | _ =>
        obtain ⟨-, -, e, -, rfl⟩ := (htraced.listPath (by rw [hr]; rfl)).raised f hf
        exact ⟨e, rfl⟩
  · obtain ⟨body, rfl, hgives⟩ := (htraced.listPath hl).returned r hr
    refine ⟨body, rfl, ?_⟩
    rcases hgives with ⟨load, hload, db, hdb, hbody⟩ | ⟨⟨get, hget, hhit⟩, hnever⟩
    · obtain ⟨hlog, rfl⟩ := Crew.mem_calls.mp hload
      obtain rfl := htraced.loads load hlog l hl db hdb
      exact Or.inl ⟨load, hload, hdb, hbody⟩
    · obtain ⟨hlog, hcaller⟩ := Crew.mem_calls.mp hget
      obtain ⟨store, load, l', hsub, hl', hkey, hfills, hages⟩ := htraced.hits get hlog _ _ hhit
      have hstore : store ∈ p.log := hsub.subset (by simp)
      obtain rfl := SiteRequest.listing_eq_of_key hl' hl hkey
      refine Or.inr ⟨get, store, load, hsub, hcaller, fun hself => ?_, hhit, hfills, hages⟩
      exact hnever store (Crew.mem_calls.mpr ⟨hstore, hself⟩) _ _ _ hfills.stores

end Staleness

/-! ## A missed invalidation -/

/-- The text of a list of stations whose addresses have no character to escape. -/
def plainStations (stations : List Station) : String :=
  "[" ++ ",".intercalate (stations.map fun s => "\x7b\"id\":" ++ toString s.id ++ ",\"address\":\"" ++
    s.address ++ "\",\"capacity\":" ++ toString s.capacity ++ "\x7d") ++ "]"

def plainAdapters : Adapters := ⟨fun _ => "[]", plainStations⟩

def thirtySeconds : CacheSettings := ⟨true, 30⟩

/-- Two list requests and a new station. -/
def stationRequests : Fin 3 → SiteRequest
  | 0 => .listStations
  | 1 => .fleet (.createStation "Lviv" 5)
  | 2 => .listStations

/-- A second passes at each call, and nothing fails. -/
def calmTurn : SiteTurn := (stepAt 0, ⟨1000000, false, none⟩)

/-- The turns of some clients where nothing fails. -/
def calmTurns (clients : List Nat) : List (Fin 3 × SiteTurn) := clients.map fun i => (Fin.ofNat 3 i, calmTurn)

/-- The list is stored, the station is created while Redis cannot be reached, and the list is read. -/
def missedInvalidation : List (Fin 3 × SiteTurn) :=
  [(0, calmTurn), (0, calmTurn), (0, calmTurn), (0, calmTurn), (1, calmTurn), (1, calmTurn),
    (1, (stepAt 0, ⟨1000000, false, some (.before, ⟨.connectionError, rfl⟩)⟩)), (1, calmTurn),
    (2, calmTurn), (2, calmTurn)]

theorem missedInvalidation_bounded :
    let p := Runs.run (Crew.step site)
      (siteRequests thirtySeconds plainAdapters .empty 0 stationRequests) missedInvalidation
    let l : Listing := ⟨stationsListKey, fun db => plainStations db.selectStations⟩
    p.jobs 2 = .ret (.json "[]") ∧
      (LoadedItself l p 2 "[]" ∨ FoundFresh thirtySeconds l p 2 "[]") := by
  intro p l
  have hreturned : p.jobs 2 = .ret (.json "[]") := Job.result?_eq_some.mp (by decide +kernel)
  obtain ⟨-, hlists⟩ := list_staleness_bounded (Runs.Visits.last _ missedInvalidation) (2 : Fin 3)
  obtain ⟨body, hbody, hsource⟩ := (hlists l rfl).2 _ hreturned
  cases hbody
  exact ⟨hreturned, hsource⟩

end FleetManagement
