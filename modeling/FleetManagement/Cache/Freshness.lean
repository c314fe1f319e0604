import FleetManagement.Cache.Staleness
import FleetManagement.Lemmas.Handlers
import FleetManagement.Lemmas.Statements

/-!
# Reading one's writes through the list cache

A write commits and then invalidates. A request that loaded the list before the commit can still store it
after the invalidation, and then requests that start later find it. Without such a late store, every list
reflects the writes that had returned before its request started.
-/

namespace FleetManagement

variable {ι : Type} [DecidableEq ι]

/-- The list is the table at a moment after a commit of the request `w`. -/
def Reflects (l : Listing) (p : SiteCrew ι) (w : ι) (body : String) : Prop :=
  ∃ moment commit, [moment, commit].Sublist p.log ∧ commit.caller = w ∧ (committed commit).isSome ∧
    body = l.render moment.state.1.store

/-- In the run, every list that is given to a request which started after a write of that list had returned
reflects the write. -/
def ReadsWrites (adapters : Adapters) (requests : ι → SiteRequest) (start : SiteCrew ι)
    (schedule : List (ι × SiteTurn)) : Prop :=
  ∀ p q, Runs.VisitsThen (Crew.step site) start schedule p q →
    ∀ w r, requests w = .fleet r → ∀ response, p.jobs w = .ret response →
    ∀ i l, (requests i).listing adapters = some l → l.key ∈ r.staleLists → p.calls i = [] →
    ∀ body, q.jobs i = .ret (.json body) → Reflects l q w body

/-- No call of Redis fails. -/
def RedisHealthy (schedule : List (ι × SiteTurn)) : Prop := ∀ a ∈ schedule, a.2.2.fault = none

/-- A request that stores a list next has loaded it after the commit of every write that has
invalidated it. -/
def Timely (p : SiteCrew ι) (a : ι × SiteTurn) : Prop :=
  ∀ key value ex, nextCommand (p.jobs a.1) = some (.inr (.set key value ex)) →
    ∀ load ∈ p.calls a.1, (loaded load).isSome → ∀ del ∈ p.log, del.command = .inr (.delete [key]) →
      ∃ commit, [load, commit].Sublist p.log ∧ commit.caller = del.caller ∧ (committed commit).isSome

/-! ## Reads after writes -/

section Freshness
variable {settings : CacheSettings} {adapters : Adapters} {requests : ι → SiteRequest}
  {p q : SiteCrew ι} {a : ι × SiteTurn}

/-- `load` read the list of `key` with the text `body` after the commits of the requests that made the
invalidations `dels`. -/
structure LoadedAfter (adapters : Adapters) (requests : ι → SiteRequest) (p : SiteCrew ι) (key body : String)
    (dels : SiteCall ι → Prop) (load : SiteCall ι) : Prop where
  text : ∃ l, (requests load.caller).listing adapters = some l ∧ l.key = key ∧
    body = l.render load.state.1.store
  commits : ∀ del, dels del → del.command = .inr (.delete [key]) →
    ∃ commit, [load, commit].Sublist p.log ∧ commit.caller = del.caller ∧ (committed commit).isSome

structure UpToDate (settings : CacheSettings) (adapters : Adapters) (requests : ι → SiteRequest)
    (p : SiteCrew ι) : Prop where
  traced : Traced settings adapters requests p
  entries : ∀ key e, p.state.2.entries key = some e →
    ∃ load, LoadedAfter adapters requests p key e.value (fun del => del ∈ p.log) load
  hits : ∀ later c earlier, p.log = later ++ c :: earlier → ∀ key body, hit c = some (key, body) →
    ∃ load, LoadedAfter adapters requests p key body (fun del => del ∈ earlier) load

/-- A deletion that takes effect leaves no entry. -/
theorem entries_delete {i : ι} {t : SiteTurn} {s s' : Site ι} {key : String}
    {x : Except Failure Unit} (h : site i (.inr (.delete [key])) t s = some (x, s'))
    (hfault : t.2.fault = none) : s'.2.entries key = none := by
  obtain ⟨-, -, hredis⟩ := site_inr h
  rw [hredis]
  simp [TextRedis.outcome, hfault, TextRedis.execute, TextRedis.delete]

theorem UpToDate.step (h : UpToDate settings adapters requests p) (hfault : a.2.2.fault = none)
    (htimely : Timely p a) : UpToDate settings adapters requests (p.step site a) := by
  have htraced := h.traced.step a
  rcases Crew.step_cases site p a with ⟨w, k, x, s, hjob, hanswer, hstep⟩ | hstep
  swap
  · rw [hstep]; exact h
  rw [hstep] at htraced ⊢
  have hnext : nextCommand (p.jobs a.1) = some w := by rw [hjob]; rfl
  refine ⟨htraced, fun key e he => ?_, fun later c earlier hlog key body hbody => ?_⟩
  · rcases entries_site hanswer he with hold | ⟨ex, rfl, -⟩
    · obtain ⟨load, htext, hcommits⟩ := h.entries key e hold
      refine ⟨load, htext, fun del hdel hcommand => ?_⟩
      rcases List.mem_cons.mp hdel with rfl | hdel
      · cases hcommand
        exact absurd (entries_delete hanswer hfault) (by rw [he]; exact Option.some_ne_none e)
      · obtain ⟨commit, hsub, hcommit⟩ := hcommits del hdel hcommand
        exact ⟨commit, hsub.cons _, hcommit⟩
    · obtain ⟨l, load, hl, rfl, rfl, hload, hloaded, hvalue⟩ := h.traced.storing hnext
      obtain ⟨hlog, hcaller⟩ := Crew.mem_calls.mp hload
      refine ⟨load, ⟨l, hcaller ▸ hl, rfl, hvalue⟩, fun del hdel hcommand => ?_⟩
      rcases List.mem_cons.mp hdel with rfl | hdel
      · cases hcommand
      · obtain ⟨commit, hsub, hcommit⟩ :=
          htimely _ _ _ hnext load hload (by rw [hloaded]; rfl) del hdel hcommand
        exact ⟨commit, hsub.cons _, hcommit⟩
  · rcases List.cons_eq_append_iff.mp hlog with ⟨rfl, hnow⟩ | ⟨later', rfl, hbefore⟩
    · -- The new call finds an entry that was there before it.
      cases hnow
      obtain ⟨i, s', hcall⟩ := hit_eq_some hbody
      cases hcall
      obtain ⟨e, he, rfl, -⟩ := lookup_site hanswer rfl
      rcases entries_site hanswer he with hold | ⟨ex, hset, -⟩
      · obtain ⟨load, htext, hcommits⟩ := h.entries key e hold
        refine ⟨load, htext, fun del hdel hcommand => ?_⟩
        obtain ⟨commit, hsub, hcommit⟩ := hcommits del hdel hcommand
        exact ⟨commit, hsub.cons _, hcommit⟩
      · cases hset
    · obtain ⟨load, htext, hcommits⟩ := h.hits later' c earlier hbefore key body hbody
      refine ⟨load, htext, fun del hdel hcommand => ?_⟩
      obtain ⟨commit, hsub, hcommit⟩ := hcommits del hdel hcommand
      exact ⟨commit, hsub.cons _, hcommit⟩

/-- What the final state of a run says about a list request that began after `p`. -/
theorem UpToDate.reflects (hq : UpToDate settings adapters requests q)
    (hp : Traced settings adapters requests p) {later : List (SiteCall ι)} (hlog : q.log = later ++ p.log)
    {w i : ι} {r : FleetRequest} {response : SiteResponse} {l : Listing} {body : String}
    (hw : requests w = .fleet r) (hreturned : p.jobs w = .ret response)
    (hl : (requests i).listing adapters = some l) (hstale : l.key ∈ r.staleLists) (hnew : p.calls i = [])
    (hbody : q.jobs i = .ret (.json body)) : Reflects l q w body := by
  obtain ⟨⟨del, hdel, hcommand⟩, commit, hcommit, hcommitted⟩ :=
    (hp.writePath hw).returned response hreturned l.key hstale
  obtain ⟨hdel, hdelCaller⟩ := Crew.mem_calls.mp hdel
  obtain ⟨hcommit, hcommitCaller⟩ := Crew.mem_calls.mp hcommit
  obtain ⟨body', hjson, hgives⟩ := (hq.traced.listPath hl).returned _ hbody
  cases hjson
  have hlater : ∀ c ∈ q.calls i, c ∈ later := by
    intro c hc
    obtain ⟨hc, hcaller⟩ := Crew.mem_calls.mp hc
    rcases List.mem_append.mp (hlog ▸ hc) with hc | hc
    · exact hc
    · have hmem : c ∈ p.calls i := Crew.mem_calls.mpr ⟨hc, hcaller⟩
      rw [hnew] at hmem
      cases hmem
  rcases hgives with ⟨load, hload, db, hdb, htext⟩ | ⟨⟨get, hget, hhit⟩, -⟩
  · -- The request has loaded the list itself, after the commit.
    obtain ⟨hmem, rfl⟩ := Crew.mem_calls.mp hload
    obtain rfl := hq.traced.loads load hmem l hl db hdb
    refine ⟨load, commit, ?_, hcommitCaller, hcommitted, htext⟩
    rw [hlog]
    exact (List.singleton_sublist.mpr (hlater load hload)).append (List.singleton_sublist.mpr hcommit)
  · obtain ⟨after, before, hsplit⟩ := List.append_of_mem (hlater get hget)
    have hposition : q.log = after ++ get :: (before ++ p.log) := by rw [hlog, hsplit]; simp
    obtain ⟨load, ⟨l', hl', hkey, htext⟩, hcommits⟩ := hq.hits _ _ _ hposition _ _ hhit
    obtain rfl := SiteRequest.listing_eq_of_key hl' hl hkey
    obtain ⟨commit, hsub, hcaller, hcommitted⟩ := hcommits del (List.mem_append_right _ hdel) hcommand
    exact ⟨load, commit, hsub, hcaller.trans hdelCaller, hcommitted, htext⟩

/-- Where Redis is healthy and no list is stored late, every list reflects the writes that had returned. -/
theorem readsWrites_of_timely {db : Database} {clock : DateTime} {schedule : List (ι × SiteTurn)}
    (hhealthy : RedisHealthy schedule)
    (htimely : ∀ p a, Runs.Takes (Crew.step site) (siteRequests settings adapters db clock requests)
      schedule p a → Timely p a) :
    ReadsWrites adapters requests (siteRequests settings adapters db clock requests) schedule := by
  intro p q hthen w r hw response hreturned i l hl hstale hnew body hbody
  obtain ⟨bs, cs, hprefix, hp, hq⟩ := hthen
  obtain ⟨later, hlog⟩ := Crew.log_suffix_run site p cs
  rw [hq] at hlog
  have hvisits : Runs.Visits (Crew.step site) (siteRequests settings adapters db clock requests) schedule q :=
    ⟨bs ++ cs, hprefix, by rw [Runs.run_append, hp, hq]⟩
  have hbefore : Runs.Visits (Crew.step site) (siteRequests settings adapters db clock requests) schedule p :=
    ⟨bs, (List.prefix_append bs cs).trans hprefix, hp⟩
  have hstart : UpToDate settings adapters requests (siteRequests settings adapters db clock requests) :=
    ⟨traced_init settings adapters db clock requests, fun key e he => (by cases he),
      fun later c earlier hlog => absurd hlog (by simp [siteRequests, Crew.init])⟩
  have hupToDate : UpToDate settings adapters requests q :=
    Runs.invariant_of_guarded
      (fun t a (ht : UpToDate settings adapters requests t) (hok : a.2.2.fault = none ∧ Timely t a) =>
        ht.step hok.1 hok.2) hstart (fun t a ha => by
        obtain ⟨as, has, -⟩ := id ha
        exact ⟨hhealthy a (has.subset (by simp)), htimely t a ha⟩) q hvisits
  exact hupToDate.reflects (traced_of_visits hbefore) hlog.symm hw hreturned hl hstale hnew hbody

end Freshness

/-! ## A late store -/

/-- The first list request loads, the station is created, and then the list is stored. -/
def lateStore : List (Fin 3 × SiteTurn) := calmTurns [0, 0, 1, 1, 1, 1, 0, 2, 2]

theorem lateStore_healthy : RedisHealthy lateStore := by
  intro a ha
  obtain ⟨i, -, rfl⟩ := List.mem_map.mp ha
  rfl

theorem late_store_hides_the_write : ¬ ∀ (settings : CacheSettings) (adapters : Adapters) (db : Database)
    (clock : DateTime) (requests : Fin 3 → SiteRequest) (schedule : List (Fin 3 × SiteTurn)),
    RedisHealthy schedule →
      ReadsWrites adapters requests (siteRequests settings adapters db clock requests) schedule := by
  intro h
  let start := siteRequests thirtySeconds plainAdapters .empty 0 stationRequests
  let p := Runs.run (Crew.step site) start (lateStore.take 6)
  let q := Runs.run (Crew.step site) p (lateStore.drop 6)
  have hthen : Runs.VisitsThen (Crew.step site) start lateStore p q :=
    ⟨lateStore.take 6, lateStore.drop 6, by rw [List.take_append_drop], rfl, rfl⟩
  have hreturned : p.jobs 1 = .ret (.fleet (.station ⟨1, "Lviv", 5⟩)) :=
    Job.result?_eq_some.mp (by decide +kernel)
  have hnew : p.calls 2 = [] := List.length_eq_zero_iff.mp (by decide +kernel)
  have hbody : q.jobs 2 = .ret (.json "[]") := Job.result?_eq_some.mp (by decide +kernel)
  obtain ⟨moment, commit, hsub, hcaller, hcommitted, htext⟩ := h thirtySeconds plainAdapters .empty 0
    stationRequests lateStore lateStore_healthy p q hthen 1 _ rfl _ hreturned 2 _ rfl
    List.mem_cons_self hnew "[]" hbody
  have hlater : q.log.Pairwise fun moment commit => ¬ (commit.caller = 1 ∧ (committed commit).isSome ∧
      "[]" = plainStations moment.state.1.store.selectStations) := by decide +kernel
  exact List.pairwise_iff_forall_sublist.mp hlater hsub ⟨hcaller, hcommitted, htext⟩


/-- A request that stores nothing next is timely. -/
theorem timely_of_not_storing {p : SiteCrew ι} {a : ι × SiteTurn}
    (h : ((nextCommand (p.jobs a.1)).any fun w => match w with
      | .inr (.set _ _ _) => true
      | _ => false) = false) : Timely p a := by
  intro key value ex hnext
  rw [hnext] at h
  cases h

def deletes (c : SiteCall ι) : Bool :=
  match c.command with
  | .inr (.delete _) => true
  | _ => false

/-- A request that began when every write that has invalidated had committed is timely. -/
theorem timely_of_began {p q : SiteCrew ι} {a : ι × SiteTurn} (hlog : p.log <:+ q.log)
    (hnew : p.calls a.1 = []) (hdels : ∀ del ∈ q.log, deletes del →
      ∃ commit ∈ p.log, commit.caller = del.caller ∧ (committed commit).isSome) : Timely q a := by
  intro key value ex _ load hload _ del hdel hcommand
  obtain ⟨later, hlog⟩ := hlog
  obtain ⟨commit, hcommit, hcaller, hcommitted⟩ := hdels del hdel (by simp [deletes, hcommand])
  obtain ⟨hmem, hloader⟩ := Crew.mem_calls.mp hload
  have hlater : load ∈ later := by
    rcases List.mem_append.mp (hlog.symm ▸ hmem) with h | h
    · exact h
    · have hcalls : load ∈ p.calls a.1 := Crew.mem_calls.mpr ⟨h, hloader⟩
      rw [hnew] at hcalls
      cases hcalls
  refine ⟨commit, ?_, hcaller, hcommitted⟩
  rw [← hlog]
  exact (List.singleton_sublist.mpr hlater).append (List.singleton_sublist.mpr hcommit)

/-- The station is created, and then the list is loaded and stored. -/
def storeInTime : List (Fin 3 × SiteTurn) := calmTurns [1, 1, 1, 1, 0, 0, 0, 0, 2, 2]

theorem storeInTime_timely : ∀ p a, Runs.Takes (Crew.step site)
    (siteRequests thirtySeconds plainAdapters .empty 0 stationRequests) storeInTime p a → Timely p a := by
  intro p a h
  simp only [storeInTime, calmTurns, List.map_cons, List.map_nil, Runs.takes_cons] at h
  obtain ⟨rfl, rfl⟩ | ⟨rfl, rfl⟩ | ⟨rfl, rfl⟩ | ⟨rfl, rfl⟩ | ⟨rfl, rfl⟩ | ⟨rfl, rfl⟩ | ⟨rfl, rfl⟩ |
    ⟨rfl, rfl⟩ | ⟨rfl, rfl⟩ | ⟨rfl, rfl⟩ | h := h
  case inr.inr.inr.inr.inr.inr.inl =>
    -- The only step that stores: its request began after the station had been created.
    refine timely_of_began ((Crew.log_suffix_step site _ _).trans (Crew.log_suffix_step site _ _))
      (List.length_eq_zero_iff.mp ?_) ?_
    all_goals decide +kernel
  case inr.inr.inr.inr.inr.inr.inr.inr.inr.inr => exact absurd h Runs.takes_nil
  all_goals exact timely_of_not_storing (by decide +kernel)

theorem storeInTime_readsWrites : ReadsWrites plainAdapters stationRequests
    (siteRequests thirtySeconds plainAdapters .empty 0 stationRequests) storeInTime :=
  readsWrites_of_timely (by
    intro a ha
    obtain ⟨i, -, rfl⟩ := List.mem_map.mp ha
    rfl) storeInTime_timely

end FleetManagement
