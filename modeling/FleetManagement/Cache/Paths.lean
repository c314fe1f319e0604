import FleetManagement.Cache.Requests

/-!
# What a request has done so far

The calls of a list request say whether it found the list in the cache, loaded it or is about to store it.
The calls of a fleet request never store a list, and it invalidates one only after its commit.
-/

namespace FleetManagement

variable {ι α β : Type}

/-- The answers of the site: the database answers every call, and Redis raises only a `RedisError`. -/
def Possible : (w : SiteCommand) → Except Failure (SiteAnswer w) → Prop
  | _, .ok _ => True
  | .inl _, .error _ => False
  | .inr _, .error f => ∃ e : RedisError, e.isRedisError ∧ f = .redis e

theorem TextRedis.execute_error {redis : TextRedis} {w : CacheCommand} {e : RedisError}
    (h : (redis.execute w).1 = .error e) : e.isRedisError := by
  cases w with
  | get key => cases h
  | set key value ex =>
      simp only [execute, set] at h
      split at h <;> cases h
      rfl
  | delete keys =>
      simp only [execute, delete] at h
      split at h <;> cases h
      rfl

theorem TextRedis.outcome_possible {w : CacheCommand} {redis : TextRedis} {t : CacheTurn}
    {r : Except RedisError w.Answer × TextRedis} (hr : ∀ e, r.1 = .error e → e.isRedisError) :
    Possible (.inr w) (redis.outcome t r).1 := by
  unfold TextRedis.outcome
  split
  · obtain ⟨r | a, redis'⟩ := r
    · exact ⟨r, hr r rfl, rfl⟩
    · exact trivial
  · rename_i e _; exact ⟨e.val, e.property, rfl⟩
  · rename_i e _; exact ⟨e.val, e.property, rfl⟩

/-- A call of Redis leaves the database alone, and a call of the database Redis. -/
theorem site_inr [DecidableEq ι] {i : ι} {w : CacheCommand} {t : SiteTurn} {s s' : Site ι}
    {x : Except Failure w.Answer} (h : site i (.inr w) t s = some (x, s')) :
    s'.1 = s.1 ∧ x = ((s.2.after t.2).outcome t.2 ((s.2.after t.2).execute w)).1 ∧
      s'.2 = ((s.2.after t.2).outcome t.2 ((s.2.after t.2).execute w)).2 := by
  obtain ⟨rfl, rfl⟩ := Prod.mk.inj (Option.some.inj h)
  exact ⟨rfl, rfl, rfl⟩

theorem site_inl [DecidableEq ι] {i : ι} {w : TxCall Database Stmt RowKey} {t : SiteTurn} {s s' : Site ι}
    {x : Except Failure (w.Answer Draw Error)} (h : site i (.inl w) t s = some (x, s')) :
    s'.2 = s.2 ∧ ∃ y, x = .ok y ∧ Sessions.serve dialect i t.1 s.1 w = some (y, s'.1) := by
  simp only [site, SharedDevice.beside, Sessions.device, Option.map_map, Option.map_eq_some_iff] at h
  obtain ⟨r, hr, heq⟩ := h
  obtain ⟨rfl, rfl⟩ := Prod.mk.inj heq
  exact ⟨rfl, r.1, rfl, hr⟩

theorem site_possible [DecidableEq ι] {i : ι} {w : SiteCommand} {t : SiteTurn} {s s' : Site ι}
    {x : Except Failure (SiteAnswer w)} (h : site i w t s = some (x, s')) : Possible w x := by
  cases w with
  | inl w =>
      obtain ⟨-, y, rfl, -⟩ := site_inl h
      exact trivial
  | inr w =>
      obtain ⟨-, rfl, -⟩ := site_inr h
      exact TextRedis.outcome_possible fun e he => TextRedis.execute_error he

/-! ## Steps of a route -/

section Steps
variable {calls : List (SiteCall ι)} {v : SiteJob β}

/-- The command that a job makes next. -/
def nextCommand : SiteJob β → Option SiteCommand
  | .call w _ => some w
  | _ => none

/-- The value of a call of Redis, or `a` where it raised. -/
def valueOr (a : α) : Except Failure α → α
  | .ok b => b
  | .error _ => a

/-- A call of Redis whose exceptions are caught goes on with the answer or with the default. -/
theorem follows_exceptRedisError {w : CacheCommand} {a : w.Answer} {f : w.Answer → SiteJob β}
    (h : (exceptRedisError (onCache w) (pure a) >>= f).Follows calls v)
    (hpossible : ∀ c ∈ calls, Possible c.command c.answer) :
    (calls = [] ∧ nextCommand v = some (.inr w)) ∨
      ∃ later i x s, calls = later ++ [⟨i, .inr w, x, s⟩] ∧ (f (valueOr a x)).Follows later v := by
  rcases Job.Follows.of_call h with ⟨hcalls, rfl⟩ | ⟨later, i, x, s, rfl, hfollows⟩
  · exact Or.inl ⟨hcalls, rfl⟩
  · refine Or.inr ⟨later, i, x, s, rfl, ?_⟩
    cases x with
    | ok b => exact hfollows
    | error e =>
        obtain ⟨e, he, rfl⟩ := hpossible ⟨i, .inr w, .error e, s⟩ (by simp)
        have hcaught : (exceptRedisError (.raise (.redis e)) (pure a) : SiteJob w.Answer) = .ret a :=
          if_pos he
        have hgoes : (exceptRedisError (.raise (.redis e)) (pure a) >>= f).Follows later v := hfollows
        rw [hcaught] at hgoes
        exact hgoes

/-- A load goes on with the rows, or it raises what the database raised. -/
theorem follows_load {ρ : Type} {rows : Database → List ρ} {f : List ρ → SiteJob β}
    (h : (onDatabase (loadAll rows) >>= f).Follows calls v)
    (hpossible : ∀ c ∈ calls, Possible c.command c.answer) :
    (calls = [] ∧ nextCommand v = some (.inl .read)) ∨
    (∃ i e s, calls = [⟨i, .inl .read, .ok (.error e), s⟩] ∧ v = .raise (.error e)) ∨
      ∃ later i db s, calls = later ++ [⟨i, .inl .read, .ok (.ok db), s⟩] ∧
        (f (rows db)).Follows later v := by
  rcases Job.Follows.of_call h with ⟨hcalls, rfl⟩ | ⟨later, i, x, s, rfl, hfollows⟩
  · exact Or.inl ⟨hcalls, rfl⟩
  · cases x with
    | error e => exact (hpossible ⟨i, .inl .read, .error e, s⟩ (by simp)).elim
    | ok x =>
        cases x with
        | error e =>
            obtain ⟨rfl, rfl⟩ := Job.Follows.of_raise hfollows
            exact Or.inr (Or.inl ⟨i, e, s, rfl, rfl⟩)
        | ok db => exact Or.inr (Or.inr ⟨later, i, db, s, rfl, hfollows⟩)

theorem follows_ret_bind {t : SiteJob α} {g : α → β}
    (h : (t >>= fun a => (.ret (g a) : SiteJob β)).Follows calls v) :
    ∃ u, t.Follows calls u ∧ v = u >>= fun a => .ret (g a) := by
  rcases Job.Follows.of_bind h with hfirst | ⟨a, before, after, rfl, ht, hg⟩
  · exact hfirst
  · obtain ⟨rfl, rfl⟩ := Job.Follows.of_ret hg
    exact ⟨.ret a, ht, rfl⟩

/-- A route at `u`, whose request is at `v`. -/
structure Within (u v : SiteJob β) : Prop where
  returned : ∀ b, v = .ret b → u = .ret b
  raised : ∀ e, v = .raise e → u = .raise e
  next : nextCommand v = some (.inl .close) ∨ nextCommand v = nextCommand u

theorem within_attempt (u : SiteJob β) {f : Except Failure β → SiteJob β}
    (hf : ∀ r, ∃ k, f r = .call (.inl .close) k) : Within u (u.attempt >>= f) := by
  cases u with
  | ret b =>
      obtain ⟨k, hk⟩ := hf (.ok b)
      have hv : (Job.ret b : SiteJob β).attempt >>= f = .call (.inl .close) k := hk
      exact ⟨fun c hc => (by rw [hv] at hc; cases hc), fun e he => (by rw [hv] at he; cases he),
        Or.inl (by rw [hv]; rfl)⟩
  | raise e =>
      obtain ⟨k, hk⟩ := hf (.error e)
      have hv : (Job.raise e : SiteJob β).attempt >>= f = .call (.inl .close) k := hk
      exact ⟨fun c hc => (by rw [hv] at hc; cases hc), fun e he => (by rw [hv] at he; cases he),
        Or.inl (by rw [hv]; rfl)⟩
  | call w k => exact ⟨fun b hb => (by cases hb), fun e he => (by cases he), Or.inr rfl⟩

/-- A request makes the calls of its route, and then it closes its session. -/
theorem follows_getDb {t : SiteJob β} (h : (getDb t).Follows calls v)
    (hpossible : ∀ c ∈ calls, Possible c.command c.answer) :
    ∃ u before after, calls = after ++ before ∧ t.Follows before u ∧
      (∀ c ∈ after, c.command = .inl .close) ∧ Within u v := by
  rcases Job.Follows.of_bind h with ⟨w, hw, rfl⟩ | ⟨r, before, after, rfl, hattempt, hclose⟩
  · obtain ⟨u, hu, rfl⟩ := Job.Follows.of_attempt hw
    exact ⟨u, calls, [], rfl, hu, by simp, within_attempt u fun r => ⟨_, rfl⟩⟩
  · obtain ⟨u, hu, hr⟩ := Job.Follows.of_attempt hattempt
    refine ⟨u, before, after, rfl, hu, ?_⟩
    rcases Job.Follows.of_call hclose with ⟨rfl, rfl⟩ | ⟨later, i, x, s, rfl, hend⟩
    · exact ⟨by simp, ⟨fun b hb => (by cases hb), fun e he => (by cases he), Or.inl rfl⟩⟩
    · cases x with
      | error e => exact (hpossible ⟨i, .inl .close, .error e, s⟩ (by simp)).elim
      | ok x =>
          cases u with
          | call w k => cases hr
          | ret b =>
              cases hr
              obtain ⟨rfl, rfl⟩ := Job.Follows.of_ret hend
              exact ⟨by simp, ⟨fun c hc => hc, fun e he => (by cases he), Or.inr rfl⟩⟩
          | raise e =>
              cases hr
              obtain ⟨rfl, rfl⟩ := Job.Follows.of_raise hend
              exact ⟨by simp, ⟨fun c hc => (by cases hc), fun e he => he, Or.inr rfl⟩⟩

end Steps

/-! ## List requests -/

/-- A cached list: its key, and its text for a state of the database. -/
structure Listing where
  key : String
  render : Database → String

def SiteRequest.listing (adapters : Adapters) : SiteRequest → Option Listing
  | .listVehicles => some ⟨vehiclesListKey, fun db => adapters.vehicles db.selectVehicles⟩
  | .listStations => some ⟨stationsListKey, fun db => adapters.stations db.selectStations⟩
  | .fleet _ => none

/-- The database that a `SELECT` answered. -/
def loaded : SiteCall ι → Option Database
  | ⟨_, .inl .read, .ok (.ok db), _⟩ => some db
  | _ => none

/-- What a `SELECT` raised. -/
def loadError : SiteCall ι → Option Error
  | ⟨_, .inl .read, .ok (.error e), _⟩ => some e
  | _ => none

/-- The key and the value that a `GET` found. -/
def hit : SiteCall ι → Option (String × String)
  | ⟨_, .inr (.get key), .ok (some body), _⟩ => some (key, body)
  | _ => none

theorem hit_eq_some {c : SiteCall ι} {key body : String} (h : hit c = some (key, body)) :
    ∃ i s, c = ⟨i, .inr (.get key), .ok (some body), s⟩ := by
  unfold hit at h
  split at h
  · cases h; exact ⟨_, _, rfl⟩
  · cases h

theorem loaded_eq_some {c : SiteCall ι} {db : Database} (h : loaded c = some db) :
    ∃ i s, c = ⟨i, .inl .read, .ok (.ok db), s⟩ := by
  unfold loaded at h
  split at h
  · cases h; exact ⟨_, _, rfl⟩
  · cases h

section Lists
variable {settings : CacheSettings} {adapters : Adapters} {l : Listing} {calls : List (SiteCall ι)}

/-- The list that the calls of a request come to, loaded by itself or found in the cache. -/
def Delivers (l : Listing) (calls : List (SiteCall ι)) (body : String) : Prop :=
  (∃ c ∈ calls, ∃ db, loaded c = some db ∧ body = l.render db) ∨
    (∃ c ∈ calls, hit c = some (l.key, body)) ∧
      ∀ c ∈ calls, ∀ key value ex, c.command ≠ .inr (.set key value ex)

/-- What the calls of a list request say about what it does next. -/
structure ListPath (settings : CacheSettings) (l : Listing) (calls : List (SiteCall ι))
    (u : SiteJob String) : Prop where
  reading : ∀ stmt, nextCommand u ≠ some (.inl (.exec stmt))
  storing : ∀ key value ex, nextCommand u = some (.inr (.set key value ex)) →
    key = l.key ∧ ex = settings.listCacheTtlSeconds ∧
      ∃ c ∈ calls, ∃ db, loaded c = some db ∧ value = l.render db
  returned : ∀ body, u = .ret body → Delivers l calls body
  raised : ∀ f, u = .raise f → ∃ c ∈ calls, ∃ e, loadError c = some e ∧ f = .error e

theorem ListPath.before {u : SiteJob String} {w : SiteCommand} (hcommand : nextCommand u = some w)
    (hexec : ∀ stmt, w ≠ .inl (.exec stmt)) (hset : ∀ key value ex, w ≠ .inr (.set key value ex)) :
    ListPath settings l calls u where
  reading stmt h := hexec stmt (Option.some.inj (hcommand.symm.trans h))
  storing key value ex h := absurd (Option.some.inj (hcommand.symm.trans h)) (hset key value ex)
  returned body h := by subst h; cases hcommand
  raised f h := by subst h; cases hcommand

theorem ListPath.ended {body : String} (h : Delivers l calls body) : ListPath settings l calls (.ret body) where
  reading stmt h := by cases h
  storing key value ex h := by cases h
  returned b hb := by cases hb; exact h
  raised f h := by cases h

theorem ListPath.failed {e : Error} (h : ∃ c ∈ calls, loadError c = some e) :
    ListPath settings l calls (.raise (.error e)) where
  reading stmt h := by cases h
  storing key value ex h := by cases h
  returned b h := by cases h
  raised f hf := by
    cases hf
    obtain ⟨c, hc, he⟩ := h
    exact ⟨c, hc, e, he, rfl⟩

theorem readThroughJson_path {ρ : Type} {dumpJson : List ρ → String} {rows : Database → List ρ}
    (hl : l.render = fun db => dumpJson (rows db)) {u : SiteJob String}
    (h : (readThroughJson settings l.key dumpJson (onDatabase (loadAll rows))).Follows calls u)
    (hpossible : ∀ c ∈ calls, Possible c.command c.answer) : ListPath settings l calls u := by
  have hrender (db : Database) : dumpJson (rows db) = l.render db := (congrFun hl db).symm
  unfold readThroughJson at h
  split at h
  · -- Without the cache, the request loads the list.
    rcases follows_load h hpossible with ⟨-, hnext⟩ | ⟨i, e, s, rfl, rfl⟩ | ⟨later, i, db, s, rfl, hend⟩
    · exact .before hnext (by simp) (by simp)
    · exact .failed ⟨_, List.mem_cons_self, rfl⟩
    · obtain ⟨rfl, rfl⟩ := Job.Follows.of_ret hend
      exact .ended (Or.inl ⟨_, List.mem_cons_self, db, rfl, hrender db⟩)
  · rcases follows_exceptRedisError h hpossible with ⟨-, hnext⟩ | ⟨later, i, x, s, rfl, hgot⟩
    · exact .before hnext (by simp) (by simp)
    · have hlater : ∀ c ∈ later, Possible c.command c.answer := fun c hc =>
        hpossible c (List.mem_append_left _ hc)
      cases hx : valueOr none x with
      | some body =>
          rw [hx] at hgot
          obtain ⟨rfl, rfl⟩ := Job.Follows.of_ret hgot
          refine .ended (Or.inr ⟨⟨_, List.mem_cons_self, ?_⟩, by simp⟩)
          cases x with
          | error e => cases hx
          | ok y => cases hx; rfl
      | none =>
          rw [hx] at hgot
          rcases follows_load hgot hlater with ⟨-, hnext⟩ | ⟨j, e, s', rfl, rfl⟩ |
            ⟨last, j, db, s', rfl, hstore⟩
          · exact .before hnext (by simp) (by simp)
          · exact .failed ⟨_, List.mem_cons_self, rfl⟩
          · -- The list is loaded: it is stored, whether Redis takes it or not, and returned.
            have hlast : ∀ c ∈ last, Possible c.command c.answer := fun c hc =>
              hlater c (List.mem_append_left _ hc)
            rcases follows_exceptRedisError hstore hlast with ⟨-, hnext⟩ | ⟨done, n, y, t, rfl, hend⟩
            · refine ⟨fun stmt hs => ?_, fun key value ex hs => ?_, fun b hb => ?_, fun f hf => ?_⟩
              · rw [hnext] at hs; cases hs
              · rw [hnext] at hs
                cases hs
                exact ⟨rfl, rfl, ⟨j, .inl .read, .ok (.ok db), s'⟩, by simp, db, rfl, hrender db⟩
              · subst hb; cases hnext
              · subst hf; cases hnext
            · obtain ⟨rfl, rfl⟩ := Job.Follows.of_ret hend
              exact .ended (Or.inl ⟨⟨j, .inl .read, .ok (.ok db), s'⟩, by simp, db, rfl, hrender db⟩)

/-- What the calls of a request for the list `l` say about it. -/
structure ListRequestPath (settings : CacheSettings) (l : Listing) (calls : List (SiteCall ι))
    (v : SiteJob SiteResponse) : Prop where
  reading : ∀ stmt, nextCommand v ≠ some (.inl (.exec stmt))
  storing : ∀ key value ex, nextCommand v = some (.inr (.set key value ex)) →
    key = l.key ∧ ex = settings.listCacheTtlSeconds ∧
      ∃ c ∈ calls, ∃ db, loaded c = some db ∧ value = l.render db
  returned : ∀ r, v = .ret r → ∃ body, r = .json body ∧ Delivers l calls body
  raised : ∀ f, v = .raise f → ∃ c ∈ calls, ∃ e, loadError c = some e ∧ f = .error e

theorem ListPath.request {t : SiteJob String} {v : SiteJob SiteResponse}
    (hroute : ∀ (before : List (SiteCall ι)) u, t.Follows before u →
      (∀ c ∈ before, Possible c.command c.answer) → ListPath settings l before u)
    (h : (getDb (t >>= fun body => (.ret (.json body) : SiteJob SiteResponse))).Follows calls v)
    (hpossible : ∀ c ∈ calls, Possible c.command c.answer) : ListRequestPath settings l calls v := by
  obtain ⟨w, before, after, rfl, hw, hafter, hwithin⟩ := follows_getDb h hpossible
  obtain ⟨u, hu, rfl⟩ := follows_ret_bind hw
  have hpath := hroute before u hu fun c hc => hpossible c (List.mem_append_right _ hc)
  have hnext : nextCommand (u >>= fun body => (.ret (.json body) : SiteJob SiteResponse)) =
      nextCommand u := by cases u <;> rfl
  refine ⟨fun stmt hs => ?_, fun key value ex hs => ?_, fun r hr => ?_, fun f hf => ?_⟩
  · rcases hwithin.next with hclose | hsame
    · rw [hclose] at hs; cases hs
    · exact hpath.reading stmt (by rw [← hnext, ← hsame, hs])
  · rcases hwithin.next with hclose | hsame
    · rw [hclose] at hs; cases hs
    · obtain ⟨hkey, hex, c, hc, hvalue⟩ := hpath.storing key value ex (by rw [← hnext, ← hsame, hs])
      exact ⟨hkey, hex, c, List.mem_append_right _ hc, hvalue⟩
  · have hret := hwithin.returned r hr
    cases u with
    | ret body =>
        cases hret
        refine ⟨body, rfl, ?_⟩
        rcases hpath.returned body rfl with ⟨c, hc, hbody⟩ | ⟨⟨c, hc, hbody⟩, hnever⟩
        · exact Or.inl ⟨c, List.mem_append_right _ hc, hbody⟩
        · refine Or.inr ⟨⟨c, List.mem_append_right _ hc, hbody⟩, fun d hd key value ex => ?_⟩
          rcases List.mem_append.mp hd with hd | hd
          · rw [hafter d hd]; exact Sum.inl_ne_inr
          · exact hnever d hd key value ex
    | raise e => cases hret
    | call w k => cases hret
  · have hraise := hwithin.raised f hf
    cases u with
    | ret body => cases hraise
    | raise e =>
        cases hraise
        obtain ⟨c, hc, herror⟩ := hpath.raised f rfl
        exact ⟨c, List.mem_append_right _ hc, herror⟩
    | call w k => cases hraise

theorem SiteRequest.listPath {r : SiteRequest} (hr : r.listing adapters = some l)
    {v : SiteJob SiteResponse} (h : (r.serve settings adapters).Follows calls v)
    (hpossible : ∀ c ∈ calls, Possible c.command c.answer) : ListRequestPath settings l calls v := by
  cases r with
  | listVehicles =>
      cases hr
      exact ListPath.request (fun _ _ hu hp => readThroughJson_path rfl hu hp) h hpossible
  | listStations =>
      cases hr
      exact ListPath.request (fun _ _ hu hp => readThroughJson_path rfl hu hp) h hpossible
  | fleet request => cases hr

end Lists

/-! ## Fleet requests -/

/-- The database after a commit. -/
def committed : SiteCall ι → Option Database
  | ⟨_, .inl (.commit _), .ok (.ok db), _⟩ => some db
  | _ => none

/-- The cached lists that a request changes. -/
def FleetRequest.staleLists : FleetRequest → List String
  | .createStation .. => [stationsListKey]
  | .createVehicle .. => [vehiclesListKey]
  | .createRenter .. => []
  | .rental _ => [vehiclesListKey]

section Fleet
variable {settings : CacheSettings} {adapters : Adapters} {calls : List (SiteCall ι)}

/-- What is left of a handler on the database is again a handler. -/
theorem follows_onDatabase {t : Db α} {u : SiteJob α} (h : (onDatabase t).Follows calls u)
    (hpossible : ∀ c ∈ calls, Possible c.command c.answer) :
    ∃ t', u = onDatabase t' ∧ (t.Commits → t'.Commits ∨ ∃ c ∈ calls, (committed c).isSome) := by
  induction h with
  | start => exact ⟨t, rfl, Or.inl⟩
  | @answered calls w k i x s _ ih =>
      obtain ⟨hx, hcalls⟩ := List.forall_mem_cons.mp hpossible
      obtain ⟨t', hjob, hcommits⟩ := ih hcalls
      have later {t'' : Db α} (hw : t'.Commits → t''.Commits) (h : t.Commits) : t''.Commits ∨
          ∃ c ∈ (⟨i, w, x, s⟩ : SiteCall ι) :: calls, (committed c).isSome := by
        rcases hcommits h with h | ⟨c, hc, hcommitted⟩
        · exact Or.inl (hw h)
        · exact Or.inr ⟨c, List.mem_cons_of_mem _ hc, hcommitted⟩
      cases t' with
      | ret a => cases hjob
      | raise e => cases hjob
      | read k' =>
          cases hjob
          cases x with
          | error e => exact hx.elim
          | ok y => exact ⟨k' y, rfl, later fun h => h y⟩
      | lock sel k' =>
          cases hjob
          cases x with
          | error e => exact hx.elim
          | ok y => exact ⟨k' y, rfl, later fun h => h y⟩
      | exec w' k' =>
          cases hjob
          cases x with
          | error e => exact hx.elim
          | ok y => exact ⟨k' y, rfl, later fun h => h y⟩
      | draw k' =>
          cases hjob
          cases x with
          | error e => exact hx.elim
          | ok y => exact ⟨k' y, rfl, later fun h => h y⟩
      | rollback k' =>
          cases hjob
          cases x with
          | error e => exact hx.elim
          | ok y => exact ⟨k', rfl, later fun h => h⟩
      | commit ws k' =>
          cases hjob
          cases x with
          | error e => exact hx.elim
          | ok y =>
              refine ⟨k' y, rfl, ?_⟩
              cases y with
              | error e => exact later fun h => h e
              | ok db => exact fun _ => Or.inr ⟨_, List.mem_cons_self, rfl⟩

theorem createStation_commits (address : String) (capacity : Int) :
    (createStation address capacity).Commits := Tx.commits_commitAll _ _

theorem createVehicle_commits (licensePlate model : String) (stationId : Int) :
    (createVehicle licensePlate model stationId).Commits :=
  Tx.commits_bind fun _ => Tx.commits_commitAll _ _

theorem startRental_commits (renterId vehicleId : Int) : (startRental renterId vehicleId).Commits := by
  refine Tx.commits_bind fun vehicle => ?_
  cases vehicle with
  | none => trivial
  | some vehicle =>
      simp only
      split
      · trivial
      · exact Tx.commits_bind fun _ => Tx.commits_commitAll _ _

theorem endRental_commits (rentalId endStationId : Int) : (endRental rentalId endStationId).Commits := by
  refine Tx.commits_bind fun rental => ?_
  cases rental with
  | none => trivial
  | some rental =>
      simp only
      split
      · trivial
      · refine Tx.commits_bind fun free => ?_
        split
        · refine Tx.commits_bind fun vehicle => ?_
          cases vehicle with
          | none => trivial
          | some vehicle => exact Tx.commits_bind fun _ => Tx.commits_commitAll _ _
        · trivial

/-- What the calls of a fleet request say about it. -/
structure FleetPath (keys : List String) (calls : List (SiteCall ι)) (u : SiteJob FleetRead) : Prop where
  neverStores : ∀ key value ex, nextCommand u ≠ some (.inr (.set key value ex))
  returned : ∀ read, u = .ret read → ∀ key ∈ keys,
    (∃ c ∈ calls, c.command = .inr (.delete [key])) ∧ ∃ c ∈ calls, (committed c).isSome
  raised : ∀ f, u = .raise f → ∃ e, f = .error e

theorem fleetPath_onDatabase {keys : List String} {t : Db α} {f : α → SiteJob FleetRead} {u : SiteJob FleetRead}
    (h : (onDatabase t >>= f).Follows calls u) (hpossible : ∀ c ∈ calls, Possible c.command c.answer)
    (hf : ∀ a before after, (onDatabase t).Follows before (.ret a) → (f a).Follows after u →
      calls = after ++ before → FleetPath keys calls u) : FleetPath keys calls u := by
  rcases Job.Follows.of_bind h with ⟨v, hv, rfl⟩ | ⟨a, before, after, hcalls, ht, hrest⟩
  · obtain ⟨t', rfl, -⟩ := follows_onDatabase hv hpossible
    cases t' with
    | ret a => exact hf a calls [] hv .start rfl
    | raise e =>
        exact ⟨fun key value ex hs => (by cases hs), fun read hr => (by cases hr),
          fun g hg => (by cases hg; exact ⟨e, rfl⟩)⟩
    | _ =>
        exact ⟨fun key value ex hs => (by cases hs), fun read hr => (by cases hr),
          fun g hg => (by cases hg)⟩
  · exact hf a before after ht hrest hcalls

theorem fleetPath_respond {t : Db α} {r : α → FleetRead} {u : SiteJob FleetRead}
    (h : (onDatabase t >>= fun a => (.ret (r a) : SiteJob FleetRead)).Follows calls u)
    (hpossible : ∀ c ∈ calls, Possible c.command c.answer) : FleetPath [] calls u := by
  refine fleetPath_onDatabase h hpossible fun a before after _ hend _ => ?_
  obtain ⟨-, rfl⟩ := Job.Follows.of_ret hend
  exact ⟨fun key value ex hs => (by cases hs), fun read _ key hkey => absurd hkey List.not_mem_nil,
    fun f hf => (by cases hf)⟩

/-- A write commits, then invalidates the list of `key`, then answers. -/
theorem fleetPath_write {t : Db α} (hcommits : t.Commits) {key : String} {k : α → Db β}
    {r : β → FleetRead} {u : SiteJob FleetRead}
    (h : (onDatabase t >>= fun a => invalidate [key] >>= fun _ => onDatabase (k a) >>= fun b =>
      (.ret (r b) : SiteJob FleetRead)).Follows calls u)
    (hpossible : ∀ c ∈ calls, Possible c.command c.answer) : FleetPath [key] calls u := by
  refine fleetPath_onDatabase h hpossible fun a before after ht hrest hcalls => ?_
  subst hcalls
  have hcommitted : ∃ c ∈ before, (committed c).isSome := by
    obtain ⟨t', hjob, hpath⟩ := follows_onDatabase ht fun c hc => hpossible c (List.mem_append_right _ hc)
    rcases hpath hcommits with hrest | hfound
    · cases t' <;> first | exact hrest.elim | cases hjob
    · exact hfound
  have hafter : ∀ c ∈ after, Possible c.command c.answer := fun c hc =>
    hpossible c (List.mem_append_left _ hc)
  rcases follows_exceptRedisError hrest hafter with ⟨-, hnext⟩ | ⟨later, i, x, s, rfl, hend⟩
  · refine ⟨fun key value ex hs => ?_, fun read hr => ?_, fun f hf => ?_⟩
    · rw [hnext] at hs; cases hs
    · subst hr; cases hnext
    · subst hf; cases hnext
  · have hlater := fleetPath_respond hend fun c hc => hafter c (List.mem_append_left _ hc)
    refine ⟨hlater.neverStores, fun read _ key' hkey => ?_, hlater.raised⟩
    obtain rfl := List.mem_singleton.mp hkey
    refine ⟨⟨⟨i, .inr (.delete [key']), x, s⟩, by simp, rfl⟩, ?_⟩
    obtain ⟨c, hc, hcommit⟩ := hcommitted
    exact ⟨c, List.mem_append_right _ hc, hcommit⟩

theorem FleetRequest.path (r : FleetRequest) {u : SiteJob FleetRead} (h : r.cachedRoute.Follows calls u)
    (hpossible : ∀ c ∈ calls, Possible c.command c.answer) : FleetPath r.staleLists calls u := by
  cases r with
  | createStation address capacity =>
      exact fleetPath_write (k := fun station => .ret station) (createStation_commits _ _) h hpossible
  | createVehicle licensePlate model stationId =>
      exact fleetPath_write (k := fun vehicle => .ret vehicle) (createVehicle_commits _ _ _) h hpossible
  | createRenter fullName licenseNumber => exact fleetPath_respond h hpossible
  | rental request =>
      cases request with
      | startRental renterId vehicleId =>
          exact fleetPath_write (startRental_commits _ _) h hpossible
      | endRental rentalId endStationId => exact fleetPath_write (endRental_commits _ _) h hpossible

/-- What the calls of a request that writes say about it. -/
structure WriteRequestPath (keys : List String) (calls : List (SiteCall ι)) (v : SiteJob SiteResponse) :
    Prop where
  neverStores : ∀ key value ex, nextCommand v ≠ some (.inr (.set key value ex))
  returned : ∀ r, v = .ret r → ∀ key ∈ keys,
    (∃ c ∈ calls, c.command = .inr (.delete [key])) ∧ ∃ c ∈ calls, (committed c).isSome
  raised : ∀ f, v = .raise f → ∃ e, f = .error e

theorem SiteRequest.writePath {r : FleetRequest} {v : SiteJob SiteResponse}
    (h : ((SiteRequest.fleet r).serve settings adapters).Follows calls v)
    (hpossible : ∀ c ∈ calls, Possible c.command c.answer) : WriteRequestPath r.staleLists calls v := by
  obtain ⟨w, before, after, rfl, hw, -, hwithin⟩ := follows_getDb h hpossible
  obtain ⟨u, hu, rfl⟩ := follows_ret_bind hw
  have hpath := r.path hu fun c hc => hpossible c (List.mem_append_right _ hc)
  refine ⟨fun key value ex hs => ?_, fun b hb key hkey => ?_, fun f hf => ?_⟩
  · rcases hwithin.next with hclose | hsame
    · rw [hclose] at hs; cases hs
    · refine hpath.neverStores key value ex ?_
      rw [← hs, hsame]
      cases u <;> rfl
  · have hret := hwithin.returned b hb
    cases u with
    | ret read =>
        obtain ⟨⟨d, hd, hdelete⟩, c, hc, hcommit⟩ := hpath.returned read rfl key hkey
        exact ⟨⟨d, List.mem_append_right _ hd, hdelete⟩, c, List.mem_append_right _ hc, hcommit⟩
    | raise e => cases hret
    | call w k => cases hret
  · have hraise := hwithin.raised f hf
    cases u with
    | ret read => cases hraise
    | raise e => cases hraise; exact hpath.raised f rfl
    | call w k => cases hraise

end Fleet

end FleetManagement
