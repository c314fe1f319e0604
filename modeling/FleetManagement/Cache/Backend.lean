import FleetManagement.Api.Rentals
import FleetManagement.Library.TxCalls
import FleetManagement.Telemetry.Backend

/-!
# The database and the list cache

What the requests that use the list cache ask of the outside world. A call of Redis can fail before or
after it took effect, any time can pass before it, and Redis can be restarted, which empties it.
-/

namespace FleetManagement

structure CacheEntry where
  value : String
  expiresAt : DateTime
  deriving DecidableEq, Repr

/-- A Redis with texts as values, and its clock. -/
structure TextRedis where
  entries : String → Option CacheEntry
  clock : DateTime

def TextRedis.empty (clock : DateTime) : TextRedis := ⟨fun _ => none, clock⟩

/-- The exception is a `redis.exceptions.RedisError`. -/
def RedisError.isRedisError : RedisError → Bool
  | .attemptTimedOut => false
  | _ => true

inductive CacheCommand where
  | get (key : String)
  | set (key value : String) (ex : Int)
  | delete (keys : List String)
  deriving DecidableEq, Repr

@[reducible] def CacheCommand.Answer : CacheCommand → Type
  | .get _ => Option String
  | .set _ _ _ => Unit
  | .delete _ => Unit

/-- What the environment decides at one call of Redis. -/
structure CacheTurn where
  /-- The microseconds since the last call. -/
  elapsed : Nat
  restarts : Bool
  fault : Option (Moment × { e : RedisError // e.isRedisError })

namespace TextRedis
variable (redis : TextRedis) (t : CacheTurn)

def after : TextRedis where
  entries := if t.restarts then fun _ => none else redis.entries
  clock := redis.clock + t.elapsed

/-- The value of a key that has not expired. -/
def lookup (key : String) : Option String :=
  match redis.entries key with
  | some e => if redis.clock < e.expiresAt then some e.value else none
  | none => none

/-- `SET key value EX ex` -/
def set (key value : String) (ex : Int) : Except RedisError Unit × TextRedis :=
  if 0 < ex then
    (.ok (), { redis with
      entries := Function.update redis.entries key (some ⟨value, redis.clock + 1000000 * ex⟩) })
  else (.error .responseError, redis)

def delete (keys : List String) : Except RedisError Unit × TextRedis :=
  if keys = [] then (.error .responseError, redis)
  else (.ok (), { redis with entries := fun key => if key ∈ keys then none else redis.entries key })

def execute : (w : CacheCommand) → Except RedisError w.Answer × TextRedis
  | .get key => (.ok (redis.lookup key), redis)
  | .set key value ex => redis.set key value ex
  | .delete keys => redis.delete keys

/-- A command with the outcome `r`, which fails as `t` says. -/
def outcome {α : Type} (r : Except RedisError α × TextRedis) : Except Failure α × TextRedis :=
  match t.fault with
  | none => (r.1.mapError Failure.redis, r.2)
  | some (.before, e) => (.error (.redis e.val), redis)
  | some (.after, e) => (.error (.redis e.val), r.2)

end TextRedis

def cacheDevice {ι : Type} :
    SharedDevice ι TextRedis CacheTurn CacheCommand CacheCommand.Answer Failure :=
  fun _ w t redis => some ((redis.after t).outcome t ((redis.after t).execute w))

/-! ## Both together -/

abbrev Site (ι : Type) := Sessions ι Database Stmt RowKey × TextRedis

abbrev SiteTurn := Choice Draw Error × CacheTurn

abbrev SiteCommand := TxCall Database Stmt RowKey ⊕ CacheCommand

abbrev SiteAnswer : SiteCommand → Type := Answers (TxCall.Answer Draw Error) CacheCommand.Answer

abbrev SiteJob (α : Type) := Job SiteCommand SiteAnswer Failure α

abbrev SiteCall (ι : Type) := Call ι (Site ι) SiteCommand SiteAnswer Failure

def site {ι : Type} [DecidableEq ι] : SharedDevice ι (Site ι) SiteTurn SiteCommand SiteAnswer Failure :=
  (Sessions.device dialect Failure).beside cacheDevice

def onDatabase {α : Type} (t : Db α) : SiteJob α := (t.toJob Failure.error).onFirst CacheCommand.Answer

def onCache (w : CacheCommand) : SiteJob w.Answer := Job.perform (Sum.inr w : SiteCommand)

end FleetManagement
