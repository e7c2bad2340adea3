import Traintime.Core.Auth
import Traintime.Core.RequestLog
import Traintime.Routes.CacheKeys
import Traintime.Routes.Nearby
import Traintime.Server.Fetch
import Traintime.Worker.Cache

/-!
# What the log says of a nearby request

The lines that the native server and the Worker write while they serve `/v1/nearby`: those of
Memcached, the cache and the fetch, and the request line. What a request meets on its way, the
answers of the caches and of the OJP service and how long they take, is given by an environment.

## Main definitions

* `LogLine`, `skeleton`: the lines of the log, and their texts without durations.
* `serverNearby`, `workerNearbyLog`: the two runtimes.
* `ServerMet`, `WorkerMet`: the outcome that a request meets at the caches and upstream.

## Main results

* `skeleton_serverLog`, `skeleton_workerLog`: the log is made of the outcome and the default
  station.
* `nearby_log_eq_iff`: when two requests that meet the same outcome have the same log.
-/

namespace Traintime.NearbyLog

open Auth (ApiKeys)
open Stations (Station Libm nativeNearby workerNearby)

/-! ### Lines -/

/-- A line of the log, with what is put into it. -/
inductive LogLine
  | request (method path : String) (status ms : ℕ) (cache : CacheStatus) (key : Option String)
  | fetch (key : String)
  | ojp (stopRef : String) (status ms : ℕ)
  | memcached (addr error : String)
  | memcachedTimeout (addr : String)
  | cacheHit (key : String)
  | cacheMiss (key : String)
  | stale (key : String) (age : ℕ) (error : String)
deriving DecidableEq, Repr

namespace LogLine

/-- The text of a line as the source writes it. -/
def text : LogLine → String
  | request method path status ms cache key => formatLine method path status ms cache key
  | fetch key => "FETCH " ++ key
  | ojp stopRef status ms =>
    "OJP " ++ stopRef ++ " " ++ toString status ++ " " ++ toString ms ++ "ms"
  | memcached addr error => "memcached " ++ addr ++ ": " ++ error
  | memcachedTimeout addr => "memcached " ++ addr ++ ": timeout after 50ms"
  | cacheHit key => "CACHE HIT " ++ key
  | cacheMiss key => "CACHE MISS " ++ key
  | stale key age error => "STALE " ++ key ++ " " ++ toString age ++ "s: " ++ error

/-- The line with its durations left out. The timeout of Memcached is a constant. -/
def untimed : LogLine → LogLine
  | request method path status _ cache key => request method path status 0 cache key
  | ojp stopRef status _ => ojp stopRef status 0
  | stale key _ error => stale key 0 error
  | line => line

end LogLine

/-- The texts of the lines, apart from durations. -/
def skeleton (lines : List LogLine) : List String := lines.map fun line => line.untimed.text

/-! ### Requests -/

/-- A request to `/v1/nearby`, with everything that the middleware and the handler read of it. -/
structure NearbyRequest where
  method : String
  /-- The bytes of the first `x-api-key`. -/
  apiKey : Option (List UInt8)
  lat : Option Binary64
  lon : Option Binary64
  query : Option (List Char)
  mode : Option (List Char)

namespace NearbyRequest

/-- The coordinates that a handler accepts: both are there and finite. -/
def coordinates (r : NearbyRequest) : Option (Binary64 × Binary64) :=
  match r.lat, r.lon with
  | some lat, some lon => if lat.isFinite && lon.isFinite then some (lat, lon) else none
  | _, _ => none

/-- The request has coordinates that a handler accepts, so it is not answered with 400. -/
def Valid (r : NearbyRequest) : Prop := r.coordinates.isSome = true

instance (r : NearbyRequest) : Decidable r.Valid := inferInstanceAs (Decidable (_ = true))

/-- The part of the request that the middleware reads. -/
def head (r : NearbyRequest) : Auth.Request := ⟨r.method, "/v1/nearby", r.apiKey⟩

/-- The requests differ only in their coordinates and their query. -/
structure SameElse (r r' : NearbyRequest) : Prop where
  method : r.method = r'.method
  apiKey : r.apiKey = r'.apiKey
  mode : r.mode = r'.mode

theorem SameElse.head_eq {r r' : NearbyRequest} (h : SameElse r r') : r.head = r'.head := by
  rw [head, head, h.method, h.apiKey]

end NearbyRequest

/-- What a handler gives back: what the middleware reads of the response, and the departures that
are embedded in it. -/
structure NearbyReply where
  status : ℕ
  cache : CacheStatus
  stale : Option ℕ
  departures : Option String
deriving DecidableEq, Repr

/-- The reply to an error, which has nothing to do with the cache. -/
def NearbyReply.error (status : ℕ) : NearbyReply := ⟨status, .none, none, none⟩

/-- The reply without departures, for a request that no station is near to. -/
def NearbyReply.plain : NearbyReply := ⟨200, .none, none, none⟩

/-- The reply once the caches were asked. -/
def NearbyReply.of : Server.Fetched → NearbyReply
  | .cached v => ⟨200, .hit, none, some v⟩
  | .fresh v => ⟨200, .miss, none, some v⟩
  | .stale v age => ⟨200, .hit, some age, some v⟩
  | .failed _ => ⟨200, .miss, none, none⟩

/-! ### Upstream -/

/-- What the call of the OJP service comes to. -/
inductive Upstream
  | unreachable (error : String)
  | responded (status : ℕ) (xml : Except String String)

/-- `fetch_departures`, and the departures in JSON, with the line that upstream's answer leaves. -/
def fetchDepartures (toJson : String → String) (stopRef : String) (upstream : Upstream) (ms : ℕ) :
    Except String String × List LogLine :=
  match upstream with
  | .unreachable error => (.error error, [])
  | .responded status xml =>
    if status ≠ 200 then
      (.error ("OJP API error: " ++ toString status), [.ojp stopRef status ms])
    else (xml.map toJson, [.ojp stopRef status ms])

/-- The status of the upstream's answer, if it has answered. -/
def Upstream.status? : Upstream → Option ℕ
  | .unreachable _ => none
  | .responded status _ => some status

theorem fetchDepartures_lines (toJson : String → String) (stopRef : String) (upstream : Upstream)
    (ms : ℕ) :
    (fetchDepartures toJson stopRef upstream ms).2 =
      (upstream.status?.map fun status => LogLine.ojp stopRef status ms).toList := by
  cases upstream with
  | unreachable error => rfl
  | responded status xml =>
    rw [fetchDepartures]
    split_ifs <;> rfl

/-! ### Memcached -/

/-- What a call of Memcached comes to. It is skipped where there is none and for a while after one
failed. -/
inductive SharedCall (α : Type)
  | skipped
  | ok (a : α)
  | failed (error : String)
  | timedOut

/-- What is logged of a call of Memcached. -/
inductive Trouble
  | failed (error : String)
  | timedOut
deriving DecidableEq, Repr

/-- The line that a failed call to Memcached leaves. -/
def Trouble.line (addr : String) : Trouble → LogLine
  | .failed error => .memcached addr error
  | .timedOut => .memcachedTimeout addr

namespace SharedCall

variable {α : Type}

/-- `Memcached::call`: what it gives, and the line that a failure leaves. -/
def run (addr : String) : SharedCall α → Option α × List LogLine
  | skipped => (none, [])
  | ok a => (some a, [])
  | failed error => (none, [.memcached addr error])
  | timedOut => (none, [.memcachedTimeout addr])

/-- What a call to Memcached complains about, if it does. -/
def trouble : SharedCall α → Option Trouble
  | failed error => some (.failed error)
  | timedOut => some .timedOut
  | _ => none

theorem run_lines (addr : String) (call : SharedCall α) :
    (call.run addr).2 = (call.trouble.map (Trouble.line addr)).toList := by
  cases call <;> rfl

end SharedCall

/-! ### The native server -/

/-- What the native server is started with. -/
structure ServerConfig where
  keys : ApiKeys
  table : List Station
  memcachedAddr : String
  cacheTtl : ℕ

/-- What a request meets in the native server. -/
structure ServerEnv where
  sharedGet : SharedCall (Option String)
  podGet : Option String
  /-- No other request is fetching the key. -/
  leader : Bool
  upstream : Upstream
  sharedSet : SharedCall Unit
  /-- The reads of `from_cache`. -/
  laterGet : Option String
  laterStale : Option (String × ℕ)
  ojpMs : ℕ
  ms : ℕ

section Server

open Server (Fetched validKey)

variable (cfg : ServerConfig) (env : ServerEnv) (toJson : String → String)

/-- `Cache::lookup`: the shared cache first, for a key that it can hold, and then that of the pod.
-/
def lookup (key : String) : Option String × List LogLine :=
  let (reply, lines) := if validKey key then env.sharedGet.run cfg.memcachedAddr else (none, [])
  (reply.join.or env.podGet, lines)

/-- What `Cache::store` logs: nothing, unless the set is tried and fails. -/
def store (key : String) : List LogLine :=
  if !validKey key || cfg.cacheTtl = 0 then [] else (env.sharedSet.run cfg.memcachedAddr).2

/-- `from_cache`: what the cache of the pod has for a request whose call has failed, an entry that
is stale before none. -/
def fromCache (error : String) : Fetched :=
  match env.laterGet, env.laterStale with
  | some v, _ => .cached v
  | none, some (v, age) => .stale v age
  | none, none => .failed error

/-- `Inflight::cached`, with what the fetch of this request comes to. -/
def cached (key : String) (fetch : Except String String × List LogLine) :
    Fetched × List LogLine :=
  match (lookup cfg env key).1 with
  | some v => (.cached v, (lookup cfg env key).2)
  | none =>
    if env.leader then
      match fetch.1 with
      | .ok v => (.fresh v, (lookup cfg env key).2 ++ .fetch key :: (fetch.2 ++ store cfg env key))
      | .error e => (fromCache env e, (lookup cfg env key).2 ++ .fetch key :: fetch.2)
    else (fromCache env "upstream unavailable", (lookup cfg env key).2)

/-- Whether the handler tells of a hit. -/
def cacheStatus : Fetched → CacheStatus
  | .cached _ => .hit
  | .stale _ _ => .hit
  | .fresh _ => .miss
  | .failed _ => .miss

/-- The outcome at the caches and upstream. -/
inductive ServerMet
  /-- No cache was asked. -/
  | nothing
  | hit (get : Option Trouble)
  /-- Another request was fetching the key. -/
  | joined (get : Option Trouble) (cache : CacheStatus)
  | fetched (get : Option Trouble) (status : Option ℕ) (set : Option Trouble) (cache : CacheStatus)
deriving DecidableEq, Repr

/-- The trouble with Memcached at the lookup. -/
def getTrouble (key : String) : Option Trouble :=
  if validKey key then env.sharedGet.trouble else none

/-- The trouble with Memcached once a fetch succeeded. -/
def setTrouble (key : String) : Option Trouble :=
  if !validKey key || cfg.cacheTtl = 0 then none else env.sharedSet.trouble

/-- The outcome for a key. -/
def ServerEnv.met (key : String) (fetch : Except String String × List LogLine) : ServerMet :=
  let cache := cacheStatus (cached cfg env key fetch).1
  match (lookup cfg env key).1 with
  | some _ => .hit (getTrouble env key)
  | none =>
    if env.leader then
      .fetched (getTrouble env key) env.upstream.status?
        (if fetch.1.isOk then setTrouble cfg env key else none) cache
    else .joined (getTrouble env key) cache

/-- The lines of an outcome, apart from durations. -/
def ServerMet.lines (addr key stopRef : String) : ServerMet → List LogLine
  | nothing => []
  | hit get => (get.map (Trouble.line addr)).toList
  | joined get _ => (get.map (Trouble.line addr)).toList
  | fetched get status set _ =>
    (get.map (Trouble.line addr)).toList ++ .fetch key ::
      ((status.map fun status => LogLine.ojp stopRef status 0).toList ++
        (set.map (Trouble.line addr)).toList)

/-- The cache status of an outcome. -/
def ServerMet.cache : ServerMet → CacheStatus
  | nothing => .none
  | hit _ => .hit
  | joined _ cache => cache
  | fetched _ _ _ cache => cache

/-- A station is named only where it is fetched. -/
def ServerMet.NamesStation : ServerMet → Prop
  | fetched _ _ _ _ => True
  | _ => False

variable {cfg env toJson} {key : String}

@[simp] theorem map_untimed_trouble (addr : String) (trouble : Option Trouble) :
    (trouble.map (Trouble.line addr)).toList.map LogLine.untimed =
      (trouble.map (Trouble.line addr)).toList := by
  rcases trouble with - | (error | -) <;> rfl

@[simp] theorem map_untimed_ojp (stopRef : String) (status : Option ℕ) (ms : ℕ) :
    (status.map fun status => LogLine.ojp stopRef status ms).toList.map LogLine.untimed =
      (status.map fun status => LogLine.ojp stopRef status 0).toList := by
  cases status <;> rfl

theorem lookup_lines (key : String) :
    (lookup cfg env key).2 =
      ((getTrouble env key).map (Trouble.line cfg.memcachedAddr)).toList := by
  rw [lookup, getTrouble]
  split_ifs
  · exact SharedCall.run_lines _ _
  · rfl

theorem store_lines (key : String) :
    store cfg env key = ((setTrouble cfg env key).map (Trouble.line cfg.memcachedAddr)).toList := by
  rw [store, setTrouble, SharedCall.run_lines]
  split_ifs <;> rfl

/-- The lines of the cache are those of the outcome. -/
theorem cached_lines (stopRef : String) :
    let fetch := fetchDepartures toJson stopRef env.upstream env.ojpMs
    (cached cfg env key fetch).2.map LogLine.untimed =
      (env.met cfg key fetch).lines cfg.memcachedAddr key stopRef := by
  intro fetch
  have hasked : fetch.2.map LogLine.untimed =
      (env.upstream.status?.map fun status => LogLine.ojp stopRef status 0).toList := by
    rw [fetchDepartures_lines, map_untimed_ojp]
  rw [cached, ServerEnv.met]
  cases (lookup cfg env key).1 with
  | some v => rw [lookup_lines, map_untimed_trouble, ServerMet.lines]
  | none =>
    by_cases hleader : env.leader = true
    · rw [if_pos hleader, if_pos hleader, ServerMet.lines]
      cases fetch.1 with
      | error e =>
        rw [lookup_lines, List.map_append, map_untimed_trouble, List.map_cons, hasked]
        simp [LogLine.untimed, Except.isOk, Except.toBool]
      | ok v =>
        rw [lookup_lines, List.map_append, map_untimed_trouble, List.map_cons, List.map_append,
          hasked, store_lines, map_untimed_trouble]
        rfl
    · rw [if_neg hleader, if_neg hleader, lookup_lines, map_untimed_trouble, ServerMet.lines]

/-- The handler tells of a hit as the outcome does. -/
theorem cacheStatus_cached (fetch : Except String String × List LogLine) :
    cacheStatus (cached cfg env key fetch).1 = (env.met cfg key fetch).cache := by
  rw [ServerEnv.met, cached]
  cases (lookup cfg env key).1 with
  | some v => rfl
  | none => split_ifs <;> rfl

end Server

/-! ### Serving -/

/-- A router answers GET and HEAD only. -/
def route (method : String) (handled : NearbyReply × List LogLine) : NearbyReply × List LogLine :=
  if method = "GET" ∨ method = "HEAD" then handled else (.error 405, [])

/-- The lines of a request once its key is checked, the request line at the end. -/
def logged (answer : Auth.Answer) (method : String) (ms : ℕ)
    (handled : NearbyReply × List LogLine) : List LogLine :=
  match answer with
  | .noContent => []
  | .unauthorized => [.request method "/v1/nearby" 401 ms .none none]
  | .passed keyLabel =>
    let (reply, lines) := route method handled
    lines ++ [.request method "/v1/nearby" reply.status ms reply.cache (keyLabel.map String.ofList)]

/-- The handler is called: the request goes through and has a method of the route. -/
def reached (answer : Auth.Answer) (method : String) : Bool :=
  match answer with
  | .passed _ => method = "GET" ∨ method = "HEAD"
  | _ => false

section Handlers

variable (m : Libm) (toLowercase : List Char → List Char) (toJson : String → String)

section Server

variable (cfg : ServerConfig) (env : ServerEnv)

/-- The station whose departures the native server embeds. -/
def serverDefault (r : NearbyRequest) : Option String :=
  match r.coordinates with
  | none => none
  | some (lat, lon) =>
    (nativeNearby m toLowercase cfg.table lat lon r.query r.mode).defaultId.map String.ofList

/-- `handle_nearby` of the native server, with the lines that it writes. -/
def serverNearby (r : NearbyRequest) : NearbyReply × List LogLine :=
  match r.coordinates with
  | none => (.error 400, [])
  | some (lat, lon) =>
    match (nativeNearby m toLowercase cfg.table lat lon r.query r.mode).defaultId with
    | none => (.plain, [])
    | some id =>
      let stopRef := String.ofList id
      let (fetched, lines) := cached cfg env (departuresKey stopRef)
        (fetchDepartures toJson stopRef env.upstream env.ojpMs)
      (.of fetched, lines)

/-- The log of the native server for one request, the request line last. -/
def serverLog (r : NearbyRequest) : List LogLine :=
  logged (Auth.auth cfg.keys r.head) r.method env.ms (serverNearby m toLowercase toJson cfg env r)

/-- The outcome that a request meets. -/
def serverMet (r : NearbyRequest) : ServerMet :=
  if reached (Auth.auth cfg.keys r.head) r.method then
    match serverDefault m toLowercase cfg r with
    | none => .nothing
    | some stopRef => env.met cfg (departuresKey stopRef)
        (fetchDepartures toJson stopRef env.upstream env.ojpMs)
  else .nothing

end Server

/-! ### The Worker -/

/-- What the Worker is configured with, `API_KEYS` and `API_KEY` as far as they are there. -/
structure WorkerConfig where
  apiKeys : Option (List Char)
  apiKey : Option (List Char)

/-- What a request meets in the Worker. -/
structure WorkerEnv where
  /-- The rows that D1 selects. -/
  d1 : Except String (List Station)
  cached : Worker.Cached
  upstream : Upstream
  ojpMs : ℕ
  ms : ℕ

/-- The part of `handle_nearby` that asks the cache and upstream. -/
def workerCached (key : String) (cached : Worker.Cached)
    (fetch : Except String String × List LogLine) : NearbyReply × List LogLine :=
  match cached with
  | .fresh v => (⟨200, .hit, none, some v⟩, [.cacheHit key])
  | cached =>
    match fetch.1 with
    | .ok json => (⟨200, .miss, none, some json⟩, .cacheMiss key :: fetch.2)
    | .error e =>
      match cached with
      | .stale v age =>
        (⟨200, .hit, some age, some v⟩, .cacheMiss key :: (fetch.2 ++ [.stale key age e]))
      | _ => (⟨200, .miss, none, none⟩, .cacheMiss key :: fetch.2)

/-- The outcome at D1, the cache and upstream. -/
inductive WorkerMet
  /-- No cache was asked. -/
  | nothing
  /-- D1 failed. -/
  | failed
  | hit
  /-- Upstream was asked; an error for which a stale entry is served. -/
  | missed (status : Option ℕ) (staleFor : Option String)
deriving DecidableEq, Repr

namespace WorkerMet

/-- What the request has met, by what the edge cache and upstream gave it. -/
def of (cached : Worker.Cached) (status : Option ℕ) (result : Except String String) : WorkerMet :=
  match cached, result with
  | .fresh _, _ => hit
  | .stale _ _, .error e => missed status (some e)
  | _, _ => missed status none

/-- The lines of an outcome, apart from durations. -/
def lines (key stopRef : String) : WorkerMet → List LogLine
  | nothing => []
  | failed => []
  | hit => [.cacheHit key]
  | missed status staleFor =>
    .cacheMiss key :: ((status.map fun status => LogLine.ojp stopRef status 0).toList ++
      (staleFor.map (LogLine.stale key 0)).toList)

/-- The reply to an outcome, as far as it is logged. -/
def reply : WorkerMet → NearbyReply
  | nothing => .plain
  | failed => .error 500
  | hit => ⟨200, .hit, none, none⟩
  | missed _ staleFor => ⟨200, if staleFor.isSome then .hit else .miss, none, none⟩

/-- A station is named wherever a cache is asked. -/
def NamesStation : WorkerMet → Prop
  | nothing => False
  | failed => False
  | hit => True
  | missed _ _ => True

end WorkerMet

section Worker

variable (cfg : WorkerConfig) (env : WorkerEnv)

/-- The station whose departures the Worker embeds. -/
def workerDefault (r : NearbyRequest) : Option String :=
  match r.coordinates, env.d1 with
  | some (lat, lon), .ok rows =>
    (workerNearby m toLowercase rows lat lon r.query r.mode).defaultId.map String.ofList
  | _, _ => none

/-- `handle_nearby` of the Worker, with the lines that it writes. -/
def workerHandle (r : NearbyRequest) : NearbyReply × List LogLine :=
  match r.coordinates with
  | none => (.error 400, [])
  | some (lat, lon) =>
    match env.d1 with
    | .error _ => (.error 500, [])
    | .ok rows =>
      match (workerNearby m toLowercase rows lat lon r.query r.mode).defaultId with
      | none => (.plain, [])
      | some id =>
        let stopRef := String.ofList id
        workerCached (departuresKey stopRef) env.cached
          (fetchDepartures toJson stopRef env.upstream env.ojpMs)

/-- The log of the Worker for one request, the request line last. -/
def workerLog (r : NearbyRequest) : List LogLine :=
  logged (Auth.workerAnswer cfg.apiKeys cfg.apiKey r.head) r.method env.ms
    (workerHandle m toLowercase toJson env r)

/-- The outcome that a request meets. -/
def workerMet (r : NearbyRequest) : WorkerMet :=
  if reached (Auth.workerAnswer cfg.apiKeys cfg.apiKey r.head) r.method then
    match env.d1, workerDefault m toLowercase env r with
    | .error _, _ => .failed
    | .ok _, none => .nothing
    | .ok _, some stopRef => .of env.cached env.upstream.status?
        (fetchDepartures toJson stopRef env.upstream env.ojpMs).1
  else .nothing

end Worker

end Handlers

/-! ### The log is made of the outcome and the default station -/

section Skeleton

variable {m : Libm} {toLowercase : List Char → List Char} {toJson : String → String}

/-- Durations are left out before the texts are made. -/
theorem skeleton_logged (answer : Auth.Answer) (method : String) (ms : ℕ)
    (handled : NearbyReply × List LogLine) :
    skeleton (logged answer method ms handled) =
      (logged answer method 0 (handled.1, handled.2.map LogLine.untimed)).map LogLine.text := by
  have hmap : ∀ lines, skeleton lines = (lines.map LogLine.untimed).map LogLine.text := by
    intro lines
    rw [List.map_map]
    rfl
  cases answer with
  | noContent => rfl
  | unauthorized => rfl
  | passed keyLabel =>
    rw [hmap, logged, logged, route, route]
    split_ifs
    · rw [List.map_append]
      rfl
    · rfl

/-- Without the handler the lines it would write do not matter. -/
theorem logged_of_not_reached {answer : Auth.Answer} {method : String}
    (h : reached answer method = false) (ms : ℕ) (handled handled' : NearbyReply × List LogLine) :
    logged answer method ms handled = logged answer method ms handled' := by
  cases answer with
  | noContent => rfl
  | unauthorized => rfl
  | passed keyLabel =>
    have hmethod : ¬(method = "GET" ∨ method = "HEAD") := of_decide_eq_false h
    rw [logged, logged, route, route, if_neg hmethod, if_neg hmethod]

/-- The lines of the handler are in the log whenever it is called. -/
theorem logged_inj {answer : Auth.Answer} {method : String} (h : reached answer method = true)
    {ms : ℕ} {reply : NearbyReply} {lines lines' : List LogLine} :
    (logged answer method ms (reply, lines)).map LogLine.text =
        (logged answer method ms (reply, lines')).map LogLine.text ↔
      lines.map LogLine.text = lines'.map LogLine.text := by
  cases answer with
  | noContent => exact absurd h Bool.false_ne_true
  | unauthorized => exact absurd h Bool.false_ne_true
  | passed keyLabel =>
    have hmethod : method = "GET" ∨ method = "HEAD" := of_decide_eq_true h
    rw [logged, logged, route, route, if_pos hmethod, if_pos hmethod, List.map_append,
      List.map_append]
    exact List.append_left_inj _

/-- Of the reply, its status and cache status are logged. -/
theorem logged_congr {reply reply' : NearbyReply} (hstatus : reply.status = reply'.status)
    (hcache : reply.cache = reply'.cache) (answer : Auth.Answer) (method : String) (ms : ℕ)
    (lines : List LogLine) :
    logged answer method ms (reply, lines) = logged answer method ms (reply', lines) := by
  cases answer with
  | noContent => rfl
  | unauthorized => rfl
  | passed keyLabel =>
    rw [logged, logged, route, route]
    split_ifs
    · simp only [hstatus, hcache]
    · rfl

theorem NearbyReply.of_status (fetched : Server.Fetched) :
    (NearbyReply.of fetched).status = 200 := by
  cases fetched <;> rfl

theorem NearbyReply.of_cache (fetched : Server.Fetched) :
    (NearbyReply.of fetched).cache = cacheStatus fetched := by
  cases fetched <;> rfl

theorem NearbyRequest.Valid.exists_coordinates {r : NearbyRequest} (hr : r.Valid) :
    ∃ lat lon, r.coordinates = some (lat, lon) := by
  obtain ⟨⟨lat, lon⟩, h⟩ := Option.isSome_iff_exists.mp hr
  exact ⟨lat, lon, h⟩

theorem skeleton_serverLog {cfg : ServerConfig} {env : ServerEnv} {r : NearbyRequest}
    (hr : r.Valid) :
    let stopRef := (serverDefault m toLowercase cfg r).getD ""
    let met := serverMet m toLowercase toJson cfg env r
    skeleton (serverLog m toLowercase toJson cfg env r) =
      (logged (Auth.auth cfg.keys r.head) r.method 0 (⟨200, met.cache, none, none⟩,
        met.lines cfg.memcachedAddr (departuresKey stopRef) stopRef)).map LogLine.text := by
  intro stopRef met
  obtain ⟨lat, lon, hcoordinates⟩ := hr.exists_coordinates
  rw [serverLog]
  cases hreached : reached (Auth.auth cfg.keys r.head) r.method with
  | false =>
    rw [skeleton_logged, logged_of_not_reached hreached]
  | true =>
    have hmet : met = _ := if_pos hreached
    have hdefault : serverDefault m toLowercase cfg r = Option.map String.ofList
        (nativeNearby m toLowercase cfg.table lat lon r.query r.mode).defaultId := by
      rw [serverDefault, hcoordinates]
    rw [serverNearby, hcoordinates]
    dsimp only
    cases hid : (nativeNearby m toLowercase cfg.table lat lon r.query r.mode).defaultId with
    | none =>
      rw [hid, Option.map_none] at hdefault
      rw [hdefault] at hmet
      rw [hmet, skeleton_logged]
      rfl
    | some id =>
      rw [hid, Option.map_some] at hdefault
      have hstop : stopRef = String.ofList id := congrArg (Option.getD · "") hdefault
      rw [hdefault] at hmet
      dsimp only at hmet ⊢
      rw [skeleton_logged, cached_lines, hmet, hstop]
      refine congrArg _ (logged_congr (NearbyReply.of_status _) ?_ _ _ _ _)
      rw [NearbyReply.of_cache, cacheStatus_cached]

theorem workerCached_lines (key stopRef : String) (cached : Worker.Cached) (upstream : Upstream)
    (ms : ℕ) :
    let fetch := fetchDepartures toJson stopRef upstream ms
    (workerCached key cached fetch).2.map LogLine.untimed =
      (WorkerMet.of cached upstream.status? fetch.1).lines key stopRef := by
  intro fetch
  have hasked : fetch.2.map LogLine.untimed =
      (upstream.status?.map fun status => LogLine.ojp stopRef status 0).toList := by
    rw [fetchDepartures_lines, map_untimed_ojp]
  unfold workerCached
  cases cached with
  | fresh v => rfl
  | stale v age =>
    cases fetch.1 with
    | ok json => simp [WorkerMet.of, WorkerMet.lines, LogLine.untimed, hasked]
    | error e => simp [WorkerMet.of, WorkerMet.lines, LogLine.untimed, hasked]
  | missing =>
    cases fetch.1 with
    | ok json => simp [WorkerMet.of, WorkerMet.lines, LogLine.untimed, hasked]
    | error e => simp [WorkerMet.of, WorkerMet.lines, LogLine.untimed, hasked]

theorem workerCached_reply (key : String) (cached : Worker.Cached) (status : Option ℕ)
    (fetch : Except String String × List LogLine) :
    (workerCached key cached fetch).1.status = (WorkerMet.of cached status fetch.1).reply.status ∧
      (workerCached key cached fetch).1.cache =
        (WorkerMet.of cached status fetch.1).reply.cache := by
  unfold workerCached
  cases cached <;> cases fetch.1 <;> exact ⟨rfl, rfl⟩

theorem skeleton_workerLog {cfg : WorkerConfig} {env : WorkerEnv} {r : NearbyRequest}
    (hr : r.Valid) :
    let stopRef := (workerDefault m toLowercase env r).getD ""
    let met := workerMet m toLowercase toJson cfg env r
    skeleton (workerLog m toLowercase toJson cfg env r) =
      (logged (Auth.workerAnswer cfg.apiKeys cfg.apiKey r.head) r.method 0 (met.reply,
        met.lines (departuresKey stopRef) stopRef)).map LogLine.text := by
  intro stopRef met
  obtain ⟨lat, lon, hcoordinates⟩ := hr.exists_coordinates
  rw [workerLog]
  cases hreached : reached (Auth.workerAnswer cfg.apiKeys cfg.apiKey r.head) r.method with
  | false =>
    rw [skeleton_logged, logged_of_not_reached hreached]
  | true =>
    have hmet : met = _ := if_pos hreached
    rw [workerHandle, hcoordinates]
    dsimp only
    cases hd1 : env.d1 with
    | error e =>
      rw [hd1] at hmet
      rw [hmet, skeleton_logged]
      rfl
    | ok rows =>
      have hdefault : workerDefault m toLowercase env r = Option.map String.ofList
          (workerNearby m toLowercase rows lat lon r.query r.mode).defaultId := by
        rw [workerDefault, hcoordinates, hd1]
      rw [hd1] at hmet
      dsimp only
      cases hid : (workerNearby m toLowercase rows lat lon r.query r.mode).defaultId with
      | none =>
        rw [hid, Option.map_none] at hdefault
        rw [hdefault] at hmet
        rw [hmet, skeleton_logged]
        rfl
      | some id =>
        rw [hid, Option.map_some] at hdefault
        have hstop : stopRef = String.ofList id := congrArg (Option.getD · "") hdefault
        rw [hdefault] at hmet
        obtain ⟨hstatus, hcache⟩ := workerCached_reply (departuresKey stopRef) env.cached
          env.upstream.status? (fetchDepartures toJson stopRef env.upstream env.ojpMs)
        dsimp only at hmet ⊢
        rw [← hstop] at hmet ⊢
        rw [skeleton_logged, workerCached_lines, hmet]
        exact congrArg _ (logged_congr hstatus hcache _ _ _ _)

/-! ### Two requests -/

theorem text_fetch_injective :
    Function.Injective fun id => (LogLine.fetch (departuresKey id)).text := by
  intro id id' h
  exact departuresKey_injective (String.append_right_inj _ |>.mp h)

/-- Where a station is named, its lines are its own. -/
theorem ServerMet.map_text_lines_inj {met : ServerMet} (h : met.NamesStation)
    {addr id id' : String} :
    (met.lines addr (departuresKey id) id).map LogLine.text =
      (met.lines addr (departuresKey id') id').map LogLine.text ↔ id = id' := by
  refine ⟨fun hlines => ?_, fun hid => by rw [hid]⟩
  cases met with
  | nothing => exact h.elim
  | hit get => exact h.elim
  | joined get cache => exact h.elim
  | fetched get status set cache =>
    rw [lines, lines, List.map_append, List.map_append, List.append_right_inj, List.map_cons,
      List.map_cons, List.cons.injEq] at hlines
    exact text_fetch_injective hlines.1

theorem WorkerMet.map_text_lines_inj {met : WorkerMet} (h : met.NamesStation) {id id' : String} :
    (met.lines (departuresKey id) id).map LogLine.text =
      (met.lines (departuresKey id') id').map LogLine.text ↔ id = id' := by
  refine ⟨fun hlines => ?_, fun hid => by rw [hid]⟩
  cases met with
  | nothing => exact h.elim
  | failed => exact h.elim
  | hit =>
    rw [lines, lines, List.map_singleton, List.map_singleton, List.singleton_inj] at hlines
    exact departuresKey_injective ((String.append_right_inj _).mp hlines)
  | missed status staleFor =>
    rw [lines, lines, List.map_cons, List.map_cons, List.cons.injEq] at hlines
    exact departuresKey_injective ((String.append_right_inj _).mp hlines.1)

/-- A station can be named only by a request that the handler serves. -/
theorem ServerMet.NamesStation.exists_default {cfg : ServerConfig} {env : ServerEnv}
    {r : NearbyRequest} (h : (serverMet m toLowercase toJson cfg env r).NamesStation) :
    reached (Auth.auth cfg.keys r.head) r.method = true ∧
      ∃ stopRef, serverDefault m toLowercase cfg r = some stopRef := by
  rw [serverMet] at h
  split_ifs at h with hreached
  · cases hdefault : serverDefault m toLowercase cfg r with
    | none => exact (by rwa [hdefault] at h : False).elim
    | some stopRef => exact ⟨hreached, stopRef, rfl⟩
  · exact h.elim

theorem WorkerMet.NamesStation.exists_default {cfg : WorkerConfig} {env : WorkerEnv}
    {r : NearbyRequest} (h : (workerMet m toLowercase toJson cfg env r).NamesStation) :
    reached (Auth.workerAnswer cfg.apiKeys cfg.apiKey r.head) r.method = true ∧
      ∃ stopRef, workerDefault m toLowercase env r = some stopRef := by
  rw [workerMet] at h
  split_ifs at h with hreached
  · cases hd1 : env.d1 with
    | error e => exact (by rwa [hd1] at h : False).elim
    | ok rows =>
      cases hdefault : workerDefault m toLowercase env r with
      | none => exact (by rwa [hd1, hdefault] at h : False).elim
      | some stopRef => exact ⟨hreached, stopRef, rfl⟩
  · exact h.elim

/-- An outcome at which no station is named has one text. -/
theorem ServerMet.lines_of_not_namesStation {met : ServerMet} (h : ¬met.NamesStation)
    (addr key key' id id' : String) : met.lines addr key id = met.lines addr key' id' := by
  cases met with
  | nothing => rfl
  | hit get => rfl
  | joined get cache => rfl
  | fetched get status set cache => exact absurd trivial h

theorem WorkerMet.lines_of_not_namesStation {met : WorkerMet} (h : ¬met.NamesStation)
    (key key' id id' : String) : met.lines key id = met.lines key' id' := by
  cases met with
  | nothing => rfl
  | failed => rfl
  | hit => exact absurd trivial h
  | missed status staleFor => exact absurd trivial h

theorem serverLog_eq_iff {cfg : ServerConfig} {env env' : ServerEnv} {r r' : NearbyRequest}
    (hr : r.Valid) (hr' : r'.Valid) (hsame : r.SameElse r')
    (hmet : serverMet m toLowercase toJson cfg env r = serverMet m toLowercase toJson cfg env' r') :
    skeleton (serverLog m toLowercase toJson cfg env r) =
        skeleton (serverLog m toLowercase toJson cfg env' r') ↔
      ((serverMet m toLowercase toJson cfg env r).NamesStation →
        serverDefault m toLowercase cfg r = serverDefault m toLowercase cfg r') := by
  rw [skeleton_serverLog hr, skeleton_serverLog hr', ← hmet, ← hsame.head_eq, ← hsame.method]
  by_cases hnames : (serverMet m toLowercase toJson cfg env r).NamesStation
  · obtain ⟨hreached, id, hid⟩ := hnames.exists_default
    obtain ⟨-, id', hid'⟩ := (hmet ▸ hnames).exists_default
    rw [logged_inj hreached, ServerMet.map_text_lines_inj hnames, hid, hid', Option.getD_some,
      Option.getD_some, Option.some_inj]
    exact ⟨fun h _ => h, fun h => h hnames⟩
  · rw [ServerMet.lines_of_not_namesStation hnames]
    exact ⟨fun _ h => absurd h hnames, fun _ => rfl⟩

theorem workerLog_eq_iff {cfg : WorkerConfig} {env env' : WorkerEnv} {r r' : NearbyRequest}
    (hr : r.Valid) (hr' : r'.Valid) (hsame : r.SameElse r')
    (hmet : workerMet m toLowercase toJson cfg env r = workerMet m toLowercase toJson cfg env' r') :
    skeleton (workerLog m toLowercase toJson cfg env r) =
        skeleton (workerLog m toLowercase toJson cfg env' r') ↔
      ((workerMet m toLowercase toJson cfg env r).NamesStation →
        workerDefault m toLowercase env r = workerDefault m toLowercase env' r') := by
  rw [skeleton_workerLog hr, skeleton_workerLog hr', ← hmet, ← hsame.head_eq, ← hsame.method]
  by_cases hnames : (workerMet m toLowercase toJson cfg env r).NamesStation
  · obtain ⟨hreached, id, hid⟩ := hnames.exists_default
    obtain ⟨-, id', hid'⟩ := (hmet ▸ hnames).exists_default
    rw [logged_inj hreached, WorkerMet.map_text_lines_inj hnames, hid, hid', Option.getD_some,
      Option.getD_some, Option.some_inj]
    exact ⟨fun h _ => h, fun h => h hnames⟩
  · rw [WorkerMet.lines_of_not_namesStation hnames]
    exact ⟨fun _ h => absurd h hnames, fun _ => rfl⟩

end Skeleton

/-- Two requests that differ in where they come from and meet the same outcome leave the same lines,
apart from durations, exactly when the stations whose departures they embed are the same or are not
named. The native server names the station it fetches, the Worker every station it looks up. -/
theorem nearby_log_eq_iff (m : Libm) (toLowercase : List Char → List Char)
    (toJson : String → String) {r r' : NearbyRequest} (hr : r.Valid) (hr' : r'.Valid)
    (hsame : r.SameElse r') :
    (∀ cfg env env',
      serverMet m toLowercase toJson cfg env r = serverMet m toLowercase toJson cfg env' r' →
        (skeleton (serverLog m toLowercase toJson cfg env r) =
            skeleton (serverLog m toLowercase toJson cfg env' r') ↔
          ((serverMet m toLowercase toJson cfg env r).NamesStation →
            serverDefault m toLowercase cfg r = serverDefault m toLowercase cfg r'))) ∧
      ∀ cfg env env',
        workerMet m toLowercase toJson cfg env r = workerMet m toLowercase toJson cfg env' r' →
          (skeleton (workerLog m toLowercase toJson cfg env r) =
              skeleton (workerLog m toLowercase toJson cfg env' r') ↔
            ((workerMet m toLowercase toJson cfg env r).NamesStation →
              workerDefault m toLowercase env r = workerDefault m toLowercase env' r')) :=
  ⟨fun _ _ _ hmet => serverLog_eq_iff hr hr' hsame hmet,
    fun _ _ _ hmet => workerLog_eq_iff hr hr' hsame hmet⟩

/-! ### Two villages -/

open Stations (orsingenLat orsingenLon orsingenRathaus libmAtOrsingen)

/-- A row of `stations.json` on the same latitude. -/
def brandenbergSiedlung : Station :=
  ⟨"1100031".toList, "Brandenberg (D), Siedlung".toList, orsingenLat,
    .finite (8976011827321451 / 2 ^ 50), "bus".toList⟩

/-- A request from a station. -/
def requestAt (s : Station) : NearbyRequest where
  method := "GET"
  apiKey := some (Auth.bytes "key".toList)
  lat := some s.lat
  lon := some s.lon
  query := none
  mode := none

/-- A server whose table has one stop in each of two villages. -/
def twoVillages : ServerConfig where
  keys := ⟨["key".toList], List.cons_ne_nil _ _, fun key hkey => by
    rw [List.mem_singleton.mp hkey]
    exact ⟨by decide, "key".toList, by decide⟩⟩
  table := [orsingenRathaus, brandenbergSiedlung]
  memcachedAddr := "memcached:11211"
  cacheTtl := 60

/-- Nothing is cached and upstream answers. -/
def coldCache : ServerEnv where
  sharedGet := .skipped
  podGet := none
  leader := true
  upstream := .responded 200 (.ok "<OJP/>")
  sharedSet := .skipped
  laterGet := none
  laterStale := none
  ojpMs := 150
  ms := 160

/-- The only station around is the default. -/
theorem serverDefault_single {a : Station}
    (hselected : (twoVillages.table.filter (Stations.inBox a.lat a.lon)) = [a])
    (hgroups : Stations.addRow libmAtOrsingen a.lat a.lon .empty a =
      ⟨[], [Stations.nearbyStation libmAtOrsingen a.lat a.lon a], [], []⟩)
    (hfinite : (requestAt a).coordinates = some (a.lat, a.lon)) :
    serverDefault libmAtOrsingen id twoVillages (requestAt a) = some (String.ofList a.id) := by
  have hnames : [a].filter (Stations.nameLike id none) = [a] :=
    List.filter_eq_self.mpr fun _ _ => rfl
  rw [serverDefault, hfinite]
  dsimp only
  rw [nativeNearby, Stations.candidates, hselected, show (requestAt a).query = none from rfl,
    Option.map_none, hnames, Stations.nearbyAnswer, Stations.groupNearby, List.foldl_cons,
    List.foldl_nil, hgroups, Stations.ModeGroups.map]
  simp only [Stations.closest, List.mergeSort_nil, List.mergeSort_singleton]
  rfl

theorem serverDefault_orsingen :
    serverDefault libmAtOrsingen id twoVillages (requestAt orsingenRathaus) = some "1101753" :=
  serverDefault_single (by decide +kernel) (by decide +kernel) (by decide +kernel)

theorem serverDefault_brandenberg :
    serverDefault libmAtOrsingen id twoVillages (requestAt brandenbergSiedlung) = some "1100031" :=
  serverDefault_single (by decide +kernel) (by decide +kernel) (by decide +kernel)

/-- With a cold cache a request fetches whatever station it is for. -/
theorem coldCache_met (key stopRef : String) :
    coldCache.met twoVillages key (fetchDepartures id stopRef coldCache.upstream coldCache.ojpMs) =
      .fetched none (some 200) none .miss := by
  have hget : getTrouble coldCache key = none := by
    rw [getTrouble]
    split_ifs <;> rfl
  have hset : setTrouble twoVillages coldCache key = none := by
    rw [setTrouble]
    split_ifs <;> rfl
  have hlookup : lookup twoVillages coldCache key = (none, []) := by
    rw [lookup]
    split_ifs <;> rfl
  rw [ServerEnv.met, cached, hget, hset, hlookup]
  rfl

theorem serverMet_coldCache {r : NearbyRequest} {stopRef : String}
    (hreached : reached (Auth.auth twoVillages.keys r.head) r.method = true)
    (hdefault : serverDefault libmAtOrsingen id twoVillages r = some stopRef) :
    serverMet libmAtOrsingen id id twoVillages coldCache r =
      .fetched none (some 200) none .miss := by
  rw [serverMet, if_pos hreached, hdefault]
  exact coldCache_met _ _

theorem serverMet_orsingen :
    serverMet libmAtOrsingen id id twoVillages coldCache (requestAt orsingenRathaus) =
      .fetched none (some 200) none .miss :=
  serverMet_coldCache (by decide +kernel) serverDefault_orsingen

theorem serverMet_brandenberg :
    serverMet libmAtOrsingen id id twoVillages coldCache (requestAt brandenbergSiedlung) =
      .fetched none (some 200) none .miss :=
  serverMet_coldCache (by decide +kernel) serverDefault_brandenberg

theorem valid_requestAt {s : Station} (hlat : s.lat.isFinite = true)
    (hlon : s.lon.isFinite = true) : (requestAt s).Valid := by
  rw [NearbyRequest.Valid, NearbyRequest.coordinates, requestAt]
  simp only [hlat, hlon, Bool.and_self, if_true, Option.isSome_some]

theorem sameElse_requestAt (s s' : Station) : (requestAt s).SameElse (requestAt s') :=
  ⟨rfl, rfl, rfl⟩

/-- Fetches from two villages leave the same lines exactly if their default stations are the
same. -/
theorem nearby_log_eq_iff_villages :
    skeleton (serverLog libmAtOrsingen id id twoVillages coldCache (requestAt orsingenRathaus)) =
        skeleton (serverLog libmAtOrsingen id id twoVillages coldCache
          (requestAt brandenbergSiedlung)) ↔
      ((serverMet libmAtOrsingen id id twoVillages coldCache
          (requestAt orsingenRathaus)).NamesStation →
        serverDefault libmAtOrsingen id twoVillages (requestAt orsingenRathaus) =
          serverDefault libmAtOrsingen id twoVillages (requestAt brandenbergSiedlung)) :=
  (nearby_log_eq_iff libmAtOrsingen id id
    (valid_requestAt rfl rfl : (requestAt orsingenRathaus).Valid)
    (valid_requestAt rfl rfl : (requestAt brandenbergSiedlung).Valid)
    (sameElse_requestAt _ _)).1 twoVillages coldCache coldCache
    (serverMet_orsingen.trans serverMet_brandenberg.symm)

/-- The log tells a request from one village from a request from another. -/
theorem nearby_log_tells_villages :
    (requestAt orsingenRathaus).Valid ∧ (requestAt brandenbergSiedlung).Valid ∧
      (requestAt orsingenRathaus).SameElse (requestAt brandenbergSiedlung) ∧
      serverMet libmAtOrsingen id id twoVillages coldCache (requestAt orsingenRathaus) =
        serverMet libmAtOrsingen id id twoVillages coldCache (requestAt brandenbergSiedlung) ∧
      skeleton (serverLog libmAtOrsingen id id twoVillages coldCache (requestAt orsingenRathaus)) ≠
        skeleton (serverLog libmAtOrsingen id id twoVillages coldCache
          (requestAt brandenbergSiedlung)) := by
  have hvalid : (requestAt orsingenRathaus).Valid := valid_requestAt rfl rfl
  have hvalid' : (requestAt brandenbergSiedlung).Valid := valid_requestAt rfl rfl
  have hsame := sameElse_requestAt orsingenRathaus brandenbergSiedlung
  have hmet := serverMet_orsingen.trans serverMet_brandenberg.symm
  refine ⟨hvalid, hvalid', hsame, hmet, fun hlog => ?_⟩
  have hdefault := (serverLog_eq_iff hvalid hvalid' hsame hmet).mp hlog
  rw [serverMet_orsingen, serverDefault_orsingen, serverDefault_brandenberg] at hdefault
  exact absurd (hdefault trivial) (by decide)

end Traintime.NearbyLog
