import Traintime.Core.Cache
import Traintime.Lib.AssocMap
import Traintime.Lib.PercentEncoding

/-!
# The cache path of the Worker

The Worker keeps its payloads in the edge cache of the data centre (`src/cache.rs`) and judges their
freshness on read, before it asks upstream (`src/routes/departures.rs`). The edge cache keeps an
entry for its max-age; whether an older one is still there is up to it.

## Main definitions

* `Worker.Edge`: what the edge cache decides.
* `Worker.get`, `Worker.put`: the operations of the source.
* `Worker.serve`: how a handler answers a request.

## Main results

* `Worker.cacheUrl_injective`: two keys never share a URL.
* `Worker.lookup_put_self`, `Worker.lookup_put_of_ne`: the entries after a put.
-/

namespace Traintime.Worker

/-- The edge cache keeps every entry for its max-age in seconds. -/
structure Edge where
  keeps : (storedAt maxAge now : ℕ) → Bool
  keeps_of_lt : ∀ storedAt maxAge now, now < storedAt + maxAge * second →
    keeps storedAt maxAge now = true

/-- An entry of the edge cache: what the handler put, the max-age that it asked for, and when it was
put. -/
structure EdgeEntry where
  entry : CachedPayload
  maxAge : ℕ
  storedAt : ℕ
deriving DecidableEq, Repr

/-- The edge cache of a data centre, by the URL that an entry was put under. -/
abbrev EdgeCache := AssocMap String EdgeEntry

/-- `Cached`: what a lookup in the edge cache gives. -/
inductive Cached
  | fresh (v : String)
  /-- Past its TTL, with the age in seconds. -/
  | stale (v : String) (age : ℕ)
  | missing
deriving DecidableEq, Repr

/-- The Workers' clock at an instant, in unix ms. -/
def nowMs (t : ℕ) : ℕ := t / millisecond

/-- The Cache API keys on a URL. -/
def cacheUrl (key : String) : String :=
  "https://api.traintime.ch/__cache/" ++ PercentEncoding.encodeUriComponent key

/-- `get`: the entry of a key, judged at the instant of the read by the time of its fetch. What has
expired counts as missing. -/
def get (edge : Edge) (c : EdgeCache) (key : String) (ttlSecs now : ℕ) : Cached :=
  match c.lookup (cacheUrl key) with
  | none => .missing
  | some x =>
    if edge.keeps x.storedAt x.maxAge now then
      match classify x.entry.fetchedAt (nowMs now) ttlSecs with
      | .fresh => .fresh x.entry.payload
      | .stale age => .stale x.entry.payload age
      | .expired => .missing
    else .missing

/-- The entry is kept for the stale window or its TTL, whichever is longer. -/
def put (c : EdgeCache) (key payload : String) (ttlSecs now : ℕ) : EdgeCache :=
  c.insert (cacheUrl key) ⟨⟨nowMs now, payload⟩, max ttlSecs staleMaxAgeSecs, now⟩

/-- How a request was answered: from the cache, by its own call, by a stale payload after its call
failed, or by an error. -/
inductive Served
  | hit (v : String)
  | fetched (v : String)
  | stale (v : String) (age : ℕ)
  | error (e : String)
deriving DecidableEq, Repr

/-- The cache path of a handler: an unfresh entry is asked for upstream, and the stale payload seen
at the lookup answers when that fails. -/
def serve (edge : Edge) (key : String) (ttlSecs : ℕ) (c : EdgeCache) (q : Request) :
    EdgeCache × Served :=
  match get edge c key ttlSecs q.at_ with
  | .fresh v => (c, .hit v)
  | cached =>
    match q.outcome with
    | .ok json => (put c key json ttlSecs q.end_, .fetched json)
    | .error e =>
      match cached with
      | .stale v age => (c, .stale v age)
      | _ => (c, .error e)

/-- The entry that the edge cache still has is judged by its age. -/
theorem get_of_lookup {edge : Edge} {c : EdgeCache} {key : String} {now : ℕ} {x : EdgeEntry}
    (ttlSecs : ℕ) (hx : c.lookup (cacheUrl key) = some x)
    (hkeeps : edge.keeps x.storedAt x.maxAge now = true) :
    get edge c key ttlSecs now =
      match classify x.entry.fetchedAt (nowMs now) ttlSecs with
      | .fresh => .fresh x.entry.payload
      | .stale age => .stale x.entry.payload age
      | .expired => .missing := by
  rw [get, hx]
  exact if_pos hkeeps

/-- Two keys never share a URL. -/
theorem cacheUrl_injective : Function.Injective cacheUrl := fun _ _ h =>
  PercentEncoding.encodeUriComponent_injective ((String.append_right_inj _).1 h)

theorem lookup_put_self (c : EdgeCache) (key payload : String) (ttl now : ℕ) :
    (put c key payload ttl now).lookup (cacheUrl key) =
      some ⟨⟨nowMs now, payload⟩, max ttl staleMaxAgeSecs, now⟩ := by
  rw [put, AssocMap.lookup_insert_eq, if_pos rfl]

/-- An entry of another key stays. -/
theorem lookup_put_of_ne (c : EdgeCache) {key k : String} (hk : k ≠ key) (payload : String)
    (ttl now : ℕ) : (put c key payload ttl now).lookup (cacheUrl k) = c.lookup (cacheUrl k) := by
  rw [put, AssocMap.lookup_insert_eq, if_neg fun h => hk (cacheUrl_injective h)]

end Traintime.Worker
