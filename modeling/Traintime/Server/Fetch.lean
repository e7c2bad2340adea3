import Mathlib.Data.Fintype.Basic
import Mathlib.Logic.Function.Basic
import Traintime.Lib.Transition
import Traintime.Server.Memcached

/-!
# Requests on the pods of the native server

A cluster of pods, each with its own in-pod cache and its own map of fetches in flight, that may
share one Memcached, and any number of requests, each a call of `Inflight::cached`
(`server/src/fetch.rs`). A request is cut where another request can act between two of its
accesses to shared data: at every `await`, and between two locks taken one after the other. The
clock moves between any two steps, but a Memcached call ends `opTimeout` after its start at the
latest, and the two reads of `from_cache`, one right after the other, happen at one instant.

* A Memcached call ends in a miss whenever it is skipped, fails or times out. A server that
  answers reads its store at one moment of the call. A set is processed at one moment of its call
  or not at all, and its entry expires `ttl` seconds later.
* The `Notify` a leader allocates is named by the leader's request. A waiter is registered on it
  while it holds the lock of `keys`.
* A fetch that succeeds is stored in the poll in which it resolves.
* A request's future may be dropped at every await. A fetch may panic, and so does every access
  to a cache whose mutex was poisoned by a panic inside a put.

The history of a cluster records what happened to requests. It is read by no step.

## Main definitions

* `Server.Fetched`: the result of a call.
* `Server.Config`, `Server.Cluster`, `Server.Pc`, `Server.Event`: the requests, the state, the
  point a request has reached and the recorded events.
* `Server.Action`, `Server.step`: one step of the cluster.
-/

namespace Traintime.Server

open Function

/-- What a call got back for a cache key. -/
inductive Fetched
  /-- Served from the cache, fetched by an earlier request. -/
  | cached (v : String)
  /-- Fetched upstream by this request. -/
  | fresh (v : String)
  /-- Upstream failed, this is the last good payload and its age in seconds. -/
  | stale (v : String) (age : ℕ)
  | failed (e : String)
deriving DecidableEq, Repr

/-- A call of `cached`: the pod that serves it, its key and its TTL in seconds. -/
structure Call where
  pod : ℕ
  key : String
  ttl : ℕ
deriving DecidableEq, Repr

/-- The requests of a run and the pods that are given a Memcached. -/
structure Config (n : ℕ) where
  call : Fin n → Call
  shared : ℕ → Bool

/-- The point a request has reached in `Inflight::cached`, between two steps that no other request
can come in between. The names are those of the step that is next or awaited. -/
inductive Pc (n : ℕ)
  | idle
  /-- Awaiting the Memcached get that began at `started`. -/
  | sharedGet (started : ℕ)
  /-- The server has read its store, the reply is under way. -/
  | sharedGot (started : ℕ) (reply : Option String)
  /-- Memcached missed or is not there, the in-pod cache is next. -/
  | lookingUp
  /-- The lookup missed, the lock of `keys` is awaited. -/
  | missed
  | waiting (leader : Fin n)
  /-- Notified, not polled yet. -/
  | woken (leader : Fin n)
  /-- The key is inserted, the fetch is not started yet. -/
  | registered
  | fetching
  /-- Stored in the pod, awaiting the Memcached set. -/
  | storing (v : String) (started : ℕ) (written : Bool)
  /-- Awaiting the lock of `keys` to remove the key. -/
  | removing (result : Except String String)
  | notifying (result : Except String String)
  /-- In `from_cache`, before its `get`. -/
  | reading (error : String)
  /-- In `from_cache`, after its `get`. -/
  | readingStale (error : String)
  | done (res : Fetched)
  /-- Dropped or unwound. -/
  | dropped
  /-- Dropped or unwound between inserting its key and removing it. -/
  | abandoned
deriving DecidableEq

/-- What happened to a request, with the instants that later statements refer to. -/
inductive Event (n : ℕ)
  | missed (r : Fin n)
  | joined (r leader : Fin n)
  | fetchStarted (r : Fin n) (at_ : ℕ)
  | fetched (r : Fin n) (v : String) (at_ : ℕ)
  | stored (r : Fin n) (v : String) (at_ : ℕ)
  | fetchFailed (r : Fin n) (e : String)
  | notified (r : Fin n)
  | returned (r : Fin n) (res : Fetched) (at_ : ℕ)
deriving DecidableEq

/-- One pod: its in-pod cache, whether the cache's mutex is poisoned, and its fetches in flight,
each named by its leader. -/
structure Pod (n : ℕ) where
  cache : Cache
  poisoned : Bool
  keys : AssocMap String (Fin n)

/-- An entry of Memcached, with the instant from which it is a miss. Who set it does not matter to
those that read it. -/
structure SharedEntry where
  value : String
  expiry : ℕ
deriving DecidableEq, Repr

/-- The state of all pods, of Memcached and of all requests. The history is newest first. -/
structure Cluster (n : ℕ) where
  now : ℕ
  pod : ℕ → Pod n
  shared : AssocMap String SharedEntry
  pc : Fin n → Pc n
  history : List (Event n)

variable {n : ℕ}

/-- The pods have just started and no request has arrived. -/
def Cluster.init : Cluster n where
  now := 0
  pod _ := ⟨Cache.empty, false, ∅⟩
  shared := ∅
  pc _ := .idle
  history := []

/-- The request may stay where it is until `t`. -/
def Pc.MayWait (t : ℕ) : Pc n → Prop
  | .sharedGet started | .sharedGot started _ | .storing _ started _ => t ≤ started + opTimeout
  | .readingStale _ => False
  | _ => True

instance (t : ℕ) : DecidablePred (Pc.MayWait (n := n) t) := fun pc => by
  cases pc <;> unfold Pc.MayWait <;> infer_instance

/-- The points at which the future of a request can be dropped. -/
def Pc.Awaiting : Pc n → Bool
  | .sharedGet _ | .sharedGot _ _ | .missed | .waiting _ | .woken _ | .fetching | .storing _ _ _
  | .removing _ => true
  | _ => false

/-- The request has inserted its key and not removed it yet. -/
def Pc.Leading : Pc n → Bool
  | .registered | .fetching | .storing _ _ _ | .removing _ => true
  | _ => false

/-- The next thing the request does is to lock the in-pod cache. -/
def Pc.LocksCache : Pc n → Bool
  | .lookingUp | .woken _ | .reading _ | .readingStale _ => true
  | _ => false

/-- Where a request that is dropped or unwinds at this point is left. -/
def Pc.drop (pc : Pc n) : Pc n := if pc.Leading then .abandoned else .dropped

/-- The waiters of `r` after its `notify_waiters`. -/
def Pc.wake (r : Fin n) : Pc n → Pc n
  | .waiting l => if l = r then .woken l else .waiting l
  | pc => pc

/-- A payload of Memcached that has not expired. -/
def sharedLookup (m : AssocMap String SharedEntry) (key : String) (now : ℕ) : Option String :=
  match m.lookup key with
  | some e => if e.expiry > now then some e.value else none
  | none => none

namespace Cluster

variable (s : Cluster n)

/-- The request `r` moves to `pc`, and the others stay where they are. -/
def goto (r : Fin n) (pc : Pc n) : Cluster n := { s with pc := update s.pc r pc }

/-- The event happens, and is the newest one of the history from then on. -/
def record (e : Event n) : Cluster n := { s with history := e :: s.history }

/-- The call of `r` returns `res`, which its caller sees at this instant. -/
def return_ (r : Fin n) (res : Fetched) : Cluster n :=
  (s.goto r (.done res)).record (.returned r res s.now)

/-- The pod `p` becomes `x`. No other pod changes, as pods share nothing but Memcached. -/
def setPod (p : ℕ) (x : Pod n) : Cluster n := { s with pod := update s.pod p x }

section Fields

variable (r : Fin n) (pc : Pc n) (e : Event n) (res : Fetched) (p : ℕ) (x : Pod n)

@[simp] theorem goto_now : (s.goto r pc).now = s.now := rfl
@[simp] theorem goto_pod : (s.goto r pc).pod = s.pod := rfl
@[simp] theorem goto_shared : (s.goto r pc).shared = s.shared := rfl
@[simp] theorem goto_pc : (s.goto r pc).pc = update s.pc r pc := rfl
@[simp] theorem goto_history : (s.goto r pc).history = s.history := rfl

@[simp] theorem record_now : (s.record e).now = s.now := rfl
@[simp] theorem record_pod : (s.record e).pod = s.pod := rfl
@[simp] theorem record_shared : (s.record e).shared = s.shared := rfl
@[simp] theorem record_pc : (s.record e).pc = s.pc := rfl
@[simp] theorem record_history : (s.record e).history = e :: s.history := rfl

@[simp] theorem return_now : (s.return_ r res).now = s.now := rfl
@[simp] theorem return_pod : (s.return_ r res).pod = s.pod := rfl
@[simp] theorem return_shared : (s.return_ r res).shared = s.shared := rfl
@[simp] theorem return_pc : (s.return_ r res).pc = update s.pc r (.done res) := rfl
@[simp] theorem return_history :
    (s.return_ r res).history = .returned r res s.now :: s.history := rfl

@[simp] theorem setPod_now : (s.setPod p x).now = s.now := rfl
@[simp] theorem setPod_pod : (s.setPod p x).pod = update s.pod p x := rfl
@[simp] theorem setPod_shared : (s.setPod p x).shared = s.shared := rfl
@[simp] theorem setPod_pc : (s.setPod p x).pc = s.pc := rfl
@[simp] theorem setPod_history : (s.setPod p x).history = s.history := rfl

end Fields

end Cluster

/-- One step. Every step but the passing of time is a step of one request. -/
inductive Action (n : ℕ)
  | tick (d : ℕ)
  /-- The call begins. -/
  | arrive (r : Fin n)
  /-- Memcached processes the get. -/
  | sharedRead (r : Fin n)
  /-- The reply of Memcached arrives. -/
  | sharedReturn (r : Fin n)
  /-- The get is skipped, fails, times out or misses. -/
  | sharedMiss (r : Fin n)
  /-- The `get` at the end of `lookup`. -/
  | lookup (r : Fin n)
  /-- The lock of `keys` is taken to join a fetch or to register. -/
  | lock (r : Fin n)
  /-- The fetch closure is called. -/
  | fetch (r : Fin n)
  /-- The fetch resolves to `v` and `store` puts it into the in-pod cache. -/
  | fetchOk (r : Fin n) (v : String)
  | fetchErr (r : Fin n) (e : String)
  /-- Memcached processes the set. -/
  | sharedWrite (r : Fin n)
  /-- `store` returns, whatever became of its set. -/
  | storeDone (r : Fin n)
  | remove (r : Fin n)
  /-- `notify_waiters`, and the return of a call that fetched. -/
  | notify (r : Fin n)
  /-- A notified request is polled and runs the `get` of `from_cache`. -/
  | resume (r : Fin n)
  /-- The `get` of `from_cache` after the request's own fetch failed. -/
  | read (r : Fin n)
  /-- The `get_stale` of `from_cache`. -/
  | readStale (r : Fin n)
  /-- The future is dropped at an await. -/
  | drop (r : Fin n)
  /-- The fetch panics, or the poisoned cache is locked. -/
  | unwind (r : Fin n)

namespace Config

variable (cfg : Config n)

/-- The pod and the key of a request. -/
def flight (r : Fin n) : ℕ × String := ((cfg.call r).pod, (cfg.call r).key)

/-- All calls for a key use the same TTL. -/
def SameTtl : Prop :=
  ∀ r r', (cfg.call r).key = (cfg.call r').key → (cfg.call r).ttl = (cfg.call r').ttl

/-- The call of `r` asks Memcached: its pod has one, and the key is one that Memcached can hold. -/
def asksShared (r : Fin n) : Bool := cfg.shared (cfg.call r).pod && validKey (cfg.call r).key

end Config

namespace Cluster

variable (cfg : Config n) (s : Cluster n)

/-- The pod that serves `r`, in the state it is in now. -/
def podOf (r : Fin n) : Pod n := s.pod (cfg.call r).pod

/-- What the in-pod cache of `r` answers for its key. -/
def cacheGet (r : Fin n) : Option String :=
  (s.podOf cfg r).cache.get (cfg.call r).key s.now

/-- The stale payload that the in-pod cache of `r` answers for its key. -/
def cacheGetStale (r : Fin n) : Option (String × ℕ) :=
  (s.podOf cfg r).cache.getStale (cfg.call r).key staleMaxAge s.now

/-- The in-pod cache of `r` after it has stored `v`. -/
def cachePut (r : Fin n) (v : String) : Option Cache :=
  (s.podOf cfg r).cache.put (cfg.call r).key v (cfg.call r).ttl s.now

end Cluster

open Cluster in
/-- The state after an action, if the action is possible. -/
def step (cfg : Config n) (s : Cluster n) : Action n → Option (Cluster n)
  | .tick d => if ∀ r, (s.pc r).MayWait (s.now + d) then some { s with now := s.now + d } else none
  | .arrive r =>
    match s.pc r with
    | .idle => some (s.goto r (if cfg.asksShared r then .sharedGet s.now else .lookingUp))
    | _ => none
  | .sharedRead r =>
    match s.pc r with
    | .sharedGet t => some (s.goto r (.sharedGot t (sharedLookup s.shared (cfg.call r).key s.now)))
    | _ => none
  | .sharedReturn r =>
    match s.pc r with
    | .sharedGot _ (some v) => some (s.return_ r (.cached v))
    | _ => none
  | .sharedMiss r =>
    match s.pc r with
    | .sharedGet _ | .sharedGot _ _ => some (s.goto r .lookingUp)
    | _ => none
  | .lookup r =>
    match s.pc r, (s.podOf cfg r).poisoned with
    | .lookingUp, false =>
      match s.cacheGet cfg r with
      | some v => some (s.return_ r (.cached v))
      | none => some ((s.goto r .missed).record (.missed r))
    | _, _ => none
  | .lock r =>
    match s.pc r with
    | .missed =>
      match (s.podOf cfg r).keys.lookup (cfg.call r).key with
      | some l => some ((s.goto r (.waiting l)).record (.joined r l))
      | none => some ((s.goto r .registered).setPod (cfg.call r).pod
          { s.podOf cfg r with keys := (s.podOf cfg r).keys.insert (cfg.call r).key r })
    | _ => none
  | .fetch r =>
    match s.pc r with
    | .registered => some ((s.goto r .fetching).record (.fetchStarted r s.now))
    | _ => none
  | .fetchOk r v =>
    match s.pc r with
    | .fetching =>
      match (s.podOf cfg r).poisoned, s.cachePut cfg r v with
      | false, some c => some ((((s.goto r (.storing v s.now false)).setPod (cfg.call r).pod
          { s.podOf cfg r with cache := c }).record (.fetched r v s.now)).record
          (.stored r v s.now))
      | _, _ => some (((s.goto r .abandoned).setPod (cfg.call r).pod
          { s.podOf cfg r with poisoned := true }).record (.fetched r v s.now))
    | _ => none
  | .fetchErr r e =>
    match s.pc r with
    | .fetching => some ((s.goto r (.removing (.error e))).record (.fetchFailed r e))
    | _ => none
  | .sharedWrite r =>
    match s.pc r with
    | .storing v t false =>
      if cfg.asksShared r ∧ (cfg.call r).ttl ≠ 0 then
        some { s.goto r (.storing v t true) with
          shared := s.shared.insert (cfg.call r).key
            ⟨v, s.now + (cfg.call r).ttl * second⟩ }
      else none
    | _ => none
  | .storeDone r =>
    match s.pc r with
    | .storing v _ _ => some (s.goto r (.removing (.ok v)))
    | _ => none
  | .remove r =>
    match s.pc r with
    | .removing res => some ((s.goto r (.notifying res)).setPod (cfg.call r).pod
        { s.podOf cfg r with keys := (s.podOf cfg r).keys.erase (cfg.call r).key })
    | _ => none
  | .notify r =>
    let s' := { s with pc := fun q => (s.pc q).wake r }.record (.notified r)
    match s.pc r with
    | .notifying (.ok v) => some (s'.return_ r (.fresh v))
    | .notifying (.error e) => some (s'.goto r (.reading e))
    | _ => none
  | .resume r =>
    match s.pc r, (s.podOf cfg r).poisoned with
    | .woken _, false =>
      match s.cacheGet cfg r with
      | some v => some (s.return_ r (.cached v))
      | none => some (s.goto r (.readingStale "upstream unavailable"))
    | _, _ => none
  | .read r =>
    match s.pc r, (s.podOf cfg r).poisoned with
    | .reading e, false =>
      match s.cacheGet cfg r with
      | some v => some (s.return_ r (.cached v))
      | none => some (s.goto r (.readingStale e))
    | _, _ => none
  | .readStale r =>
    match s.pc r, (s.podOf cfg r).poisoned with
    | .readingStale e, false =>
      match s.cacheGetStale cfg r with
      | some (v, age) => some (s.return_ r (.stale v age))
      | none => some (s.return_ r (.failed e))
    | _, _ => none
  | .drop r => if (s.pc r).Awaiting then some (s.goto r (s.pc r).drop) else none
  | .unwind r =>
    if s.pc r = .fetching ∨ (s.pc r).LocksCache ∧ (s.podOf cfg r).poisoned then
      some (s.goto r (s.pc r).drop)
    else none

/-- The states of the runs of the cluster. -/
abbrev Reachable (cfg : Config n) (s : Cluster n) : Prop :=
  Transition.Reachable (step cfg) Cluster.init s

/-- The states of the runs all of whose steps meet a condition. -/
abbrev ReachableVia (cfg : Config n) (ok : Cluster n → Action n → Prop) (s : Cluster n) : Prop :=
  Transition.ReachableVia (step cfg) ok Cluster.init s

end Traintime.Server
