import Mathlib.Algebra.Group.Nat.Defs
import Traintime.Core.Cache
import Traintime.Lib.AssocMap

/-!
# The in-pod cache

The map every pod of the native server keeps in memory (`server/src/cache.rs`). An entry carries
its expiry and the instant of its fetch. A reader gets an unexpired entry, or, when upstream has
failed, one fetched at most `staleMaxAge` ago. A HashMap forgets nothing, so a put into a large
map first drops the entries fetched `staleMaxAge` ago or longer.

An instant is a number of nanoseconds on the pod's monotonic clock. Adding a TTL to an instant panics
past the last instant the clock can hold, which leaves a put without a result.

## Main definitions

* `Server.addSecs`: `Instant + Duration::from_secs(n)`.
* `Server.Entry`, `Server.Cache`: an entry and the map behind the mutex.
* `Server.Cache.get`, `Server.Cache.getStale`, `Server.Cache.putAt`: the operations of the source.
* `Server.Entry.Servable`: what one of the two readers can still return.
* `Server.Cache.SweepsOnlyDead`: a put at this moment drops nothing servable.

## Main results

* `Server.Cache.lookup_putAt`: the entries after a put.
* `Server.Cache.get_eq_some_iff`, `Server.Cache.getStale_eq_some_iff`: what the readers return.
-/

namespace Traintime.Server

/-! ### Clock -/

/-- The last whole second the clock can hold (`i64` seconds). -/
def maxInstantSecs : ℕ := 2 ^ 63 - 1

/-- `Instant + Duration::from_secs(n)`, which panics on overflow. -/
def addSecs (t n : ℕ) : Option ℕ :=
  if t / second + n ≤ maxInstantSecs then some (t + n * second) else none

theorem addSecs_eq {t n e : ℕ} (h : addSecs t n = some e) :
    e = t + n * second := by
  unfold addSecs at h
  split_ifs at h
  exact (Option.some.inj h).symm

/-! ### Entries -/

/-- Entries above this count trigger an expiry sweep on the next insert. -/
def sweepThreshold : ℕ := 4096

/-- How long an expired entry is kept so it can be served when upstream fails. -/
def staleMaxAge : ℕ := 300 * second

/-- A cached payload with the instant at which its TTL passes and the one at which it was fetched,
which the stale window counts from. -/
structure Entry where
  value : String
  expiry : ℕ
  fetchedAt : ℕ
deriving DecidableEq, Repr

/-- The entry can still be returned by one of the two readers. -/
def Entry.Servable (e : Entry) (now : ℕ) : Prop :=
  now < e.expiry ∨ now - e.fetchedAt ≤ staleMaxAge

instance (e : Entry) (now : ℕ) : Decidable (e.Servable now) :=
  inferInstanceAs (Decidable (_ ∨ _))

/-- An entry that cannot be served any more never can be again. -/
theorem Entry.not_servable_mono {e : Entry} {t t' : ℕ} (h : ¬ e.Servable t) (ht : t ≤ t') :
    ¬ e.Servable t' := by
  unfold Servable at h ⊢
  omega

/-- The in-pod cache, a map that a mutex guards in the source. Whether the mutex is poisoned is a
field of the pod. -/
structure Cache where
  inner : AssocMap String Entry

namespace Cache

/-- The cache of a pod that has just started. -/
def empty : Cache := ⟨∅⟩

/-- `Cache::get`: the payload of an entry that has not expired. At the instant of its expiry an
entry is no longer returned. -/
def get (c : Cache) (key : String) (now : ℕ) : Option String :=
  match c.inner.lookup key with
  | some e => if e.expiry > now then some e.value else none
  | none => none

/-- An entry fetched within `maxAge`, with its age in seconds. Fresh entries qualify too. -/
def getStale (c : Cache) (key : String) (maxAge now : ℕ) : Option (String × ℕ) :=
  match c.inner.lookup key with
  | none => none
  | some e =>
    let age := now - e.fetchedAt
    if age > maxAge then none else some (e.value, age / second)

/-- The map after the expiry sweep of a put. -/
def swept (c : Cache) (now : ℕ) : AssocMap String Entry :=
  if c.inner.len > sweepThreshold then
    c.inner.retain fun e => decide (e.fetchedAt + staleMaxAge > now)
  else c.inner

/-- Stores a payload fetched at `fetchedAt`. There is no result when the expiry overflows. -/
def putAt (c : Cache) (key value : String) (ttlSecs fetchedAt now : ℕ) :
    Option Cache :=
  (addSecs fetchedAt ttlSecs).map fun expiry =>
    ⟨(c.swept now).insert key ⟨value, expiry, fetchedAt⟩⟩

/-- `Cache::put`: stores a payload that has been fetched now. -/
def put (c : Cache) (key value : String) (ttlSecs now : ℕ) : Option Cache :=
  c.putAt key value ttlSecs now now

/-- The sweep of a put at this moment drops only entries that no reader could return. -/
def SweepsOnlyDead (c : Cache) (now : ℕ) : Prop :=
  ∀ k e, c.inner.lookup k = some e → (c.swept now).lookup k = some e ∨ ¬ e.Servable now

variable {c c' : Cache} {key value : String} {ttl t now : ℕ}

@[simp] theorem lookup_empty (k : String) : empty.inner.lookup k = none := rfl

/-! ### The readers -/

theorem get_eq_some_iff {v : String} :
    c.get key now = some v ↔ ∃ e, c.inner.lookup key = some e ∧ now < e.expiry ∧ e.value = v := by
  unfold get
  cases h : c.inner.lookup key <;> simp

theorem get_eq_none_iff :
    c.get key now = none ↔ ∀ e, c.inner.lookup key = some e → e.expiry ≤ now := by
  unfold get
  cases h : c.inner.lookup key <;> simp

theorem getStale_eq_some_iff {maxAge : ℕ} {v : String} {a : ℕ} :
    c.getStale key maxAge now = some (v, a) ↔
      ∃ e, c.inner.lookup key = some e ∧ now - e.fetchedAt ≤ maxAge ∧ e.value = v ∧
        (now - e.fetchedAt) / second = a := by
  unfold getStale
  cases h : c.inner.lookup key <;> simp

theorem getStale_eq_none_iff {maxAge : ℕ} :
    c.getStale key maxAge now = none ↔
      ∀ e, c.inner.lookup key = some e → maxAge < now - e.fetchedAt := by
  unfold getStale
  cases h : c.inner.lookup key <;> simp [Nat.lt_sub_iff_add_lt]

/-! ### Puts -/

/-- What a sweep keeps of one key. -/
theorem lookup_swept (c : Cache) (now : ℕ) (k : String) :
    (c.swept now).lookup k = c.inner.lookup k ∨
      (c.swept now).lookup k = none ∧
        ∃ e, c.inner.lookup k = some e ∧ e.fetchedAt + staleMaxAge ≤ now := by
  unfold swept
  split_ifs
  · rw [AssocMap.lookup_retain]
    cases h : c.inner.lookup k with
    | none => simp
    | some e =>
      by_cases he : e.fetchedAt + staleMaxAge > now
      · exact Or.inl (by simp [he])
      · exact Or.inr ⟨by simpa using he, e, rfl, by omega⟩
  · exact Or.inl rfl

/-- A put into a small map sweeps nothing. -/
theorem sweepsOnlyDead_of_len (h : c.inner.len ≤ sweepThreshold) : c.SweepsOnlyDead now :=
  fun k e he => Or.inl (by rwa [swept, if_neg (not_lt.2 h)])

theorem lookup_swept_eq_some {k : String} {e : Entry} (h : (c.swept now).lookup k = some e) :
    c.inner.lookup k = some e := by
  rcases lookup_swept c now k with hk | ⟨hk, -⟩
  · rwa [hk] at h
  · rw [hk] at h
    cases h

/-- The entries after a put: the new one under its key, what the sweep keeps elsewhere. -/
theorem lookup_putAt (h : c.putAt key value ttl t now = some c') (k : String) :
    c'.inner.lookup k =
      if k = key then some ⟨value, t + ttl * second, t⟩ else (c.swept now).lookup k := by
  obtain ⟨expiry, he, rfl⟩ := Option.map_eq_some_iff.1 h
  rw [AssocMap.lookup_insert_eq, addSecs_eq he]

theorem lookup_putAt_self (h : c.putAt key value ttl t now = some c') :
    c'.inner.lookup key = some ⟨value, t + ttl * second, t⟩ := by
  rw [lookup_putAt h, if_pos rfl]

theorem lookup_putAt_of_ne (h : c.putAt key value ttl t now = some c') {k : String}
    (hk : k ≠ key) : c'.inner.lookup k = (c.swept now).lookup k := by
  rw [lookup_putAt h, if_neg hk]

end Cache

end Traintime.Server
