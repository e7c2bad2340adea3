import Mathlib.Data.Nat.Init
import Mathlib.Tactic.SplitIfs

/-!
# Freshness of a cached payload

Instants, and the freshness of a payload judged from when it was fetched (`core/src/cache.rs`), so
an entry can outlive its TTL and still be served when upstream is down. Instants are nanoseconds
on one clock; the Workers read it in whole milliseconds.

## Main definitions

* `second`, `millisecond`: the units of instants.
* `Request`: a request with the outcome and the duration of the upstream call it would make.
* `CachedPayload`, `Freshness`, `classify`: the source's own.

## Main results

* `classify_eq_fresh_iff`, `classify_eq_stale_iff`: the two windows of an entry.
-/

namespace Traintime

/-- One second in nanoseconds. -/
def second : ℕ := 1000000000

/-- One millisecond in nanoseconds. -/
def millisecond : ℕ := 1000000

theorem second_eq : second = 1000 * millisecond := by decide

/-- A request: the instant of its arrival, and what an upstream call for it returns and takes. -/
structure Request where
  at_ : ℕ
  outcome : Except String String
  duration : ℕ

/-- When the upstream call of the request ends. -/
def Request.end_ (q : Request) : ℕ := q.at_ + q.duration

/-- How long past its TTL an entry may still be served on upstream failure. -/
def staleMaxAgeSecs : ℕ := 300

/-- What a store keeps per key: the payload and the fetch time in unix ms. -/
structure CachedPayload where
  fetchedAt : ℕ
  payload : String
deriving DecidableEq, Repr

/-- What an entry may be used for at some instant: for every request, for one whose upstream call
has failed, or for none. -/
inductive Freshness
  | fresh
  /-- Past its TTL, with the age in seconds. -/
  | stale (age : ℕ)
  | expired
deriving DecidableEq, Repr

/-- `classify`: the age of an entry in whole seconds against its TTL and the bound on stale entries.
A clock that has gone back gives the age 0. -/
def classify (fetchedAtMs nowMs ttlSecs : ℕ) : Freshness :=
  let ageSecs := (nowMs - fetchedAtMs) / 1000
  if ageSecs < ttlSecs then .fresh
  else if ageSecs ≤ staleMaxAgeSecs then .stale ageSecs
  else .expired

variable {fetchedAt now ttl age : ℕ}

theorem classify_eq_fresh_iff :
    classify fetchedAt now ttl = .fresh ↔ now - fetchedAt < 1000 * ttl := by
  simp only [classify]
  split_ifs <;> simp <;> omega

theorem classify_eq_stale_iff :
    classify fetchedAt now ttl = .stale age ↔
      1000 * ttl ≤ now - fetchedAt ∧ age = (now - fetchedAt) / 1000 ∧ age ≤ staleMaxAgeSecs := by
  simp only [classify]
  split_ifs <;> simp <;> omega

example : classify 0 300999 60 = .stale 300 := by decide

end Traintime
