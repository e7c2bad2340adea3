import Mathlib.Tactic.Ring
import Traintime.Server.Fetch.Sequential
import Traintime.Worker.Cache

/-!
# The two cache paths

The Worker and the native server implement one policy: a payload answers for its TTL, then upstream
is asked, and the last good payload answers for a while if that fails. The Worker judges an entry
before it asks upstream and by a clock in milliseconds, the native server afterwards and exactly.
The two agree on what is served from the cache and on when upstream is asked, except for a lookup in
the clock millisecond of an expiry but before it. They differ in the age they report for a stale
payload and at the end of the stale window.

## Main definitions

* `LastGood`: the payload of the last upstream call that succeeded.
* `answer`, `next`: the policy.
* `Agrees`: how the answers to one request correspond.
* `Apart`: no lookup falls into the clock millisecond of an expiry but before it.

## Main results

* `Synced.step`: one request in both paths.
* `paths_agree`: a history of requests in both paths.
-/

namespace Traintime

open Server Worker

/-! ### The policy -/

/-- The payload of the last upstream call that succeeded, and when that call ended. -/
structure LastGood where
  value : String
  at_ : ℕ

/-- The payload that answers a request without an upstream call. -/
def answer (ttl : ℕ) (last : Option LastGood) (q : Request) : Option String :=
  match last with
  | some w => if q.at_ < w.at_ + ttl * second then some w.value else none
  | none => none

/-- The last good payload after a request. -/
def next (ttl : ℕ) (last : Option LastGood) (q : Request) : Option LastGood :=
  match answer ttl last q, q.outcome with
  | none, .ok v => some ⟨v, q.end_⟩
  | _, _ => last

/-- The age of the payload at the lookup of a request, in seconds by the clock in milliseconds. -/
def LastGood.ageAtLookup (w : LastGood) (q : Request) : ℕ := (nowMs q.at_ - nowMs w.at_) / 1000

/-- The age of the payload at the end of the upstream call of a request, in seconds. -/
def LastGood.ageAtEnd (w : LastGood) (q : Request) : ℕ := (q.end_ - w.at_) / second

/-- What the Worker sees of a payload that is not fresh any more. -/
def unfresh (edge : Edge) (ttl : ℕ) (last : Option LastGood) (q : Request) : Cached :=
  match last with
  | some w =>
    if edge.keeps w.at_ (max ttl staleMaxAgeSecs) q.at_ = true ∧
        w.ageAtLookup q ≤ staleMaxAgeSecs then .stale w.value (w.ageAtLookup q)
    else .missing
  | none => .missing

/-- What the native server answers after an upstream call that failed. -/
def fallback (last : Option LastGood) (q : Request) (e : String) : Fetched :=
  match last with
  | some w => if q.end_ - w.at_ ≤ staleMaxAge then .stale w.value (w.ageAtEnd q) else .failed e
  | none => .failed e

/-- How the answers of the two paths to one request correspond. -/
inductive Agrees (ttl : ℕ) (last : Option LastGood) (q : Request) : Served → Fetched → Prop
  | hit (v) (h : answer ttl last q = some v) : Agrees ttl last q (.hit v) (.cached v)
  | fetched (v) (h : answer ttl last q = none) (hq : q.outcome = .ok v) :
      Agrees ttl last q (.fetched v) (.fresh v)
  /-- The stale window is open at the lookup and at the end of the upstream call. -/
  | stale (w e) (h : answer ttl last q = none) (hq : q.outcome = .error e) (hw : last = some w)
      (hlookup : w.ageAtLookup q ≤ staleMaxAgeSecs) (hend : q.end_ - w.at_ ≤ staleMaxAge) :
      Agrees ttl last q (.stale w.value (w.ageAtLookup q)) (.stale w.value (w.ageAtEnd q))
  /-- It closes during the upstream call, or within the last second of the Worker's. -/
  | late (w e) (h : answer ttl last q = none) (hq : q.outcome = .error e) (hw : last = some w)
      (hlookup : w.ageAtLookup q ≤ staleMaxAgeSecs) (hend : staleMaxAge < q.end_ - w.at_) :
      Agrees ttl last q (.stale w.value (w.ageAtLookup q)) (.failed e)
  /-- It closes at this very instant, and the edge cache has dropped the entry. -/
  | dropped (w e) (h : answer ttl last q = none) (hq : q.outcome = .error e) (hw : last = some w)
      (hat : q.at_ = w.at_ + staleMaxAge) (hd : q.duration = 0) :
      Agrees ttl last q (.error e) (.stale w.value (w.ageAtEnd q))
  /-- It is closed at the lookup and at the end of the upstream call. -/
  | failed (e) (h : answer ttl last q = none) (hq : q.outcome = .error e)
      (hw : ∀ w, last = some w → staleMaxAge ≤ q.at_ - w.at_ ∧ staleMaxAge < q.end_ - w.at_) :
      Agrees ttl last q (.error e) (.failed e)

/-- The lookup does not fall into the clock millisecond of the expiry but before it. -/
def Apart (ttl : ℕ) (last : Option LastGood) (q : Request) : Prop :=
  ∀ w, last = some w → q.at_ < w.at_ + ttl * second → nowMs q.at_ ≠ nowMs (w.at_ + ttl * second)

/-! ### Clocks -/

theorem nowMs_mono {t t' : ℕ} (h : t ≤ t') : nowMs t ≤ nowMs t' := Nat.div_le_div_right h

theorem nowMs_add_secs (t k : ℕ) : nowMs (t + k * second) = nowMs t + 1000 * k := by
  have hmul : k * second = 1000 * k * millisecond := by rw [second_eq]; ring
  rw [nowMs, hmul, Nat.add_mul_div_right _ _ (by decide)]
  rfl

/-- By the clock in milliseconds an entry is fresh exactly until its expiry, outside the clock
millisecond of the expiry. -/
theorem nowMs_sub_lt_iff {ttl t t₀ : ℕ} (ht : t₀ ≤ t)
    (h : t < t₀ + ttl * second → nowMs t ≠ nowMs (t₀ + ttl * second)) :
    nowMs t - nowMs t₀ < 1000 * ttl ↔ t < t₀ + ttl * second := by
  rw [nowMs_add_secs] at h
  constructor
  · intro hlt
    by_contra hge
    have hmono := nowMs_mono (not_lt.1 hge)
    rw [nowMs_add_secs] at hmono
    omega
  · intro hlt
    have hmono := nowMs_mono hlt.le
    rw [nowMs_add_secs] at hmono
    have hne := h hlt
    have hle := nowMs_mono ht
    omega

/-! ### One request -/

/-- What the two caches hold of a key between two requests. -/
structure Synced (key : String) (ttl : ℕ) (last : Option LastGood) (c : Cache) (x : EdgeCache)
    (t : ℕ) : Prop where
  native : c.inner.lookup key = last.map fun w => ⟨w.value, w.at_ + ttl * second, w.at_⟩
  worker : x.lookup (cacheUrl key) =
    last.map fun w => ⟨⟨nowMs w.at_, w.value⟩, max ttl staleMaxAgeSecs, w.at_⟩
  past : ∀ w, last = some w → w.at_ ≤ t

theorem synced_empty (key : String) (ttl : ℕ) : Synced key ttl none Cache.empty ∅ 0 :=
  ⟨rfl, rfl, fun _ h => by cases h⟩

variable {key : String} {ttl t : ℕ} {last : Option LastGood} {c c' : Cache} {x : EdgeCache}
  {q : Request} {edge : Edge}

theorem Synced.get_native (h : Synced key ttl last c x t) : c.get key q.at_ = answer ttl last q := by
  rw [Cache.get, h.native]
  cases last with
  | none => rfl
  | some w => rfl

/-- An expired entry answers the native server after its upstream call by its exact age. -/
theorem Synced.fromCache_native (h : Synced key ttl last c x t) (hmiss : answer ttl last q = none)
    (e : String) : fromCache c key e q.end_ = fallback last q e := by
  cases last with
  | none =>
    have hnone : c.inner.lookup key = none := h.native
    simp [fromCache, fallback, Cache.get, Cache.getStale, hnone]
  | some w =>
    have hsome : c.inner.lookup key = some ⟨w.value, w.at_ + ttl * second, w.at_⟩ := h.native
    have hexp : w.at_ + ttl * second ≤ q.end_ := by
      have hat : w.at_ + ttl * second ≤ q.at_ := by simpa [answer] using hmiss
      exact hat.trans (Nat.le_add_right _ _)
    have hget : c.get key q.end_ = none := by simp [Cache.get, hsome, hexp]
    by_cases hage : staleMaxAge < q.end_ - w.at_
    · simp [fromCache, fallback, hget, Cache.getStale, hsome, hage, not_le.2 hage]
    · simp [fromCache, fallback, hget, Cache.getStale, hsome, hage, not_lt.1 hage, LastGood.ageAtEnd]

theorem Synced.get_hit (h : Synced key ttl last c x t) (ht : t ≤ q.at_) (hapart : Apart ttl last q)
    {v : String} (hv : answer ttl last q = some v) : Worker.get edge x key ttl q.at_ = .fresh v := by
  cases last with
  | none => cases hv
  | some w =>
    have hsome : x.lookup (cacheUrl key) =
        some ⟨⟨nowMs w.at_, w.value⟩, max ttl staleMaxAgeSecs, w.at_⟩ := h.worker
    have hlive : q.at_ < w.at_ + ttl * second ∧ w.value = v := by simpa [answer] using hv
    have hkeeps : edge.keeps w.at_ (max ttl staleMaxAgeSecs) q.at_ = true := by
      refine edge.keeps_of_lt _ _ _ (hlive.1.trans_le ?_)
      exact Nat.add_le_add_left (Nat.mul_le_mul_right _ (le_max_left _ _)) _
    have hfresh : classify (nowMs w.at_) (nowMs q.at_) ttl = .fresh :=
      classify_eq_fresh_iff.2
        ((nowMs_sub_lt_iff ((h.past w rfl).trans ht) (hapart w rfl)).2 hlive.1)
    simp [Worker.get, hsome, hkeeps, hfresh, hlive.2]

/-- An entry that is not fresh any more answers the Worker by its age at the lookup. -/
theorem Synced.get_miss (h : Synced key ttl last c x t) (ht : t ≤ q.at_)
    (hapart : Apart ttl last q) (hmiss : answer ttl last q = none) :
    Worker.get edge x key ttl q.at_ = unfresh edge ttl last q := by
  cases last with
  | none =>
    have hnone : x.lookup (cacheUrl key) = none := h.worker
    simp [Worker.get, unfresh, hnone]
  | some w =>
    have hsome : x.lookup (cacheUrl key) =
        some ⟨⟨nowMs w.at_, w.value⟩, max ttl staleMaxAgeSecs, w.at_⟩ := h.worker
    have hexp : w.at_ + ttl * second ≤ q.at_ := by simpa [answer] using hmiss
    have hold : ¬ nowMs q.at_ - nowMs w.at_ < 1000 * ttl := by
      rw [nowMs_sub_lt_iff ((h.past w rfl).trans ht) (hapart w rfl)]
      exact not_lt.2 hexp
    have hclass : classify (nowMs w.at_) (nowMs q.at_) ttl =
        if w.ageAtLookup q ≤ staleMaxAgeSecs then .stale (w.ageAtLookup q) else .expired := by
      have hage : ¬ (nowMs q.at_ - nowMs w.at_) / 1000 < ttl := by omega
      exact if_neg hage
    by_cases hkeeps : edge.keeps w.at_ (max ttl staleMaxAgeSecs) q.at_ = true
    · by_cases hage : w.ageAtLookup q ≤ staleMaxAgeSecs
      · simp [Worker.get, unfresh, hsome, hkeeps, hclass, hage]
      · simp [Worker.get, unfresh, hsome, hkeeps, hclass, hage]
    · simp [Worker.get, unfresh, hsome, hkeeps]

/-- Inside the stale window the edge cache still has the entry and its age is in the window. -/
theorem LastGood.servable_of_lt (edge : Edge) {w : LastGood} (ttl : ℕ)
    (hlt : q.at_ < w.at_ + staleMaxAge) :
    edge.keeps w.at_ (max ttl staleMaxAgeSecs) q.at_ = true ∧
      w.ageAtLookup q ≤ staleMaxAgeSecs := by
  have hwindow : staleMaxAge = staleMaxAgeSecs * second := rfl
  rw [hwindow] at hlt
  refine ⟨edge.keeps_of_lt _ _ _ (hlt.trans_le ?_), ?_⟩
  · exact Nat.add_le_add_left (Nat.mul_le_mul_right _ (le_max_right _ _)) _
  · have hmono := nowMs_mono hlt.le
    rw [nowMs_add_secs] at hmono
    rw [LastGood.ageAtLookup]
    omega

/-- When upstream fails, both paths answer from the same payload inside the stale window. -/
theorem Synced.agrees_failed (h : Synced key ttl last c x t) (ht : t ≤ q.at_)
    (hapart : Apart ttl last q) (hmiss : answer ttl last q = none) {e : String}
    (hq : q.outcome = .error e) :
    Agrees ttl last q (serve edge key ttl x q).2 (fromCache c key e q.end_) := by
  rw [h.fromCache_native hmiss, serve, h.get_miss ht hapart hmiss, hq]
  unfold unfresh fallback
  cases last with
  | none => exact .failed e hmiss hq fun w hw => by cases hw
  | some w =>
    have hend : q.end_ = q.at_ + q.duration := rfl
    by_cases hlookup : edge.keeps w.at_ (max ttl staleMaxAgeSecs) q.at_ = true ∧
        w.ageAtLookup q ≤ staleMaxAgeSecs
    · by_cases hage : q.end_ - w.at_ ≤ staleMaxAge
      · simp only [hlookup, hage, if_true, and_self]
        exact .stale w e hmiss hq rfl hlookup.2 hage
      · simp only [hlookup, hage, if_true, if_false, and_self]
        exact .late w e hmiss hq rfl hlookup.2 (not_le.1 hage)
    · have hlate : w.at_ + staleMaxAge ≤ q.at_ := by
        by_contra hlt
        exact hlookup (LastGood.servable_of_lt edge ttl (not_le.1 hlt))
      by_cases hage : q.end_ - w.at_ ≤ staleMaxAge
      · simp only [hlookup, hage, if_true, if_false]
        exact .dropped w e hmiss hq rfl (by omega) (by omega)
      · simp only [hlookup, hage, if_false]
        refine .failed e hmiss hq fun w' hw' => ?_
        obtain rfl := Option.some.inj hw'
        omega

theorem unfresh_ne_fresh (v : String) : unfresh edge ttl last q ≠ .fresh v := by
  unfold unfresh
  split
  · split_ifs <;> simp
  · simp

/-- A handler whose entry is not fresh stores what upstream returns. -/
theorem serve_of_ok (hx : Worker.get edge x key ttl q.at_ = unfresh edge ttl last q) {v : String}
    (hq : q.outcome = .ok v) : serve edge key ttl x q = (put x key v ttl q.end_, .fetched v) := by
  unfold serve
  split
  · rename_i u hu
    exact absurd (hx.symm.trans hu) (unfresh_ne_fresh u)
  · rw [hq]

/-- A handler whose upstream call fails stores nothing. -/
theorem serve_of_error {e : String} (hq : q.outcome = .error e) : (serve edge key ttl x q).1 = x := by
  unfold serve
  split
  · rfl
  · rw [hq]
    dsimp only
    split <;> rfl

/-- One request in both paths: corresponding answers, and caches that hold the same. -/
theorem Synced.step (edge : Edge) (h : Synced key ttl last c x t) (ht : t ≤ q.at_)
    (hapart : Apart ttl last q) (hover : q.end_ / second + ttl ≤ maxInstantSecs) :
    ∃ c' res, cachedAlone key ttl c q = some (c', res) ∧
      Synced key ttl (next ttl last q) c' (serve edge key ttl x q).1 q.end_ ∧
      Agrees ttl last q (serve edge key ttl x q).2 res := by
  have hend : q.at_ ≤ q.end_ := Nat.le_add_right _ _
  cases hv : answer ttl last q with
  | some v =>
    have hworker : serve edge key ttl x q = (x, .hit v) := by
      simp only [serve, h.get_hit ht hapart hv]
    refine ⟨c, .cached v, by simp only [cachedAlone, h.get_native, hv], ?_, ?_⟩
    · rw [next, hv, hworker]
      exact ⟨h.native, h.worker, fun w hw => (h.past w hw).trans (ht.trans hend)⟩
    · rw [hworker]
      exact .hit v hv
  | none =>
    have hget : c.get key q.at_ = none := by rw [h.get_native, hv]
    have hmiss : Worker.get edge x key ttl q.at_ = unfresh edge ttl last q :=
      h.get_miss ht hapart hv
    cases hq : q.outcome with
    | ok v =>
      have hworker := serve_of_ok hmiss hq
      obtain ⟨c', hput⟩ : ∃ c', c.put key v ttl q.end_ = some c' :=
        ⟨_, congrArg (Option.map _) (if_pos hover)⟩
      have hnext : next ttl last q = some ⟨v, q.end_⟩ := by simp only [next, hv, hq]
      refine ⟨c', .fresh v, by simp only [cachedAlone, hget, hq, hput, Option.map_some], ?_, ?_⟩
      · rw [hnext, hworker]
        refine ⟨Cache.lookup_putAt_self hput, lookup_put_self _ _ _ _ _, fun w hw => ?_⟩
        obtain rfl := Option.some.inj hw
        exact le_rfl
      · rw [hworker]
        exact .fetched v hv hq
    | error e =>
      have hsame : (serve edge key ttl x q).1 = x := serve_of_error hq
      have hnext : next ttl last q = last := by simp only [next, hv, hq]
      refine ⟨c, _, by simp only [cachedAlone, hget, hq], ?_, h.agrees_failed ht hapart hv hq⟩
      rw [hnext, hsame]
      exact ⟨h.native, h.worker, fun w hw => (h.past w hw).trans (ht.trans hend)⟩

/-! ### Histories -/

/-- Requests of the Worker one after the other. -/
def serveInTurn (edge : Edge) (key : String) (ttl : ℕ) : EdgeCache → List Request → List Served
  | _, [] => []
  | x, q :: qs =>
    (serve edge key ttl x q).2 :: serveInTurn edge key ttl (serve edge key ttl x q).1 qs

/-- No lookup of the history falls into the clock millisecond of an expiry but before it. -/
def ApartAll (ttl : ℕ) : Option LastGood → List Request → Prop
  | _, [] => True
  | last, q :: qs => Apart ttl last q ∧ ApartAll ttl (next ttl last q) qs

/-- The answers to all requests of a history correspond. -/
inductive AgreeAll (ttl : ℕ) :
    Option LastGood → List Request → List Served → List Fetched → Prop
  | nil (l) : AgreeAll ttl l [] [] []
  | cons {l q qs a as b bs} (h : Agrees ttl l q a b)
      (hs : AgreeAll ttl (next ttl l q) qs as bs) : AgreeAll ttl l (q :: qs) (a :: as) (b :: bs)

theorem Synced.agreeAll (h : Synced key ttl last c x t) {qs : List Request} (hturn : InTurn t qs)
    (hapart : ApartAll ttl last qs)
    (hover : ∀ q ∈ qs, q.end_ / second + ttl ≤ maxInstantSecs) :
    ∃ ress, cachedInTurn key ttl c qs = some ress ∧
      AgreeAll ttl last qs (serveInTurn edge key ttl x qs) ress := by
  induction qs generalizing last c x t with
  | nil => exact ⟨[], rfl, .nil last⟩
  | cons q qs ih =>
    obtain ⟨ht, hturn⟩ := hturn
    obtain ⟨hq, hqs⟩ := hapart
    obtain ⟨c', res, hone, hsync, hagree⟩ :=
      h.step edge ht hq (hover q List.mem_cons_self)
    obtain ⟨ress, hrest, hagrees⟩ :=
      ih hsync hturn hqs fun q' hq' => hover q' (List.mem_cons_of_mem _ hq')
    refine ⟨res :: ress, ?_, .cons hagree hagrees⟩
    simp only [cachedInTurn, hone, Option.bind_eq_bind, Option.bind_some, hrest, Option.pure_def]

/-- **The two cache paths.** Over every history of requests in turn, from empty caches and outside
the clock milliseconds of expiries, the two paths give corresponding answers. -/
theorem paths_agree (edge : Edge) (key : String) {ttl : ℕ} {qs : List Request}
    (hturn : InTurn 0 qs) (hapart : ApartAll ttl none qs)
    (hover : ∀ q ∈ qs, q.end_ / second + ttl ≤ maxInstantSecs) :
    ∃ ress, cachedInTurn key ttl Cache.empty qs = some ress ∧
      AgreeAll ttl none qs (serveInTurn edge key ttl ∅ qs) ress :=
  (synced_empty key ttl).agreeAll hturn hapart hover

/-- An edge cache that drops every entry at the end of its max-age. -/
def Edge.strict : Edge where
  keeps storedAt maxAge now := decide (now < storedAt + maxAge * second)
  keeps_of_lt _ _ _ h := decide_eq_true h

/-- A fetch that succeeds, a lookup in its TTL, and a fetch 100.5 s later that fails after a
second. -/
def staleHistory : List Request :=
  [⟨0, .ok "v", 0⟩, ⟨30 * second, .error "unused", 0⟩,
    ⟨100 * second + 500 * millisecond, .error "timeout", second⟩]

theorem paths_agree_staleHistory :
    ∃ ress, cachedInTurn "k" 60 Cache.empty staleHistory = some ress ∧
      AgreeAll 60 none staleHistory (serveInTurn Edge.strict "k" 60 ∅ staleHistory) ress := by
  refine paths_agree Edge.strict "k" ?_ ?_ ?_
  · exact ⟨by decide, by decide, by decide, trivial⟩
  · have hgood : ∀ w : LastGood, some ⟨"v", 0⟩ = some w →
        nowMs (30 * second) ≠ nowMs (w.at_ + 60 * second) ∧
        nowMs (100 * second + 500 * millisecond) ≠ nowMs (w.at_ + 60 * second) := by
      intro w hw
      obtain rfl : (⟨"v", 0⟩ : LastGood) = w := Option.some.inj hw
      decide
    have hnone : Apart 60 none ⟨0, .ok "v", 0⟩ := fun w hw => by cases hw
    exact ⟨hnone, fun w hw _ => (hgood w hw).1, fun w hw _ => (hgood w hw).2, trivial⟩
  · decide

/-- The upstream call that fails begins inside the stale window and ends after it. -/
def lateHistory : List Request :=
  [⟨0, .ok "v", 0⟩, ⟨299 * second, .error "timeout", 2 * second⟩]

/-- The second lookup falls into the clock millisecond of the expiry, 0.3 ms before it. -/
def tightHistory : List Request :=
  [⟨500000, .ok "v", 0⟩, ⟨60 * second + 200000, .ok "w", 0⟩]

/-- The paths differ in the age of a stale payload and in the end of the stale window around an
upstream call that fails, in the clock millisecond of an expiry, and for a TTL past the end of the
clock. -/
theorem paths_differ :
    (serveInTurn Edge.strict "k" 60 ∅ staleHistory = [.fetched "v", .hit "v", .stale "v" 100] ∧
      cachedInTurn "k" 60 Cache.empty staleHistory =
        some [.fresh "v", .cached "v", .stale "v" 101]) ∧
    (serveInTurn Edge.strict "k" 60 ∅ lateHistory = [.fetched "v", .stale "v" 299] ∧
      cachedInTurn "k" 60 Cache.empty lateHistory = some [.fresh "v", .failed "timeout"]) ∧
    (serveInTurn Edge.strict "k" 60 ∅ tightHistory = [.fetched "v", .fetched "w"] ∧
      cachedInTurn "k" 60 Cache.empty tightHistory = some [.fresh "v", .cached "v"]) ∧
    (serveInTurn Edge.strict "k" (2 ^ 63) ∅ [⟨0, .ok "v", 0⟩] = [.fetched "v"] ∧
      cachedInTurn "k" (2 ^ 63) Cache.empty [⟨0, .ok "v", 0⟩] = none) := by
  decide

end Traintime
