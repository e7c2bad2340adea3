import Traintime.Server.Fetch

/-!
# Requests one after the other

A call of `cached` that no other request meets, without Memcached, computes a function of the
in-pod cache. The cluster of `Traintime.Server.Fetch` has a run with that result from every quiet
state, so a history of requests one after the other is a run of the cluster.

## Main definitions

* `Server.fromCache`, `Server.cachedAlone`: the source's functions for one request.
* `Server.cachedInTurn`: a list of requests.
* `Server.Quiet`: no request is under way.

## Main results

* `Server.Quiet.answers_cachedAlone`: the cluster computes `cachedAlone`.
* `Server.Quiet.answers_cachedInTurn`: the cluster computes `cachedInTurn`.
-/

namespace Traintime.Server

open Function

/-- What a failed or joined call answers from the cache. -/
def fromCache (c : Cache) (key error : String) (now : ℕ) : Fetched :=
  match c.get key now with
  | some v => .cached v
  | none =>
    match c.getStale key staleMaxAge now with
    | some (v, age) => .stale v age
    | none => .failed error

/-- A call of `cached` that no other request meets, without Memcached. There is no result when the
put panics. -/
def cachedAlone (key : String) (ttl : ℕ) (c : Cache) (q : Request) : Option (Cache × Fetched) :=
  match c.get key q.at_ with
  | some v => some (c, .cached v)
  | none =>
    match q.outcome with
    | .ok v => (c.put key v ttl q.end_).map fun c' => (c', .fresh v)
    | .error e => some (c, fromCache c key e q.end_)

/-- Calls of `cached` one after the other. -/
def cachedInTurn (key : String) (ttl : ℕ) (c : Cache) : List Request → Option (List Fetched)
  | [] => some []
  | q :: qs => do
    let (c', res) ← cachedAlone key ttl c q
    let ress ← cachedInTurn key ttl c' qs
    return res :: ress

/-- Each request arrives after the one before it has ended. -/
def InTurn : ℕ → List Request → Prop
  | _, [] => True
  | t, q :: qs => t ≤ q.at_ ∧ InTurn q.end_ qs

theorem InTurn.mono {t t' : ℕ} {qs : List Request} (h : InTurn t qs) (ht : t' ≤ t) :
    InTurn t' qs := by
  cases qs with
  | nil => trivial
  | cons q qs => exact ⟨ht.trans h.1, h.2⟩

variable {n : ℕ} {cfg : Config n} {s s' : Cluster n} {p : ℕ}

/-- No request is under way on the pod `p`. -/
structure Quiet (p : ℕ) (s : Cluster n) : Prop where
  settled : ∀ r, s.pc r = .idle ∨ ∃ res, s.pc r = .done res
  keys : ∀ k, (s.pod p).keys.lookup k = none
  poisoned : (s.pod p).poisoned = false

theorem quiet_init : Quiet p (Cluster.init : Cluster n) := by
  constructor <;> simp [Cluster.init]

/-- A request that waits at most where it may wait for ever lets time pass. -/
theorem reachable_tick {t : ℕ} (ht : s.now ≤ t) (hw : ∀ r, (s.pc r).MayWait t) :
    Transition.Reachable (step cfg) s { s with now := t } := by
  have hstep : step cfg s (.tick (t - s.now)) = some { s with now := t } := by
    have hsum : s.now + (t - s.now) = t := by omega
    simp [step, hsum, hw]
  exact Transition.Reachable.refl.tail hstep

theorem Quiet.mayWait (h : Quiet p s) (t : ℕ) (r : Fin n) : (s.pc r).MayWait t := by
  rcases h.settled r with hr | ⟨res, hr⟩ <;> simp [hr, Pc.MayWait]

/-- The run from `s` to `s'` answers `r` with `res` and leaves the cache `c`. -/
structure Answers (cfg : Config n) (p : ℕ) (s s' : Cluster n) (r : Fin n) (c : Cache)
    (res : Fetched) : Prop where
  reach : Transition.Reachable (step cfg) s s'
  quiet : Quiet p s'
  cache : (s'.pod p).cache = c
  pc : s'.pc = update s.pc r (.done res)
  returned : ∃ t, .returned r res t ∈ s'.history
  history : s.history ⊆ s'.history

theorem Quiet.of_update {r : Fin n} {res : Fetched} (h : Quiet p s)
    (hpc : s'.pc = update s.pc r (.done res)) (hkeys : ∀ k, (s'.pod p).keys.lookup k = none)
    (hp : (s'.pod p).poisoned = false) : Quiet p s' := by
  refine ⟨fun q => ?_, hkeys, hp⟩
  rw [hpc]
  by_cases hq : q = r
  · exact Or.inr ⟨res, by simp [hq]⟩
  · rw [update_of_ne hq]
    exact h.settled q

section Alone

variable {r : Fin n} {key : String} {ttl : ℕ} {q : Request}

/-- A call that finds its key in the cache. -/
theorem Quiet.answers_hit (h : Quiet p s) (hcall : cfg.call r = ⟨p, key, ttl⟩)
    (hshared : cfg.shared p = false) (hr : s.pc r = .idle) (hnow : s.now ≤ q.at_) {v : String}
    (hv : (s.pod p).cache.get key q.at_ = some v) :
    ∃ s', Answers cfg p s s' r (s.pod p).cache (.cached v) ∧ s'.now = q.at_ := by
  let s₁ : Cluster n := { s with now := q.at_ }
  let s₂ := s₁.goto r .lookingUp
  let s₃ := s₂.return_ r (.cached v)
  have h₁ : Transition.Reachable (step cfg) s s₁ := reachable_tick hnow (h.mayWait _)
  have h₂ : step cfg s₁ (.arrive r) = some s₂ := by
    simp [step, s₁, s₂, hr, Config.asksShared, hcall, hshared]
  have h₃ : step cfg s₂ (.lookup r) = some s₃ := by
    simp [step, s₂, s₁, s₃, Cluster.cacheGet, Cluster.podOf, hcall, h.poisoned, hv]
  have hpc : s₃.pc = update s.pc r (.done (.cached v)) := by simp [s₃, s₂, s₁]
  exact ⟨s₃, ⟨(h₁.tail h₂).tail h₃, h.of_update hpc h.keys h.poisoned, rfl, hpc,
    ⟨q.at_, by simp [s₃, s₂, s₁]⟩, by simp [s₃, s₂, s₁]⟩, rfl⟩

/-- The run from `s` to `s'` has brought `r`, alone, to the point `x` at `t`, with `o` as the owner
of its key and `c` as the cache. -/
structure Leads (cfg : Config n) (p : ℕ) (key : String) (s s' : Cluster n) (r : Fin n)
    (o : Option (Fin n)) (c : Cache) (x : Pc n) (t : ℕ) : Prop where
  reach : Transition.Reachable (step cfg) s s'
  pc : s'.pc = update s.pc r x
  keys : ∀ k, (s'.pod p).keys.lookup k = if k = key then o else none
  poisoned : (s'.pod p).poisoned = false
  cache : (s'.pod p).cache = c
  now : s'.now = t
  history : s.history ⊆ s'.history

/-- A call that misses leads the fetch and lets its upstream call take its time. -/
theorem Quiet.leads (h : Quiet p s) (hcall : cfg.call r = ⟨p, key, ttl⟩)
    (hshared : cfg.shared p = false) (hr : s.pc r = .idle) (hnow : s.now ≤ q.at_)
    (hv : (s.pod p).cache.get key q.at_ = none) :
    ∃ s', Leads cfg p key s s' r (some r) (s.pod p).cache .fetching q.end_ := by
  let s₁ : Cluster n := { s with now := q.at_ }
  let s₂ := s₁.goto r .lookingUp
  let s₃ := (s₂.goto r .missed).record (.missed r)
  let s₄ := (s₃.goto r .registered).setPod p
    { s.pod p with keys := (s.pod p).keys.insert key r }
  let s₅ := (s₄.goto r .fetching).record (.fetchStarted r q.at_)
  have h₁ : Transition.Reachable (step cfg) s s₁ := reachable_tick hnow (h.mayWait _)
  have h₂ : step cfg s₁ (.arrive r) = some s₂ := by
    simp [step, s₁, s₂, hr, Config.asksShared, hcall, hshared]
  have h₃ : step cfg s₂ (.lookup r) = some s₃ := by
    simp [step, s₂, s₁, s₃, Cluster.cacheGet, Cluster.podOf, hcall, h.poisoned, hv]
  have h₄ : step cfg s₃ (.lock r) = some s₄ := by
    simp [step, s₃, s₂, s₁, s₄, Cluster.podOf, hcall, h.keys]
  have h₅ : step cfg s₄ (.fetch r) = some s₅ := by simp [step, s₄, s₅, s₃, s₂, s₁]
  have hpc : s₅.pc = update s.pc r .fetching := by simp [s₅, s₄, s₃, s₂, s₁]
  have h₆ : Transition.Reachable (step cfg) s₅ { s₅ with now := q.end_ } := by
    refine reachable_tick (Nat.le_add_right _ _) fun r' => ?_
    rw [hpc]
    by_cases hrr : r' = r
    · simp [hrr, Pc.MayWait]
    · rw [update_of_ne hrr]
      exact h.mayWait _ _
  have h₀ : Transition.Reachable (step cfg) s s₅ := (((h₁.tail h₂).tail h₃).tail h₄).tail h₅
  refine ⟨_, h₀.trans h₆, hpc, fun k => ?_, ?_, ?_, rfl, ?_⟩
  · simp [s₅, s₄, s₃, s₂, s₁, AssocMap.lookup_insert_eq, h.keys]
  · simp [s₅, s₄, h.poisoned]
  · simp [s₅, s₄]
  · simp [s₅, s₄, s₃, s₂, s₁]

variable {c c' : Cache} {t : ℕ}

/-- A fetch that succeeded is stored. -/
theorem Leads.stores (h : Leads cfg p key s s' r (some r) c .fetching t)
    (hcall : cfg.call r = ⟨p, key, ttl⟩) {v : String} (hc : c.put key v ttl t = some c') :
    ∃ s'', Leads cfg p key s s'' r (some r) c' (.removing (.ok v)) t := by
  let s₁ := (((s'.goto r (.storing v t false)).setPod p { s'.pod p with cache := c' }).record
    (.fetched r v t)).record (.stored r v t)
  let s₂ := s₁.goto r (.removing (.ok v))
  have hput : s'.cachePut cfg r v = some c' := by
    simp [Cluster.cachePut, Cluster.podOf, hcall, h.cache, h.now, hc]
  have h₁ : step cfg s' (.fetchOk r v) = some s₁ := by
    simp [step, s₁, h.pc, Cluster.podOf, hcall, h.poisoned, hput, h.now]
  have h₂ : step cfg s₁ (.storeDone r) = some s₂ := by simp [step, s₁, s₂]
  refine ⟨s₂, (h.reach.tail h₁).tail h₂, ?_, fun k => ?_, ?_, ?_, h.now, ?_⟩
  · simp [s₂, s₁, h.pc]
  · simp [s₂, s₁, h.keys]
  · simp [s₂, s₁, h.poisoned]
  · simp [s₂, s₁]
  · exact List.Subset.trans h.history (by simp [s₂, s₁])

/-- A fetch that failed stores nothing. -/
theorem Leads.fails (h : Leads cfg p key s s' r (some r) c .fetching t) (e : String) :
    ∃ s'', Leads cfg p key s s'' r (some r) c (.removing (.error e)) t := by
  let s₁ := (s'.goto r (.removing (.error e))).record (.fetchFailed r e)
  have h₁ : step cfg s' (.fetchErr r e) = some s₁ := by simp [step, s₁, h.pc]
  exact ⟨s₁, h.reach.tail h₁, by simp [s₁, h.pc], h.keys, h.poisoned, h.cache, h.now,
    List.Subset.trans h.history (by simp [s₁])⟩

/-- A leader that has its result removes its key. -/
theorem Leads.removes {x : Except String String}
    (h : Leads cfg p key s s' r (some r) c (.removing x) t) (hcall : cfg.call r = ⟨p, key, ttl⟩) :
    ∃ s'', Leads cfg p key s s'' r none c (.notifying x) t := by
  let s₁ := (s'.goto r (.notifying x)).setPod p
    { s'.pod p with keys := (s'.pod p).keys.erase key }
  have h₁ : step cfg s' (.remove r) = some s₁ := by
    simp [step, s₁, h.pc, Cluster.podOf, hcall]
  refine ⟨s₁, h.reach.tail h₁, ?_, fun k => ?_, ?_, ?_, h.now, h.history⟩
  · simp [s₁, h.pc]
  · simp [s₁, AssocMap.lookup_erase_eq, h.keys]
  · simp [s₁, h.poisoned]
  · simp [s₁, h.cache]

/-- Nobody waits in a quiet state, so a notification wakes nobody. -/
theorem Quiet.wake (h : Quiet p s) (x y : Pc n) :
    update (fun q => (update s.pc r x q).wake r) r y = update s.pc r y := by
  funext q
  by_cases hq : q = r
  · simp [hq]
  · simp only [update_of_ne hq]
    rcases h.settled q with hs | ⟨res, hs⟩ <;> simp [hs, Pc.wake]

/-- A leader that has fetched notifies and returns its payload. -/
theorem Leads.answers_fresh {v : String}
    (h : Leads cfg p key s s' r none c (.notifying (.ok v)) t) (hq : Quiet p s) :
    ∃ s'', Answers cfg p s s'' r c (.fresh v) ∧ s''.now = t := by
  let s₁ := ({ s' with pc := fun q => (s'.pc q).wake r }.record (.notified r)).return_ r (.fresh v)
  have h₁ : step cfg s' (.notify r) = some s₁ := by simp [step, s₁, h.pc]
  have hpc : s₁.pc = update s.pc r (.done (.fresh v)) := by
    simp only [s₁, Cluster.return_pc, Cluster.record_pc, h.pc]
    exact hq.wake _ _
  have hkeys : ∀ k, (s₁.pod p).keys.lookup k = none := by simp [s₁, h.keys]
  exact ⟨s₁, ⟨h.reach.tail h₁, hq.of_update hpc hkeys h.poisoned, h.cache, hpc,
    ⟨s'.now, by simp [s₁]⟩, List.Subset.trans h.history fun e he => by simp [s₁, he]⟩, h.now⟩

/-- A leader whose fetch failed notifies and answers from the cache. -/
theorem Leads.answers_fromCache {e : String} (hcall : cfg.call r = ⟨p, key, ttl⟩)
    (h : Leads cfg p key s s' r none c (.notifying (.error e)) t) (hq : Quiet p s) :
    ∃ s'', Answers cfg p s s'' r c (fromCache c key e t) ∧ s''.now = t := by
  let s₁ := ({ s' with pc := fun q => (s'.pc q).wake r }.record (.notified r)).goto r (.reading e)
  have h₁ : step cfg s' (.notify r) = some s₁ := by simp [step, s₁, h.pc]
  have hpc : s₁.pc = update s.pc r (.reading e) := by
    simp only [s₁, Cluster.goto_pc, Cluster.record_pc, h.pc]
    exact hq.wake _ _
  have hpod : s₁.podOf cfg r = s'.pod p := by simp [s₁, Cluster.podOf, hcall]
  have hget : s₁.cacheGet cfg r = c.get key t := by
    rw [Cluster.cacheGet, hpod, h.cache, hcall]
    simp [s₁, h.now]
  have hdone : ∀ res, ∀ s₂ : Cluster n, Transition.Reachable (step cfg) s₁ s₂ →
      s₂ = s₁.return_ r res ∨ s₂ = (s₁.goto r (.readingStale e)).return_ r res →
      Answers cfg p s s₂ r c res ∧ s₂.now = t := by
    intro res s₂ hreach hs₂
    have hpc₂ : s₂.pc = update s.pc r (.done res) := by
      rcases hs₂ with rfl | rfl <;> simp [hpc]
    have hkeys : ∀ k, (s₂.pod p).keys.lookup k = none := by
      rcases hs₂ with rfl | rfl <;> simp [s₁, h.keys]
    have hp : (s₂.pod p).poisoned = false := by
      rcases hs₂ with rfl | rfl <;> exact h.poisoned
    refine ⟨⟨(h.reach.tail h₁).trans hreach, hq.of_update hpc₂ hkeys hp, ?_, hpc₂, ⟨s'.now, ?_⟩,
      List.Subset.trans h.history fun e he => ?_⟩, ?_⟩
    · rcases hs₂ with rfl | rfl <;> exact h.cache
    · rcases hs₂ with rfl | rfl <;> simp [s₁]
    · rcases hs₂ with rfl | rfl <;> simp [s₁, he]
    · rcases hs₂ with rfl | rfl <;> exact h.now
  unfold fromCache
  split
  · rename_i v hv
    have h₂ : step cfg s₁ (.read r) = some (s₁.return_ r (.cached v)) := by
      simp [step, hpc, hpod, h.poisoned, hget, hv]
    exact ⟨_, hdone _ _ (Transition.Reachable.refl.tail h₂) (Or.inl rfl)⟩
  · rename_i hv
    have h₂ : step cfg s₁ (.read r) = some (s₁.goto r (.readingStale e)) := by
      simp [step, hpc, hpod, h.poisoned, hget, hv]
    have hstale : (s₁.goto r (.readingStale e)).cacheGetStale cfg r =
        c.getStale key staleMaxAge t := by
      simp [Cluster.cacheGetStale, Cluster.podOf, hcall, s₁, h.cache, h.now]
    split
    · rename_i v age hv'
      have h₃ : step cfg (s₁.goto r (.readingStale e)) (.readStale r) =
          some ((s₁.goto r (.readingStale e)).return_ r (.stale v age)) := by
        simp [step, Cluster.podOf, hcall, s₁, h.poisoned, hstale, hv']
      exact ⟨_, hdone _ _ ((Transition.Reachable.refl.tail h₂).tail h₃) (Or.inr rfl)⟩
    · rename_i hv'
      have h₃ : step cfg (s₁.goto r (.readingStale e)) (.readStale r) =
          some ((s₁.goto r (.readingStale e)).return_ r (.failed e)) := by
        simp [step, Cluster.podOf, hcall, s₁, h.poisoned, hstale, hv']
      exact ⟨_, hdone _ _ ((Transition.Reachable.refl.tail h₂).tail h₃) (Or.inr rfl)⟩

/-- **One call.** From a quiet state the cluster has a run that answers a request alone as
`cachedAlone` does. -/
theorem Quiet.answers_cachedAlone (h : Quiet p s) (hcall : cfg.call r = ⟨p, key, ttl⟩)
    (hshared : cfg.shared p = false) (hr : s.pc r = .idle) (hnow : s.now ≤ q.at_) {res : Fetched}
    (hc : cachedAlone key ttl (s.pod p).cache q = some (c', res)) :
    ∃ s', Answers cfg p s s' r c' res ∧ s'.now ≤ q.end_ := by
  unfold cachedAlone at hc
  split at hc
  · rename_i v hv
    obtain ⟨rfl, rfl⟩ := Prod.mk.inj (Option.some.inj hc)
    obtain ⟨s', hs', hat⟩ := h.answers_hit hcall hshared hr hnow hv
    exact ⟨s', hs', hat ▸ Nat.le_add_right _ _⟩
  · rename_i hv
    obtain ⟨s₁, h₁⟩ := h.leads hcall hshared hr hnow hv
    split at hc
    · rename_i v hout
      obtain ⟨c₁, hput, heq⟩ := Option.map_eq_some_iff.1 hc
      obtain ⟨rfl, rfl⟩ := Prod.mk.inj heq
      obtain ⟨s₂, h₂⟩ := h₁.stores hcall hput
      obtain ⟨s₃, h₃⟩ := h₂.removes hcall
      obtain ⟨s₄, h₄, hnow₄⟩ := h₃.answers_fresh h
      exact ⟨s₄, h₄, hnow₄.le⟩
    · rename_i e hout
      obtain ⟨rfl, rfl⟩ := Prod.mk.inj (Option.some.inj hc)
      obtain ⟨s₂, h₂⟩ := h₁.fails e
      obtain ⟨s₃, h₃⟩ := h₂.removes hcall
      obtain ⟨s₄, h₄, hnow₄⟩ := h₃.answers_fromCache hcall h
      exact ⟨s₄, h₄, hnow₄.le⟩

end Alone

/-- **Calls in turn.** From a quiet state the cluster has a run that answers requests in turn as
`cachedInTurn` does. -/
theorem Quiet.answers_cachedInTurn {key : String} {ttl : ℕ} (hshared : cfg.shared p = false)
    {calls : List (Fin n × Request)} (h : Quiet p s) {ress : List Fetched}
    (hcall : ∀ x ∈ calls, cfg.call x.1 = ⟨p, key, ttl⟩) (hnd : (calls.map Prod.fst).Nodup)
    (hidle : ∀ x ∈ calls, s.pc x.1 = .idle) (hturn : InTurn s.now (calls.map Prod.snd))
    (hc : cachedInTurn key ttl (s.pod p).cache (calls.map Prod.snd) = some ress) :
    ∃ s', Transition.Reachable (step cfg) s s' ∧ s.history ⊆ s'.history ∧
      List.Forall₂ (fun x res => ∃ t, .returned x.1 res t ∈ s'.history) calls ress := by
  induction calls generalizing s ress with
  | nil =>
    obtain rfl : [] = ress := Option.some.inj hc
    exact ⟨s, .refl, List.Subset.refl _, .nil⟩
  | cons x calls ih =>
    obtain ⟨r, q⟩ := x
    simp only [List.map_cons, cachedInTurn, Option.bind_eq_bind, Option.bind_eq_some_iff,
      Option.pure_def, Option.some.injEq, Prod.exists] at hc
    obtain ⟨c', res, hone, ress', hrest, rfl⟩ := hc
    obtain ⟨hat, hturn⟩ := hturn
    rw [List.map_cons, List.nodup_cons] at hnd
    obtain ⟨s₁, h₁, hnow₁⟩ := h.answers_cachedAlone (hcall _ List.mem_cons_self) hshared
      (hidle _ List.mem_cons_self) hat hone
    have hidle₁ : ∀ x ∈ calls, s₁.pc x.1 = .idle := by
      intro x hx
      have hxr : x.1 ≠ r := by
        rintro rfl
        exact hnd.1 (List.mem_map.2 ⟨x, hx, rfl⟩)
      rw [h₁.pc, update_of_ne hxr]
      exact hidle _ (List.mem_cons_of_mem _ hx)
    have hturn₁ : InTurn s₁.now (calls.map Prod.snd) := hturn.mono hnow₁
    obtain ⟨s₂, h₂, hsub, hall⟩ := ih h₁.quiet (fun x hx => hcall _ (List.mem_cons_of_mem _ hx))
      hnd.2 hidle₁ hturn₁ (h₁.cache.symm ▸ hrest)
    obtain ⟨t, ht⟩ := h₁.returned
    exact ⟨s₂, h₁.reach.trans h₂, List.Subset.trans h₁.history hsub, .cons ⟨t, hsub ht⟩ hall⟩

end Traintime.Server
