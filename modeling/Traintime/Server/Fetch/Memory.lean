import Mathlib.Data.Fin.VecNotation
import Mathlib.Data.Fintype.Basic
import Traintime.Server.Fetch.Exclusion
import Traintime.Server.Fetch.History

/-!
# The memory of a pod

Nothing removes an expired entry of the in-pod cache but the sweep of a later put, and nothing
removes a registered key but its leader. What a pod holds is bounded all the same: by the keys it
stored within one stale window and by the requests that lead a fetch or left while they led one.

## Main definitions

* `Server.Config.storesOf`: the keys that a pod stored, with their instants.
* `Server.recentKeys`: the keys stored within a stale window of the newest store.
* `Server.Cluster.holders`: the requests of a pod that can hold a registered key.

## Main results

* `Server.Cache.len_putAt_le`: the entries after a put.
* `Server.Reachable.len_cache_le`: the entries of an in-pod cache in all runs.
* `Server.Reachable.len_keys_le`: the registered keys of a pod in all runs.
* `Server.pod_bounded`: both bounds.
-/

namespace Traintime.Server

variable {n : ℕ} {cfg : Config n} {s s' : Cluster n} {a : Action n}

/-! ### One put -/

namespace Cache

variable {c c' : Cache} {key value : String} {ttl t now : ℕ}

/-- A put into a map above the threshold keeps only what was fetched within the stale window. -/
theorem len_putAt_le (h : c.putAt key value ttl t now = some c') :
    c'.inner.len ≤ sweepThreshold + 1 ∨
      ∀ k e, c'.inner.lookup k = some e → k = key ∨
        c.inner.lookup k = some e ∧ now < e.fetchedAt + staleMaxAge := by
  by_cases hlen : c.inner.len > sweepThreshold
  · refine Or.inr fun k e he => ?_
    rw [lookup_putAt h] at he
    split_ifs at he with hk
    · exact Or.inl hk
    · rw [swept, if_pos hlen, AssocMap.lookup_retain, Option.filter_eq_some_iff] at he
      exact Or.inr ⟨he.1, of_decide_eq_true he.2⟩
  · obtain ⟨expiry, -, rfl⟩ := Option.map_eq_some_iff.1 h
    refine Or.inl ((AssocMap.len_insert_le ..).trans ?_)
    rw [swept, if_neg hlen]
    omega

end Cache

/-! ### The entries -/

/-- The keys that the pod stored, each with the instant of its fetch, newest first. -/
def Config.storesOf (cfg : Config n) (p : ℕ) (h : List (Event n)) : List (String × ℕ) :=
  h.filterMap fun
    | .stored r _ t => if (cfg.call r).pod = p then some ((cfg.call r).key, t) else none
    | _ => none

/-- The keys stored less than a stale window before the newest store. -/
def recentKeys : List (String × ℕ) → Finset String
  | [] => ∅
  | (key, now) :: older =>
    insert key ((older.filter fun x => decide (now < x.2 + staleMaxAge)).map Prod.fst).toFinset

theorem mem_storesOf {p : ℕ} {h : List (Event n)} {r : Fin n} {v : String} {t : ℕ}
    (hm : .stored r v t ∈ h) (hp : (cfg.call r).pod = p) :
    ((cfg.call r).key, t) ∈ cfg.storesOf p h :=
  List.mem_filterMap.2 ⟨_, hm, by simp [hp]⟩

/-- A step stores nothing, and leaves the caches as they are, or it is one put. -/
theorem Step.storesOf_cases (h : Step cfg s a s') (p : ℕ) :
    (s'.pod p).cache = (s.pod p).cache ∧
      cfg.storesOf p s'.history = cfg.storesOf p s.history ∨
    ∃ r v, (cfg.call r).pod = p ∧ s.cachePut cfg r v = some (s'.pod p).cache ∧
      cfg.storesOf p s'.history = ((cfg.call r).key, s.now) :: cfg.storesOf p s.history := by
  cases h with
  | fetchOk r v c hr hp hc =>
    by_cases hpod : (cfg.call r).pod = p
    · subst hpod
      exact Or.inr ⟨r, v, rfl, by simpa using hc, by simp [Config.storesOf]⟩
    · exact Or.inl ⟨by simp [Ne.symm hpod], by simp [Config.storesOf, hpod]⟩
  | fetchPanic r v hr hp | register r hr hl | remove r res hr =>
    refine Or.inl ⟨?_, by simp [Config.storesOf]⟩
    by_cases hpod : p = (cfg.call r).pod
    · subst hpod
      simp [Cluster.podOf]
    · simp [hpod]
  | _ => exact Or.inl ⟨by simp, by simp [Config.storesOf]⟩

/-- An in-pod cache has at most one entry above the threshold, or no more entries than keys were
stored within a stale window of the newest store. -/
theorem Reachable.len_cache_le (h : Reachable cfg s) (p : ℕ) :
    (s.pod p).cache.inner.len ≤
      max (sweepThreshold + 1) (recentKeys (cfg.storesOf p s.history)).card := by
  refine h.invariant (I := fun s => (s.pod p).cache.inner.len ≤
    max (sweepThreshold + 1) (recentKeys (cfg.storesOf p s.history)).card) (Nat.zero_le _) ?_
  intro s a s' hreach ih ha
  rcases (Step.of_step ha).storesOf_cases p with ⟨hcache, hstores⟩ | ⟨r, v, hp, hput, hstores⟩
  · rw [hcache, hstores]
    exact ih
  · rcases Cache.len_putAt_le hput with hlen | hrecent
    · exact le_max_of_le_left hlen
    · refine le_max_of_le_right (AssocMap.len_le_card fun k e he => ?_)
      rw [hstores, recentKeys, Finset.mem_insert]
      rcases hrecent k e he with hk | ⟨hold, hwindow⟩
      · exact Or.inl hk
      · -- the entry is the newest store of its key, which lies within the window
        obtain ⟨w, hw, rfl⟩ := Reachable.lastStored_of_lookup hreach hold
        obtain ⟨hmem, hflight⟩ := mem_of_lastStored hw
        obtain ⟨hpod, hkey⟩ := Prod.mk.inj hflight
        refine Or.inr (List.mem_toFinset.2 (List.mem_map.2 ⟨(k, w.at_), ?_, rfl⟩))
        rw [List.mem_filter, ← hkey]
        exact ⟨mem_storesOf hmem (hpod.trans hp), decide_eq_true hwindow⟩

/-! ### The registered keys -/

/-- The requests of a pod that lead a fetch, or left while they led one. -/
def Cluster.holders (cfg : Config n) (s : Cluster n) (p : ℕ) : Finset (Fin n) :=
  Finset.univ.filter fun r =>
    (cfg.call r).pod = p ∧ ((s.pc r).Leading = true ∨ s.pc r = .abandoned)

/-- Each registered key of a pod is held by a request of its own. -/
theorem Reachable.len_keys_le (h : Reachable cfg s) (p : ℕ) :
    (s.pod p).keys.len ≤ (s.holders cfg p).card := by
  have hkeys : ∀ k l, (s.pod p).keys.lookup k = some l →
      k ∈ (s.holders cfg p).image fun r => (cfg.call r).key := by
    intro k l hl
    obtain ⟨hpod, hkey⟩ := Prod.mk.inj (h.flight_of_owner hl)
    refine Finset.mem_image.2 ⟨l, Finset.mem_filter.2 ⟨Finset.mem_univ l, hpod, ?_⟩, hkey⟩
    rcases h.exclusive.role_of_owner (p, k) l hl with hrole | hrole
    · exact Or.inl (Pc.role_eq_leading_iff.1 hrole)
    · refine Or.inr ?_
      cases hpc : s.pc l <;> simp_all [Cluster.registry, Pc.role]
  exact (AssocMap.len_le_card hkeys).trans Finset.card_image_le

/-- **A pod's memory is bounded.** In every state of every run, an in-pod cache has no more entries
than the threshold and one, or than the keys stored within a stale window of its newest store, and
as many keys are registered at most as requests lead a fetch or left while they led one. -/
theorem pod_bounded (h : Reachable cfg s) (p : ℕ) :
    (s.pod p).cache.inner.len ≤
        max (sweepThreshold + 1) (recentKeys (cfg.storesOf p s.history)).card ∧
      (s.pod p).keys.len ≤ (s.holders cfg p).card :=
  ⟨h.len_cache_le p, h.len_keys_le p⟩

/-- A run in which request 0 leaves its key behind and request 2 has stored its own. -/
def leftKeyRun : List (Action 3) :=
  [.arrive 0, .lookup 0, .lock 0, .fetch 0, .drop 0, .arrive 2, .lookup 2, .lock 2, .fetch 2,
    .fetchOk 2 "v"]

theorem pod_bounded_leftKeyRun :
    ∃ s, (Transition.run (step threeCalls) leftKeyRun Cluster.init = some s ∧
      (s.pod 0).cache.inner.len = 1 ∧ (s.pod 0).keys.len = 2) ∧
      (s.pod 0).cache.inner.len ≤
        max (sweepThreshold + 1) (recentKeys (threeCalls.storesOf 0 s.history)).card ∧
      (s.pod 0).keys.len ≤ (s.holders threeCalls 0).card := by
  obtain ⟨s, hs, hp⟩ : ∃ s, Transition.run (step threeCalls) leftKeyRun Cluster.init = some s ∧
      (s.pod 0).cache.inner.len = 1 ∧ (s.pod 0).keys.len = 2 :=
    Transition.exists_run_of_any (by decide)
  exact ⟨s, ⟨hs, hp⟩, pod_bounded (Transition.reachable_of_run hs) 0⟩

end Traintime.Server
