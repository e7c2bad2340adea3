import Mathlib.Data.List.Induction
import Traintime.Server.Fetch.History
import Traintime.Worker.Cache

/-!
# The stale window

What a request is answered after its upstream call has failed and the payload stored last for its
key has expired. Both runtimes measure the stale window from the fetch of the payload, so of the
`STALE_MAX_AGE` past the TTL only what the TTL leaves of it is open: nothing for the formations,
whose TTL is the whole window. The native server looks at the exact age once the call has failed,
the Worker at the age in whole seconds before the call is made.

## Main definitions

* `Server.AtFallback`: an upstream call has failed, the cache is read next.
* `Server.answerAfter`: what a request has been answered after a list of steps.
* `Worker.Put`, `Worker.afterPuts`: the edge cache after a list of puts.

## Main results

* `Server.Reachable.answersStale_iff`, `Worker.serve_eq_stale_iff`: the two runtimes.
* `stale_fallback`: both.
-/

namespace Traintime

namespace Server

variable {n : ℕ} {cfg : Config n} {s : Cluster n} {r : Fin n} {a : Action n} {w : Store n}

/-- The next step of the request `r` is the first read of `from_cache`: its upstream call has
failed, or it was notified by the leader whose call it waited for. -/
inductive AtFallback (s : Cluster n) (r : Fin n) : Action n → Prop
  | own (e) (h : s.pc r = .reading e) : AtFallback s r (.read r)
  | joined (l) (h : s.pc r = .woken l) : AtFallback s r (.resume r)

/-- The two reads of `from_cache` answer a stale payload exactly if the cache can be locked, has no
unexpired entry of the key, and has that payload as a stale one. -/
theorem answerAfter_eq_stale_iff (ha : AtFallback s r a) {v : String} {age : ℕ} :
    answerAfter cfg s r [a, .readStale r] = some (.stale v age) ↔
      (s.podOf cfg r).poisoned = false ∧ s.cacheGet cfg r = none ∧
        s.cacheGetStale cfg r = some (v, age) := by
  rw [answerAfter_cons]
  cases hp : (s.podOf cfg r).poisoned with
  | true =>
    have hstuck : step cfg s a = none := by cases ha <;> simp [step, *]
    simp [hstuck]
  | false =>
    cases hv : s.cacheGet cfg r with
    | some u =>
      have hgo : step cfg s a = some (s.return_ r (.cached u)) := by cases ha <;> simp [step, *]
      rw [hgo, Option.bind_some]
      simp [answerAfter, Transition.run, step]
    | none =>
      obtain ⟨e, hgo⟩ : ∃ e, step cfg s a = some (s.goto r (.readingStale e)) := by
        cases ha with
        | own e h => exact ⟨e, by simp [step, h, hp, hv]⟩
        | joined l h => exact ⟨"upstream unavailable", by simp [step, h, hp, hv]⟩
      have hsame : (s.goto r (.readingStale e)).cacheGetStale cfg r = s.cacheGetStale cfg r := rfl
      rw [hgo, Option.bind_some,
        answerAfter_readStale (s := s.goto r (.readingStale e)) (e := e) (by simp) hp, hsame]
      cases s.cacheGetStale cfg r <;> simp [Prod.ext_iff]

/-- **The native server.** In every run a request whose upstream call has failed is answered a
payload as a stale one exactly if the cache can be locked and the payload is that of the newest
store of the key on the pod of the request itself, has expired there, and its age is below the stale
window, or equal to it and the payload not swept at this very instant. -/
theorem Reachable.answersStale_iff (h : Reachable cfg s) (ha : AtFallback s r a) (v : String)
    (age : ℕ) :
    answerAfter cfg s r [a, .readStale r] = some (.stale v age) ↔
      (s.podOf cfg r).poisoned = false ∧ ∃ w, lastStored cfg (cfg.flight r) s.history = some w ∧
        w.value = v ∧ age = (s.now - w.at_) / second ∧ (cfg.entryOf w).expiry ≤ s.now ∧
        (s.now < w.at_ + staleMaxAge ∨ s.now = w.at_ + staleMaxAge ∧
          (s.podOf cfg r).cache.inner.lookup (cfg.call r).key ≠ none) := by
  rw [answerAfter_eq_stale_iff ha, Cluster.cacheGet, Cluster.cacheGetStale, Cache.get_eq_none_iff,
    Cache.getStale_eq_some_iff]
  refine and_congr_right fun _ => ⟨?_, ?_⟩
  · rintro ⟨hexpired, e, he, hage, rfl, rfl⟩
    obtain ⟨w, hw, rfl⟩ := h.lastStored_of_lookup he
    have hle : w.at_ ≤ s.now := h.stored_le hw
    have hwindow : s.now - w.at_ ≤ staleMaxAge := hage
    refine ⟨w, hw, rfl, rfl, hexpired _ he, ?_⟩
    rcases Nat.lt_or_ge s.now (w.at_ + staleMaxAge) with hlt | hge
    · exact Or.inl hlt
    · exact Or.inr ⟨by omega, by simp [he]⟩
  · rintro ⟨w, hw, rfl, rfl, hexpired, hwindow⟩
    have hle : w.at_ ≤ s.now := h.stored_le hw
    have hhere : (s.podOf cfg r).cache.inner.lookup (cfg.call r).key = some (cfg.entryOf w) := by
      rcases h.lookup_or_window_over hw with hhere | ⟨hgone, hover⟩
      · exact hhere
      · rcases hwindow with hlt | ⟨-, hthere⟩
        · exact absurd hlt (not_lt.2 hover)
        · exact absurd hgone hthere
    have hage : s.now - w.at_ ≤ staleMaxAge := by omega
    refine ⟨fun e he => ?_, _, hhere, hage, rfl, rfl⟩
    rw [Option.some.inj (he.symm.trans hhere)]
    exact hexpired

end Server

namespace Worker

/-- The arguments of a put, and its instant. -/
structure Put where
  key : String
  payload : String
  ttlSecs : ℕ
  now : ℕ
deriving DecidableEq

/-- The edge cache after a list of puts. -/
def afterPuts (puts : List Put) : EdgeCache :=
  puts.foldl (fun c p => put c p.key p.payload p.ttlSecs p.now) ∅

/-- The last put of a key, whose entry has taken the place of all earlier ones. -/
def lastPut (puts : List Put) (key : String) : Option Put :=
  (puts.filter fun p => p.key = key).getLast?

/-- The edge cache was given of each key what was put last. -/
theorem lookup_afterPuts (puts : List Put) (key : String) :
    (afterPuts puts).lookup (cacheUrl key) = (lastPut puts key).map fun p =>
      ⟨⟨nowMs p.now, p.payload⟩, max p.ttlSecs staleMaxAgeSecs, p.now⟩ := by
  induction puts using List.reverseRecOn with
  | nil => rfl
  | append_singleton puts p ih =>
    have hput : afterPuts (puts ++ [p]) =
        put (afterPuts puts) p.key p.payload p.ttlSecs p.now := by simp [afterPuts]
    by_cases hk : p.key = key
    · subst hk
      rw [hput, lookup_put_self]
      simp [lastPut]
    · rw [hput, lookup_put_of_ne _ (Ne.symm hk), ih]
      simp [lastPut, hk]

variable {edge : Edge} {puts : List Put} {p : Put} {key e : String} {q : Request}

/-- **The Worker.** Whatever was put before, a request whose upstream call fails is answered with
the payload put last exactly if the edge cache still has it at the lookup and its age by the clock
in milliseconds is at most the stale window in whole seconds. -/
theorem serve_eq_stale_iff (hp : lastPut puts key = some p)
    (hmiss : ∀ v, get edge (afterPuts puts) key p.ttlSecs q.at_ ≠ .fresh v)
    (hq : q.outcome = .error e) :
    (serve edge key p.ttlSecs (afterPuts puts) q).2 =
        .stale p.payload ((nowMs q.at_ - nowMs p.now) / 1000) ↔
      edge.keeps p.now (max p.ttlSecs staleMaxAgeSecs) q.at_ = true ∧
        (nowMs q.at_ - nowMs p.now) / 1000 ≤ staleMaxAgeSecs := by
  have hlook := lookup_afterPuts puts key
  rw [hp, Option.map_some] at hlook
  by_cases hkeeps : edge.keeps p.now (max p.ttlSecs staleMaxAgeSecs) q.at_ = true
  · have hget := get_of_lookup p.ttlSecs hlook hkeeps
    have hold : ¬ nowMs q.at_ - nowMs p.now < 1000 * p.ttlSecs := by
      intro hlt
      rw [classify_eq_fresh_iff.2 hlt] at hget
      exact hmiss _ hget
    by_cases hage : (nowMs q.at_ - nowMs p.now) / 1000 ≤ staleMaxAgeSecs
    · have hclass := classify_eq_stale_iff.2 ⟨not_lt.1 hold, rfl, hage⟩
      simp [serve, hget, hclass, hq, hkeeps, hage]
    · have hclass : classify (nowMs p.now) (nowMs q.at_) p.ttlSecs = .expired := by
        unfold classify
        rw [if_neg (by omega), if_neg hage]
      simp [serve, hget, hclass, hq, hage]
  · have hget : get edge (afterPuts puts) key p.ttlSecs q.at_ = .missing := by
      simp [get, hlook, hkeeps]
    simp [serve, hget, hq, hkeeps]

end Worker

/-- **Stale fallback.** When the answer to a request whose upstream call failed is a payload that was
stored before: in any run of the cluster for any payload, whichever pods stored it, and after any
puts of the Workers for the payload put last. -/
theorem stale_fallback {n : ℕ} (cfg : Server.Config n) (s : Server.Cluster n) (r : Fin n)
    (a : Server.Action n) (v : String) (age : ℕ) (edge : Worker.Edge) (puts : List Worker.Put)
    (p : Worker.Put) (key e : String) (q : Request) :
    (Server.Reachable cfg s → Server.AtFallback s r a →
      (Server.answerAfter cfg s r [a, .readStale r] = some (.stale v age) ↔
        (s.podOf cfg r).poisoned = false ∧
          ∃ w, Server.lastStored cfg (cfg.flight r) s.history = some w ∧ w.value = v ∧
            age = (s.now - w.at_) / second ∧
            w.at_ + (cfg.call w.leader).ttl * second ≤ s.now ∧
            (s.now < w.at_ + Server.staleMaxAge ∨ s.now = w.at_ + Server.staleMaxAge ∧
              (s.podOf cfg r).cache.inner.lookup (cfg.call r).key ≠ none))) ∧
    (Worker.lastPut puts key = some p →
      (∀ v, Worker.get edge (Worker.afterPuts puts) key p.ttlSecs q.at_ ≠ .fresh v) →
      q.outcome = .error e →
      ((Worker.serve edge key p.ttlSecs (Worker.afterPuts puts) q).2 =
          .stale p.payload ((Worker.nowMs q.at_ - Worker.nowMs p.now) / 1000) ↔
        edge.keeps p.now (max p.ttlSecs staleMaxAgeSecs) q.at_ = true ∧
          (Worker.nowMs q.at_ - Worker.nowMs p.now) / 1000 ≤ staleMaxAgeSecs)) :=
  ⟨fun h ha => h.answersStale_iff ha v age,
    fun hp hmiss hq => Worker.serve_eq_stale_iff hp hmiss hq⟩

/-- Two requests of one pod for one formation. -/
def twoFormations : Server.Config 2 where
  call _ := ⟨0, "formation:SBBP:2026-01-01:95:all", 300⟩
  shared _ := false

/-- The fetch of request 0 succeeds, `t` seconds later that of request 1 fails. -/
def outageRun (t : ℕ) : List (Server.Action 2) :=
  [.arrive 0, .lookup 0, .lock 0, .fetch 0, .fetchOk 0 "v", .storeDone 0, .remove 0, .notify 0,
    .tick (t * second), .arrive 1, .lookup 1, .lock 1, .fetch 1, .fetchErr 1 "timeout", .remove 1,
    .notify 1]

/-- An edge cache that never drops an entry. -/
def keepsAll : Worker.Edge where
  keeps _ _ _ := true
  keeps_of_lt _ _ _ _ := rfl

/-- The put of a formation at the instant 0. -/
def formationPut : Worker.Put := ⟨"formation:SBBP:2026-01-01:95:all", "v", 300, 0⟩

/-- A request `t` seconds later whose upstream call fails at once. -/
def failsAt (t : ℕ) : Request := ⟨t * second, .error "timeout", 0⟩

/-- At the instant of its expiry a formation still answers, in both runtimes. -/
theorem stale_fallback_at_expiry :
    (∃ s, Transition.run (Server.step twoFormations) (outageRun 300) Server.Cluster.init = some s ∧
      Server.answerAfter twoFormations s 1 [.read 1, .readStale 1] = some (.stale "v" 300)) ∧
    (Worker.serve keepsAll formationPut.key formationPut.ttlSecs (Worker.afterPuts [formationPut])
      (failsAt 300)).2 = .stale "v" 300 := by
  obtain ⟨s, hs, hpc, hw, hnow, hp, hl⟩ : ∃ s,
      Transition.run (Server.step twoFormations) (outageRun 300) Server.Cluster.init = some s ∧
      s.pc 1 = .reading "timeout" ∧
      Server.lastStored twoFormations (twoFormations.flight 1) s.history = some ⟨0, "v", 0⟩ ∧
      s.now = 300 * second ∧ (s.podOf twoFormations 1).poisoned = false ∧
      (s.podOf twoFormations 1).cache.inner.lookup (twoFormations.call 1).key ≠ none :=
    Transition.exists_run_of_any (by decide)
  obtain ⟨hserver, hworker⟩ := stale_fallback twoFormations s 1 (.read 1) "v" 300 keepsAll
    [formationPut] formationPut formationPut.key "timeout" (failsAt 300)
  constructor
  · exact ⟨s, hs, (hserver (Transition.reachable_of_run hs) (.own "timeout" hpc)).2
      ⟨hp, ⟨0, "v", 0⟩, hw, rfl, by rw [hnow]; decide, by rw [hnow]; decide, Or.inr ⟨hnow, hl⟩⟩⟩
  · have hlast : Worker.lastPut [formationPut] formationPut.key = some formationPut := by decide
    have hget : Worker.get keepsAll (Worker.afterPuts [formationPut]) formationPut.key
        formationPut.ttlSecs (failsAt 300).at_ = .stale "v" 300 := by decide
    have hmiss : ∀ v, Worker.get keepsAll (Worker.afterPuts [formationPut]) formationPut.key
        formationPut.ttlSecs (failsAt 300).at_ ≠ .fresh v := fun v h => by
      rw [hget] at h
      cases h
    exact (hworker hlast hmiss rfl).2 ⟨rfl, by decide⟩

/-- A formation answers nobody any more 100 seconds past its TTL, in either runtime, even if the
edge cache still has it. -/
theorem formation_not_stale :
    (∃ s, Transition.run (Server.step twoFormations) (outageRun 400) Server.Cluster.init = some s ∧
      Server.lastStored twoFormations (twoFormations.flight 1) s.history = some ⟨0, "v", 0⟩ ∧
      0 + 300 * second ≤ s.now ∧ s.now ≤ 0 + 300 * second + Server.staleMaxAge ∧
      Server.answerAfter twoFormations s 1 [.read 1, .readStale 1] = some (.failed "timeout")) ∧
    (Worker.serve keepsAll formationPut.key formationPut.ttlSecs (Worker.afterPuts [formationPut])
      (failsAt 400)).2 = .error "timeout" := by
  refine ⟨Transition.exists_run_of_any (by decide), by decide⟩

end Traintime
