import Mathlib.Data.Fin.VecNotation
import Traintime.Server.Fetch.History

/-!
# Where payloads come from

Every copy of a payload that the cluster holds goes back to a successful fetch of its key: the
entries of Memcached and the replies under way with a bound on their age, the results that leaders
carry without one. What a request returns inherits both.

## Main definitions

* `Server.Pc.Traced`, `Server.Traced`: every copy goes back to a fetch in the history.
* `Server.ReturnOk`: what a result says about the history before it.

## Main results

* `Server.Reachable.traced`: the invariant of all runs.
* `Server.returnOk_of_returned`: every payload returned was fetched for the key and is within its
  bounds.
-/

namespace Traintime.Server

open Function

variable {n : ℕ} {cfg : Config n} {s s' : Cluster n} {a : Action n}

/-- The history has a successful fetch of `v` for `key` whose copies Memcached may hold until
`expiry`. -/
def FetchedFor (cfg : Config n) (h : List (Event n)) (key v : String) (expiry : ℕ) : Prop :=
  ∃ r t, .fetched r v t ∈ h ∧ (cfg.call r).key = key ∧
    expiry ≤ t + opTimeout + (cfg.call r).ttl * second

theorem FetchedFor.mono {h h' : List (Event n)} {key v : String} {e e' : ℕ}
    (hf : FetchedFor cfg h key v e) (hh : h ⊆ h') (he : e' ≤ e) : FetchedFor cfg h' key v e' := by
  obtain ⟨r, t, hm, hk, hle⟩ := hf
  exact ⟨r, t, hh hm, hk, he.trans hle⟩

/-- What a request carries at this point goes back to a fetch, and its Memcached call is within
the timeout. -/
def Pc.Traced (cfg : Config n) (h : List (Event n)) (now : ℕ) (r : Fin n) : Pc n → Prop
  | .sharedGet t => t ≤ now ∧ now ≤ t + opTimeout
  | .sharedGot t reply => t ≤ now ∧ now ≤ t + opTimeout ∧
      ∀ v, reply = some v → FetchedFor cfg h (cfg.call r).key v (t + 1)
  | .storing v t _ => now ≤ t + opTimeout ∧ .fetched r v t ∈ h
  | .removing (.ok v) | .notifying (.ok v) => ∃ t, .fetched r v t ∈ h
  | _ => True

/-- Every copy of a payload outside the pods goes back to a fetch in the history. -/
structure Traced (cfg : Config n) (s : Cluster n) : Prop where
  shared : ∀ k e, s.shared.lookup k = some e → FetchedFor cfg s.history k e.value e.expiry
  pc : ∀ r, (s.pc r).Traced cfg s.history s.now r

theorem Pc.Traced.mono {h h' : List (Event n)} {now : ℕ} {r : Fin n} {pc : Pc n}
    (hpc : pc.Traced cfg h now r) (hh : h ⊆ h') : pc.Traced cfg h' now r := by
  cases pc with
  | sharedGot t reply =>
    obtain ⟨ht, ht', hv⟩ := hpc
    exact ⟨ht, ht', fun v hr => (hv v hr).mono hh le_rfl⟩
  | storing v t w => exact ⟨hpc.1, hh hpc.2⟩
  | removing res | notifying res =>
    cases res with
    | ok v =>
      obtain ⟨t, ht⟩ := hpc
      exact ⟨t, hh ht⟩
    | error e => trivial
  | _ => exact hpc

theorem Pc.Traced.tick {h : List (Event n)} {now d : ℕ} {r : Fin n} {pc : Pc n}
    (hpc : pc.Traced cfg h now r) (hw : pc.MayWait (now + d)) : pc.Traced cfg h (now + d) r := by
  cases pc with
  | sharedGet t => exact ⟨hpc.1.trans (Nat.le_add_right _ _), hw⟩
  | sharedGot t reply => exact ⟨hpc.1.trans (Nat.le_add_right _ _), hw, hpc.2.2⟩
  | storing v t w => exact ⟨hw, hpc.2⟩
  | removing res | notifying res => cases res <;> exact hpc
  | _ => exact hpc

theorem Pc.Traced.wake {h : List (Event n)} {now : ℕ} {r l : Fin n} {pc : Pc n}
    (hpc : pc.Traced cfg h now r) : (pc.wake l).Traced cfg h now r := by
  cases pc with
  | waiting m =>
    by_cases hm : m = l
    · simp [Pc.wake, hm, Pc.Traced]
    · simp [Pc.wake, hm, Pc.Traced]
  | _ => exact hpc

/-- A step of one request keeps the others traced. -/
theorem Traced.of_update {p : Pc n} {r : Fin n} (hs : Traced cfg s) (hnow : s'.now = s.now)
    (hh : s.history ⊆ s'.history) (hpc : s'.pc = update s.pc r p)
    (hr : p.Traced cfg s'.history s.now r)
    (hshared : ∀ k e, s'.shared.lookup k = some e → s.shared.lookup k = some e ∨
      FetchedFor cfg s'.history k e.value e.expiry) : Traced cfg s' := by
  refine ⟨fun k e he => ?_, fun q => ?_⟩
  · rcases hshared k e he with hold | hnew
    · exact (hs.shared k e hold).mono hh le_rfl
    · exact hnew
  · rw [hpc, hnow]
    by_cases hq : q = r
    · subst hq
      rwa [update_self]
    · rw [update_of_ne hq]
      exact (hs.pc q).mono hh

/-- A reply is read from an entry that has not expired yet. -/
theorem fetchedFor_of_sharedLookup {k v : String} {t : ℕ} (hs : Traced cfg s) (ht : t ≤ s.now)
    (hv : sharedLookup s.shared k s.now = some v) : FetchedFor cfg s.history k v (t + 1) := by
  unfold sharedLookup at hv
  split at hv
  · rename_i e he
    split_ifs at hv with hlt
    obtain rfl := Option.some.inj hv
    exact (hs.shared k e he).mono (List.Subset.refl _) (by omega)
  · cases hv

/-- Every step keeps every copy traced. -/
theorem Traced.step (hs : Traced cfg s) (h : Step cfg s a s') : Traced cfg s' := by
  have hh := h.history_suffix.subset
  cases h with
  | tick d hw => exact ⟨hs.shared, fun r => (hs.pc r).tick (hw r)⟩
  | arriveShared r hr =>
    exact hs.of_update rfl hh rfl ⟨le_rfl, Nat.le_add_right _ _⟩ fun k e he => Or.inl he
  | sharedRead r t hr =>
    have hpc := hs.pc r
    rw [hr] at hpc
    refine hs.of_update rfl hh rfl ⟨hpc.1, hpc.2, fun v hv => ?_⟩ fun k e he => Or.inl he
    exact fetchedFor_of_sharedLookup (s := s) hs hpc.1 hv
  | fetchOk r v c hr hp hc =>
    exact hs.of_update (p := .storing v s.now false) rfl hh rfl
      ⟨Nat.le_add_right _ _, by simp⟩ fun k e he => Or.inl he
  | sharedWrite r v t hr ha ht =>
    have hpc := hs.pc r
    rw [hr] at hpc
    refine hs.of_update (p := .storing v t true) rfl hh rfl hpc fun k e he => ?_
    rw [AssocMap.lookup_insert_eq] at he
    split_ifs at he with hk
    · obtain rfl := Option.some.inj he
      exact Or.inr ⟨r, t, hpc.2, hk.symm, Nat.add_le_add_right hpc.1 _⟩
    · exact Or.inl he
  | storeDone r v t w hr =>
    have hpc := hs.pc r
    rw [hr] at hpc
    exact hs.of_update rfl hh rfl ⟨t, hpc.2⟩ fun k e he => Or.inl he
  | remove r res hr =>
    have hpc := hs.pc r
    rw [hr] at hpc
    refine hs.of_update (p := .notifying res) rfl hh rfl ?_ fun k e he => Or.inl he
    cases res with
    | ok v => exact hpc
    | error e => trivial
  | notifyOk r v hr | notifyErr r e hr =>
    refine Traced.of_update (s := { s with pc := fun q => (s.pc q).wake r }) ?_ rfl hh rfl trivial
      fun k e he => Or.inl he
    exact ⟨hs.shared, fun q => (hs.pc q).wake⟩
  | drop r hr | unwind r hr =>
    refine hs.of_update rfl hh rfl ?_ fun k e he => Or.inl he
    unfold Pc.drop
    split_ifs <;> trivial
  | _ => exact hs.of_update rfl hh rfl trivial fun k e he => Or.inl he

/-- In every state reached every copy goes back to a fetch. -/
theorem Reachable.traced (h : Reachable cfg s) : Traced cfg s :=
  h.invariant (I := Traced cfg) ⟨fun k e he => by simp [Cluster.init] at he, fun _ => trivial⟩
    fun _ _ _ _ hI ha => hI.step (Step.of_step ha)

/-! ### Results -/

/-- What a result of `r` at `t` says about the history before it: the payload was fetched for its
key, by itself if fresh, at most its TTL and two Memcached timeouts ago if cached, and by the
pod's newest successful fetch if stale, whose age in seconds comes with it. -/
def ReturnOk (cfg : Config n) (pre : List (Event n)) (r : Fin n) (t : ℕ) : Fetched → Prop
  | .fresh v => ∃ t', .fetched r v t' ∈ pre
  | .cached v => ∃ r' t', .fetched r' v t' ∈ pre ∧ (cfg.call r').key = (cfg.call r).key ∧
      t' ≤ t ∧ t ≤ t' + (cfg.call r).ttl * second + 2 * opTimeout
  | .stale v age => ∃ r' t', lastFetched cfg (cfg.flight r) pre = some ⟨r', v, t'⟩ ∧
      (cfg.call r').key = (cfg.call r).key ∧ age = (t - t') / second ∧ age ≤ 300
  | .failed _ => True

/-- What a request can return is in order. -/
theorem Reachable.returnOk (h : Reachable cfg s) (httl : cfg.SameTtl) {r : Fin n} {res : Fetched}
    {pre : List (Event n)} (hr : Returns cfg s r res pre) : ReturnOk cfg pre r s.now res := by
  cases hr with
  | shared t v hr =>
    have hpc := h.traced.pc r
    rw [hr] at hpc
    obtain ⟨-, hnow, hv⟩ := hpc
    obtain ⟨r', t', hm, hk, hle⟩ := hv v rfl
    refine ⟨r', t', hm, hk, h.fetched_le hm, ?_⟩
    rw [httl r' r hk] at hle
    omega
  | cached v hr hp hv =>
    obtain ⟨e, he, hlt, rfl⟩ := Cache.get_eq_some_iff.1 hv
    obtain ⟨w, hw, rfl⟩ := h.lastStored_of_lookup he
    obtain ⟨hm, hf⟩ := mem_of_lastStored hw
    have hk : (cfg.call w.leader).key = (cfg.call r).key := (Prod.mk.inj hf).2
    refine ⟨w.leader, w.at_, h.fetched_of_stored hm, hk, h.stored_le hw, ?_⟩
    have hexp : s.now < w.at_ + (cfg.call w.leader).ttl * second := hlt
    rw [httl _ _ hk] at hexp
    omega
  | fresh v hr =>
    have hpc := h.traced.pc r
    rw [hr] at hpc
    obtain ⟨t, ht⟩ := hpc
    exact ⟨t, List.mem_cons_of_mem _ ht⟩
  | stale e v a hr hp hv =>
    obtain ⟨e', he, hle, rfl, rfl⟩ := Cache.getStale_eq_some_iff.1 hv
    obtain ⟨w, hw, rfl⟩ := h.lastStored_of_lookup he
    have hk : (cfg.call w.leader).key = (cfg.call r).key := (Prod.mk.inj (mem_of_lastStored hw).2).2
    refine ⟨w.leader, w.at_, (h.lastFetched_eq hp).trans hw, hk, rfl, ?_⟩
    calc (s.now - w.at_) / second ≤ staleMaxAge / second := Nat.div_le_div_right hle
      _ = 300 := by decide
  | failed e => trivial

/-- **Provenance.** In every run in which the calls for a key use one TTL, every payload returned
was fetched for that key and is within the bounds on its age, whatever the pods, Memcached and
upstream do. -/
theorem returnOk_of_returned (h : Reachable cfg s) (httl : cfg.SameTtl) {post pre : List (Event n)}
    {r : Fin n} {res : Fetched} {t : ℕ} (hs : s.history = post ++ .returned r res t :: pre) :
    ReturnOk cfg pre r t res := by
  refine h.invariant (I := fun s => ∀ post, s.history = post ++ .returned r res t :: pre →
    ReturnOk cfg pre r t res) (by simp [Cluster.init]) ?_ post hs
  intro s a s' hreach ih ha post hs
  have h' : Reachable cfg s := hreach
  rcases (Step.of_step ha).emits hs with ⟨post', hold⟩ | hnew
  · exact ih post' hold
  · cases hnew with
    | returned _ _ _ hret => exact h'.returnOk httl hret

/-- Two pods that share a Memcached, one call each. -/
def twoPods : Config 2 where
  call := ![⟨0, "k", 60⟩, ⟨1, "k", 60⟩]
  shared _ := true

/-- Pod 0 fetches and shares, 20 ms into its call; pod 1 reads the payload a minute later. -/
def sharedRun : List (Action 2) :=
  [.arrive 0, .sharedMiss 0, .lookup 0, .lock 0, .fetch 0, .tick second, .fetchOk 0 "v",
    .tick 20000000, .sharedWrite 0, .storeDone 0, .remove 0, .notify 0, .tick (60 * second - 1),
    .arrive 1, .sharedRead 1, .tick 30000000, .sharedReturn 1]

theorem returnOk_of_returned_sharedRun :
    ∃ s, Transition.run (step twoPods) sharedRun Cluster.init = some s ∧
      ∃ pre, s.history = [] ++ .returned 1 (.cached "v") (61 * second + 49999999) :: pre ∧
        ReturnOk twoPods pre 1 (61 * second + 49999999) (.cached "v") := by
  obtain ⟨s, hs, hhead⟩ : ∃ s, Transition.run (step twoPods) sharedRun Cluster.init = some s ∧
      s.history.head? = some (.returned 1 (.cached "v") (61 * second + 49999999)) :=
    Transition.exists_run_of_any (by decide)
  obtain ⟨pre, hpre⟩ := List.head?_eq_some_iff.1 hhead
  have httl : twoPods.SameTtl := by unfold Config.SameTtl; decide
  have hsplit : s.history = [] ++ .returned 1 (.cached "v") (61 * second + 49999999) :: pre := hpre
  exact ⟨s, hs, pre, hsplit, returnOk_of_returned (Transition.reachable_of_run hs) httl hsplit⟩

end Traintime.Server
