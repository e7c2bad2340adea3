import Mathlib.Data.Fin.VecNotation
import Traintime.Lib.SingleFlight
import Traintime.Server.Fetch.Steps

/-!
# Requests in flight: exclusion and wakeups

The keys and the program points of a cluster form a single-flight registry, whose keys are the
pairs of a pod and a cache key, and every step of the cluster is a step of that protocol.
Exclusion holds in every run, whatever is dropped or unwinds: at most one request of a pod
fetches a key, and a request waits for a request of its own pod and key.

## Main definitions

* `Server.Cluster.registry`: the single-flight registry of a cluster.
* `Server.Pc.Finished`: the points after which a request wakes nobody.

## Main results

* `Server.Step.singleFlight`: the cluster refines the single-flight protocol.
* `Server.Reachable.exclusive`: the invariant of all runs.
* `Server.fetch_exclusive`: one fetch for each key, and nobody waits for another key's.
* `Server.Reachable.not_waiting_of_notified`: no request waits for one that has notified.
-/

namespace Traintime.Server

open Function SingleFlight

variable {n : ℕ} {cfg : Config n} {s s' : Cluster n} {a : Action n}

/-! ### The registry of a cluster -/

/-- What a request at this point is to the registry. -/
def Pc.role : Pc n → Role (Fin n)
  | .registered | .fetching | .storing _ _ _ | .removing _ => .leading
  | .notifying _ => .releasing
  | .waiting l => .waiting l
  | .woken l => .woken l
  | .abandoned => .gone
  | _ => .out

/-- The single-flight registry of a cluster: the leader that is registered for a pod and a key, and
the role of each request. -/
def Cluster.registry (s : Cluster n) : Registry (ℕ × String) (Fin n) where
  owner k := (s.pod k.1).keys.lookup k.2
  role r := (s.pc r).role

theorem Pc.role_eq_leading_iff {pc : Pc n} : pc.role = .leading ↔ pc.Leading = true := by
  cases pc <;> simp [Pc.role, Pc.Leading]

theorem registry_goto (r : Fin n) (pc : Pc n) :
    (s.goto r pc).registry = { s.registry with role := update s.registry.role r pc.role } := by
  simp only [Cluster.registry, Cluster.goto, Registry.mk.injEq, true_and]
  funext q
  by_cases h : q = r
  · subst h
    simp
  · simp [h]

@[simp] theorem registry_record (e : Event n) : (s.record e).registry = s.registry := rfl

@[simp] theorem registry_return (r : Fin n) (res : Fetched) :
    (s.return_ r res).registry = { s.registry with role := update s.registry.role r .out } := by
  rw [Cluster.return_, registry_record, registry_goto]
  rfl

theorem registry_setPod_of_keys {p : ℕ} {x : Pod n} (hx : x.keys = (s.pod p).keys) :
    (s.setPod p x).registry = s.registry := by
  simp only [Cluster.registry, Cluster.setPod, Registry.mk.injEq, and_true]
  funext k
  by_cases h : k.1 = p
  · rw [h, update_self, hx]
  · rw [update_of_ne h]

theorem registry_setPod_insert {p : ℕ} {x : Pod n} {k : String} {r : Fin n}
    (hx : x.keys = (s.pod p).keys.insert k r) :
    (s.setPod p x).registry =
      { s.registry with owner := update s.registry.owner (p, k) (some r) } := by
  simp only [Cluster.registry, Cluster.setPod, Registry.mk.injEq, and_true]
  funext ⟨p', k'⟩
  by_cases hp : p' = p
  · subst hp
    simp only [update_self, hx, AssocMap.lookup_insert_eq, update_apply, Prod.mk.injEq, true_and]
  · simp [hp]

theorem registry_setPod_erase {p : ℕ} {x : Pod n} {k : String}
    (hx : x.keys = (s.pod p).keys.erase k) :
    (s.setPod p x).registry =
      { s.registry with owner := update s.registry.owner (p, k) none } := by
  simp only [Cluster.registry, Cluster.setPod, Registry.mk.injEq, and_true]
  funext ⟨p', k'⟩
  by_cases hp : p' = p
  · subst hp
    simp only [update_self, hx, AssocMap.lookup_erase_eq, update_apply, Prod.mk.injEq, true_and]
  · simp [hp]

theorem Pc.role_wake (r : Fin n) (pc : Pc n) : (pc.wake r).role = pc.role.wake r := by
  cases pc with
  | waiting l => by_cases h : l = r <;> simp [Pc.wake, Pc.role, Role.wake, h]
  | _ => rfl

theorem registry_wake (r : Fin n) :
    ({ s with pc := fun q => (s.pc q).wake r } : Cluster n).registry =
      { s.registry with role := fun q => (s.registry.role q).wake r } := by
  simp only [Cluster.registry, Pc.role_wake]

/-- A request outside the critical points may move to any point outside the protocol. -/
theorem singleFlight_leave {r : Fin n} {pc : Pc n} (hpc : pc.role = .out)
    (h₁ : (s.pc r).role ≠ .leading) (h₂ : (s.pc r).role ≠ .releasing)
    (h₃ : (s.pc r).role ≠ .gone) :
    SingleFlight.Step cfg.flight s.registry (s.goto r pc).registry := by
  rw [registry_goto, hpc]
  exact .leave _ r h₁ h₂ h₃

/-- A request that keeps its role takes no step of the protocol. -/
theorem registry_goto_of_role {r : Fin n} {pc : Pc n} (h : pc.role = (s.pc r).role) :
    (s.goto r pc).registry = s.registry := by
  rw [registry_goto, h]
  exact congrArg (Registry.mk _) (update_eq_self r _)

/-- Dropping a request is leaving, or crashing for a leader. -/
theorem singleFlight_drop {r : Fin n} (hr : (s.pc r).role ≠ .releasing)
    (hr' : (s.pc r).role ≠ .gone) :
    SingleFlight.Step cfg.flight s.registry (s.goto r (s.pc r).drop).registry := by
  by_cases hl : (s.pc r).Leading = true
  · rw [registry_goto, Pc.drop, if_pos hl]
    exact .crash _ r (Pc.role_eq_leading_iff.2 hl)
  · rw [Pc.drop, if_neg hl]
    exact singleFlight_leave rfl (fun h => hl (Pc.role_eq_leading_iff.1 h)) hr hr'

/-- **Refinement.** Every step of the cluster is a step of the single-flight protocol. -/
theorem Step.singleFlight (h : Step cfg s a s') :
    SingleFlight.Step cfg.flight s.registry s'.registry := by
  cases h with
  | tick => exact .idle _
  | arriveShared r hr | arrive r hr | sharedRead r t hr | sharedMissGet r t hr
  | sharedMissGot r t reply hr | lookupMiss r hr | resumeMiss r l hr | readMiss r e hr =>
    exact singleFlight_leave rfl (by simp [hr, Pc.role]) (by simp [hr, Pc.role])
      (by simp [hr, Pc.role])
  | sharedReturn r t v hr | lookupHit r v hr | resumeHit r l v hr | readHit r e v hr
  | staleHit r e v a hr | staleMiss r e hr =>
    exact singleFlight_leave rfl (by simp [hr, Pc.role]) (by simp [hr, Pc.role])
      (by simp [hr, Pc.role])
  | join r l hr hl =>
    rw [registry_record, registry_goto]
    exact .join _ r l (by simp [Cluster.registry, hr, Pc.role]) hl
  | register r hr hl =>
    rw [registry_setPod_insert rfl, registry_goto]
    exact .register _ r (by simp [Cluster.registry, hr, Pc.role]) hl
  | fetch r hr =>
    rw [registry_record, registry_goto_of_role (by simp [hr, Pc.role])]
    exact .idle _
  | fetchOk r v c hr hp hc =>
    rw [registry_record, registry_record, registry_setPod_of_keys (by rfl),
      registry_goto_of_role (by simp [hr, Pc.role])]
    exact .idle _
  | fetchPanic r v hr hp =>
    rw [registry_record, registry_setPod_of_keys (by rfl), registry_goto]
    exact .crash _ r (by simp [Cluster.registry, hr, Pc.role])
  | fetchErr r e hr =>
    rw [registry_record, registry_goto_of_role (by simp [hr, Pc.role])]
    exact .idle _
  | sharedWrite r v t hr ha ht =>
    have hrole : (s.goto r (.storing v t true)).registry = s.registry :=
      registry_goto_of_role (by simp [hr, Pc.role])
    exact hrole ▸ .idle _
  | storeDone r v t w hr =>
    rw [registry_goto_of_role (by simp [hr, Pc.role])]
    exact .idle _
  | remove r res hr =>
    rw [registry_setPod_erase rfl, registry_goto]
    exact .release _ r (by simp [Cluster.registry, hr, Pc.role])
  | notifyOk r v hr =>
    rw [registry_return, registry_record, registry_wake]
    exact .wake _ r (by simp [Cluster.registry, hr, Pc.role])
  | notifyErr r e hr =>
    rw [registry_goto, registry_record, registry_wake]
    exact .wake _ r (by simp [Cluster.registry, hr, Pc.role])
  | drop r hr =>
    refine singleFlight_drop ?_ ?_ <;> intro h <;> cases hpc : s.pc r <;>
      simp_all [Pc.role, Pc.Awaiting]
  | unwind r hr =>
    refine singleFlight_drop ?_ ?_ <;> intro h <;> cases hpc : s.pc r <;>
      simp_all [Pc.role, Pc.LocksCache]

/-! ### Invariants of all runs -/

/-- The registry of every state reached is exclusive. -/
theorem Reachable.exclusive (h : Reachable cfg s) : Exclusive cfg.flight s.registry :=
  h.invariant (I := fun s => Exclusive cfg.flight s.registry)
    (exclusive_init (fun _ => rfl) fun _ => rfl)
    fun _ _ _ _ hI ha => hI.step (Step.of_step ha).singleFlight

/-- The leader of a fetch in progress is unique for its pod and key. -/
theorem Reachable.fetching_unique (h : Reachable cfg s) {r r' : Fin n} (hr : s.pc r = .fetching)
    (hr' : s.pc r' = .fetching) (hk : cfg.flight r = cfg.flight r') : r = r' :=
  h.exclusive.leading_unique (by simp [Cluster.registry, hr, Pc.role])
    (by simp [Cluster.registry, hr', Pc.role]) hk

/-- A request joins a fetch for its own pod and key. -/
theorem Reachable.flight_of_joined (h : Reachable cfg s) {r l : Fin n}
    (hr : s.pc r = .waiting l ∨ s.pc r = .woken l) : cfg.flight l = cfg.flight r := by
  rcases hr with hr | hr
  · exact h.exclusive.key_of_waiting r l (by simp [Cluster.registry, hr, Pc.role])
  · exact h.exclusive.key_of_woken r l (by simp [Cluster.registry, hr, Pc.role])

/-- The owner of a registered key is a request for that key on that pod. -/
theorem Reachable.flight_of_owner (h : Reachable cfg s) {p : ℕ} {k : String} {l : Fin n}
    (hl : (s.pod p).keys.lookup k = some l) : cfg.flight l = (p, k) :=
  h.exclusive.key_of_owner (p, k) l hl

/-! ### Wakeups -/

/-- The request has woken its waiters, or has nothing to wake. -/
def Pc.Finished : Pc n → Bool
  | .reading _ | .readingStale _ | .done _ | .dropped => true
  | _ => false

theorem Step.finished (h : Step cfg s a s') {r : Fin n} (hr : (s.pc r).Finished = true) :
    (s'.pc r).Finished = true := by
  cases h with
  | tick => exact hr
  | drop q hq =>
    by_cases h : r = q
    · subst h
      cases hpc : s.pc r <;> simp_all [Pc.Finished, Pc.Awaiting]
    · simpa [h] using hr
  | unwind q hq =>
    by_cases h : r = q
    · subst h
      cases hpc : s.pc r <;> simp_all [Pc.Finished, Pc.LocksCache, Pc.drop, Pc.Leading]
    · simpa [h] using hr
  | notifyOk q v hq | notifyErr q e hq =>
    by_cases h : r = q
    · simp [h, Pc.Finished]
    · simp only [Cluster.return_pc, Cluster.goto_pc, Cluster.record_pc, update_of_ne h]
      cases hpc : s.pc r <;> simp_all [Pc.Finished, Pc.wake]
  | _ q =>
    by_cases h : r = q
    · subst h
      simp_all [Pc.Finished]
    · simpa [h] using hr

/-- A request that has notified is finished with its key. -/
theorem Reachable.finished_of_notified (h : Reachable cfg s) {l : Fin n}
    (hl : .notified l ∈ s.history) : (s.pc l).Finished = true := by
  refine h.invariant (I := fun s => .notified l ∈ s.history → (s.pc l).Finished = true)
    (by simp [Cluster.init]) ?_ hl
  rintro s a s' - ih ha hmem
  have hstep := Step.of_step ha
  by_cases hold : .notified l ∈ s.history
  · exact hstep.finished (ih hold)
  · cases hstep with
    | notifyOk r v hr | notifyErr r e hr =>
      simp [hold] at hmem
      simp [hmem, Pc.Finished]
    | _ => simp [hold] at hmem

/-- **No lost wakeup.** No request is suspended on a `Notify` whose leader has notified. -/
theorem Reachable.not_waiting_of_notified (h : Reachable cfg s) {l : Fin n}
    (hl : .notified l ∈ s.history) (r : Fin n) : s.pc r ≠ .waiting l := by
  intro hr
  have hfin := h.finished_of_notified hl
  have hrole := h.exclusive.role_of_waiting r l (by simp [Cluster.registry, hr, Pc.role])
  cases hpc : s.pc l <;> simp_all [Cluster.registry, Pc.role, Pc.Finished]

/-! ### Exclusion -/

/-- A request that missed can take its lock step in every state. -/
theorem lock_possible {r : Fin n} (hr : s.pc r = .missed) :
    ∃ s', step cfg s (.lock r) = some s' := by
  simp only [step, hr]
  split
  · exact ⟨_, rfl⟩
  · exact ⟨_, rfl⟩

/-- **Exclusion.** In every state of every run, at most one request fetches a key of a pod. A
request that joined a fetch joined one for its own key, and one that has not joined a fetch yet is
held up by none. -/
theorem fetch_exclusive (h : Reachable cfg s) :
    (∀ r r', s.pc r = .fetching → s.pc r' = .fetching → cfg.flight r = cfg.flight r' → r = r') ∧
    (∀ r l, s.pc r = .waiting l ∨ s.pc r = .woken l → cfg.flight l = cfg.flight r) ∧
    ∀ r, s.pc r = .missed → ∃ s', step cfg s (.lock r) = some s' :=
  ⟨fun _ _ hr hr' hk => h.fetching_unique hr hr' hk, fun _ _ hr => h.flight_of_joined hr,
    fun _ hr => lock_possible hr⟩

/-- Three requests of one pod, the last one for another key. -/
def threeCalls : Config 3 where
  call := ![⟨0, "a", 60⟩, ⟨0, "a", 60⟩, ⟨0, "b", 60⟩]
  shared _ := false

/-- A run in which request 1 joins the fetch of request 0 and request 2 fetches another key. -/
def joinedRun : List (Action 3) :=
  [.arrive 0, .arrive 1, .arrive 2, .lookup 0, .lookup 1, .lookup 2, .lock 0, .lock 1, .lock 2,
    .fetch 0, .fetch 2]

theorem fetch_exclusive_joinedRun :
    ∃ s, (Transition.run (step threeCalls) joinedRun Cluster.init = some s ∧
      s.pc 0 = .fetching ∧ s.pc 1 = .waiting 0 ∧ s.pc 2 = .fetching) ∧
      (∀ r r', s.pc r = .fetching → s.pc r' = .fetching →
        threeCalls.flight r = threeCalls.flight r' → r = r') ∧
      (∀ r l, s.pc r = .waiting l ∨ s.pc r = .woken l →
        threeCalls.flight l = threeCalls.flight r) ∧
      ∀ r, s.pc r = .missed → ∃ s', step threeCalls s (.lock r) = some s' := by
  obtain ⟨s, hs, hp⟩ : ∃ s, Transition.run (step threeCalls) joinedRun Cluster.init = some s ∧
      s.pc 0 = .fetching ∧ s.pc 1 = .waiting 0 ∧ s.pc 2 = .fetching :=
    Transition.exists_run_of_any (by decide)
  exact ⟨s, ⟨hs, hp⟩, fetch_exclusive (Transition.reachable_of_run hs)⟩

end Traintime.Server
