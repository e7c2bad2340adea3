import Traintime.Server.Fetch.Exclusion

/-!
# Requests in flight: abandoned keys

Every registered key has a leader that is still going to remove it and to wake the waiters, and
every waiter waits for such a leader, as long as no request is dropped or unwinds between inserting
its key and removing it. A step in which that happens leaves a key behind that no step removes.

## Main definitions

* `Server.Abandons`: a step in which a leader is dropped or unwinds.
* `Server.KeysAttended`: every key and every waiter has a leader that is still going to release it.

## Main results

* `Server.Step.attended_iff`: a step keeps every key attended unless a leader leaves.
* `Server.keysAttended_iff`: the runs in which every key stays attended.
-/

namespace Traintime.Server

open Function SingleFlight

variable {n : ℕ} {cfg : Config n} {s s' : Cluster n} {a : Action n}

/-- The step drops a leader or makes it unwind. -/
def Abandons (cfg : Config n) (s : Cluster n) : Action n → Prop
  | .drop r | .unwind r => (s.pc r).Leading = true
  | .fetchOk r v => (s.podOf cfg r).poisoned = true ∨ s.cachePut cfg r v = none
  | _ => False

/-- A request is abandoned only by such a step. -/
theorem Step.abandons_of_abandoned (h : Step cfg s a s') {r : Fin n}
    (hr : s'.pc r = .abandoned) (hr' : s.pc r ≠ .abandoned) : Abandons cfg s a := by
  cases h with
  | fetchPanic r v hr hp => exact hp
  | drop q | unwind q =>
    by_cases hq : r = q
    · subst hq
      by_contra hl
      have hl' : ¬ (s.pc r).Leading = true := hl
      simp [Pc.drop, hl'] at hr
    · simp [hq] at hr
      exact absurd hr hr'
  | notifyOk q v hq | notifyErr q v hq =>
    by_cases h : r = q
    · simp [h] at hr
    · simp [h] at hr
      cases hpc : s.pc r <;> simp_all [Pc.wake]
      split_ifs at hr
  | tick => exact absurd hr hr'
  | _ q =>
    by_cases h : r = q
    · simp [h] at hr
    · simp [h] at hr
      exact absurd hr hr'

/-- A step keeps the registry attended exactly if no leader leaves in it. -/
theorem Step.attended_iff (h : Step cfg s a s') (he : Exclusive cfg.flight s.registry)
    (ha : Attended s.registry) : Attended s'.registry ↔ ¬ Abandons cfg s a := by
  constructor
  · intro ha' hab
    cases h with
    | drop r | unwind r =>
      have hl : (s.pc r).Leading = true := hab
      refine absurd ha' (not_attended_of_crash he (r := r) (Pc.role_eq_leading_iff.2 hl) rfl ?_)
      simp [Cluster.registry, Pc.drop, hl, Pc.role]
    | fetchPanic r v hr hp =>
      have ho : ((((s.goto r .abandoned).setPod (cfg.call r).pod
          { s.podOf cfg r with poisoned := true }).record (.fetched r v s.now)).registry).owner =
          s.registry.owner := by
        rw [registry_record, registry_setPod_of_keys (by rfl), registry_goto]
      refine not_attended_of_crash he (r := r) (by simp [Cluster.registry, hr, Pc.role]) ho ?_ ha'
      simp [Cluster.registry, Pc.role]
    | fetchOk r v c hr hp hc => simp [Abandons, hp, hc] at hab
    | _ => exact hab
  · intro hab
    refine ha.step he h.singleFlight fun r hr hr' => hab (h.abandons_of_abandoned (r := r) ?_ ?_)
    · cases hpc : s'.pc r <;> simp_all [Cluster.registry, Pc.role]
    · intro hpc
      simp [Cluster.registry, hpc, Pc.role] at hr

/-! ### Leaders that go on -/

/-- An action with which the leader `l` goes on. -/
def Action.ProceedsFor (l : Fin n) : Action n → Prop
  | .fetch r | .fetchErr r _ | .storeDone r | .remove r | .notify r => r = l
  | _ => False

/-- Going on alone, `l` removes its key and wakes everyone that waits for it. -/
def Releases (cfg : Config n) (s : Cluster n) (l : Fin n) : Prop :=
  ∃ as s', (∀ a ∈ as, a.ProceedsFor l) ∧ Transition.run (step cfg) as s = some s' ∧
    .notified l ∈ s'.history ∧ (s'.podOf cfg l).keys.lookup (cfg.call l).key ≠ some l ∧
    ∀ r, s'.pc r ≠ .waiting l

theorem Releases.cons {l : Fin n} (ha : a.ProceedsFor l) (hs : step cfg s a = some s')
    (h : Releases cfg s' l) : Releases cfg s l := by
  obtain ⟨as, t, has, ht, hl⟩ := h
  refine ⟨a :: as, t, ?_, ?_, hl⟩
  · intro b hb
    rcases List.mem_cons.1 hb with rfl | hb
    · exact ha
    · exact has b hb
  · rw [Transition.run, hs]
    exact ht

/-- A request outside the protocol owns no key and has no waiters. -/
theorem Reachable.released_of_out (h : Reachable cfg s) {l : Fin n} (hl : (s.pc l).role = .out) :
    (s.podOf cfg l).keys.lookup (cfg.call l).key ≠ some l ∧ ∀ r, s.pc r ≠ .waiting l := by
  constructor
  · intro hk
    have hrole := h.exclusive.role_of_owner (cfg.flight l) l hk
    simp [Cluster.registry, hl] at hrole
  · intro r hr
    have hrole := h.exclusive.role_of_waiting r l (by simp [Cluster.registry, hr, Pc.role])
    simp [Cluster.registry, hl] at hrole

theorem releases_of_notifying (h : Reachable cfg s) {l : Fin n} {x : Except String String}
    (hl : s.pc l = .notifying x) : Releases cfg s l := by
  have hnotify : ∃ s', step cfg s (.notify l) = some s' ∧ (s'.pc l).role = .out ∧
      .notified l ∈ s'.history := by
    cases x <;> simp only [step, hl, Option.some.injEq, exists_eq_left'] <;> simp [Pc.role]
  obtain ⟨s', hs, hout, hmem⟩ := hnotify
  have h' : Reachable cfg s' := h.tail hs
  refine ⟨[.notify l], s', ?_, by simp [Transition.run, hs], hmem, h'.released_of_out hout⟩
  intro a ha
  rw [List.mem_singleton.1 ha]
  exact rfl

theorem releases_of_removing (h : Reachable cfg s) {l : Fin n} {x : Except String String}
    (hl : s.pc l = .removing x) : Releases cfg s l := by
  have hs : step cfg s (.remove l) = some ((s.goto l (.notifying x)).setPod (cfg.call l).pod
      { s.podOf cfg l with keys := (s.podOf cfg l).keys.erase (cfg.call l).key }) := by
    simp [step, hl]
  exact .cons (a := .remove l) rfl hs (releases_of_notifying (h.tail hs) (x := x) (by simp))

theorem releases_of_fetching (h : Reachable cfg s) {l : Fin n} (hl : s.pc l = .fetching) :
    Releases cfg s l := by
  have hs : step cfg s (.fetchErr l "") =
      some ((s.goto l (.removing (.error ""))).record (.fetchFailed l "")) := by
    simp [step, hl]
  exact .cons (a := .fetchErr l "") rfl hs
    (releases_of_removing (h.tail hs) (x := .error "") (by simp))

/-- Whatever point a leader has reached, it can go on to release its key. -/
theorem releases_of_leading (h : Reachable cfg s) {l : Fin n} (hl : (s.pc l).Leading = true) :
    Releases cfg s l := by
  cases hpc : s.pc l with
  | registered =>
    have hs : step cfg s (.fetch l) = some ((s.goto l .fetching).record (.fetchStarted l s.now)) := by
      simp [step, hpc]
    exact .cons (a := .fetch l) rfl hs (releases_of_fetching (h.tail hs) (by simp))
  | fetching => exact releases_of_fetching h hpc
  | storing v t w =>
    have hs : step cfg s (.storeDone l) = some (s.goto l (.removing (.ok v))) := by
      simp [step, hpc]
    exact .cons (a := .storeDone l) rfl hs (releases_of_removing (h.tail hs) (x := .ok v) (by simp))
  | removing res => exact releases_of_removing h hpc
  | _ => simp [hpc, Pc.Leading] at hl

/-- Every registered key has a live leader for it that is still going to remove it and to notify,
and so has every request that waits. -/
structure KeysAttended (cfg : Config n) (s : Cluster n) : Prop where
  leader_of_key : ∀ p k l, (s.pod p).keys.lookup k = some l →
    cfg.flight l = (p, k) ∧ (s.pc l).Leading = true ∧ Releases cfg s l
  leader_of_waiting : ∀ r l, s.pc r = .waiting l →
    ((s.pc l).Leading = true ∨ ∃ res, s.pc l = .notifying res) ∧ Releases cfg s l

theorem Pc.role_eq_releasing_iff {pc : Pc n} :
    pc.role = .releasing ↔ ∃ res, pc = .notifying res := by
  cases pc <;> simp [Pc.role]

theorem Pc.role_eq_waiting_iff {pc : Pc n} {l : Fin n} :
    pc.role = .waiting l ↔ pc = .waiting l := by
  cases pc <;> simp [Pc.role]

/-- Attended keys are what the single-flight protocol calls an attended registry. -/
theorem Reachable.keysAttended_iff (h : Reachable cfg s) :
    KeysAttended cfg s ↔ Attended s.registry := by
  constructor
  · intro ha
    refine ⟨fun k l hl => ?_, fun r l hr => ?_⟩
    · exact Pc.role_eq_leading_iff.2 (ha.leader_of_key k.1 k.2 l hl).2.1
    · have hl := (ha.leader_of_waiting r l (Pc.role_eq_waiting_iff.1 hr)).1
      exact hl.imp Pc.role_eq_leading_iff.2 Pc.role_eq_releasing_iff.2
  · intro ha
    refine ⟨fun p k l hl => ?_, fun r l hr => ?_⟩
    · have hlead := Pc.role_eq_leading_iff.1 (ha.leading_of_owner (p, k) l hl)
      exact ⟨h.flight_of_owner hl, hlead, releases_of_leading h hlead⟩
    · have hl : (s.pc l).Leading = true ∨ ∃ res, s.pc l = .notifying res :=
        (ha.leading_of_waiting r l (Pc.role_eq_waiting_iff.2 hr)).imp Pc.role_eq_leading_iff.1
          Pc.role_eq_releasing_iff.1
      refine ⟨hl, ?_⟩
      rcases hl with hlead | ⟨res, hres⟩
      · exact releases_of_leading h hlead
      · exact releases_of_notifying h hres

theorem keysAttended_init : KeysAttended cfg Cluster.init := by
  have h : Reachable cfg Cluster.init := Transition.Reachable.refl
  exact h.keysAttended_iff.2 (attended_init (fun _ => rfl) fun _ => rfl)

/-- **No orphaned key.** In every state of a run every registered key has a live leader that is
still going to remove it and to notify, exactly if no request of the run is dropped or unwinds
between inserting its key and removing it. -/
theorem keysAttended_along_iff {as : List (Action n)}
    (h : Transition.run (step cfg) as Cluster.init = some s) :
    (∀ bs t, bs <+: as → Transition.run (step cfg) bs Cluster.init = some t →
        KeysAttended cfg t) ↔
      ∀ bs a t, bs ++ [a] <+: as → Transition.run (step cfg) bs Cluster.init = some t →
        ¬ Abandons cfg t a := by
  refine Transition.invariant_along_iff h keysAttended_init fun t a t' ht hI ha => ?_
  have hr : Reachable cfg t := ht
  have hr' : Reachable cfg t' := ht.tail ha
  rw [hr'.keysAttended_iff]
  exact (Step.of_step ha).attended_iff hr.exclusive (hr.keysAttended_iff.1 hI)

/-- Two requests of one pod for one key. -/
def twoCalls : Config 2 where
  call _ := ⟨0, "k", 60⟩
  shared _ := false

/-- Request 0 fetches, request 1 joins it, the fetch fails and both go on. -/
def attendedRun : List (Action 2) :=
  [.arrive 0, .arrive 1, .lookup 0, .lookup 1, .lock 0, .lock 1, .fetch 0, .fetchErr 0 "boom",
    .remove 0, .notify 0]

theorem keysAttended_along_attendedRun :
    (Transition.run (step twoCalls) attendedRun Cluster.init).isSome = true ∧
      ((∀ bs t, bs <+: attendedRun → Transition.run (step twoCalls) bs Cluster.init = some t →
          KeysAttended twoCalls t) ↔
        ∀ bs a t, bs ++ [a] <+: attendedRun →
          Transition.run (step twoCalls) bs Cluster.init = some t → ¬ Abandons twoCalls t a) := by
  have hrun : (Transition.run (step twoCalls) attendedRun Cluster.init).isSome = true := by decide
  exact ⟨hrun, keysAttended_along_iff (Option.some_get hrun).symm⟩

/-- The client of request 0 disconnects during its fetch, then request 1 joins that fetch. -/
def abandonedRun : List (Action 2) :=
  [.arrive 0, .lookup 0, .lock 0, .fetch 0, .drop 0, .arrive 1, .lookup 1, .lock 1]

/-- Request 1 waits for request 0, which is gone, and the key stays registered. -/
theorem not_keysAttended_abandonedRun :
    ∃ s, Transition.run (step twoCalls) abandonedRun Cluster.init = some s ∧
      s.pc 1 = .waiting 0 ∧ s.pc 0 = .abandoned ∧ ¬ KeysAttended twoCalls s := by
  obtain ⟨s, hs, h₁, h₀⟩ : ∃ s, Transition.run (step twoCalls) abandonedRun Cluster.init = some s ∧
      s.pc 1 = .waiting 0 ∧ s.pc 0 = .abandoned := Transition.exists_run_of_any (by decide)
  refine ⟨s, hs, h₁, h₀, fun ha => ?_⟩
  simpa [h₀, Pc.Leading] using (ha.leader_of_waiting 1 0 h₁).1

end Traintime.Server
