import Traintime.Server.Fetch.Attendance

/-!
# Requests in flight: progress

A request takes a bounded number of steps, whatever the others do, and as long as no leader is
dropped or unwinds between inserting its key and removing it, some request can go on until all are
over. So no schedule keeps a request waiting for ever, unless a fetch never resolves: requests that
wait for one another's fetches do not block each other.

## Main definitions

* `Server.Pc.rank`: how many steps a request may still take.
* `Server.Pc.Over`: the points at which a request is over.
* `Server.CanGoOn`: the request can take a step of its own accord.
* `Server.Unabandoned`: the runs in which no leader leaves.

## Main results

* `Server.Step.rank_lt`: a step of a request uses up one of its steps, and gives none to others.
* `Server.canGoOn_or_waiting`: a request that is not over can go on or waits for another one.
* `Server.all_answered`: every run is short, and one that cannot go on has answered every request.
-/

namespace Traintime.Server

open Function SingleFlight

variable {n : ℕ} {cfg : Config n} {s s' : Cluster n} {a : Action n} {as : List (Action n)}

/-! ### How far a request can go -/

/-- The number of steps that a request may still take. -/
def Pc.rank : Pc n → ℕ
  | .idle => 11
  | .sharedGet _ => 10
  | .sharedGot _ _ => 9
  | .lookingUp => 8
  | .missed => 7
  | .registered => 6
  | .fetching => 5
  | .storing _ _ false | .removing (.error _) => 4
  | .storing _ _ true | .notifying (.error _) | .waiting _ => 3
  | .removing (.ok _) | .woken _ | .reading _ => 2
  | .notifying (.ok _) | .readingStale _ => 1
  | .done _ | .dropped | .abandoned => 0

theorem Pc.rank_wake_le (r : Fin n) (pc : Pc n) : (pc.wake r).rank ≤ pc.rank := by
  cases pc with
  | waiting l => by_cases hl : l = r <;> simp [Pc.wake, hl, Pc.rank]
  | _ => exact le_rfl

/-- A request that moves alone to a point of a lower rank. -/
theorem rank_goto {r : Fin n} {pc : Pc n} {f : Fin n → Pc n} (hf : f = update s.pc r pc)
    (h : pc.rank < (s.pc r).rank) :
    (f r).rank < (s.pc r).rank ∧ ∀ q, (f q).rank ≤ (s.pc q).rank := by
  subst hf
  refine ⟨by simpa using h, fun q => ?_⟩
  by_cases hq : q = r
  · subst hq
    simpa using h.le
  · simp [hq]

/-- A request that moves to a point of a lower rank and wakes others. -/
theorem rank_wake_goto {r : Fin n} {pc : Pc n} {f : Fin n → Pc n}
    (hf : f = update (fun q => (s.pc q).wake r) r pc) (h : pc.rank < (s.pc r).rank) :
    (f r).rank < (s.pc r).rank ∧ ∀ q, (f q).rank ≤ (s.pc q).rank := by
  subst hf
  refine ⟨by simpa using h, fun q => ?_⟩
  by_cases hq : q = r
  · subst hq
    simpa using h.le
  · simpa [hq] using Pc.rank_wake_le r (s.pc q)

theorem Pc.rank_drop_lt {pc : Pc n} (h : pc.Awaiting = true ∨ pc.LocksCache = true) :
    pc.drop.rank < pc.rank := by
  have hdrop : pc.drop.rank = 0 := by
    unfold Pc.drop
    split_ifs <;> rfl
  rw [hdrop]
  cases pc with
  | storing v t w => cases w <;> simp [Pc.rank]
  | removing res => cases res <;> simp [Pc.rank]
  | _ => simp_all [Pc.Awaiting, Pc.LocksCache, Pc.rank]

/-- A step of a request uses up one of its steps, and gives none to others. -/
theorem Step.rank_lt (h : Step cfg s a s') {r : Fin n} (hr : a.subject = some r) :
    (s'.pc r).rank < (s.pc r).rank ∧ ∀ q, (s'.pc q).rank ≤ (s.pc q).rank := by
  cases h with
  | tick => cases hr
  | notifyOk q v hq | notifyErr q v hq =>
    obtain rfl := Option.some.inj hr
    exact rank_wake_goto rfl (by rw [hq]; simp [Pc.rank])
  | drop q hq =>
    obtain rfl := Option.some.inj hr
    exact rank_goto rfl (Pc.rank_drop_lt (.inl hq))
  | unwind q hq =>
    obtain rfl := Option.some.inj hr
    refine rank_goto rfl (Pc.rank_drop_lt (hq.imp (fun hq => ?_) And.left))
    rw [hq]
    rfl
  | storeDone q v t w hq =>
    obtain rfl := Option.some.inj hr
    exact rank_goto rfl (by rw [hq]; cases w <;> simp [Pc.rank])
  | remove q res hq =>
    obtain rfl := Option.some.inj hr
    exact rank_goto rfl (by rw [hq]; cases res <;> simp [Pc.rank])
  | _ q =>
    obtain rfl := Option.some.inj hr
    exact rank_goto rfl (by rw [‹s.pc q = _›]; simp [Pc.rank])

theorem Step.rank_le (h : Step cfg s a s') (q : Fin n) : (s'.pc q).rank ≤ (s.pc q).rank := by
  cases hr : a.subject with
  | none =>
    cases h with
    | tick => exact le_rfl
    | _ => cases hr
  | some r => exact (h.rank_lt hr).2 q

/-- The steps that a request has taken in a run. -/
def stepsOf (r : Fin n) (as : List (Action n)) : ℕ :=
  as.countP fun a => decide (a.subject = some r)

/-- The steps that a request has taken and those that it may still take. -/
theorem stepsOf_add_rank_le (h : Transition.run (step cfg) as Cluster.init = some s) (r : Fin n) :
    stepsOf r as + (s.pc r).rank ≤ 11 := by
  refine Transition.run_invariant (I := fun as s => stepsOf r as + (s.pc r).rank ≤ 11)
    (by simp [stepsOf, Cluster.init, Pc.rank]) ?_ h
  intro as a s s' _ ih ha
  rw [stepsOf, List.countP_append, List.countP_singleton]
  rw [stepsOf] at ih
  split_ifs with hr
  · have := ((Step.of_step ha).rank_lt (of_decide_eq_true hr)).1
    omega
  · have := (Step.of_step ha).rank_le r
    omega

/-! ### Some request can go on -/

/-- The request is over: it has returned, or its client went away. -/
def Pc.Over : Pc n → Prop
  | .done _ | .dropped => True
  | _ => False

/-- The client of a request goes away. -/
def Action.ByClient : Action n → Prop
  | .drop _ => True
  | _ => False

/-- A request can take a step of its own accord that leaves no key behind. -/
def CanGoOn (cfg : Config n) (s : Cluster n) (r : Fin n) : Prop :=
  ∃ a, a.subject = some r ∧ ¬ a.ByClient ∧ ¬ Abandons cfg s a ∧ (step cfg s a).isSome = true

/-- A request that is about to lock the cache goes on, whatever it finds there. -/
theorem canGoOn_of_locksCache {r : Fin n} (h : (s.pc r).LocksCache = true) : CanGoOn cfg s r := by
  cases hp : (s.podOf cfg r).poisoned with
  | true =>
    have hl : ¬ (s.pc r).Leading = true := by
      cases hpc : s.pc r <;> simp_all [Pc.LocksCache, Pc.Leading]
    exact ⟨.unwind r, rfl, id, hl, by simp [step, h, hp]⟩
  | false =>
    cases hpc : s.pc r with
    | lookingUp =>
      refine ⟨.lookup r, rfl, id, id, ?_⟩
      cases hv : s.cacheGet cfg r <;> simp [step, hpc, hp, hv]
    | woken l =>
      refine ⟨.resume r, rfl, id, id, ?_⟩
      cases hv : s.cacheGet cfg r <;> simp [step, hpc, hp, hv]
    | reading e =>
      refine ⟨.read r, rfl, id, id, ?_⟩
      cases hv : s.cacheGet cfg r <;> simp [step, hpc, hp, hv]
    | readingStale e =>
      refine ⟨.readStale r, rfl, id, id, ?_⟩
      cases hv : s.cacheGetStale cfg r <;> simp [step, hpc, hp, hv]
    | _ => simp [hpc, Pc.LocksCache] at h

/-- A request that works for its key or is about to wake others can go on by itself. -/
theorem canGoOn_of_leading {r : Fin n}
    (h : (s.pc r).Leading = true ∨ ∃ res, s.pc r = .notifying res) : CanGoOn cfg s r := by
  rcases h with h | ⟨res, h⟩
  · cases hpc : s.pc r with
    | registered => exact ⟨.fetch r, rfl, id, id, by simp [step, hpc]⟩
    | fetching => exact ⟨.fetchErr r "", rfl, id, id, by simp [step, hpc]⟩
    | storing v t w => exact ⟨.storeDone r, rfl, id, id, by simp [step, hpc]⟩
    | removing res => exact ⟨.remove r, rfl, id, id, by simp [step, hpc]⟩
    | _ => simp [hpc, Pc.Leading] at h
  · exact ⟨.notify r, rfl, id, id, by cases res <;> simp [step, h]⟩

/-- A request that is not over can go on by itself, or waits for another one. -/
theorem canGoOn_or_waiting {r : Fin n} (hover : ¬ (s.pc r).Over) (hab : s.pc r ≠ .abandoned) :
    CanGoOn cfg s r ∨ ∃ l, s.pc r = .waiting l := by
  cases hpc : s.pc r with
  | idle => exact .inl ⟨.arrive r, rfl, id, id, by simp [step, hpc]⟩
  | sharedGet t | sharedGot t reply => exact .inl ⟨.sharedMiss r, rfl, id, id, by simp [step, hpc]⟩
  | missed =>
    refine .inl ⟨.lock r, rfl, id, id, ?_⟩
    cases hl : (s.podOf cfg r).keys.lookup (cfg.call r).key <;> simp [step, hpc, hl]
  | lookingUp | woken l | reading e | readingStale e =>
    exact .inl (canGoOn_of_locksCache (by rw [hpc]; rfl))
  | registered | fetching | storing v t w | removing res =>
    exact .inl (canGoOn_of_leading (.inl (by rw [hpc]; rfl)))
  | notifying res => exact .inl (canGoOn_of_leading (.inr ⟨res, hpc⟩))
  | waiting l => exact .inr ⟨l, rfl⟩
  | done res | dropped => exact absurd (by rw [hpc]; trivial) hover
  | abandoned => exact absurd hpc hab

/-- Unless all requests are over, one of them can go on. -/
theorem KeysAttended.exists_canGoOn (ha : KeysAttended cfg s) (hab : ∀ r, s.pc r ≠ .abandoned)
    {r : Fin n} (hr : ¬ (s.pc r).Over) : ∃ q, CanGoOn cfg s q := by
  rcases canGoOn_or_waiting hr (hab r) with h | ⟨l, hl⟩
  · exact ⟨r, h⟩
  · exact ⟨l, canGoOn_of_leading (ha.leader_of_waiting r l hl).1⟩

/-! ### Runs in which no leader leaves -/

/-- The run has no step in which a leader is dropped or unwinds. -/
def Unabandoned (cfg : Config n) (as : List (Action n)) : Prop :=
  ∀ bs a t, bs ++ [a] <+: as → Transition.run (step cfg) bs Cluster.init = some t →
    ¬ Abandons cfg t a

/-- The pods work and every key has its leader, and a request that is over was answered or left. -/
structure Sound (cfg : Config n) (as : List (Action n)) (s : Cluster n) : Prop where
  attended : KeysAttended cfg s
  present : ∀ r, s.pc r ≠ .abandoned
  healthy : ∀ p, (s.pod p).poisoned = false
  left : ∀ r, s.pc r = .dropped → .drop r ∈ as

theorem poisoned_setPod {p : ℕ} {x : Pod n} (hx : x.poisoned = (s.pod p).poisoned) (q : ℕ) :
    ((s.setPod p x).pod q).poisoned = (s.pod q).poisoned := by
  by_cases h : q = p
  · subst h
    simpa using hx
  · simp [h]

/-- A pod is poisoned only when a put panics. -/
theorem Step.poisoned_eq (h : Step cfg s a s') (hab : ¬ Abandons cfg s a) (p : ℕ) :
    (s'.pod p).poisoned = (s.pod p).poisoned := by
  cases h with
  | fetchPanic r v hr hp => exact absurd hp hab
  | register r | fetchOk r | remove r => exact poisoned_setPod (by rfl) p
  | _ => rfl

/-- A request outside its own step is dropped only if it was before. -/
theorem Step.subject_of_dropped (h : Step cfg s a s') {r : Fin n} (hr : s'.pc r = .dropped)
    (hr' : s.pc r ≠ .dropped) : a.subject = some r := by
  by_contra hne
  rcases h.pc_of_ne hne with hpc | ⟨l, -, hpc⟩
  · exact hr' (hpc ▸ hr)
  · rw [hpc] at hr
    cases hr

/-- With no pod poisoned and no leader leaving, a request is dropped by its client. -/
theorem Step.eq_drop (h : Step cfg s a s') (hp : ∀ p, (s.pod p).poisoned = false)
    (hab : ¬ Abandons cfg s a) {r : Fin n} (hr : s'.pc r = .dropped) (hr' : s.pc r ≠ .dropped) :
    a = .drop r := by
  have hsub := h.subject_of_dropped hr hr'
  cases h with
  | tick => cases hsub
  | drop q hq => exact congrArg _ (Option.some.inj hsub)
  | unwind q hq =>
    rcases hq with hq | ⟨-, hq⟩
    · have hl : (s.pc q).Leading = true := by rw [hq]; rfl
      exact absurd hl hab
    · rw [Cluster.podOf, hp] at hq
      cases hq
  | _ q =>
    obtain rfl := Option.some.inj hsub
    simp at hr

/-- The invariant of the runs in which no leader leaves. -/
theorem sound_of_run (h : Transition.run (step cfg) as Cluster.init = some s)
    (hab : Unabandoned cfg as) : Sound cfg as s := by
  revert hab
  refine Transition.run_invariant (I := fun as s => Unabandoned cfg as → Sound cfg as s) ?_ ?_ h
  · exact fun _ => ⟨keysAttended_init, nofun, fun _ => rfl, nofun⟩
  · intro as a s s' hs ih ha hab
    obtain ⟨hatt, hpre, hheal, hleft⟩ := ih fun bs b t hb => hab bs b t (hb.trans (by simp))
    have hna : ¬ Abandons cfg s a := hab as a s (List.prefix_refl _) hs
    have hstep := Step.of_step ha
    have hreach : Reachable cfg s := Transition.reachable_of_run hs
    refine ⟨?_, fun r hr => ?_, fun p => ?_, fun r hr => ?_⟩
    · have hreach' : Reachable cfg s' := hreach.tail ha
      refine hreach'.keysAttended_iff.2 ?_
      exact (hstep.attended_iff hreach.exclusive (hreach.keysAttended_iff.1 hatt)).2 hna
    · exact hna (hstep.abandons_of_abandoned hr (hpre r))
    · rw [hstep.poisoned_eq hna]
      exact hheal p
    · rw [List.mem_append]
      by_cases hr' : s.pc r = .dropped
      · exact .inl (hleft r hr')
      · exact .inr (List.mem_singleton.2 (hstep.eq_drop hheal hna hr hr').symm)

/-- **Every request is answered.** In a run in which no leader leaves, whatever else happens, a
request takes at most eleven steps, and one that is over has got its result or its client went
away; and as long as a request is not over, some request can go on by itself. -/
theorem all_answered (h : Transition.run (step cfg) as Cluster.init = some s)
    (hab : Unabandoned cfg as) :
    (∀ r, stepsOf r as ≤ 11) ∧
      (∀ r, (s.pc r).Over → (∃ res, s.pc r = .done res) ∨ .drop r ∈ as) ∧
      ∀ r, ¬ (s.pc r).Over → ∃ q, CanGoOn cfg s q := by
  have hs := sound_of_run h hab
  refine ⟨fun r => ?_, fun r hr => ?_, fun r hr => hs.attended.exists_canGoOn hs.present hr⟩
  · have := stepsOf_add_rank_le h r
    omega
  · cases hpc : s.pc r with
    | done res => exact .inl ⟨res, rfl⟩
    | dropped => exact .inr (hs.left r hpc)
    | _ => simp [hpc, Pc.Over] at hr

/-- Request 1 waits for the fetch of request 0, which fails, and both return the failure. -/
def answeredRun : List (Action 2) :=
  attendedRun ++ [.resume 1, .readStale 1, .read 0, .readStale 0]

theorem all_answered_answeredRun : ∃ s,
    (Transition.run (step twoCalls) answeredRun Cluster.init = some s ∧
      s.pc 1 = .done (.failed "upstream unavailable")) ∧
    (∀ r, stepsOf r answeredRun ≤ 11) ∧
      (∀ r, (s.pc r).Over → (∃ res, s.pc r = .done res) ∨ .drop r ∈ answeredRun) ∧
      ∀ r, ¬ (s.pc r).Over → ∃ q, CanGoOn twoCalls s q := by
  obtain ⟨s, hs, h₁⟩ : ∃ s, Transition.run (step twoCalls) answeredRun Cluster.init = some s ∧
      s.pc 1 = .done (.failed "upstream unavailable") :=
    Transition.exists_run_of_any (by decide)
  refine ⟨s, ⟨hs, h₁⟩, all_answered hs fun bs a t hb _ => ?_⟩
  have ha : a ∈ answeredRun := hb.subset (by simp)
  have hall : ∀ a ∈ answeredRun, ¬ Abandons twoCalls t a := by
    simp [answeredRun, attendedRun, Abandons]
  exact hall a ha

end Traintime.Server
