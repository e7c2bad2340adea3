import Traintime.Server.Fetch

/-!
# What one step of the cluster does

The transition function of `Traintime.Server.Fetch` read as a relation with one constructor for
each branch that goes on. Every invariant of the cluster is proved by cases on it.

## Main definitions

* `Server.Step`: the branches of `Server.step` with the guards they passed.

## Main results

* `Server.Step.of_step`: a possible action is one of the branches.
-/

namespace Traintime.Server

open Function

variable {n : ℕ} {cfg : Config n}

/-- The branches of `step`, one for each way in which a step goes, with what must hold before it and
the state after it. -/
inductive Step (cfg : Config n) (s : Cluster n) : Action n → Cluster n → Prop
  | tick (d : ℕ) (hw : ∀ r, (s.pc r).MayWait (s.now + d)) :
      Step cfg s (.tick d) { s with now := s.now + d }
  | arriveShared (r) (hr : s.pc r = .idle) (ha : cfg.asksShared r = true) :
      Step cfg s (.arrive r) (s.goto r (.sharedGet s.now))
  | arrive (r) (hr : s.pc r = .idle) : Step cfg s (.arrive r) (s.goto r .lookingUp)
  | sharedRead (r t) (hr : s.pc r = .sharedGet t) :
      Step cfg s (.sharedRead r)
        (s.goto r (.sharedGot t (sharedLookup s.shared (cfg.call r).key s.now)))
  | sharedReturn (r t v) (hr : s.pc r = .sharedGot t (some v)) :
      Step cfg s (.sharedReturn r) (s.return_ r (.cached v))
  | sharedMissGet (r t) (hr : s.pc r = .sharedGet t) :
      Step cfg s (.sharedMiss r) (s.goto r .lookingUp)
  | sharedMissGot (r t reply) (hr : s.pc r = .sharedGot t reply) :
      Step cfg s (.sharedMiss r) (s.goto r .lookingUp)
  | lookupHit (r v) (hr : s.pc r = .lookingUp) (hp : (s.podOf cfg r).poisoned = false)
      (hv : s.cacheGet cfg r = some v) : Step cfg s (.lookup r) (s.return_ r (.cached v))
  | lookupMiss (r) (hr : s.pc r = .lookingUp) (hp : (s.podOf cfg r).poisoned = false)
      (hv : s.cacheGet cfg r = none) :
      Step cfg s (.lookup r) ((s.goto r .missed).record (.missed r))
  | join (r l) (hr : s.pc r = .missed)
      (hl : (s.podOf cfg r).keys.lookup (cfg.call r).key = some l) :
      Step cfg s (.lock r) ((s.goto r (.waiting l)).record (.joined r l))
  | register (r) (hr : s.pc r = .missed)
      (hl : (s.podOf cfg r).keys.lookup (cfg.call r).key = none) :
      Step cfg s (.lock r) ((s.goto r .registered).setPod (cfg.call r).pod
        { s.podOf cfg r with keys := (s.podOf cfg r).keys.insert (cfg.call r).key r })
  | fetch (r) (hr : s.pc r = .registered) :
      Step cfg s (.fetch r) ((s.goto r .fetching).record (.fetchStarted r s.now))
  | fetchOk (r v c) (hr : s.pc r = .fetching) (hp : (s.podOf cfg r).poisoned = false)
      (hc : s.cachePut cfg r v = some c) :
      Step cfg s (.fetchOk r v) ((((s.goto r (.storing v s.now false)).setPod (cfg.call r).pod
        { s.podOf cfg r with cache := c }).record (.fetched r v s.now)).record
        (.stored r v s.now))
  | fetchPanic (r v) (hr : s.pc r = .fetching)
      (hp : (s.podOf cfg r).poisoned = true ∨ s.cachePut cfg r v = none) :
      Step cfg s (.fetchOk r v) (((s.goto r .abandoned).setPod (cfg.call r).pod
        { s.podOf cfg r with poisoned := true }).record (.fetched r v s.now))
  | fetchErr (r e) (hr : s.pc r = .fetching) :
      Step cfg s (.fetchErr r e) ((s.goto r (.removing (.error e))).record (.fetchFailed r e))
  | sharedWrite (r v t) (hr : s.pc r = .storing v t false) (ha : cfg.asksShared r = true)
      (ht : (cfg.call r).ttl ≠ 0) :
      Step cfg s (.sharedWrite r) { s.goto r (.storing v t true) with
        shared := s.shared.insert (cfg.call r).key ⟨v, s.now + (cfg.call r).ttl * second⟩ }
  | storeDone (r v t w) (hr : s.pc r = .storing v t w) :
      Step cfg s (.storeDone r) (s.goto r (.removing (.ok v)))
  | remove (r res) (hr : s.pc r = .removing res) :
      Step cfg s (.remove r) ((s.goto r (.notifying res)).setPod (cfg.call r).pod
        { s.podOf cfg r with keys := (s.podOf cfg r).keys.erase (cfg.call r).key })
  | notifyOk (r v) (hr : s.pc r = .notifying (.ok v)) :
      Step cfg s (.notify r)
        (({ s with pc := fun q => (s.pc q).wake r }.record (.notified r)).return_ r (.fresh v))
  | notifyErr (r e) (hr : s.pc r = .notifying (.error e)) :
      Step cfg s (.notify r)
        (({ s with pc := fun q => (s.pc q).wake r }.record (.notified r)).goto r (.reading e))
  | resumeHit (r l v) (hr : s.pc r = .woken l) (hp : (s.podOf cfg r).poisoned = false)
      (hv : s.cacheGet cfg r = some v) : Step cfg s (.resume r) (s.return_ r (.cached v))
  | resumeMiss (r l) (hr : s.pc r = .woken l) (hp : (s.podOf cfg r).poisoned = false)
      (hv : s.cacheGet cfg r = none) :
      Step cfg s (.resume r) (s.goto r (.readingStale "upstream unavailable"))
  | readHit (r e v) (hr : s.pc r = .reading e) (hp : (s.podOf cfg r).poisoned = false)
      (hv : s.cacheGet cfg r = some v) : Step cfg s (.read r) (s.return_ r (.cached v))
  | readMiss (r e) (hr : s.pc r = .reading e) (hp : (s.podOf cfg r).poisoned = false)
      (hv : s.cacheGet cfg r = none) : Step cfg s (.read r) (s.goto r (.readingStale e))
  | staleHit (r e v a) (hr : s.pc r = .readingStale e) (hp : (s.podOf cfg r).poisoned = false)
      (hv : s.cacheGetStale cfg r = some (v, a)) :
      Step cfg s (.readStale r) (s.return_ r (.stale v a))
  | staleMiss (r e) (hr : s.pc r = .readingStale e) (hp : (s.podOf cfg r).poisoned = false)
      (hv : s.cacheGetStale cfg r = none) : Step cfg s (.readStale r) (s.return_ r (.failed e))
  | drop (r) (hr : (s.pc r).Awaiting = true) : Step cfg s (.drop r) (s.goto r (s.pc r).drop)
  | unwind (r) (hr : s.pc r = .fetching ∨
      (s.pc r).LocksCache = true ∧ (s.podOf cfg r).poisoned = true) :
      Step cfg s (.unwind r) (s.goto r (s.pc r).drop)

/-- A possible action is one of the branches. -/
theorem Step.of_step {s s' : Cluster n} {a : Action n} (h : step cfg s a = some s') :
    Step cfg s a s' := by
  cases a with
  | tick d =>
    simp only [step] at h
    split_ifs at h with hw
    exact Option.some.inj h ▸ .tick d hw
  | arrive r =>
    simp only [step] at h
    split at h <;> cases h
    split_ifs with ha
    · exact .arriveShared r ‹_› ha
    · exact .arrive r ‹_›
  | sharedRead r =>
    simp only [step] at h
    split at h <;> cases h
    exact .sharedRead r _ ‹_›
  | sharedReturn r =>
    simp only [step] at h
    split at h <;> cases h
    exact .sharedReturn r _ _ ‹_›
  | sharedMiss r =>
    simp only [step] at h
    split at h <;> cases h
    · exact .sharedMissGet r _ ‹_›
    · exact .sharedMissGot r _ _ ‹_›
  | lookup r =>
    simp only [step] at h
    split at h
    · split at h <;> cases h
      · exact .lookupHit r _ ‹_› ‹_› ‹_›
      · exact .lookupMiss r ‹_› ‹_› ‹_›
    · cases h
  | lock r =>
    simp only [step] at h
    split at h
    · split at h <;> cases h
      · exact .join r _ ‹_› ‹_›
      · exact .register r ‹_› ‹_›
    · cases h
  | fetch r =>
    simp only [step] at h
    split at h <;> cases h
    exact .fetch r ‹_›
  | fetchOk r v =>
    simp only [step] at h
    split at h
    · split at h <;> cases h
      · exact .fetchOk r v _ ‹_› ‹_› ‹_›
      · refine .fetchPanic r v ‹_› ?_
        cases hp : (s.podOf cfg r).poisoned with
        | true => exact Or.inl rfl
        | false =>
          cases hc : s.cachePut cfg r v with
          | none => exact Or.inr rfl
          | some c => simp_all
    · cases h
  | fetchErr r e =>
    simp only [step] at h
    split at h <;> cases h
    exact .fetchErr r e ‹_›
  | sharedWrite r =>
    simp only [step] at h
    split at h
    · split_ifs at h with hc
      exact Option.some.inj h ▸ .sharedWrite r _ _ ‹_› hc.1 hc.2
    · cases h
  | storeDone r =>
    simp only [step] at h
    split at h <;> cases h
    exact .storeDone r _ _ _ ‹_›
  | remove r =>
    simp only [step] at h
    split at h <;> cases h
    exact .remove r _ ‹_›
  | notify r =>
    simp only [step] at h
    split at h <;> cases h
    · exact .notifyOk r _ ‹_›
    · exact .notifyErr r _ ‹_›
  | resume r =>
    simp only [step] at h
    split at h
    · split at h <;> cases h
      · exact .resumeHit r _ _ ‹_› ‹_› ‹_›
      · exact .resumeMiss r _ ‹_› ‹_› ‹_›
    · cases h
  | read r =>
    simp only [step] at h
    split at h
    · split at h <;> cases h
      · exact .readHit r _ _ ‹_› ‹_› ‹_›
      · exact .readMiss r _ ‹_› ‹_› ‹_›
    · cases h
  | readStale r =>
    simp only [step] at h
    split at h
    · split at h <;> cases h
      · exact .staleHit r _ _ _ ‹_› ‹_› ‹_›
      · exact .staleMiss r _ ‹_› ‹_› ‹_›
    · cases h
  | drop r =>
    simp only [step] at h
    split_ifs at h with hc
    exact Option.some.inj h ▸ .drop r hc
  | unwind r =>
    simp only [step] at h
    split_ifs at h with hc
    exact Option.some.inj h ▸ .unwind r hc

/-- The request that acts. Only the passing of time is nobody's step. -/
def Action.subject : Action n → Option (Fin n)
  | .tick _ => none
  | .arrive r | .sharedRead r | .sharedReturn r | .sharedMiss r | .lookup r | .lock r | .fetch r
  | .fetchOk r _ | .fetchErr r _ | .sharedWrite r | .storeDone r | .remove r | .notify r
  | .resume r | .read r | .readStale r | .drop r | .unwind r => some r

/-- A request that does not act stays where it is or is woken. -/
theorem Step.pc_of_ne {s s' : Cluster n} {a : Action n} (h : Step cfg s a s') {r : Fin n}
    (hr : a.subject ≠ some r) :
    s'.pc r = s.pc r ∨ ∃ l, s.pc r = .waiting l ∧ s'.pc r = .woken l := by
  cases h with
  | tick => exact Or.inl rfl
  | notifyOk q v hq | notifyErr q e hq =>
    have hrq : r ≠ q := fun h => hr (congrArg some h.symm)
    have hpc : (s.pc r).wake q = s.pc r ∨ ∃ l, s.pc r = .waiting l ∧ (s.pc r).wake q = .woken l := by
      cases hpc : s.pc r with
      | waiting l => by_cases hl : l = q <;> simp [Pc.wake, hl]
      | _ => exact Or.inl rfl
    simpa [hrq] using hpc
  | _ q =>
    have hrq : r ≠ q := fun h => hr (congrArg some h.symm)
    exact Or.inl (by simp [hrq])

end Traintime.Server
