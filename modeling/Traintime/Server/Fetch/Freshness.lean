import Traintime.Server.Fetch.Attendance
import Traintime.Server.Fetch.History

/-!
# When upstream is asked

A request looks its key up and takes the lock of `keys` in two steps. Another request may store the
key and release it in between, and the first one then fetches what the cache already holds. Apart
from that no fetch starts while the cache holds an unexpired payload, and two fetches of a key are
a TTL apart.

## Main definitions

* `Server.storedSince`: the newest store of a request's key since its own lookup.
* `Server.LocksQuietly`: no live store lies between the lookup of a request and its registration.
* `Server.StoresExpired`: all stores of a key in a history have expired.

## Main results

* `Server.ReachableVia.cacheGet_of_registered`: a registered key is not in the cache.
* `Server.ReachableVia.spaced`: a fetch starts after the expiry of all earlier stores.
* `Server.fetch_only_expired`: both, for the runs without such an interleaving.
-/

namespace Traintime.Server

open Function

variable {n : ℕ} {cfg : Config n} {s s' : Cluster n} {a : Action n}
  {ok : Cluster n → Action n → Prop}

/-- The newest store of the key of `r` on its pod since the lookup of `r` missed. -/
def storedSince (cfg : Config n) (s : Cluster n) (r : Fin n) : Option (Store n) :=
  lastStored cfg (cfg.flight r) (s.history.takeWhile fun e => decide (e ≠ .missed r))

/-- A request that is about to register finds no store of its key since its lookup, or one that
has expired. -/
def LocksQuietly (cfg : Config n) (s : Cluster n) : Action n → Prop
  | .lock r => (s.podOf cfg r).keys.lookup (cfg.call r).key = none →
      ∀ w, storedSince cfg s r = some w → (cfg.entryOf w).expiry ≤ s.now
  | _ => True

theorem lastStored_append (f : ℕ × String) (h h' : List (Event n)) :
    lastStored cfg f (h ++ h') = (lastStored cfg f h).or (lastStored cfg f h') :=
  List.findSome?_append

theorem lastStored_of_storedSince {r : Fin n} {w : Store n} (hw : storedSince cfg s r = some w) :
    lastStored cfg (cfg.flight r) s.history = some w := by
  rw [← List.takeWhile_append_dropWhile (p := fun e => decide (e ≠ Event.missed r))
    (l := s.history), lastStored_append]
  exact Option.or_eq_some_iff.2 (Or.inl hw)

/-! ### A missed key stays out of the cache -/

/-- Time and the puts of other keys make no payload appear. -/
theorem Step.cacheGet_eq_none (h : Step cfg s a s') {r : Fin n} (hr : s.cacheGet cfg r = none)
    (hq : ∀ q v, s'.history = .stored q v s.now :: .fetched q v s.now :: s.history →
      s.pc q = .fetching → cfg.flight q ≠ cfg.flight r) : s'.cacheGet cfg r = none := by
  have hnow := h.now_le
  rw [Cluster.cacheGet, Cache.get_eq_none_iff] at hr ⊢
  intro e he
  rw [Cluster.podOf] at he
  rcases h.store_cases with ⟨hpod, -⟩ | ⟨q, v, c, -, hfetch, hc, hh, hpod, -⟩ |
      ⟨q, v, hpod, -⟩
  · rw [(hpod _).1] at he
    exact (hr e he).trans hnow
  · have hf : cfg.flight q ≠ ((cfg.call r).pod, (cfg.call r).key) := hq q v hh hfetch
    rw [(hpod _).1, lookup_cachePut hc, if_neg hf] at he
    exact (hr e (lookup_of_kept he)).trans hnow
  · rw [(hpod _).1] at he
    exact (hr e he).trans hnow

theorem Emits.lookingUp_of_missed {r : Fin n} {pre : List (Event n)}
    (h : Emits cfg s s' (.missed r) pre) : s.pc r = .lookingUp := by
  cases h with
  | missed _ hr => exact hr

/-- A request that stays at its missed lookup keeps the stores since then. -/
theorem Step.storedSince_eq_none (h : Step cfg s a s') {r : Fin n} (hr : s.pc r = .missed)
    (hs' : storedSince cfg s' r = none) :
    storedSince cfg s r = none ∧ ∀ q v,
      s'.history = .stored q v s.now :: .fetched q v s.now :: s.history →
        cfg.flight q ≠ cfg.flight r := by
  obtain ⟨evs, hevs⟩ := h.history_suffix
  -- a request at its missed lookup records no further miss
  have hmissed : ∀ e ∈ evs, decide (e ≠ Event.missed r) = true := by
    intro e he
    rw [decide_eq_true_iff]
    rintro rfl
    obtain ⟨evs₁, evs₂, rfl⟩ := List.append_of_mem he
    rw [List.append_assoc, List.cons_append] at hevs
    rcases h.emits hevs.symm with ⟨post, hold⟩ | hnew
    · have hlen := congrArg List.length hold
      simp only [List.length_append, List.length_cons] at hlen
      omega
    · exact absurd hnew.lookingUp_of_missed (by simp [hr])
  rw [storedSince, ← hevs, List.takeWhile_append_of_pos hmissed, lastStored_append,
    Option.or_eq_none_iff] at hs'
  refine ⟨hs'.2, fun q v heq hf => ?_⟩
  have hstore : lastStored cfg (cfg.flight r) evs ≠ none := by
    have hsplit : evs = [.stored q v s.now, .fetched q v s.now] :=
      List.append_cancel_right (hevs.trans heq)
    simp [hsplit, lastStored, Config.storedFor, hf]
  exact hstore hs'.1

/-- The step that leaves a request at its missed lookup. -/
theorem Step.lookup_of_missed (h : Step cfg s a s') {r : Fin n} (hr' : s'.pc r = .missed)
    (hr : s.pc r ≠ .missed) : s'.cacheGet cfg r = none := by
  by_cases hq : a.subject = some r
  · cases h with
    | lookupMiss q hmiss hp hv =>
      cases hq
      exact hv
    | drop q | unwind q =>
      cases hq
      cases hpc : s.pc r <;> simp [hpc, Pc.drop, Pc.Leading] at hr'
    | _ => cases hq <;> simp at hr'
  · rcases h.pc_of_ne hq with hpc | ⟨l, -, hpc⟩
    · exact absurd (hpc ▸ hr') hr
    · simp [hpc] at hr'

/-- The step that registers a request. -/
theorem Step.registers (h : Step cfg s a s') {r : Fin n} (hr' : s'.pc r = .registered)
    (hr : s.pc r ≠ .registered) : a = .lock r ∧ s.pc r = .missed ∧
      (s.podOf cfg r).keys.lookup (cfg.call r).key = none ∧ s'.history = s.history := by
  by_cases hq : a.subject = some r
  · cases h with
    | register q hmissed hkey =>
      cases hq
      exact ⟨rfl, hmissed, hkey, rfl⟩
    | drop q | unwind q =>
      cases hq
      cases hpc : s.pc r <;> simp [hpc, Pc.drop, Pc.Leading] at hr'
    | _ => cases hq <;> simp at hr'
  · rcases h.pc_of_ne hq with hpc | ⟨l, -, hpc⟩
    · exact absurd (hpc ▸ hr') hr
    · simp [hpc] at hr'

/-- While nothing of its key has been stored since, a missed key is not in the cache. -/
theorem Reachable.cacheGet_of_missed (h : Reachable cfg s) {r : Fin n} (hr : s.pc r = .missed)
    (hsince : storedSince cfg s r = none) : s.cacheGet cfg r = none := by
  refine h.invariant (I := fun s => s.pc r = .missed → storedSince cfg s r = none →
    s.cacheGet cfg r = none) (by simp [Cluster.init]) ?_ hr hsince
  rintro s a s' - ih ha hr' hsince
  have hstep := Step.of_step ha
  by_cases hr : s.pc r = .missed
  · obtain ⟨hold, hput⟩ := hstep.storedSince_eq_none hr hsince
    exact hstep.cacheGet_eq_none (ih hr hold) fun q v hh _ => hput q v hh
  · exact hstep.lookup_of_missed hr' hr

/-! ### A registered key is not in the cache -/

/-- Nobody else stores a key while its leader is at work. -/
theorem Reachable.not_stored_of_leading (h : Reachable cfg s) {r q : Fin n}
    (hr : (s.pc r).Leading = true) (hr' : s.pc r ≠ .fetching) (hq : s.pc q = .fetching) :
    cfg.flight q ≠ cfg.flight r := by
  intro hf
  have hqr : q = r := h.exclusive.leading_unique (by simp [Cluster.registry, hq, Pc.role])
    (Pc.role_eq_leading_iff.2 hr) hf
  exact hr' (hqr ▸ hq)

/-- A key whose last store since the lookup has expired is not in the cache. -/
theorem Reachable.cacheGet_of_quiet (h : Reachable cfg s) {r : Fin n} (hr : s.pc r = .missed)
    (hquiet : ∀ w, storedSince cfg s r = some w → (cfg.entryOf w).expiry ≤ s.now) :
    s.cacheGet cfg r = none := by
  cases hsince : storedSince cfg s r with
  | none => exact h.cacheGet_of_missed hr hsince
  | some w =>
    rw [Cluster.cacheGet, Cache.get_eq_none_iff]
    intro e he
    obtain ⟨w', hw', rfl⟩ := h.lastStored_of_lookup he
    obtain rfl : w = w' := Option.some.inj ((lastStored_of_storedSince hsince).symm.trans hw')
    exact hquiet w hsince

/-- Where no live store slips in between, a key is not in the cache when it is registered and not
when its fetch starts. -/
theorem ReachableVia.cacheGet_of_registered (hok : ∀ s a, ok s a → LocksQuietly cfg s a)
    (h : ReachableVia cfg ok s) {r : Fin n} (hr : s.pc r = .registered) :
    s.cacheGet cfg r = none := by
  refine h.invariant (I := fun s => s.pc r = .registered → s.cacheGet cfg r = none)
    (by simp [Cluster.init]) ?_ hr
  rintro s a s' hvia ih hoka ha hr'
  have hreach : Reachable cfg s := hvia.reachable
  have hstep := Step.of_step ha
  by_cases hr : s.pc r = .registered
  · refine hstep.cacheGet_eq_none (ih hr) fun q v _ hq => ?_
    exact hreach.not_stored_of_leading (by simp [hr, Pc.Leading]) (by simp [hr]) hq
  · obtain ⟨rfl, hmissed, hkey, hsame⟩ := hstep.registers hr' hr
    refine hstep.cacheGet_eq_none (hreach.cacheGet_of_quiet hmissed (hok _ _ hoka hkey)) ?_
    intro q v hh
    have hlen := congrArg List.length (hsame.symm.trans hh)
    simp only [List.length_cons] at hlen
    omega

/-! ### Fetches of a key are a TTL apart -/

/-- All stores of `f` in the history have expired at `t`. -/
def StoresExpired (cfg : Config n) (f : ℕ × String) (h : List (Event n)) (t : ℕ) : Prop :=
  ∀ r v t', .stored r v t' ∈ h → cfg.flight r = f → t' + (cfg.call r).ttl * second ≤ t

/-- Each store of a key follows the expiry of the earlier ones. -/
def StoresSpaced (cfg : Config n) (h : List (Event n)) : Prop :=
  ∀ post r v t pre, h = post ++ .stored r v t :: pre → StoresExpired cfg (cfg.flight r) pre t

/-- Each store of a key, its registration and its fetch follow the expiry of the earlier stores. -/
structure Spaced (cfg : Config n) (s : Cluster n) : Prop where
  stored : StoresSpaced cfg s.history
  leading : ∀ r, s.pc r = .registered ∨ s.pc r = .fetching →
    StoresExpired cfg (cfg.flight r) s.history s.now

/-- A key that the cache does not hold has no live store, where sweeps drop only dead entries. -/
theorem ReachableVia.storesExpired (hok : ∀ s a, ok s a → SweepsOnlyDead cfg s a)
    (h : ReachableVia cfg ok s) (hs : StoresSpaced cfg s.history) {r : Fin n}
    (hget : s.cacheGet cfg r = none) :
    StoresExpired cfg (cfg.flight r) s.history s.now := by
  have hreach : Reachable cfg s := h.reachable
  intro q v t hm hf
  obtain ⟨w, hw⟩ := exists_lastStored (w := ⟨q, v, t⟩) hm hf
  have hexp : (cfg.entryOf w).expiry ≤ s.now := by
    by_contra hlive
    have hserv : (cfg.entryOf w).Servable s.now := Or.inl (not_le.1 hlive)
    have hentry := h.lookup_of_lastStored hok hw hserv
    exact hlive (Cache.get_eq_none_iff.1 hget _ hentry)
  obtain ⟨post, pre, hsplit, hqw⟩ := lastStored_split (x := ⟨q, v, t⟩) hw hm hf
  rcases hqw with rfl | hpre
  · exact hexp
  · have hfw := (mem_of_lastStored hw).2
    exact (hs post _ _ _ pre hsplit q v t hpre (hf.trans hfw.symm)).trans (hreach.stored_le hw)

/-- A request starts its fetch only from its registration. -/
theorem Step.fetches (h : Step cfg s a s') {r : Fin n} (hr' : s'.pc r = .fetching)
    (hr : s.pc r ≠ .fetching) : s.pc r = .registered := by
  by_cases hq : a.subject = some r
  · cases h with
    | fetch q hreg =>
      cases hq
      exact hreg
    | drop q | unwind q =>
      cases hq
      cases hpc : s.pc r <;> simp [hpc, Pc.drop, Pc.Leading] at hr'
    | _ => cases hq <;> simp at hr'
  · rcases h.pc_of_ne hq with hpc | ⟨l, -, hpc⟩
    · exact absurd (hpc ▸ hr') hr
    · simp [hpc] at hr'

/-- Where no live store slips in between and sweeps drop only dead entries, a key is stored and
registered only after the expiry of its earlier stores. -/
theorem ReachableVia.spaced
    (hok : ∀ s a, ok s a → LocksQuietly cfg s a ∧ SweepsOnlyDead cfg s a)
    (h : ReachableVia cfg ok s) : Spaced cfg s := by
  refine h.invariant (I := Spaced cfg) ⟨by simp [StoresSpaced, Cluster.init],
    by simp [Cluster.init]⟩ ?_
  intro s a s' hvia ih hoka ha
  have hreach : Reachable cfg s := hvia.reachable
  have hvia' : ReachableVia cfg ok s' := hvia.tail hoka ha
  have hstep := Step.of_step ha
  have hstored : StoresSpaced cfg s'.history := by
    intro post r v t pre hs
    rcases hstep.emits hs with ⟨post', hold⟩ | hnew
    · exact ih.stored post' r v t pre hold
    · cases hnew with
      | stored _ _ hr =>
        intro q u t' hm hf
        exact ih.leading r (Or.inr hr) q u t' (by simpa using hm) hf
  refine ⟨hstored, fun r hr' => ?_⟩
  rcases hr' with hr' | hr'
  · have hget := hvia'.cacheGet_of_registered (fun s a h => (hok s a h).1) hr'
    exact hvia'.storesExpired (fun s a h => (hok s a h).2) hstored hget
  · have hr : s.pc r = .registered ∨ s.pc r = .fetching := by
      by_cases hr : s.pc r = .fetching
      · exact Or.inr hr
      · exact Or.inl (hstep.fetches hr' hr)
    intro q v t hm hf
    rcases hstep.emits_of_mem hm with hold | ⟨pre, hnew⟩
    · exact (ih.leading r hr q v t hold hf).trans hstep.now_le
    · cases hnew with
      | stored _ _ hq hq' =>
        have hqr : q = r := hreach.exclusive.leading_unique
          (by simp [Cluster.registry, hq, Pc.role])
          (Pc.role_eq_leading_iff.2 (by rcases hr with hr | hr <;> simp [hr, Pc.Leading])) hf
        rw [hqr, hr'] at hq'
        cases hq'

/-- A fetch starts only after the expiry of the key's earlier stores. -/
theorem ReachableVia.storesExpired_of_fetchStarted
    (hok : ∀ s a, ok s a → LocksQuietly cfg s a ∧ SweepsOnlyDead cfg s a)
    (h : ReachableVia cfg ok s) {post pre : List (Event n)} {r : Fin n} {t : ℕ}
    (hs : s.history = post ++ .fetchStarted r t :: pre) :
    StoresExpired cfg (cfg.flight r) pre t := by
  refine h.invariant (I := fun s => ∀ post, s.history = post ++ .fetchStarted r t :: pre →
    StoresExpired cfg (cfg.flight r) pre t) (by simp [Cluster.init]) ?_ post hs
  intro s a s' hvia ih hoka ha post hs
  have hvia' : ReachableVia cfg ok s := hvia
  rcases (Step.of_step ha).emits hs with ⟨post', hold⟩ | hnew
  · exact ih post' hold
  · cases hnew with
    | fetchStarted _ hr => exact (hvia'.spaced hok).leading r (Or.inl hr)

/-- **One fetch per TTL.** In the runs in which no live store slips in between a request's lookup
and its registration, no fetch starts while the cache holds an unexpired payload; where the sweeps
drop only dead entries besides, a fetch starts only after the expiry of all earlier stores. -/
theorem fetch_only_expired (cfg : Config n) :
    (∀ s, ReachableVia cfg (LocksQuietly cfg) s →
      ∀ r, s.pc r = .registered → s.cacheGet cfg r = none) ∧
    ∀ s, ReachableVia cfg (fun s a => LocksQuietly cfg s a ∧ SweepsOnlyDead cfg s a) s →
      ∀ post r t pre, s.history = post ++ .fetchStarted r t :: pre →
        StoresExpired cfg (cfg.flight r) pre t :=
  ⟨fun _ h _ hr => h.cacheGet_of_registered (fun _ _ h => h) hr,
    fun _ h _ _ _ _ hs => h.storesExpired_of_fetchStarted (fun _ _ h => h) hs⟩

/-- Both requests miss, request 0 fetches and is done before request 1 takes the lock. -/
def lateRun : List (Action 2) :=
  [.arrive 0, .arrive 1, .lookup 0, .lookup 1, .lock 0, .fetch 0, .fetchOk 0 "v", .storeDone 0,
    .remove 0, .notify 0, .lock 1]

/-- Request 1 is about to fetch what the cache holds for another minute. -/
theorem cacheGet_lateRun :
    ∃ s, Transition.run (step twoCalls) lateRun Cluster.init = some s ∧
      s.pc 1 = .registered ∧ s.cacheGet twoCalls 1 = some "v" ∧
      (step twoCalls s (.fetch 1)).isSome = true :=
  Transition.exists_run_of_any (by decide)

end Traintime.Server
