import Traintime.Server.Fetch.Attendance
import Traintime.Server.Fetch.History

/-!
# What requests that joined a fetch get

A request that joined a fetch gets its answer from the in-pod cache alone, once it is polled after
the leader's wakeup. It gets the newest payload of its key if that can be served at all. A payload
stored with a TTL of zero has expired when it is stored, so after a fetch that succeeded it comes
back as stale.

## Main definitions

* `Server.Pc.Joined`: the points of a request that joined a fetch.
* `Server.AnswersNewest`: a result that is the newest payload that can be served.
* `Server.ServesFrom`: a step that returns the payload of a store or of a later one.
* `Server.Polled`: what a poll of a request that reads the cache answers.

## Main results

* `Server.ReachableVia.servesFrom_iff`: a joined request resumes with a cached payload.
* `Server.ReachableVia.polled_iff`: a joined request is answered in order.
* `Server.ReachableVia.returned_of_joined`: what a joined request returns.
* `Server.joined_answers`: wakeups and answers of joined requests together.
-/

namespace Traintime.Server

open Function

variable {n : ℕ} {cfg : Config n} {s s' : Cluster n} {a : Action n}
  {ok : Cluster n → Action n → Prop}

/-! ### The points of a joined request -/

/-- The points of a request that joined the fetch of `l`. -/
def Pc.Joined (l : Fin n) : Pc n → Prop
  | .waiting m | .woken m => m = l
  | .readingStale _ | .done _ | .dropped => True
  | _ => False

theorem Step.joined (h : Step cfg s a s') {r l : Fin n} (hr : (s.pc r).Joined l) :
    (s'.pc r).Joined l := by
  by_cases hq : a.subject = some r
  · cases h with
    | drop q | unwind q =>
      cases hq
      cases hpc : s.pc r <;> simp_all [Pc.Joined, Pc.drop, Pc.Leading]
    | _ => cases hq <;> simp_all [Pc.Joined]
  · rcases h.pc_of_ne hq with hpc | ⟨m, hpc, hpc'⟩
    · rwa [hpc]
    · rw [hpc] at hr
      rw [hpc']
      exact hr

theorem Reachable.joined (h : Reachable cfg s) {r l : Fin n} (hj : .joined r l ∈ s.history) :
    (s.pc r).Joined l := by
  refine h.invariant (I := fun s => .joined r l ∈ s.history → (s.pc r).Joined l)
    (by simp [Cluster.init]) ?_ hj
  rintro s a s' - ih ha hj
  rcases (Step.of_step ha).emits_of_mem hj with hold | ⟨pre, hnew⟩
  · exact (Step.of_step ha).joined (ih hold)
  · cases hnew with
    | joined _ _ _ hr' => simp [hr', Pc.Joined]

/-! ### The reads of `from_cache` -/

/-- No time passes between the two reads of a request. -/
theorem Step.now_eq_of_readingStale (h : Step cfg s a s') {r : Fin n} {e : String}
    (hr : s.pc r = .readingStale e) : s'.now = s.now := by
  cases h with
  | tick d hw =>
    have hwait := hw r
    rw [hr] at hwait
    exact hwait.elim
  | _ => rfl

/-- The first read found nothing unexpired. -/
theorem Step.reads (h : Step cfg s a s') {r : Fin n} {e : String}
    (hr' : s'.pc r = .readingStale e) (hr : ∀ e, s.pc r ≠ .readingStale e) :
    s'.cacheGet cfg r = none := by
  by_cases hq : a.subject = some r
  · cases h with
    | resumeMiss q l hw hp hv | readMiss q e hw hp hv =>
      cases hq
      exact hv
    | drop q | unwind q =>
      cases hq
      cases hpc : s.pc r <;> simp [hpc, Pc.drop, Pc.Leading] at hr'
    | _ => cases hq <;> simp at hr'
  · rcases h.pc_of_ne hq with hpc | ⟨l, -, hpc⟩
    · exact absurd (hpc ▸ hr') (hr e)
    · simp [hpc] at hr'

/-- An entry that is unexpired at the second read was stored after the first, at the same
instant. -/
theorem Reachable.fetchedAt_of_readingStale (h : Reachable cfg s) {r : Fin n} {e : String}
    (hr : s.pc r = .readingStale e) {x : Entry}
    (hx : (s.podOf cfg r).cache.inner.lookup (cfg.call r).key = some x) (hlive : s.now < x.expiry) :
    x.fetchedAt = s.now := by
  refine h.invariant (I := fun s => ∀ e, s.pc r = .readingStale e → ∀ x,
    (s.podOf cfg r).cache.inner.lookup (cfg.call r).key = some x → s.now < x.expiry →
    x.fetchedAt = s.now) (by simp [Cluster.init]) ?_ e hr x hx hlive
  rintro s a s' - ih ha e hr' x hx hlive
  have hstep := Step.of_step ha
  by_cases hr : ∃ e, s.pc r = .readingStale e
  · obtain ⟨e, hr⟩ := hr
    have hnow := hstep.now_eq_of_readingStale hr
    rw [hnow] at hlive ⊢
    rw [Cluster.podOf] at hx
    rcases hstep.store_cases with ⟨hpod, -⟩ | ⟨q, v, c, -, -, hc, -, hpod, -⟩ | ⟨q, v, hpod, -⟩
    · rw [(hpod _).1] at hx
      exact ih e hr x hx hlive
    · rw [(hpod _).1, lookup_cachePut hc] at hx
      split_ifs at hx with hf
      · rw [← Option.some.inj hx]
        rfl
      · exact ih e hr x (lookup_of_kept hx) hlive
    · rw [(hpod _).1] at hx
      exact ih e hr x hx hlive
  · push Not at hr
    have hget := hstep.reads hr' hr
    exact absurd hlive (not_lt.2 (Cache.get_eq_none_iff.1 hget x hx))

/-! ### The answers -/

/-- The result of `r` at `t` is the newest payload of its key on its pod if that can be served, and
a failure only if it cannot. -/
def AnswersNewest (cfg : Config n) (pre : List (Event n)) (r : Fin n) (t : ℕ) (res : Fetched) :
    Prop :=
  (∀ w, lastStored cfg (cfg.flight r) pre = some w → (cfg.entryOf w).Servable t →
    res = .cached w.value ∨ ∃ age, res = .stale w.value age) ∧
  ((∀ w, lastStored cfg (cfg.flight r) pre = some w → ¬ (cfg.entryOf w).Servable t) →
    ∃ e, res = .failed e)

/-- What a joined request can return is in order. -/
theorem ReachableVia.answer_of_joined (hok : ∀ s a, ok s a → SweepsOnlyDead cfg s a)
    (h : ReachableVia cfg ok s) {r l : Fin n} {res : Fetched} {pre : List (Event n)}
    (hj : (s.pc r).Joined l) (hret : Returns cfg s r res pre) :
    AnswersNewest cfg pre r s.now res := by
  have hreach : Reachable cfg s := h.reachable
  cases hret with
  | shared t v hr => simp [hr, Pc.Joined] at hj
  | fresh v hr => simp [hr, Pc.Joined] at hj
  | cached v hr hp hv =>
    obtain ⟨x, hx, hlive, rfl⟩ := Cache.get_eq_some_iff.1 hv
    obtain ⟨w, hw, rfl⟩ := hreach.lastStored_of_lookup hx
    have hw' : lastStored cfg (cfg.flight r) s.history = some w := hw
    refine ⟨fun w₁ hw₁ _ => ?_, fun hdead => absurd (Or.inl hlive) (hdead w hw')⟩
    rw [Option.some.inj (hw₁.symm.trans hw')]
    exact Or.inl rfl
  | stale e v age hr hp hv =>
    obtain ⟨x, hx, hage, rfl, -⟩ := Cache.getStale_eq_some_iff.1 hv
    obtain ⟨w, hw, rfl⟩ := hreach.lastStored_of_lookup hx
    have hw' : lastStored cfg (cfg.flight r) s.history = some w := hw
    refine ⟨fun w₁ hw₁ _ => ?_, fun hdead => absurd (Or.inr hage) (hdead w hw')⟩
    rw [Option.some.inj (hw₁.symm.trans hw')]
    exact Or.inr ⟨age, rfl⟩
  | failed e hr hp hv =>
    refine ⟨fun w hw hserv => ?_, fun _ => ⟨e, rfl⟩⟩
    have hx := h.lookup_of_lastStored hok (p := (cfg.call r).pod) hw hserv
    have hage : staleMaxAge < s.now - w.at_ := Cache.getStale_eq_none_iff.1 hv _ hx
    rcases hserv with hlive | hyoung
    · have hat : w.at_ = s.now := hreach.fetchedAt_of_readingStale hr hx hlive
      omega
    · exact absurd hyoung (not_le.2 hage)

theorem Returns.mem_history {r q l : Fin n} {res : Fetched} {pre : List (Event n)}
    (h : Returns cfg s r res pre) (hj : .joined q l ∈ pre) : .joined q l ∈ s.history := by
  cases h with
  | fresh v hr => simpa using hj
  | _ => exact hj

/-- Every result of a joined request is in order, whether or not the leader's fetch failed. -/
theorem ReachableVia.returned_of_joined (hok : ∀ s a, ok s a → SweepsOnlyDead cfg s a)
    (h : ReachableVia cfg ok s) {r l : Fin n} {res : Fetched} {t : ℕ} {post pre : List (Event n)}
    (hs : s.history = post ++ .returned r res t :: pre) (hj : .joined r l ∈ pre) :
    AnswersNewest cfg pre r t res := by
  refine h.invariant (I := fun s => ∀ post, s.history = post ++ .returned r res t :: pre →
    AnswersNewest cfg pre r t res) (by simp [Cluster.init]) ?_ post hs
  intro s a s' hvia ih hoka ha post hs
  have hvia' : ReachableVia cfg ok s := hvia
  have hreach : Reachable cfg s := hvia.reachable
  rcases (Step.of_step ha).emits hs with ⟨post', hold⟩ | hnew
  · exact ih post' hold
  · cases hnew with
    | returned _ _ _ hret =>
      exact hvia'.answer_of_joined hok (hreach.joined (hret.mem_history hj)) hret

/-- The step from `s` to `s'` returns to `r` from the cache the payload of the store `x` or of a
later one of the key. -/
def ServesFrom (cfg : Config n) (s : Cluster n) (x : Store n) (r : Fin n) (s' : Cluster n) : Prop :=
  ∃ w post pre, s.history = post ++ .stored w.leader w.value w.at_ :: pre ∧
    cfg.flight w.leader = cfg.flight r ∧ (x = w ∨ .stored x.leader x.value x.at_ ∈ pre) ∧
    s' = s.return_ r (.cached w.value)

/-- A joined request that resumes before the payload of its leader's fetch has expired gets that
payload or a later one from the cache. -/
theorem ReachableVia.servesFrom (hok : ∀ s a, ok s a → SweepsOnlyDead cfg s a)
    (h : ReachableVia cfg ok s) (httl : cfg.SameTtl) {r : Fin n} {x : Store n}
    (hx : .stored x.leader x.value x.at_ ∈ s.history)
    (hf : cfg.flight x.leader = cfg.flight r)
    (hnow : s.now < x.at_ + (cfg.call r).ttl * second) (hs : Step cfg s (.resume r) s') :
    ServesFrom cfg s x r s' := by
  have hreach : Reachable cfg s := h.reachable
  obtain ⟨w, hw⟩ := exists_lastStored hx hf
  obtain ⟨post, pre, hsplit, hxw⟩ := lastStored_split hw hx hf
  have hfw : cfg.flight w.leader = cfg.flight r := (mem_of_lastStored hw).2
  have hle : x.at_ ≤ w.at_ := by
    rcases hxw with rfl | hpre
    · exact le_rfl
    · exact hreach.stored_le_stored hsplit hpre
  have hlive : s.now < (cfg.entryOf w).expiry := by
    have hsame : (cfg.call w.leader).ttl = (cfg.call r).ttl := httl _ _ (Prod.mk.inj hfw).2
    simp only [Config.entryOf, hsame]
    omega
  have hentry := h.lookup_of_lastStored hok (p := (cfg.call r).pod) hw (Or.inl hlive)
  have hget : s.cacheGet cfg r = some w.value := Cache.get_eq_some_iff.2 ⟨_, hentry, hlive, rfl⟩
  refine ⟨w, post, pre, hsplit, hfw, hxw, ?_⟩
  cases hs with
  | resumeHit _ _ v _ _ hv =>
    rw [hget] at hv
    rw [Option.some.inj hv]
  | resumeMiss _ _ _ _ hv =>
    rw [hget] at hv
    cases hv

/-- With a TTL of zero nothing is ever unexpired. -/
theorem Reachable.cacheGet_of_ttl_zero (h : Reachable cfg s) (httl : cfg.SameTtl) {r : Fin n}
    (hr : (cfg.call r).ttl = 0) : s.cacheGet cfg r = none := by
  rw [Cluster.cacheGet, Cache.get_eq_none_iff]
  intro e he
  obtain ⟨w, hw, rfl⟩ := h.lastStored_of_lookup he
  have hsame : (cfg.call w.leader).ttl = (cfg.call r).ttl :=
    httl _ _ (Prod.mk.inj (mem_of_lastStored hw).2).2
  have hle : w.at_ ≤ s.now := h.stored_le hw
  simpa [Config.entryOf, hsame, hr] using hle

/-- A joined request that resumes in time after a fetch that succeeded gets the payload of that
fetch or a later one from the cache, exactly if the TTL is not zero. -/
theorem ReachableVia.servesFrom_iff (hok : ∀ s a, ok s a → SweepsOnlyDead cfg s a)
    (h : ReachableVia cfg ok s) (httl : cfg.SameTtl) {r l : Fin n} {v : String} {t : ℕ}
    (hr : s.pc r = .woken l) (hx : .stored l v t ∈ s.history)
    (hnow : s.now < t + max (cfg.call r).ttl 1 * second) (hs : Step cfg s (.resume r) s') :
    ServesFrom cfg s ⟨l, v, t⟩ r s' ↔ 1 ≤ (cfg.call r).ttl := by
  have hreach : Reachable cfg s := h.reachable
  constructor
  · rintro ⟨w, post, pre, -, -, -, rfl⟩
    by_contra hzero
    have hget := hreach.cacheGet_of_ttl_zero httl (r := r) (by omega)
    generalize hs' : s.return_ r (.cached w.value) = s' at hs
    cases hs with
    | resumeHit _ _ u _ _ hv =>
      rw [hget] at hv
      cases hv
    | resumeMiss =>
      have hlen := congrArg (fun s : Cluster n => s.history.length) hs'
      simp at hlen
  · intro hpos
    rw [max_eq_left hpos] at hnow
    exact h.servesFrom hok httl (x := ⟨l, v, t⟩) hx (hreach.flight_of_joined (Or.inr hr)) hnow hs

/-! ### The polls -/

/-- A poll of `r` in which it reads the cache once or twice answers it with `res`. -/
def Polled (cfg : Config n) (s : Cluster n) (r : Fin n) (res : Fetched) : Prop :=
  ∃ as ∈ [[.resume r], [.resume r, .readStale r], [.readStale r]],
    answerAfter cfg s r as = some res

/-- A request that is woken can be polled exactly if the cache's mutex is not poisoned. -/
theorem exists_step_resume_iff {r l : Fin n} (hr : s.pc r = .woken l) :
    (∃ s', step cfg s (.resume r) = some s') ↔ (s.podOf cfg r).poisoned = false := by
  cases hp : (s.podOf cfg r).poisoned with
  | true => simp [step, hr, hp]
  | false => cases hv : s.cacheGet cfg r <;> simp [step, hr, hp, hv]

/-- Nobody can read a poisoned cache. -/
theorem not_polled_of_poisoned {r : Fin n} (hp : (s.podOf cfg r).poisoned = true)
    (res : Fetched) : ¬ Polled cfg s r res := by
  have hresume : step cfg s (.resume r) = none := by
    cases hr : s.pc r <;> simp [step, hr, hp]
  have hstale : step cfg s (.readStale r) = none := by
    cases hr : s.pc r <;> simp [step, hr, hp]
  simp [Polled, answerAfter_cons, hresume, hstale]

/-- The first read of a request that is woken answers it or is followed by the second. -/
theorem polled_of_woken {r l : Fin n} (hr : s.pc r = .woken l)
    (hp : (s.podOf cfg r).poisoned = false) :
    (∃ v, s.cacheGet cfg r = some v ∧ Polled cfg s r (.cached v)) ∨
      ∃ s', step cfg s (.resume r) = some s' ∧ s'.pc r = .readingStale "upstream unavailable" ∧
        (s'.podOf cfg r).poisoned = false ∧ s'.history = s.history ∧ s'.now = s.now ∧
        ∀ res, answerAfter cfg s' r [.readStale r] = some res → Polled cfg s r res := by
  cases hv : s.cacheGet cfg r with
  | some v =>
    have hgo : step cfg s (.resume r) = some (s.return_ r (.cached v)) := by
      simp [step, hr, hp, hv]
    refine Or.inl ⟨v, rfl, [.resume r], by simp, ?_⟩
    rw [answerAfter_cons, hgo, Option.bind_some, answerAfter_return]
  | none =>
    have hgo : step cfg s (.resume r) = some (s.goto r (.readingStale "upstream unavailable")) := by
      simp [step, hr, hp, hv]
    refine Or.inr ⟨_, hgo, by simp, hp, rfl, rfl, fun res hres => ?_⟩
    refine ⟨[.resume r, .readStale r], by simp, ?_⟩
    rw [answerAfter_cons, hgo, Option.bind_some]
    exact hres

/-- The second read of a joined request answers it in order. -/
theorem ReachableVia.polled_of_readingStale (hok : ∀ s a, ok s a → SweepsOnlyDead cfg s a)
    (h : ReachableVia cfg ok s) {r : Fin n} {e : String} (hr : s.pc r = .readingStale e)
    (hp : (s.podOf cfg r).poisoned = false) :
    ∃ res, answerAfter cfg s r [.readStale r] = some res ∧
      AnswersNewest cfg s.history r s.now res := by
  refine ⟨_, answerAfter_readStale hr hp, ?_⟩
  have hj : (s.pc r).Joined r := by rw [hr]; trivial
  cases hv : s.cacheGetStale cfg r with
  | some x => exact h.answer_of_joined hok hj (.stale e x.1 x.2 hr hp hv)
  | none => exact h.answer_of_joined hok hj (.failed e hr hp hv)

/-- A joined request about to read the cache is answered in order, and at all, exactly if the
cache's mutex is not poisoned. -/
theorem ReachableVia.polled_iff (h : ReachableVia cfg (SweepsOnlyDead cfg) s) {r l : Fin n}
    (hj : .joined r l ∈ s.history) (hr : (s.pc r).LocksCache = true) :
    (∃ res, Polled cfg s r res ∧ AnswersNewest cfg s.history r s.now res) ↔
      (s.podOf cfg r).poisoned = false := by
  have hreach : Reachable cfg s := h.reachable
  have hpoint := hreach.joined hj
  constructor
  · rintro ⟨res, hres, -⟩
    by_contra hp
    exact not_polled_of_poisoned (Bool.not_eq_false _ ▸ hp) res hres
  · intro hp
    cases hpc : s.pc r with
    | readingStale e =>
      obtain ⟨res, hres, hnewest⟩ := h.polled_of_readingStale (fun _ _ h => h) hpc hp
      exact ⟨res, ⟨[.readStale r], by simp, hres⟩, hnewest⟩
    | woken m =>
      rcases polled_of_woken hpc hp with ⟨v, hv, hres⟩ | ⟨s', hgo, hpc', hp', hh, hnow, hres⟩
      · have hret : Returns cfg s r (.cached v) s.history := .cached v hr hp hv
        exact ⟨_, hres, h.answer_of_joined (fun _ _ h => h) hpoint hret⟩
      · have h' : ReachableVia cfg (SweepsOnlyDead cfg) s' := h.tail (a := .resume r) trivial hgo
        obtain ⟨res, hread, hnewest⟩ := h'.polled_of_readingStale (fun _ _ h => h) hpc' hp'
        rw [hh, hnow] at hnewest
        exact ⟨res, hres res hread, hnewest⟩
    | _ => simp [hpc, Pc.LocksCache, Pc.Joined] at hr hpoint

/-- What the requests that joined a fetch get: in time after a fetch that succeeded its payload or
a later one from the cache, exactly if the TTL is not zero and the cache's mutex not poisoned; and
whatever became of the fetch the newest payload that can be served, exactly if the mutex is not
poisoned. -/
structure JoinedServed (cfg : Config n) (s : Cluster n) : Prop where
  cached_iff : ∀ r l v t, s.pc r = .woken l → .stored l v t ∈ s.history →
    s.now < t + max (cfg.call r).ttl 1 * second →
    ((∃ s', step cfg s (.resume r) = some s' ∧ ServesFrom cfg s ⟨l, v, t⟩ r s') ↔
      1 ≤ (cfg.call r).ttl ∧ (s.podOf cfg r).poisoned = false)
  polled_iff : ∀ r l, .joined r l ∈ s.history → (s.pc r).LocksCache = true →
    ((∃ res, Polled cfg s r res ∧ AnswersNewest cfg s.history r s.now res) ↔
      (s.podOf cfg r).poisoned = false)
  newest : ∀ post r res t pre l, s.history = post ++ .returned r res t :: pre →
    .joined r l ∈ pre → AnswersNewest cfg pre r t res

/-- **Joined requests.** No request waits for a leader that has notified, and where sweeps drop
only dead entries the requests that joined a fetch are served. -/
theorem joined_answers (httl : cfg.SameTtl) (h : Reachable cfg s) :
    (∀ l r, .notified l ∈ s.history → s.pc r ≠ .waiting l) ∧
    (ReachableVia cfg (SweepsOnlyDead cfg) s → JoinedServed cfg s) := by
  refine ⟨fun _ r hl => h.not_waiting_of_notified hl r, fun hvia => ⟨?_, ?_, ?_⟩⟩
  · intro r l v t hr hx hnow
    have hserves : ∀ s', step cfg s (.resume r) = some s' →
        (ServesFrom cfg s ⟨l, v, t⟩ r s' ↔ 1 ≤ (cfg.call r).ttl) := fun s' hs =>
      hvia.servesFrom_iff (fun _ _ h => h) httl hr hx hnow (Step.of_step hs)
    rw [← exists_step_resume_iff hr]
    constructor
    · rintro ⟨s', hs, hserved⟩
      exact ⟨(hserves s' hs).1 hserved, s', hs⟩
    · rintro ⟨httl, s', hs⟩
      exact ⟨s', hs, (hserves s' hs).2 httl⟩
  · intro r l hj hr
    exact hvia.polled_iff hj hr
  · intro post r res t pre l hs hj
    exact hvia.returned_of_joined (fun _ _ h => h) hs hj

/-- Request 1 joins the fetch of request 0 and is woken after it succeeded. -/
def wokenRun : List (Action 2) :=
  [.arrive 0, .arrive 1, .lookup 0, .lookup 1, .lock 0, .lock 1, .fetch 0, .fetchOk 0 "v",
    .storeDone 0, .remove 0, .notify 0]

/-- The only put of the run goes into an empty cache. -/
theorem reachableVia_wokenRun {s : Cluster 2}
    (hs : Transition.run (step twoCalls) wokenRun Cluster.init = some s) :
    ReachableVia twoCalls (SweepsOnlyDead twoCalls) s := by
  obtain ⟨t, ht, hempty⟩ : ∃ t,
      Transition.run (step twoCalls) (wokenRun.take 7) Cluster.init = some t ∧
        (t.podOf twoCalls 0).cache.inner.len ≤ sweepThreshold :=
    Transition.exists_run_of_any (by decide)
  have hsplit : Transition.run (step twoCalls)
      (wokenRun.take 7 ++ .fetchOk 0 "v" :: wokenRun.drop 8) Cluster.init = some s := hs
  refine Transition.reachableVia_of_run_append hsplit (by simp [wokenRun, SweepsOnlyDead])
    (fun t' ht' => ?_) (by simp [wokenRun, SweepsOnlyDead])
  rw [← Option.some.inj (ht.symm.trans ht')]
  exact Cache.sweepsOnlyDead_of_len hempty

theorem joined_answers_wokenRun :
    ∃ s, Transition.run (step twoCalls) wokenRun Cluster.init = some s ∧
      (∀ l r, .notified l ∈ s.history → s.pc r ≠ .waiting l) ∧
      ∃ s', step twoCalls s (.resume 1) = some s' ∧ ServesFrom twoCalls s ⟨0, "v", 0⟩ 1 s' := by
  obtain ⟨s, hs, hpc, hstored, hnow, hp⟩ : ∃ s,
      Transition.run (step twoCalls) wokenRun Cluster.init = some s ∧ s.pc 1 = .woken 0 ∧
        .stored 0 "v" 0 ∈ s.history ∧ s.now = 0 ∧ (s.podOf twoCalls 1).poisoned = false :=
    Transition.exists_run_of_any (by decide)
  have hreach : Reachable twoCalls s := Transition.reachable_of_run hs
  obtain ⟨hawake, hserved⟩ := joined_answers (fun _ _ _ => rfl) hreach
  exact ⟨s, hs, hawake, ((hserved (reachableVia_wokenRun hs)).cached_iff 1 0 "v" 0 hpc hstored
    (by rw [hnow]; decide)).2 ⟨by decide, hp⟩⟩

/-- Two requests of one pod for one key, with a TTL of zero. -/
def zeroTtl : Config 2 where
  call _ := ⟨0, "k", 0⟩
  shared _ := false

/-- The fetch of request 0 succeeds at the instant 0, and request 1, which joined it and resumes at
the same instant, gets its payload as stale. -/
theorem stale_wokenRun :
    ∃ s, Transition.run (step zeroTtl) (wokenRun ++ [.resume 1, .readStale 1]) Cluster.init =
        some s ∧
      .joined 1 0 ∈ s.history ∧ .stored 0 "v" 0 ∈ s.history ∧
      .returned 1 (.stale "v" 0) 0 ∈ s.history ∧ s.now < 0 + max 0 1 * second :=
  Transition.exists_run_of_any (by decide)

end Traintime.Server
