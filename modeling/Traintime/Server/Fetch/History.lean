import Traintime.Server.Fetch.Steps

/-!
# Stores and fetches in a history

The entry that an in-pod cache holds for a key is the pod's newest store of the key: the other
direction fails only where the sweep of a put has dropped the entry. One lemma says what a step
does to the caches, and every statement about their content goes by it.

## Main definitions

* `Server.Store`: a payload that was stored, by whom and when.
* `Server.lastStored`, `Server.lastFetched`: the newest store and the newest successful fetch of a
  pod for a key.
* `Server.Config.entryOf`: the cache entry that a store makes.
* `Server.Returns`, `Server.Emits`: what a request can return and a step can record.
* `Server.answerAfter`: what a request has been answered after a list of steps.

## Main results

* `Server.Step.store_cases`: what a step does to the caches and to the newest stores.
* `Server.Step.emits`: the events of a step.
* `Server.Reachable.lastStored_of_lookup`: an entry is the newest store.
* `Server.Reachable.lookup_or_window_over`: the newest store is there until its window ends.
* `Server.Reachable.lastFetched_eq`: the newest successful fetch is stored.
* `Server.ReachableVia.lookup_of_lastStored`: the newest store is there while it can be served.
-/

namespace Traintime.Server

open Function

variable {n : ℕ} {cfg : Config n} {s s' : Cluster n} {a : Action n}

/-- A payload, the request that fetched it and the instant of its fetch. -/
structure Store (n : ℕ) where
  leader : Fin n
  value : String
  at_ : ℕ
deriving DecidableEq

namespace Config

variable (cfg : Config n) (f : ℕ × String)

/-- The store that an event records, if it is one of `f`. -/
def storedFor : Event n → Option (Store n)
  | .stored r v t => if cfg.flight r = f then some ⟨r, v, t⟩ else none
  | _ => none

/-- The successful fetch that an event records, if it is one of `f`. -/
def fetchedFor : Event n → Option (Store n)
  | .fetched r v t => if cfg.flight r = f then some ⟨r, v, t⟩ else none
  | _ => none

/-- The cache entry that a store makes. -/
def entryOf (w : Store n) : Entry where
  value := w.value
  expiry := w.at_ + (cfg.call w.leader).ttl * second
  fetchedAt := w.at_

end Config

/-- The newest store of a payload for the pod and the key of `f`, as the history has it. -/
def lastStored (cfg : Config n) (f : ℕ × String) (h : List (Event n)) : Option (Store n) :=
  h.findSome? (cfg.storedFor f)

/-- The newest successful fetch for the pod and the key of `f`, as the history has it. -/
def lastFetched (cfg : Config n) (f : ℕ × String) (h : List (Event n)) : Option (Store n) :=
  h.findSome? (cfg.fetchedFor f)

section Lists

variable {f : ℕ × String} {h : List (Event n)} {w : Store n}

theorem storedFor_eq_some_iff {e : Event n} :
    cfg.storedFor f e = some w ↔ e = .stored w.leader w.value w.at_ ∧ cfg.flight w.leader = f := by
  obtain ⟨r, v, t⟩ := w
  cases e <;> simp [Config.storedFor]
  grind

theorem mem_of_lastStored (hw : lastStored cfg f h = some w) :
    .stored w.leader w.value w.at_ ∈ h ∧ cfg.flight w.leader = f := by
  obtain ⟨e, he, hew⟩ := List.exists_of_findSome?_eq_some hw
  obtain ⟨rfl, hf⟩ := storedFor_eq_some_iff.1 hew
  exact ⟨he, hf⟩

/-- A store of `f` is the newest one or older than it. -/
theorem exists_lastStored (hw : .stored w.leader w.value w.at_ ∈ h)
    (hf : cfg.flight w.leader = f) : ∃ w', lastStored cfg f h = some w' := by
  rw [← Option.isSome_iff_exists, lastStored, List.isSome_findSome?, List.any_eq_true]
  exact ⟨_, hw, by simp [Config.storedFor, hf]⟩

end Lists

/-! ### Caches and stores -/

/-- What the sweep of a put by `r` keeps of the cache of a pod. -/
def Cluster.kept (cfg : Config n) (s : Cluster n) (r : Fin n) (p : ℕ) : AssocMap String Entry :=
  if p = (cfg.call r).pod then (s.podOf cfg r).cache.swept s.now else (s.pod p).cache.inner

/-- A put drops only entries that were fetched a stale window ago. -/
theorem lookup_kept (cfg : Config n) (s : Cluster n) (r : Fin n) (p : ℕ) (k : String) :
    (s.kept cfg r p).lookup k = (s.pod p).cache.inner.lookup k ∨
      (s.kept cfg r p).lookup k = none ∧
        ∃ e, (s.pod p).cache.inner.lookup k = some e ∧ e.fetchedAt + staleMaxAge ≤ s.now := by
  unfold Cluster.kept
  split_ifs with hp
  · subst hp
    exact Cache.lookup_swept _ _ _
  · exact Or.inl rfl

theorem lookup_of_kept {r : Fin n} {p : ℕ} {k : String} {e : Entry}
    (he : (s.kept cfg r p).lookup k = some e) : (s.pod p).cache.inner.lookup k = some e := by
  unfold Cluster.kept at he
  split_ifs at he with hp
  · subst hp
    exact Cache.lookup_swept_eq_some he
  · exact he

theorem kept_of_lookup {r : Fin n} {p : ℕ} {k : String} {e : Entry}
    (hsweep : (s.podOf cfg r).cache.SweepsOnlyDead s.now) (hserv : e.Servable s.now)
    (he : (s.pod p).cache.inner.lookup k = some e) : (s.kept cfg r p).lookup k = some e := by
  unfold Cluster.kept
  split_ifs with hp
  · subst hp
    exact (hsweep k e he).resolve_right fun hdead => hdead hserv
  · exact he

/-- The entries of all pods after a put. -/
theorem lookup_cachePut {r : Fin n} {v : String} {c : Cache} (hc : s.cachePut cfg r v = some c)
    (p : ℕ) (k : String) :
    (if p = (cfg.call r).pod then c else (s.pod p).cache).inner.lookup k =
      if cfg.flight r = (p, k) then some (cfg.entryOf ⟨r, v, s.now⟩)
      else (s.kept cfg r p).lookup k := by
  by_cases hp : p = (cfg.call r).pod
  · subst hp
    rw [if_pos rfl, Cache.lookup_putAt hc, Cluster.kept, if_pos rfl]
    simp only [Config.flight, Prod.mk.injEq, true_and, eq_comm (a := k)]
    rfl
  · have hf : cfg.flight r ≠ (p, k) := fun hf => hp (Prod.mk.inj hf).1.symm
    rw [if_neg hp, if_neg hf, Cluster.kept, if_neg hp]

theorem Step.now_le (h : Step cfg s a s') : s.now ≤ s'.now := by
  cases h <;> simp

/-- The events of a step come in front of the history. -/
theorem Step.history_suffix (h : Step cfg s a s') : s.history <:+ s'.history := by
  cases h <;> first | exact List.suffix_rfl | exact ⟨[_], rfl⟩ | exact ⟨[_, _], rfl⟩

/-- What a step does to the caches and to the newest stores and fetches: nothing, or one put, or
a panic in a put, which leaves the caches as they are. -/
theorem Step.store_cases (h : Step cfg s a s') :
    ((∀ p, (s'.pod p).cache = (s.pod p).cache ∧ (s'.pod p).poisoned = (s.pod p).poisoned) ∧
      ∀ f, lastStored cfg f s'.history = lastStored cfg f s.history ∧
        lastFetched cfg f s'.history = lastFetched cfg f s.history) ∨
    (∃ r v c, a = .fetchOk r v ∧ s.pc r = .fetching ∧ s.cachePut cfg r v = some c ∧
      s'.history = .stored r v s.now :: .fetched r v s.now :: s.history ∧
      (∀ p, (s'.pod p).cache = (if p = (cfg.call r).pod then c else (s.pod p).cache) ∧
        (s'.pod p).poisoned = (s.pod p).poisoned) ∧
      ∀ f, lastStored cfg f s'.history = (if cfg.flight r = f then some ⟨r, v, s.now⟩ else
          lastStored cfg f s.history) ∧
        lastFetched cfg f s'.history = (if cfg.flight r = f then some ⟨r, v, s.now⟩ else
          lastFetched cfg f s.history)) ∨
    ∃ r v, (∀ p, (s'.pod p).cache = (s.pod p).cache ∧
        (s'.pod p).poisoned = (decide (p = (cfg.call r).pod) || (s.pod p).poisoned)) ∧
      ∀ f, lastStored cfg f s'.history = lastStored cfg f s.history ∧
        lastFetched cfg f s'.history = (if cfg.flight r = f then some ⟨r, v, s.now⟩ else
          lastFetched cfg f s.history) := by
  cases h with
  | fetchOk r v c hr hp hc =>
    refine Or.inr (Or.inl ⟨r, v, c, rfl, hr, hc, rfl, fun p => ?_, fun f => ?_⟩)
    · by_cases h : p = (cfg.call r).pod
      · subst h
        simp [Cluster.podOf]
      · simp [h]
    · by_cases h : cfg.flight r = f <;>
        simp [lastStored, lastFetched, Config.storedFor, Config.fetchedFor, List.findSome?_cons, h]
  | fetchPanic r v hr hp =>
    refine Or.inr (Or.inr ⟨r, v, fun p => ?_, fun f => ?_⟩)
    · by_cases h : p = (cfg.call r).pod
      · subst h
        simp [Cluster.podOf]
      · simp [h]
    · by_cases h : cfg.flight r = f <;>
        simp [lastStored, lastFetched, Config.storedFor, Config.fetchedFor, List.findSome?_cons, h]
  | register r hr hl | remove r res hr =>
    refine Or.inl ⟨fun p => ?_, fun f => by simp⟩
    by_cases h : p = (cfg.call r).pod
    · subst h
      simp [Cluster.podOf]
    · simp [h]
  | _ =>
    refine Or.inl ⟨fun p => by simp, fun f => ?_⟩
    simp [lastStored, lastFetched, Config.storedFor, Config.fetchedFor, List.findSome?_cons]

/-! ### Events -/

/-- What a request can return in a state, with the history before its return. -/
inductive Returns (cfg : Config n) (s : Cluster n) (r : Fin n) : Fetched → List (Event n) → Prop
  | shared (t v) (hr : s.pc r = .sharedGot t (some v)) : Returns cfg s r (.cached v) s.history
  | cached (v) (hr : (s.pc r).LocksCache = true) (hp : (s.podOf cfg r).poisoned = false)
      (hv : s.cacheGet cfg r = some v) : Returns cfg s r (.cached v) s.history
  | fresh (v) (hr : s.pc r = .notifying (.ok v)) :
      Returns cfg s r (.fresh v) (.notified r :: s.history)
  | stale (e v a) (hr : s.pc r = .readingStale e) (hp : (s.podOf cfg r).poisoned = false)
      (hv : s.cacheGetStale cfg r = some (v, a)) : Returns cfg s r (.stale v a) s.history
  | failed (e) (hr : s.pc r = .readingStale e) (hp : (s.podOf cfg r).poisoned = false)
      (hv : s.cacheGetStale cfg r = none) : Returns cfg s r (.failed e) s.history

/-- What a request has been answered, once it is through. -/
def Pc.answer : Pc n → Option Fetched
  | .done res => some res
  | _ => none

/-- What `r` has been answered after some steps. -/
def answerAfter (cfg : Config n) (s : Cluster n) (r : Fin n) (as : List (Action n)) :
    Option Fetched :=
  (Transition.run (step cfg) as s).bind fun s' => (s'.pc r).answer

theorem answerAfter_cons (r : Fin n) (a : Action n) (as : List (Action n)) :
    answerAfter cfg s r (a :: as) = (step cfg s a).bind fun s' => answerAfter cfg s' r as := by
  rw [answerAfter, Transition.run, Option.bind_assoc]
  rfl

theorem answerAfter_return (r : Fin n) (res : Fetched) :
    answerAfter cfg (s.return_ r res) r [] = some res := by
  simp [answerAfter, Transition.run, Pc.answer]

/-- The second read of a request answers it, from the stale payload if there is one. -/
theorem answerAfter_readStale {r : Fin n} {e : String} (hr : s.pc r = .readingStale e)
    (hp : (s.podOf cfg r).poisoned = false) :
    answerAfter cfg s r [.readStale r] = some (match s.cacheGetStale cfg r with
      | some (v, age) => .stale v age
      | none => .failed e) := by
  rw [answerAfter_cons]
  cases hv : s.cacheGetStale cfg r with
  | none =>
    have hlast : step cfg s (.readStale r) = some (s.return_ r (.failed e)) := by
      simp [step, hr, hp, hv]
    rw [hlast, Option.bind_some, answerAfter_return]
  | some x =>
    have hlast : step cfg s (.readStale r) = some (s.return_ r (.stale x.1 x.2)) := by
      simp [step, hr, hp, hv]
    rw [hlast, Option.bind_some, answerAfter_return]

/-- The events a step can record, with the history before each. -/
inductive Emits (cfg : Config n) (s s' : Cluster n) : Event n → List (Event n) → Prop
  | missed (r) (hr : s.pc r = .lookingUp) : Emits cfg s s' (.missed r) s.history
  | joined (r l) (hr : s.pc r = .missed) (hr' : s'.pc r = .waiting l) :
      Emits cfg s s' (.joined r l) s.history
  | fetchStarted (r) (hr : s.pc r = .registered) :
      Emits cfg s s' (.fetchStarted r s.now) s.history
  | fetched (r v) (hr : s.pc r = .fetching) : Emits cfg s s' (.fetched r v s.now) s.history
  | stored (r v) (hr : s.pc r = .fetching) (hr' : s'.pc r = .storing v s.now false) :
      Emits cfg s s' (.stored r v s.now) (.fetched r v s.now :: s.history)
  | fetchFailed (r e) (hr : s.pc r = .fetching) : Emits cfg s s' (.fetchFailed r e) s.history
  | notified (r res) (hr : s.pc r = .notifying res) : Emits cfg s s' (.notified r) s.history
  | returned (r res pre) (hr : Returns cfg s r res pre) (hr' : s'.pc r = .done res) :
      Emits cfg s s' (.returned r res s.now) pre

theorem cons_eq_append_cons {α : Type*} {e x : α} {h post pre : List α}
    (heq : e :: h = post ++ x :: pre) : (∃ post', h = post' ++ x :: pre) ∨ e = x ∧ pre = h := by
  cases post with
  | nil => exact Or.inr (by simpa [eq_comm] using heq)
  | cons y post => exact Or.inl ⟨post, (List.cons.inj heq).2⟩

theorem emits_of_cons {e x : Event n} {h post pre : List (Event n)} (heq : e :: h = post ++ x :: pre)
    (he : Emits cfg s s' e h) : (∃ post', h = post' ++ x :: pre) ∨ Emits cfg s s' x pre := by
  rcases cons_eq_append_cons heq with hold | ⟨rfl, rfl⟩
  · exact Or.inl hold
  · exact Or.inr he

/-- An event in the history after a step was there before or is one the step recorded. -/
theorem Step.emits (h : Step cfg s a s') {x : Event n} {post pre : List (Event n)}
    (hs : s'.history = post ++ x :: pre) :
    (∃ post', s.history = post' ++ x :: pre) ∨ Emits cfg s s' x pre := by
  cases h with
  | sharedReturn q t v hr =>
    exact emits_of_cons hs (.returned q _ _ (.shared t v hr) (by simp))
  | lookupHit q v hr hp hv | resumeHit q l v hr hp hv | readHit q e v hr hp hv =>
    exact emits_of_cons hs (.returned q _ _ (.cached v (by simp [hr, Pc.LocksCache]) hp hv) (by simp))
  | lookupMiss q hr hp hv => exact emits_of_cons hs (.missed q hr)
  | join q l hr hl => exact emits_of_cons hs (.joined q l hr (by simp))
  | fetch q hr => exact emits_of_cons hs (.fetchStarted q hr)
  | fetchOk q v c hr hp hc =>
    refine (emits_of_cons hs (.stored q v hr (by simp))).elim ?_ Or.inr
    rintro ⟨post', hold⟩
    exact emits_of_cons hold (.fetched q v hr)
  | fetchPanic q v hr hp => exact emits_of_cons hs (.fetched q v hr)
  | fetchErr q e hr => exact emits_of_cons hs (.fetchFailed q e hr)
  | notifyOk q v hr =>
    refine (emits_of_cons (s := s) hs (.returned q _ _ (.fresh v hr) (by simp))).elim ?_ Or.inr
    rintro ⟨post', hold⟩
    exact emits_of_cons hold (.notified q _ hr)
  | notifyErr q e hr => exact emits_of_cons hs (.notified q _ hr)
  | staleHit q e v a hr hp hv =>
    exact emits_of_cons hs (.returned q _ _ (.stale e v a hr hp hv) (by simp))
  | staleMiss q e hr hp hv =>
    exact emits_of_cons hs (.returned q _ _ (.failed e hr hp hv) (by simp))
  | _ => exact Or.inl ⟨post, hs⟩

theorem Step.emits_of_mem (h : Step cfg s a s') {x : Event n} (hx : x ∈ s'.history) :
    x ∈ s.history ∨ ∃ pre, Emits cfg s s' x pre := by
  obtain ⟨post, pre, hs⟩ := List.append_of_mem hx
  rcases h.emits hs with ⟨post', hold⟩ | hnew
  · exact Or.inl (hold ▸ List.mem_append_right _ List.mem_cons_self)
  · exact Or.inr ⟨pre, hnew⟩

theorem Reachable.fetched_le (h : Reachable cfg s) {r : Fin n} {v : String} {t : ℕ}
    (hm : .fetched r v t ∈ s.history) : t ≤ s.now := by
  refine h.invariant (I := fun s => .fetched r v t ∈ s.history → t ≤ s.now) (by simp [Cluster.init])
    ?_ hm
  rintro s a s' - ih ha hmem
  have hnow := (Step.of_step ha).now_le
  rcases (Step.of_step ha).emits_of_mem hmem with hold | ⟨pre, hnew⟩
  · exact (ih hold).trans hnow
  · cases hnew
    exact hnow

/-- What was stored had been fetched at that instant. -/
theorem Reachable.fetched_of_stored (h : Reachable cfg s) {r : Fin n} {v : String} {t : ℕ}
    (hm : .stored r v t ∈ s.history) : .fetched r v t ∈ s.history := by
  obtain ⟨post, pre, hs⟩ := List.append_of_mem hm
  have hpre : .fetched r v t ∈ pre := by
    refine h.invariant (I := fun s => ∀ post, s.history = post ++ .stored r v t :: pre →
      .fetched r v t ∈ pre) (by simp [Cluster.init]) ?_ post hs
    rintro s a s' - ih ha post hs
    rcases (Step.of_step ha).emits hs with ⟨post', hold⟩ | hnew
    · exact ih post' hold
    · cases hnew
      exact List.mem_cons_self
  rw [hs]
  exact List.mem_append_right _ (List.mem_cons_of_mem _ hpre)

theorem Reachable.stored_le (h : Reachable cfg s) {f : ℕ × String} {w : Store n}
    (hw : lastStored cfg f s.history = some w) : w.at_ ≤ s.now :=
  h.fetched_le (h.fetched_of_stored (mem_of_lastStored hw).1)

/-- Stores are recorded in the order of their instants. -/
theorem Reachable.stored_le_stored (h : Reachable cfg s) {r q : Fin n} {v u : String} {t t' : ℕ}
    {post pre : List (Event n)} (hs : s.history = post ++ .stored r v t :: pre)
    (hm : .stored q u t' ∈ pre) : t' ≤ t := by
  refine h.invariant (I := fun s => ∀ post, s.history = post ++ .stored r v t :: pre → t' ≤ t)
    (by simp [Cluster.init]) ?_ post hs
  intro s a s' hreach ih ha post hs
  have h' : Reachable cfg s := hreach
  rcases (Step.of_step ha).emits hs with ⟨post', hold⟩ | hnew
  · exact ih post' hold
  · cases hnew
    exact h'.fetched_le (h'.fetched_of_stored (by simpa using hm))

/-- The newest store of `f`, with a given store of `f` that it is or that is older. -/
theorem lastStored_split {f : ℕ × String} {h : List (Event n)} {w x : Store n}
    (hw : lastStored cfg f h = some w) (hx : .stored x.leader x.value x.at_ ∈ h)
    (hf : cfg.flight x.leader = f) :
    ∃ post pre, h = post ++ .stored w.leader w.value w.at_ :: pre ∧
      (x = w ∨ .stored x.leader x.value x.at_ ∈ pre) := by
  obtain ⟨post, e, pre, rfl, he, hpost⟩ := List.findSome?_eq_some_iff.1 hw
  obtain ⟨rfl, -⟩ := storedFor_eq_some_iff.1 he
  refine ⟨post, pre, rfl, ?_⟩
  rw [List.mem_append, List.mem_cons] at hx
  rcases hx with hx | hx | hx
  · have hnone := hpost _ hx
    rw [storedFor_eq_some_iff.2 ⟨rfl, hf⟩] at hnone
    cases hnone
  · obtain ⟨r, v, t⟩ := x
    obtain ⟨r', v', t'⟩ := w
    rw [Event.stored.injEq] at hx
    obtain ⟨rfl, rfl, rfl⟩ := hx
    exact Or.inl rfl
  · exact Or.inr hx

/-! ### Entries and stores -/

/-- An entry of an in-pod cache is the pod's newest store of the key. -/
theorem Reachable.lastStored_of_lookup (h : Reachable cfg s) {p : ℕ} {k : String} {e : Entry}
    (he : (s.pod p).cache.inner.lookup k = some e) :
    ∃ w, lastStored cfg (p, k) s.history = some w ∧ e = cfg.entryOf w := by
  refine h.invariant (I := fun s => ∀ e, (s.pod p).cache.inner.lookup k = some e →
    ∃ w, lastStored cfg (p, k) s.history = some w ∧ e = cfg.entryOf w) ?_ ?_ e he
  · intro e he
    simp [Cluster.init] at he
  · rintro s a s' - ih ha e he
    rcases (Step.of_step ha).store_cases with ⟨hpod, hlast⟩ | ⟨r, v, c, -, -, hc, -, hpod, hlast⟩ |
        ⟨r, v, hpod, hlast⟩
    · rw [(hpod p).1] at he
      rw [(hlast _).1]
      exact ih e he
    · rw [(hpod p).1, lookup_cachePut hc] at he
      rw [(hlast _).1]
      split_ifs at he ⊢ with hf
      · exact ⟨_, rfl, (Option.some.inj he).symm⟩
      · exact ih e (lookup_of_kept he)
    · rw [(hpod p).1] at he
      rw [(hlast _).1]
      exact ih e he

/-- The newest successful fetch is stored, unless the put panicked and poisoned the cache. -/
theorem Reachable.lastFetched_eq (h : Reachable cfg s) {p : ℕ} {k : String}
    (hp : (s.pod p).poisoned = false) :
    lastFetched cfg (p, k) s.history = lastStored cfg (p, k) s.history := by
  refine h.invariant (I := fun s => (s.pod p).poisoned = false →
    lastFetched cfg (p, k) s.history = lastStored cfg (p, k) s.history) (fun _ => rfl) ?_ hp
  rintro s a s' - ih ha hp
  rcases (Step.of_step ha).store_cases with ⟨hpod, hlast⟩ | ⟨r, v, c, -, -, -, -, hpod, hlast⟩ |
      ⟨r, v, hpod, hlast⟩
  · rw [(hlast _).1, (hlast _).2]
    exact ih ((hpod p).2 ▸ hp)
  · rw [(hlast _).1, (hlast _).2, ih ((hpod p).2 ▸ hp)]
  · rw [(hpod p).2, Bool.or_eq_false_iff, decide_eq_false_iff_not] at hp
    have hf : cfg.flight r ≠ (p, k) := fun hf => hp.1 (Prod.mk.inj hf).1.symm
    rw [(hlast _).1, (hlast _).2, if_neg hf]
    exact ih hp.2

/-- The newest store of a key is there until its stale window ends, whatever is swept. -/
theorem Reachable.lookup_or_window_over (h : Reachable cfg s) {p : ℕ} {k : String} {w : Store n}
    (hw : lastStored cfg (p, k) s.history = some w) :
    (s.pod p).cache.inner.lookup k = some (cfg.entryOf w) ∨
      (s.pod p).cache.inner.lookup k = none ∧ w.at_ + staleMaxAge ≤ s.now := by
  refine h.invariant (I := fun s => ∀ w, lastStored cfg (p, k) s.history = some w →
    (s.pod p).cache.inner.lookup k = some (cfg.entryOf w) ∨
      (s.pod p).cache.inner.lookup k = none ∧ w.at_ + staleMaxAge ≤ s.now) ?_ ?_ w hw
  · intro w hw
    simp [Cluster.init, lastStored] at hw
  · rintro s a s' - ih ha w hw
    have hstep := Step.of_step ha
    rcases hstep.store_cases with ⟨hpod, hlast⟩ | ⟨r, v, c, -, -, hc, -, hpod, hlast⟩ |
        ⟨r, v, hpod, hlast⟩
    · rw [(hlast _).1] at hw
      rw [(hpod p).1]
      exact (ih w hw).imp_right fun hgone => ⟨hgone.1, hgone.2.trans hstep.now_le⟩
    · rw [(hlast _).1] at hw
      rw [(hpod p).1, lookup_cachePut hc]
      split_ifs at hw ⊢ with hf
      · rw [Option.some.inj hw]
        exact Or.inl rfl
      · rcases ih w hw with hold | ⟨hgone, hover⟩
        · rcases lookup_kept cfg s r p k with hk | ⟨hk, e, he, hswept⟩
          · exact Or.inl (hk.trans hold)
          · rw [hold] at he
            obtain rfl := Option.some.inj he
            exact Or.inr ⟨hk, hswept.trans hstep.now_le⟩
        · refine Or.inr ⟨?_, hover.trans hstep.now_le⟩
          rcases lookup_kept cfg s r p k with hk | ⟨hk, -⟩
          · exact hk.trans hgone
          · exact hk
    · rw [(hlast _).1] at hw
      rw [(hpod p).1]
      exact (ih w hw).imp_right fun hgone => ⟨hgone.1, hgone.2.trans hstep.now_le⟩

/-- The sweeps of the step drop only entries that no reader could return. -/
def SweepsOnlyDead (cfg : Config n) (s : Cluster n) : Action n → Prop
  | .fetchOk r _ => (s.podOf cfg r).cache.SweepsOnlyDead s.now
  | _ => True

/-- Where sweeps drop only dead entries, the newest store of a key is there as long as it can be
served. -/
theorem ReachableVia.lookup_of_lastStored {ok : Cluster n → Action n → Prop}
    (hok : ∀ s a, ok s a → SweepsOnlyDead cfg s a) (h : ReachableVia cfg ok s) {p : ℕ}
    {k : String} {w : Store n} (hw : lastStored cfg (p, k) s.history = some w)
    (hserv : (cfg.entryOf w).Servable s.now) :
    (s.pod p).cache.inner.lookup k = some (cfg.entryOf w) := by
  refine h.invariant (I := fun s => ∀ w, lastStored cfg (p, k) s.history = some w →
    (cfg.entryOf w).Servable s.now →
    (s.pod p).cache.inner.lookup k = some (cfg.entryOf w)) ?_ ?_ w hw hserv
  · intro w hw
    simp [Cluster.init, lastStored] at hw
  · rintro s a s' - ih hoka ha w hw hserv
    have hstep := Step.of_step ha
    -- an entry that can be served after the step could be served before it
    have hbefore : (cfg.entryOf w).Servable s.now := by
      by_contra hdead
      exact Entry.not_servable_mono hdead hstep.now_le hserv
    rcases hstep.store_cases with ⟨hpod, hlast⟩ | ⟨r, v, c, rfl, -, hc, hnow, hpod, hlast⟩ |
        ⟨r, v, hpod, hlast⟩
    · rw [(hlast _).1] at hw
      rw [(hpod p).1]
      exact ih w hw hbefore
    · rw [(hlast _).1] at hw
      rw [(hpod p).1, lookup_cachePut hc]
      split_ifs at hw ⊢ with hf
      · rw [Option.some.inj hw]
      · exact kept_of_lookup (hok _ _ hoka) hbefore (ih w hw hbefore)
    · rw [(hlast _).1] at hw
      rw [(hpod p).1]
      exact ih w hw hbefore

end Traintime.Server
