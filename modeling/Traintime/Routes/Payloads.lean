import Traintime.Routes.Departures
import Traintime.Server.Fetch.Provenance
import Traintime.Worker.Requests

/-!
# Payloads from upstream to the handler

What a handler gets for its cache key, in any run of either runtime, when the upstream calls that
succeed do so with the payload that their answers make: the payload of one call for that key, of its
own or within the bounds on its age, or the error of a call that left no payload.

## Main definitions

* `Server.SucceedsAs`, `Worker.SucceedsAs`: the steps in which a call succeeds only as upstream has it.
* `Server.ServedFrom`, `Worker.ServedFrom`: the call whose payload a request gets.

## Main results

* `Server.servedFrom_of_returned`, `Worker.servedFrom_of_done`: what a handler gets.
-/

namespace Traintime

open Departures (payloadOf payloadOfWorker)

/-! ### The native server -/

namespace Server

variable {n : ℕ} {cfg : Config n} {s s' : Cluster n} {a : Action n}
  {upstream : Fin n → Except String String}

/-- A call that succeeds in this step has the payload that upstream has for it. -/
def SucceedsAs (upstream : Fin n → Except String String) (a : Action n) : Prop :=
  ∀ r v, a = .fetchOk r v → upstream r = .ok v

/-- The states of the runs in which all calls that succeed have their payload. -/
abbrev ReachableWith (cfg : Config n) (upstream : Fin n → Except String String) (s : Cluster n) :
    Prop := ReachableVia cfg (fun _ a => SucceedsAs upstream a) s

/-- A payload that is in the history is that of a call which succeeded. -/
theorem fetchOk_of_fetched (h : Step cfg s a s') {q : Fin n} {v : String} {t : ℕ}
    (hm : .fetched q v t ∈ s'.history) : .fetched q v t ∈ s.history ∨ a = .fetchOk q v := by
  cases h with
  | fetchOk r v' c | fetchPanic r v' =>
    simp at hm
    rcases hm with ⟨rfl, rfl, -⟩ | hm
    · exact .inr rfl
    · exact .inl hm
  | _ => exact .inl (by simpa using hm)

theorem ReachableVia.upstream_eq (h : ReachableWith cfg upstream s) {q : Fin n} {v : String} {t : ℕ}
    (hm : .fetched q v t ∈ s.history) : upstream q = .ok v := by
  refine h.invariant (I := fun s => .fetched q v t ∈ s.history → upstream q = .ok v)
    (by simp [Cluster.init]) ?_ hm
  intro s a s' _ ih hok ha hmem
  rcases fetchOk_of_fetched (Step.of_step ha) hmem with hold | hnew
  · exact ih hold
  · exact hok q v hnew

/-- What is returned was returned in a state that was reached. -/
theorem Reachable.exists_returns (h : Reachable cfg s) {post pre : List (Event n)} {r : Fin n}
    {res : Fetched} {t : ℕ} (hs : s.history = post ++ .returned r res t :: pre) :
    ∃ s₀, Reachable cfg s₀ ∧ Returns cfg s₀ r res pre ∧ s₀.now = t := by
  refine h.invariant (I := fun s => ∀ post, s.history = post ++ .returned r res t :: pre →
    ∃ s₀, Reachable cfg s₀ ∧ Returns cfg s₀ r res pre ∧ s₀.now = t) (by simp [Cluster.init]) ?_
    post hs
  intro s₀ a s' hreach ih ha post hs
  rcases (Step.of_step ha).emits hs with ⟨post', hold⟩ | hnew
  · exact ih post' hold
  · cases hnew with
    | returned _ _ _ hret => exact ⟨s₀, hreach, hret, rfl⟩

theorem mem_of_lastFetched {f : ℕ × String} {h : List (Event n)} {w : Store n}
    (hw : lastFetched cfg f h = some w) : .fetched w.leader w.value w.at_ ∈ h := by
  obtain ⟨e, he, hew⟩ := List.exists_of_findSome?_eq_some hw
  cases e with
  | fetched r v t =>
    simp only [Config.fetchedFor] at hew
    split_ifs at hew
    obtain rfl := Option.some.inj hew
    exact he
  | _ => cases hew

/-- The payload that `r` gets at the instant `t` is that of the call of `q`, which succeeded at `t'`:
its own, or a call for its key within the bounds on its age, which comes with it if it is stale. -/
structure ServedFrom (cfg : Config n) (upstream : Fin n → Except String String)
    (pre : List (Event n)) (r q : Fin n) (v : String) (t t' : ℕ) (stale : Option ℕ) : Prop where
  upstream : upstream q = .ok v
  fetched : .fetched q v t' ∈ pre
  key : (cfg.call q).key = (cfg.call r).key
  age : match stale with
    | none => q = r ∨ t' ≤ t ∧ t ≤ t' + (cfg.call r).ttl * second + 2 * opTimeout
    | some age => age = (t - t') / second ∧ age ≤ 300

/-- What a handler gets, in every run in which the calls for a key use one TTL. -/
theorem servedFrom_of_returned (h : ReachableWith cfg upstream s) (httl : cfg.SameTtl)
    {post pre : List (Event n)} {r : Fin n} {res : Fetched} {t : ℕ}
    (hs : s.history = post ++ .returned r res t :: pre) :
    (∃ e, res = .failed e) ∨ ∃ q v t' stale, payloadOf res = .ok (v, stale) ∧
      ServedFrom cfg upstream pre r q v t t' stale := by
  have hreach : Reachable cfg s := h.reachable
  obtain ⟨s₀, hreach₀, hret, rfl⟩ := hreach.exists_returns hs
  have hok := hreach₀.returnOk httl hret
  have hsub : pre ⊆ s.history := by
    rw [hs]
    exact fun x hx => List.mem_append_right post (List.mem_cons_of_mem _ hx)
  cases res with
  | fresh v =>
    obtain ⟨t', hm⟩ := hok
    exact .inr ⟨r, v, t', none, rfl, ReachableVia.upstream_eq h (hsub hm), hm, rfl, .inl rfl⟩
  | cached v =>
    obtain ⟨q, t', hm, hq, hage⟩ := hok
    exact .inr ⟨q, v, t', none, rfl, ReachableVia.upstream_eq h (hsub hm), hm, hq, .inr hage⟩
  | stale v age =>
    obtain ⟨q, t', hlast, hq, hage⟩ := hok
    have hm : .fetched q v t' ∈ pre := mem_of_lastFetched hlast
    exact .inr ⟨q, v, t', some age, rfl, ReachableVia.upstream_eq h (hsub hm), hm, hq, hage⟩
  | failed e => exact .inl ⟨e, rfl⟩

/-- Two requests of one pod for one key. -/
def twoRequests (key : String) (ttl : ℕ) : Config 2 where
  call _ := ⟨0, key, ttl⟩
  shared _ := false

/-- Request 0 fetches a payload, a second later request 1 gets it from the cache. -/
def hitRun (v : String) : List (Action 2) :=
  [.arrive 0, .lookup 0, .lock 0, .fetch 0, .fetchOk 0 v, .storeDone 0, .remove 0, .notify 0,
    .tick second, .arrive 1, .lookup 1]

/-- Request 1 is answered with the payload of request 0, if the TTL has not passed. -/
theorem exists_run_hitRun (key v : String) {ttl : ℕ} (hone : 1 < ttl) (hlast : ttl ≤ maxInstantSecs) :
    ∃ s pre, Transition.run (step (twoRequests key ttl)) (hitRun v) Cluster.init = some s ∧
      s.history = [] ++ .returned 1 (.cached v) second :: pre := by
  have hexpiry : addSecs 0 ttl = some (ttl * second) := by simp [addSecs, hlast]
  have hlive : second < ttl * second := by
    simp only [second]
    omega
  simp [hitRun, Transition.run, step, twoRequests, Cluster.init, Config.asksShared, Cluster.podOf,
    Cluster.cacheGet, Cluster.cachePut, Cache.get, Cache.put, Cache.putAt, Cache.empty, Pc.wake,
    Pc.MayWait, hexpiry, hlive]

theorem reachableWith_hitRun {cfg : Config 2} {s : Cluster 2} {v : String}
    (hs : Transition.run (step cfg) (hitRun v) Cluster.init = some s) :
    ReachableWith cfg (fun _ => .ok v) s := by
  refine Transition.reachableVia_of_run hs fun a ha t r w hw => ?_
  subst hw
  have hboth : r = 0 ∧ w = v := by simpa [hitRun] using ha
  exact congrArg Except.ok hboth.2.symm

end Server

/-! ### The Worker -/

namespace Worker

variable {ι : Type} [DecidableEq ι] {call : ι → Call} {s s' : State ι} {a : Action ι}
  {upstream : ι → Except String String}

/-- A call that succeeds in this step has the payload that upstream has for it. -/
def SucceedsAs (upstream : ι → Except String String) (a : Action ι) : Prop :=
  ∀ r v, a = .fetchOk r v → upstream r = .ok v

/-- The states of the runs in which all calls that succeed have their payload. -/
abbrev ReachableWith (call : ι → Call) (upstream : ι → Except String String) (s : State ι) : Prop :=
  Transition.ReachableVia (step call) (fun _ a => SucceedsAs upstream a) State.init s

omit [DecidableEq ι] in
theorem mem_of_mem_record {e e' : Event ι} (hm : e' ∈ (s.record e).history) (hne : e' ≠ e) :
    e' ∈ s.history :=
  (List.mem_cons.1 hm).resolve_left hne

/-- A payload that is in the history is that of a call which succeeded. -/
theorem fetchOk_of_fetched (h : step call s a = some s') {q : ι} {v : String} {t : ℕ}
    (hm : .fetched q v t ∈ s'.history) : .fetched q v t ∈ s.history ∨ a = .fetchOk q v := by
  cases a with
  | fetchOk r v' =>
    simp only [step] at h
    split at h <;> cases h
    by_cases heq : Event.fetched q v t = .fetched r v' s.now
    · obtain ⟨rfl, rfl, -⟩ := Event.fetched.inj heq
      exact .inr rfl
    · exact .inl (mem_of_mem_record hm heq)
  | judge r =>
    simp only [step] at h
    split at h
    · split at h <;> cases h
      all_goals exact .inl (mem_of_mem_record hm (by simp))
    · cases h
  | arrive r =>
    simp only [step] at h
    split_ifs at h
    cases h
    exact .inl (mem_of_mem_record hm (by simp))
  | miss r | fetchErr r e =>
    simp only [step] at h
    split at h <;> cases h
    all_goals exact .inl (mem_of_mem_record hm (by simp))
  | tick d | drop r =>
    simp only [step] at h
    split_ifs at h
    cases h
    exact .inl hm
  | hit r | write r | putDone r =>
    simp only [step] at h
    split at h <;> cases h
    exact .inl hm
  | evict centre url =>
    cases h
    exact .inl hm

theorem upstream_eq (h : ReachableWith call upstream s) {q : ι} {v : String} {t : ℕ}
    (hm : .fetched q v t ∈ s.history) : upstream q = .ok v := by
  refine h.invariant (I := fun s => .fetched q v t ∈ s.history → upstream q = .ok v)
    (by simp [State.init]) ?_ hm
  intro s a s' _ ih hok ha hmem
  rcases fetchOk_of_fetched ha hmem with hold | hnew
  · exact ih hold
  · exact hok q v hnew

/-- The payload that `r` gets at the instant `u` is that of the call of `q`, which succeeded at `t`:
its own, made after it arrived, or a call for its key in its data centre that is within its TTL at
`u`, or one past it. The age that comes with a payload past its TTL is that at the one lookup of `r`,
at `j` after its arrival at `a`; all that is not in it is the time that its own call took to fail. -/
structure ServedFrom (call : ι → Call) (upstream : ι → Except String String) (h : List (Event ι))
    (r q : ι) (v : String) (u t : ℕ) (stale : Option ℕ) : Prop where
  upstream : upstream q = .ok v
  fetched : .fetched q v t ∈ h
  centre : (call q).centre = (call r).centre
  key : (call q).key = (call r).key
  le : t ≤ u
  age : match stale with
    | none => (q = r ∧ ∃ a ≤ t, .arrived r a ∈ h) ∨ nowMs u - nowMs t < 1000 * (call r).ttlSecs
    | some age => ∃ e a j, course h r =
          [.failed r e u, .looked r (.stale v age) j, .arrived r a] ∧ a ≤ j ∧ j ≤ u ∧ t ≤ j ∧
        age = (nowMs j - nowMs t) / 1000 ∧ (call r).ttlSecs ≤ age ∧ age ≤ staleMaxAgeSecs

/-- What has happened to a request is in the history. -/
theorem mem_of_course_eq {h l : List (Event ι)} {r : ι} {e : Event ι} (hc : course h r = l)
    (he : e ∈ l) : e ∈ h := by
  subst hc
  exact List.mem_of_mem_filter he

/-- What a handler gets, in every run. -/
theorem servedFrom_of_done (h : ReachableWith call upstream s) {r : ι} {res : Served} {u : ℕ}
    (hr : s.pc r = .done res u) :
    (∃ e, res = .error e ∧ .failed r e u ∈ s.history) ∨
      ∃ q v t stale, payloadOfWorker res = .ok (v, stale) ∧
        ServedFrom call upstream s.history r q v u t stale := by
  have hreach : Reachable call s := h.reachable
  have hpc := hreach.traced.pc r
  rw [hr] at hpc
  obtain ⟨-, hok⟩ := hpc
  cases res with
  | hit v =>
    obtain ⟨-, -, -, t, ht, ⟨q, hm, hcentre, hkey⟩, hlt⟩ := hok
    exact .inr ⟨q, v, t, none, rfl, upstream_eq h hm, hm, hcentre, hkey, ht, .inr hlt⟩
  | fetched v =>
    obtain ⟨cached, a, j, t, ha, hj, ht, -, hc⟩ := hok
    have hm : .fetched r v t ∈ s.history := mem_of_course_eq hc List.mem_cons_self
    have harrived : .arrived r a ∈ s.history := mem_of_course_eq hc (by simp)
    exact .inr ⟨r, v, t, none, rfl, upstream_eq h hm, hm, rfl, rfl, ht,
      .inl ⟨rfl, a, ha.trans hj, harrived⟩⟩
  | stale v age =>
    obtain ⟨e, a, j, ha, hj, ⟨t, ht, ⟨q, hm, hcentre, hkey⟩, hage⟩, hc⟩ := hok
    exact .inr ⟨q, v, t, some age, rfl, upstream_eq h hm, hm, hcentre, hkey, ht.trans hj, e, a, j, hc,
      ha, hj, ht, hage⟩
  | error e =>
    obtain ⟨a, j, -, -, hc⟩ := hok
    exact .inl ⟨e, rfl, mem_of_course_eq hc List.mem_cons_self⟩

theorem reachableWith_lateRun {call : Fin 2 → Call} {s : State (Fin 2)} {v : String} {age : ℕ}
    (hs : Transition.run (step call) (lateRun v age) State.init = some s) :
    ReachableWith call (fun _ => .ok v) s := by
  refine Transition.reachableVia_of_run hs fun a ha t r w hw => ?_
  subst hw
  have hboth : r = 0 ∧ w = v := by simpa [lateRun] using ha
  exact congrArg Except.ok hboth.2.symm

end Worker

end Traintime
