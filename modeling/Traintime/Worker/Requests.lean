import Mathlib.Data.Fin.VecNotation
import Mathlib.Data.List.Count
import Traintime.Lib.Transition
import Traintime.Worker.Payload

/-!
# Requests to the Worker

Any number of requests to the Worker at the same time, in any data centres. They share the edge cache
of their data centre and nothing else, so two of them may fetch the same key. A request is cut at
every `await` of `get`, the upstream call and `put` (`src/cache.rs`, `src/routes/departures.rs`).

* The edge cache may drop an entry at any time, and give one as long as it has it.
* A put is processed at any time after it was issued, or never, also when its request is over, and
  so may overwrite a later one.
* A match may fail, and so may reading its body.
* A request's future may be dropped at every await.
* The clock moves between any two steps, up to the last date there is.

## Main definitions

* `Worker.Call`, `Worker.State`, `Worker.Pc`: the requests, the state and the point a request has
  reached.
* `Worker.Action`, `Worker.step`: one step.
* `Worker.course`: what has become of a request.
* `Worker.ReturnOk`: what an answer says about the course of its request and the fetches before it.

## Main results

* `Worker.Reachable.traced`: the invariant of all runs.
* `Worker.returnOk_of_done`: what a request is answered in any run.
-/

namespace Traintime.Worker

open Function

variable {ι : Type} [DecidableEq ι]

/-- A request: the data centre that serves it, its cache key and the TTL in seconds. -/
structure Call where
  centre : ℕ
  key : String
  ttlSecs : ℕ
deriving DecidableEq, Repr

/-- What the edge cache keeps an entry under. -/
def Call.place (c : Call) : ℕ × String := (c.centre, cacheUrl c.key)

/-- The point a request has reached in a handler of the Worker, between two steps that no other
request can come in between. -/
inductive Pc
  | idle
  /-- Awaiting the match in the edge cache. -/
  | matching
  /-- Awaiting the body of the match. -/
  | matched (raw : String)
  /-- Awaiting upstream, with what the cache gave at `judgedAt`. -/
  | fetching (cached : Cached) (judgedAt : ℕ)
  /-- Awaiting the put. -/
  | putting (v : String)
  | done (res : Served) (at_ : ℕ)
  | dropped
deriving DecidableEq

/-- What happens to a request: it arrives, its lookup ends, and its upstream call ends. -/
inductive Event (ι : Type)
  | arrived (r : ι) (at_ : ℕ)
  | looked (r : ι) (cached : Cached) (at_ : ℕ)
  | fetched (r : ι) (v : String) (at_ : ℕ)
  | failed (r : ι) (e : String) (at_ : ℕ)
deriving DecidableEq

/-- The request that an event happens to. Every event happens to one. -/
def Event.subject : Event ι → ι
  | arrived r _ | looked r _ _ | fetched r _ _ | failed r _ _ => r

/-- The state of the edge caches and of all requests. A put that was issued is a text. The history
is newest first. -/
structure State (ι : Type) where
  now : ℕ
  edge : AssocMap (ℕ × String) String
  issued : ι → Option String
  pc : ι → Pc
  history : List (Event ι)

/-- The clock is at zero, the edge caches are empty and no request has arrived. -/
def State.init : State ι where
  now := 0
  edge := ∅
  issued _ := none
  pc _ := .idle
  history := []

namespace State

variable (s : State ι)

/-- The request `r` moves to `pc`, and the others stay where they are. -/
def goto (r : ι) (pc : Pc) : State ι := { s with pc := update s.pc r pc }

/-- The request `r` is answered at this instant. -/
def return_ (r : ι) (res : Served) : State ι := s.goto r (.done res s.now)

/-- Something happens, and becomes the newest event of the history. -/
def record (e : Event ι) : State ι := { s with history := e :: s.history }

end State

/-- The last date of JavaScript, in unix ms. -/
def lastDate : ℕ := 8640000000000000

/-- One step. Every step but the first and the last is a step of one request. -/
inductive Action (ι : Type)
  | tick (d : ℕ)
  | arrive (r : ι)
  /-- The edge cache has an entry. -/
  | hit (r : ι)
  /-- It has none or fails, or the body of the match cannot be read. -/
  | miss (r : ι)
  /-- The body of the match is there. -/
  | judge (r : ι)
  /-- The upstream call succeeds and the put is issued. -/
  | fetchOk (r : ι) (v : String)
  | fetchErr (r : ι) (e : String)
  /-- The edge cache processes the put. -/
  | write (r : ι)
  | putDone (r : ι)
  /-- The future is dropped at an await. -/
  | drop (r : ι)
  /-- The edge cache drops an entry. -/
  | evict (centre : ℕ) (url : String)

/-- The points at which the future of a request can be dropped. -/
def Pc.Awaiting : Pc → Bool
  | .matching | .matched _ | .fetching _ _ | .putting _ => true
  | _ => false

/-- The state after an action, if the action is possible. -/
def step (call : ι → Call) (s : State ι) : Action ι → Option (State ι)
  | .tick d => if nowMs (s.now + d) ≤ lastDate then some { s with now := s.now + d } else none
  | .arrive r =>
    if s.pc r = .idle then some ((s.goto r .matching).record (.arrived r s.now)) else none
  | .hit r =>
    match s.pc r, s.edge.lookup (call r).place with
    | .matching, some raw => some (s.goto r (.matched raw))
    | _, _ => none
  | .miss r =>
    match s.pc r with
    | .matching | .matched _ =>
      some ((s.goto r (.fetching .missing s.now)).record (.looked r .missing s.now))
    | _ => none
  | .judge r =>
    match s.pc r with
    | .matched raw =>
      match judge (call r).ttlSecs s.now raw with
      | .fresh v => some ((s.return_ r (.hit v)).record (.looked r (.fresh v) s.now))
      | cached => some ((s.goto r (.fetching cached s.now)).record (.looked r cached s.now))
    | _ => none
  | .fetchOk r v =>
    match s.pc r with
    | .fetching _ _ =>
      some ({ s.goto r (.putting v) with
        issued := update s.issued r (some (CachedPayload.text ⟨nowMs s.now, v⟩)) }.record
          (.fetched r v s.now))
    | _ => none
  | .fetchErr r e =>
    match s.pc r with
    | .fetching (.stale v age) _ => some ((s.return_ r (.stale v age)).record (.failed r e s.now))
    | .fetching _ _ => some ((s.return_ r (.error e)).record (.failed r e s.now))
    | _ => none
  | .write r =>
    match s.issued r with
    | some raw => some { s with edge := s.edge.insert (call r).place raw }
    | none => none
  | .putDone r =>
    match s.pc r with
    | .putting v => some (s.return_ r (.fetched v))
    | _ => none
  | .drop r => if (s.pc r).Awaiting then some (s.goto r .dropped) else none
  | .evict centre url => some { s with edge := s.edge.erase (centre, url) }

/-- The states of the runs, from empty edge caches and before any request has arrived. -/
abbrev Reachable (call : ι → Call) (s : State ι) : Prop :=
  Transition.Reachable (step call) State.init s

/-! ### Where payloads come from -/

section Traced

variable (call : ι → Call) (h : List (Event ι))

/-- What has happened to a request, newest first. -/
def course (r : ι) : List (Event ι) := h.filter fun e => decide (e.subject = r)

/-- A request for the same key in the same data centre has fetched `v` at the instant `t`. -/
def FetchedFor (r : ι) (v : String) (t : ℕ) : Prop :=
  ∃ q, .fetched q v t ∈ h ∧ (call q).centre = (call r).centre ∧ (call q).key = (call r).key

/-- A payload past its TTL, with its age at the instant `j`. -/
def StaleFor (r : ι) (v : String) (age j : ℕ) : Prop :=
  ∃ t ≤ j, FetchedFor call h r v t ∧ age = (nowMs j - nowMs t) / 1000 ∧
    (call r).ttlSecs ≤ age ∧ age ≤ staleMaxAgeSecs

/-- What an answer to `r` at the instant `u` says about the course of the request and about the
payload. A payload within its TTL is judged at `u` and spares the call. The payload of the request's
own call is one that it fetched after its lookup. A payload past its TTL is given only when the
request's call fails at `u`, with the age that it had at the request's own lookup at `j`, after its
arrival at `a`. -/
def ReturnOk (r : ι) (u : ℕ) : Served → Prop
  | .hit v => ∃ a ≤ u, course h r = [.looked r (.fresh v) u, .arrived r a] ∧
      ∃ t ≤ u, FetchedFor call h r v t ∧ nowMs u - nowMs t < 1000 * (call r).ttlSecs
  | .fetched v => ∃ cached a j t, a ≤ j ∧ j ≤ t ∧ t ≤ u ∧ (∀ w, cached ≠ .fresh w) ∧
      course h r = [.fetched r v t, .looked r cached j, .arrived r a]
  | .stale v age => ∃ e a j, a ≤ j ∧ j ≤ u ∧ StaleFor call h r v age j ∧
      course h r = [.failed r e u, .looked r (.stale v age) j, .arrived r a]
  | .error e => ∃ a j, a ≤ j ∧ j ≤ u ∧
      course h r = [.failed r e u, .looked r .missing j, .arrived r a]

/-- The text is that of a payload fetched at an instant that is past. -/
def IsEntry (now : ℕ) (place : ℕ × String) (raw : String) : Prop :=
  ∃ q v, ∃ t ≤ now, .fetched q v t ∈ h ∧ (call q).place = place ∧
    raw = CachedPayload.text ⟨nowMs t, v⟩

/-- What holds of a request at each point: its course so far, and where the text or the payload
that it has comes from. -/
def Pc.Traced (now : ℕ) (r : ι) : Pc → Prop
  | .idle => course h r = []
  | .matching => ∃ a ≤ now, course h r = [.arrived r a]
  | .matched raw => (∃ a ≤ now, course h r = [.arrived r a]) ∧
      IsEntry call h now (call r).place raw
  | .fetching cached j => (∃ a ≤ j, course h r = [.looked r cached j, .arrived r a]) ∧ j ≤ now ∧
      match cached with
      | .fresh _ => False
      | .stale v age => StaleFor call h r v age j
      | .missing => True
  | .putting v => ∃ cached a j t, a ≤ j ∧ j ≤ t ∧ t ≤ now ∧ (∀ w, cached ≠ .fresh w) ∧
      course h r = [.fetched r v t, .looked r cached j, .arrived r a]
  | .done res u => u ≤ now ∧ ReturnOk call h r u res
  | .dropped => True

end Traced

/-- Every copy of a payload goes back to a fetch in the history. -/
structure Traced (call : ι → Call) (s : State ι) : Prop where
  now_le : nowMs s.now ≤ lastDate
  edge : ∀ place raw, s.edge.lookup place = some raw → IsEntry call s.history s.now place raw
  issued : ∀ r raw, s.issued r = some raw → IsEntry call s.history s.now (call r).place raw
  pc : ∀ r, (s.pc r).Traced call s.history s.now r

variable {call : ι → Call} {s s' : State ι} {a : Action ι} {h h' : List (Event ι)}

theorem place_eq_iff {c c' : Call} : c.place = c'.place ↔ c.centre = c'.centre ∧ c.key = c'.key := by
  rw [Call.place, Call.place, Prod.mk.injEq, cacheUrl_injective.eq_iff]

omit [DecidableEq ι] in
theorem IsEntry.mono {now now' : ℕ} {place : ℕ × String} {raw : String}
    (he : IsEntry call h now place raw) (hh : h ⊆ h') (hnow : now ≤ now') :
    IsEntry call h' now' place raw := by
  obtain ⟨q, v, t, ht, hm, hp, hraw⟩ := he
  exact ⟨q, v, t, ht.trans hnow, hh hm, hp, hraw⟩

omit [DecidableEq ι] in
theorem FetchedFor.mono {r : ι} {v : String} {t : ℕ} (hf : FetchedFor call h r v t) (hh : h ⊆ h') :
    FetchedFor call h' r v t := by
  obtain ⟨q, hm, hq⟩ := hf
  exact ⟨q, hh hm, hq⟩

omit [DecidableEq ι] in
theorem StaleFor.mono {r : ι} {v : String} {age j : ℕ} (hf : StaleFor call h r v age j)
    (hh : h ⊆ h') : StaleFor call h' r v age j := by
  obtain ⟨t, ht, hm, hage⟩ := hf
  exact ⟨t, ht, hm.mono hh, hage⟩

theorem ReturnOk.mono {r : ι} {u : ℕ} {res : Served} (hr : ReturnOk call h r u res) (hh : h ⊆ h')
    (hcourse : course h' r = course h r) : ReturnOk call h' r u res := by
  cases res with
  | hit v =>
    obtain ⟨a, ha, hc, t, ht, hm, hlt⟩ := hr
    exact ⟨a, ha, hcourse.trans hc, t, ht, hm.mono hh, hlt⟩
  | fetched v =>
    obtain ⟨cached, a, j, t, ha, hj, ht, hne, hc⟩ := hr
    exact ⟨cached, a, j, t, ha, hj, ht, hne, hcourse.trans hc⟩
  | stale v age =>
    obtain ⟨e, a, j, ha, hj, hs, hc⟩ := hr
    exact ⟨e, a, j, ha, hj, hs.mono hh, hcourse.trans hc⟩
  | error e =>
    obtain ⟨a, j, ha, hj, hc⟩ := hr
    exact ⟨a, j, ha, hj, hcourse.trans hc⟩

/-- What holds of a request is kept by the steps of the others. -/
theorem Pc.Traced.mono {now now' : ℕ} {r : ι} {pc : Pc} (hpc : pc.Traced call h now r)
    (hh : h ⊆ h') (hcourse : course h' r = course h r) (hnow : now ≤ now') :
    pc.Traced call h' now' r := by
  cases pc with
  | idle => exact hcourse.trans hpc
  | matching =>
    obtain ⟨a, ha, hc⟩ := hpc
    exact ⟨a, ha.trans hnow, hcourse.trans hc⟩
  | matched raw =>
    obtain ⟨⟨a, ha, hc⟩, hraw⟩ := hpc
    exact ⟨⟨a, ha.trans hnow, hcourse.trans hc⟩, hraw.mono hh hnow⟩
  | fetching cached j =>
    obtain ⟨⟨a, ha, hc⟩, hj, hcached⟩ := hpc
    refine ⟨⟨a, ha, hcourse.trans hc⟩, hj.trans hnow, ?_⟩
    cases cached with
    | fresh v => exact hcached
    | stale v age => exact hcached.mono hh
    | missing => trivial
  | putting v =>
    obtain ⟨cached, a, j, t, ha, hj, ht, hne, hc⟩ := hpc
    exact ⟨cached, a, j, t, ha, hj, ht.trans hnow, hne, hcourse.trans hc⟩
  | done res u => exact ⟨hpc.1.trans hnow, hpc.2.mono hh hcourse⟩
  | dropped => trivial

theorem course_cons (e : Event ι) (r : ι) :
    course (e :: h) r = if e.subject = r then e :: course h r else course h r := by
  rw [course, List.filter_cons, course]
  simp

/-- The course of a request grows by what happens to it. -/
theorem course_cons_subject {e : Event ι} {r : ι} {l : List (Event ι)} (he : e.subject = r)
    (hc : course h r = l) : course (e :: h) r = e :: l := by
  rw [course_cons, if_pos he, hc]

/-- A step of the request `r` in which nothing happens to it. -/
theorem Traced.goto (hs : Traced call s) {r : ι} (pc : Pc)
    (hpc : pc.Traced call s.history s.now r) : Traced call (s.goto r pc) := by
  refine ⟨hs.now_le, hs.edge, hs.issued, fun q => ?_⟩
  by_cases hq : q = r
  · subst hq
    simpa [State.goto] using hpc
  · simpa [State.goto, hq] using hs.pc q

/-- A step of a request with what happens to it. -/
theorem Traced.record (hs : Traced call s) (e : Event ι) (pc : Pc)
    (hpc : pc.Traced call (e :: s.history) s.now e.subject) :
    Traced call ((s.goto e.subject pc).record e) := by
  have hh : s.history ⊆ e :: s.history := List.subset_cons_self e s.history
  refine ⟨hs.now_le, fun k raw hk => (hs.edge k raw hk).mono hh le_rfl,
    fun q raw hq => (hs.issued q raw hq).mono hh le_rfl, fun q => ?_⟩
  by_cases hq : q = e.subject
  · subst hq
    simpa [State.goto, State.record] using hpc
  · have hcourse : course (e :: s.history) q = course s.history q := by
      rw [course_cons, if_neg (Ne.symm hq)]
    simpa [State.goto, State.record, hq] using (hs.pc q).mono hh hcourse le_rfl

/-- A request whose lookup has ended, and not with a payload within its TTL. -/
theorem Traced.looked (hs : Traced call s) {r : ι} (cached : Cached) {a : ℕ} (ha : a ≤ s.now)
    (hc : course s.history r = [.arrived r a])
    (hcached : match cached with
      | .fresh _ => False
      | .stale v age => StaleFor call s.history r v age s.now
      | .missing => True) :
    Traced call ((s.goto r (.fetching cached s.now)).record (.looked r cached s.now)) := by
  refine hs.record (.looked r cached s.now) (.fetching cached s.now)
    ⟨⟨a, ha, course_cons_subject rfl hc⟩, le_rfl, ?_⟩
  cases cached with
  | fresh v => exact hcached
  | stale v age => exact hcached.mono (List.subset_cons_self _ _)
  | missing => trivial

/-- A request whose upstream call succeeds sends the payload to the edge cache. -/
theorem Traced.fetched (hs : Traced call s) {r : ι} (v : String) {cached : Cached} {j : ℕ}
    (hpc : (Pc.fetching cached j).Traced call s.history s.now r) :
    Traced call ({ s.goto r (.putting v) with
      issued := update s.issued r (some (CachedPayload.text ⟨nowMs s.now, v⟩)) }.record
        (.fetched r v s.now)) := by
  obtain ⟨⟨a, ha, hc⟩, hj, hcached⟩ := hpc
  have hmem : Event.fetched r v s.now ∈ Event.fetched r v s.now :: s.history := List.mem_cons_self
  have hne : ∀ w, cached ≠ .fresh w := by
    rintro w rfl
    exact hcached
  have hold := hs.record (.fetched r v s.now) (.putting v)
    ⟨cached, a, j, s.now, ha, hj, le_rfl, hne, course_cons_subject rfl hc⟩
  refine ⟨hold.now_le, hold.edge, fun q raw hq => ?_, hold.pc⟩
  by_cases hqr : q = r
  · subst hqr
    have hraw : raw = CachedPayload.text ⟨nowMs s.now, v⟩ := by
      simpa [State.record, State.goto, eq_comm] using hq
    rw [hraw]
    exact ⟨q, v, s.now, le_rfl, hmem, rfl, rfl⟩
  · exact hold.issued q raw (by simpa [State.record, State.goto, hqr] using hq)

/-- The body of a match is judged by the age of the payload in it. -/
theorem Traced.judge_cases (hs : Traced call s) {r : ι} {raw : String}
    (hraw : IsEntry call s.history s.now (call r).place raw) :
    (∃ v, judge (call r).ttlSecs s.now raw = .fresh v ∧ ∃ t ≤ s.now,
        FetchedFor call s.history r v t ∧ nowMs s.now - nowMs t < 1000 * (call r).ttlSecs) ∨
      (∃ v age, judge (call r).ttlSecs s.now raw = .stale v age ∧
        StaleFor call s.history r v age s.now) ∨
      judge (call r).ttlSecs s.now raw = .missing := by
  obtain ⟨q, v, t, ht, hm, hplace, rfl⟩ := hraw
  have hfor : FetchedFor call s.history r v t := ⟨q, hm, place_eq_iff.1 hplace⟩
  have hdate : nowMs t < 2 ^ 64 := by
    have hle : nowMs t ≤ nowMs s.now := Nat.div_le_div_right ht
    have := hs.now_le
    simp only [lastDate] at this
    omega
  rw [judge_text hdate]
  cases hc : classify (nowMs t) (nowMs s.now) (call r).ttlSecs with
  | fresh => exact .inl ⟨v, rfl, t, ht, hfor, classify_eq_fresh_iff.1 hc⟩
  | stale age =>
    obtain ⟨hle, rfl, hage⟩ := classify_eq_stale_iff.1 hc
    exact .inr (.inl ⟨v, _, rfl, t, ht, hfor, rfl, by omega, hage⟩)
  | expired => exact .inr (.inr rfl)

/-- Every step keeps every copy traced. -/
theorem Traced.step (hs : Traced call s) (ha : step call s a = some s') : Traced call s' := by
  cases a with
  | tick d =>
    simp only [Worker.step] at ha
    split_ifs at ha with hd
    cases ha
    have hnow : s.now ≤ s.now + d := Nat.le_add_right _ _
    exact ⟨hd, fun k raw hk => (hs.edge k raw hk).mono (List.Subset.refl _) hnow,
      fun q raw hq => (hs.issued q raw hq).mono (List.Subset.refl _) hnow,
      fun q => (hs.pc q).mono (List.Subset.refl _) rfl hnow⟩
  | arrive r =>
    simp only [Worker.step] at ha
    split_ifs at ha with hr
    cases ha
    have hpc := hs.pc r
    rw [hr] at hpc
    exact hs.record (.arrived r s.now) .matching ⟨s.now, le_rfl, course_cons_subject rfl hpc⟩
  | hit r =>
    simp only [Worker.step] at ha
    split at ha
    next raw hr hraw =>
      cases ha
      have hpc := hs.pc r
      rw [hr] at hpc
      exact hs.goto (.matched raw) ⟨hpc, hs.edge _ _ hraw⟩
    next => cases ha
  | miss r =>
    have hpc := hs.pc r
    simp only [Worker.step] at ha
    split at ha
    next hr =>
      cases ha
      rw [hr] at hpc
      obtain ⟨a, ha, hc⟩ := hpc
      exact hs.looked .missing ha hc trivial
    next raw hr =>
      cases ha
      rw [hr] at hpc
      obtain ⟨⟨a, ha, hc⟩, -⟩ := hpc
      exact hs.looked .missing ha hc trivial
    next => cases ha
  | judge r =>
    simp only [Worker.step] at ha
    split at ha
    next raw hr =>
      have hpc := hs.pc r
      rw [hr] at hpc
      obtain ⟨⟨a, hle, hc⟩, hraw⟩ := hpc
      rcases hs.judge_cases hraw with ⟨v, hj, t, ht, hv, hlt⟩ | ⟨v, age, hj, hv⟩ | hj
      · rw [hj] at ha
        cases ha
        exact hs.record (.looked r (.fresh v) s.now) (.done (.hit v) s.now)
          ⟨le_rfl, a, hle, course_cons_subject rfl hc, t, ht,
            hv.mono (List.subset_cons_self _ _), hlt⟩
      · rw [hj] at ha
        cases ha
        exact hs.looked (.stale v age) hle hc hv
      · rw [hj] at ha
        cases ha
        exact hs.looked .missing hle hc trivial
    next => cases ha
  | fetchOk r v =>
    simp only [Worker.step] at ha
    split at ha
    next cached j hr =>
      cases ha
      have hpc := hs.pc r
      rw [hr] at hpc
      exact hs.fetched v hpc
    next => cases ha
  | fetchErr r e =>
    have hpc := hs.pc r
    simp only [Worker.step] at ha
    split at ha
    next v age j hr =>
      cases ha
      rw [hr] at hpc
      obtain ⟨⟨a, ha, hc⟩, hj, hv⟩ := hpc
      exact hs.record (.failed r e s.now) (.done (.stale v age) s.now)
        ⟨le_rfl, e, a, j, ha, hj, hv.mono (List.subset_cons_self _ _), course_cons_subject rfl hc⟩
    next cached j hcached hr =>
      cases ha
      rw [hr] at hpc
      obtain ⟨⟨a, ha, hc⟩, hj, hmissing⟩ := hpc
      have hcached : cached = .missing := by
        cases cached with
        | fresh v => exact hmissing.elim
        | stale v age => exact absurd rfl (hcached v age)
        | missing => rfl
      subst hcached
      exact hs.record (.failed r e s.now) (.done (.error e) s.now)
        ⟨le_rfl, a, j, ha, hj, course_cons_subject rfl hc⟩
    next => cases ha
  | write r =>
    simp only [Worker.step] at ha
    split at ha
    next raw hr =>
      cases ha
      refine ⟨hs.now_le, fun k raw' hk => ?_, hs.issued, hs.pc⟩
      rw [AssocMap.lookup_insert_eq] at hk
      split_ifs at hk with hkr
      · obtain rfl := Option.some.inj hk
        rw [hkr]
        exact hs.issued r raw hr
      · exact hs.edge k raw' hk
    next => cases ha
  | putDone r =>
    simp only [Worker.step] at ha
    split at ha
    next v hr =>
      cases ha
      have hpc := hs.pc r
      rw [hr] at hpc
      exact hs.goto (.done (.fetched v) s.now) ⟨le_rfl, hpc⟩
    next => cases ha
  | drop r =>
    simp only [Worker.step] at ha
    split_ifs at ha
    cases ha
    exact hs.goto .dropped trivial
  | evict centre url =>
    cases ha
    refine ⟨hs.now_le, fun k raw hk => ?_, hs.issued, hs.pc⟩
    rw [AssocMap.lookup_erase_eq] at hk
    split_ifs at hk
    exact hs.edge k raw hk

/-- In every state reached every copy goes back to a fetch. -/
theorem Reachable.traced (h : Reachable call s) : Traced call s :=
  h.invariant (I := Traced call)
    ⟨(Nat.zero_div _).trans_le (Nat.zero_le _), fun k raw hk => by simp [State.init] at hk, nofun,
      fun _ => rfl⟩
    fun _ _ _ _ hI ha => hI.step ha

/-- **What the Worker answers.** In every run, whatever the edge cache drops, delays or overwrites
and however the requests overlap, a request looks its key up once, makes one upstream call at most,
and none if it finds a payload within its TTL; and every payload it is answered was fetched for its
key in its data centre, by itself after its lookup, or before it and as old at the lookup as the
answer says. -/
theorem returnOk_of_done (h : Reachable call s) {r : ι} {res : Served} {u : ℕ}
    (hr : s.pc r = .done res u) : ReturnOk call s.history r u res := by
  have hpc := h.traced.pc r
  rw [hr] at hpc
  exact hpc.2

/-- A request whose match is stale after a while and whose call fails a while later is answered with
the match. -/
theorem exists_run_of_stale (call : ι → Call) (d d' : ℕ) {r : ι} {raw v : String} {age : ℕ}
    (hr : s.pc r = .matched raw) (hd : nowMs (s.now + d + d') ≤ lastDate)
    (hj : judge (call r).ttlSecs (s.now + d) raw = .stale v age) (e : String) :
    ∃ s', Transition.run (step call) [.tick d, .judge r, .tick d', .fetchErr r e] s = some s' ∧
      s'.pc r = .done (.stale v age) (s.now + d + d') := by
  have hjudgedAt : nowMs (s.now + d) ≤ lastDate :=
    (Nat.div_le_div_right (Nat.le_add_right _ _)).trans hd
  set s₁ : State ι := { s with now := s.now + d } with hs₁
  set s₂ : State ι := (s₁.goto r (.fetching (.stale v age) s₁.now)).record
    (.looked r (.stale v age) s₁.now) with hs₂
  set s₃ : State ι := { s₂ with now := s₂.now + d' } with hs₃
  have hticked : step call s (.tick d) = some s₁ := by simp only [step, if_pos hjudgedAt, hs₁]
  have hjudged : step call s₁ (.judge r) = some s₂ := by simp only [step, hs₁, hr, hj, hs₂]
  have hwaited : step call s₂ (.tick d') = some s₃ := by
    have hnow : nowMs (s₂.now + d') ≤ lastDate := hd
    simp only [step, if_pos hnow, hs₃]
  have hfailed : step call s₃ (.fetchErr r e) =
      some ((s₃.return_ r (.stale v age)).record (.failed r e s₃.now)) := by
    simp only [step, hs₃, hs₂, State.goto, State.record, update_self]
  refine ⟨(s₃.return_ r (.stale v age)).record (.failed r e s₃.now), ?_, ?_⟩
  · simp only [Transition.run, hticked, hjudged, hwaited, hfailed, Option.bind_some]
  · simp [State.record, State.return_, State.goto, hs₃, hs₂, hs₁]

/-- Two requests of one data centre for one key. -/
def twoRequests (key : String) (ttlSecs : ℕ) : Fin 2 → Call := fun _ => ⟨0, key, ttlSecs⟩

/-- Request 0 fetches and leaves, and its put is processed after that. Request 1 finds the entry, has
its body `age` seconds later, and its call fails nine seconds after that. -/
def lateRun (v : String) (age : ℕ) : List (Action (Fin 2)) :=
  [.arrive 0, .miss 0, .fetchOk 0 v, .drop 0, .write 0, .arrive 1, .hit 1] ++
    [.tick (age * second), .judge 1, .tick (9 * second), .fetchErr 1 "timeout"]

theorem exists_run_lateRun (key v : String) {ttlSecs age : ℕ} (httl : ttlSecs ≤ age)
    (hage : age ≤ staleMaxAgeSecs) : ∃ s,
    Transition.run (step (twoRequests key ttlSecs)) (lateRun v age) State.init = some s ∧
      s.pc 1 = .done (.stale v age) ((age + 9) * second) := by
  obtain ⟨s, hs, hpc, hnow⟩ : ∃ s, Transition.run (step (twoRequests key ttlSecs))
      [.arrive 0, .miss 0, .fetchOk 0 v, .drop 0, .write 0, .arrive 1, .hit 1] State.init = some s ∧
        s.pc 1 = .matched (CachedPayload.text ⟨nowMs 0, v⟩) ∧ s.now = 0 := by
    simp [Transition.run, step, State.init, State.goto, State.record, Pc.Awaiting, twoRequests,
      -AList.insert_empty]
  have hms : ∀ n, nowMs (n * second) = n * 1000 := by
    intro n
    simp only [nowMs, second, millisecond]
    omega
  have hclass : classify (nowMs 0) (nowMs (age * second)) ttlSecs = .stale age := by
    rw [hms, classify_eq_stale_iff]
    have hzero : nowMs 0 = 0 := Nat.zero_div _
    omega
  have hjudge : judge ttlSecs (age * second) (CachedPayload.text ⟨nowMs 0, v⟩) = .stale v age := by
    have hzero : (⟨nowMs 0, v⟩ : CachedPayload).fetchedAt < 2 ^ 64 := by
      show nowMs 0 < 2 ^ 64
      decide
    rw [judge_text hzero]
    simp only [hclass]
  have hseconds : s.now + age * second + 9 * second = (age + 9) * second := by
    rw [hnow, Nat.zero_add, Nat.add_mul]
  have hlast : nowMs (s.now + age * second + 9 * second) ≤ lastDate := by
    rw [hseconds, hms, lastDate]
    simp only [staleMaxAgeSecs] at hage
    omega
  obtain ⟨s', hs', hanswer⟩ := exists_run_of_stale (twoRequests key ttlSecs) (age * second)
    (9 * second) hpc hlast (by rw [hnow, Nat.zero_add]; exact hjudge) "timeout"
  rw [hseconds] at hanswer
  refine ⟨s', ?_, hanswer⟩
  rw [lateRun, Transition.run_append, hs, Option.bind_some, hs']

/-- The answer says 61 seconds, its age at the lookup, and the payload is nine seconds older. -/
theorem returnOk_of_done_lateRun : ∃ s,
    Transition.run (step (twoRequests "k" 60)) (lateRun "v" 61) State.init = some s ∧
      ReturnOk (twoRequests "k" 60) s.history 1 (70 * second) (.stale "v" 61) := by
  obtain ⟨s, hs, hanswer⟩ := exists_run_lateRun "k" "v" (by decide : 60 ≤ 61) (by decide)
  exact ⟨s, hs, returnOk_of_done (Transition.reachable_of_run hs) hanswer⟩

end Traintime.Worker
