import Traintime.Monitor.Probes

/-!
# The verdicts of the monitor

What a run finds of each host and of the comparison, said by the answers alone: a host is well
exactly if every probe gets a good answer in one of its two attempts, so a bad answer is a failure.
A run withstands its answers if nothing is thrown, so that every check is evaluated with its verdict,
and no departures probe passes without a number in range.

## Main definitions

* `HealthGood`, `NearbyGood`, `FormationGood`: good answers.
* `HostWell`, `Agree`: what a host and a comparison pass with.
* `Withstands`: runs that bad answers cannot harm.

## Main results

* `failures_eq_nil_iff`: a probe passes in the first attempt or in the second.
* `probed_well_iff`, `compared_iff`: the verdicts of a run.
* `withstands_iff`: the answers that a run withstands.
-/

namespace Traintime.Monitor

open Js (Value)

/-! ### Good answers -/

/-- An answer that the health check passes: status 200 and a body whose status is the text `ok`. -/
def HealthGood (answer : Except String Response) : Prop :=
  ∃ resp, answer = .ok resp ∧ resp.status = 200 ∧ Js.getOpt resp.body "status" = some (.str "ok")

/-- The station that the monitor asks for, by its id as a text. -/
def IsStation (s : Value) : Prop := Js.getOpt (some s) "id" = some (.str station)

/-- An answer that the nearby check passes: of its stations the first that is the right one has a list
of departures, and no `null` comes before it. -/
def NearbyGood (answer : Except String Response) : Prop :=
  ∃ resp before found after departures, answer = .ok resp ∧ resp.status = 200 ∧
    Js.getOpt resp.body "train" = some (.arr (before ++ found :: after)) ∧
    (∀ s ∈ before, s ≠ .null ∧ ¬ IsStation s) ∧ IsStation found ∧
    Js.getOpt (some found) "departures" = some (.arr departures)

/-- The path that the nearby check asks for, a place at the station. -/
def nearbyPath : String := "/v1/nearby?lat=47.3779&lon=8.5403&mode=train"

/-- The request for the formation of a train. -/
def formationPath (localDate : ℤ → String) (train : Value) (now : ℤ) : String :=
  "/v1/formation?" ++ formText [("train", Js.text (Js.getOpt (some train) "trainNumber")),
    ("date", localDate now), ("stop", station),
    ("operatorRef", Js.text (orElse (Js.getOpt (some train) "operatorRef") (some (.str ""))))]

/-- The formation check passes the answers of an attempt: the texts of the train can be sent, and the
answer is JSON and found or not found. -/
structure FormationGood (localDate : ℤ → String) (train : Value) (now : ℤ) (get : Get) : Prop where
  trainNumber : Js.convertible (Js.getOpt (some train) "trainNumber") = true
  operatorRef :
    Js.convertible (orElse (Js.getOpt (some train) "operatorRef") (some (.str ""))) = true
  answer : ∃ resp, get (formationPath localDate train now) true = .ok resp ∧
    (resp.status = 200 ∨ resp.status = 404) ∧ resp.body ≠ none

/-- The first row with a train number. -/
def IsFirstTrain (rows : List Value) (train : Value) : Prop :=
  ∃ before after, rows = before ++ train :: after ∧
    Js.truthy (Js.getOpt (some train) "trainNumber") = true ∧
    ∀ d ∈ before, Js.truthy (Js.getOpt (some d) "trainNumber") = false

/-- A host is well: every probe gets a good answer in one of its two attempts. -/
structure HostWell (localDate : ℤ → String) (host : Host) (now : ℤ) : Prop where
  health : HealthGood (host.first "/health" false) ∨ HealthGood (host.second "/health" false)
  departures : ∃ rows, Finds now host rows
  nearby : NearbyGood (host.first nearbyPath true) ∨ NearbyGood (host.second nearbyPath true)
  formation : ∀ rows train, Finds now host rows → IsFirstTrain rows train →
    FormationGood localDate train now host.first ∨ FormationGood localDate train now host.second

/-- The text that the comparison goes by: the line, the train number and the departure of a row. -/
def rowText (d : Value) : String :=
  Js.text (Js.getOpt (some d) "number") ++ " " ++ Js.text (Js.getOpt (some d) "trainNumber") ++
    " @" ++ Js.text (Js.getOpt (some d) "departure")

/-- Inside the window of both, the first rows of two lists have the same texts. -/
def Agree (rowsA rowsB : List Value) : Prop :=
  ∀ text, (∃ d ∈ rowsA.take 5, Inside rowsA rowsB d ∧ rowText d = text) ↔
    ∃ d ∈ rowsB.take 5, Inside rowsA rowsB d ∧ rowText d = text

/-- The two hosts that are compared agree, if both list departures. -/
def HostsAgree (answers : String → Host) (now : ℤ) : Prop :=
  ∀ rowsA rowsB, Finds now (answers "api.traintime.ch") rowsA →
    Finds now (answers "api1.traintime.ch") rowsB → Agree rowsA rowsB

/-- The checks of a run pass exactly what is good. -/
structure Judges (cal : Calendar String) (answers : String → Host) (now : ℤ) (round : Round) :
    Prop where
  host : ∀ host ∈ hosts, round.ok host = true ↔ HostWell cal.localDate (answers host) now
  parity : round.ok "parity" = true ↔ HostsAgree answers now

/-- A run withstands the answers: nothing is thrown, so every check is evaluated with its verdict,
and a departures probe passes only with a number in range in the first row. -/
structure Withstands (cal : Calendar String) (answers : String → Host) (now : ℤ) : Prop where
  completes : ∃ results, (hosts.mapM fun host => probeHost cal.localDate (answers host) now) =
      .ok results ∧ ∃ parity, compareValues (departuresAt results 0) (departuresAt results 1) =
        .ok parity
  evaluates : ∀ store delivers, ∃ round : Round, round.now = now ∧ round.delivers = delivers ∧
    Judges cal answers now round ∧
    runProbes cal store answers now delivers = .ok (run cal store round)
  passes : ∀ host ∈ hosts, ∀ rows,
    attempt (answers host) "departures" (fun get => checkDepartures get now) = .inr rows →
    ∃ first ∈ rows.head?, ∃ x : Js.Number,
      Js.get (some first) "departure" = .ok (some (.num x)) ∧ InRange now x.double

/-! ### Checks and their answers -/

section Checks

variable {now : ℤ} {localDate : ℤ → String} {host : Host} {get : Get} {train d : Value}
  {rows : List Value}

/-- A check that finds nothing but failures passes in the first attempt or in the second. -/
theorem failures_eq_nil_iff {name : String} {check : Get → Except String (Option String)} :
    failures host name check = [] ↔ check host.first = .ok none ∨ check host.second = .ok none := by
  rw [failures, attempt]
  cases check host.first with
  | ok failure =>
    cases failure with
    | none => simp [settled, Except.map]
    | some failure =>
      cases check host.second with
      | ok failure => cases failure <;> simp [settled, Except.map]
      | error e => simp [settled, Except.map]
  | error e =>
    cases check host.second with
    | ok failure => cases failure <;> simp [settled, Except.map]
    | error e => simp [settled, Except.map]

theorem checkHealth_eq_ok_none_iff :
    checkHealth get = .ok none ↔ HealthGood (get "/health" false) := by
  rw [checkHealth, HealthGood, Js.bind_eq_ok_iff]
  refine exists_congr fun resp => and_congr_right fun _ => ?_
  by_cases hstatus : resp.status = 200
  · rw [if_neg (not_not.2 hstatus)]
    simp only [hstatus, true_and]
    split
    · next h => exact iff_of_true rfl h
    · next h => exact iff_of_false nofun h
  · rw [if_pos hstatus]
    exact iff_of_false nofun fun h => hstatus h.1

/-- The search for a station finds the first one, and comes to no `null` before it. -/
theorem findStation_eq_some_iff {stations : List Value} {found : Value} :
    findStation stations = .ok (some found) ↔ ∃ before after, stations = before ++ found :: after ∧
      (∀ s ∈ before, s ≠ .null ∧ ¬ IsStation s) ∧ IsStation found := by
  induction stations with
  | nil => simp [findStation, pure, Except.pure]
  | cons s stations ih =>
    by_cases hs : s = .null
    · subst hs
      refine iff_of_false (fun h => ?_) ?_
      · obtain ⟨_, hget, -⟩ := Js.bind_eq_ok_iff.1 h
        cases hget
      · rintro ⟨before, after, h, hbefore, hfound⟩
        cases before with
        | nil =>
          rw [← (List.cons.inj h).1] at hfound
          cases hfound
        | cons e before => exact (hbefore e List.mem_cons_self).1 (List.cons.inj h).1.symm
    have hstep : ∀ r, findStation (s :: stations) = r ↔
        (IsStation s ∧ r = .ok (some s)) ∨ (¬ IsStation s ∧ findStation stations = r) := by
      intro r
      rw [findStation, get_of_getOpt hs, IsStation]
      simp only [bind, Except.bind]
      split
      · next text h =>
        by_cases htext : text = station
        · simp [h, htext, pure, Except.pure, eq_comm]
        · simp [h, htext]
      · next h =>
        have hother : Js.getOpt (some s) "id" ≠ some (.str station) := h station
        simp [hother]
    rw [hstep, ih]
    constructor
    · rintro (⟨hstation, hfound⟩ | ⟨hother, before, after, rfl, hbefore, hfound⟩)
      · obtain rfl := Option.some.inj (Except.ok.inj hfound)
        exact ⟨[], stations, rfl, nofun, hstation⟩
      · exact ⟨s :: before, after, rfl, List.forall_mem_cons.2 ⟨⟨hs, hother⟩, hbefore⟩, hfound⟩
    · rintro ⟨before, after, h, hbefore, hfound⟩
      cases before with
      | nil =>
        obtain ⟨rfl, -⟩ := List.cons.inj h
        exact .inl ⟨hfound, rfl⟩
      | cons e before =>
        obtain ⟨rfl, rfl⟩ := List.cons.inj h
        obtain ⟨⟨-, hother⟩, hbefore⟩ := List.forall_mem_cons.1 hbefore
        exact .inr ⟨hother, before, after, rfl, hbefore, hfound⟩

theorem IsStation.truthy (h : IsStation d) : Js.truthy (some d) = true := by
  cases d with
  | obj fields => rfl
  | _ => cases h

theorem findIn_eq_some_iff {v : Option Value} {found : Value} :
    findIn v = .ok (some found) ↔
      ∃ stations, v = some (.arr stations) ∧ findStation stations = .ok (some found) := by
  by_cases hv : ∃ stations, v = some (.arr stations)
  · obtain ⟨stations, rfl⟩ := hv
    simp [findIn]
  · refine iff_of_false (fun h => ?_) fun ⟨stations, hstations, _⟩ => hv ⟨stations, hstations⟩
    rw [findIn] at h
    · split at h <;> cases h
    · exact fun stations hstations => hv ⟨stations, hstations⟩

theorem checkNearby_eq_ok_none_iff :
    checkNearby get = .ok none ↔ NearbyGood (get nearbyPath true) := by
  rw [checkNearby, Js.bind_eq_ok_iff]
  constructor
  · rintro ⟨resp, hresp, h⟩
    by_cases hstatus : resp.status = 200
    · rw [if_neg (not_not.2 hstatus)] at h
      obtain ⟨found, hfound, h⟩ := Js.bind_eq_ok_iff.1 h
      split_ifs at h with htruthy
      · split at h
        · next departures hdepartures =>
          cases found with
          | none => cases htruthy
          | some found =>
            obtain ⟨stations, hstations, hfirst⟩ := findIn_eq_some_iff.1 hfound
            obtain ⟨before, after, rfl, hbefore, hstation⟩ := findStation_eq_some_iff.1 hfirst
            exact ⟨resp, before, found, after, departures, hresp, hstatus, hstations, hbefore,
              hstation, hdepartures⟩
        · cases h
      · cases h
    · rw [if_pos hstatus] at h
      cases h
  · rintro ⟨resp, before, found, after, departures, hresp, hstatus, hstations, hbefore, hstation,
      hdepartures⟩
    refine ⟨resp, hresp, ?_⟩
    rw [if_neg (not_not.2 hstatus)]
    have hfound : findIn (Js.getOpt resp.body "train") = .ok (some found) :=
      findIn_eq_some_iff.2 ⟨_, hstations,
        findStation_eq_some_iff.2 ⟨before, after, rfl, hbefore, hstation⟩⟩
    rw [hfound]
    simp only [bind, Except.bind, hstation.truthy, if_true, hdepartures]
    rfl

theorem checkFormation_eq_ok_none_iff (htrain : train ≠ .null) :
    checkFormation localDate get train now = .ok none ↔ FormationGood localDate train now get := by
  simp only [checkFormation, get_of_getOpt htrain, Js.bind_eq_ok_iff, Except.ok.injEq,
    exists_eq_left', Js.toText_eq_ok_iff]
  constructor
  · rintro ⟨_, ⟨hnumber, rfl⟩, _, ⟨hoperator, rfl⟩, resp, hresp, h⟩
    refine ⟨hnumber, hoperator, resp, hresp, ?_⟩
    split_ifs at h with hstatus hbody
    · cases h
    · cases h
    · rw [not_and_or, not_not, not_not] at hstatus
      exact ⟨hstatus, by simpa using hbody⟩
  · rintro ⟨hnumber, hoperator, resp, hresp, hstatus, hbody⟩
    refine ⟨_, ⟨hnumber, rfl⟩, _, ⟨hoperator, rfl⟩, resp, hresp, ?_⟩
    have hfound : ¬ (resp.status ≠ 200 ∧ resp.status ≠ 404) := by
      rw [not_and_or, not_not, not_not]
      exact hstatus
    rw [if_neg hfound, if_neg (by simpa using hbody)]
    rfl

/-- The search for a train finds the first row with a train number. -/
theorem findTrain_cases {found : Option Value} (h : findTrain rows = .ok found) :
    (∃ train, found = some train ∧ IsFirstTrain rows train ∧ train ≠ .null) ∨
      found = none ∧ ∀ train, ¬ IsFirstTrain rows train := by
  induction rows with
  | nil =>
    cases h
    refine .inr ⟨rfl, ?_⟩
    rintro train ⟨before, after, hrows, -⟩
    simp at hrows
  | cons d rows ih =>
    obtain ⟨w, hget, h⟩ := Js.bind_eq_ok_iff.1 h
    obtain ⟨⟨-, hd⟩, rfl⟩ := Js.get_eq_ok_iff.1 hget
    split_ifs at h with htruthy
    · cases h
      exact .inl ⟨d, rfl, ⟨[], rows, rfl, htruthy, nofun⟩, fun hnull => hd (congrArg some hnull)⟩
    · have hfalse : Js.truthy (Js.getOpt (some d) "trainNumber") = false := by simpa using htruthy
      rcases ih h with ⟨train, hfound, ⟨before, after, rfl, htrain, hbefore⟩, hnull⟩ | ⟨hfound, hnone⟩
      · exact .inl ⟨train, hfound,
          ⟨d :: before, after, rfl, htrain, List.forall_mem_cons.2 ⟨hfalse, hbefore⟩⟩, hnull⟩
      · refine .inr ⟨hfound, ?_⟩
        rintro train ⟨before, after, hrows, htrain, hbefore⟩
        cases before with
        | nil =>
          rw [(List.cons.inj hrows).1, htrain] at hfalse
          cases hfalse
        | cons e before =>
          exact hnone train ⟨before, after, (List.cons.inj hrows).2, htrain,
            (List.forall_mem_cons.1 hbefore).2⟩

/-- There is one first row with a train number. -/
theorem IsFirstTrain.unique {train' : Value} (h : IsFirstTrain rows train)
    (h' : IsFirstTrain rows train') : train = train' := by
  obtain ⟨before, after, rfl, htrain, hbefore⟩ := h
  obtain ⟨before', after', hrows, htrain', hbefore'⟩ := h'
  rcases List.append_eq_append_iff.1 hrows with ⟨more, rfl, hafter⟩ | ⟨more, rfl, hafter⟩
  · cases more with
    | nil => exact (List.cons.inj hafter).1
    | cons e more =>
      have hfalse := hbefore' e (by simp)
      rw [← (List.cons.inj hafter).1, htrain] at hfalse
      cases hfalse
  · cases more with
    | nil => exact (List.cons.inj hafter).1.symm
    | cons e more =>
      have hfalse := hbefore e (by simp)
      rw [← (List.cons.inj hafter).1, htrain'] at hfalse
      cases hfalse

/-- **A host.** The probe of a host that throws nothing finds no failure exactly if the host is
well. -/
theorem probed_well_iff {probed : Probed} (h : probeHost localDate host now = .ok probed) :
    probed.failures = [] ↔ HostWell localDate host now := by
  obtain ⟨found, hfound, h⟩ := Js.bind_eq_ok_iff.1 h
  obtain rfl := Except.ok.inj h
  simp only [List.append_eq_nil_iff, failures_eq_nil_iff, checkHealth_eq_ok_none_iff,
    checkNearby_eq_ok_none_iff]
  rcases departures_cases now host with ⟨rows, hrows, hattempt⟩ | ⟨hnone, failure, hattempt⟩
  · have hrows' : ∀ rows', Finds now host rows' → rows' = rows := fun _ h => finds_unique h hrows
    rw [hattempt] at hfound ⊢
    rcases findTrain_cases hfound with ⟨train, rfl, htrain, hnull⟩ | ⟨rfl, hnotrain⟩
    · simp only [failures_eq_nil_iff, checkFormation_eq_ok_none_iff hnull]
      constructor
      · rintro ⟨⟨⟨hhealth, -⟩, hnearby⟩, hformation⟩
        refine ⟨hhealth, ⟨rows, hrows⟩, hnearby, fun rows' train' h htrain' => ?_⟩
        obtain rfl := hrows' _ h
        rwa [htrain'.unique htrain]
      · intro hwell
        exact ⟨⟨⟨hwell.health, rfl⟩, hwell.nearby⟩, hwell.formation rows train hrows htrain⟩
    · constructor
      · rintro ⟨⟨⟨hhealth, -⟩, hnearby⟩, -⟩
        exact ⟨hhealth, ⟨rows, hrows⟩, hnearby, fun _ train h htrain =>
          absurd (hrows' _ h ▸ htrain) (hnotrain train)⟩
      · exact fun hwell => ⟨⟨⟨hwell.health, rfl⟩, hwell.nearby⟩, rfl⟩
  · rw [hattempt]
    refine iff_of_false ?_ fun hwell => ?_
    · rintro ⟨⟨⟨-, hfailure⟩, -⟩, -⟩
      cases hfailure
    · obtain ⟨rows, hrows⟩ := hwell.departures
      exact hnone rows hrows

end Checks

/-! ### The comparison -/

section Comparison

variable {rowsA rowsB : List Value} {parity : Option String} {start stop : Binary64}

theorem keyText_eq_ok_iff {d : Value} {k : String} (h : keyText d = .ok k) : rowText d = k := by
  simp only [keyText, Js.bind_eq_ok_iff, Js.get_eq_ok_iff, Js.toText_eq_ok_iff] at h
  obtain ⟨_, ⟨-, rfl⟩, _, ⟨-, rfl⟩, _, ⟨-, rfl⟩, _, ⟨-, rfl⟩, _, ⟨-, rfl⟩, _, ⟨-, rfl⟩, h⟩ := h
  exact Except.ok.inj h

theorem mem_mapM_keyText {rows : List Value} {keys : List String} (h : rows.mapM keyText = .ok keys)
    {k : String} : k ∈ keys ↔ ∃ d ∈ rows, rowText d = k := by
  induction rows generalizing keys with
  | nil =>
    cases h
    simp
  | cons d rows ih =>
    rw [List.mapM_cons] at h
    obtain ⟨k', hk', h⟩ := Js.bind_eq_ok_iff.1 h
    obtain ⟨ks, hks, h⟩ := Js.bind_eq_ok_iff.1 h
    obtain rfl := Except.ok.inj h
    rw [List.mem_cons, List.exists_mem_cons_iff, ih hks, keyText_eq_ok_iff hk', eq_comm]

/-- The keys of a list are the texts of its rows inside the window. -/
theorem mem_keyTexts {rows : List Value} {keys : List String}
    (h : keyTexts start stop rows = .ok keys) {k : String} :
    k ∈ keys ↔ ∃ d ∈ rows, (start.le (seconds d) = true ∧ (seconds d).le stop = true) ∧
      rowText d = k := by
  obtain ⟨inside, hinside, h⟩ := Js.bind_eq_ok_iff.1 h
  obtain ⟨ks, hks, h⟩ := Js.bind_eq_ok_iff.1 h
  obtain rfl := Except.ok.inj h
  obtain ⟨-, rfl⟩ := insideRows_eq_ok_iff.1 hinside
  rw [List.mem_eraseDups, mem_mapM_keyText hks]
  simp [and_assoc]

/-- **The comparison.** Two lists that are compared without a throw differ in nothing exactly if they
agree. -/
theorem compared_iff (hA : rowsA ≠ []) (hB : rowsB ≠ [])
    (h : compareValues rowsA rowsB = .ok parity) : parity = none ↔ Agree rowsA rowsB := by
  have hne : ∀ {rows : List Value}, rows ≠ [] → rows.take 5 ≠ [] := by simp
  have hfa := List.head?_eq_some_head (hne hA)
  have hfb := List.head?_eq_some_head (hne hB)
  have hla := List.getLast?_eq_some_getLast (hne hA)
  have hlb := List.getLast?_eq_some_getLast (hne hB)
  simp only [compareValues, hfa, hfb, hla, hlb, Js.bind_eq_ok_iff] at h
  obtain ⟨a, ha, b, hb, x, hx, y, hy, c, hc, d, hd, z, hz, w, hw, keysA, hkeysA, keysB, hkeysB, h⟩ := h
  obtain ⟨-, rfl⟩ := toNumber_departure.1 ⟨a, ha, hx⟩
  obtain ⟨-, rfl⟩ := toNumber_departure.1 ⟨b, hb, hy⟩
  obtain ⟨-, rfl⟩ := toNumber_departure.1 ⟨c, hc, hz⟩
  obtain ⟨-, rfl⟩ := toNumber_departure.1 ⟨d, hd, hw⟩
  obtain rfl := Except.ok.inj h
  rw [difference_eq_none_iff, Agree]
  simp only [inside_iff hfa hfb hla hlb, ← mem_keyTexts hkeysA, ← mem_keyTexts hkeysB]
  exact ⟨fun h text => ⟨fun hm => h.1 hm, fun hm => h.2 hm⟩,
    fun h => ⟨fun text hm => (h text).1 hm, fun text hm => (h text).2 hm⟩⟩

end Comparison

/-! ### A run -/

/-- The checks of a run in which nothing is thrown pass exactly what is good. -/
theorem judges_roundOf (cal : Calendar String) {answers : String → Host} {now : ℤ}
    {results : List Probed} {parity : Option String} (delivers : String → Bool)
    (hresults : (hosts.mapM fun host => probeHost cal.localDate (answers host) now) = .ok results)
    (hparity : compareValues (departuresAt results 0) (departuresAt results 1) = .ok parity) :
    Judges cal answers now (roundOf results parity now delivers) := by
  obtain ⟨a, b, c, ha, hb, hc, rfl⟩ := mapM_hosts_ok_iff.1 hresults
  refine ⟨?_, ?_⟩
  · have hwell : ∀ {probed : Probed} {host : String},
        probeHost cal.localDate (answers host) now = .ok probed →
        (probed.failures.isEmpty = true ↔ HostWell cal.localDate (answers host) now) :=
      fun h => List.isEmpty_iff.trans (probed_well_iff h)
    simp only [hosts, List.forall_mem_cons]
    exact ⟨hwell ha, hwell hb, hwell hc, List.forall_mem_nil _⟩
  · have hok : (roundOf [a, b, c] parity now delivers).ok "parity" = parity.isNone := rfl
    rw [hok, Option.isNone_iff_eq_none]
    have hcompared : compareValues a.departures b.departures = .ok parity := hparity
    rcases departures_of_probeHost ha with hA | ⟨hA, hnil⟩
    · rcases departures_of_probeHost hb with hB | ⟨hB, hnil⟩
      · obtain ⟨_, _, _, hconsA, -⟩ := hA.exists_cons
        obtain ⟨_, _, _, hconsB, -⟩ := hB.exists_cons
        rw [compared_iff (hconsA ▸ List.cons_ne_nil _ _) (hconsB ▸ List.cons_ne_nil _ _) hcompared]
        constructor
        · intro hagree rowsA rowsB hrowsA hrowsB
          rwa [finds_unique hrowsA hA, finds_unique hrowsB hB]
        · exact fun h => h _ _ hA hB
      · rw [compareValues_of_nil (.inr hnil)] at hcompared
        exact iff_of_true (Except.ok.inj hcompared).symm fun _ rowsB _ h => absurd h (hB rowsB)
    · rw [compareValues_of_nil (.inl hnil)] at hcompared
      exact iff_of_true (Except.ok.inj hcompared).symm fun rowsA _ h => absurd h (hA rowsA)

/-- A run withstands the answers exactly if the departures that are found are tame. -/
theorem withstands_iff (cal : Calendar String) (answers : String → Host) (now : ℤ) :
    Withstands cal answers now ↔ Tame answers now := by
  have hcompletes := completes_iff cal.localDate answers now
  simp only [findTrain_ok_iff] at hcompletes
  constructor
  · intro h
    obtain ⟨htrains, hcomparable⟩ := hcompletes.1 h.completes
    exact ⟨fun host hhost => passes_iff.1 (h.passes host hhost), htrains, hcomparable⟩
  · intro h
    have hdone := hcompletes.2 ⟨h.trains, h.comparable⟩
    refine ⟨hdone, fun store delivers => ?_, fun host hhost => passes_iff.2 (h.number host hhost)⟩
    obtain ⟨results, hresults, parity, hparity⟩ := hdone
    refine ⟨roundOf results parity now delivers, rfl, rfl,
      judges_roundOf cal delivers hresults hparity, ?_⟩
    refine Js.bind_eq_ok_iff.2 ⟨results, hresults, ?_⟩
    exact Js.bind_eq_ok_iff.2 ⟨parity, hparity, rfl⟩

/-- A host that answers every request with some rows of departures. -/
def listing (rows : List Value) : Host :=
  ⟨fun _ _ => .ok ⟨200, some (.obj [("departures", .arr rows)])⟩,
    fun _ _ => .ok ⟨200, some (.obj [("departures", .arr rows)])⟩⟩

/-- The row of a departure at a time in whole seconds. -/
def rowAt (n : ℤ) (h : Numeral.IsDouble n) : Value := .obj [("departure", .num (.finite n h))]

theorem finds_listing {now : ℤ} {first : Value} {departure : Option Value} (rest : List Value)
    (hget : Js.get (some first) "departure" = .ok departure)
    (hconv : Js.convertible departure = true)
    (hoffset : offsetFailure (offset now (Js.number departure)) = none) :
    Finds now (listing (first :: rest)) (first :: rest) :=
  .inl ⟨⟨200, some (.obj [("departures", .arr (first :: rest))])⟩, first, rest, departure, rfl, rfl,
    rfl, rfl, hget, hconv, hoffset⟩

/-- A `null` after a departure ends the run, and a row without a departure passes. -/
theorem not_withstands_listing :
    (¬ Withstands ⟨fun _ => "2027-01-15", fun _ => 9⟩
      (fun _ => listing [rowAt 1800000000 (Numeral.IsDouble.intCast (by decide)), .null])
      1800000000000) ∧
    ¬ Withstands ⟨fun _ => "2027-01-15", fun _ => 9⟩ (fun _ => listing [.obj []]) 1800000000000 := by
  constructor
  · intro h
    have hdouble : Numeral.IsDouble (1800000000 : ℤ) := .intCast (by decide)
    have hrange : InRange 1800000000000 (.ofInt 1800000000) :=
      (inRange_intCast (by norm_num) (by norm_num)).2 (by norm_num [staleMs, nightGapMs])
    have hget : Js.get (some (rowAt 1800000000 hdouble)) "departure" =
      .ok (some (.num (.finite _ hdouble))) := rfl
    have hfinds := finds_listing [.null] hget rfl
      ((offsetFailure_eq_none_iff (.finite _ hdouble)).2 hrange)
    have htrain := ((completes_iff _ _ _).1 h.completes).1 "api.traintime.ch" (by decide) _ hfinds
    obtain ⟨d, hd, htruthy⟩ := findTrain_ok_iff.1 htrain [_] [] rfl
    obtain rfl := List.mem_singleton.1 hd
    cases htruthy
  · intro h
    have hget : Js.get (some (.obj [])) "departure" = .ok none := rfl
    have hfinds : Finds 1800000000000 _ _ := finds_listing [] hget rfl rfl
    obtain ⟨first, hfirst, x, hx⟩ := passes_iff.1 (h.passes "api.traintime.ch" (by decide)) _ hfinds
    obtain rfl := Option.some.inj hfirst
    cases hx

end Traintime.Monitor
