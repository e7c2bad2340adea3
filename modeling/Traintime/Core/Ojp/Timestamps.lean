import Traintime.Core.Ojp.Journeys

/-!
# Timestamps that cannot be parsed

`iso_to_ms` of the native server gives zero for a timestamp it cannot parse, that of the Worker gives
what is not a number. Which rows come of it depends on the delays alone: a departure is zero either
way.

## Main definitions

* `orZero`, `orNan`: the two ways of reading a timestamp with a parser that may fail.
* `Served`, `services`: the results that make rows, with the timestamps not yet read.
* `Served.OneSided`: one of the two times is missing, and the other is a delay by itself.

## Main results

* `parseStopEvents_eq_filterMap`: the rows that are returned, by the places of their results.
* `parseStopEvents_agree_iff`: when the two runtimes give the same rows, and delays between times only.
-/

namespace Traintime.Ojp

/-! ### Results before their timestamps are read -/

/-- A result that makes a row. The row has its departure and delay set when the timestamps are
read. -/
structure Served where
  journeyKey : Option (List Char)
  timetabledTime : Option (List Char)
  estimatedTime : Option (List Char)
  row : FlatDeparture
deriving DecidableEq, Repr

/-- The row of a result. -/
def Served.event (isoToMs : List Char → Binary64) (s : Served) : Event :=
  (s.journeyKey,
    { s.row with
      departure := departureTimestamp isoToMs s.timetabledTime
      delay := delayMinutes isoToMs s.estimatedTime s.timetabledTime })

/-- What a result holds, its timestamps as texts. -/
def served (result : List Char) : Option Served := do
  let stopEventBlock ← firstBlock result "StopEvent"
  let serviceBlock ← firstBlock stopEventBlock "Service"
  let call := callBlock stopEventBlock
  let dep := depBlock call
  let plannedQuay := (blockText call "PlannedQuay").getD []
  let estimatedQuay := blockText call "EstimatedQuay"
  some
    { journeyKey := journeyKey serviceBlock
      timetabledTime := xmlText dep "TimetabledTime"
      estimatedTime := xmlText dep "EstimatedTime"
      row :=
        { destination := (blockText serviceBlock "DestinationText").getD ['?']
          category := (modeText serviceBlock).getD []
          number := (blockText serviceBlock "PublishedServiceName").getD []
          departure := 0
          delay := none
          platform := estimatedQuay.getD plannedQuay
          platformChanged := estimatedQuay.any (· != plannedQuay)
          trainNumber := xmlText serviceBlock "TrainNumber"
          operatorRef := xmlText serviceBlock "OperatorRef" } }

/-- The results of a response that make rows. -/
def services (xml : List Char) : List Served := (xmlBlocks xml "StopEventResult").filterMap served

theorem parseResult_eq_map (isoToMs : List Char → Binary64) (result : List Char) :
    parseResult isoToMs result = (served result).map (Served.event isoToMs) := by
  rw [parseResult, served]
  cases firstBlock result "StopEvent" with
  | none => rfl
  | some stopEventBlock =>
    simp only [Option.bind_eq_bind, Option.bind_some]
    cases firstBlock stopEventBlock "Service" <;> rfl

theorem parseStopEvents_eq (xml : List Char) (isoToMs : List Char → Binary64) :
    parseStopEvents xml isoToMs =
      keepLatestPerJourney ((services xml).map (Served.event isoToMs)) := by
  rw [parseStopEvents, services, List.map_filterMap]
  congr 2
  exact funext (parseResult_eq_map isoToMs)

/-! ### Two ways to read a timestamp -/

section Parser

variable (p : List Char → Option Binary64)

/-- The timestamp function of the native server: what the parser rejects is at the epoch. -/
def orZero (iso : List Char) : Binary64 := (p iso).getD (.ofInt 0)

/-- The timestamp function of the Worker: what the parser rejects is no number. -/
def orNan (iso : List Char) : Binary64 := (p iso).getD .nan

/-- The minutes between two times, rounded to the nearest and cast to 64 bits. -/
def minutesBetween (a b : Binary64) : ℤ := ((a.sub b).div (.ofInt 60000)).round.toInt64

theorem delayMinutes_some (isoToMs : List Char → Binary64) (et tt : List Char) :
    delayMinutes isoToMs (some et) (some tt) =
      if 0 < minutesBetween (isoToMs et) (isoToMs tt) then
        some (minutesBetween (isoToMs et) (isoToMs tt))
      else none := rfl

@[simp] theorem minutesBetween_nan_left (b : Binary64) : minutesBetween .nan b = 0 := rfl

@[simp] theorem minutesBetween_nan_right (a : Binary64) : minutesBetween a .nan = 0 := by
  cases a <;> rfl

@[simp] theorem minutesBetween_zero : minutesBetween (.ofInt 0) (.ofInt 0) = 0 := by
  decide +kernel

/-- A time of departure that cannot be parsed is zero in both. -/
theorem departureTimestamp_orNan (tt : Option (List Char)) :
    departureTimestamp (orNan p) tt = departureTimestamp (orZero p) tt := by
  cases tt with
  | none => rfl
  | some tt =>
    have hzero : ((Binary64.ofInt 0).div (.ofInt 1000)).toInt64 = 0 := by decide +kernel
    rw [departureTimestamp, departureTimestamp, orNan, orZero]
    cases p tt with
    | none =>
      rw [Option.getD_none, Option.getD_none, hzero]
      rfl
    | some t => rfl

namespace Served

/-- Both times are there and can be parsed. -/
def Parseable (s : Served) : Prop :=
  ∃ et tt e t, s.estimatedTime = some et ∧ s.timetabledTime = some tt ∧
    p et = some e ∧ p tt = some t

/-- Both times are there, one cannot be parsed, and the other is at least a minute, when rounded, to
the late side of zero. -/
def OneSided (s : Served) : Prop :=
  ∃ et tt, s.estimatedTime = some et ∧ s.timetabledTime = some tt ∧
    ((∃ e, p et = some e ∧ p tt = none ∧ 0 < minutesBetween e (.ofInt 0)) ∨
      ∃ t, p et = none ∧ p tt = some t ∧ 0 < minutesBetween (.ofInt 0) t)

/-- The delay of a row, which is there only if both times are and it is a minute or more. -/
def delay (isoToMs : List Char → Binary64) (s : Served) : Option ℤ :=
  delayMinutes isoToMs s.estimatedTime s.timetabledTime

variable {p} {s : Served}

/-- The Worker gives no delay for a time that cannot be parsed. -/
theorem parseable_of_delay_orNan (h : s.delay (orNan p) ≠ none) : s.Parseable p := by
  rw [delay] at h
  cases het : s.estimatedTime with
  | none =>
    rw [het] at h
    exact absurd rfl h
  | some et =>
    cases htt : s.timetabledTime with
    | none =>
      rw [het, htt] at h
      exact absurd rfl h
    | some tt =>
      rw [het, htt, delayMinutes_some, orNan, orNan] at h
      cases he : p et with
      | none => simp [he] at h
      | some e =>
        cases ht : p tt with
        | none => simp [ht] at h
        | some t => exact ⟨et, tt, e, t, het, htt, he, ht⟩

/-- The native server gives the delays of the Worker, but for a time that cannot be parsed. -/
theorem delay_eq_iff : s.delay (orZero p) = s.delay (orNan p) ↔ ¬ s.OneSided p := by
  rw [delay, delay, OneSided]
  cases s.estimatedTime with
  | none => simp [delayMinutes]
  | some et =>
    cases s.timetabledTime with
    | none => simp [delayMinutes]
    | some tt =>
      rw [delayMinutes_some, delayMinutes_some, orZero, orZero, orNan, orNan]
      simp only [Option.some.injEq, exists_and_left, exists_eq_left']
      rcases p et with _ | e <;> rcases p tt with _ | t <;> simp

theorem parseable_of_delay_orZero (h : ¬ s.OneSided p) (hdelay : s.delay (orZero p) ≠ none) :
    s.Parseable p := by
  rw [delay_eq_iff.mpr h] at hdelay
  exact parseable_of_delay_orNan hdelay

end Served

/-! ### The rows that are returned -/

/-- The events of a response, in its order and before rows of one journey are brought together. -/
def eventsOf (xml : List Char) (isoToMs : List Char → Binary64) : List Event :=
  (services xml).map (Served.event isoToMs)

theorem getElem?_eventsOf (xml : List Char) (isoToMs : List Char → Binary64) (i : ℕ) :
    (eventsOf xml isoToMs)[i]? = ((services xml)[i]?).map (Served.event isoToMs) := by
  rw [eventsOf, List.getElem?_map]

theorem tagged_eventsOf_orNan (xml : List Char) :
    tagged (eventsOf xml (orNan p)) = tagged (eventsOf xml (orZero p)) := by
  refine List.ext_getElem? fun i => ?_
  rw [getElem?_tagged, getElem?_tagged, getElem?_eventsOf, getElem?_eventsOf, Option.map_map,
    Option.map_map]
  refine congrArg (fun f => Option.map f (services xml)[i]?) (funext fun s => ?_)
  simp only [Function.comp_apply, Served.event, marked, departureTimestamp_orNan]

/-- The rows of both runtimes come from the same results. -/
theorem returnedPlaces_orNan (xml : List Char) :
    returnedPlaces (eventsOf xml (orNan p)) = returnedPlaces (eventsOf xml (orZero p)) := by
  rw [returnedPlaces, tagged_eventsOf_orNan, returnedPlaces]

/-- The rows that are returned, by the places of their results. -/
theorem parseStopEvents_eq_filterMap (xml : List Char) (isoToMs : List Char → Binary64) :
    parseStopEvents xml isoToMs = (returnedPlaces (eventsOf xml isoToMs)).filterMap fun i =>
      ((services xml)[i]?).map fun s => (s.event isoToMs).2 := by
  rw [parseStopEvents_eq, ← eventsOf, keepLatestPerJourney_eq_filterMap]
  refine List.filterMap_congr fun i _ => ?_
  rw [getElem?_eventsOf, Option.map_map]
  rfl

theorem filterMap_eq_filterMap_iff {α β : Type*} {l : List α} {f g : α → Option β}
    (hf : ∀ a ∈ l, (f a).isSome) (hg : ∀ a ∈ l, (g a).isSome) :
    l.filterMap f = l.filterMap g ↔ ∀ a ∈ l, f a = g a := by
  induction l with
  | nil => simp
  | cons a l ih =>
    rw [List.forall_mem_cons] at hf hg
    obtain ⟨b, hb⟩ := Option.isSome_iff_exists.mp hf.1
    obtain ⟨c, hc⟩ := Option.isSome_iff_exists.mp hg.1
    rw [List.filterMap_cons_some hb, List.filterMap_cons_some hc, List.cons.injEq, ih hf.2 hg.2,
      List.forall_mem_cons, hb, hc, Option.some.injEq]

variable {p}

theorem event_eq_iff {s : Served} :
    (s.event (orZero p)).2 = (s.event (orNan p)).2 ↔ ¬ s.OneSided p := by
  rw [← Served.delay_eq_iff, Served.event, Served.event, departureTimestamp_orNan]
  refine ⟨fun h => congrArg FlatDeparture.delay h, fun h => ?_⟩
  rw [Served.delay, Served.delay] at h
  rw [h]

/-- The two runtimes return the same rows exactly when of none of these just one time could be
parsed, and that to a time late enough to look like a delay. -/
theorem parseStopEvents_orZero_eq_iff (xml : List Char) :
    parseStopEvents xml (orZero p) = parseStopEvents xml (orNan p) ↔
      ∀ i s, (services xml)[i]? = some s → Returned (eventsOf xml (orZero p)) i →
        ¬ s.OneSided p := by
  have hserved : ∀ i ∈ returnedPlaces (eventsOf xml (orZero p)), ∃ s, (services xml)[i]? = some s := by
    intro i hi
    obtain ⟨e, he, -⟩ := mem_returnedPlaces_iff.mp hi
    rw [getElem?_eventsOf, Option.map_eq_some_iff] at he
    exact he.imp fun _ hs => hs.1
  have hsome : ∀ isoToMs, ∀ i ∈ returnedPlaces (eventsOf xml (orZero p)),
      (((services xml)[i]?).map fun s => (s.event isoToMs).2).isSome := by
    intro isoToMs i hi
    obtain ⟨s, hs⟩ := hserved i hi
    rw [hs]
    rfl
  rw [parseStopEvents_eq_filterMap, parseStopEvents_eq_filterMap, returnedPlaces_orNan,
    filterMap_eq_filterMap_iff (hsome _) (hsome _)]
  constructor
  · intro h i s hs hreturned
    have hrow := h i (mem_returnedPlaces_iff.mpr hreturned)
    rw [hs, Option.map_some, Option.map_some, Option.some.injEq] at hrow
    exact event_eq_iff.mp hrow
  · intro h i hi
    obtain ⟨s, hs⟩ := hserved i hi
    rw [hs, Option.map_some, Option.map_some,
      event_eq_iff.mpr (h i s hs (mem_returnedPlaces_iff.mp hi))]

/-- The two runtimes return the same rows, with delays only between times that could be parsed,
exactly when of no row that is returned just one time could be parsed, and that to a time late
enough to look like a delay. -/
theorem parseStopEvents_agree_iff (xml : List Char) (p : List Char → Option Binary64) :
    (parseStopEvents xml (orZero p) = parseStopEvents xml (orNan p) ∧
      ∀ i s, (services xml)[i]? = some s → Returned (eventsOf xml (orZero p)) i →
        ((s.event (orZero p)).2.delay ≠ none → s.Parseable p) ∧
        ((s.event (orNan p)).2.delay ≠ none → s.Parseable p)) ↔
      ∀ i s, (services xml)[i]? = some s → Returned (eventsOf xml (orZero p)) i →
        ¬ s.OneSided p := by
  rw [parseStopEvents_orZero_eq_iff]
  refine and_iff_left_of_imp fun h i s hs hreturned => ?_
  exact ⟨Served.parseable_of_delay_orZero (h i s hs hreturned), Served.parseable_of_delay_orNan⟩

end Parser

/-! ### A delay out of one time -/

/-- A response with one departure, whose timetabled time has no seconds. -/
def minuteTimeXml : List Char :=
  ("<StopEventResult><StopEvent><ThisCall><CallAtStop><ServiceDeparture>" ++
    "<TimetabledTime>2026-01-01T08:00</TimetabledTime>" ++
    "<EstimatedTime>2026-01-01T08:05:00Z</EstimatedTime>" ++
    "</ServiceDeparture></CallAtStop></ThisCall><Service></Service>" ++
    "</StopEvent></StopEventResult>").toList

/-- A parser that takes its other time only. -/
def secondsParser (iso : List Char) : Option Binary64 :=
  if iso = "2026-01-01T08:05:00Z".toList then some (.ofInt 1767254700000) else none

/-- The native server makes a delay of 56 years out of one time, the Worker makes none. -/
theorem parseStopEvents_delay_of_one_time :
    (parseStopEvents minuteTimeXml (orZero secondsParser)).map FlatDeparture.delay =
        [some 29454245] ∧
      (parseStopEvents minuteTimeXml (orNan secondsParser)).map FlatDeparture.delay = [none] := by
  have hservices : services minuteTimeXml = [⟨none, some "2026-01-01T08:00".toList,
      some "2026-01-01T08:05:00Z".toList, ⟨['?'], [], [], 0, none, [], false, none, none⟩⟩] := by
    decide +kernel
  rw [parseStopEvents_eq, parseStopEvents_eq, hservices, List.map_singleton, List.map_singleton,
    keepLatestPerJourney_singleton, keepLatestPerJourney_singleton, List.map_singleton,
    List.map_singleton]
  exact ⟨by decide +kernel, by decide +kernel⟩

end Traintime.Ojp
