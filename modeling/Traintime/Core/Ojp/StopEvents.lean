import Mathlib.Tactic.SplitIfs
import Traintime.Core.Ojp.Scan
import Traintime.Lib.AssocMap
import Traintime.Lib.Binary64

/-!
# Reading the stop events of a response

`parse_stop_events` of `core/src/ojp.rs`: one row for each result that has a service, and then one
row for each journey, the latest, in the order of departure.

## Main definitions

* `FlatDeparture`: a row.
* `parseResult`: the row of a result, with the key of its journey.
* `keepLatestPerJourney`, `parseStopEvents`: the functions of the source.
-/

namespace Traintime.Ojp

/-- A row of the board. Its destination is the field `to` of the source. -/
structure FlatDeparture where
  destination : List Char
  category : List Char
  number : List Char
  departure : ℤ
  delay : Option ℤ
  platform : List Char
  platformChanged : Bool
  trainNumber : Option (List Char)
  operatorRef : Option (List Char)
deriving DecidableEq, Repr

/-- A row with the key of its journey, if it has one. -/
abbrev Event := Option (List Char) × FlatDeparture

/-! ### The parts of a result -/

/-- `xml_blocks(..).first()`: the first block of a tag, nested blocks included. -/
def firstBlock (xml : List Char) (tag : String) : Option (List Char) := (xmlBlocks xml tag).head?

/-- `xml_blocks(..).first().and_then(|b| xml_lang_text(b))`: the text inside of the first block of a
tag. -/
def blockText (xml : List Char) (tag : String) : Option (List Char) :=
  (firstBlock xml tag).bind xmlLangText

/-- The name of the mode, which stands in `ShortName` inside of `Mode`. -/
def modeText (serviceBlock : List Char) : Option (List Char) :=
  (firstBlock serviceBlock "Mode").bind fun modeBlock => blockText modeBlock "ShortName"

/-- The journey with its operating day, by which events are told apart. There is no key without a
reference. -/
def journeyKey (serviceBlock : List Char) : Option (List Char) :=
  (xmlText serviceBlock "JourneyRef").map fun journey =>
    (xmlText serviceBlock "OperatingDayRef").getD [] ++ '|' :: journey

/-- The call at this stop, or what there is instead of it. -/
def callBlock (stopEventBlock : List Char) : List Char :=
  (((firstBlock stopEventBlock "ThisCall").bind fun tc => firstBlock tc "CallAtStop").or
    (firstBlock stopEventBlock "ThisCall")).getD stopEventBlock

/-- The departure of the call, or the call. -/
def depBlock (callBlock : List Char) : List Char :=
  (firstBlock callBlock "ServiceDeparture").getD callBlock

/-! ### Rows -/

section Rows

variable (isoToMs : List Char → Binary64)

/-- The time of departure in seconds, rounded towards zero and cast to 64 bits. -/
def departureTimestamp (timetabledTime : Option (List Char)) : ℤ :=
  match timetabledTime with
  | some tt => ((isoToMs tt).div (.ofInt 1000)).toInt64
  | none => 0

/-- The minutes of delay, if there are any. -/
def delayMinutes (estimatedTime timetabledTime : Option (List Char)) : Option ℤ :=
  match estimatedTime, timetabledTime with
  | some et, some tt =>
    let delayMs := (isoToMs et).sub (isoToMs tt)
    let delayMin := (delayMs.div (.ofInt 60000)).round.toInt64
    if 0 < delayMin then some delayMin else none
  | _, _ => none

/-- The row of a result. A result without a stop event or a service has none. -/
def parseResult (result : List Char) : Option Event := do
  let stopEventBlock ← firstBlock result "StopEvent"
  let serviceBlock ← firstBlock stopEventBlock "Service"
  let call := callBlock stopEventBlock
  let dep := depBlock call
  let timetabledTime := xmlText dep "TimetabledTime"
  let plannedQuay := (blockText call "PlannedQuay").getD []
  let estimatedQuay := blockText call "EstimatedQuay"
  some (journeyKey serviceBlock,
    { destination := (blockText serviceBlock "DestinationText").getD ['?']
      category := (modeText serviceBlock).getD []
      number := (blockText serviceBlock "PublishedServiceName").getD []
      departure := departureTimestamp isoToMs timetabledTime
      delay := delayMinutes isoToMs (xmlText dep "EstimatedTime") timetabledTime
      platform := estimatedQuay.getD plannedQuay
      platformChanged := estimatedQuay.any (· != plannedQuay)
      trainNumber := xmlText serviceBlock "TrainNumber"
      operatorRef := xmlText serviceBlock "OperatorRef" })

theorem departureTimestamp_range {isoToMs : List Char → Binary64} (tt : Option (List Char)) :
    -2 ^ 63 ≤ departureTimestamp isoToMs tt ∧ departureTimestamp isoToMs tt ≤ 2 ^ 63 - 1 := by
  cases tt with
  | none => simp [departureTimestamp]
  | some tt => exact Binary64.toInt64_range _

/-- A delay is a minute at least. -/
theorem delayMinutes_range {isoToMs : List Char → Binary64} {et tt : Option (List Char)} {d : ℤ}
    (h : delayMinutes isoToMs et tt = some d) : 1 ≤ d ∧ d ≤ 2 ^ 63 - 1 := by
  unfold delayMinutes at h
  split at h
  · rw [Option.ite_none_right_eq_some] at h
    obtain ⟨hpos, h⟩ := h
    obtain rfl := Option.some.inj h
    exact ⟨hpos, (Binary64.toInt64_range _).2⟩
  · cases h

end Rows

/-! ### One row for each journey -/

/-- The rows that are kept, and where the row of each journey is. -/
structure Kept where
  rows : List FlatDeparture
  seen : AssocMap (List Char) ℕ
  seen_lt : ∀ key i, seen.lookup key = some i → i < rows.length

namespace Kept

/-- Nothing is kept before the first event. -/
def empty : Kept := ⟨[], ∅, by simp⟩

/-- A row without a journey is kept. Of the rows of a journey the one with the later departure
takes the place of the first. -/
def add (st : Kept) : Event → Kept
  | (none, event) =>
    { st with
      rows := st.rows ++ [event]
      seen_lt := fun key i h => by
        rw [List.length_append]
        exact Nat.lt_add_right _ (st.seen_lt key i h) }
  | (some key, event) =>
    match h : st.seen.lookup key with
    | some i =>
      if (st.rows.get ⟨i, st.seen_lt key i h⟩).departure < event.departure then
        { st with
          rows := st.rows.set i event
          seen_lt := fun key i h => by
            rw [List.length_set]
            exact st.seen_lt key i h }
      else st
    | none =>
      { rows := st.rows ++ [event]
        seen := st.seen.insert key st.rows.length
        seen_lt := fun key' i h => by
          rw [AssocMap.lookup_insert_eq] at h
          rw [List.length_append, List.length_singleton]
          split_ifs at h
          · cases h
            exact Nat.lt_succ_self _
          · exact Nat.lt_succ_of_lt (st.seen_lt key' i h) }

end Kept

/-- The rows in the order of their departure, equal ones as they came. -/
def keepLatestPerJourney (events : List Event) : List FlatDeparture :=
  (events.foldl Kept.add Kept.empty).rows.mergeSort fun a b => a.departure ≤ b.departure

theorem keepLatestPerJourney_singleton (e : Event) : keepLatestPerJourney [e] = [e.2] := by
  obtain ⟨key, row⟩ := e
  cases key <;> exact List.mergeSort_singleton _

/-- `parse_stop_events`: the rows of a response, at most one for each journey and in the order of
departure. -/
def parseStopEvents (xml : List Char) (isoToMs : List Char → Binary64) : List FlatDeparture :=
  keepLatestPerJourney ((xmlBlocks xml "StopEventResult").filterMap (parseResult isoToMs))

end Traintime.Ojp
