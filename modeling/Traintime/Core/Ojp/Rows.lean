import Traintime.Core.Ojp.Journeys
import Traintime.Lib.Json.Canonical

/-!
# Rows as JSON

The rows of a response as the JSON that both runtimes cache and read again for every answer. The
fields that need not be there are left out when they are absent, except for the delay, which is
`null` then.

## Main definitions

* `FlatDeparture.toJson`, `FlatDeparture.ofJson`: a row as a value and back.
* `rowsText`, `readRows`: the rows of a response as a text and back.
* `FlatDeparture.InRange`: the numbers of a row fit into 64 bits.

## Main results

* `readRows_rowsText`: rows that are in range are read again as they were.
* `inRange_of_mem_parseStopEvents`: the rows of a response are in range.
-/

namespace Traintime.Ojp

open Json

namespace FlatDeparture

/-- A field that is left out when there is no value. -/
def fieldIfSome (name : String) (s : Option (List Char)) : List (List Char × Value) :=
  (s.map fun s => (name.toList, Value.str s)).toList

/-- The delay of a row, which is `null` for a train with none. The field itself is always there. -/
def delayJson : Option ℤ → Value
  | some n => .num (ofInt n)
  | none => .null

/-- A row as `serde_json` writes it. The train number and the operator are left out where there are
none. -/
def toJson (d : FlatDeparture) : Value :=
  .obj ([("to".toList, .str d.destination), ("category".toList, .str d.category),
    ("number".toList, .str d.number), ("departure".toList, .num (ofInt d.departure)),
    ("delay".toList, delayJson d.delay), ("platform".toList, .str d.platform),
    ("platformChanged".toList, .bool d.platformChanged)] ++
    fieldIfSome "trainNumber" d.trainNumber ++ fieldIfSome "operatorRef" d.operatorRef)

/-- A number as an `i64` is read: an integer of 64 bits with a sign, written without a fraction. -/
def asInt64 : Value → Option ℤ := asInt (-2 ^ 63) (2 ^ 63 - 1)

/-- A row from its fields, or from their values in order. -/
def ofJson : Value → Option FlatDeparture
  | .obj fields => do
    return {
      destination := ← requiredField fields "to" asString
      category := ← requiredField fields "category" asString
      number := ← requiredField fields "number" asString
      departure := ← requiredField fields "departure" asInt64
      delay := ← optionalField fields "delay" asInt64
      platform := ← requiredField fields "platform" asString
      platformChanged := ← requiredField fields "platformChanged" asBool
      trainNumber := ← optionalField fields "trainNumber" asString
      operatorRef := ← optionalField fields "operatorRef" asString }
  | .arr [destination, category, number, departure, delay, platform, changed, train, operator] => do
    return {
      destination := ← asString destination
      category := ← asString category
      number := ← asString number
      departure := ← asInt64 departure
      delay := ← orNull asInt64 delay
      platform := ← asString platform
      platformChanged := ← asBool changed
      trainNumber := ← orNull asString train
      operatorRef := ← orNull asString operator }
  | _ => none

/-- The numbers of a row fit into 64 bits. -/
structure InRange (d : FlatDeparture) : Prop where
  departure : -2 ^ 63 ≤ d.departure ∧ d.departure ≤ 2 ^ 63 - 1
  delay : ∀ n ∈ d.delay, -2 ^ 63 ≤ n ∧ n ≤ 2 ^ 63 - 1

theorem depth_toJson (d : FlatDeparture) : d.toJson.depth = 1 := by
  obtain ⟨destination, category, number, departure, delay, platform, changed, train, operator⟩ := d
  cases delay <;> cases train <;> cases operator <;> rfl

theorem asInt64_ofInt {n : ℤ} (h : -2 ^ 63 ≤ n ∧ n ≤ 2 ^ 63 - 1) :
    asInt64 (.num (ofInt n)) = some n := asInt_ofInt h

theorem mem_fieldIfSome {name : String} {o : Option (List Char)} {x : Field} :
    x ∈ fieldIfSome name o ↔ ∃ t, o = some t ∧ x = (name.toList, .str t) := by
  cases o <;> simp [fieldIfSome]

theorem names_fieldIfSome (name : String) (o : Option (List Char)) :
    ((fieldIfSome name o).map Prod.fst).Sublist [name.toList] := by
  cases o <;> simp [fieldIfSome]

theorem nodup_fields {d : FlatDeparture} {fields : List Field} (h : d.toJson = .obj fields) :
    (fields.map Prod.fst).Nodup := by
  have hnodup : (["to", "category", "number", "departure", "delay", "platform", "platformChanged",
      "trainNumber", "operatorRef"].map String.toList).Nodup := by decide
  refine hnodup.sublist ?_
  rw [← Value.obj.inj h, List.map_append, List.map_append]
  exact ((List.Sublist.refl _).append (names_fieldIfSome _ _)).append (names_fieldIfSome _ _)

/-- A text that is left out when there is none is read from the fields that are there. -/
theorem optionalField_fieldIfSome {fields : List Field} {name : String}
    (h : (fields.map Prod.fst).Nodup) (o : Option (List Char))
    (ho : ∀ v, (name.toList, v) ∈ fields ↔ ∃ t, o = some t ∧ v = .str t) :
    optionalField fields name asString = some o := by
  cases o with
  | some t =>
    rw [optionalField_of_mem h ((ho _).2 ⟨t, rfl, rfl⟩)]
    rfl
  | none =>
    refine optionalField_of_notMem fun hmem => ?_
    obtain ⟨⟨_, v⟩, hv, rfl⟩ := List.mem_map.1 hmem
    obtain ⟨t, ht, -⟩ := (ho v).1 hv
    cases ht

/-- A row is read again as it was. -/
theorem ofJson_toJson {d : FlatDeparture} (h : d.InRange) : ofJson d.toJson = some d := by
  obtain ⟨fields, hfields⟩ : ∃ fields, d.toJson = .obj fields := ⟨_, rfl⟩
  have hnodup := nodup_fields hfields
  have hmem : ∀ x, x ∈ fields ↔ x ∈ [("to".toList, Value.str d.destination),
      ("category".toList, .str d.category), ("number".toList, .str d.number),
      ("departure".toList, .num (ofInt d.departure)), ("delay".toList, delayJson d.delay),
      ("platform".toList, .str d.platform),
      ("platformChanged".toList, .bool d.platformChanged)] ∨
      x ∈ fieldIfSome "trainNumber" d.trainNumber ∨
      x ∈ fieldIfSome "operatorRef" d.operatorRef := by
    intro x
    rw [← Value.obj.inj hfields, List.mem_append, List.mem_append, or_assoc]
  have hto : requiredField fields "to" asString = asString (.str d.destination) :=
    requiredField_of_mem hnodup ((hmem _).2 (.inl (by simp)))
  have hcategory : requiredField fields "category" asString = asString (.str d.category) :=
    requiredField_of_mem hnodup ((hmem _).2 (.inl (by simp)))
  have hnumber : requiredField fields "number" asString = asString (.str d.number) :=
    requiredField_of_mem hnodup ((hmem _).2 (.inl (by simp)))
  have hdeparture : requiredField fields "departure" asInt64 = asInt64 (.num (ofInt d.departure)) :=
    requiredField_of_mem hnodup ((hmem _).2 (.inl (by simp)))
  have hdelay : optionalField fields "delay" asInt64 = orNull asInt64 (delayJson d.delay) :=
    optionalField_of_mem hnodup ((hmem _).2 (.inl (by simp)))
  have hplatform : requiredField fields "platform" asString = asString (.str d.platform) :=
    requiredField_of_mem hnodup ((hmem _).2 (.inl (by simp)))
  have hchanged :
      requiredField fields "platformChanged" asBool = asBool (.bool d.platformChanged) :=
    requiredField_of_mem hnodup ((hmem _).2 (.inl (by simp)))
  have htrain : optionalField fields "trainNumber" asString = some d.trainNumber :=
    optionalField_fieldIfSome hnodup _ (by simp [hmem, mem_fieldIfSome])
  have hoperator : optionalField fields "operatorRef" asString = some d.operatorRef :=
    optionalField_fieldIfSome hnodup _ (by simp [hmem, mem_fieldIfSome])
  rw [asInt64_ofInt h.departure] at hdeparture
  have horNull : orNull asInt64 (delayJson d.delay) = some d.delay := by
    cases hd : d.delay with
    | none => rfl
    | some n => exact congrArg (Option.map some) (asInt64_ofInt (h.delay n hd))
  rw [hfields, ofJson, hto, hcategory, hnumber, hdeparture, hdelay, hplatform, hchanged, htrain,
    hoperator, horNull]
  rfl

/-- A row is read from its fields in any order. -/
theorem ofJson_perm {fields fields' : List Field} (h : fields.Perm fields') :
    ofJson (.obj fields) = ofJson (.obj fields') := by
  simp only [ofJson, requiredField_perm h, optionalField_perm h]

/-- A row is also read again when its object is a map. -/
theorem ofJson_canonical {d : FlatDeparture} (h : d.InRange) :
    ofJson d.toJson.canonical = some d := by
  obtain ⟨fields, hfields, hcanonical⟩ : ∃ fields, d.toJson = .obj fields ∧
      canonicalFields fields = fields := by
    obtain ⟨destination, category, number, departure, delay, platform, changed, train, operator⟩ :=
      d
    refine ⟨_, rfl, ?_⟩
    cases delay <;> cases train <;> cases operator <;> rfl
  have hread := ofJson_toJson h
  have hnodup := nodup_fields hfields
  rw [hfields] at hread ⊢
  rw [Value.canonical, hcanonical, ofJson_perm (mapOf_perm hnodup), hread]

end FlatDeparture

/-! ### The rows of a response -/

/-- `serde_json::to_string(&departures)`: the rows of a board as they are cached. -/
def rowsText (rows : List FlatDeparture) : List Char :=
  (Value.arr (rows.map FlatDeparture.toJson)).text

/-- `serde_json::from_str::<Vec<FlatDeparture>>`: the rows of a text, if it is an array of rows. -/
def readRows (text : List Char) : Option (List FlatDeparture) :=
  (read text).bind (asList FlatDeparture.ofJson)

theorem inRange_of_parseResult {isoToMs : List Char → Binary64} {result : List Char} {e : Event}
    (h : parseResult isoToMs result = some e) : e.2.InRange := by
  simp only [parseResult, Option.bind_eq_bind, Option.bind_eq_some_iff] at h
  obtain ⟨stopEventBlock, -, serviceBlock, -, he⟩ := h
  obtain rfl := Option.some.inj he
  refine ⟨departureTimestamp_range _, fun n hn => ?_⟩
  obtain ⟨hpos, hle⟩ := delayMinutes_range hn
  exact ⟨by omega, hle⟩

/-- The rows of a response are in range. -/
theorem inRange_of_mem_parseStopEvents {xml : List Char} {isoToMs : List Char → Binary64}
    {d : FlatDeparture} (hd : d ∈ parseStopEvents xml isoToMs) : d.InRange := by
  obtain ⟨_, hsurvives⟩ := mem_keepLatestPerJourney_iff.1 hd
  obtain ⟨_, e, he, rfl⟩ := hsurvives.exists_event
  obtain ⟨result, -, hresult⟩ := List.mem_filterMap.1 (List.mem_of_getElem? he)
  exact inRange_of_parseResult hresult

/-- Rows that are in range are read again as they were. -/
theorem readRows_rowsText {rows : List FlatDeparture} (h : ∀ d ∈ rows, d.InRange) :
    readRows (rowsText rows) = some rows := by
  have hdepth : (Value.arr (rows.map FlatDeparture.toJson)).depth ≤ 127 :=
    (depth_arr_map_le fun d _ => (FlatDeparture.depth_toJson d).le).trans (by decide)
  rw [readRows, rowsText, read_text hdepth, Option.bind_some]
  exact asList_arr_map fun d hd => FlatDeparture.ofJson_toJson (h d hd)

end Traintime.Ojp
