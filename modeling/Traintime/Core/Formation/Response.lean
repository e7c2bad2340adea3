import Traintime.Core.Formation.Output
import Traintime.Lib.Json.Canonical

/-!
# The formation of a stop

The formation that an answer of the formation API has for a stop (`parse_formation_response` of
`core/src/formation.rs`), and its JSON, in which a flag is there only if it is set.

## Main definitions

* `Formation.FormationResult`, `Formation.CoreError`: the formation of a stop and why there is none.
* `Formation.parseFormationResponse`: the walk through the answer.
* `Formation.FormationResult.toJson`, `Formation.FormationResult.ofJson`: a formation as a value,
  and what a client reads.

## Main results

* `Formation.FormationResult.ofJson_canonical`: a client reads the formation as it was.
-/

namespace Traintime.Formation

open Json

/-- The formation of a train at one stop: the track it stands at, the sectors of the platform in the
order of the short string, and its wagons. -/
structure FormationResult where
  track : List Char
  sectors : List (List Char)
  wagons : List Wagon
deriving DecidableEq

/-- Why an answer of the formation API gives no formation: a field is missing that the walk needs,
or no stop has the number that is asked for. -/
inductive CoreError
  | missingField (field : String)
  | stopNotFound (uic : String)
deriving DecidableEq, Repr

/-- The text of an error, as `Display` writes it and the log shows it. -/
def CoreError.text : CoreError → String
  | missingField field => "No " ++ field
  | stopNotFound uic => "Stop " ++ uic ++ " not found in formation"

/-! ### The walk through an answer -/

/-- `str::parse::<i64>`: decimal digits with a sign or without one, if the number fits into 64 bits.
-/
def parseInt64 (s : List Char) : Option ℤ :=
  match s with
  | '-' :: ds => ((Decimal.parse ds).map fun m : ℕ => (-m : ℤ)).filter fun z => -2 ^ 63 ≤ z
  | '+' :: ds => ((Decimal.parse ds).map fun m : ℕ => (m : ℤ)).filter fun z => z < 2 ^ 63
  | ds => ((Decimal.parse ds).map fun m : ℕ => (m : ℤ)).filter fun z => z < 2 ^ 63

/-- `Value::pointer` along the names of fields. There is no value behind one that is missing. -/
def pointer : List String → Value → Option Value
  | [], v => some v
  | name :: path, v => (v.get? name).bind (pointer path)

/-- A number as `Value::as_i64` reads it: an integer that fits into 64 bits with a sign. Every other
value has none. -/
def asInt64 : Value → Option ℤ := asInt (-2 ^ 63) (2 ^ 63 - 1)

/-- The first stop of the number, or the first one. A number that is none counts as 0. -/
def selectStop (stops : List Value) (stopUic : Option String) : Except CoreError Value :=
  match stopUic with
  | some uic =>
    let uicNum := (parseInt64 uic.toList).getD 0
    match stops.find? fun s =>
      ((pointer ["scheduledStop", "stopPoint", "uic"] s).bind asInt64) = some uicNum with
    | some entry => .ok entry
    | none => .error (.stopNotFound uic)
  | none =>
    match stops.head? with
    | some entry => .ok entry
    | none => .error (.missingField "stops in formation")

/-- The formation that an answer has for a stop. -/
def parseFormationResponse (d : DigitClass) (body : Value) (stopUic : Option String) :
    Except CoreError FormationResult :=
  match (body.get? "formationsAtScheduledStops").bind (asList some) with
  | none => .error (.missingField "formationsAtScheduledStops")
  | some stops => do
    let entry ← selectStop stops stopUic
    let track := ((pointer ["scheduledStop", "track"] entry).bind asString).getD []
    match (pointer ["formationShort", "formationShortString"] entry).bind asString with
    | none => .error (.missingField "formationShortString")
    | some shortString =>
      let (sectors, wagons) := parseFormationShortString d shortString
      return ⟨track, sectors, wagons⟩

/-! ### Formations as JSON -/

/-- A flag that is left out unless it is set. -/
def flag (name : String) (b : Bool) : List Field :=
  if b then [(name.toList, .bool true)] else []

/-- A natural number as a value, written with its digits as `serde_json` writes an unsigned integer.
-/
def natValue (n : ℕ) : Value := .num (ofInt n)

/-- A list of texts as an array of values, such as the sectors of a formation and the features of a
wagon. -/
def strings (l : List (List Char)) : Value := .arr (l.map Value.str)

/-- The fields of a wagon in the order in which `Wagon` declares them. The five flags at the end are
there only if they are set (`skip_serializing_if`). -/
def Wagon.fields (w : Wagon) : List Field :=
  [("position".toList, natValue w.position), ("number".toList, natValue w.number.toNat),
    ("class".toList, natValue w.carClass), ("sector".toList, .str w.sector),
    ("features".toList, strings (w.features.map String.toList))] ++
    (flag "closed" w.closed ++ (flag "noPassageAfter" w.noPassageAfter ++
    (flag "mixedClass" w.mixedClass ++ (flag "bikeReservation" w.bikeReservation ++
    flag "numberUnknown" w.numberUnknown))))

/-- A wagon as `serde_json` writes it, an object with its fields. -/
def Wagon.toJson (w : Wagon) : Value := .obj w.fields

/-- The fields of a formation in the order of the declaration: the track, the sectors and the
wagons. -/
def FormationResult.fields (r : FormationResult) : List Field :=
  [("track".toList, .str r.track), ("sectors".toList, strings r.sectors),
    ("wagons".toList, .arr (r.wagons.map Wagon.toJson))]

/-- A formation as `serde_json` writes it, which is also the body of the response. -/
def FormationResult.toJson (r : FormationResult) : Value := .obj r.fields

/-! ### What a client reads -/

/-- The flag of that name among the fields. One that is absent is not set, and one that is there
must be a Boolean. -/
def flagOf (fields : List Field) (name : String) : Option Bool :=
  (optionalField fields name asBool).map (·.getD false)

/-- What a client reads as a wagon: the first five fields have to be there with values of their
types, and a flag that is absent is not set. -/
def Wagon.ofJson : Value → Option Wagon
  | .obj fields => do
    return {
      position := ← requiredField fields "position" asNat
      number := .ofNat (← requiredField fields "number" asNat)
      carClass := ← requiredField fields "class" asNat
      sector := ← requiredField fields "sector" asString
      features := (← requiredField fields "features" (asList asString)).map String.ofList
      closed := ← flagOf fields "closed"
      noPassageAfter := ← flagOf fields "noPassageAfter"
      mixedClass := ← flagOf fields "mixedClass"
      bikeReservation := ← flagOf fields "bikeReservation"
      numberUnknown := ← flagOf fields "numberUnknown" }
  | _ => none

/-- What a client reads as a formation. It is none at all if one of its wagons cannot be read. -/
def FormationResult.ofJson : Value → Option FormationResult
  | .obj fields => do
    return {
      track := ← requiredField fields "track" asString
      sectors := ← requiredField fields "sectors" (asList asString)
      wagons := ← requiredField fields "wagons" (asList Wagon.ofJson) }
  | _ => none

theorem mem_flag {name : String} {b : Bool} {x : Field} :
    x ∈ flag name b ↔ b = true ∧ x = (name.toList, .bool true) := by
  cases b <;> simp [flag]

theorem names_flag (name : String) (b : Bool) :
    ((flag name b).map Prod.fst).Sublist [name.toList] := by
  cases b <;> simp [flag]

theorem Wagon.nodup_fields (w : Wagon) : (w.fields.map Prod.fst).Nodup := by
  have hnodup : (["position", "number", "class", "sector", "features", "closed", "noPassageAfter",
      "mixedClass", "bikeReservation", "numberUnknown"].map String.toList).Nodup := by decide
  refine hnodup.sublist ?_
  rw [Wagon.fields]
  simp only [List.map_append]
  exact .append (.refl _) (.append (names_flag _ _) (.append (names_flag _ _)
    (.append (names_flag _ _) (.append (names_flag _ _) (names_flag _ _)))))

/-- A flag is read from the fields that are there. -/
theorem flagOf_canonical {fields : List Field} (name : String) (b : Bool)
    (h : (fields.map Prod.fst).Nodup)
    (hb : ∀ v, (name.toList, v) ∈ fields ↔ b = true ∧ v = .bool true) :
    flagOf (mapOf (canonicalFields fields)) name = some b := by
  cases b with
  | true =>
    rw [flagOf, optionalField_canonical h ((hb _).2 ⟨rfl, rfl⟩)]
    rfl
  | false =>
    have hname : name.toList ∉ fields.map Prod.fst := by
      intro hmem
      obtain ⟨⟨_, v⟩, hv, rfl⟩ := List.mem_map.1 hmem
      exact Bool.false_ne_true ((hb v).1 hv).1
    rw [flagOf, optionalField_canonical_none h hname]
    rfl

theorem strings_canonical (l : List (List Char)) : (strings l).canonical = strings l :=
  canonical_arr_map Value.str l

theorem asList_strings (l : List (List Char)) : asList asString (strings l) = some l :=
  asList_arr_map fun _ _ => rfl

/-- A client reads a wagon as it was. -/
theorem Wagon.ofJson_canonical (w : Wagon) : Wagon.ofJson w.toJson.canonical = some w := by
  have h := w.nodup_fields
  have hposition := requiredField_canonical asNat "position" h
    (v := natValue w.position) (by simp [Wagon.fields])
  have hnumber := requiredField_canonical asNat "number" h
    (v := natValue w.number.toNat) (by simp [Wagon.fields])
  have hclass := requiredField_canonical asNat "class" h
    (v := natValue w.carClass) (by simp [Wagon.fields])
  have hsector := requiredField_canonical asString "sector" h
    (v := .str w.sector) (by simp [Wagon.fields])
  have hfeatures := requiredField_canonical (asList asString) "features" h
    (v := strings (w.features.map String.toList)) (by simp [Wagon.fields])
  have hclosed := flagOf_canonical "closed" w.closed h
    (by simp [Wagon.fields, mem_flag])
  have hpassage := flagOf_canonical "noPassageAfter" w.noPassageAfter h
    (by simp [Wagon.fields, mem_flag])
  have hmixed := flagOf_canonical "mixedClass" w.mixedClass h
    (by simp [Wagon.fields, mem_flag])
  have hbike := flagOf_canonical "bikeReservation" w.bikeReservation h
    (by simp [Wagon.fields, mem_flag])
  have hunknown := flagOf_canonical "numberUnknown" w.numberUnknown h
    (by simp [Wagon.fields, mem_flag])
  rw [strings_canonical, asList_strings] at hfeatures
  rw [Wagon.toJson, Value.canonical]
  simp [Wagon.ofJson, hposition, hnumber, hclass, hsector, hfeatures, hclosed, hpassage, hmixed,
    hbike, hunknown, natValue, Value.canonical, asString, List.map_map]

/-- A client reads the formation as it was. -/
theorem FormationResult.ofJson_canonical (r : FormationResult) :
    FormationResult.ofJson r.toJson.canonical = some r := by
  have h : (r.fields.map Prod.fst).Nodup := by
    simp only [FormationResult.fields, List.map_cons, List.map_nil]
    decide
  have htrack := requiredField_canonical asString "track" h
    (v := .str r.track) (by simp [FormationResult.fields])
  have hsectors := requiredField_canonical (asList asString) "sectors" h
    (v := strings r.sectors) (by simp [FormationResult.fields])
  have hwagons := requiredField_canonical (asList Wagon.ofJson) "wagons" h
    (v := .arr (r.wagons.map Wagon.toJson)) (by simp [FormationResult.fields])
  rw [strings_canonical, asList_strings] at hsectors
  rw [canonical_arr_map, asList_arr_map fun w _ => w.ofJson_canonical] at hwagons
  rw [FormationResult.toJson, Value.canonical]
  simp [FormationResult.ofJson, htrack, hsectors, hwagons, Value.canonical, asString]

/-! ### How deep a formation is nested -/

theorem depth_strings_le (l : List (List Char)) : (strings l).depth ≤ 1 :=
  depth_arr_map_le fun _ _ => le_rfl

theorem depth_flag_le (name : String) (b : Bool) : ∀ x ∈ flag name b, x.2.depth ≤ 1 := by
  intro x hx
  obtain ⟨-, rfl⟩ := mem_flag.1 hx
  exact Nat.zero_le 1

theorem Wagon.depth_toJson_le (w : Wagon) : w.toJson.depth ≤ 2 := by
  refine Nat.succ_le_succ (depthFields_le ?_)
  simp only [Wagon.fields, List.forall_mem_append, List.forall_mem_cons]
  exact ⟨⟨Nat.zero_le 1, Nat.zero_le 1, Nat.zero_le 1, Nat.zero_le 1, depth_strings_le _, nofun⟩,
    depth_flag_le _ _, depth_flag_le _ _, depth_flag_le _ _, depth_flag_le _ _, depth_flag_le _ _⟩

theorem FormationResult.depth_toJson_le (r : FormationResult) : r.toJson.depth ≤ 4 := by
  refine Nat.succ_le_succ (depthFields_le ?_)
  simp only [FormationResult.fields, List.forall_mem_cons]
  exact ⟨Nat.zero_le 3, (depth_strings_le _).trans (by decide),
    depth_arr_map_le fun w _ => w.depth_toJson_le, nofun⟩

end Traintime.Formation
