import Traintime.Core.Ojp.Rows
import Traintime.Routes.Departures

/-!
# Responses

The responses of the handlers (`routes/mod.rs` of both runtimes): a status, a JSON body and, for a
payload from the stale cache, its age in a header. A body is a JSON value whose objects are maps.

## Main definitions

* `Response`, `respond`: a response and how it is made.
* `Departures.Body.toJson`, `Departures.readBody`: the body of an answer as a value and back.
* `Departures.fromJson`, `Departures.rowsJson`: the rows of a board in the cache.
* `Departures.respondDepartures`: the response to an answer of the handler.

## Main results

* `Departures.readBody_canonical`: a client reads the rows that the handler answered.
-/

namespace Traintime

open Json

/-- A response. The last field is the header `x-traintime-stale`. -/
structure Response where
  status : ℕ
  body : List Char
  staleAge : Option String
deriving DecidableEq

/-- A JSON response, marked when it came from the stale cache. -/
def respond (status : ℕ) (body : Value) (staleAge : Option ℕ) : Response :=
  ⟨status, body.canonical.text, staleAge.map toString⟩

/-- `serde_json::json!({ "error": e })`: the body of every error. -/
def errorBody (e : String) : Value := .obj [("error".toList, .str e.toList)]

namespace Departures

open Ojp

/-- The rows of a board as an array of values. -/
def rowsValue (rows : List FlatDeparture) : Value := .arr (rows.map FlatDeparture.toJson)

/-- The body as a value, with the favourites if there are any asked for. -/
def Body.toJson (b : Body) : Value :=
  .obj ((b.favourites.map fun favs => ("favourites".toList, rowsValue favs)).toList ++
    [("departures".toList, rowsValue b.departures)])

/-- The body that a client reads, with favourites or without. -/
def readBody (text : List Char) : Option Body :=
  match read text with
  | some (.obj fields) => do
    return {
      favourites := ← optionalField fields "favourites" (asList FlatDeparture.ofJson)
      departures := ← requiredField fields "departures" (asList FlatDeparture.ofJson) }
  | _ => none

/-- The JSON of the rows of a response, as it is cached. -/
def rowsJson (isoToMs : List Char → Binary64) (xml : List Char) : String :=
  .ofList (rowsText (parseStopEvents xml isoToMs))

/-- The rows of a cached payload. What is wrong with one that has none is given. -/
def fromJson (describe : String → String) (json : String) : Except String (List FlatDeparture) :=
  match readRows json.toList with
  | some rows => .ok rows
  | none => .error (describe json)

/-- The response to what the handler answers. -/
def respondDepartures : Except Rejection (Body × Option ℕ) → Response
  | .ok (body, stale) => respond 200 body.toJson stale
  | .error e => respond e.status (errorBody e.error) none

theorem fromJson_rowsJson (describe : String → String) (isoToMs : List Char → Binary64)
    (xml : List Char) :
    fromJson describe (rowsJson isoToMs xml) = .ok (parseStopEvents xml isoToMs) := by
  rw [fromJson, rowsJson, String.toList_ofList,
    readRows_rowsText fun _ => inRange_of_mem_parseStopEvents]

/-! ### What a client reads -/

/-- The numbers of all rows fit into 64 bits. -/
structure Body.InRange (b : Body) : Prop where
  favourites : ∀ favs ∈ b.favourites, ∀ d ∈ favs, d.InRange
  departures : ∀ d ∈ b.departures, d.InRange

theorem depth_rowsValue_le (rows : List FlatDeparture) : (rowsValue rows).depth ≤ 2 :=
  depth_arr_map_le fun d _ => d.depth_toJson.le

theorem rowsValue_canonical (rows : List FlatDeparture) :
    (rowsValue rows).canonical = .arr (rows.map fun d => d.toJson.canonical) := by
  rw [rowsValue, Value.canonical, canonicalList_eq_map, List.map_map]
  rfl

theorem asList_rowsValue_canonical {rows : List FlatDeparture} (h : ∀ d ∈ rows, d.InRange) :
    asList FlatDeparture.ofJson (rowsValue rows).canonical = some rows := by
  rw [rowsValue_canonical]
  exact asList_arr_map fun d hd => FlatDeparture.ofJson_canonical (h d hd)

/-- The fields of a body as they are built. -/
def Body.fields (b : Body) : List Field :=
  (b.favourites.map fun favs => ("favourites".toList, (rowsValue favs).canonical)).toList ++
    [("departures".toList, (rowsValue b.departures).canonical)]

theorem Body.toJson_canonical (b : Body) : b.toJson.canonical = .obj (mapOf b.fields) := by
  obtain ⟨favourites, departures⟩ := b
  cases favourites <;> rfl

theorem Body.mapOf_perm (b : Body) : (mapOf b.fields).Perm b.fields := by
  obtain ⟨favourites, departures⟩ := b
  refine Json.mapOf_perm ?_
  cases favourites <;> simp [Body.fields]

theorem Body.depth_toJson_le (b : Body) : b.toJson.depth ≤ 3 := by
  obtain ⟨favourites, departures⟩ := b
  refine Nat.succ_le_succ (depthFields_le fun x hx => ?_)
  rcases List.mem_append.1 hx with hx | hx
  · obtain ⟨favs, -, rfl⟩ := Option.map_eq_some_iff.1 (Option.mem_toList.1 hx)
    exact depth_rowsValue_le favs
  · rw [List.mem_singleton.1 hx]
    exact depth_rowsValue_le departures

/-- A client reads the rows that the handler answered. -/
theorem readBody_canonical {b : Body} (h : b.InRange) :
    readBody b.toJson.canonical.text = some b := by
  have hread := read_text_canonical (b.depth_toJson_le.trans (by decide))
  have hdepartures := asList_rowsValue_canonical h.departures
  rw [Body.toJson_canonical] at hread ⊢
  simp only [readBody, hread, optionalField_perm b.mapOf_perm, requiredField_perm b.mapOf_perm]
  obtain ⟨favourites, departures⟩ := b
  cases favourites with
  | none => simp [Body.fields, optionalField, requiredField, field?, hdepartures]
  | some favs =>
    have hfavs : orNull (asList FlatDeparture.ofJson) (rowsValue favs).canonical =
        some (some favs) := by
      have hread := asList_rowsValue_canonical (h.favourites favs rfl)
      rw [rowsValue_canonical] at hread ⊢
      exact congrArg (Option.map some) hread
    simp [Body.fields, optionalField, requiredField, field?, hdepartures, hfavs]

end Departures

end Traintime
