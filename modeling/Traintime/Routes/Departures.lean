import Traintime.Core.Favourites
import Traintime.Routes.CacheKeys
import Traintime.Server.Fetch
import Traintime.Worker.Cache

/-!
# Departures

The departures of a station (`routes/departures.rs` of both runtimes). The rows of a response are
cached as JSON, all of them; a request gets the first ones, and with favourites also the next row
of each pair it names, taken from the whole board.

How the rows are written as JSON and read again is given.

## Main definitions

* `Params`, `Body`: a request and the body of its answer.
* `payloadOf`, `payloadOfWorker`: the cached rows of either runtime.
* `handleDepartures`: the handler of both.

## Main results

* `handleDepartures_favourites`: what a request with favourites gets.
-/

namespace Traintime.Departures

open Ojp Favourites

/-- `DeparturesQuery`: what a request to `/v1/departures` asks for. The favourites are the text of
the parameter. -/
structure Params where
  id : Option String
  limit : Option ℕ
  favourites : Option (List Char)

/-- The body of an answer. Without favourites asked for it has no such field. -/
structure Body where
  favourites : Option (List FlatDeparture)
  departures : List FlatDeparture

/-- What the native server got for the key, with the age of a stale payload. -/
def payloadOf : Server.Fetched → Except String (String × Option ℕ)
  | .fresh v | .cached v => .ok (v, none)
  | .stale v age => .ok (v, some age)
  | .failed e => .error e

/-- What the Worker got for the key, with the age of a stale payload. -/
def payloadOfWorker : Worker.Served → Except String (String × Option ℕ)
  | .hit v | .fetched v => .ok (v, none)
  | .stale v age => .ok (v, some age)
  | .error e => .error e

/-- The handler: the body, and the age of a stale payload. All that it asks of the cache is the
payload of a key. -/
def handleDepartures (fromJson : String → Except String (List FlatDeparture))
    (cached : String → Except String (String × Option ℕ)) (params : Params) :
    Except Rejection (Body × Option ℕ) := do
  let stationId ← acceptDepartures params.id
  let limit := params.limit.getD 5
  let favPairs := (params.favourites.map parseFavourites).getD []
  let (json, stale) ← (cached (departuresKey stationId)).mapError fun e => ⟨500, e⟩
  let departures ← (fromJson json).mapError fun e => ⟨500, e⟩
  if favPairs ≠ [] then
    let (favs, deps) := partitionFavourites departures favPairs limit
    return (⟨some favs, deps⟩, stale)
  return (⟨none, departures.take limit⟩, stale)

/-- The handler of the native server, which fetches with `cached`. -/
def handleDeparturesNative (fromJson : String → Except String (List FlatDeparture))
    (cached : String → Server.Fetched) : Params → Except Rejection (Body × Option ℕ) :=
  handleDepartures fromJson fun key => payloadOf (cached key)

/-- The handler of the Worker, which does the same with a payload as that of the native server. -/
def handleDeparturesWorker (fromJson : String → Except String (List FlatDeparture))
    (served : String → Worker.Served) : Params → Except Rejection (Body × Option ℕ) :=
  handleDepartures fromJson fun key => payloadOfWorker (served key)

/-- The next row of each pair that some row of the board is of, in the order of departure. -/
structure NextOfEach (board : List FlatDeparture) (favPairs : List (List Char × List Char))
    (favourites : List FlatDeparture) : Prop where
  chosen : ∃ chosen : List ((List Char × List Char) × FlatDeparture),
    chosen.map Prod.fst = matched board favPairs ∧ (∀ x ∈ chosen, IsNext board x.1 x.2) ∧
      favourites.Perm (chosen.map Prod.snd)
  sorted : favourites.Pairwise fun a b => a.departure ≤ b.departure

variable {fromJson : String → Except String (List FlatDeparture)}
  {cached : String → Except String (String × Option ℕ)}

/-- A request without favourites gets the first rows. -/
theorem handleDepartures_plain {id json : String} {limit : Option ℕ} {stale : Option ℕ}
    {board : List FlatDeparture} (hcached : cached (departuresKey id) = .ok (json, stale))
    (hjson : fromJson json = .ok board) :
    handleDepartures fromJson cached ⟨some id, limit, none⟩ =
      .ok (⟨none, board.take (limit.getD 5)⟩, stale) := by
  simp [handleDepartures, acceptDepartures, hcached, hjson, Except.mapError, bind, Except.bind,
    pure, Except.pure]

/-- A request with favourites. -/
theorem handleDepartures_some {id json : String} {limit : Option ℕ} {stale : Option ℕ}
    {raw : List Char} {board : List FlatDeparture}
    (hcached : cached (departuresKey id) = .ok (json, stale)) (hjson : fromJson json = .ok board) :
    handleDepartures fromJson cached ⟨some id, limit, some raw⟩ =
      .ok (⟨if parseFavourites raw = [] then none
          else some (partitionFavourites board (parseFavourites raw) (limit.getD 5)).1,
        board.take (limit.getD 5)⟩, stale) := by
  by_cases hraw : parseFavourites raw = []
  · simp [handleDepartures, acceptDepartures, hcached, hjson, hraw, Except.mapError, bind,
      Except.bind, pure, Except.pure]
  · simp [handleDepartures, acceptDepartures, hcached, hjson, hraw, Except.mapError, bind,
      Except.bind, pure, Except.pure, partitionFavourites]

/-- The rows of a response come in the order of departure. -/
theorem pairwise_parseStopEvents (xml : List Char) (isoToMs : List Char → Binary64) :
    (parseStopEvents xml isoToMs).Pairwise fun a b => a.departure ≤ b.departure :=
  StableSort.pairwise_le_mergeSort FlatDeparture.departure _

/-- What the handler answers for a board: without favourites its first rows, with favourites the
same rows and the next row of each pair. -/
def AnswersNext (handle : Params → Except Rejection (Body × Option ℕ))
    (board : List FlatDeparture) (id : String) (limit stale : Option ℕ) (raw : List Char) : Prop :=
  ∃ favourites, handle ⟨some id, limit, none⟩ = .ok (⟨none, board.take (limit.getD 5)⟩, stale) ∧
    handle ⟨some id, limit, some raw⟩ =
      .ok (⟨favourites, board.take (limit.getD 5)⟩, stale) ∧
    NextOfEach board (parseFavourites raw) (favourites.getD [])

theorem answersNext_of_cached {id json : String} {limit : Option ℕ} {stale : Option ℕ}
    {raw : List Char} {board : List FlatDeparture}
    (hsorted : board.Pairwise fun a b => a.departure ≤ b.departure)
    (hcached : cached (departuresKey id) = .ok (json, stale)) (hjson : fromJson json = .ok board) :
    AnswersNext (handleDepartures fromJson cached) board id limit stale raw := by
  obtain ⟨hchosen, hfavs, -⟩ :=
    partitionFavourites_spec hsorted (parseFavourites raw) (limit.getD 5)
  refine ⟨_, handleDepartures_plain hcached hjson, handleDepartures_some hcached hjson, ?_⟩
  split_ifs with hraw
  · rw [hraw]
    exact ⟨⟨[], rfl, by simp, List.Perm.refl _⟩, List.Pairwise.nil⟩
  · exact ⟨hchosen, hfavs⟩

/-- **Favourites of a request.** In both runtimes a request with favourites is answered, from the
rows of a response that are cached as JSON, with the next row of each pair it names and the rows
it would get without them. -/
theorem handleDepartures_favourites (toJson : List FlatDeparture → String)
    (fromJson : String → Except String (List FlatDeparture)) (xml : List Char)
    (isoToMs : List Char → Binary64)
    (hjson : fromJson (toJson (parseStopEvents xml isoToMs)) = .ok (parseStopEvents xml isoToMs))
    (id : String) (limit stale : Option ℕ) (raw : List Char) :
    (∀ cached : String → Server.Fetched,
      payloadOf (cached (departuresKey id)) = .ok (toJson (parseStopEvents xml isoToMs), stale) →
      AnswersNext (handleDeparturesNative fromJson cached) (parseStopEvents xml isoToMs) id limit
        stale raw) ∧
    ∀ served : String → Worker.Served,
      payloadOfWorker (served (departuresKey id)) =
        .ok (toJson (parseStopEvents xml isoToMs), stale) →
      AnswersNext (handleDeparturesWorker fromJson served) (parseStopEvents xml isoToMs) id limit
        stale raw :=
  ⟨fun _ h => answersNext_of_cached (pairwise_parseStopEvents xml isoToMs) h hjson,
    fun _ h => answersNext_of_cached (pairwise_parseStopEvents xml isoToMs) h hjson⟩

/-- One result of a response. -/
def resultXml (line destination time : String) : List Char :=
  "<StopEventResult><StopEvent><Service><PublishedServiceName><Text>".toList ++ line.toList ++
    "</Text></PublishedServiceName><DestinationText><Text>".toList ++ destination.toList ++
    "</Text></DestinationText></Service><TimetabledTime>".toList ++ time.toList ++
    "</TimetabledTime></StopEvent></StopEventResult>".toList

/-- A response with the rows of `brigRows`. -/
def brigXml : List Char :=
  resultXml "IC8" "Brig" "2026-09-17T10:02:00Z" ++ resultXml "IR90" "Visp" "2026-09-17T10:15:00Z" ++
    resultXml "IC8" "Brig" "2026-09-17T10:32:00Z"

/-- What its times are read as. -/
def brigTimes (iso : List Char) : Binary64 :=
  if iso = "2026-09-17T10:02:00Z".toList then .ofInt 1789639320000
  else if iso = "2026-09-17T10:15:00Z".toList then .ofInt 1789640100000
  else if iso = "2026-09-17T10:32:00Z".toList then .ofInt 1789641120000
  else .nan

theorem parseStopEvents_brigXml : parseStopEvents brigXml brigTimes = brigRows := by
  have hevents : (xmlBlocks brigXml "StopEventResult").filterMap (parseResult brigTimes) =
      brigRows.map fun d => (none, d) := by decide +kernel
  rw [parseStopEvents, hevents]
  exact List.mergeSort_of_pairwise (by decide)

/-- Its rows as JSON. -/
def brigJson : String :=
  "[\x7b\"to\":\"Brig\",\"category\":\"\",\"number\":\"IC8\",\"departure\":1789639320," ++
    "\"delay\":null,\"platform\":\"\",\"platformChanged\":false\x7d," ++
    "\x7b\"to\":\"Visp\",\"category\":\"\",\"number\":\"IR90\",\"departure\":1789640100," ++
    "\"delay\":null,\"platform\":\"\",\"platformChanged\":false\x7d," ++
    "\x7b\"to\":\"Brig\",\"category\":\"\",\"number\":\"IC8\",\"departure\":1789641120," ++
    "\"delay\":null,\"platform\":\"\",\"platformChanged\":false\x7d]"

/-- Of three rows one is asked for. The next rows of two pairs are found, one of them beyond it. -/
theorem handleDepartures_favourites_brig :
    let fromJson := fun json => if json = brigJson then .ok brigRows else .error "no rows"
    let handle := handleDeparturesNative fromJson fun _ => .stale brigJson 70
    AnswersNext handle brigRows "8507000" (some 1) (some 70) "IC8:Brig,IR90:Visp,S1:Thun".toList ∧
      handle ⟨some "8507000", some 1, some "IC8:Brig,IR90:Visp,S1:Thun".toList⟩ =
        .ok (⟨some [rowTo "IC8" "Brig" 1789639320, rowTo "IR90" "Visp" 1789640100],
          [rowTo "IC8" "Brig" 1789639320]⟩, some 70) := by
  intro fromJson handle
  have hjson : fromJson brigJson = .ok brigRows := if_pos rfl
  have hparse : parseFavourites "IC8:Brig,IR90:Visp,S1:Thun".toList =
      [("IC8".toList, "Brig".toList), ("IR90".toList, "Visp".toList),
        ("S1".toList, "Thun".toList)] := by decide +kernel
  have hfavs : (partitionFavourites brigRows
      (parseFavourites "IC8:Brig,IR90:Visp,S1:Thun".toList) 1).1 =
        [rowTo "IC8" "Brig" 1789639320, rowTo "IR90" "Visp" 1789640100] := by
    rw [hparse]
    exact List.mergeSort_of_pairwise (by decide)
  constructor
  · have hanswers := (handleDepartures_favourites (fun _ => brigJson) fromJson brigXml brigTimes
      (by rw [parseStopEvents_brigXml, hjson]) "8507000" (some 1) (some 70)
      "IC8:Brig,IR90:Visp,S1:Thun".toList).1 (fun _ => .stale brigJson 70) rfl
    rwa [parseStopEvents_brigXml] at hanswers
  · refine (handleDepartures_some rfl hjson).trans ?_
    rw [Option.getD_some, hfavs, hparse]
    rfl

end Traintime.Departures
