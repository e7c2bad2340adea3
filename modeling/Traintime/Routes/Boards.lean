import Traintime.Routes.Payloads
import Traintime.Routes.Response

/-!
# Boards from upstream to the response

The way of the rows of a board through a whole runtime: an upstream answer is parsed, its rows are
written as JSON, kept in the caches, given to any number of requests, read again, cut and written as
the body of a response. Whatever the caches and the other requests do, a response shows the rows of
one upstream answer for the station it was asked for, within the bounds on its age.

## Main definitions

* `Departures.ShowsBoard`: a response with the rows of a board.

## Main results

* `Departures.board_roundTrips`: the texts of a board.
* `Departures.showsBoard_respond`: from the cached JSON to the response.
* `Departures.boards_native`, `Departures.boards_worker`: from upstream to the response.
-/

namespace Traintime.Departures

open Json Ojp Favourites

/-! ### From the cache to the response -/

/-- The parsed favourites of a request, and none for one that asks for none. -/
def Params.pairs (params : Params) : List (List Char × List Char) :=
  (params.favourites.map parseFavourites).getD []

/-- The response has the first rows of a board and, if favourites are asked for, the next row of each
pair, and says how old the board is if it is stale. -/
structure ShowsBoard (params : Params) (board : List FlatDeparture) (stale : Option ℕ)
    (response : Response) : Prop where
  status : response.status = 200
  staleAge : response.staleAge = stale.map toString
  body : ∃ body, readBody response.body = some body ∧
    body.departures = board.take (params.limit.getD 5) ∧
    (params.pairs = [] → body.favourites = none) ∧
    (params.pairs ≠ [] → ∃ favs, body.favourites = some favs ∧ NextOfEach board params.pairs favs)

variable {describe : String → String} {isoToMs : List Char → Binary64} {xml : List Char}
  {params : Params} {id e : String} {stale : Option ℕ}
  {cached : String → Except String (String × Option ℕ)}

/-- The body that shows a board, cut to the limit and with the favourites apart if any are asked
for. -/
def bodyOf (params : Params) (board : List FlatDeparture) : Body :=
  ⟨if params.pairs = [] then none
    else some (partitionFavourites board params.pairs (params.limit.getD 5)).1,
    board.take (params.limit.getD 5)⟩

theorem handleDepartures_eq {fromJson : String → Except String (List FlatDeparture)} {json : String}
    {board : List FlatDeparture} (hid : params.id = some id)
    (hcached : cached (departuresKey id) = .ok (json, stale)) (hjson : fromJson json = .ok board) :
    handleDepartures fromJson cached params = .ok (bodyOf params board, stale) := by
  obtain ⟨_, limit, favourites⟩ := params
  obtain rfl := hid
  cases favourites with
  | none => exact handleDepartures_plain hcached hjson
  | some raw => exact handleDepartures_some hcached hjson

/-- The favourites are rows of the board. -/
theorem NextOfEach.subset {board favs : List FlatDeparture}
    {favPairs : List (List Char × List Char)} (h : NextOfEach board favPairs favs) :
    favs ⊆ board := by
  intro d hd
  obtain ⟨⟨chosen, -, hnext, hperm⟩, -⟩ := h
  obtain ⟨x, hx, rfl⟩ := List.mem_map.1 (hperm.subset hd)
  exact (hnext x hx).mem

theorem nextOfEach_partitionFavourites {board : List FlatDeparture}
    (hsorted : board.Pairwise fun a b => a.departure ≤ b.departure)
    (favPairs : List (List Char × List Char)) (limit : ℕ) :
    NextOfEach board favPairs (partitionFavourites board favPairs limit).1 := by
  obtain ⟨hchosen, hfavs, -⟩ := partitionFavourites_spec hsorted favPairs limit
  exact ⟨hchosen, hfavs⟩

theorem inRange_bodyOf {board : List FlatDeparture} (h : ∀ d ∈ board, d.InRange)
    (hsorted : board.Pairwise fun a b => a.departure ≤ b.departure) :
    (bodyOf params board).InRange := by
  refine ⟨fun favs hfavs d hd => ?_, fun d hd => h d (List.mem_of_mem_take hd)⟩
  have hfavs : (if params.pairs = [] then none
      else some (partitionFavourites board params.pairs (params.limit.getD 5)).1) = some favs :=
    hfavs
  split_ifs at hfavs
  obtain rfl := Option.some.inj hfavs
  exact h d ((nextOfEach_partitionFavourites hsorted _ _).subset hd)

/-- A cached board makes a response that shows it. -/
theorem showsBoard_respond (hid : params.id = some id)
    (hcached : cached (departuresKey id) = .ok (rowsJson isoToMs xml, stale)) :
    ShowsBoard params (parseStopEvents xml isoToMs) stale
      (respondDepartures (handleDepartures (fromJson describe) cached params)) := by
  have hsorted := pairwise_parseStopEvents xml isoToMs
  rw [handleDepartures_eq hid hcached (fromJson_rowsJson describe isoToMs xml)]
  refine ⟨rfl, rfl, bodyOf params (parseStopEvents xml isoToMs), ?_, rfl, fun h => if_pos h,
    fun h => ⟨_, if_neg h, nextOfEach_partitionFavourites hsorted _ _⟩⟩
  exact readBody_canonical (inRange_bodyOf (fun _ => inRange_of_mem_parseStopEvents) hsorted)

/-- **The texts of a board.** Whatever an upstream answer says, its rows are read again as they were
from the JSON that is cached, that JSON from the entry of the edge cache around it, and the rows
from the body of a response. -/
theorem board_roundTrips (xml : List Char) (isoToMs : List Char → Binary64) (fetchedAt : UInt64)
    (stale : Option ℕ) :
    readRows (rowsText (parseStopEvents xml isoToMs)) = some (parseStopEvents xml isoToMs) ∧
      CachedPayload.ofText (CachedPayload.text ⟨fetchedAt.toNat, rowsJson isoToMs xml⟩) =
        some ⟨fetchedAt.toNat, rowsJson isoToMs xml⟩ ∧
      readBody (respond 200 (Body.toJson ⟨none, parseStopEvents xml isoToMs⟩) stale).body =
        some ⟨none, parseStopEvents xml isoToMs⟩ :=
  ⟨readRows_rowsText fun _ => inRange_of_mem_parseStopEvents,
    CachedPayload.ofText_text fetchedAt.toNat_lt,
    readBody_canonical ⟨nofun, fun _ => inRange_of_mem_parseStopEvents⟩⟩

/-- Without a payload there is an error. -/
theorem respond_of_error (hid : params.id = some id)
    (hcached : cached (departuresKey id) = .error e) :
    respondDepartures (handleDepartures (fromJson describe) cached params) =
      respond 500 (errorBody e) none := by
  simp [handleDepartures, hid, acceptDepartures, hcached, Except.mapError, bind, Except.bind,
    respondDepartures]

/-! ### From upstream to the response -/

/-- A payload that upstream has is made from an answer. -/
theorem exists_answer {outcome : Except String String} {answer : Except String (List Char)}
    {v : String} (hmap : outcome = answer.map (rowsJson isoToMs)) (hv : outcome = .ok v) :
    ∃ xml, answer = .ok xml ∧ v = rowsJson isoToMs xml := by
  subst hv
  cases answer with
  | error e => cases hmap
  | ok xml => exact ⟨xml, rfl, Except.ok.inj hmap⟩

section Native

open Server

variable {n : ℕ} {cfg : Config n} {s : Cluster n} {upstream : Fin n → Except String String}

/-- **A board of the native server.** In every run in which the calls for a key use one TTL, the
response to a request for a station shows the rows of one upstream answer for that station, fetched
by itself or within the bounds on its age, or is the error of a fetch that left no payload, its own
or the one it waited for. -/
theorem boards_native (h : ReachableWith cfg upstream s) (httl : cfg.SameTtl)
    {post pre : List (Event n)} {r : Fin n} {res : Fetched} {t : ℕ}
    (hs : s.history = post ++ .returned r res t :: pre) {id : String}
    (hkey : (cfg.call r).key = departuresKey id) {isoToMs : List Char → Binary64}
    {answers : Fin n → Except String (List Char)}
    (hupstream : ∀ q, (cfg.call q).key = departuresKey id →
      upstream q = (answers q).map (rowsJson isoToMs))
    {params : Params} (hid : params.id = some id) (describe : String → String) :
    (∃ e, res = .failed e ∧
        respondDepartures (handleDeparturesNative (fromJson describe) (fun _ => res) params) =
          respond 500 (errorBody e) none) ∨
      ∃ q xml t' stale, answers q = .ok xml ∧
        ServedFrom cfg upstream pre r q (rowsJson isoToMs xml) t t' stale ∧
        ShowsBoard params (parseStopEvents xml isoToMs) stale
          (respondDepartures (handleDeparturesNative (fromJson describe) (fun _ => res) params)) := by
  rcases servedFrom_of_returned h httl hs with ⟨e, rfl⟩ | ⟨q, v, t', stale, hres, hserved⟩
  · exact .inl ⟨e, rfl, respond_of_error hid rfl⟩
  · obtain ⟨xml, hxml, rfl⟩ := exists_answer (hupstream q (hserved.key.trans hkey)) hserved.upstream
    exact .inr ⟨q, xml, t', stale, hxml, hserved, showsBoard_respond hid hres⟩

theorem rowsJson_brigXml : rowsJson brigTimes brigXml = brigJson := by
  rw [rowsJson, parseStopEvents_brigXml]
  decide +kernel

/-- A request for one row and the next rows of three pairs. -/
def brigParams : Params := ⟨some "8507000", some 1, some "IC8:Brig,IR90:Visp,S1:Thun".toList⟩

theorem boards_native_hitRun : ∃ s pre,
    Transition.run (step (twoRequests (departuresKey "8507000") 60)) (hitRun brigJson)
        Cluster.init = some s ∧
      s.history = [] ++ .returned 1 (.cached brigJson) second :: pre ∧
    ((∃ e, Fetched.cached brigJson = .failed e ∧
        respondDepartures (handleDeparturesNative (fromJson fun e => e) (fun _ => .cached brigJson)
          brigParams) = respond 500 (errorBody e) none) ∨
      ∃ q xml t' stale, (fun _ => .ok brigXml : Fin 2 → Except String (List Char)) q = .ok xml ∧
        ServedFrom (twoRequests (departuresKey "8507000") 60) (fun _ => .ok brigJson) pre 1 q
          (rowsJson brigTimes xml) second t' stale ∧
        ShowsBoard brigParams (parseStopEvents xml brigTimes) stale
          (respondDepartures (handleDeparturesNative (fromJson fun e => e)
            (fun _ => .cached brigJson) brigParams))) := by
  obtain ⟨s, pre, hs, hsplit⟩ := exists_run_hitRun (departuresKey "8507000") brigJson
    (by decide : 1 < 60) (by decide)
  exact ⟨s, pre, hs, hsplit, boards_native (reachableWith_hitRun hs) (fun _ _ _ => rfl) hsplit rfl
    (fun _ _ => congrArg Except.ok rowsJson_brigXml.symm) rfl fun e => e⟩

end Native

section Worker

open Worker

variable {ι : Type} [DecidableEq ι] {call : ι → Worker.Call} {s : State ι}
  {upstream : ι → Except String String}

/-- **A board of the Worker.** In every run the response to a request for a station shows the rows of
one upstream answer for that station, fetched by itself after it arrived, or within its TTL, or past
it with the age that it had when the request looked it up, or says that its own call failed. -/
theorem boards_worker (h : ReachableWith call upstream s) {r : ι} {res : Worker.Served} {u : ℕ}
    (hr : s.pc r = .done res u) {id : String} (hkey : (call r).key = departuresKey id)
    {isoToMs : List Char → Binary64} {answers : ι → Except String (List Char)}
    (hupstream : ∀ q, (call q).key = departuresKey id →
      upstream q = (answers q).map (rowsJson isoToMs))
    {params : Params} (hid : params.id = some id) (describe : String → String) :
    (∃ e, res = .error e ∧ .failed r e u ∈ s.history ∧
        respondDepartures (handleDeparturesWorker (fromJson describe) (fun _ => res) params) =
          respond 500 (errorBody e) none) ∨
      ∃ q xml t stale, answers q = .ok xml ∧
        ServedFrom call upstream s.history r q (rowsJson isoToMs xml) u t stale ∧
        ShowsBoard params (parseStopEvents xml isoToMs) stale
          (respondDepartures (handleDeparturesWorker (fromJson describe) (fun _ => res) params)) := by
  rcases servedFrom_of_done h hr with ⟨e, rfl, he⟩ | ⟨q, v, t, stale, hres, hserved⟩
  · exact .inl ⟨e, rfl, he, respond_of_error hid rfl⟩
  · obtain ⟨xml, hxml, rfl⟩ := exists_answer (hupstream q (hserved.key.trans hkey)) hserved.upstream
    exact .inr ⟨q, xml, t, stale, hxml, hserved, showsBoard_respond hid hres⟩

/-- The board is 61 seconds old when request 1 has looked it up, and 70 when its own call fails. -/
theorem boards_worker_lateRun : ∃ s,
    Transition.run (step (twoRequests (departuresKey "8507000") 60)) (lateRun brigJson 61)
      State.init = some s ∧
    ((∃ e, Served.stale brigJson 61 = .error e ∧ .failed 1 e (70 * second) ∈ s.history ∧
        respondDepartures (handleDeparturesWorker (fromJson fun e => e)
          (fun _ => .stale brigJson 61) brigParams) = respond 500 (errorBody e) none) ∨
      ∃ q xml t stale, (fun _ => .ok brigXml : Fin 2 → Except String (List Char)) q = .ok xml ∧
        ServedFrom (twoRequests (departuresKey "8507000") 60) (fun _ => .ok brigJson) s.history 1 q
          (rowsJson brigTimes xml) (70 * second) t stale ∧
        ShowsBoard brigParams (parseStopEvents xml brigTimes) stale
          (respondDepartures (handleDeparturesWorker (fromJson fun e => e)
            (fun _ => .stale brigJson 61) brigParams))) := by
  obtain ⟨s, hs, hanswer⟩ := exists_run_lateRun (departuresKey "8507000") brigJson
    (by decide : 60 ≤ 61) (by decide)
  exact ⟨s, hs, boards_worker (reachableWith_lateRun hs) hanswer rfl
    (fun _ _ => congrArg Except.ok rowsJson_brigXml.symm) rfl fun e => e⟩

end Worker

end Traintime.Departures
