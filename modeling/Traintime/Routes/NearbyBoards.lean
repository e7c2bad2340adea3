import Traintime.Routes.Boards
import Traintime.Routes.NearbyResponse

/-!
# Boards in nearby responses

The departures that `handle_nearby` embeds, from upstream to the groups it answers with. They are
cached under the key of `/v1/departures`, so they may be those that any request fetched for the
station, and a request that cannot have them answers with the groups alone.

## Main definitions

* `EmbedsBoard`: groups with the first rows of a board.

## Main results

* `embedsBoard_embedDepartures`: from the cached JSON to the groups.
* `nearby_native`, `nearby_worker`: from upstream to the groups.
-/

namespace Traintime.Stations

open Departures (brigJson brigTimes brigXml exists_answer fromJson fromJson_rowsJson payloadOf
  payloadOfWorker rowsJson rowsJson_brigXml)
open NearbyLog (NearbyRequest)
open Ojp (FlatDeparture parseStopEvents)

/-- The closest stations of each mode with the first rows of a board at the station `id`, the first
of the requested mode or else of the first group that has one. -/
structure EmbedsBoard (m : Libm) (lat lon : Binary64) (rows : List Station)
    (requestedMode : Option (List Char)) (id : List Char) (board : List FlatDeparture)
    (groups : ModeGroups) : Prop where
  exists_groups : ∃ bare : ModeGroups, (∀ g, IsClosest m lat lon rows g (bare.get g)) ∧
    IsDefault bare requestedMode (some id) ∧ Carries bare id (board.take embedLimit) groups

/-- The closest stations of each mode, all without departures. -/
structure Bare (m : Libm) (lat lon : Binary64) (rows : List Station) (groups : ModeGroups) :
    Prop where
  closest : ∀ g, IsClosest m lat lon rows g (groups.get g)
  departures : ∀ g, ∀ e ∈ groups.get g, e.departures = none

variable {m : Libm} {toLowercase : List Char → List Char} {describe : String → String}
  {lat lon : Binary64} {rows : List Station} {requestedMode : Option (List Char)}
  {id xml : List Char} {isoToMs : List Char → Binary64} {stale : Option ℕ} {e : String}

/-- A cached board is embedded. -/
theorem embedsBoard_embedDepartures (describe : String → String)
    (cached : String → Except String (String × Option ℕ)) (hids : (rows.map Station.id).Nodup)
    (hfinite : ∀ row ∈ rows, (distanceTo m lat lon row).isFinite = true)
    (hdefault : (nearbyAnswer m lat lon rows requestedMode).defaultId = some id)
    (hcached : cached (departuresKey (String.ofList id)) = .ok (rowsJson isoToMs xml, stale)) :
    ∃ groups, embedDepartures (fromJson describe) cached (nearbyAnswer m lat lon rows
        requestedMode) = (groups, stale) ∧
      EmbedsBoard m lat lon rows requestedMode id (parseStopEvents xml isoToMs) groups := by
  have hright := isRight_embedDepartures hids hfinite requestedMode (fromJson describe) cached
  have hdepartures : departuresOf (fromJson describe) cached id =
      some (parseStopEvents xml isoToMs) := by
    rw [departuresOf, hcached]
    show (fromJson describe (rowsJson isoToMs xml)).toOption = _
    rw [fromJson_rowsJson]
    rfl
  refine ⟨_, ?_, ⟨_, hright.closest, hdefault ▸ hright.isDefault,
    hright.carries id hdefault _ hdepartures⟩⟩
  refine Prod.ext rfl ?_
  rw [embedDepartures, hdefault]
  simp only [hdepartures, hcached]
  rfl

/-- Without a payload the groups are answered alone. -/
theorem bare_embedDepartures (describe : String → String)
    (cached : String → Except String (String × Option ℕ)) (hids : (rows.map Station.id).Nodup)
    (hfinite : ∀ row ∈ rows, (distanceTo m lat lon row).isFinite = true)
    (hdefault : (nearbyAnswer m lat lon rows requestedMode).defaultId = some id)
    (hcached : cached (departuresKey (String.ofList id)) = .error e) :
    ∃ groups, embedDepartures (fromJson describe) cached (nearbyAnswer m lat lon rows
        requestedMode) = (groups, none) ∧ Bare m lat lon rows groups := by
  have hclosest := isClosest_groupNearby hids hfinite
  have hnone : departuresOf (fromJson describe) cached id = none := by
    rw [departuresOf, hcached]
    rfl
  refine ⟨(nearbyAnswer m lat lon rows requestedMode).groups, ?_, hclosest, fun g e he => ?_⟩
  · rw [embedDepartures, hdefault]
    simp only [hnone, hcached]
    rfl
  · obtain ⟨row, -, -, -, rfl⟩ := (hclosest g).near e he
    rfl

theorem handleNearbyNative_eq {table : List Station} {res : Server.Fetched} {r : NearbyRequest}
    {fromJson : String → Except String (List FlatDeparture)}
    (hr : r.coordinates = some (lat, lon)) :
    handleNearbyNative m toLowercase fromJson table (fun _ => res) r =
      .ok (embedDepartures fromJson (fun _ => payloadOf res) (nearbyAnswer m lat lon
        (candidates toLowercase table lat lon (r.query.map toLowercase)) r.mode)) := by
  rw [handleNearbyNative, acceptNearby, hr]
  rfl

theorem handleNearbyWorker_eq {select : Binary64 → Binary64 → Except String (List Station)}
    {found : List Station} {res : Worker.Served} {r : NearbyRequest}
    {fromJson : String → Except String (List FlatDeparture)}
    (hr : r.coordinates = some (lat, lon)) (hselect : select lat lon = .ok found) :
    handleNearbyWorker m toLowercase fromJson select (fun _ => res) r =
      .ok (embedDepartures fromJson (fun _ => payloadOfWorker res) (nearbyAnswer m lat lon
        (found.filter (nameLike toLowercase (r.query.map toLowercase))) r.mode)) := by
  rw [← workerNearby_eq]
  simp only [handleNearbyWorker, acceptNearby, hr, hselect, Except.mapError, bind, Except.bind, pure,
    Except.pure]

/-! ### Two bus stops -/

/-- Two rows of `stations.json`, of which the request is made at the second. -/
def orsingenTable : List Station := [orsingenHauptstrasse, orsingenRathaus]

theorem candidates_orsingen :
    candidates (fun s => s) orsingenTable orsingenLat orsingenLon none = orsingenTable := by
  decide +kernel

theorem closest_pair {e e' : NearbyStation} (h : e'.dist < e.dist) : closest [e, e'] = [e', e] := by
  have hnot : StableSort.keyLE NearbyStation.dist e e' = false := decide_eq_false (not_le.2 h)
  simp [closest, List.mergeSort, List.MergeSort.Internal.splitInTwo, hnot, maxPerMode]

theorem defaultId_orsingen :
    (nearbyAnswer libmNearOrsingen orsingenLat orsingenLon orsingenTable none).defaultId =
      some orsingenRathaus.id := by
  have hrows : orsingenTable.foldl (addRow libmNearOrsingen orsingenLat orsingenLon) .empty =
      ⟨[], [nearbyStation libmNearOrsingen orsingenLat orsingenLon orsingenHauptstrasse,
        nearbyStation libmNearOrsingen orsingenLat orsingenLon orsingenRathaus], [], []⟩ := by
    decide +kernel
  have hdist : (nearbyStation libmNearOrsingen orsingenLat orsingenLon orsingenRathaus).dist <
      (nearbyStation libmNearOrsingen orsingenLat orsingenLon orsingenHauptstrasse).dist := by
    decide +kernel
  rw [nearbyAnswer, groupNearby, hrows, ModeGroups.map, closest_pair hdist]
  simp only [closest, List.mergeSort_nil]
  rfl

theorem nodup_orsingen : (orsingenTable.map Station.id).Nodup := by decide +kernel

theorem isFinite_orsingen : ∀ row ∈ orsingenTable,
    (distanceTo libmNearOrsingen orsingenLat orsingenLon row).isFinite = true :=
  List.forall_mem_cons.2 ⟨by decide +kernel, List.forall_mem_singleton.2 (by decide +kernel)⟩

/-! ### From upstream to the groups -/

section Native

open Server

variable {n : ℕ} {cfg : Config n} {s : Cluster n} {upstream : Fin n → Except String String}

/-- **A nearby response of the native server.** In every run in which the calls for a key use one
TTL, a request with a default station is answered the closest stations of each mode, with the first
20 rows of one upstream answer at that station alone, fetched by itself or for any request for its
board within the bounds on its age, or with no rows at all if a fetch left no payload, its own or the
one it waited for. -/
theorem nearby_native (h : ReachableWith cfg upstream s) (httl : cfg.SameTtl)
    {post pre : List (Event n)} {i : Fin n} {res : Fetched} {t : ℕ}
    (hs : s.history = post ++ .returned i res t :: pre) {table : List Station}
    {r : NearbyRequest} (hr : r.coordinates = some (lat, lon))
    (hrows : candidates toLowercase table lat lon (r.query.map toLowercase) = rows)
    (hids : (rows.map Station.id).Nodup)
    (hfinite : ∀ row ∈ rows, (distanceTo m lat lon row).isFinite = true)
    (hdefault : (nearbyAnswer m lat lon rows r.mode).defaultId = some id)
    (hkey : (cfg.call i).key = departuresKey (String.ofList id))
    {answers : Fin n → Except String (List Char)}
    (hupstream : ∀ q, (cfg.call q).key = departuresKey (String.ofList id) →
      upstream q = (answers q).map (rowsJson isoToMs)) (describe : String → String) :
    (∃ e groups, res = .failed e ∧ handleNearbyNative m toLowercase (fromJson describe) table
        (fun _ => res) r = .ok (groups, none) ∧ Bare m lat lon rows groups) ∨
      ∃ q xml t' stale groups, answers q = .ok xml ∧
        ServedFrom cfg upstream pre i q (rowsJson isoToMs xml) t t' stale ∧
        handleNearbyNative m toLowercase (fromJson describe) table (fun _ => res) r =
          .ok (groups, stale) ∧
        EmbedsBoard m lat lon rows r.mode id (parseStopEvents xml isoToMs) groups := by
  subst hrows
  rw [handleNearbyNative_eq hr]
  rcases servedFrom_of_returned h httl hs with ⟨e, rfl⟩ | ⟨q, v, t', stale, hres, hserved⟩
  · obtain ⟨groups, hgroups, hbare⟩ := bare_embedDepartures describe (fun _ => payloadOf (.failed e))
      hids hfinite hdefault rfl
    exact .inl ⟨e, groups, rfl, congrArg Except.ok hgroups, hbare⟩
  · obtain ⟨xml, hxml, rfl⟩ := exists_answer (hupstream q (hserved.key.trans hkey)) hserved.upstream
    obtain ⟨groups, hgroups, hembeds⟩ := embedsBoard_embedDepartures describe
      (fun _ => payloadOf res) hids hfinite hdefault hres
    exact .inr ⟨q, xml, t', stale, groups, hxml, hserved, congrArg Except.ok hgroups, hembeds⟩

theorem nearby_native_hitRun : ∃ s pre,
    Transition.run (step (twoRequests (departuresKey (String.ofList orsingenRathaus.id)) 60))
        (hitRun brigJson) Cluster.init = some s ∧
      s.history = [] ++ .returned 1 (.cached brigJson) second :: pre ∧
    ((∃ e groups, Fetched.cached brigJson = .failed e ∧
        handleNearbyNative libmNearOrsingen (fun s => s) (fromJson fun e => e) orsingenTable
          (fun _ => .cached brigJson) (NearbyLog.requestAt orsingenRathaus) = .ok (groups, none) ∧
        Bare libmNearOrsingen orsingenLat orsingenLon orsingenTable groups) ∨
      ∃ q xml t' stale groups, (fun _ => .ok brigXml : Fin 2 → Except String (List Char)) q =
          .ok xml ∧
        ServedFrom (twoRequests (departuresKey (String.ofList orsingenRathaus.id)) 60)
          (fun _ => .ok brigJson) pre 1 q (rowsJson brigTimes xml) second t' stale ∧
        handleNearbyNative libmNearOrsingen (fun s => s) (fromJson fun e => e) orsingenTable
          (fun _ => .cached brigJson) (NearbyLog.requestAt orsingenRathaus) = .ok (groups, stale) ∧
        EmbedsBoard libmNearOrsingen orsingenLat orsingenLon orsingenTable none orsingenRathaus.id
          (parseStopEvents xml brigTimes) groups) := by
  obtain ⟨s, pre, hs, hsplit⟩ := exists_run_hitRun
    (departuresKey (String.ofList orsingenRathaus.id)) brigJson (by decide : 1 < 60) (by decide)
  exact ⟨s, pre, hs, hsplit, nearby_native (reachableWith_hitRun hs) (fun _ _ _ => rfl) hsplit rfl
    candidates_orsingen nodup_orsingen isFinite_orsingen defaultId_orsingen rfl
    (fun _ _ => congrArg Except.ok rowsJson_brigXml.symm) fun e => e⟩

end Native

section Worker

open Worker

variable {ι : Type} [DecidableEq ι] {call : ι → Worker.Call} {s : State ι}
  {upstream : ι → Except String String}

/-- **A nearby response of the Worker.** In every run a request with a default station among the rows
that D1 selects is answered the closest stations of each mode, with the first 20 rows of one upstream
answer at that station alone, fetched by itself after it arrived or for any request for its board,
within its TTL, or past it with the age that it had when the request looked it up; or with no rows at
all if its own call failed. -/
theorem nearby_worker (h : ReachableWith call upstream s) {i : ι} {res : Served} {u : ℕ}
    (hi : s.pc i = .done res u) {select : Binary64 → Binary64 → Except String (List Station)}
    {found : List Station} {r : NearbyRequest} (hr : r.coordinates = some (lat, lon))
    (hselect : select lat lon = .ok found)
    (hrows : found.filter (nameLike toLowercase (r.query.map toLowercase)) = rows)
    (hids : (rows.map Station.id).Nodup)
    (hfinite : ∀ row ∈ rows, (distanceTo m lat lon row).isFinite = true)
    (hdefault : (nearbyAnswer m lat lon rows r.mode).defaultId = some id)
    (hkey : (call i).key = departuresKey (String.ofList id))
    {answers : ι → Except String (List Char)}
    (hupstream : ∀ q, (call q).key = departuresKey (String.ofList id) →
      upstream q = (answers q).map (rowsJson isoToMs)) (describe : String → String) :
    (∃ e groups, res = .error e ∧ .failed i e u ∈ s.history ∧
        handleNearbyWorker m toLowercase (fromJson describe) select (fun _ => res) r =
          .ok (groups, none) ∧ Bare m lat lon rows groups) ∨
      ∃ q xml t stale groups, answers q = .ok xml ∧
        ServedFrom call upstream s.history i q (rowsJson isoToMs xml) u t stale ∧
        handleNearbyWorker m toLowercase (fromJson describe) select (fun _ => res) r =
          .ok (groups, stale) ∧
        EmbedsBoard m lat lon rows r.mode id (parseStopEvents xml isoToMs) groups := by
  subst hrows
  rw [handleNearbyWorker_eq hr hselect]
  rcases servedFrom_of_done h hi with ⟨e, rfl, he⟩ | ⟨q, v, t, stale, hres, hserved⟩
  · obtain ⟨groups, hgroups, hbare⟩ := bare_embedDepartures describe
      (fun _ => payloadOfWorker (.error e)) hids hfinite hdefault rfl
    exact .inl ⟨e, groups, rfl, he, congrArg Except.ok hgroups, hbare⟩
  · obtain ⟨xml, hxml, rfl⟩ := exists_answer (hupstream q (hserved.key.trans hkey)) hserved.upstream
    obtain ⟨groups, hgroups, hembeds⟩ := embedsBoard_embedDepartures describe
      (fun _ => payloadOfWorker res) hids hfinite hdefault hres
    exact .inr ⟨q, xml, t, stale, groups, hxml, hserved, congrArg Except.ok hgroups, hembeds⟩

theorem nearby_worker_lateRun : ∃ s,
    Transition.run (step (twoRequests (departuresKey (String.ofList orsingenRathaus.id)) 60))
        (lateRun brigJson 61) State.init = some s ∧
    ((∃ e groups, Served.stale brigJson 61 = .error e ∧ .failed 1 e (70 * second) ∈ s.history ∧
        handleNearbyWorker libmNearOrsingen (fun s => s) (fromJson fun e => e)
          (fun _ _ => .ok orsingenTable) (fun _ => .stale brigJson 61)
          (NearbyLog.requestAt orsingenRathaus) = .ok (groups, none) ∧
        Bare libmNearOrsingen orsingenLat orsingenLon orsingenTable groups) ∨
      ∃ q xml t stale groups, (fun _ => .ok brigXml : Fin 2 → Except String (List Char)) q =
          .ok xml ∧
        ServedFrom (twoRequests (departuresKey (String.ofList orsingenRathaus.id)) 60)
          (fun _ => .ok brigJson) s.history 1 q (rowsJson brigTimes xml) (70 * second) t stale ∧
        handleNearbyWorker libmNearOrsingen (fun s => s) (fromJson fun e => e)
          (fun _ _ => .ok orsingenTable) (fun _ => .stale brigJson 61)
          (NearbyLog.requestAt orsingenRathaus) = .ok (groups, stale) ∧
        EmbedsBoard libmNearOrsingen orsingenLat orsingenLon orsingenTable none orsingenRathaus.id
          (parseStopEvents xml brigTimes) groups) := by
  obtain ⟨s, hs, hanswer⟩ := exists_run_lateRun
    (departuresKey (String.ofList orsingenRathaus.id)) brigJson (by decide : 60 ≤ 61) (by decide)
  exact ⟨s, hs, nearby_worker (reachableWith_lateRun hs) hanswer rfl rfl
    (List.filter_eq_self.2 fun _ _ => rfl) nodup_orsingen isFinite_orsingen defaultId_orsingen rfl
    (fun _ _ => congrArg Except.ok rowsJson_brigXml.symm) fun e => e⟩

end Worker

end Traintime.Stations
