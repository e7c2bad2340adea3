import Traintime.Core.Ojp.StopEvents
import Traintime.Lib.StableSort

/-!
# Stations around a place

The distance of `core/src/geo.rs` and the grouping of `core/src/stations.rs`. The functions of the
platform that have no exact meaning in double precision are a parameter.

## Main definitions

* `haversineDistance`, `boundingBox`: the functions of `geo.rs`.
* `Station`, `NearbyStation`, `ModeGroups`: the data of `stations.rs`.
* `groupNearby`, `defaultStationId`, `ModeGroups.attachDepartures`: its functions.

## Main results

* `groupNearby_get`: each group holds the first of its candidates in the order of their distances.
-/

namespace Traintime.Stations

/-! ### Distances -/

/-- The functions of the platform's mathematical library. -/
structure Libm where
  sin : Binary64 → Binary64
  cos : Binary64 → Binary64
  sqrt : Binary64 → Binary64
  atan2 : Binary64 → Binary64 → Binary64

/-- `std::f64::consts::PI`. -/
def pi : Binary64 := .finite (884279719003555 / 2 ^ 48)

/-- `MAX_PER_MODE`: how many stations of a group are answered at most. -/
def maxPerMode : ℕ := 5

/-- `MAX_DISTANCE`: a station farther away than this, in metres, is not in any answer. -/
def maxDistance : Binary64 := .ofInt 5000

/-- `to_radians`, with the two operations and the constant of the standard library. -/
def toRad (deg : Binary64) : Binary64 := (deg.mul pi).div (.ofInt 180)

/-- `powi(2)`. -/
def square (x : Binary64) : Binary64 := x.mul x

/-- `haversine_distance` in metres, with every operation rounded where the source rounds it. -/
def haversineDistance (m : Libm) (lat1 lon1 lat2 lon2 : Binary64) : Binary64 :=
  let r := Binary64.ofInt 6371000
  let dLat := toRad (lat2.sub lat1)
  let dLon := toRad (lon2.sub lon1)
  let a := (square (m.sin (dLat.div (.ofInt 2)))).add
    (((m.cos (toRad lat1)).mul (m.cos (toRad lat2))).mul (square (m.sin (dLon.div (.ofInt 2)))))
  (r.mul (.ofInt 2)).mul (m.atan2 (m.sqrt a) (m.sqrt ((Binary64.ofInt 1).sub a)))

/-- The corners of the box, south and north, west and east. -/
def boundingBox (lat lon : Binary64) : Binary64 × Binary64 × Binary64 × Binary64 :=
  let dlat := maxDistance.div (.ofInt 111000)
  let dlon := maxDistance.div (.ofInt 75700)
  (lat.sub dlat, lat.add dlat, lon.sub dlon, lon.add dlon)

/-! ### Groups -/

/-- A candidate station, a row of the table with the fields that are asked of it. -/
structure Station where
  id : List Char
  name : List Char
  lat : Binary64
  lon : Binary64
  mode : List Char
deriving DecidableEq, Repr

/-- A station of the answer with its distance in whole metres. Departures are there for one station
at most, the one whose board is embedded. -/
structure NearbyStation where
  id : List Char
  name : List Char
  dist : ℤ
  lat : Binary64
  lon : Binary64
  departures : Option (List Ojp.FlatDeparture)
deriving DecidableEq, Repr

/-- The stations of the answer by their modes. A mode that is none of the other three counts as a
train. -/
structure ModeGroups where
  train : List NearbyStation
  bus : List NearbyStation
  tram : List NearbyStation
  special : List NearbyStation
deriving DecidableEq, Repr

namespace ModeGroups

/-- The groups before the first station is added. -/
def empty : ModeGroups := ⟨[], [], [], []⟩

/-- A station joins the group of its mode behind those that are there. -/
def push (groups : ModeGroups) (mode : List Char) (entry : NearbyStation) : ModeGroups :=
  if mode = "bus".toList then { groups with bus := groups.bus ++ [entry] }
  else if mode = "tram".toList then { groups with tram := groups.tram ++ [entry] }
  else if mode = "special".toList then { groups with special := groups.special ++ [entry] }
  else { groups with train := groups.train ++ [entry] }

/-- The same for each group, whatever it is done to. -/
def map (groups : ModeGroups) (f : List NearbyStation → List NearbyStation) : ModeGroups :=
  ⟨f groups.train, f groups.bus, f groups.tram, f groups.special⟩

/-- Attach a departure list to whichever group holds this station id. -/
def attachDepartures (groups : ModeGroups) (id : List Char)
    (departures : List Ojp.FlatDeparture) : ModeGroups :=
  groups.map fun group => group.map fun station =>
    if station.id = id then { station with departures := some departures } else station

end ModeGroups

section Group

variable (m : Libm) (lat lon : Binary64)

/-- The distance of a row from the position of the request. -/
def distanceTo (row : Station) : Binary64 := haversineDistance m lat lon row.lat row.lon

/-- The station in the answer, with its distance in whole metres. -/
def nearbyStation (row : Station) : NearbyStation :=
  { id := row.id
    name := row.name
    dist := (distanceTo m lat lon row).round.toInt64
    lat := row.lat
    lon := row.lon
    departures := none }

/-- A row that is too far is left out. -/
def addRow (groups : ModeGroups) (row : Station) : ModeGroups :=
  if maxDistance.lt (distanceTo m lat lon row) then groups
  else groups.push row.mode (nearbyStation m lat lon row)

/-- The closest, those of one distance in the order in which they came. -/
def closest (group : List NearbyStation) : List NearbyStation :=
  (group.mergeSort (StableSort.keyLE NearbyStation.dist)).take maxPerMode

/-- `group_nearby`: the candidates that are close enough, by their modes, and of each group the
closest ones. -/
def groupNearby (candidates : List Station) : ModeGroups :=
  (candidates.foldl (addRow m lat lon) .empty).map closest

end Group

/-- The groups in the order in which a station is looked for. -/
def orderedGroups (groups : ModeGroups) (requestedMode : Option (List Char)) :
    List (List NearbyStation) :=
  if requestedMode = some "bus".toList then
    [groups.bus, groups.train, groups.tram, groups.special]
  else if requestedMode = some "tram".toList then
    [groups.tram, groups.train, groups.bus, groups.special]
  else if requestedMode = some "special".toList then
    [groups.special, groups.train, groups.bus, groups.tram]
  else [groups.train, groups.bus, groups.tram, groups.special]

/-- `default_station_id`: the station whose departures are embedded, the first of the first group
that has one. -/
def defaultStationId (groups : ModeGroups) (requestedMode : Option (List Char)) :
    Option (List Char) :=
  (orderedGroups groups requestedMode).findSome? fun group => group.head?.map NearbyStation.id

/-! ### What the groups hold -/

/-- One of the groups that the answer has its stations in. -/
inductive Group
  | train
  | bus
  | tram
  | special
deriving DecidableEq, Repr

/-- The group of a mode. A mode that none of the others is for goes to the trains. -/
def groupOf (mode : List Char) : Group :=
  if mode = "bus".toList then .bus
  else if mode = "tram".toList then .tram
  else if mode = "special".toList then .special
  else .train

namespace ModeGroups

/-- The stations of one of the groups, so that a fact about all four is one statement. -/
def get (groups : ModeGroups) : Group → List NearbyStation
  | .train => groups.train
  | .bus => groups.bus
  | .tram => groups.tram
  | .special => groups.special

theorem ext_get {groups groups' : ModeGroups} (h : ∀ g, groups.get g = groups'.get g) :
    groups = groups' := by
  obtain ⟨train, bus, tram, special⟩ := groups
  obtain ⟨train', bus', tram', special'⟩ := groups'
  rw [mk.injEq]
  exact ⟨h .train, h .bus, h .tram, h .special⟩

@[simp] theorem get_empty (g : Group) : empty.get g = [] := by
  cases g <;> rfl

@[simp] theorem get_map (groups : ModeGroups) (f : List NearbyStation → List NearbyStation)
    (g : Group) : (groups.map f).get g = f (groups.get g) := by
  cases g <;> rfl

theorem get_push (groups : ModeGroups) (mode : List Char) (entry : NearbyStation) (g : Group) :
    (groups.push mode entry).get g =
      groups.get g ++ if groupOf mode = g then [entry] else [] := by
  rw [push, groupOf]
  split_ifs <;> cases g <;> simp_all [get]

end ModeGroups

section Group

variable (m : Libm) (lat lon : Binary64)

/-- The row is near enough and belongs to the group. -/
def isNear (g : Group) (row : Station) : Bool :=
  !maxDistance.lt (distanceTo m lat lon row) && groupOf row.mode == g

/-- The entries of a group before they are sorted. -/
def entries (g : Group) (rows : List Station) : List NearbyStation :=
  (rows.filter (isNear m lat lon g)).map (nearbyStation m lat lon)

theorem foldl_addRow_get (rows : List Station) (groups : ModeGroups) (g : Group) :
    (rows.foldl (addRow m lat lon) groups).get g = groups.get g ++ entries m lat lon g rows := by
  induction rows generalizing groups with
  | nil => simp [entries]
  | cons row rows ih =>
    rw [List.foldl_cons, ih, addRow, entries, entries, List.filter_cons, isNear]
    cases maxDistance.lt (distanceTo m lat lon row) with
    | true => simp
    | false =>
      by_cases hg : groupOf row.mode = g
      · simp [ModeGroups.get_push, hg]
      · simp [ModeGroups.get_push, hg]

/-- Each group holds the first of its candidates in the order of their distances. -/
theorem groupNearby_get (rows : List Station) (g : Group) :
    (groupNearby m lat lon rows).get g = closest (entries m lat lon g rows) := by
  rw [groupNearby, ModeGroups.get_map, foldl_addRow_get, ModeGroups.get_empty, List.nil_append]

end Group

end Traintime.Stations
