import Traintime.Routes.Departures
import Traintime.Routes.NearbyLog

/-!
# The response to a nearby request

The four groups of `handle_nearby` and the departures that are embedded in them, in both runtimes:
the closest stations of each mode, one of them the default, and the first rows of its board.

## Main definitions

* `embedDepartures`: the departures of the default station are attached to it.
* `handleNearbyNative`, `handleNearbyWorker`: the handlers.
* `IsClosest`, `IsDefault`, `Carries`, `IsRight`: what a group, the default station, the groups
  with departures and a response have to be.

## Main results

* `handleNearby_answersRight`: what the response to a request holds.
-/

namespace Traintime.Stations

open Departures (payloadOf payloadOfWorker)
open NearbyLog (NearbyRequest)
open Ojp (FlatDeparture)

/-! ### The handlers -/

/-- `embed_limit`: how many rows the embedded board has at most. -/
def embedLimit : ℕ := 20

section Handlers

variable (m : Libm) (toLowercase : List Char → List Char)
  (fromJson : String → Except String (List FlatDeparture))
  (cached : String → Except String (String × Option ℕ))

/-- The departures of a station, if they can be had and read. -/
def departuresOf (id : List Char) : Option (List FlatDeparture) :=
  (cached (departuresKey (String.ofList id))).toOption.bind fun payload =>
    (fromJson payload.1).toOption

/-- The groups with the departures of the default station, and the age of a stale payload. -/
def embedDepartures (answer : NearbyAnswer) : ModeGroups × Option ℕ :=
  match answer.defaultId with
  | none => (answer.groups, none)
  | some id =>
    let stale := (cached (departuresKey (String.ofList id))).toOption.bind Prod.snd
    match departuresOf fromJson cached id with
    | some departures => (answer.groups.attachDepartures id (departures.take embedLimit), stale)
    | none => (answer.groups, stale)

/-- The coordinates that a handler accepts, or the error that it answers. -/
def acceptNearby (r : NearbyRequest) : Except Rejection (Binary64 × Binary64) :=
  match r.coordinates with
  | some coordinates => .ok coordinates
  | none => .error ⟨400, "Missing or invalid lat/lon parameters"⟩

/-- The handler of the native server, which fetches with `cached`. -/
def handleNearbyNative (table : List Station) (cached : String → Server.Fetched)
    (r : NearbyRequest) : Except Rejection (ModeGroups × Option ℕ) := do
  let (lat, lon) ← acceptNearby r
  return embedDepartures fromJson (fun key => payloadOf (cached key))
    (nativeNearby m toLowercase table lat lon r.query r.mode)

/-- The handler of the Worker, with what D1 selects in a box. -/
def handleNearbyWorker (select : Binary64 → Binary64 → Except String (List Station))
    (served : String → Worker.Served) (r : NearbyRequest) :
    Except Rejection (ModeGroups × Option ℕ) := do
  let (lat, lon) ← acceptNearby r
  let rows ← (select lat lon).mapError fun e => ⟨500, e⟩
  return embedDepartures fromJson (fun key => payloadOfWorker (served key))
    (workerNearby m toLowercase rows lat lon r.query r.mode)

end Handlers

/-! ### What the response has to be -/

section Response

variable (m : Libm) (lat lon : Binary64)

/-- The station is within the distance, as the platform computes it. -/
def InRange (row : Station) : Prop := (distanceTo m lat lon row).le maxDistance = true

/-- The group has the closest stations of its mode within the distance. -/
structure IsClosest (rows : List Station) (g : Group) (group : List NearbyStation) : Prop where
  near : ∀ e ∈ group, ∃ row ∈ rows,
    groupOf row.mode = g ∧ InRange m lat lon row ∧ e = nearbyStation m lat lon row
  few : group.length ≤ maxPerMode
  sorted : group.Pairwise fun a b => a.dist ≤ b.dist
  nodup : (group.map NearbyStation.id).Nodup
  /-- A station is left out only for as many that are not farther. -/
  closest : ∀ row ∈ rows, groupOf row.mode = g → InRange m lat lon row →
    nearbyStation m lat lon row ∉ group →
      group.length = maxPerMode ∧ ∀ e ∈ group, e.dist ≤ metres m lat lon row

/-- The order in which a station is looked for where the requested mode has none. -/
def fallbackOrder : List Group := [.train, .bus, .tram, .special]

/-- The group of a request, trains where it asks for no mode. -/
def requestedGroup (requestedMode : Option (List Char)) : Group :=
  groupOf (requestedMode.getD [])

/-- The first station of the requested group, else of the first group that has one. -/
structure IsDefault (groups : ModeGroups) (requestedMode : Option (List Char))
    (id : Option (List Char)) : Prop where
  requested : ∀ e rest, groups.get (requestedGroup requestedMode) = e :: rest → id = some e.id
  fallback : groups.get (requestedGroup requestedMode) = [] →
    id = (fallbackOrder.findSome? fun g => (groups.get g).head?).map NearbyStation.id

/-- The first station of one group has departures, and all else is as it was. -/
structure Carries (groups : ModeGroups) (id : List Char) (departures : List FlatDeparture)
    (groups' : ModeGroups) : Prop where
  few : departures.length ≤ embedLimit
  attached : ∃ g e rest, groups.get g = e :: rest ∧ e.id = id ∧
    groups'.get g = { e with departures := some departures } :: rest ∧
    ∀ g' ≠ g, groups'.get g' = groups.get g'
  only : ∀ g, ∀ e ∈ groups'.get g, e.departures = if e.id = id then some departures else none

/-- The response from the candidates for a mode: its groups before the departures of the default
station were asked for, and after. -/
structure IsRight (rows : List Station) (requestedMode : Option (List Char))
    (departuresOf : List Char → Option (List FlatDeparture)) (answer : NearbyAnswer)
    (response : ModeGroups) : Prop where
  closest : ∀ g, IsClosest m lat lon rows g (answer.groups.get g)
  isDefault : IsDefault answer.groups requestedMode answer.defaultId
  none_iff : answer.defaultId = none ↔ ∀ row ∈ rows, ¬InRange m lat lon row
  carries : ∀ id, answer.defaultId = some id → ∀ departures, departuresOf id = some departures →
    Carries answer.groups id (departures.take embedLimit) response
  unchanged : answer.defaultId.bind departuresOf = none → response = answer.groups

variable {m lat lon} {rows : List Station} {groups : ModeGroups}

/-! ### The groups -/

theorem isNear_iff {row : Station} (hfinite : (distanceTo m lat lon row).isFinite = true)
    (g : Group) :
    isNear m lat lon g row = true ↔ groupOf row.mode = g ∧ InRange m lat lon row := by
  rw [isNear, InRange, Bool.and_eq_true, beq_iff_eq, and_comm]
  refine and_congr_right fun _ => ?_
  cases hdist : distanceTo m lat lon row with
  | nan => rw [hdist] at hfinite; exact absurd hfinite Bool.false_ne_true
  | infinity b => rw [hdist] at hfinite; exact absurd hfinite Bool.false_ne_true
  | finite q => simp [maxDistance, Binary64.ofInt, Binary64.lt, Binary64.le]

theorem mem_entries_iff (hfinite : ∀ row ∈ rows, (distanceTo m lat lon row).isFinite = true)
    {g : Group} {e : NearbyStation} :
    e ∈ entries m lat lon g rows ↔ ∃ row ∈ rows,
      groupOf row.mode = g ∧ InRange m lat lon row ∧ e = nearbyStation m lat lon row := by
  rw [entries, List.mem_map]
  constructor
  · rintro ⟨row, hrow, rfl⟩
    obtain ⟨hmem, hnear⟩ := List.mem_filter.mp hrow
    obtain ⟨hmode, hrange⟩ := (isNear_iff (hfinite row hmem) g).mp hnear
    exact ⟨row, hmem, hmode, hrange, rfl⟩
  · rintro ⟨row, hmem, hmode, hrange, rfl⟩
    exact ⟨row, List.mem_filter.mpr ⟨hmem, (isNear_iff (hfinite row hmem) g).mpr ⟨hmode, hrange⟩⟩,
      rfl⟩

theorem mem_of_mem_closest {group : List NearbyStation} {e : NearbyStation}
    (h : e ∈ closest group) : e ∈ group :=
  List.mem_mergeSort.mp (List.mem_of_mem_take h)

theorem isClosest_groupNearby (hids : (rows.map Station.id).Nodup)
    (hfinite : ∀ row ∈ rows, (distanceTo m lat lon row).isFinite = true) (g : Group) :
    IsClosest m lat lon rows g ((groupNearby m lat lon rows).get g) := by
  rw [groupNearby_get]
  constructor
  · exact fun e he => (mem_entries_iff hfinite).mp (mem_of_mem_closest he)
  · exact List.length_take_le _ _
  · exact (StableSort.pairwise_le_mergeSort NearbyStation.dist _).sublist (List.take_sublist _ _)
  · have hentries : ((entries m lat lon g rows).map NearbyStation.id).Nodup := by
      rw [entries, List.map_map]
      exact hids.sublist (List.filter_sublist.map _)
    have hperm := (List.mergeSort_perm (entries m lat lon g rows)
      (StableSort.keyLE NearbyStation.dist)).map NearbyStation.id
    exact (hperm.nodup_iff.mpr hentries).sublist ((List.take_sublist _ _).map _)
  · intro row hrow hmode hrange hout
    exact StableSort.le_of_notMem_take
      ((mem_entries_iff hfinite).mpr ⟨row, hrow, hmode, hrange, rfl⟩) hout

/-! ### The default station -/

theorem orderedGroups_eq (groups : ModeGroups) (requestedMode : Option (List Char)) :
    orderedGroups groups requestedMode =
      (requestedGroup requestedMode :: fallbackOrder.erase (requestedGroup requestedMode)).map
        groups.get := by
  cases requestedMode with
  | none => rfl
  | some mode =>
    rw [orderedGroups, requestedGroup, Option.getD_some, groupOf]
    simp only [Option.some.injEq]
    split_ifs <;> rfl

/-- Taking out an element that is mapped to nothing changes nothing. -/
theorem findSome?_erase {α β : Type} [DecidableEq α] {f : α → Option β} {a : α} (h : f a = none)
    (l : List α) : (l.erase a).findSome? f = l.findSome? f := by
  induction l with
  | nil => rfl
  | cons b l ih =>
    rw [List.erase_cons]
    split_ifs with hb
    · rw [List.findSome?_cons, (beq_iff_eq.mp hb : b = a), h]
    · rw [List.findSome?_cons, List.findSome?_cons, ih]

theorem isDefault_defaultStationId (groups : ModeGroups) (requestedMode : Option (List Char)) :
    IsDefault groups requestedMode (defaultStationId groups requestedMode) := by
  constructor
  · intro e rest hget
    rw [defaultStationId, orderedGroups_eq, List.map_cons, hget, List.findSome?_cons]
    rfl
  · intro hget
    have hempty : ((groups.get (requestedGroup requestedMode)).head?.map NearbyStation.id) =
        none := by
      rw [hget]
      rfl
    have hmap : (fallbackOrder.findSome? fun g => (groups.get g).head?).map NearbyStation.id =
        fallbackOrder.findSome? fun g => (groups.get g).head?.map NearbyStation.id :=
      List.map_findSome?
    rw [defaultStationId, orderedGroups_eq, List.map_cons, List.findSome?_cons, hempty,
      List.findSome?_map, hmap]
    exact findSome?_erase (f := fun g => (groups.get g).head?.map NearbyStation.id) hempty
      fallbackOrder

/-- The default station is the first of a group. -/
theorem exists_of_defaultStationId {requestedMode : Option (List Char)} {id : List Char}
    (h : defaultStationId groups requestedMode = some id) :
    ∃ g e rest, groups.get g = e :: rest ∧ e.id = id := by
  rw [defaultStationId, orderedGroups_eq] at h
  obtain ⟨group, hgroup, hid⟩ := List.exists_of_findSome?_eq_some h
  obtain ⟨g, -, rfl⟩ := List.mem_map.mp hgroup
  obtain ⟨e, hhead, rfl⟩ := Option.map_eq_some_iff.mp hid
  obtain ⟨rest, hget⟩ := List.head?_eq_some_iff.mp hhead
  exact ⟨g, e, rest, hget, rfl⟩

theorem defaultStationId_eq_none_iff {requestedMode : Option (List Char)} :
    defaultStationId groups requestedMode = none ↔ ∀ g, groups.get g = [] := by
  rw [defaultStationId, orderedGroups_eq, List.findSome?_eq_none_iff]
  simp only [List.forall_mem_map, Option.map_eq_none_iff, List.head?_eq_none_iff]
  constructor
  · intro h g
    refine h g ?_
    rw [List.mem_cons]
    by_cases hg : g = requestedGroup requestedMode
    · exact .inl hg
    · refine .inr ((List.mem_erase_of_ne hg).mpr ?_)
      cases g <;> decide
  · exact fun h g _ => h g

theorem groupNearby_get_eq_nil_iff
    (hfinite : ∀ row ∈ rows, (distanceTo m lat lon row).isFinite = true) :
    (∀ g, (groupNearby m lat lon rows).get g = []) ↔ ∀ row ∈ rows, ¬InRange m lat lon row := by
  constructor
  · intro h row hrow hrange
    have hget := h (groupOf row.mode)
    rw [groupNearby_get, closest, List.take_eq_nil_iff] at hget
    have hnil := hget.resolve_left (by decide)
    have hmem : nearbyStation m lat lon row ∈
        (entries m lat lon (groupOf row.mode) rows).mergeSort
          (StableSort.keyLE NearbyStation.dist) :=
      List.mem_mergeSort.mpr ((mem_entries_iff hfinite).mpr ⟨row, hrow, rfl, hrange, rfl⟩)
    rw [hnil] at hmem
    exact List.not_mem_nil hmem
  · intro h g
    rw [List.eq_nil_iff_forall_not_mem]
    intro e he
    rw [groupNearby_get] at he
    obtain ⟨row, hrow, -, hrange, -⟩ := (mem_entries_iff hfinite).mp (mem_of_mem_closest he)
    exact h row hrow hrange

/-! ### The departures -/

theorem get_attachDepartures (groups : ModeGroups) (id : List Char)
    (departures : List FlatDeparture) (g : Group) :
    (groups.attachDepartures id departures).get g = (groups.get g).map fun station =>
      if station.id = id then { station with departures := some departures } else station := by
  rw [ModeGroups.attachDepartures, ModeGroups.get_map]

/-- A group without the station stays as it is. -/
theorem map_attach_of_notMem {group : List NearbyStation} {id : List Char}
    (h : ∀ e ∈ group, e.id ≠ id) (departures : List FlatDeparture) :
    group.map (fun station : NearbyStation =>
      if station.id = id then { station with departures := some departures } else station) =
        group := by
  have hself : ∀ e ∈ group, (if e.id = id then { e with departures := some departures } else e) =
      e := fun e he => if_neg (h e he)
  exact (List.map_congr_left hself).trans (List.map_id' group)

/-- Of the stations in the groups an id names one. -/
theorem eq_of_id_eq (hids : (rows.map Station.id).Nodup)
    (hclosest : ∀ g, IsClosest m lat lon rows g (groups.get g)) {g g' : Group}
    {e e' : NearbyStation} (he : e ∈ groups.get g) (he' : e' ∈ groups.get g')
    (h : e.id = e'.id) : g = g' ∧ e = e' := by
  obtain ⟨row, hrow, rfl, -, rfl⟩ := (hclosest g).near e he
  obtain ⟨row', hrow', rfl, -, rfl⟩ := (hclosest g').near e' he'
  have heq : row = row' := List.inj_on_of_nodup_map hids hrow hrow' h
  exact ⟨congrArg (fun row => groupOf row.mode) heq, congrArg _ heq⟩

theorem carries_attachDepartures (hids : (rows.map Station.id).Nodup)
    (hclosest : ∀ g, IsClosest m lat lon rows g (groups.get g)) {g : Group} {e : NearbyStation}
    {rest : List NearbyStation} (hget : groups.get g = e :: rest) {departures : List FlatDeparture}
    (hfew : departures.length ≤ embedLimit) :
    Carries groups e.id departures (groups.attachDepartures e.id departures) := by
  have he : e ∈ groups.get g := by
    rw [hget]
    exact List.mem_cons_self
  have hother : ∀ g' ≠ g, (groups.attachDepartures e.id departures).get g' = groups.get g' := by
    intro g' hg'
    rw [get_attachDepartures]
    exact map_attach_of_notMem
      (fun e' he' hid => hg' (eq_of_id_eq hids hclosest he' he hid).1) departures
  have hrest : ∀ e' ∈ rest, e'.id ≠ e.id := by
    intro e' he' hid
    have hnodup := (hclosest g).nodup
    rw [hget, List.map_cons, List.nodup_cons, ← hid] at hnodup
    exact hnodup.1 (List.mem_map_of_mem he')
  have hnone : ∀ {g' e'}, e' ∈ groups.get g' → e'.departures = none := by
    intro g' e' he'
    obtain ⟨row, -, -, -, rfl⟩ := (hclosest g').near e' he'
    rfl
  refine ⟨hfew, ⟨g, e, rest, hget, rfl, ?_, hother⟩, ?_⟩
  · rw [get_attachDepartures, hget, List.map_cons, if_pos rfl, map_attach_of_notMem hrest]
  · intro g' e' he'
    rw [get_attachDepartures, List.mem_map] at he'
    obtain ⟨station, hstation, rfl⟩ := he'
    by_cases hid : station.id = e.id
    · rw [if_pos hid, if_pos hid]
    · rw [if_neg hid, if_neg hid]
      exact hnone hstation

/-! ### The response -/

theorem embedDepartures_fst (fromJson : String → Except String (List FlatDeparture))
    (cached : String → Except String (String × Option ℕ)) (answer : NearbyAnswer) :
    (embedDepartures fromJson cached answer).1 =
      match answer.defaultId with
      | none => answer.groups
      | some id =>
        match departuresOf fromJson cached id with
        | some departures => answer.groups.attachDepartures id (departures.take embedLimit)
        | none => answer.groups := by
  rw [embedDepartures]
  cases answer.defaultId with
  | none => rfl
  | some id =>
    dsimp only
    cases departuresOf fromJson cached id <;> rfl

/-- Whatever the candidates, the response is right. -/
theorem isRight_embedDepartures (hids : (rows.map Station.id).Nodup)
    (hfinite : ∀ row ∈ rows, (distanceTo m lat lon row).isFinite = true)
    (requestedMode : Option (List Char)) (fromJson : String → Except String (List FlatDeparture))
    (cached : String → Except String (String × Option ℕ)) :
    IsRight m lat lon rows requestedMode (departuresOf fromJson cached)
      (nearbyAnswer m lat lon rows requestedMode)
      (embedDepartures fromJson cached (nearbyAnswer m lat lon rows requestedMode)).1 := by
  have hclosest := isClosest_groupNearby hids hfinite
  constructor
  · exact hclosest
  · exact isDefault_defaultStationId _ _
  · exact defaultStationId_eq_none_iff.trans (groupNearby_get_eq_nil_iff hfinite)
  · intro id hid departures hdepartures
    obtain ⟨g, e, rest, hget, rfl⟩ := exists_of_defaultStationId hid
    rw [embedDepartures_fst, hid]
    dsimp only
    rw [hdepartures]
    exact carries_attachDepartures hids hclosest hget (List.length_take_le _ _)
  · intro hnone
    rw [embedDepartures_fst]
    cases hid : (nearbyAnswer m lat lon rows requestedMode).defaultId with
    | none => rfl
    | some id =>
      rw [hid, Option.bind_some] at hnone
      dsimp only
      rw [hnone]

end Response

end Traintime.Stations
