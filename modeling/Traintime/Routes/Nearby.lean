import Traintime.Core.Stations

/-!
# Nearby stations in the two runtimes

`handle_nearby` of the native server, which goes through the rows of `stations.json`, and of the
Worker, which has D1 select them. The rows of the SELECT come in any order.

## Main definitions

* `candidates`, `nativeNearby`: the native server.
* `selected`, `workerNearby`: the Worker.
* `Untied`: no order of equally distant stations can be seen.

## Main results

* `nearby_agrees_iff`: when the two give one answer, whatever the order of the rows.
-/

namespace Traintime.Stations

/-! ### The two handlers -/

/-- The four groups and the station whose departures are embedded. -/
structure NearbyAnswer where
  groups : ModeGroups
  defaultId : Option (List Char)
deriving DecidableEq, Repr

/-- Both runtimes must filter on the same box. -/
def inBox (lat lon : Binary64) (s : Station) : Bool :=
  let (latMin, latMax, lonMin, lonMax) := boundingBox lat lon
  latMin.le s.lat && s.lat.le latMax && lonMin.le s.lon && s.lon.le lonMax

/-- `contains`: the one text is a part of the other, the empty one always. -/
def contains (text part : List Char) : Bool := decide (part <:+: text)

section Handlers

variable (m : Libm) (toLowercase : List Char → List Char)

/-- The name of a station contains the query. -/
def nameLike (query : Option (List Char)) (s : Station) : Bool :=
  match query with
  | some q => contains (toLowercase s.name) q
  | none => true

/-- `Stations::candidates`: the rows in the box whose names have the query in them, in the order of
the table. -/
def candidates (rows : List Station) (lat lon : Binary64) (query : Option (List Char)) :
    List Station :=
  (rows.filter (inBox lat lon)).filter (nameLike toLowercase query)

/-- The groups of the candidates, and the station whose board is embedded. -/
def nearbyAnswer (lat lon : Binary64) (rows : List Station) (requestedMode : Option (List Char)) :
    NearbyAnswer :=
  let groups := groupNearby m lat lon rows
  ⟨groups, defaultStationId groups requestedMode⟩

/-- The answer of the native server, on the table that it has in memory. -/
def nativeNearby (table : List Station) (lat lon : Binary64) (query requestedMode :
    Option (List Char)) : NearbyAnswer :=
  nearbyAnswer m lat lon (candidates toLowercase table lat lon (query.map toLowercase))
    requestedMode

/-- The rows of the Worker's SELECT, which has no order. -/
def selected (table : List Station) (lat lon : Binary64) : List Station :=
  table.filter (inBox lat lon)

/-- The Worker, on the rows it gets from D1. -/
def workerNearby (rows : List Station) (lat lon : Binary64) (query requestedMode :
    Option (List Char)) : NearbyAnswer :=
  let rows :=
    match query.map toLowercase with
    | some q => rows.filter fun s => contains (toLowercase s.name) q
    | none => rows
  nearbyAnswer m lat lon rows requestedMode

/-! ### Ties -/

/-- The stations that compete for a group. -/
def competing (table : List Station) (lat lon : Binary64) (query : Option (List Char))
    (g : Group) : List Station :=
  (candidates toLowercase table lat lon (query.map toLowercase)).filter (isNear m lat lon g)

/-- The distance of a station in whole metres. -/
def metres (lat lon : Binary64) (s : Station) : ℤ := (nearbyStation m lat lon s).dist

/-- Of two stations of a group at one distance in whole metres, neither is among the first. -/
def Untied (table : List Station) (lat lon : Binary64) (query : Option (List Char)) : Prop :=
  ∀ g, ∀ a ∈ competing m toLowercase table lat lon query g,
    ∀ b ∈ competing m toLowercase table lat lon query g, a ≠ b →
      metres m lat lon a = metres m lat lon b →
      maxPerMode ≤ (competing m toLowercase table lat lon query g).countP fun c =>
        decide (metres m lat lon c < metres m lat lon a)

variable {m toLowercase} {table rows : List Station} {lat lon : Binary64}
  {query requestedMode : Option (List Char)}

theorem workerNearby_eq (rows : List Station) :
    workerNearby m toLowercase rows lat lon query requestedMode =
      nearbyAnswer m lat lon (rows.filter (nameLike toLowercase (query.map toLowercase)))
        requestedMode := by
  cases query with
  | none =>
    have hall : rows.filter (nameLike toLowercase none) = rows :=
      List.filter_eq_self.mpr fun _ _ => rfl
    rw [Option.map_none, hall]
    rfl
  | some q => rfl

/-- The entries of a group do not depend on the order of the rows but for their own. -/
theorem entries_perm {rows rows' : List Station} (h : rows.Perm rows') (g : Group) :
    (entries m lat lon g rows).Perm (entries m lat lon g rows') :=
  (h.filter _).map _

theorem countP_entries (g : Group) (rows : List Station) (d : ℤ) :
    (entries m lat lon g rows).countP (fun e => decide (e.dist < d)) =
      (rows.filter (isNear m lat lon g)).countP fun c => decide (metres m lat lon c < d) := by
  rw [entries, List.countP_map]
  rfl

/-- Without ties the order of the rows cannot be seen. -/
theorem Untied.worker_eq (h : Untied m toLowercase table lat lon query)
    (hrows : rows.Perm (selected table lat lon)) :
    workerNearby m toLowercase rows lat lon query requestedMode =
      nativeNearby m toLowercase table lat lon query requestedMode := by
  have hcandidates : (candidates toLowercase table lat lon (query.map toLowercase)).Perm
      (rows.filter (nameLike toLowercase (query.map toLowercase))) := (hrows.symm.filter _)
  have hgroups : groupNearby m lat lon (rows.filter (nameLike toLowercase (query.map toLowercase))) =
      groupNearby m lat lon (candidates toLowercase table lat lon (query.map toLowercase)) := by
    refine ModeGroups.ext_get fun g => ?_
    rw [groupNearby_get, groupNearby_get]
    refine (StableSort.take_mergeSort_of_perm (entries_perm hcandidates g) ?_).symm
    intro a ha b hb hne hdist
    obtain ⟨a, hamem, rfl⟩ := List.mem_map.mp ha
    obtain ⟨b, hbmem, rfl⟩ := List.mem_map.mp hb
    rw [countP_entries]
    exact h g a hamem b hbmem (fun hab => hne (congrArg _ hab)) hdist
  rw [workerNearby_eq, nativeNearby, nearbyAnswer, nearbyAnswer, hgroups]

/-- Stations with different ids have different entries. -/
theorem nearbyStation_injOn (hids : (table.map Station.id).Nodup) {a b : Station} (ha : a ∈ table)
    (hb : b ∈ table) (h : nearbyStation m lat lon a = nearbyStation m lat lon b) : a = b :=
  List.inj_on_of_nodup_map hids ha hb (congrArg NearbyStation.id h)

theorem nodup_entries {rows : List Station} (hids : (rows.map Station.id).Nodup) (g : Group) :
    (entries m lat lon g rows).Nodup := by
  have hmap : ((entries m lat lon g rows).map NearbyStation.id).Nodup := by
    rw [entries, List.map_map]
    exact hids.sublist (List.filter_sublist.map _)
  exact hmap.of_map _

/-- A competing station that is the first row is the first entry of its group. -/
theorem entries_cons {g : Group} {a : Station} {t : List Station}
    (ha : a ∈ competing m toLowercase table lat lon query g) :
    entries m lat lon g ((a :: t).filter (nameLike toLowercase (query.map toLowercase))) =
      nearbyStation m lat lon a ::
        entries m lat lon g (t.filter (nameLike toLowercase (query.map toLowercase))) := by
  rw [competing, candidates, List.mem_filter, List.mem_filter] at ha
  rw [List.filter_cons_of_pos ha.1.2, entries, List.filter_cons_of_pos ha.2, List.map_cons, entries]

/-- An order that puts a competing station first. -/
theorem perm_selected {g : Group} {a : Station}
    (ha : a ∈ competing m toLowercase table lat lon query g) :
    (selected table lat lon).Perm (a :: (selected table lat lon).erase a) := by
  rw [competing, candidates, List.mem_filter, List.mem_filter] at ha
  exact List.perm_cons_erase ha.1.1

/-- Where the order of the rows cannot be seen, there are no ties. -/
theorem untied_of_worker_eq (hids : (table.map Station.id).Nodup)
    (h : ∀ rows, rows.Perm (selected table lat lon) →
      workerNearby m toLowercase rows lat lon query requestedMode =
        nativeNearby m toLowercase table lat lon query requestedMode) :
    Untied m toLowercase table lat lon query := by
  intro g a ha b hb hne hdist
  let named := fun rows : List Station =>
    rows.filter (nameLike toLowercase (query.map toLowercase))
  have hpermA := perm_selected ha
  have hpermB := perm_selected hb
  have hsame := (h _ hpermA.symm).trans (h _ hpermB.symm).symm
  rw [workerNearby_eq, workerNearby_eq] at hsame
  have hget := congrArg (fun answer => answer.groups.get g) hsame
  simp only [nearbyAnswer, groupNearby_get, entries_cons ha, entries_cons hb] at hget
  have hperm : (entries m lat lon g (named (a :: (selected table lat lon).erase a))).Perm
      (entries m lat lon g (named (b :: (selected table lat lon).erase b))) :=
    entries_perm ((hpermA.symm.trans hpermB).filter _) g
  rw [entries_cons ha, entries_cons hb] at hperm
  have hnodup : (entries m lat lon g (named (a :: (selected table lat lon).erase a))).Nodup := by
    refine nodup_entries ?_ g
    have hids' : ((a :: (selected table lat lon).erase a).map Station.id).Nodup :=
      (hpermA.map Station.id).nodup_iff.mp (hids.sublist (List.filter_sublist.map _))
    exact hids'.sublist (List.filter_sublist.map _)
  rw [entries_cons ha] at hnodup
  have hentry : nearbyStation m lat lon a ≠ nearbyStation m lat lon b := by
    have hmem : ∀ {c}, c ∈ competing m toLowercase table lat lon query g → c ∈ table := by
      intro c hc
      rw [competing, candidates, List.mem_filter, List.mem_filter, List.mem_filter] at hc
      exact hc.1.1.1
    exact fun heq => hne (nearbyStation_injOn hids (hmem ha) (hmem hb) heq)
  have hmany := StableSort.le_countP_of_take_mergeSort_eq hnodup hperm hentry hdist hget
  rw [← entries_cons ha, countP_entries] at hmany
  have hcount := ((hpermA.filter (nameLike toLowercase (query.map toLowercase))).filter
    (isNear m lat lon g)).countP_eq fun c => decide (metres m lat lon c < metres m lat lon a)
  rw [competing, candidates, ← selected, hcount]
  exact hmany

end Handlers

/-- The Worker gives the answer of the native server in whatever order D1 returns the rows, exactly
when no two stations of a group are at one distance in whole metres among its first. -/
theorem nearby_agrees_iff (m : Libm) (toLowercase : List Char → List Char) (table : List Station)
    (hids : (table.map Station.id).Nodup) (lat lon : Binary64)
    (query requestedMode : Option (List Char)) :
    (∀ rows, rows.Perm (selected table lat lon) →
      workerNearby m toLowercase rows lat lon query requestedMode =
        nativeNearby m toLowercase table lat lon query requestedMode) ↔
      Untied m toLowercase table lat lon query :=
  ⟨untied_of_worker_eq hids, fun h _ hrows => h.worker_eq hrows⟩

/-! ### Two stops at one place -/

/-- The latitude of two stops of `stations.json`, in double precision. -/
def orsingenLat : Binary64 := .finite (6732371973211045 / 2 ^ 47)

/-- The longitude of the same two stops. -/
def orsingenLon : Binary64 := .finite (1256905397878181 / 2 ^ 47)

/-- Two rows of `stations.json`. -/
def orsingenRathaus : Station :=
  ⟨"1101753".toList, "Orsingen, Rathaus".toList, orsingenLat, orsingenLon, "bus".toList⟩

/-- The second row, with another id and name and the same place. -/
def orsingenTorkelplatz : Station :=
  ⟨"1101758".toList, "Orsingen, Torkelplatz".toList, orsingenLat, orsingenLon, "bus".toList⟩

/-- The values of the platform's functions at the place itself, where the distance is zero: `sin 0`,
the cosine of its latitude, `sqrt 0` and `sqrt 1`, and `atan2 0 1`. -/
def libmAtOrsingen : Libm where
  sin := fun _ => .ofInt 0
  cos := fun _ => .finite (94470050245835 / 2 ^ 47)
  sqrt := fun x => x
  atan2 := fun y _ => y

/-- A third row, 158 m away from the first. -/
def orsingenHauptstrasse : Station :=
  ⟨"1101752".toList, "Orsingen, Hauptstrasse".toList, .finite (420766387373133 / 2 ^ 43),
    .finite (628577251616285 / 2 ^ 46), "bus".toList⟩

/-- A function of which some values are known. -/
def valueAt (values : List (Binary64 × Binary64)) (x : Binary64) : Binary64 :=
  (values.lookup x).getD .nan

/-- The values of the platform's functions for the first and the third row, at the place of the
first. -/
def libmNearOrsingen : Libm where
  sin := valueAt [(.finite 0, .finite 0),
    (.finite (-8036032252148813 / 2 ^ 70), .finite (-4018016126043379 / 2 ^ 69)),
    (.finite (2279451456142237 / 2 ^ 67), .finite (2279451456051597 / 2 ^ 67))]
  cos := valueAt [(.finite (3760065836848647 / 2 ^ 52), .finite (94470050245835 / 2 ^ 47)),
    (.finite (7520009053576259 / 2 ^ 53), .finite (1511543526250693 / 2 ^ 51))]
  sqrt := valueAt [(.finite 0, .finite 0), (.finite 1, .finite 1),
    (.finite (2975588114976717 / 2 ^ 84), .finite (7321436341543159 / 2 ^ 69)),
    (.finite (562949953334711 / 2 ^ 49), .finite (1125899906756023 / 2 ^ 50))]
  atan2 := fun y x => valueAt (if x = .finite 1 then [(.finite 0, .finite 0)] else
    if x = .finite (1125899906756023 / 2 ^ 50) then
      [(.finite (7321436341543159 / 2 ^ 69), .finite (3660718170865437 / 2 ^ 68))] else []) y

theorem metres_orsingenRathaus :
    metres libmNearOrsingen orsingenLat orsingenLon orsingenRathaus = 0 := by decide +kernel

theorem metres_orsingenHauptstrasse :
    metres libmNearOrsingen orsingenLat orsingenLon orsingenHauptstrasse = 158 := by decide +kernel

/-- Two bus stops at different distances are in no tie, in whatever order their rows come. -/
theorem nearby_agrees_orsingen :
    let table := [orsingenRathaus, orsingenHauptstrasse]
    let answer := nativeNearby libmNearOrsingen id table orsingenLat orsingenLon none none
    selected table orsingenLat orsingenLon = table ∧
      competing libmNearOrsingen id table orsingenLat orsingenLon none .bus = table ∧
      workerNearby libmNearOrsingen id [orsingenRathaus, orsingenHauptstrasse] orsingenLat
        orsingenLon none none = answer ∧
      workerNearby libmNearOrsingen id [orsingenHauptstrasse, orsingenRathaus] orsingenLat
        orsingenLon none none = answer := by
  have hselected : selected [orsingenRathaus, orsingenHauptstrasse] orsingenLat orsingenLon =
      [orsingenRathaus, orsingenHauptstrasse] := by decide +kernel
  have huntied : Untied libmNearOrsingen id [orsingenRathaus, orsingenHauptstrasse] orsingenLat
      orsingenLon none := by
    intro g a ha b hb hne hdist
    have hmem : ∀ {c}, c ∈ competing libmNearOrsingen id [orsingenRathaus, orsingenHauptstrasse]
        orsingenLat orsingenLon none g → c = orsingenRathaus ∨ c = orsingenHauptstrasse := by
      intro c hc
      rw [competing, candidates, List.mem_filter, List.mem_filter, List.mem_filter] at hc
      simpa using hc.1.1.1
    rcases hmem ha with rfl | rfl <;> rcases hmem hb with rfl | rfl
    · exact absurd rfl hne
    · rw [metres_orsingenRathaus, metres_orsingenHauptstrasse] at hdist
      cases hdist
    · rw [metres_orsingenRathaus, metres_orsingenHauptstrasse] at hdist
      cases hdist
    · exact absurd rfl hne
  have hagrees := (nearby_agrees_iff libmNearOrsingen id [orsingenRathaus, orsingenHauptstrasse]
    (by decide +kernel) orsingenLat orsingenLon none none).mpr huntied
  rw [hselected] at hagrees
  exact ⟨hselected, by decide +kernel, hagrees _ (.refl _), hagrees _ (.swap _ _ _)⟩

/-- The answer near two bus stops at one place begins with the first of them. -/
theorem defaultId_pair {a b : Station} (hlat : a.lat = b.lat) (hlon : a.lon = b.lon)
    (hrows : [a, b].foldl (addRow libmAtOrsingen orsingenLat orsingenLon) .empty =
      ⟨[], [nearbyStation libmAtOrsingen orsingenLat orsingenLon a,
        nearbyStation libmAtOrsingen orsingenLat orsingenLon b], [], []⟩) :
    (nearbyAnswer libmAtOrsingen orsingenLat orsingenLon [a, b] none).defaultId = some a.id := by
  have hdist : (nearbyStation libmAtOrsingen orsingenLat orsingenLon a).dist =
      (nearbyStation libmAtOrsingen orsingenLat orsingenLon b).dist := by
    rw [nearbyStation, nearbyStation, distanceTo, distanceTo, hlat, hlon]
  have hsorted : ∀ l : List NearbyStation,
      l.Pairwise (fun e e' => StableSort.keyLE NearbyStation.dist e e' = true) →
        closest l = l.take maxPerMode := fun l h => by rw [closest, List.mergeSort_of_pairwise h]
  rw [nearbyAnswer, groupNearby, hrows, ModeGroups.map, hsorted [] List.Pairwise.nil, hsorted]
  · rfl
  · exact List.pairwise_pair.mpr (decide_eq_true (le_of_eq hdist))

/-- At one place the order in which D1 returns two stops decides whose departures are embedded. -/
theorem nearby_order_seen :
    let table := [orsingenRathaus, orsingenTorkelplatz]
    let rows := [orsingenTorkelplatz, orsingenRathaus]
    (table.map Station.id).Nodup ∧ rows.Perm (selected table orsingenLat orsingenLon) ∧
      (nativeNearby libmAtOrsingen id table orsingenLat orsingenLon none none).defaultId =
        some orsingenRathaus.id ∧
      (workerNearby libmAtOrsingen id rows orsingenLat orsingenLon none none).defaultId =
        some orsingenTorkelplatz.id := by
  have hselected : selected [orsingenRathaus, orsingenTorkelplatz] orsingenLat orsingenLon =
      [orsingenRathaus, orsingenTorkelplatz] := by decide +kernel
  have hnames : ∀ rows : List Station, rows.filter (nameLike id none) = rows :=
    fun rows => List.filter_eq_self.mpr fun _ _ => rfl
  refine ⟨by decide +kernel, ?_, ?_, ?_⟩
  · rw [hselected]
    exact List.Perm.swap _ _ _
  · rw [nativeNearby, candidates, ← selected, hselected, Option.map_none, hnames]
    exact defaultId_pair rfl rfl (by decide +kernel)
  · rw [workerNearby_eq, Option.map_none, hnames]
    exact defaultId_pair rfl rfl (by decide +kernel)

end Traintime.Stations
