import Traintime.Core.Ojp.StopEvents
import Traintime.Lib.StableSort

/-!
# One row for each journey

What `keep_latest_per_journey` of `core/src/ojp.rs` keeps: every row without a journey and for each
journey the first of its latest rows, in the order of departure and, at one departure, in the order
in which the rows or their journeys came.

## Main definitions

* `firsts`: the events that have no journey or are the first of theirs.
* `latest`: the row that stands for a journey.
* `Survives`: the rows that are kept, each under the place of its journey.

## Main results

* `Kept.holds_foldl_add`: what the loop has kept after any number of events.
* `keepLatestPerJourney_spec`: the rows that are returned and their order, and on what they depend.
* `keepLatestPerJourney_map`, `keepLatestPerJourney_eq_filterMap`, `mem_returnedPlaces_iff`: which
  events have their rows returned does not depend on the rest of the rows.
-/

namespace Traintime.Ojp

/-! ### The rows of a journey -/

/-- The rows of the events of one journey, in the order of the response. -/
def rowsOf (events : List Event) (key : List Char) : List FlatDeparture :=
  (events.filter fun e => e.1 = some key).map Prod.snd

/-- The later of two rows of a journey, the first at one departure. -/
def later : Option FlatDeparture → FlatDeparture → Option FlatDeparture
  | none, row => some row
  | some r, row => if r.departure < row.departure then some row else some r

/-- The first of the latest rows of a journey. -/
def latest (events : List Event) (key : List Char) : Option FlatDeparture :=
  (rowsOf events key).foldl later none

/-- The events that have no journey or are the first of theirs, with their places. -/
def firsts (events : List Event) : List (Event × ℕ) :=
  events.zipIdx.filter fun p => p.1.1.isNone || !(events.take p.2).any (·.1 == p.1.1)

/-- The row that stands for an event. -/
def rowOf (events : List Event) (e : Event) : FlatDeparture :=
  match e.1 with
  | none => e.2
  | some key => (latest events key).getD e.2

theorem rowsOf_concat (events : List Event) (e : Event) (key : List Char) :
    rowsOf (events ++ [e]) key =
      rowsOf events key ++ if e.1 = some key then [e.2] else [] := by
  rw [rowsOf, List.filter_append, List.map_append, ← rowsOf]
  by_cases h : e.1 = some key <;> simp [h]

theorem latest_concat_of_ne {events : List Event} {e : Event} {key : List Char}
    (h : e.1 ≠ some key) : latest (events ++ [e]) key = latest events key := by
  rw [latest, rowsOf_concat, if_neg h, List.append_nil, latest]

theorem latest_concat (events : List Event) (row : FlatDeparture) (key : List Char) :
    latest (events ++ [(some key, row)]) key = later (latest events key) row := by
  rw [latest, rowsOf_concat, if_pos rfl, List.foldl_concat, ← latest]

theorem later_ne_none (acc : Option FlatDeparture) (row : FlatDeparture) :
    later acc row ≠ none := by
  cases acc with
  | none => exact Option.some_ne_none row
  | some r =>
    rw [later]
    split_ifs <;> exact Option.some_ne_none _

theorem latest_eq_none_iff {events : List Event} {key : List Char} :
    latest events key = none ↔ ∀ e ∈ events, e.1 ≠ some key := by
  induction events using List.reverseRecOn with
  | nil => exact ⟨fun _ => List.forall_mem_nil _, fun _ => rfl⟩
  | append_singleton events e ih =>
    rw [List.forall_mem_append, ← ih]
    by_cases hkey : e.1 = some key
    · obtain ⟨k, row⟩ := e
      obtain rfl : k = some key := hkey
      rw [latest_concat]
      exact ⟨fun h => absurd h (later_ne_none _ row),
        fun h => absurd rfl (h.2 (some key, row) (List.mem_singleton_self _))⟩
    · rw [latest_concat_of_ne hkey]
      simp [hkey]

/-- The firsts among one more event. -/
theorem firsts_concat (events : List Event) (e : Event) :
    firsts (events ++ [e]) =
      firsts events ++
        if e.1.isNone || !events.any (·.1 == e.1) then [(e, events.length)] else [] := by
  rw [firsts, List.zipIdx_append, List.filter_append]
  congr 1
  · refine List.filter_congr fun p hp => ?_
    obtain ⟨hlt, -⟩ := List.mem_zipIdx' (x := p.1) (i := p.2) hp
    rw [List.take_append_of_le_length hlt.le]
  · have htake : (events ++ [e]).take events.length = events := List.take_left
    simp only [List.zipIdx_cons, List.zipIdx_nil, List.filter_cons, List.filter_nil, zero_add, htake]

theorem mem_firsts_iff {events : List Event} {p : Event × ℕ} :
    p ∈ firsts events ↔ events[p.2]? = some p.1 ∧
      ∀ key, p.1.1 = some key → ∀ e ∈ events.take p.2, e.1 ≠ some key := by
  rw [firsts, List.mem_filter, List.mem_zipIdx_iff_getElem?]
  refine and_congr_right fun _ => ?_
  cases hkey : p.1.1 with
  | none => simp
  | some key => simp

theorem rowOf_eq {events : List Event} {e : Event} {key : List Char} (h : e.1 = some key) :
    rowOf events e = (latest events key).getD e.2 := by
  rw [rowOf, h]

/-- Another event leaves the rows of other journeys as they are. -/
theorem rowOf_concat {events : List Event} {e f : Event}
    (h : ∀ key, f.1 = some key → e.1 ≠ some key) : rowOf (events ++ [e]) f = rowOf events f := by
  cases hf : f.1 with
  | none => rw [rowOf, rowOf, hf]
  | some key => rw [rowOf_eq hf, rowOf_eq hf, latest_concat_of_ne (h key hf)]

/-- Each journey has a first event. -/
theorem exists_mem_firsts {events : List Event} {e : Event} {key : List Char} (he : e ∈ events)
    (hkey : e.1 = some key) : ∃ p ∈ firsts events, p.1.1 = some key := by
  induction events using List.reverseRecOn generalizing e with
  | nil => cases he
  | append_singleton events f ih =>
    rw [firsts_concat]
    by_cases hmem : ∃ g ∈ events, g.1 = some key
    · obtain ⟨g, hg, hgkey⟩ := hmem
      obtain ⟨p, hp, hpkey⟩ := ih hg hgkey
      exact ⟨p, List.mem_append_left _ hp, hpkey⟩
    · rcases List.mem_append.mp he with he | he
      · exact absurd ⟨e, he, hkey⟩ hmem
      · obtain rfl := List.mem_singleton.mp he
        refine ⟨(e, events.length), List.mem_append_right _ ?_, hkey⟩
        have hany : events.any (·.1 == e.1) = false := by
          rw [List.any_eq_false]
          intro g hg hge
          exact hmem ⟨g, hg, (beq_iff_eq.mp hge).trans hkey⟩
        simp [hany]

/-! ### The loop -/

namespace Kept

/-- What the loop has kept after some events: a row for each of the firsts, and where the row of
each journey is. -/
structure Holds (events : List Event) (st : Kept) : Prop where
  rows_eq : st.rows = (firsts events).map fun p => rowOf events p.1
  lookup_iff : ∀ key i, st.seen.lookup key = some i ↔
    ∃ p, (firsts events)[i]? = some p ∧ p.1.1 = some key

theorem holds_empty : Holds [] empty where
  rows_eq := rfl
  lookup_iff := by simp [empty, firsts]

variable {events : List Event} {st : Kept}

theorem Holds.exists_mem (h : Holds events st) {key : List Char} {i : ℕ}
    (hi : st.seen.lookup key = some i) : ∃ e ∈ events, e.1 = some key := by
  obtain ⟨p, hp, hkey⟩ := (h.lookup_iff key i).mp hi
  have hmem := (mem_firsts_iff.mp (List.mem_of_getElem? hp)).1
  exact ⟨p.1, List.mem_of_getElem? hmem, hkey⟩

/-- A journey among the events has been seen. -/
theorem Holds.forall_ne (h : Holds events st) {key : List Char}
    (hkey : st.seen.lookup key = none) : ∀ e ∈ events, e.1 ≠ some key := by
  intro e he hekey
  obtain ⟨p, hp, hpkey⟩ := exists_mem_firsts he hekey
  obtain ⟨i, hi⟩ := List.getElem?_of_mem hp
  have := (h.lookup_iff key i).mpr ⟨p, hi, hpkey⟩
  rw [hkey] at this
  cases this

/-- An event that is the first of its journey or has none. -/
theorem Holds.concat (h : Holds events st) {e : Event} {st' : Kept}
    (hnew : ∀ f ∈ events, ∀ key, f.1 = some key → e.1 ≠ some key)
    (hrows : st'.rows = st.rows ++ [e.2])
    (hseen : ∀ key i, st'.seen.lookup key = some i ↔
      st.seen.lookup key = some i ∨ e.1 = some key ∧ i = st.rows.length) :
    Holds (events ++ [e]) st' := by
  have hfirst : (e.1.isNone || !events.any (·.1 == e.1)) = true := by
    cases hkey : e.1 with
    | none => rfl
    | some key =>
      simp only [Option.isNone_some, Bool.false_or, Bool.not_eq_true', List.any_eq_false,
        beq_iff_eq]
      exact fun f hf hfe => hnew f hf key hfe hkey
  have hfirsts : firsts (events ++ [e]) = firsts events ++ [(e, events.length)] := by
    rw [firsts_concat, if_pos hfirst]
  have hlength : st.rows.length = (firsts events).length := by
    rw [h.rows_eq, List.length_map]
  have hrow : rowOf (events ++ [e]) e = e.2 := by
    obtain ⟨key, row⟩ := e
    cases key with
    | none => rfl
    | some key =>
      have hnone : latest events key = none :=
        latest_eq_none_iff.mpr fun f hf hfkey => hnew f hf key hfkey rfl
      show (latest (events ++ [(some key, row)]) key).getD row = row
      rw [latest_concat, hnone]
      rfl
  constructor
  · rw [hrows, h.rows_eq, hfirsts, List.map_append, List.map_singleton, hrow]
    congr 1
    refine List.map_congr_left fun p hp => (rowOf_concat fun key hkey => ?_).symm
    exact hnew p.1 (List.mem_of_getElem? (mem_firsts_iff.mp hp).1) key hkey
  · intro key i
    rw [hseen, h.lookup_iff, hfirsts, hlength]
    constructor
    · rintro (⟨p, hp, hkey⟩ | ⟨hkey, rfl⟩)
      · refine ⟨p, ?_, hkey⟩
        rw [List.getElem?_append_left (List.getElem?_eq_some_iff.mp hp).1]
        exact hp
      · exact ⟨(e, events.length), by simp, hkey⟩
    · rintro ⟨p, hp, hkey⟩
      rw [List.getElem?_append] at hp
      split_ifs at hp with hi
      · exact .inl ⟨p, hp, hkey⟩
      · rw [List.getElem?_singleton] at hp
        split_ifs at hp with hi'
        cases hp
        exact .inr ⟨hkey, by omega⟩

/-- Another event of a journey that has been seen. -/
theorem Holds.replace (h : Holds events st) {key : List Char} {row : FlatDeparture} {i : ℕ}
    (hi : st.seen.lookup key = some i) {r : FlatDeparture} (hr : st.rows[i]? = some r) {st' : Kept}
    (hrows : st'.rows = if r.departure < row.departure then st.rows.set i row else st.rows)
    (hseen : st'.seen = st.seen) : Holds (events ++ [(some key, row)]) st' := by
  obtain ⟨f, hf, hfkey⟩ := h.exists_mem hi
  have hany : events.any (·.1 == some key) = true :=
    List.any_eq_true.mpr ⟨f, hf, beq_iff_eq.mpr hfkey⟩
  have hfirsts : firsts (events ++ [(some key, row)]) = firsts events := by
    rw [firsts_concat, hany]
    exact List.append_nil _
  have hlatest : latest events key = some r := by
    obtain ⟨p, hp, hpkey⟩ := (h.lookup_iff key i).mp hi
    rw [h.rows_eq, List.getElem?_map, hp, Option.map_some, rowOf_eq hpkey] at hr
    cases hl : latest events key with
    | none => exact absurd hfkey (latest_eq_none_iff.mp hl f hf)
    | some r' =>
      rw [hl] at hr
      exact hr
  constructor
  · have hrow : ∀ p, rowOf (events ++ [(some key, row)]) p =
        if p.1 = some key then if r.departure < row.departure then row else r
        else rowOf events p := by
      intro p
      split_ifs with hp hlt
      · rw [rowOf_eq hp, latest_concat, hlatest]
        simp [later, hlt]
      · rw [rowOf_eq hp, latest_concat, hlatest]
        simp [later, hlt]
      · exact rowOf_concat fun key' hp' hkey' => hp (hp'.trans hkey'.symm)
    have hplace : ∀ j p, (firsts events)[j]? = some p → (p.1.1 = some key ↔ j = i) := by
      intro j p hp
      constructor
      · intro hpkey
        have := (h.lookup_iff key j).mpr ⟨p, hp, hpkey⟩
        rw [hi, Option.some.injEq] at this
        exact this.symm
      · rintro rfl
        obtain ⟨q, hq, hqkey⟩ := (h.lookup_iff key j).mp hi
        rw [hp, Option.some.injEq] at hq
        rwa [hq]
    rw [hfirsts, hrows]
    refine List.ext_getElem? fun j => ?_
    rw [List.getElem?_map]
    have hj : st.rows[j]? = ((firsts events)[j]?).map fun p => rowOf events p.1 := by
      rw [h.rows_eq, List.getElem?_map]
    cases hp : (firsts events)[j]? with
    | none =>
      rw [hp, Option.map_none] at hj
      rw [Option.map_none]
      split_ifs
      · rw [List.getElem?_eq_none_iff, List.length_set]
        exact List.getElem?_eq_none_iff.mp hj
      · exact hj
    | some p =>
      rw [hp, Option.map_some] at hj
      rw [Option.map_some, hrow, if_congr (hplace j p hp) rfl rfl]
      split_ifs with hlt hji hji
      · rw [hji, List.getElem?_set_self (List.getElem?_eq_some_iff.mp hr).1]
      · rw [List.getElem?_set_ne (Ne.symm hji), hj]
      · rw [hji, hr]
      · exact hj
  · intro key' i'
    rw [hseen, h.lookup_iff, hfirsts]

/-- An event of a journey that has a row. -/
theorem add_of_lookup {st : Kept} {key : List Char} {i : ℕ} (hi : st.seen.lookup key = some i)
    {r : FlatDeparture} (hr : st.rows[i]? = some r) (row : FlatDeparture) :
    (st.add (some key, row)).rows =
        (if r.departure < row.departure then st.rows.set i row else st.rows) ∧
      (st.add (some key, row)).seen = st.seen := by
  rw [add]
  split
  · rename_i j hj
    obtain rfl : i = j := Option.some.inj (hi.symm.trans hj)
    have hget : st.rows.get ⟨i, st.seen_lt key i hj⟩ = r := by
      obtain ⟨hlt, hget⟩ := List.getElem?_eq_some_iff.mp hr
      exact hget
    rw [hget]
    split_ifs <;> exact ⟨rfl, rfl⟩
  · rename_i hnone
    exact absurd (hi.symm.trans hnone) (Option.some_ne_none i)

/-- The first event of a journey. -/
theorem add_of_lookup_eq_none {st : Kept} {key : List Char} (h : st.seen.lookup key = none)
    (row : FlatDeparture) :
    (st.add (some key, row)).rows = st.rows ++ [row] ∧
      (st.add (some key, row)).seen = st.seen.insert key st.rows.length := by
  rw [add]
  split
  · rename_i i hi
    exact absurd (hi.symm.trans h) (Option.some_ne_none i)
  · exact ⟨rfl, rfl⟩

theorem holds_add (h : Holds events st) (e : Event) : Holds (events ++ [e]) (st.add e) := by
  obtain ⟨key, row⟩ := e
  cases key with
  | none => exact h.concat (fun _ _ _ _ h => by cases h) rfl fun key i => by simp [add]
  | some key =>
    cases hlookup : st.seen.lookup key with
    | some i =>
      obtain ⟨r, hr⟩ : ∃ r, st.rows[i]? = some r :=
        ⟨_, List.getElem?_eq_getElem (st.seen_lt key i hlookup)⟩
      obtain ⟨hrows, hseen⟩ := add_of_lookup hlookup hr row
      exact h.replace hlookup hr hrows hseen
    | none =>
      obtain ⟨hrows, hseen⟩ := add_of_lookup_eq_none hlookup row
      refine h.concat (fun f hf key' hkey' hkey => ?_) hrows fun key' i => ?_
      · obtain rfl : key = key' := Option.some.inj hkey
        exact h.forall_ne hlookup f hf hkey'
      · rw [hseen, AssocMap.lookup_insert_eq]
        split_ifs with hkey
        · subst hkey
          simp [hlookup, eq_comm]
        · simp [Ne.symm hkey]

theorem holds_foldl_add (events : List Event) : Holds events (events.foldl add empty) := by
  induction events using List.reverseRecOn with
  | nil => exact holds_empty
  | append_singleton events e ih =>
    rw [List.foldl_append]
    exact holds_add ih e

end Kept

/-! ### What is kept -/

/-- No row of the journey departs later than this one, and it is the first that departs then. -/
def IsLatest (events : List Event) (key : List Char) (row : FlatDeparture) : Prop :=
  (∀ e ∈ events, e.1 = some key → e.2.departure ≤ row.departure) ∧
    events.find? (fun e => e.1 == some key && e.2.departure == row.departure) =
      some (some key, row)

/-- A row is kept under a place: that of its event, which has no journey, or that of the first event
of the journey for which it stands. -/
def Survives (events : List Event) (i : ℕ) (row : FlatDeparture) : Prop :=
  events[i]? = some (none, row) ∨
    ∃ key first, events[i]? = some (some key, first) ∧
      (∀ e ∈ events.take i, e.1 ≠ some key) ∧ IsLatest events key row

theorem isLatest_of_latest {events : List Event} {key : List Char} {row : FlatDeparture}
    (h : latest events key = some row) : IsLatest events key row := by
  induction events using List.reverseRecOn generalizing row with
  | nil => cases h
  | append_singleton events e ih =>
    by_cases hkey : e.1 = some key
    · obtain ⟨k, r'⟩ := e
      obtain rfl : k = some key := hkey
      rw [latest_concat] at h
      cases hl : latest events key with
      | none =>
        rw [hl] at h
        obtain rfl : r' = row := Option.some.inj h
        have hne := latest_eq_none_iff.mp hl
        refine ⟨List.forall_mem_append.mpr ⟨fun e he hek => absurd hek (hne e he), by simp⟩, ?_⟩
        rw [List.find?_append, List.find?_eq_none.mpr fun e he => by simp [hne e he]]
        simp
      | some r =>
        obtain ⟨hmax, hfind⟩ := ih hl
        rw [hl, later] at h
        split_ifs at h with hlt
        · obtain rfl : r' = row := Option.some.inj h
          have hlt' : ∀ e ∈ events, e.1 = some key → e.2.departure < r'.departure :=
            fun e he hek => lt_of_le_of_lt (hmax e he hek) hlt
          refine ⟨List.forall_mem_append.mpr ⟨fun e he hek => (hlt' e he hek).le, by simp⟩, ?_⟩
          rw [List.find?_append, List.find?_eq_none.mpr]
          · simp
          · intro e he hcond
            simp only [Bool.and_eq_true, beq_iff_eq] at hcond
            exact absurd hcond.2 (hlt' e he hcond.1).ne
        · obtain rfl : r = row := Option.some.inj h
          refine ⟨List.forall_mem_append.mpr ⟨hmax, by simpa using hlt⟩, ?_⟩
          rw [List.find?_append, hfind]
          rfl
    · rw [latest_concat_of_ne hkey] at h
      obtain ⟨hmax, hfind⟩ := ih h
      refine ⟨List.forall_mem_append.mpr ⟨hmax, by simp [hkey]⟩, ?_⟩
      rw [List.find?_append, hfind]
      rfl

/-- A journey has one latest row. -/
theorem IsLatest.unique {events : List Event} {key : List Char} {r r' : FlatDeparture}
    (h : IsLatest events key r) (h' : IsLatest events key r') : r = r' := by
  have hle := h'.1 _ (List.mem_of_find?_eq_some h.2) rfl
  have hle' := h.1 _ (List.mem_of_find?_eq_some h'.2) rfl
  have hdep : r.departure = r'.departure := le_antisymm hle hle'
  have hfind := h.2
  rw [hdep, h'.2] at hfind
  exact (Prod.mk.inj (Option.some.inj hfind)).2.symm

theorem latest_eq_some_iff {events : List Event} {key : List Char} {row : FlatDeparture} :
    latest events key = some row ↔ IsLatest events key row := by
  refine ⟨isLatest_of_latest, fun h => ?_⟩
  cases hl : latest events key with
  | none => exact absurd rfl (latest_eq_none_iff.mp hl _ (List.mem_of_find?_eq_some h.2))
  | some r => rw [(isLatest_of_latest hl).unique h]

/-- The rows under their places. -/
def placed (events : List Event) : List (ℕ × FlatDeparture) :=
  (firsts events).map fun p => (p.2, rowOf events p.1)

theorem mem_placed_iff {events : List Event} {i : ℕ} {row : FlatDeparture} :
    (i, row) ∈ placed events ↔ Survives events i row := by
  rw [placed, List.mem_map]
  constructor
  · rintro ⟨⟨e, j⟩, hp, heq⟩
    obtain ⟨rfl, rfl⟩ := Prod.mk.inj heq
    obtain ⟨hget, hfirst⟩ := mem_firsts_iff.mp hp
    obtain ⟨key, r⟩ := e
    cases key with
    | none => exact .inl hget
    | some key =>
      refine .inr ⟨key, r, hget, hfirst key rfl, ?_⟩
      cases hl : latest events key with
      | none => exact absurd rfl (latest_eq_none_iff.mp hl _ (List.mem_of_getElem? hget))
      | some row =>
        rw [rowOf_eq (e := (some key, r)) rfl, hl]
        exact isLatest_of_latest hl
  · rintro (hget | ⟨key, r, hget, hfirst, hl⟩)
    · exact ⟨((none, row), i), mem_firsts_iff.mpr ⟨hget, fun key hkey => by cases hkey⟩, rfl⟩
    · refine ⟨((some key, r), i), mem_firsts_iff.mpr ⟨hget, ?_⟩, ?_⟩
      · rintro key' hkey'
        obtain rfl : key = key' := Option.some.inj hkey'
        exact hfirst
      · rw [rowOf_eq (e := (some key, r)) rfl, latest_eq_some_iff.mpr hl]
        rfl

theorem pairwise_placed (events : List Event) :
    (placed events).Pairwise fun a b => a.1 < b.1 := by
  have hzip : events.zipIdx.Pairwise fun p q => p.2 < q.2 := by
    rw [← List.pairwise_map, List.zipIdx_map_snd]
    exact List.pairwise_lt_range'
  rw [placed, List.pairwise_map]
  exact hzip.sublist List.filter_sublist

/-- The rows that are returned. -/
theorem keepLatestPerJourney_eq (events : List Event) :
    keepLatestPerJourney events =
      ((placed events).mergeSort (StableSort.keyLE fun p => p.2.departure)).map Prod.snd := by
  have hrows := (Kept.holds_foldl_add events).rows_eq
  have hplaced : (placed events).map Prod.snd = (firsts events).map fun p => rowOf events p.1 :=
    List.map_map
  rw [keepLatestPerJourney, hrows, ← hplaced]
  exact StableSort.mergeSort_map FlatDeparture.departure Prod.snd (placed events)

/-! ### The order of the events -/

/-- What a place is for: a row without a journey, or a journey. -/
inductive Slot
  | row (r : FlatDeparture)
  | journey (key : List Char)
deriving DecidableEq

/-- The place that an event is for. Events of one journey have one place, and equal rows without a
journey have places of their own that look the same. -/
def slot (e : Event) : Slot :=
  match e.1 with
  | none => .row e.2
  | some key => .journey key

/-- The places that are taken, in the order in which they were. -/
def slots (events : List Event) : List Slot := (firsts events).map fun p => slot p.1

/-- The row that takes a place in the end: the latest one of its journey. -/
def resolve (events : List Event) : Slot → Option FlatDeparture
  | .row r => some r
  | .journey key => latest events key

theorem slots_concat (events : List Event) (e : Event) :
    slots (events ++ [e]) =
      slots events ++ if e.1.isNone || !events.any (·.1 == e.1) then [slot e] else [] := by
  rw [slots, firsts_concat, List.map_append, ← slots]
  split_ifs <;> rfl

/-- The rows are those of the places. -/
theorem map_snd_placed (events : List Event) :
    (placed events).map Prod.snd = (slots events).filterMap (resolve events) := by
  have hplaced : (placed events).map Prod.snd = (firsts events).map fun p => rowOf events p.1 :=
    List.map_map
  rw [hplaced, slots, List.filterMap_map, ← List.filterMap_eq_map]
  refine List.filterMap_congr fun p hp => ?_
  show some (rowOf events p.1) = resolve events (slot p.1)
  cases hkey : p.1.1 with
  | none =>
    rw [rowOf, slot, hkey]
    rfl
  | some key =>
    rw [rowOf_eq hkey, slot, hkey]
    show _ = latest events key
    cases hl : latest events key with
    | none =>
      exact absurd hkey (latest_eq_none_iff.mp hl _ (List.mem_of_getElem? (mem_firsts_iff.mp hp).1))
    | some row => rfl

/-- Each row without a journey takes a place. -/
theorem count_slots_row (events : List Event) (r : FlatDeparture) :
    (slots events).count (.row r) = events.count (none, r) := by
  induction events using List.reverseRecOn with
  | nil => rfl
  | append_singleton events e ih =>
    obtain ⟨k, r'⟩ := e
    rw [slots_concat, List.count_append, ih, List.count_append]
    cases k with
    | none => simp [slot, List.count_singleton]
    | some k => split_ifs <;> simp [slot]

/-- Each journey takes one place. -/
theorem count_slots_journey (events : List Event) (key : List Char) :
    (slots events).count (.journey key) = if events.any (·.1 == some key) then 1 else 0 := by
  induction events using List.reverseRecOn with
  | nil => rfl
  | append_singleton events e ih =>
    obtain ⟨k, r'⟩ := e
    rw [slots_concat, List.count_append, ih, List.any_append]
    cases k with
    | none =>
      have hone : [((none : Option (List Char)), r')].any (·.1 == some key) = false := rfl
      rw [hone, Bool.or_false]
      simp [slot]
    | some k =>
      by_cases hk : k = key
      · subst hk
        cases hany : events.any (·.1 == some k) <;> simp [slot]
      · have hne : (some k == some key) = false := by simpa using hk
        split_ifs <;> simp_all [slot]

/-- Which places are taken does not depend on the order of the events. -/
theorem slots_perm {events events' : List Event} (h : events.Perm events') :
    (slots events).Perm (slots events') := by
  rw [List.perm_iff_count]
  rintro (r | key)
  · rw [count_slots_row, count_slots_row, h.count_eq]
  · rw [count_slots_journey, count_slots_journey, List.any_eq, List.any_eq]
    simp only [h.mem_iff]

/-- The latest row of a journey depends on its events, and on the order of those that depart at one
time. -/
theorem latest_perm {events events' : List Event} (h : events.Perm events') {key : List Char}
    (hkey : ∀ d, (events.filter fun e => e.1 == some key && e.2.departure == d) =
      events'.filter fun e => e.1 == some key && e.2.departure == d) :
    latest events key = latest events' key := by
  cases hl : latest events key with
  | none =>
    exact (latest_eq_none_iff.mpr fun e he =>
      latest_eq_none_iff.mp hl e (h.mem_iff.mpr he)).symm
  | some row =>
    obtain ⟨hmax, hfind⟩ := isLatest_of_latest hl
    refine (latest_eq_some_iff.mpr ⟨fun e he => hmax e (h.mem_iff.mpr he), ?_⟩).symm
    rw [← List.head?_filter, ← hkey row.departure, List.head?_filter]
    exact hfind

/-- The rows that are returned are exactly those that survive, in the order of departure and of
their places, and on the order of the events they depend only through the events of one journey at
one departure. -/
theorem keepLatestPerJourney_spec (events : List Event) :
    (∃ L : List (ℕ × FlatDeparture), keepLatestPerJourney events = L.map Prod.snd ∧
      L.Pairwise (fun a b => a.2.departure < b.2.departure ∨
        a.2.departure = b.2.departure ∧ a.1 < b.1) ∧
      ∀ i row, (i, row) ∈ L ↔ Survives events i row) ∧
    ∀ events' : List Event, events.Perm events' →
      (∀ key d, (events.filter fun e => e.1 == some key && e.2.departure == d) =
        events'.filter fun e => e.1 == some key && e.2.departure == d) →
      (keepLatestPerJourney events).Perm (keepLatestPerJourney events') := by
  have hperm : ∀ l, (keepLatestPerJourney l).Perm ((slots l).filterMap (resolve l)) := by
    intro l
    rw [keepLatestPerJourney_eq, ← map_snd_placed]
    exact (List.mergeSort_perm _ _).map Prod.snd
  constructor
  · refine ⟨_, keepLatestPerJourney_eq events, ?_, fun i row => ?_⟩
    · exact StableSort.pairwise_mergeSort (fun p => p.2.departure) Prod.fst (pairwise_placed events)
    · rw [List.mem_mergeSort, mem_placed_iff]
  · intro events' h hkey
    have hresolve : resolve events = resolve events' := by
      funext x
      cases x with
      | row r => rfl
      | journey key => exact latest_perm h (hkey key)
    have hslots := (slots_perm h).filterMap (resolve events)
    rw [hresolve] at hslots
    have hleft := hperm events
    rw [hresolve] at hleft
    exact (hleft.trans hslots).trans (hperm events').symm


/-- The two rows of one journey at different departures may come in either order, and so may a row
without a journey between them. -/
theorem keepLatestPerJourney_spec_swap :
    let early : FlatDeparture := ⟨[], [], [], 60, none, [], false, none, none⟩
    let late : FlatDeparture := ⟨[], [], [], 120, none, [], false, none, none⟩
    (keepLatestPerJourney [(some ['k'], early), (none, early), (some ['k'], late)]).Perm
      (keepLatestPerJourney [(some ['k'], late), (none, early), (some ['k'], early)]) := by
  intro early late
  refine (keepLatestPerJourney_spec _).2 _ ?_ fun key d => ?_
  · exact (List.Perm.swap _ _ _).trans (((List.Perm.swap _ _ _).cons _).trans (.swap _ _ _))
  · have hne : (early.departure == d && late.departure == d) = false := by
      rw [Bool.and_eq_false_iff, beq_eq_false_iff_ne, beq_eq_false_iff_ne]
      by_contra hboth
      obtain ⟨hearly, hlate⟩ := not_or.1 hboth
      exact absurd ((not_not.1 hearly).trans (not_not.1 hlate).symm) (by decide)
    have hnone : ((none : Option (List Char)) == some key) = false := rfl
    simp only [List.filter_cons, List.filter_nil, hnone, Bool.false_and, Bool.false_eq_true, if_false]
    rcases Bool.and_eq_false_iff.1 hne with hd | hd <;> simp [hd]

/-! ### Rows that are changed one by one -/

namespace Kept

theorem ext_rows {st st' : Kept} (hrows : st.rows = st'.rows) (hseen : st.seen = st'.seen) :
    st = st' := by
  obtain ⟨rows, seen, _⟩ := st
  obtain ⟨rows', seen', _⟩ := st'
  obtain rfl : rows = rows' := hrows
  obtain rfl : seen = seen' := hseen
  rfl

/-- What has been kept, with each row changed. -/
def map (f : FlatDeparture → FlatDeparture) (st : Kept) : Kept where
  rows := st.rows.map f
  seen := st.seen
  seen_lt := fun key i h => by
    rw [List.length_map]
    exact st.seen_lt key i h

@[simp] theorem map_rows (f : FlatDeparture → FlatDeparture) (st : Kept) :
    (st.map f).rows = st.rows.map f := rfl

@[simp] theorem map_seen (f : FlatDeparture → FlatDeparture) (st : Kept) :
    (st.map f).seen = st.seen := rfl

theorem map_add {f : FlatDeparture → FlatDeparture} (hf : ∀ row, (f row).departure = row.departure)
    (st : Kept) (e : Event) : (st.map f).add (e.1, f e.2) = (st.add e).map f := by
  obtain ⟨key, row⟩ := e
  cases key with
  | none => exact ext_rows (by simp [add, map]) rfl
  | some key =>
    cases hlookup : st.seen.lookup key with
    | none =>
      obtain ⟨hrows, hseen⟩ := add_of_lookup_eq_none hlookup row
      have hlookup' : (st.map f).seen.lookup key = none := hlookup
      obtain ⟨hrows', hseen'⟩ := add_of_lookup_eq_none hlookup' (f row)
      refine ext_rows ?_ ?_
      · rw [hrows', map_rows, map_rows, hrows, List.map_append, List.map_singleton]
      · rw [hseen', map_rows, map_seen, map_seen, hseen, List.length_map]
    | some i =>
      obtain ⟨r, hr⟩ : ∃ r, st.rows[i]? = some r :=
        ⟨_, List.getElem?_eq_getElem (st.seen_lt key i hlookup)⟩
      have hr' : (st.map f).rows[i]? = some (f r) := by
        rw [map_rows, List.getElem?_map, hr, Option.map_some]
      obtain ⟨hrows, hseen⟩ := add_of_lookup hlookup hr row
      have hlookup' : (st.map f).seen.lookup key = some i := hlookup
      obtain ⟨hrows', hseen'⟩ := add_of_lookup hlookup' hr' (f row)
      refine ext_rows ?_ ?_
      · rw [hrows', hf, hf, map_rows, map_rows, hrows]
        split_ifs
        · rw [List.map_set]
        · rfl
      · rw [hseen', map_seen, map_seen, hseen]

end Kept

/-- The rows that are returned depend on their journeys and departures alone. -/
theorem keepLatestPerJourney_map {f : FlatDeparture → FlatDeparture}
    (hf : ∀ row, (f row).departure = row.departure) (events : List Event) :
    keepLatestPerJourney (events.map fun e => (e.1, f e.2)) =
      (keepLatestPerJourney events).map f := by
  have hfold : ∀ st : Kept, (events.map fun e => (e.1, f e.2)).foldl Kept.add (st.map f) =
      (events.foldl Kept.add st).map f := by
    induction events with
    | nil => exact fun _ => rfl
    | cons e events ih =>
      intro st
      rw [List.map_cons, List.foldl_cons, List.foldl_cons, Kept.map_add hf, ih]
  have hkey : FlatDeparture.departure ∘ f = FlatDeparture.departure := funext hf
  have hsort := StableSort.mergeSort_map FlatDeparture.departure f
    (events.foldl Kept.add Kept.empty).rows
  rw [hkey] at hsort
  have hempty : Kept.empty.map f = Kept.empty := rfl
  rw [keepLatestPerJourney, ← hempty, hfold]
  exact hsort

/-! ### The places of the rows -/

/-- The row of an event, marked with a place. -/
def marked (e : Event) (i : ℕ) : FlatDeparture := { e.2 with delay := some i }

@[simp] theorem marked_departure (e : Event) (i : ℕ) :
    (marked e i).departure = e.2.departure := rfl

@[simp] theorem marked_delay (e : Event) (i : ℕ) : (marked e i).delay = some (i : ℤ) := rfl

/-- The events with their places in their rows. -/
def tagged (events : List Event) : List Event := events.zipIdx.map fun p => (p.1.1, marked p.1 p.2)

/-- The places of the rows that are returned, in their order. -/
def returnedPlaces (events : List Event) : List ℕ :=
  (keepLatestPerJourney (tagged events)).filterMap fun row => row.delay.map Int.toNat

theorem getElem?_tagged (events : List Event) (i : ℕ) :
    (tagged events)[i]? = (events[i]?).map fun e => (e.1, marked e i) := by
  rw [tagged, List.getElem?_map, List.getElem?_zipIdx, Option.map_map]
  simp [Function.comp_def]

/-- The row of an event, where the event is marked with its place. -/
def untag (events : List Event) (row : FlatDeparture) : FlatDeparture :=
  match (row.delay.bind fun i => events[i.toNat]?) with
  | some e => { e.2 with departure := row.departure }
  | none => row

theorem map_untag_tagged (events : List Event) :
    ((tagged events).map fun e => (e.1, untag events e.2)) = events := by
  refine List.ext_getElem? fun i => ?_
  rw [List.getElem?_map, getElem?_tagged]
  cases hi : events[i]? with
  | none => rfl
  | some e => simp [untag, marked, hi]

theorem mem_keepLatestPerJourney_iff {events : List Event} {row : FlatDeparture} :
    row ∈ keepLatestPerJourney events ↔ ∃ i, Survives events i row := by
  rw [keepLatestPerJourney_eq, List.mem_map]
  constructor
  · rintro ⟨⟨i, row'⟩, hmem, rfl⟩
    exact ⟨i, mem_placed_iff.mp (List.mem_mergeSort.mp hmem)⟩
  · rintro ⟨i, h⟩
    exact ⟨(i, row), List.mem_mergeSort.mpr (mem_placed_iff.mpr h), rfl⟩

/-- A row that is kept is that of an event. -/
theorem Survives.exists_event {events : List Event} {i : ℕ} {row : FlatDeparture}
    (h : Survives events i row) : ∃ (j : ℕ) (e : Event), events[j]? = some e ∧ e.2 = row := by
  rcases h with h | ⟨key, first, -, -, hlatest⟩
  · exact ⟨i, _, h, rfl⟩
  · obtain ⟨j, hj⟩ := List.getElem?_of_mem (List.mem_of_find?_eq_some hlatest.2)
    exact ⟨j, _, hj, rfl⟩

/-- The rows that are returned are those at their places. -/
theorem keepLatestPerJourney_eq_filterMap (events : List Event) :
    keepLatestPerJourney events =
      (returnedPlaces events).filterMap fun i => (events[i]?).map Prod.snd := by
  have hmap := keepLatestPerJourney_map (f := untag events)
    (by intro row; rw [untag]; split <;> rfl) (tagged events)
  rw [map_untag_tagged] at hmap
  rw [hmap, returnedPlaces, List.filterMap_filterMap, ← List.filterMap_eq_map]
  refine List.filterMap_congr fun row hrow => ?_
  obtain ⟨_, hsurvives⟩ := mem_keepLatestPerJourney_iff.mp hrow
  obtain ⟨j, e, he, rfl⟩ := hsurvives.exists_event
  rw [getElem?_tagged] at he
  cases hj : events[j]? with
  | none =>
    rw [hj] at he
    cases he
  | some e' =>
    rw [hj] at he
    cases he
    simp [untag, marked, hj]

/-- The row of the event at a place is returned: no event of its journey departs later, or before
it at the same time. -/
def Returned (events : List Event) (i : ℕ) : Prop :=
  ∃ e, events[i]? = some e ∧ ∀ key, e.1 = some key → ∀ j e', events[j]? = some e' →
    e'.1 = some key →
      e'.2.departure < e.2.departure ∨ e'.2.departure = e.2.departure ∧ i ≤ j

theorem getElem?_tagged_eq_some_iff {events : List Event} {i : ℕ} {key : Option (List Char)}
    {row : FlatDeparture} :
    (tagged events)[i]? = some (key, row) ↔
      ∃ e, events[i]? = some e ∧ key = e.1 ∧ row = marked e i := by
  rw [getElem?_tagged, Option.map_eq_some_iff]
  refine exists_congr fun e => and_congr_right fun _ => ?_
  rw [Prod.mk.injEq, eq_comm (a := key), eq_comm (a := row)]

/-- The latest row of a journey is that of the first of its latest events. -/
theorem isLatest_tagged_iff {events : List Event} {i : ℕ} {e : Event} {key : List Char}
    (he : events[i]? = some e) (hkey : e.1 = some key) :
    IsLatest (tagged events) key (marked e i) ↔
      ∀ j e', events[j]? = some e' → e'.1 = some key →
        e'.2.departure < e.2.departure ∨ e'.2.departure = e.2.departure ∧ i ≤ j := by
  constructor
  · rintro ⟨hmax, hfind⟩ j e' he' hkey'
    have htagged : (tagged events)[j]? = some (some key, marked e' j) :=
      getElem?_tagged_eq_some_iff.mpr ⟨e', he', hkey'.symm, rfl⟩
    have hle : e'.2.departure ≤ e.2.departure := 
      hmax (some key, marked e' j) (List.mem_of_getElem? htagged) rfl
    rcases hle.lt_or_eq with hlt | heq
    · exact .inl hlt
    · refine .inr ⟨heq, ?_⟩
      obtain ⟨-, i', hi', hget, hbefore⟩ := List.find?_eq_some_iff_getElem.mp hfind
      have hi'' := List.getElem?_eq_some_iff.mpr ⟨hi', hget⟩
      obtain ⟨e'', -, -, hrow⟩ := getElem?_tagged_eq_some_iff.mp hi''
      obtain rfl : i = i' := by
        have hdelay := congrArg FlatDeparture.delay hrow
        simpa using hdelay
      by_contra hlt
      rw [not_le] at hlt
      obtain ⟨hj, hjget⟩ := List.getElem?_eq_some_iff.mp htagged
      have hno := hbefore j hlt
      rw [hjget] at hno
      simp [heq] at hno
  · intro h
    refine ⟨fun f hf hfkey => ?_, List.find?_eq_some_iff_getElem.mpr ⟨by simp, ?_⟩⟩
    · obtain ⟨j, hj⟩ := List.getElem?_of_mem hf
      obtain ⟨e', he', hfe, hrow⟩ := getElem?_tagged_eq_some_iff.mp hj
      rw [hrow]
      rcases h j e' he' (hfe.symm.trans hfkey) with hlt | ⟨heq, -⟩
      · exact hlt.le
      · exact heq.le
    · have htagged : (tagged events)[i]? = some (some key, marked e i) :=
        getElem?_tagged_eq_some_iff.mpr ⟨e, he, hkey.symm, rfl⟩
      obtain ⟨hi, hget⟩ := List.getElem?_eq_some_iff.mp htagged
      refine ⟨i, hi, hget, fun j hj => ?_⟩
      cases hjget : (tagged events)[j] with
      | mk k row =>
      obtain ⟨e', he', rfl, rfl⟩ := getElem?_tagged_eq_some_iff.mp
        (List.getElem?_eq_some_iff.mpr ⟨hj.trans hi, hjget⟩)
      rw [Bool.not_eq_true', Bool.and_eq_false_iff]
      by_cases hkey' : e'.1 = some key
      · refine .inr ?_
        rcases h j e' he' hkey' with hlt | ⟨-, hle⟩
        · exact beq_false_of_ne hlt.ne
        · omega
      · exact .inl (beq_false_of_ne hkey')

/-- The places of the rows that are returned. -/
theorem mem_returnedPlaces_iff {events : List Event} {i : ℕ} :
    i ∈ returnedPlaces events ↔ Returned events i := by
  rw [returnedPlaces, List.mem_filterMap]
  constructor
  · rintro ⟨row, hrow, hplace⟩
    obtain ⟨place, hsurvives⟩ := mem_keepLatestPerJourney_iff.mp hrow
    have hmarked : ∀ {j e}, events[j]? = some e → row = marked e j → i = j := by
      rintro j e - rfl
      simpa using hplace.symm
    rcases hsurvives with hget | ⟨key, first, -, -, hlatest⟩
    · obtain ⟨e, he, hkey, hrow⟩ := getElem?_tagged_eq_some_iff.mp hget
      obtain rfl := hmarked he hrow
      exact ⟨e, he, fun key hkey' => absurd (hkey.trans hkey') (Option.some_ne_none key).symm⟩
    · obtain ⟨j, hj⟩ := List.getElem?_of_mem (List.mem_of_find?_eq_some hlatest.2)
      obtain ⟨e, he, hkey, hrow⟩ := getElem?_tagged_eq_some_iff.mp hj
      obtain rfl := hmarked he hrow
      refine ⟨e, he, fun key' hkey' => ?_⟩
      obtain rfl : key = key' := Option.some.inj (hkey.trans hkey')
      rw [hrow] at hlatest
      exact (isLatest_tagged_iff he hkey').mp hlatest
  · rintro ⟨e, he, h⟩
    refine ⟨marked e i, mem_keepLatestPerJourney_iff.mpr ?_, by simp⟩
    cases hkey : e.1 with
    | none => exact ⟨i, .inl (getElem?_tagged_eq_some_iff.mpr ⟨e, he, hkey.symm, rfl⟩)⟩
    | some key =>
      have htagged : (tagged events)[i]? = some (some key, marked e i) :=
        getElem?_tagged_eq_some_iff.mpr ⟨e, he, hkey.symm, rfl⟩
      obtain ⟨p, hp, hpkey⟩ := exists_mem_firsts (List.mem_of_getElem? htagged) rfl
      obtain ⟨hget, hfirst⟩ := mem_firsts_iff.mp hp
      refine ⟨p.2, .inr ⟨key, p.1.2, ?_, hfirst key hpkey,
        (isLatest_tagged_iff he hkey).mpr (h key hkey)⟩⟩
      rw [hget, ← hpkey]

end Traintime.Ojp
