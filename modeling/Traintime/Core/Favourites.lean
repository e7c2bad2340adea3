import Mathlib.Data.List.Infix
import Traintime.Core.Ojp.StopEvents
import Traintime.Lib.StableSort

/-!
# Favourites

`core/src/favourites.rs`: a client names its favourites as pairs of a line and a destination, and
gets for each pair the first departure of the board with that line and that destination.

The text of a pair is cut at commas and at its first colon, and its ends are trimmed. A row can be
named exactly if neither its line nor its destination needs one of these characters.

## Main definitions

* `parseFavourites`, `partitionFavourites`: the functions of the source.
* `IsNext`: a row of a pair with the earliest departure.
* `favouritesText`: the text that names rows.
* `Nameable`: the rows that can be named.

## Main results

* `partitionFavourites_spec`: what is returned for a board in the order of departure.
* `favourites_roundTrip_iff`: the rows that are found again from their text.
-/

namespace Traintime.Favourites

open Ojp

/-- One pair, if its line and its destination are there. -/
def parsePair (pair : List Char) : Option (List Char × List Char) :=
  let pair := trim pair
  match pair.dropWhile (· != ':') with
  | [] => none
  | _ :: dest =>
    let line := pair.takeWhile (· != ':')
    if line.isEmpty || dest.isEmpty then none else some (line, dest)

/-- `parse_favourites`: the pairs of `"IC8:Brig,IR90:Visp"`. A part without a colon, or with nothing
on one side of it, is left out. -/
def parseFavourites (raw : List Char) : List (List Char × List Char) :=
  (raw.splitOn ',').filterMap parsePair

/-- The row is one of the line and the destination. -/
def isOf (pair : List Char × List Char) (d : FlatDeparture) : Bool :=
  d.number == pair.1 && d.destination == pair.2

/-- The first row of each pair in the order of departure, and the first rows of the board. -/
def partitionFavourites (departures : List FlatDeparture) (favPairs : List (List Char × List Char))
    (limit : ℕ) : List FlatDeparture × List FlatDeparture :=
  let favourites := favPairs.filterMap fun pair => departures.find? (isOf pair)
  (favourites.mergeSort (StableSort.keyLE FlatDeparture.departure), departures.take limit)

example : parseFavourites "IC8:,:Brig,,IR90:Visp".toList =
    [("IR90".toList, "Visp".toList)] := by decide +kernel

variable {board : List FlatDeparture} {pair : List Char × List Char} {d : FlatDeparture}

theorem isOf_iff : isOf pair d = true ↔ (d.number, d.destination) = pair := by
  rw [isOf, Bool.and_eq_true, beq_iff_eq, beq_iff_eq, Prod.ext_iff]

/-! ### The next row of a pair -/

/-- A row of the pair such that none of the pair departs earlier. -/
structure IsNext (board : List FlatDeparture) (pair : List Char × List Char) (d : FlatDeparture) :
    Prop where
  mem : d ∈ board
  isOf : (d.number, d.destination) = pair
  earliest : ∀ e ∈ board, (e.number, e.destination) = pair → d.departure ≤ e.departure

/-- In the order of departure the first row of a pair is the next. -/
theorem isNext_of_find? (hsorted : board.Pairwise fun a b => a.departure ≤ b.departure)
    (h : board.find? (isOf pair) = some d) : IsNext board pair d := by
  obtain ⟨hof, pre, post, rfl, hpre⟩ := List.find?_eq_some_iff_append.1 h
  refine ⟨by simp, isOf_iff.1 hof, fun e he hpair => ?_⟩
  rcases List.mem_append.1 he with he | he
  · have hnot := hpre e he
    rw [isOf_iff.2 hpair] at hnot
    cases hnot
  · rcases List.mem_cons.1 he with rfl | he
    · exact le_rfl
    · exact (List.pairwise_cons.1 (List.pairwise_append.1 hsorted).2.1).1 e he

/-- The pairs that are the line and the destination of some row of the board. -/
def matched (board : List FlatDeparture) (favPairs : List (List Char × List Char)) :
    List (List Char × List Char) :=
  favPairs.filter fun pair => pair ∈ board.map fun d => (d.number, d.destination)

/-- **Favourites.** From a board in the order of departure every pair that a row is of gets its
next row, and these come in the order of departure. -/
theorem partitionFavourites_spec
    (hsorted : board.Pairwise fun a b => a.departure ≤ b.departure)
    (favPairs : List (List Char × List Char)) (limit : ℕ) :
    (∃ chosen : List ((List Char × List Char) × FlatDeparture),
      chosen.map Prod.fst = matched board favPairs ∧ (∀ x ∈ chosen, IsNext board x.1 x.2) ∧
      (partitionFavourites board favPairs limit).1.Perm (chosen.map Prod.snd)) ∧
    (partitionFavourites board favPairs limit).1.Pairwise (fun a b => a.departure ≤ b.departure) ∧
    (partitionFavourites board favPairs limit).2 = board.take limit := by
  refine ⟨⟨favPairs.filterMap fun pair => (board.find? (isOf pair)).map fun d => (pair, d), ?_, ?_,
    ?_⟩, StableSort.pairwise_le_mergeSort _ _, rfl⟩
  · induction favPairs with
    | nil => rfl
    | cons pair favPairs ih =>
      rw [matched] at ih ⊢
      cases h : board.find? (isOf pair) with
      | none =>
        have hnone : pair ∉ board.map fun d => (d.number, d.destination) := by
          intro hmem
          obtain ⟨d, hd, hpair⟩ := List.mem_map.1 hmem
          exact List.find?_eq_none.1 h d hd (isOf_iff.2 hpair)
        rw [List.filterMap_cons_none (by rw [h]; rfl), ih,
          List.filter_cons_of_neg (by simpa using hnone)]
      | some d =>
        have hmem : pair ∈ board.map fun d => (d.number, d.destination) :=
          List.mem_map.2 ⟨d, List.mem_of_find?_eq_some h, isOf_iff.1 (List.find?_some h)⟩
        rw [List.filterMap_cons_some (by rw [h]; rfl), List.map_cons, ih,
          List.filter_cons_of_pos (by simpa using hmem)]
  · intro x hx
    obtain ⟨pair, -, hfind⟩ := List.mem_filterMap.1 hx
    obtain ⟨d, hd, rfl⟩ := Option.map_eq_some_iff.1 hfind
    exact isNext_of_find? hsorted hd
  · rw [List.map_filterMap]
    simp only [Option.map_map, Function.comp_def, Option.map_id']
    exact List.mergeSort_perm _ _

/-! ### Naming rows -/

/-- The text of a row, as a client names it. -/
def favouriteText (d : FlatDeparture) : List Char := d.number ++ ':' :: d.destination

/-- The text that names some rows, each as its line, a colon and its destination. -/
def favouritesText (rows : List FlatDeparture) : List Char :=
  [','].intercalate (rows.map favouriteText)

/-- Nothing of the line and the destination is lost in the text of the row. -/
structure Nameable (d : FlatDeparture) : Prop where
  line : ',' ∉ d.number ∧ ':' ∉ d.number
  destination : ',' ∉ d.destination
  first : ∀ c ∈ d.number.head?, isWhitespace c = false
  last : ∀ c ∈ d.destination.getLast?, isWhitespace c = false

/-- The pieces of a text have no separator. -/
theorem not_mem_of_mem_splitOn {x : Char} {l piece : List Char} (h : piece ∈ l.splitOn x) :
    x ∉ piece := by
  induction l generalizing piece with
  | nil =>
    rw [List.splitOn_nil, List.mem_singleton] at h
    simp [h]
  | cons y l ih =>
    rw [List.splitOn_cons_eq_if_modifyHead] at h
    split_ifs at h with hy
    · rcases List.mem_cons.1 h with rfl | h
      · simp
      · exact ih h
    · cases hs : l.splitOn x with
      | nil => simp [hs] at h
      | cons q qs =>
        rw [hs] at h ih
        rcases List.mem_cons.1 h with rfl | h
        · have hq := ih List.mem_cons_self
          simp only [beq_iff_eq] at hy
          simp [hq, Ne.symm hy]
        · exact ih (List.mem_cons_of_mem _ h)

/-- A text is cut at its first colon. -/
theorem cut_colon {line : List Char} (hline : ':' ∉ line) (dest : List Char) :
    (line ++ ':' :: dest).takeWhile (· != ':') = line ∧
      (line ++ ':' :: dest).dropWhile (· != ':') = ':' :: dest := by
  have hall : ∀ c ∈ line, (c != ':') = true := by
    intro c hc
    simp only [bne_iff_ne]
    rintro rfl
    exact hline hc
  constructor
  · rw [List.takeWhile_append_of_pos hall]
    simp
  · rw [List.dropWhile_append_of_pos hall]
    simp

/-- The text of a row that can be named is read as its line and destination. -/
theorem parsePair_favouriteText (hd : Nameable d) (hne : d.number ≠ [] ∧ d.destination ≠ []) :
    parsePair (favouriteText d) = some (d.number, d.destination) := by
  have htrim : trim (favouriteText d) = favouriteText d := by
    refine trim_eq_self (fun c hc => hd.first c ?_) fun c hc => hd.last c ?_
    · rwa [favouriteText, List.head?_append_of_ne_nil _ hne.1] at hc
    · rwa [favouriteText, List.getLast?_append_of_ne_nil _ (by simp), List.getLast?_cons_of_ne_nil
        hne.2] at hc
  obtain ⟨htake, hdrop⟩ := cut_colon hd.line.2 d.destination
  rw [parsePair, htrim, favouriteText, htake, hdrop]
  simp [hne.1, hne.2]

/-- What is read as a pair has no comma, no colon in the line, and no white space at its ends. -/
theorem nameable_of_parsePair {piece : List Char} (hcomma : ',' ∉ piece)
    (h : parsePair piece = some (d.number, d.destination)) : Nameable d := by
  rw [parsePair] at h
  cases hdrop : (trim piece).dropWhile (· != ':') with
  | nil => simp [hdrop] at h
  | cons x dest =>
    simp only [hdrop] at h
    split_ifs at h with hempty
    obtain ⟨hline, hdest⟩ := Prod.mk.inj (Option.some.inj h)
    subst hdest
    have hsplit : trim piece = d.number ++ x :: d.destination := by
      rw [← hline, ← hdrop, List.takeWhile_append_dropWhile]
    have hmem : ∀ c ∈ d.number ++ x :: d.destination, c ∈ piece := by
      rw [← hsplit]
      exact trim_subset piece
    rw [hline] at hempty
    simp only [Bool.or_eq_true, List.isEmpty_iff, not_or] at hempty
    refine ⟨⟨fun hc => hcomma (hmem _ (by simp [hc])), fun hc => ?_⟩,
      fun hc => hcomma (hmem _ (by simp [hc])), fun c hc => ?_, fun c hc => ?_⟩
    · rw [← hline] at hc
      simpa using List.mem_takeWhile_imp hc
    · refine head?_trim (s := piece) c ?_
      rwa [hsplit, List.head?_append_of_ne_nil _ hempty.1]
    · refine getLast?_trim (s := piece) c ?_
      rwa [hsplit, List.getLast?_append_of_ne_nil _ (by simp), List.getLast?_cons_of_ne_nil
        hempty.2]

/-- A text of rows that can be named is read as their pairs. -/
theorem parseFavourites_favouritesText {rows : List FlatDeparture}
    (hrows : ∀ d ∈ rows, Nameable d ∧ d.number ≠ [] ∧ d.destination ≠ []) :
    parseFavourites (favouritesText rows) = rows.map fun d => (d.number, d.destination) := by
  by_cases hnil : rows = []
  · subst hnil
    decide
  · have hsplit : (favouritesText rows).splitOn ',' = rows.map favouriteText := by
      refine List.splitOn_intercalate ',' ?_ (by simpa using hnil)
      intro l hl
      obtain ⟨d, hd, rfl⟩ := List.mem_map.1 hl
      have hd := (hrows d hd).1
      simp [favouriteText, hd.line.1, hd.destination]
    rw [parseFavourites, hsplit, List.filterMap_map]
    have hsome : ∀ d ∈ rows, (parsePair ∘ favouriteText) d = some (d.number, d.destination) :=
      fun d hd => parsePair_favouriteText (hrows d hd).1 (hrows d hd).2
    rw [List.filterMap_congr hsome, List.filterMap_eq_map']

/-- The row, or one of its line and destination before it, is among the favourites. -/
def Returned (board favourites : List FlatDeparture) (d : FlatDeparture) : Prop :=
  ∃ f ∈ favourites, f.number = d.number ∧ f.destination = d.destination ∧
    ∀ pre post, board = pre ++ d :: post → f = d ∨ f ∈ pre

/-- A row of the board whose pair is asked for is returned, or an earlier one of its pair. -/
theorem returned_of_mem {favPairs : List (List Char × List Char)} (hd : d ∈ board)
    (hpair : (d.number, d.destination) ∈ favPairs) (limit : ℕ) :
    Returned board (partitionFavourites board favPairs limit).1 d := by
  obtain ⟨f, hf⟩ : ∃ f, board.find? (isOf (d.number, d.destination)) = some f := by
    rw [← Option.isSome_iff_exists, List.find?_isSome]
    exact ⟨d, hd, isOf_iff.2 rfl⟩
  have hpairs := isOf_iff.1 (List.find?_some hf)
  refine ⟨f, ?_, (Prod.mk.inj hpairs).1, (Prod.mk.inj hpairs).2, ?_⟩
  · exact List.mem_mergeSort.2 (List.mem_filterMap.2 ⟨_, hpair, hf⟩)
  · rintro pre post rfl
    rw [List.find?_append] at hf
    cases hpre : pre.find? (isOf (d.number, d.destination)) with
    | some e =>
      rw [hpre, Option.some_or] at hf
      rw [← Option.some.inj hf]
      exact Or.inr (List.mem_of_find?_eq_some hpre)
    | none =>
      rw [hpre, Option.none_or, List.find?_cons_of_pos (isOf_iff.2 rfl)] at hf
      exact Or.inl (Option.some.inj hf).symm

/-- **Naming.** The text of some rows of a board is read as their pairs, and each of them or an
earlier one of its pair is returned, exactly if all of them can be named. -/
theorem favourites_roundTrip_iff {rows : List FlatDeparture}
    (hrows : ∀ d ∈ rows, d ∈ board ∧ d.number ≠ [] ∧ d.destination ≠ []) (limit : ℕ) :
    (parseFavourites (favouritesText rows) = rows.map (fun d => (d.number, d.destination)) ∧
      ∀ d ∈ rows, Returned board
        (partitionFavourites board (parseFavourites (favouritesText rows)) limit).1 d) ↔
      ∀ d ∈ rows, Nameable d := by
  constructor
  · rintro ⟨hparse, -⟩ d hd
    have hmem : (d.number, d.destination) ∈ parseFavourites (favouritesText rows) := by
      rw [hparse]
      exact List.mem_map_of_mem hd
    obtain ⟨piece, hpiece, hpair⟩ := List.mem_filterMap.1 hmem
    exact nameable_of_parsePair (not_mem_of_mem_splitOn hpiece) hpair
  · intro hname
    have hparse := parseFavourites_favouritesText fun d hd => ⟨hname d hd, (hrows d hd).2⟩
    refine ⟨hparse, fun d hd => returned_of_mem (hrows d hd).1 ?_ limit⟩
    rw [hparse]
    exact List.mem_map_of_mem hd

/-- A row of a line to a destination, at a unix time. -/
def rowTo (number destination : String) (departure : ℤ) : FlatDeparture where
  destination := destination.toList
  category := []
  number := number.toList
  departure := departure
  delay := none
  platform := []
  platformChanged := false
  trainNumber := none
  operatorRef := none

/-- A board with two trains of one line to one destination. -/
def brigRows : List FlatDeparture :=
  [rowTo "IC8" "Brig" 1789639320, rowTo "IR90" "Visp" 1789640100, rowTo "IC8" "Brig" 1789641120]

theorem favourites_roundTrip_brig :
    let rows := [rowTo "IR90" "Visp" 1789640100, rowTo "IC8" "Brig" 1789641120]
    parseFavourites (favouritesText rows) =
        [("IR90".toList, "Visp".toList), ("IC8".toList, "Brig".toList)] ∧
      ∀ d ∈ rows, Returned brigRows
        (partitionFavourites brigRows (parseFavourites (favouritesText rows)) 1).1 d := by
  have hrows : ∀ d ∈ [rowTo "IR90" "Visp" 1789640100, rowTo "IC8" "Brig" 1789641120],
      d ∈ brigRows ∧ d.number ≠ [] ∧ d.destination ≠ [] := by
    decide
  have hnameable : ∀ d ∈ brigRows, Nameable d := by
    intro d hd
    have htexts : (',' ∉ d.number ∧ ':' ∉ d.number) ∧ ',' ∉ d.destination ∧
        d.number.head?.all (fun c => !isWhitespace c) = true ∧
        d.destination.getLast?.all (fun c => !isWhitespace c) = true := by
      revert d hd
      decide
    obtain ⟨hline, hdestination, hfirst, hlast⟩ := htexts
    rw [Option.all_eq_true] at hfirst hlast
    exact ⟨hline, hdestination, fun c hc => by simpa using hfirst c hc,
      fun c hc => by simpa using hlast c hc⟩
  exact (favourites_roundTrip_iff hrows 1).2 fun d hd => hnameable d (hrows d hd).1

/-- A destination with a comma comes back without what follows it. -/
theorem favourites_comma :
    parseFavourites (favouritesText [rowTo "12" "Bern, Bahnhof" 1789639320]) =
      [("12".toList, "Bern".toList)] ∧
    ("12".toList, "Bern".toList) ≠ ("12".toList, "Bern, Bahnhof".toList) := by
  decide +kernel

end Traintime.Favourites
