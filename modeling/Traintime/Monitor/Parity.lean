import Mathlib.Algebra.Order.Ring.Int
import Mathlib.Data.List.Basic
import Traintime.Lib.Decimal

/-!
# Parity of two departure lists

`compareParity` of `monitor/src/index.js` compares the lists that two hosts give for one station.
Each list is cut to five rows, and the rows inside the window of time that both cover must be the
same trains. The ends of the window belong to it, so a train that one list was cut off before, or
that it starts after, is compared when it leaves in the same second as the train at the edge.

## Main definitions

* `Row`, `compareParity`: a row of a list, and the source's function.
* `IsSlice`: a list with the trains of a slice of a board.
* `Shown`: the places of the board that a list shows after the cut.
* `Covers`: no train in the second of an edge is missing from a list.

## Main results

* `key_departure`: rows with the same key leave in the same second.
* `compareParity_eq_none_iff`: there is no alarm exactly if both lists cover each other's edges.
-/

namespace Traintime.Monitor

/-- The fields of a departure that are compared, and the delay, which is not. The departure is in
seconds, far inside the range of exact numbers. -/
structure Row where
  number : String
  trainNumber : Option String
  departure : ℤ
  delay : Option ℤ
deriving DecidableEq, Repr

/-- The template string of a row; a missing train number reads `undefined`. -/
def key (d : Row) : String :=
  d.number ++ " " ++ d.trainNumber.getD "undefined" ++ " @" ++ toString d.departure

/-- `inWindow`: the row departs within the two instants, both included. -/
def inWindow (start stop : ℤ) (d : Row) : Bool := start ≤ d.departure && d.departure ≤ stop

/-- The keys of the rows inside the window, in the order of a set. -/
def keysIn (start stop : ℤ) (rows : List Row) : List String :=
  ((rows.filter (inWindow start stop)).map key).eraseDups

/-- The first key that only one of the lists has. -/
def difference (keysA keysB : List String) : Option String :=
  match keysA.find? fun k => !keysB.contains k with
  | some k => some ("api has " ++ k ++ ", api1 does not")
  | none =>
    match keysB.find? fun k => !keysA.contains k with
    | some k => some ("api1 has " ++ k ++ ", api does not")
    | none => none

/-- What differs between the two lists, if anything. -/
def compareParity (a b : List Row) : Option String :=
  let rowsA := a.take 5
  let rowsB := b.take 5
  match rowsA.head?, rowsB.head?, rowsA.getLast?, rowsB.getLast? with
  | some firstA, some firstB, some lastA, some lastB =>
    let start := max firstA.departure firstB.departure
    let stop := min lastA.departure lastB.departure
    difference (keysIn start stop rowsA) (keysIn start stop rowsB)
  | _, _, _, _ => none

/-- The row without its delay, which is all that a comparison may go by. -/
def timetabled (d : Row) : Row := { d with delay := none }

/-- The list shows the trains of `n` places of the board from place `i` on, with any delays. -/
def IsSlice (board : List Row) (i n : ℕ) (l : List Row) : Prop :=
  l.map timetabled = ((board.drop i).take n).map timetabled

/-- The place `p` of the board is among the first five of the slice of `n` places from `i` on. -/
def Shown (i n p : ℕ) : Prop := i ≤ p ∧ p < i + min n 5

/-- The rows that are left of the slice after the cut. -/
def shownRows (board : List Row) (i n : ℕ) : List Row := ((board.drop i).take n).take 5

/-- The row leaves in the second of the first or the last of the rows. -/
def AtEdge (rows : List Row) (d : Row) : Prop :=
  (∃ x, rows.head? = some x ∧ d.departure = x.departure) ∨
    ∃ x, rows.getLast? = some x ∧ d.departure = x.departure

/-- A train that only the other list shows, after the cut, leaves in the second of an edge of this
list only if this list shows a train with the same key. -/
def Covers (board : List Row) (j m i n : ℕ) : Prop :=
  ∀ p d, Shown i n p → ¬ Shown j m p → board[p]? = some d → AtEdge (shownRows board j m) d →
    ∃ y ∈ shownRows board j m, key y = key d

/-! ### Keys -/

theorem toString_negSucc (n : ℕ) : toString (Int.negSucc n) = "-" ++ (n + 1).repr := rfl

theorem toString_int_inj {m n : ℤ} (h : toString m = toString n) : m = n := by
  have hminus : ∀ k l : ℕ, k.repr ≠ "-" ++ l.repr := by
    intro k l he
    have hmem : '-' ∈ k.repr.toList := by simp [he]
    exact Decimal.not_mem_repr (by decide) hmem
  cases m with
  | ofNat k =>
    cases n with
    | ofNat l => rw [Decimal.repr_inj.1 h]
    | negSucc l => exact absurd h (hminus k (l + 1))
  | negSucc k =>
    cases n with
    | ofNat l => exact absurd h.symm (hminus l (k + 1))
    | negSucc l =>
      have hrepr : (k + 1).repr = (l + 1).repr := (String.append_right_inj "-").1 h
      have := Decimal.repr_inj.1 hrepr
      omega

theorem not_mem_toString_int (n : ℤ) : '@' ∉ (toString n).toList := by
  have hrepr : ∀ k : ℕ, '@' ∉ k.repr.toList := fun k => Decimal.not_mem_repr (by decide)
  cases n with
  | ofNat k => exact hrepr k
  | negSucc k =>
    rw [toString_negSucc]
    simpa using hrepr (k + 1)

/-- What follows the last separator is determined by the whole. -/
theorem suffix_inj {a b u v : List Char} {c : Char} (hu : c ∉ u) (hv : c ∉ v)
    (h : a ++ c :: u = b ++ c :: v) : u = v := by
  induction a generalizing b with
  | nil =>
    cases b with
    | nil => exact (List.cons.inj h).2
    | cons x b =>
      have hu' : c ∈ u := by
        rw [(List.cons.inj h).2]
        simp
      exact absurd hu' hu
  | cons x a ih =>
    cases b with
    | nil =>
      have hv' : c ∈ v := by
        rw [← (List.cons.inj h).2]
        simp
      exact absurd hv' hv
    | cons y b => exact ih (List.cons.inj h).2

/-- Rows with the same key leave in the same second. -/
theorem key_departure {x y : Row} (h : key x = key y) : x.departure = y.departure := by
  have hsplit : ∀ d : Row, (key d).toList =
      (d.number ++ " " ++ d.trainNumber.getD "undefined" ++ " ").toList ++
        '@' :: (toString d.departure).toList := by
    intro d
    simp [key]
  have hlist := congrArg String.toList h
  rw [hsplit, hsplit] at hlist
  have htext := suffix_inj (not_mem_toString_int _) (not_mem_toString_int _) hlist
  exact toString_int_inj (String.toList_inj.1 htext)

theorem keysIn_timetabled (start stop : ℤ) (rows : List Row) :
    keysIn start stop (rows.map timetabled) = keysIn start stop rows := by
  simp only [keysIn, List.filter_map, List.map_map]
  rfl

/-- The delay is not compared. -/
theorem compareParity_timetabled (a b : List Row) :
    compareParity (a.map timetabled) (b.map timetabled) = compareParity a b := by
  simp only [compareParity, ← List.map_take, List.head?_map, List.getLast?_map, keysIn_timetabled]
  cases (a.take 5).head? <;> cases (b.take 5).head? <;> cases (a.take 5).getLast? <;>
    cases (b.take 5).getLast? <;> rfl

/-! ### The window -/

theorem mem_keysIn {start stop : ℤ} {rows : List Row} {k : String} :
    k ∈ keysIn start stop rows ↔
      ∃ d ∈ rows, (start ≤ d.departure ∧ d.departure ≤ stop) ∧ key d = k := by
  simp [keysIn, List.mem_eraseDups, inWindow, and_assoc]

/-- Nothing differs exactly if the lists have the same keys. -/
theorem difference_eq_none_iff {keysA keysB : List String} :
    difference keysA keysB = none ↔ keysA ⊆ keysB ∧ keysB ⊆ keysA := by
  have hfind : ∀ ks ks' : List String,
      ks.find? (fun k => !ks'.contains k) = none ↔ ks ⊆ ks' := by
    intro ks ks'
    simp [List.find?_eq_none, List.subset_def]
  rw [← hfind, ← hfind, difference]
  cases keysA.find? fun k => !keysB.contains k with
  | some k => simp
  | none =>
    cases keysB.find? fun k => !keysA.contains k with
    | some k => simp
    | none => simp

/-! ### Slices -/

section Slices

variable {board : List Row} {i n j m p : ℕ} {d : Row}

theorem mem_shownRows : d ∈ shownRows board i n ↔ ∃ p, Shown i n p ∧ board[p]? = some d := by
  rw [shownRows, List.take_take, List.mem_iff_getElem?]
  simp only [List.getElem?_take, List.getElem?_drop, Shown]
  constructor
  · rintro ⟨q, hq⟩
    split_ifs at hq with hlt
    exact ⟨i + q, ⟨by omega, by omega⟩, hq⟩
  · rintro ⟨p, ⟨hi, hp⟩, hd⟩
    refine ⟨p - i, ?_⟩
    rw [if_pos (by omega), Nat.add_sub_cancel' hi, hd]

variable (hsorted : board.Pairwise fun x y => x.departure ≤ y.departure)

include hsorted

theorem departure_le {q : ℕ} {e : Row} (hd : board[p]? = some d) (he : board[q]? = some e)
    (hpq : p ≤ q) : d.departure ≤ e.departure := by
  obtain ⟨hp, rfl⟩ := List.getElem?_eq_some_iff.1 hd
  obtain ⟨hq, rfl⟩ := List.getElem?_eq_some_iff.1 he
  rcases hpq.lt_or_eq with hlt | rfl
  · exact List.pairwise_iff_getElem.1 hsorted p q hp hq hlt
  · exact le_rfl

theorem pairwise_shownRows :
    (shownRows board i n).Pairwise fun x y => x.departure ≤ y.departure :=
  hsorted.sublist ((List.take_sublist _ _).trans
    ((List.take_sublist _ _).trans (List.drop_sublist _ _)))

theorem first_le {f : Row} (hf : (shownRows board i n).head? = some f)
    (hd : d ∈ shownRows board i n) : f.departure ≤ d.departure := by
  have hrows := pairwise_shownRows (i := i) (n := n) hsorted
  obtain ⟨rest, hrest⟩ := List.head?_eq_some_iff.1 hf
  rw [hrest] at hrows hd
  rcases List.mem_cons.1 hd with rfl | hd
  · exact le_rfl
  · exact (List.pairwise_cons.1 hrows).1 d hd

theorem le_last {l : Row} (hl : (shownRows board i n).getLast? = some l)
    (hd : d ∈ shownRows board i n) : d.departure ≤ l.departure := by
  have hrows := pairwise_shownRows (i := i) (n := n) hsorted
  obtain ⟨rest, hrest⟩ := List.getLast?_eq_some_iff.1 hl
  rw [hrest] at hrows hd
  rcases List.mem_append.1 hd with hd | hd
  · exact (List.pairwise_append.1 hrows).2.2 d hd l (List.mem_singleton_self l)
  · rw [List.mem_singleton.1 hd]

/-- A train that the other list does not show and that leaves inside the window leaves in the
second of an edge of that list. -/
theorem atEdge_of_not_shown {firstB lastB : Row}
    (hfb : (shownRows board j m).head? = some firstB)
    (hlb : (shownRows board j m).getLast? = some lastB) (hd : board[p]? = some d)
    (hp : ¬ Shown j m p) (hfirst : firstB.departure ≤ d.departure)
    (hlast : d.departure ≤ lastB.departure) : AtEdge (shownRows board j m) d := by
  obtain ⟨q, hq, hq'⟩ := mem_shownRows.1 (List.mem_of_head? hfb)
  obtain ⟨l, hl, hl'⟩ := mem_shownRows.1 (List.mem_of_getLast? hlb)
  unfold Shown at hp hq hl
  by_cases hlt : p < j
  · exact Or.inl ⟨firstB, hfb, le_antisymm (departure_le hsorted hd hq' (by omega)) hfirst⟩
  · exact Or.inr ⟨lastB, hlb, le_antisymm hlast (departure_le hsorted hl' hd (by omega))⟩

/-- A row that leaves in the second of an edge of the other list leaves inside the window. -/
theorem AtEdge.inside {firstA firstB lastA lastB : Row}
    (hfa : (shownRows board i n).head? = some firstA)
    (hfb : (shownRows board j m).head? = some firstB)
    (hla : (shownRows board i n).getLast? = some lastA)
    (hlb : (shownRows board j m).getLast? = some lastB) (hd : d ∈ shownRows board i n)
    (h : AtEdge (shownRows board j m) d) :
    max firstA.departure firstB.departure ≤ d.departure ∧
      d.departure ≤ min lastA.departure lastB.departure := by
  have hA := first_le hsorted hfa hd
  have hA' := le_last hsorted hla hd
  have hB := first_le hsorted hfb (List.mem_of_getLast? hlb)
  rcases h with ⟨x, hx, he⟩ | ⟨x, hx, he⟩
  · obtain rfl := Option.some.inj (hfb.symm.trans hx)
    omega
  · obtain rfl := Option.some.inj (hlb.symm.trans hx)
    omega

/-- A list compared with another slice of the same board: its keys in the window are there exactly
if its trains in the seconds of the edges are. -/
theorem keysIn_subset_iff {firstA firstB lastA lastB : Row}
    (hfa : (shownRows board i n).head? = some firstA)
    (hfb : (shownRows board j m).head? = some firstB)
    (hla : (shownRows board i n).getLast? = some lastA)
    (hlb : (shownRows board j m).getLast? = some lastB) :
    keysIn (max firstA.departure firstB.departure) (min lastA.departure lastB.departure)
        (shownRows board i n) ⊆
      keysIn (max firstA.departure firstB.departure) (min lastA.departure lastB.departure)
        (shownRows board j m) ↔
      Covers board j m i n := by
  constructor
  · intro hsub p d hp hnot hd hedge
    have hmem : d ∈ shownRows board i n := mem_shownRows.2 ⟨p, hp, hd⟩
    have hinside := hedge.inside hsorted hfa hfb hla hlb hmem
    obtain ⟨y, hy, -, hkey⟩ := mem_keysIn.1 (hsub (mem_keysIn.2 ⟨d, hmem, hinside, rfl⟩))
    exact ⟨y, hy, hkey⟩
  · intro hcovers k hk
    obtain ⟨d, hmem, hinside, rfl⟩ := mem_keysIn.1 hk
    obtain ⟨p, hp, hd⟩ := mem_shownRows.1 hmem
    by_cases hshown : Shown j m p
    · exact mem_keysIn.2 ⟨d, mem_shownRows.2 ⟨p, hshown, hd⟩, hinside, rfl⟩
    · have hedge := atEdge_of_not_shown hsorted hfb hlb hd hshown
        ((le_max_right _ _).trans hinside.1) (hinside.2.trans (min_le_right _ _))
      obtain ⟨y, hy, hkey⟩ := hcovers p d hp hshown hd hedge
      refine mem_keysIn.2 ⟨y, hy, ?_, hkey⟩
      rw [key_departure hkey]
      exact hinside

end Slices

/-- The cut of a list that shows something has a first and a last row. -/
theorem exists_ends {board l : List Row} {i n : ℕ} (h : IsSlice board i n l) (hne : l ≠ []) :
    ∃ first last, (shownRows board i n).head? = some first ∧
      (shownRows board i n).getLast? = some last := by
  have hslice : (board.drop i).take n ≠ [] := by
    intro hnil
    rw [IsSlice, hnil] at h
    exact hne (by simpa using h)
  have hrows : shownRows board i n ≠ [] := by
    obtain ⟨x, xs, hx⟩ := List.exists_cons_of_ne_nil hslice
    simp [shownRows, hx]
  exact ⟨_, _, List.head?_eq_some_head hrows, List.getLast?_eq_some_getLast hrows⟩

/-- **Parity.** Two lists of a board that differ in delays only raise no alarm exactly if each,
cut to five rows, covers the edges of the other. -/
theorem compareParity_eq_none_iff {board a b : List Row} {i n j m : ℕ}
    (hsorted : board.Pairwise fun x y => x.departure ≤ y.departure) (ha : IsSlice board i n a)
    (hb : IsSlice board j m b) (hna : a ≠ []) (hnb : b ≠ []) :
    compareParity a b = none ↔ Covers board j m i n ∧ Covers board i n j m := by
  obtain ⟨firstA, lastA, hfa, hla⟩ := exists_ends ha hna
  obtain ⟨firstB, lastB, hfb, hlb⟩ := exists_ends hb hnb
  have hrows : compareParity a b =
      compareParity ((board.drop i).take n) ((board.drop j).take m) := by
    rw [← compareParity_timetabled a, ha, hb, compareParity_timetabled]
  have hkeys := keysIn_subset_iff hsorted hfa hfb hla hlb
  have hkeys' := keysIn_subset_iff hsorted hfb hfa hlb hla
  rw [max_comm, min_comm] at hkeys'
  rw [hrows, ← hkeys, ← hkeys', ← difference_eq_none_iff]
  unfold shownRows at hfa hfb hla hlb
  simp only [compareParity, hfa, hfb, hla, hlb]
  rfl

/-- Trains that all leave in different seconds are never missing at an edge. -/
theorem covers_of_strict {board : List Row} (h : board.Pairwise fun x y => x.departure < y.departure)
    (i n j m : ℕ) : Covers board j m i n := by
  intro p d hp hnot hd hedge
  obtain ⟨x, hx, he⟩ : ∃ x ∈ shownRows board j m, d.departure = x.departure := by
    rcases hedge with ⟨x, hx, he⟩ | ⟨x, hx, he⟩
    · exact ⟨x, List.mem_of_head? hx, he⟩
    · exact ⟨x, List.mem_of_getLast? hx, he⟩
  obtain ⟨q, hq, hx⟩ := mem_shownRows.1 hx
  obtain ⟨hp', rfl⟩ := List.getElem?_eq_some_iff.1 hd
  obtain ⟨hq', rfl⟩ := List.getElem?_eq_some_iff.1 hx
  rcases lt_trichotomy p q with hlt | rfl | hlt
  · exact absurd he (List.pairwise_iff_getElem.1 h p q hp' hq' hlt).ne
  · exact absurd hq hnot
  · exact absurd he.symm (List.pairwise_iff_getElem.1 h q p hq' hp' hlt).ne

/-- Five trains a minute apart. -/
def minuteApart : List Row :=
  [⟨"S8", some "18870", 0, none⟩, ⟨"S8", some "18871", 60, none⟩, ⟨"S8", some "18872", 120, none⟩,
    ⟨"S8", some "18873", 180, none⟩, ⟨"S8", some "18874", 240, none⟩]

/-- The other list starts a train later, and every train has a delay there. -/
theorem compareParity_minuteApart :
    compareParity minuteApart ((minuteApart.drop 1).map fun d => { d with delay := some 3 }) =
      none := by
  have hstrict : minuteApart.Pairwise fun x y => x.departure < y.departure := by decide
  have ha : IsSlice minuteApart 0 5 minuteApart := rfl
  have hb : IsSlice minuteApart 1 4
      ((minuteApart.drop 1).map fun d => { d with delay := some 3 }) := rfl
  exact (compareParity_eq_none_iff (hstrict.imp le_of_lt) ha hb (by decide) (by decide)).2
    ⟨covers_of_strict hstrict 0 5 1 4, covers_of_strict hstrict 1 4 0 5⟩

/-- Six trains that leave in the same second. -/
def sameSecond : List Row :=
  (List.range 6).map fun k => ⟨"S8", some (toString k), 0, none⟩

/-- One list starts a train later than the other, and the cut leaves it with another train of the
same second. -/
theorem compareParity_sameSecond :
    IsSlice sameSecond 0 6 sameSecond ∧ IsSlice sameSecond 1 5 (sameSecond.drop 1) ∧
      (sameSecond.Pairwise fun x y => x.departure ≤ y.departure) ∧
      compareParity sameSecond (sameSecond.drop 1) =
        some "api has S8 0 @0, api1 does not" :=
  ⟨rfl, rfl, by decide, by decide⟩

end Traintime.Monitor
