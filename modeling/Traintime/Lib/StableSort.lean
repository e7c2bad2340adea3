import Mathlib.Data.List.Basic
import Mathlib.Order.Lattice
import Mathlib.Tactic.SplitIfs

/-!
# Stable sorting by a key

The elements of a list that is sorted by a key come in the order of their keys, those with one key
in the order in which they were.

## Main results

* `StableSort.pairwise_mergeSort`: a list with positions is sorted by key and position.
* `StableSort.mergeSort_map`: sorting goes through a map that keeps the keys.
* `StableSort.le_of_notMem_take`: what is left out of the first elements.
* `StableSort.take_mergeSort_of_perm`, `StableSort.le_countP_of_take_mergeSort_eq`: when the first
  elements do not depend on the order in which the list was.
-/

namespace StableSort

open List

variable {α β : Type*} [LinearOrder β]

/-- The order of the keys. -/
def keyLE (f : α → β) (a b : α) : Bool := decide (f a ≤ f b)

theorem keyLE_trans (f : α → β) (a b c : α) :
    keyLE f a b = true → keyLE f b c = true → keyLE f a c = true := by
  simp only [keyLE, decide_eq_true_eq]
  exact le_trans

theorem keyLE_total (f : α → β) (a b : α) : (keyLE f a b || keyLE f b a) = true := by
  simpa [keyLE] using le_total (f a) (f b)

/-- The sorted list is sorted. -/
theorem pairwise_le_mergeSort (f : α → β) (l : List α) :
    (l.mergeSort (keyLE f)).Pairwise fun a b => f a ≤ f b := by
  refine (List.pairwise_mergeSort (keyLE_trans f) (keyLE_total f) l).imp ?_
  intro a b h
  exact of_decide_eq_true h

/-- Sorting goes through a map that keeps the keys. -/
theorem mergeSort_map {γ : Type*} (f : γ → β) (g : α → γ) (l : List α) :
    (l.map g).mergeSort (keyLE f) = (l.mergeSort (keyLE (f ∘ g))).map g :=
  (List.map_mergeSort (f := g) (r := keyLE (f ∘ g)) fun _ _ _ _ => rfl).symm

/-- A list whose elements carry increasing positions is sorted by key and position. -/
theorem pairwise_mergeSort (f : α → β) (pos : α → ℕ) {l : List α}
    (h : l.Pairwise fun a b => pos a < pos b) :
    (l.mergeSort (keyLE f)).Pairwise fun a b => f a < f b ∨ f a = f b ∧ pos a < pos b := by
  have hsorted : (l.zipIdx.mergeSort (zipIdxLE (keyLE f))).Pairwise
      fun p q => zipIdxLE (keyLE f) p q = true :=
    List.pairwise_mergeSort (zipIdxLE_trans (keyLE_trans f)) (zipIdxLE_total (keyLE_total f)) _
  have hnodup : (l.zipIdx.mergeSort (zipIdxLE (keyLE f))).Pairwise fun p q => p.2 ≠ q.2 := by
    have : (l.zipIdx.map Prod.snd).Nodup := by
      rw [List.zipIdx_map_snd]
      exact List.nodup_range'
    exact (List.pairwise_map.mp this).perm (List.mergeSort_perm _ _).symm fun h => h.symm
  have hmem : ∀ p ∈ l.zipIdx.mergeSort (zipIdxLE (keyLE f)), l[p.2]? = some p.1 := fun p hp =>
    List.mem_zipIdx_iff_getElem?.mp (List.mem_mergeSort.mp hp)
  rw [← List.mergeSort_zipIdx, List.pairwise_map]
  refine (hsorted.and hnodup).imp_of_mem ?_
  rintro ⟨a, i⟩ ⟨b, j⟩ ha hb ⟨hle, hne⟩
  simp only [zipIdxLE, keyLE, decide_eq_true_eq] at hle
  split_ifs at hle with hab hba
  · -- Equal keys: the first one has the smaller index, and so the smaller position.
    obtain ⟨hi, hia⟩ := List.getElem?_eq_some_iff.mp (hmem _ ha)
    obtain ⟨hj, hjb⟩ := List.getElem?_eq_some_iff.mp (hmem _ hb)
    have hij : i < j := lt_of_le_of_ne (of_decide_eq_true hle) hne
    refine .inr ⟨le_antisymm hab hba, ?_⟩
    have := List.pairwise_iff_getElem.mp h i j hi hj hij
    rwa [show l[i] = a from hia, show l[j] = b from hjb] at this
  · exact .inl (not_le.mp hba)

/-! ### The first elements -/

/-- In a sorted list at most as many elements have a smaller key as stand before. -/
theorem countP_lt_le {f : α → β} {s : List α} (hs : s.Pairwise fun a b => f a ≤ f b) {i : ℕ}
    (hi : i < s.length) : s.countP (fun x => decide (f x < f s[i])) ≤ i := by
  have hdrop : (s.drop i).countP (fun x => decide (f x < f s[i])) = 0 := by
    rw [List.countP_eq_zero]
    intro x hx
    obtain ⟨j, hj, rfl⟩ := List.getElem_of_mem hx
    rw [List.getElem_drop, decide_eq_true_eq, not_lt]
    rcases Nat.eq_zero_or_pos j with rfl | hpos
    · exact le_rfl
    · exact List.pairwise_iff_getElem.mp hs i (i + j) hi _ (by omega)
  calc s.countP (fun x => decide (f x < f s[i]))
      = (s.take i).countP (fun x => decide (f x < f s[i])) +
          (s.drop i).countP (fun x => decide (f x < f s[i])) := by
        rw [← List.countP_append, List.take_append_drop]
    _ ≤ (s.take i).length := by
        rw [hdrop]
        exact List.countP_le_length
    _ ≤ i := List.length_take_le i s

theorem countP_mergeSort (f : α → β) (p : α → Bool) (l : List α) :
    (l.mergeSort (keyLE f)).countP p = l.countP p :=
  (List.mergeSort_perm l (keyLE f)).countP_eq p

/-- An element that is not among the first comes after as many with no larger keys. -/
theorem le_of_notMem_take {f : α → β} {n : ℕ} {l : List α} {b : α} (hb : b ∈ l)
    (hout : b ∉ (l.mergeSort (keyLE f)).take n) :
    ((l.mergeSort (keyLE f)).take n).length = n ∧
      ∀ a ∈ (l.mergeSort (keyLE f)).take n, f a ≤ f b := by
  have hsorted := pairwise_le_mergeSort f l
  have hmem : b ∈ l.mergeSort (keyLE f) := List.mem_mergeSort.mpr hb
  rw [← List.take_append_drop n (l.mergeSort (keyLE f)), List.mem_append] at hmem
  have hdrop : b ∈ (l.mergeSort (keyLE f)).drop n := hmem.resolve_left hout
  constructor
  · have hlength := List.length_pos_of_mem hdrop
    rw [List.length_drop] at hlength
    rw [List.length_take]
    omega
  · rw [← List.take_append_drop n (l.mergeSort (keyLE f)), List.pairwise_append] at hsorted
    exact fun a ha => hsorted.2.2 a ha b hdrop

/-- The first elements do not depend on the order of the list, if elements with one key come after
enough others. -/
theorem take_mergeSort_of_perm {f : α → β} {n : ℕ} {l l' : List α} (h : l.Perm l')
    (htie : ∀ a ∈ l, ∀ b ∈ l, a ≠ b → f a = f b → n ≤ l.countP fun x => decide (f x < f a)) :
    (l.mergeSort (keyLE f)).take n = (l'.mergeSort (keyLE f)).take n := by
  have hkeys : (l.mergeSort (keyLE f)).map f = (l'.mergeSort (keyLE f)).map f := by
    have hperm : ((l.mergeSort (keyLE f)).map f).Perm ((l'.mergeSort (keyLE f)).map f) :=
      (((List.mergeSort_perm l _).trans h).trans (List.mergeSort_perm l' _).symm).map f
    exact hperm.eq_of_pairwise (fun a b _ _ => le_antisymm)
      (List.pairwise_map.mpr (pairwise_le_mergeSort f l))
      (List.pairwise_map.mpr (pairwise_le_mergeSort f l'))
  have hlength : (l.mergeSort (keyLE f)).length = (l'.mergeSort (keyLE f)).length := by
    simpa using congrArg List.length hkeys
  refine List.ext_getElem (by simp [hlength]) fun i hi hi' => ?_
  rw [List.length_take] at hi hi'
  rw [List.getElem_take, List.getElem_take]
  have hlt : i < (l.mergeSort (keyLE f)).length := by omega
  have hlt' : i < (l'.mergeSort (keyLE f)).length := by omega
  have hkey : f (l.mergeSort (keyLE f))[i] = f (l'.mergeSort (keyLE f))[i] := by
    have hget := List.getElem_of_eq hkeys (by simpa using hlt)
    rwa [List.getElem_map, List.getElem_map] at hget
  by_contra hne
  have hmem : (l.mergeSort (keyLE f))[i] ∈ l := List.mem_mergeSort.mp (List.getElem_mem hlt)
  have hmem' : (l'.mergeSort (keyLE f))[i] ∈ l :=
    h.mem_iff.mpr (List.mem_mergeSort.mp (List.getElem_mem hlt'))
  have hmany := htie _ hmem _ hmem' hne hkey
  have hfew := countP_lt_le (pairwise_le_mergeSort f l) hlt
  rw [countP_mergeSort] at hfew
  omega

/-- Of the elements with its key the first of a list comes first. -/
theorem find?_take_mergeSort_cons {f : α → β} {n : ℕ} {a : α} {t : List α} [DecidableEq α]
    (hnodup : (a :: t).Nodup) (hfew : (a :: t).countP (fun x => decide (f x < f a)) < n) :
    (((a :: t).mergeSort (keyLE f)).take n).find? (fun x => decide (f x = f a)) = some a := by
  have hpos : (a :: t).Pairwise fun x y => (a :: t).idxOf x < (a :: t).idxOf y := by
    rw [List.pairwise_iff_getElem]
    intro i j hi hj hij
    rwa [hnodup.idxOf_getElem, hnodup.idxOf_getElem]
  have hsorted := pairwise_mergeSort f (a :: t).idxOf hpos
  have hmem : a ∈ (a :: t).mergeSort (keyLE f) := List.mem_mergeSort.mpr List.mem_cons_self
  obtain ⟨s₁, s₂, hs⟩ := List.append_of_mem hmem
  have hless : ∀ x ∈ s₁, f x < f a := by
    intro x hx
    rw [hs, List.pairwise_append] at hsorted
    rcases hsorted.2.2 x hx a List.mem_cons_self with hlt | ⟨-, hidx⟩
    · exact hlt
    · rw [List.idxOf_cons_self] at hidx
      exact absurd hidx (Nat.not_lt_zero _)
  have hlength : s₁.length < n := by
    refine lt_of_le_of_lt ?_ hfew
    rw [← countP_mergeSort f, hs, List.countP_append]
    have hall : s₁.countP (fun x => decide (f x < f a)) = s₁.length :=
      List.countP_eq_length.mpr fun x hx => decide_eq_true (hless x hx)
    omega
  obtain ⟨m, hm⟩ := Nat.exists_eq_add_of_lt hlength
  have htake : (s₁ ++ a :: s₂).take n = s₁ ++ a :: s₂.take m := by
    rw [List.take_append, List.take_of_length_le hlength.le, hm,
      show s₁.length + m + 1 - s₁.length = m + 1 by omega, List.take_succ_cons]
  rw [hs, htake, List.find?_append, List.find?_eq_none.mpr, Option.none_or, List.find?_cons_of_pos]
  · exact decide_eq_true rfl
  · intro x hx
    simpa using (hless x hx).ne

/-- Where the first elements are the same for two lists that begin with different elements of one
key, enough others come before these. -/
theorem le_countP_of_take_mergeSort_eq [DecidableEq α] {f : α → β} {n : ℕ} {a b : α} {t u : List α}
    (hnodup : (a :: t).Nodup) (hperm : (a :: t).Perm (b :: u)) (hne : a ≠ b) (hkey : f a = f b)
    (htake : ((a :: t).mergeSort (keyLE f)).take n = ((b :: u).mergeSort (keyLE f)).take n) :
    n ≤ (a :: t).countP fun x => decide (f x < f a) := by
  by_contra hfew
  rw [not_le] at hfew
  have ha := find?_take_mergeSort_cons hnodup hfew
  rw [hperm.countP_eq, hkey] at hfew
  have hb := find?_take_mergeSort_cons (hperm.nodup_iff.mp hnodup) hfew
  rw [← htake, ← hkey, ha] at hb
  exact hne (Option.some.inj hb)

end StableSort
