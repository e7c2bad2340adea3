import Mathlib.Data.Finset.Card
import Mathlib.Data.List.AList

/-!
# Finite maps with a bulk filter

Mathlib's association lists with distinct keys, used as finite maps with values of one type, and
the operation that keeps only the entries whose value meets a test.

## Main definitions

* `AssocMap`: finite maps from `α` to `β`.
* `AssocMap.retain`: the entries that meet a test.

## Main results

* `AssocMap.lookup_retain`: looking a key up in the kept entries.
* `AssocMap.len_le_card`: a map with keys in a set is no larger than the set.
-/

/-- A finite map. -/
abbrev AssocMap (α β : Type*) := AList fun _ : α => β

namespace AssocMap

variable {α β : Type*}

/-- The number of keys. -/
def len (m : AssocMap α β) : ℕ := m.entries.length

/-- The map of the entries whose value meets the test. -/
def retain (p : β → Bool) (m : AssocMap α β) : AssocMap α β where
  entries := m.entries.filter fun e => p e.2
  nodupKeys := m.nodupKeys.sublist List.filter_sublist

section Lookup

variable [DecidableEq α]

theorem lookup_eq_some_iff {m : AssocMap α β} {k : α} {v : β} :
    m.lookup k = some v ↔ (⟨k, v⟩ : Sigma fun _ : α => β) ∈ m.entries :=
  AList.mem_lookup_iff

theorem lookup_retain (p : β → Bool) (m : AssocMap α β) (k : α) :
    (m.retain p).lookup k = (m.lookup k).filter p := by
  ext v
  rw [lookup_eq_some_iff, Option.filter_eq_some_iff, lookup_eq_some_iff]
  simp [retain]

theorem lookup_insert_eq (m : AssocMap α β) (k k' : α) (v : β) :
    (m.insert k v : AssocMap α β).lookup k' = if k' = k then some v else m.lookup k' := by
  split_ifs with h
  · subst h
    exact AList.lookup_insert m
  · exact AList.lookup_insert_ne h

/-- A new key adds one entry. -/
theorem len_insert_of_lookup_eq_none {m : AssocMap α β} {k : α} (h : m.lookup k = none) (v : β) :
    AssocMap.len (m.insert k v : AssocMap α β) = m.len + 1 := by
  rw [len, AList.entries_insert_of_notMem (AList.lookup_eq_none.1 h), List.length_cons, len]

theorem len_insert_le (m : AssocMap α β) (k : α) (v : β) :
    AssocMap.len (m.insert k v : AssocMap α β) ≤ m.len + 1 := by
  rw [len, AList.entries_insert, List.length_cons]
  exact Nat.succ_le_succ (List.kerase_sublist k m.entries).length_le

/-- A map whose keys all lie in a set has no more entries than the set has elements. -/
theorem len_le_card {m : AssocMap α β} {s : Finset α} (h : ∀ k v, m.lookup k = some v → k ∈ s) :
    m.len ≤ s.card := by
  have hsub : m.keys.toFinset ⊆ s := by
    intro k hk
    obtain ⟨v, hv⟩ := Option.isSome_iff_exists.1 (AList.lookup_isSome.2 (List.mem_toFinset.1 hk))
    exact h k v hv
  calc m.len = m.keys.toFinset.card := by
        rw [List.toFinset_card_of_nodup m.keys_nodup]
        exact (List.length_map _).symm
    _ ≤ s.card := Finset.card_le_card hsub

theorem lookup_erase_eq (m : AssocMap α β) (k k' : α) :
    (m.erase k : AssocMap α β).lookup k' = if k' = k then none else m.lookup k' := by
  split_ifs with h
  · subst h
    exact AList.lookup_erase _ m
  · exact AList.lookup_erase_ne h

end Lookup

end AssocMap
