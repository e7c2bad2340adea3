import Mathlib.Data.List.Induction
import Mathlib.Data.List.Nodup

/-!
# Rows with keys

A table with a primary key, and a dictionary that keeps its keys in the order in which they came.

## Main definitions

* `KeyedTable`: a table, no two of whose rows have one key.
* `KeyedTable.replaceAll`, `KeyedTable.remove`: the operations.
* `Dict`, `Dict.ofPairs`: a dictionary, and the one in which later values win.

## Main results

* `KeyedTable.mem_replaceAll`, `KeyedTable.mem_remove`: the rows after an operation.
* `Dict.mem_entries_ofPairs_iff`: the value of a key is the last one given for it.
-/

/-! ### Tables -/

/-- A table with a primary key. -/
@[ext] structure KeyedTable {ρ κ : Type*} (key : ρ → κ) where
  rows : List ρ
  nodup : (rows.map key).Nodup

namespace KeyedTable

variable {ρ κ : Type*} {key : ρ → κ}

theorem eq_of_key_eq (t : KeyedTable key) {r s : ρ} (hr : r ∈ t.rows) (hs : s ∈ t.rows)
    (h : key r = key s) : r = s :=
  List.inj_on_of_nodup_map t.nodup hr hs h

variable [DecidableEq κ]

/-- A row is put in the place of the one with its key. -/
def replace (t : KeyedTable key) (r : ρ) : KeyedTable key where
  rows := t.rows.filter (fun s => key s ≠ key r) ++ [r]
  nodup := by
    rw [List.map_append, List.map_singleton, List.nodup_append]
    refine ⟨t.nodup.sublist (List.filter_sublist.map _), List.nodup_singleton _, ?_⟩
    intro k hk k' hk'
    obtain ⟨s, hs, rfl⟩ := List.mem_map.mp hk
    rw [List.mem_singleton.mp hk']
    exact of_decide_eq_true (List.mem_filter.mp hs).2

/-- The rows are written one after the other, so that of several with one key the last one stays. -/
def replaceAll (t : KeyedTable key) (rs : List ρ) : KeyedTable key := rs.foldl replace t

/-- The rows with these keys are removed. -/
def remove (t : KeyedTable key) (ks : List κ) : KeyedTable key where
  rows := t.rows.filter fun r => key r ∉ ks
  nodup := t.nodup.sublist (List.filter_sublist.map _)

theorem mem_replace {t : KeyedTable key} {r s : ρ} :
    s ∈ (t.replace r).rows ↔ s = r ∨ s ∈ t.rows ∧ key s ≠ key r := by
  rw [replace, List.mem_append, List.mem_singleton, List.mem_filter, decide_eq_true_eq, or_comm]

theorem mem_remove {t : KeyedTable key} {ks : List κ} {s : ρ} :
    s ∈ (t.remove ks).rows ↔ s ∈ t.rows ∧ key s ∉ ks := by
  rw [remove, List.mem_filter, decide_eq_true_eq]

/-- Rows with different keys do not get into each other's way. -/
theorem mem_replaceAll {t : KeyedTable key} {rs : List ρ} (hrs : (rs.map key).Nodup) {s : ρ} :
    s ∈ (t.replaceAll rs).rows ↔ s ∈ rs ∨ s ∈ t.rows ∧ key s ∉ rs.map key := by
  induction rs generalizing t with
  | nil => simp [replaceAll]
  | cons r rs ih =>
    rw [List.map_cons, List.nodup_cons] at hrs
    rw [replaceAll, List.foldl_cons, ← replaceAll, ih hrs.2, mem_replace, List.mem_cons,
      List.map_cons, List.mem_cons]
    constructor
    · rintro (h | ⟨rfl | ⟨h, hne⟩, hnot⟩)
      · exact .inl (.inr h)
      · exact .inl (.inl rfl)
      · exact .inr ⟨h, not_or.mpr ⟨hne, hnot⟩⟩
    · rintro ((rfl | h) | ⟨h, hnot⟩)
      · exact .inr ⟨.inl rfl, hrs.1⟩
      · exact .inl h
      · rw [not_or] at hnot
        exact .inr ⟨.inr ⟨h, hnot.1⟩, hnot.2⟩

/-- A row that is not one of the new ones was there before. -/
theorem mem_of_mem_replaceAll {t : KeyedTable key} {rs : List ρ} {s : ρ}
    (hs : s ∈ (t.replaceAll rs).rows) (hnot : key s ∉ rs.map key) : s ∈ t.rows := by
  induction rs generalizing t with
  | nil => exact hs
  | cons r rs ih =>
    rw [List.map_cons, List.mem_cons, not_or] at hnot
    rcases mem_replace.mp (ih hs hnot.2) with rfl | h
    · exact absurd rfl hnot.1
    · exact h.1

theorem replaceAll_append (t : KeyedTable key) (rs rs' : List ρ) :
    t.replaceAll (rs ++ rs') = (t.replaceAll rs).replaceAll rs' :=
  List.foldl_append

theorem remove_append (t : KeyedTable key) (ks ks' : List κ) :
    t.remove (ks ++ ks') = (t.remove ks).remove ks' := by
  refine KeyedTable.ext ?_
  show t.rows.filter _ = (t.rows.filter _).filter _
  rw [List.filter_filter]
  refine List.filter_congr fun r _ => ?_
  rw [← Bool.decide_and, decide_eq_decide, List.mem_append, not_or, and_comm]

theorem remove_nil (t : KeyedTable key) : t.remove [] = t := by
  refine KeyedTable.ext ?_
  show t.rows.filter _ = t.rows
  exact List.filter_eq_self.mpr fun r _ => decide_eq_true List.not_mem_nil

end KeyedTable

/-! ### Dictionaries -/

/-- A dictionary with its entries in the order in which their keys came. -/
structure Dict (κ α : Type*) where
  entries : List (κ × α)
  nodup : (entries.map Prod.fst).Nodup

namespace Dict

variable {κ α : Type*} [DecidableEq κ]

/-- No keys. -/
def empty : Dict κ α := ⟨[], List.nodup_nil⟩

/-- A key keeps its place when it gets a new value. -/
def set (d : Dict κ α) (k : κ) (v : α) : Dict κ α :=
  if h : k ∈ d.entries.map Prod.fst then
    { entries := d.entries.map fun e => (e.1, if e.1 = k then v else e.2)
      nodup := by
        rw [List.map_map]
        exact d.nodup }
  else
    { entries := d.entries ++ [(k, v)]
      nodup := by
        rw [List.map_append, List.map_singleton]
        refine List.nodup_append.mpr ⟨d.nodup, List.nodup_singleton _, fun a ha b hb hab => h ?_⟩
        obtain rfl : b = k := List.mem_singleton.mp hb
        rwa [← hab] }

/-- Of several values of a key, the last one stays. -/
def ofPairs (ps : List (κ × α)) : Dict κ α := ps.foldl (fun d p => d.set p.1 p.2) empty

/-- The value of a key, if it is there. No key is there twice. -/
def get? (d : Dict κ α) (k : κ) : Option α := (d.entries.find? fun e => e.1 = k).map Prod.snd

theorem get?_eq_some_iff {d : Dict κ α} {k : κ} {v : α} :
    d.get? k = some v ↔ (k, v) ∈ d.entries := by
  rw [get?, Option.map_eq_some_iff]
  constructor
  · rintro ⟨e, hfind, rfl⟩
    have hk := List.find?_some hfind
    rw [decide_eq_true_eq] at hk
    rw [← hk]
    exact List.mem_of_find?_eq_some hfind
  · intro h
    cases hfind : d.entries.find? fun e => e.1 = k with
    | none =>
      have hk := List.find?_eq_none.mp hfind _ h
      exact absurd (decide_eq_true rfl) hk
    | some e =>
      have hk := List.find?_some hfind
      rw [decide_eq_true_eq] at hk
      have he : e = (k, v) :=
        List.inj_on_of_nodup_map d.nodup (List.mem_of_find?_eq_some hfind) h hk
      exact ⟨e, rfl, by rw [he]⟩

theorem mem_entries_set {d : Dict κ α} {k : κ} {v : α} {e : κ × α} :
    e ∈ (d.set k v).entries ↔ e = (k, v) ∨ e ∈ d.entries ∧ e.1 ≠ k := by
  unfold set
  split_ifs with hk
  · obtain ⟨⟨k', w⟩, hw, rfl⟩ := List.mem_map.mp hk
    show e ∈ d.entries.map _ ↔ _
    rw [List.mem_map]
    constructor
    · rintro ⟨e', he', rfl⟩
      by_cases h : e'.1 = k'
      · exact .inl (by rw [if_pos h, h])
      · exact .inr ⟨by rwa [if_neg h], h⟩
    · rintro (rfl | ⟨he, h⟩)
      · exact ⟨(k', w), hw, by rw [if_pos rfl]⟩
      · exact ⟨e, he, by rw [if_neg h]⟩
  · show e ∈ d.entries ++ [(k, v)] ↔ _
    rw [List.mem_append, List.mem_singleton, or_comm]
    refine or_congr_right ⟨fun he => ⟨he, ?_⟩, And.left⟩
    rintro rfl
    exact hk (List.mem_map_of_mem he)

/-- The value of a key is the last one given for it. -/
theorem mem_entries_ofPairs_iff {ps : List (κ × α)} {e : κ × α} :
    e ∈ (ofPairs ps).entries ↔ ∃ l r, ps = l ++ e :: r ∧ ∀ p ∈ r, p.1 ≠ e.1 := by
  induction ps using List.reverseRecOn with
  | nil =>
    refine iff_of_false List.not_mem_nil ?_
    rintro ⟨l, r, h, -⟩
    exact List.append_ne_nil_of_right_ne_nil l (List.cons_ne_nil _ _) h.symm
  | append_singleton ps p ih =>
    rw [ofPairs, List.foldl_append, ← ofPairs, List.foldl_cons, List.foldl_nil, mem_entries_set, ih]
    constructor
    · rintro (rfl | ⟨⟨l, r, rfl, hr⟩, hne⟩)
      · exact ⟨ps, [], rfl, fun p hp => absurd hp List.not_mem_nil⟩
      · refine ⟨l, r ++ [p], by rw [List.append_assoc, List.cons_append], fun p' hp' => ?_⟩
        rcases List.mem_append.mp hp' with h | h
        · exact hr p' h
        · rw [List.mem_singleton.mp h]
          exact hne.symm
    · rintro ⟨l, r, h, hr⟩
      rcases r.eq_nil_or_concat' with rfl | ⟨r, p', rfl⟩
      · obtain ⟨-, h⟩ := List.append_inj' h rfl
        exact .inl (List.singleton_injective h).symm
      · rw [← List.cons_append, ← List.append_assoc] at h
        obtain ⟨rfl, hp⟩ := List.append_inj' h rfl
        obtain rfl := List.singleton_injective hp
        exact .inr ⟨⟨l, r, rfl, fun p hp => hr p (List.mem_append_left _ hp)⟩,
          (hr _ (List.mem_append_right _ (List.mem_singleton_self _))).symm⟩

end Dict
