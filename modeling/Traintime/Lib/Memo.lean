import Mathlib.Data.List.Nodup
import Traintime.Lib.AssocMap

/-!
# Memoised builds

A partial function that is expensive to evaluate is evaluated once for each argument and its value
kept in a table. Computations that look values up thread the table, and may fail.

## Main definitions

* `Memo.State`: the table, and the arguments for which the function was evaluated.
* `Memo.get`: the memoised function.
* `Memo.Computes`: a computation gives a value whatever the table holds, and builds what it needs of
  some keys that is not there yet.

## Main results

* `Memo.Computes.get`, `Memo.Computes.bind`, `Memo.Computes.mapM`: the rules.
* `Memo.Computes.run`: what is built from an empty table, and by a second run.
-/

namespace Memo

variable {α β γ δ : Type}

/-- The values that were built, and what was built, newest first. -/
structure State (α β : Type) where
  table : AssocMap α β
  built : List α

/-- Nothing has been built yet. -/
def State.empty : State α β := ⟨∅, []⟩

variable [DecidableEq α] (build : α → Option β)

/-- The memoised function. Where it has no value, none is kept. -/
def get (a : α) : StateT (State α β) Option (Option β) := fun t =>
  match t.table.lookup a with
  | some b => some (some b, t)
  | none =>
    match build a with
    | some b => some (some b, ⟨t.table.insert a b, a :: t.built⟩)
    | none => some (none, { t with built := a :: t.built })

/-- The table has values of the function, and nothing was built twice. -/
structure Sound (t : State α β) : Prop where
  table : ∀ a b, t.table.lookup a = some b → build a = some b
  kept : ∀ a ∈ t.built, (t.table.lookup a).isSome
  nodup : t.built.Nodup

/-- From `t` to `t'` the values of `used` are built as far as they are not there. -/
structure Fills (used : List α) (t t' : State α β) : Prop where
  isSome_iff : ∀ a, (t'.table.lookup a).isSome ↔ (t.table.lookup a).isSome ∨ a ∈ used
  built : ∃ new, t'.built = new ++ t.built ∧ ∀ a ∈ new, a ∈ used ∧ t.table.lookup a = none

/-- From every table the computation gives the value, with the same of the keys. -/
def Computes (keys : List α) (x : StateT (State α β) Option γ) (v : γ) : Prop :=
  ∃ used, used ⊆ keys ∧ ∀ t, Sound build t → ∃ t', x t = some (v, t') ∧ Sound build t' ∧
    Fills used t t'

variable {build} {keys used used' : List α} {t t' t'' : State α β}

theorem sound_empty : Sound build State.empty :=
  ⟨fun a b h => by simp [State.empty] at h, fun a ha => by simp [State.empty] at ha, List.nodup_nil⟩

theorem Fills.refl : Fills [] t t := ⟨fun a => by simp, [], rfl, nofun⟩

theorem Fills.trans (h : Fills used t t') (h' : Fills used' t' t'') :
    Fills (used ++ used') t t'' := by
  obtain ⟨new, hnew, hall⟩ := h.built
  obtain ⟨new', hnew', hall'⟩ := h'.built
  refine ⟨fun a => ?_, new' ++ new, by rw [hnew', hnew, List.append_assoc], fun a ha => ?_⟩
  · rw [h'.isSome_iff, h.isSome_iff, List.mem_append, or_assoc]
  · rcases List.mem_append.1 ha with ha | ha
    · obtain ⟨hused, hnone⟩ := hall' a ha
      refine ⟨List.mem_append_right used hused, ?_⟩
      have hiff := h.isSome_iff a
      rw [hnone] at hiff
      simpa using fun hsome => hiff.2 (.inl hsome)
    · exact ⟨List.mem_append_left used' (hall a ha).1, (hall a ha).2⟩

namespace Computes

/-- Looking up a key that has a value. -/
theorem get {a : α} {b : β} (ha : a ∈ keys) (hb : build a = some b) :
    Computes build keys (Memo.get build a) (some b) := by
  refine ⟨[a], List.cons_subset.2 ⟨ha, List.nil_subset keys⟩, fun t ht => ?_⟩
  cases hlookup : t.table.lookup a with
  | some b' =>
    obtain rfl := Option.some.inj (hb.symm.trans (ht.table a b' hlookup))
    refine ⟨t, by simp only [Memo.get, hlookup], ht, fun a' => ?_, [], rfl, nofun⟩
    rw [List.mem_singleton, iff_self_or]
    rintro rfl
    rw [hlookup]
    rfl
  | none =>
    refine ⟨⟨t.table.insert a b, a :: t.built⟩, by simp only [Memo.get, hlookup, hb], ?_, ?_⟩
    · refine ⟨fun a' b' h => ?_, fun a' ha' => ?_, ?_⟩
      · rw [AssocMap.lookup_insert_eq] at h
        split_ifs at h with heq
        · rwa [heq, ← Option.some.inj h]
        · exact ht.table a' b' h
      · rw [AssocMap.lookup_insert_eq]
        split_ifs with heq
        · rfl
        · exact ht.kept a' ((List.mem_cons.1 ha').resolve_left heq)
      · refine List.nodup_cons.2 ⟨fun hmem => ?_, ht.nodup⟩
        have hsome := ht.kept a hmem
        rw [hlookup] at hsome
        cases hsome
    · refine ⟨fun a' => ?_, [a], rfl, fun a' ha' => ?_⟩
      · rw [AssocMap.lookup_insert_eq, List.mem_singleton]
        split_ifs with heq <;> simp [heq]
      · rw [List.mem_singleton.1 ha']
        exact ⟨List.mem_singleton_self a, hlookup⟩

theorem pure (v : γ) : Computes build keys (Pure.pure v) v :=
  ⟨[], List.nil_subset keys, fun t ht => ⟨t, rfl, ht, Fills.refl⟩⟩

theorem bind {x : StateT (State α β) Option γ} {f : γ → StateT (State α β) Option δ} {v : γ} {w : δ}
    (hx : Computes build keys x v) (hf : Computes build keys (f v) w) :
    Computes build keys (x >>= f) w := by
  obtain ⟨used, hused, hx⟩ := hx
  obtain ⟨used', hused', hf⟩ := hf
  refine ⟨used ++ used', List.append_subset.2 ⟨hused, hused'⟩, fun t ht => ?_⟩
  obtain ⟨t', hrun, ht', hfills⟩ := hx t ht
  obtain ⟨t'', hrun', ht'', hfills'⟩ := hf t' ht'
  refine ⟨t'', ?_, ht'', hfills.trans hfills'⟩
  show (x t).bind _ = _
  rw [hrun]
  exact hrun'

theorem map {x : StateT (State α β) Option γ} {v : γ} (f : γ → δ) (hx : Computes build keys x v) :
    Computes build keys (do return f (← x)) (f v) :=
  hx.bind (pure (f v))

theorem mapM {l : List γ} {x : γ → StateT (State α β) Option δ} {f : γ → δ}
    (h : ∀ a ∈ l, Computes build keys (x a) (f a)) :
    Computes build keys (l.mapM x) (l.map f) := by
  induction l with
  | nil => exact pure []
  | cons a l ih =>
    rw [List.mapM_cons]
    exact (h a List.mem_cons_self).bind
      ((ih fun b hb => h b (List.mem_cons_of_mem a hb)).bind (pure _))

/-- From an empty table a computation builds some of the keys, each once, and any computation all of
whose keys were built builds nothing. -/
theorem run {x : StateT (State α β) Option γ} {v : γ} (h : Computes build keys x v) :
    ∃ t, x State.empty = some (v, t) ∧ t.built.Nodup ∧ t.built ⊆ keys ∧
      ∃ t', x t = some (v, t') ∧ t'.built = t.built := by
  obtain ⟨used, hused, h⟩ := h
  obtain ⟨t, hrun, ht, hfills⟩ := h State.empty sound_empty
  obtain ⟨t', hrun', -, hfills'⟩ := h t ht
  obtain ⟨new, hnew, hall⟩ := hfills.built
  obtain ⟨new', hnew', hall'⟩ := hfills'.built
  refine ⟨t, hrun, ht.nodup, fun a ha => ?_, t', hrun', ?_⟩
  · have hmem : a ∈ new := by simpa [hnew, State.empty] using ha
    exact hused (hall a hmem).1
  · have hnil : new' = [] := by
      refine List.eq_nil_iff_forall_not_mem.2 fun a ha => ?_
      obtain ⟨hmem, hnone⟩ := hall' a ha
      have hsome := (hfills.isSome_iff a).2 (.inr hmem)
      rw [hnone] at hsome
      cases hsome
    rw [hnew', hnil, List.nil_append]

end Computes

end Memo
