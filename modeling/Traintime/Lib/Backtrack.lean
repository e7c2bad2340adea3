import Mathlib.Data.List.Basic

/-!
# Patterns that capture

The patterns of a backtracking matcher as functions that return what they capture: fixed words,
alternatives, greedy repetition of a class of characters, greedy option and sequence. An anchored
pattern takes, of all ways to match the whole text, the one that is tried first.

## Main definitions

* `Pattern`: the ways to match at a place, in the order in which they are tried.
* `Pattern.full`: what an anchored pattern captures.
* `Pattern.Reads`: a pattern captures values, each from its text.

## Main results

* `Pattern.Reads.seq`, `Pattern.Reads.opt`: what a pattern captures, from what its parts do.
* `Pattern.Reads.of_full`, `Pattern.Reads.isSome_full`: what an anchored pattern captures.
-/

/-- The ways to match at a place, in the order in which they are tried: what is captured, and the
text that is left. -/
abbrev Pattern (α : Type*) := List Char → List (α × List Char)

namespace Pattern

variable {α β : Type*}

/-- A fixed word. -/
def word (w : List Char) : Pattern (List Char) := fun s =>
  if w <+: s then [(w, s.drop w.length)] else []

/-- The first of some words that can be continued from. -/
def oneOf (ws : List (List Char)) : Pattern (List Char) := fun s => ws.flatMap fun w => word w s

/-- `[p]*`, the longest first. -/
def many (p : Char → Bool) : Pattern (List Char)
  | [] => [([], [])]
  | c :: s => (if p c then (many p s).map fun m => (c :: m.1, m.2) else []) ++ [([], c :: s)]

/-- `[p]+`. -/
def many1 (p : Char → Bool) : Pattern (List Char) := fun s => (many p s).filter (·.1 ≠ [])

/-- One after the other. -/
def seq (p : Pattern α) (q : Pattern β) : Pattern (α × β) := fun s =>
  (p s).flatMap fun m => (q m.2).map fun m' => ((m.1, m'.1), m'.2)

/-- What is captured, changed. -/
def map (f : α → β) (p : Pattern α) : Pattern β := fun s => (p s).map fun m => (f m.1, m.2)

/-- `(p)?`. -/
def opt (p : Pattern α) : Pattern (Option α) := fun s =>
  (p s).map (fun m => (some m.1, m.2)) ++ [(none, s)]

/-- What an anchored pattern captures. -/
def full (p : Pattern α) (s : List Char) : Option α := ((p s).find? (·.2 = [])).map Prod.fst

/-- The pattern captures the valid values, each from its text. -/
def Reads (p : Pattern α) (valid : α → Prop) (text : α → List Char) : Prop :=
  ∀ a s r, (a, r) ∈ p s ↔ valid a ∧ s = text a ++ r

theorem reads_word (w : List Char) : (word w).Reads (· = w) id := by
  intro a s r
  rw [word, id]
  split_ifs with h
  · obtain ⟨t, rfl⟩ := h
    rw [List.drop_left, List.mem_singleton, Prod.mk.injEq]
    refine and_congr_right fun ha => ?_
    rw [ha, List.append_right_inj, eq_comm]
  · refine iff_of_false List.not_mem_nil ?_
    rintro ⟨rfl, rfl⟩
    exact h (List.prefix_append _ _)

theorem reads_oneOf (ws : List (List Char)) : (oneOf ws).Reads (· ∈ ws) id := by
  intro a s r
  rw [oneOf, List.mem_flatMap]
  constructor
  · rintro ⟨w, hw, h⟩
    obtain ⟨rfl, hs⟩ := (reads_word w a s r).mp h
    exact ⟨hw, hs⟩
  · rintro ⟨ha, hs⟩
    exact ⟨a, ha, (reads_word a a s r).mpr ⟨rfl, hs⟩⟩

theorem reads_many (p : Char → Bool) : (many p).Reads (fun a => ∀ c ∈ a, p c = true) id := by
  intro a s r
  show (a, r) ∈ many p s ↔ (∀ c ∈ a, p c = true) ∧ s = a ++ r
  rw [and_comm]
  induction s generalizing a with
  | nil =>
    rw [many, List.mem_singleton, Prod.mk.injEq, List.nil_eq, List.append_eq_nil_iff]
    refine ⟨?_, fun h => h.1⟩
    rintro ⟨rfl, rfl⟩
    exact ⟨⟨rfl, rfl⟩, fun c hc => absurd hc List.not_mem_nil⟩
  | cons c s ih =>
    rw [many, List.mem_append, List.mem_singleton, Prod.mk.injEq]
    cases a with
    | nil =>
      rw [List.nil_append, eq_comm (a := r)]
      split_ifs <;> simp
    | cons d a =>
      have hne : ¬(d :: a = [] ∧ r = c :: s) := fun h => List.cons_ne_nil _ _ h.1
      rw [or_iff_left hne, List.cons_append, List.cons.injEq, List.forall_mem_cons]
      split_ifs with hc
      · rw [List.mem_map]
        constructor
        · rintro ⟨⟨a', r'⟩, hmem, heq⟩
          obtain ⟨hcons, rfl⟩ := Prod.mk.inj heq
          obtain ⟨rfl, rfl⟩ := List.cons.inj hcons
          obtain ⟨hs, ha⟩ := (ih _).mp hmem
          exact ⟨⟨rfl, hs⟩, hc, ha⟩
        · rintro ⟨⟨rfl, hs⟩, -, ha⟩
          exact ⟨(a, r), (ih _).mpr ⟨hs, ha⟩, rfl⟩
      · refine iff_of_false List.not_mem_nil ?_
        rintro ⟨⟨rfl, -⟩, hd, -⟩
        exact hc hd

theorem reads_many1 (p : Char → Bool) :
    (many1 p).Reads (fun a => (∀ c ∈ a, p c = true) ∧ a ≠ []) id := by
  intro a s r
  rw [many1, List.mem_filter, reads_many p, decide_eq_true_eq, and_right_comm]

variable {p : Pattern α} {q : Pattern β} {valid : α → Prop} {valid' : β → Prop}
  {text : α → List Char} {text' : β → List Char}

theorem Reads.seq (hp : p.Reads valid text) (hq : q.Reads valid' text') :
    (p.seq q).Reads (fun m => valid m.1 ∧ valid' m.2) (fun m => text m.1 ++ text' m.2) := by
  rintro ⟨a, b⟩ s r
  rw [Pattern.seq, List.mem_flatMap]
  constructor
  · rintro ⟨⟨a', m⟩, hpm, h⟩
    obtain ⟨⟨b', r'⟩, hqm, heq⟩ := List.mem_map.mp h
    obtain ⟨hab, rfl⟩ := Prod.mk.inj heq
    obtain ⟨rfl, rfl⟩ := Prod.mk.inj hab
    obtain ⟨ha, rfl⟩ := (hp _ _ _).mp hpm
    obtain ⟨hb, rfl⟩ := (hq _ _ _).mp hqm
    exact ⟨⟨ha, hb⟩, (List.append_assoc _ _ _).symm⟩
  · rintro ⟨⟨ha, hb⟩, rfl⟩
    refine ⟨(a, text' b ++ r), (hp _ _ _).mpr ⟨ha, List.append_assoc _ _ _⟩, ?_⟩
    exact List.mem_map.mpr ⟨(b, r), (hq _ _ _).mpr ⟨hb, rfl⟩, rfl⟩

theorem Reads.opt (hp : p.Reads valid text) :
    p.opt.Reads (fun o => ∀ a ∈ o, valid a) (fun o => (o.map text).getD []) := by
  intro o s r
  cases o with
  | none => simp [Pattern.opt, eq_comm]
  | some a => simp [Pattern.opt, hp a s r]

/-- An anchored pattern captures a valid value whose text is all there is. -/
theorem Reads.of_full (hp : p.Reads valid text) {s : List Char} {a : α} (h : p.full s = some a) :
    valid a ∧ s = text a := by
  obtain ⟨⟨a', r⟩, hfind, rfl⟩ := Option.map_eq_some_iff.mp h
  have hr := List.find?_some hfind
  obtain rfl : r = [] := of_decide_eq_true hr
  obtain ⟨hvalid, hs⟩ := (hp _ _ _).mp (List.mem_of_find?_eq_some hfind)
  exact ⟨hvalid, by rwa [List.append_nil] at hs⟩

/-- When there is a valid value, the first one is captured. -/
theorem Reads.isSome_full (hp : p.Reads valid text) {a : α} (ha : valid a) :
    (p.full (text a)).isSome = true := by
  rw [full, Option.isSome_map]
  refine List.find?_isSome.mpr ⟨(a, []), (hp _ _ _).mpr ⟨ha, (List.append_nil _).symm⟩, ?_⟩
  simp

theorem full_map (f : α → β) (p : Pattern α) (s : List Char) :
    (map f p).full s = (p.full s).map f := by
  rw [full, full, map, List.find?_map, Option.map_map, Option.map_map]
  rfl

end Pattern
