import Mathlib.Data.List.Basic

/-!
# Blocks of a sequence

Blocks are cut out of a sequence at each element that opens one, and go up to the next element that
closes one, of which only a part belongs to the block. An element may open a block that is closed by
what closes another.

## Main definitions

* `Blocks.upTo`, `Blocks.blocks`: the part up to the next closing element, and the blocks.
* `Blocks.leaf`: the first opening element with a closing one right after it.

## Main results

* `Blocks.head?_blocks_eq`: the first block when nothing opens one before it.
* `Blocks.exists_head?_blocks`: the first block when something may.
* `Blocks.blocks_flatMap`: the blocks of a sequence of blocks.
-/

namespace Blocks

variable {α β : Type} (o c : α → Bool) (cut : α → α)

/-- The part up to the next closing element. -/
def upTo : List α → Option (List α)
  | [] => none
  | x :: xs => if c x then some [cut x] else (upTo xs).map (x :: ·)

/-- The blocks, in the order in which they are opened. -/
def blocks : List α → List (List α)
  | [] => []
  | x :: xs => (if o x then ((upTo c cut xs).map (x :: ·)).toList else []) ++ blocks xs

/-- The first opening element that is closed by the one right after it. -/
def leaf : List α → Option α
  | x :: y :: xs => if o x && c y then some x else leaf (y :: xs)
  | _ => none

theorem upTo_cons (x : α) (xs : List α) :
    upTo c cut (x :: xs) = if c x then some [cut x] else (upTo c cut xs).map (x :: ·) := rfl

theorem blocks_cons (x : α) (xs : List α) :
    blocks o c cut (x :: xs) =
      (if o x then ((upTo c cut xs).map (x :: ·)).toList else []) ++ blocks o c cut xs := rfl

theorem leaf_cons_cons (x y : α) (xs : List α) :
    leaf o c (x :: y :: xs) = if o x && c y then some x else leaf o c (y :: xs) := rfl

variable {o c cut}

theorem upTo_eq {as rest : List α} {z : α} (has : ∀ x ∈ as, c x = false) (hz : c z = true) :
    upTo c cut (as ++ z :: rest) = some (as ++ [cut z]) := by
  induction as with
  | nil => simp [upTo_cons, hz]
  | cons a as ih =>
    have ha : c a = false := has a List.mem_cons_self
    rw [List.cons_append, upTo_cons, ha, ih fun x hx => has x (List.mem_cons_of_mem _ hx)]
    rfl

theorem upTo_eq_none {as : List α} (has : ∀ x ∈ as, c x = false) : upTo c cut as = none := by
  induction as with
  | nil => rfl
  | cons a as ih =>
    rw [upTo_cons, has a List.mem_cons_self, ih fun x hx => has x (List.mem_cons_of_mem _ hx)]
    rfl

/-- Nothing is closed, so there are no blocks. -/
theorem blocks_eq_nil {as : List α} (has : ∀ x ∈ as, c x = false) : blocks o c cut as = [] := by
  induction as with
  | nil => rfl
  | cons a as ih =>
    have has' : ∀ x ∈ as, c x = false := fun x hx => has x (List.mem_cons_of_mem _ hx)
    rw [blocks_cons, upTo_eq_none has', ih has']
    simp

/-- Elements that open nothing are passed over. -/
theorem blocks_append {as : List α} (has : ∀ x ∈ as, o x = false) (bs : List α) :
    blocks o c cut (as ++ bs) = blocks o c cut bs := by
  induction as with
  | nil => rfl
  | cons a as ih =>
    rw [List.cons_append, blocks_cons, has a List.mem_cons_self,
      ih fun x hx => has x (List.mem_cons_of_mem _ hx)]
    rfl

theorem blocks_cons_of_open {g z : α} {mid rest : List α} (hg : o g = true)
    (hmid : ∀ x ∈ mid, c x = false) (hz : c z = true) :
    blocks o c cut (g :: (mid ++ z :: rest)) =
      (g :: (mid ++ [cut z])) :: blocks o c cut (mid ++ z :: rest) := by
  rw [blocks_cons, hg, upTo_eq hmid hz]
  rfl

/-- The first block when nothing opens one before it. -/
theorem head?_blocks_eq {as mid rest : List α} {g z : α} (has : ∀ x ∈ as, o x = false)
    (hg : o g = true) (hmid : ∀ x ∈ mid, c x = false) (hz : c z = true) :
    (blocks o c cut (as ++ g :: (mid ++ z :: rest))).head? = some (g :: (mid ++ [cut z])) := by
  rw [blocks_append has, blocks_cons_of_open hg hmid hz, List.head?_cons]

/-- The first block when elements before may open one: it begins at one of them. -/
theorem exists_head?_blocks {as mid rest : List α} {g z : α} (has : ∀ x ∈ as, c x = false)
    (hg : o g = true) (hgc : c g = false) (hmid : ∀ x ∈ mid, c x = false) (hz : c z = true) :
    ∃ as', as' <:+ as ∧ (blocks o c cut (as ++ g :: (mid ++ z :: rest))).head? =
      some (as' ++ g :: (mid ++ [cut z])) := by
  induction as with
  | nil =>
    refine ⟨[], List.suffix_rfl, ?_⟩
    rw [List.nil_append, blocks_cons_of_open hg hmid hz, List.head?_cons]
    rfl
  | cons a as ih =>
    have has' : ∀ x ∈ as, c x = false := fun x hx => has x (List.mem_cons_of_mem _ hx)
    by_cases ha : o a = true
    · have hfree : ∀ x ∈ as ++ g :: mid, c x = false := by
        intro x hx
        rcases List.mem_append.mp hx with hx | hx
        · exact has' x hx
        · rcases List.mem_cons.mp hx with rfl | hx
          · exact hgc
          · exact hmid x hx
      refine ⟨a :: as, List.suffix_rfl, ?_⟩
      have hopen : blocks o c cut (a :: (as ++ g :: mid ++ z :: rest)) = _ :=
        blocks_cons_of_open ha hfree hz
      simp only [List.append_assoc, List.cons_append] at hopen ⊢
      rw [hopen, List.head?_cons]
    · obtain ⟨as', hsuf, heq⟩ := ih has'
      refine ⟨as', hsuf.trans (List.suffix_cons a as), ?_⟩
      rw [List.cons_append, blocks_cons, if_neg ha]
      exact heq

/-- The blocks of a sequence that is made of blocks. -/
theorem blocks_flatMap {g z : β → α} {mid : β → List α} {bs : List β}
    (hg : ∀ b, o (g b) = true) (hz : ∀ b, o (z b) = false ∧ c (z b) = true)
    (hmid : ∀ b ∈ bs, ∀ x ∈ mid b, o x = false ∧ c x = false) (rest : List α) :
    blocks o c cut ((bs.flatMap fun b => g b :: (mid b ++ [z b])) ++ rest) =
      (bs.map fun b => g b :: (mid b ++ [cut (z b)])) ++ blocks o c cut rest := by
  induction bs with
  | nil => rfl
  | cons b bs ih =>
    have hmidb := hmid b List.mem_cons_self
    have hrest : ∀ rest, blocks o c cut (mid b ++ z b :: rest) = blocks o c cut rest := by
      intro rest
      rw [blocks_append fun x hx => (hmidb x hx).1, blocks_cons, (hz b).1]
      rfl
    rw [List.flatMap_cons, List.append_assoc, List.cons_append, List.append_assoc,
      List.singleton_append, blocks_cons_of_open (hg b) (fun x hx => (hmidb x hx).2) (hz b).2,
      hrest, ih fun b hb => hmid b (List.mem_cons_of_mem _ hb), List.map_cons, List.cons_append]

/-- Elements after which nothing is closed are passed over. -/
theorem leaf_append {as bs : List α} {x : α} (has : ∀ y ∈ as, c y = false) (hx : c x = false) :
    leaf o c (as ++ x :: bs) = leaf o c (x :: bs) := by
  induction as with
  | nil => rfl
  | cons a as ih =>
    have has' : ∀ y ∈ as, c y = false := fun y hy => has y (List.mem_cons_of_mem _ hy)
    rw [← ih has']
    cases as with
    | nil => simp [leaf_cons_cons, hx]
    | cons b as => simp [leaf_cons_cons, has b (List.mem_cons_of_mem _ List.mem_cons_self)]

theorem leaf_eq {as bs : List α} {x y : α} (has : ∀ y ∈ as, c y = false) (hxc : c x = false)
    (hx : o x = true) (hy : c y = true) : leaf o c (as ++ x :: y :: bs) = some x := by
  rw [leaf_append has hxc, leaf_cons_cons, hx, hy]
  rfl

theorem leaf_eq_none {as : List α} (has : ∀ y ∈ as, c y = false) : leaf o c as = none := by
  induction as with
  | nil => rfl
  | cons a as ih =>
    cases as with
    | nil => rfl
    | cons b as =>
      rw [leaf_cons_cons, has b (List.mem_cons_of_mem _ List.mem_cons_self), Bool.and_false]
      exact ih fun y hy => has y (List.mem_cons_of_mem _ hy)

end Blocks
