import Mathlib.Data.List.TakeWhile
import Mathlib.Data.List.Infix

/-!
# Regular expressions with a preferred match

The patterns of a backtracking matcher: characters of a class, greedy repetition of a class,
sequence, greedy option and capture groups. Of all matches that begin at one place the matcher
takes the one that it tries first.

## Main definitions

* `Regex`, `Regex.exec`: patterns and how they are tried.
* `Regex.rests`: the ways to match, in order.
* `Regex.find`, `Regex.findIter`: the leftmost match, and the matches one after the other.
* `Regex.sameLetter`: letters that agree when case does not matter.
* `Regex.Takes`: the texts that a pattern takes, with the groups it closes.

## Main results

* `Regex.exec_eq_findSome?`: a pattern without groups takes the first way to match that can be
  continued.
* `Regex.exec_many`: a repetition takes all it can when nothing else can follow.
* `Regex.rests_append`: a pattern does not go past a character it does not have.
* `Regex.exists_takes_of_exec`: what is tried is taken.
* `Regex.find_append`, `Regex.findIter_append`: text in which a pattern cannot begin is passed over.
-/

/-- A pattern. -/
inductive Regex
  | empty
  | set (p : Char → Bool)
  | many (p : Char → Bool)
  | cat (r s : Regex)
  | opt (r : Regex)
  | group (r : Regex)

namespace Regex

/-- A place of the text is what is left of it. -/
abbrev Place := List Char

/-- The text between two places. -/
def slice (start stop : Place) : List Char := start.take (start.length - stop.length)

section Exec

variable {β : Type}

/-- `[p]*`, the longest first. -/
def execMany (p : Char → Bool) (k : Place → Option β) : Place → Option β
  | [] => k []
  | c :: s => (if p c then execMany p k s else none).or (k (c :: s))

/-- Tries the ways in which the pattern matches at a place, in order, until one of them can be
continued. The groups that have been closed are passed along. -/
def exec : Regex → List (List Char) → Place → (List (List Char) → Place → Option β) → Option β
  | empty, gs, s, k => k gs s
  | set p, gs, s, k =>
    match s with
    | [] => none
    | c :: s => if p c then k gs s else none
  | many p, gs, s, k => execMany p (k gs) s
  | cat a b, gs, s, k => exec a gs s fun gs s => exec b gs s k
  | opt a, gs, s, k => (exec a gs s k).or (k gs s)
  | group a, gs, s, k => exec a gs s fun gs' s' => k (gs' ++ [slice s s']) s'

end Exec

/-- Where a match begins and ends, and its groups. -/
structure Match where
  start : Place
  groups : List (List Char)
  stop : Place
deriving DecidableEq, Repr

namespace Match

/-- The text of the match. -/
def text (m : Match) : List Char := slice m.start m.stop

end Match

/-- The match at a place. -/
def matchAt (r : Regex) (s : Place) : Option Match :=
  r.exec [] s fun gs s' => some ⟨s, gs, s'⟩

/-- The leftmost match. -/
def find (r : Regex) : Place → Option Match
  | [] => r.matchAt []
  | c :: s => (r.matchAt (c :: s)).or (find r s)

/-- The matches after the next `n` characters. -/
def findIterFrom (r : Regex) : ℕ → Place → List Match
  | _, [] => []
  | n + 1, _ :: s => findIterFrom r n s
  | 0, c :: s =>
    match r.matchAt (c :: s) with
    | some m => m :: findIterFrom r (s.length - m.stop.length) s
    | none => findIterFrom r 0 s

/-- The matches one after the other, for patterns that do not match the empty text. -/
def findIter (r : Regex) (s : Place) : List Match := r.findIterFrom 0 s

/-! ### Patterns -/

/-- One character. -/
def char (c : Char) : Regex := set (· == c)

/-- `[p]+`. -/
def many1 (p : Char → Bool) : Regex := cat (set p) (many p)

/-- The small letter that a character is compared as when case does not matter. Besides the capital
letter, `k` is also written as the Kelvin sign and `s` as the long s. -/
def foldCase (c : Char) : Char :=
  if c = '\u212a' then 'k' else if c = '\u017f' then 's' else c.toLower

/-- Whether a character is the letter of the pattern, with or without case. -/
def sameLetter (ci : Bool) (c d : Char) : Bool := if ci then foldCase d == foldCase c else d == c

/-- A small letter, with or without case. -/
def isLower (ci : Bool) (c : Char) : Bool := if ci then (foldCase c).isLower else c.isLower

/-- A fixed text. -/
def text (ci : Bool) : List Char → Regex
  | [] => empty
  | c :: w => cat (set (sameLetter ci c)) (text ci w)

/-! ### The ways to match -/

/-- The places at which a repetition may stop, the furthest first. -/
def restsMany (p : Char → Bool) : Place → List Place
  | [] => [[]]
  | c :: s => (if p c then restsMany p s else []) ++ [c :: s]

/-- The places at which a match may end, in the order in which they are tried. -/
def rests : Regex → Place → List Place
  | empty, s => [s]
  | set p, s =>
    match s with
    | [] => []
    | c :: s => if p c then [s] else []
  | many p, s => restsMany p s
  | cat a b, s => (rests a s).flatMap (rests b)
  | opt a, s => rests a s ++ [s]
  | group a, s => rests a s

/-- Whether a pattern has no groups. -/
def GroupFree : Regex → Prop
  | cat a b => a.GroupFree ∧ b.GroupFree
  | opt a => a.GroupFree
  | group _ => False
  | _ => True

/-- Whether no class of a pattern has the character. -/
def Avoids (d : Char) : Regex → Prop
  | set p => p d = false
  | many p => p d = false
  | cat a b => a.Avoids d ∧ b.Avoids d
  | opt a => a.Avoids d
  | group a => a.Avoids d
  | empty => True

section Exec

variable {β : Type} {gs : List (List Char)} {k : List (List Char) → Place → Option β}

theorem execMany_eq_findSome? (p : Char → Bool) (k : Place → Option β) (s : Place) :
    execMany p k s = (restsMany p s).findSome? k := by
  induction s with
  | nil => simp [execMany, restsMany]
  | cons c s ih =>
    by_cases hc : p c = true <;> simp [execMany, restsMany, hc, ih, List.findSome?_append]

/-- The first of the places that can be continued from is taken. -/
theorem exec_eq_findSome? {r : Regex} (hr : r.GroupFree) (s : Place) :
    exec r gs s k = (r.rests s).findSome? (k gs) := by
  induction r generalizing s k with
  | empty => simp [exec, rests]
  | set p =>
    cases s with
    | nil => rfl
    | cons c s => by_cases hc : p c = true <;> simp [exec, rests, hc]
  | many p => exact execMany_eq_findSome? p (k gs) s
  | cat a b iha ihb =>
    simp only [exec, iha hr.1, rests, ihb hr.2]
    induction a.rests s with
    | nil => rfl
    | cons s' l ih =>
      rw [List.flatMap_cons, List.findSome?_append, ← ih, List.findSome?_cons]
      cases (b.rests s').findSome? (k gs) <;> rfl
  | opt a ih =>
    rw [exec, ih hr, rests, List.findSome?_append]
    simp
  | group a _ => exact hr.elim

/-- A repetition takes all it can when nothing that follows begins with one of its characters. -/
theorem exec_many {p : Char → Bool} (hk : ∀ c s, p c = true → k gs (c :: s) = none) (s : Place) :
    exec (many p) gs s k = k gs (s.dropWhile p) := by
  show execMany p (k gs) s = _
  induction s with
  | nil => rfl
  | cons c s ih =>
    by_cases hc : p c = true
    · rw [execMany, if_pos hc, ih, hk c s hc, Option.or_none, List.dropWhile_cons_of_pos hc]
    · rw [execMany, if_neg hc, Option.none_or, List.dropWhile_cons_of_neg hc]

end Exec

theorem isSuffix_of_mem_rests {r : Regex} {s s' : Place} (h : s' ∈ r.rests s) : s' <:+ s := by
  induction r generalizing s s' with
  | empty => simp_all [rests]
  | set p =>
    cases s with
    | nil => simp [rests] at h
    | cons c s =>
      by_cases hc : p c = true <;> simp [rests, hc] at h
      exact h ▸ List.suffix_cons c s
  | many p =>
    simp only [rests] at h
    induction s with
    | nil => simp_all [restsMany]
    | cons c s ih =>
      rw [restsMany, List.mem_append] at h
      rcases h with h | h
      · by_cases hc : p c = true <;> simp [hc] at h
        exact (ih h).trans (List.suffix_cons c s)
      · exact (List.mem_singleton.mp h) ▸ List.suffix_rfl
  | cat a b iha ihb =>
    obtain ⟨s₁, h₁, h₂⟩ := List.mem_flatMap.mp h
    exact (ihb h₂).trans (iha h₁)
  | opt a ih =>
    rcases List.mem_append.mp h with h | h
    · exact ih h
    · exact (List.mem_singleton.mp h) ▸ List.suffix_rfl
  | group a ih => exact ih h

theorem mem_restsMany {p : Char → Bool} {s u : List Char} :
    u ∈ restsMany p s ↔ ∃ l, s = l ++ u ∧ ∀ c ∈ l, p c = true := by
  induction s with
  | nil =>
    rw [restsMany, List.mem_singleton]
    constructor
    · rintro rfl
      exact ⟨[], rfl, by simp⟩
    · rintro ⟨l, hl, -⟩
      exact (List.append_eq_nil_iff.mp hl.symm).2
  | cons c s ih =>
    rw [restsMany, List.mem_append, List.mem_singleton]
    constructor
    · rintro (h | rfl)
      · by_cases hc : p c = true
        · rw [if_pos hc, ih] at h
          obtain ⟨l, rfl, hl⟩ := h
          exact ⟨c :: l, rfl, List.forall_mem_cons.mpr ⟨hc, hl⟩⟩
        · rw [if_neg hc] at h
          cases h
      · exact ⟨[], rfl, by simp⟩
    · rintro ⟨l, hl, hp⟩
      cases l with
      | nil => exact .inr hl.symm
      | cons d l =>
        rw [List.cons_append, List.cons.injEq] at hl
        obtain ⟨rfl, rfl⟩ := hl
        rw [List.forall_mem_cons] at hp
        rw [if_pos hp.1, ih]
        exact .inl ⟨l, rfl, hp.2⟩

theorem mem_rests_set {p : Char → Bool} {s u : List Char} :
    u ∈ (set p).rests s ↔ ∃ c, s = c :: u ∧ p c = true := by
  cases s with
  | nil => simp [rests]
  | cons c s => by_cases hc : p c = true <;> simp [rests, hc, @eq_comm _ u]

theorem mem_rests_many {p : Char → Bool} {s u : List Char} :
    u ∈ (many p).rests s ↔ ∃ l, s = l ++ u ∧ ∀ c ∈ l, p c = true :=
  mem_restsMany

theorem mem_rests_cat {a b : Regex} {s u : List Char} :
    u ∈ (cat a b).rests s ↔ ∃ s', s' ∈ a.rests s ∧ u ∈ b.rests s' :=
  List.mem_flatMap

theorem mem_rests_opt {a : Regex} {s u : List Char} :
    u ∈ (opt a).rests s ↔ u ∈ a.rests s ∨ u = s := by
  rw [rests, List.mem_append, List.mem_singleton]

/-- A pattern does not go past a character it does not have. -/
theorem rests_append {r : Regex} {d : Char} (hr : r.Avoids d) (t s : Place) :
    r.rests (t ++ d :: s) = (r.rests t).map (· ++ d :: s) := by
  induction r generalizing t with
  | empty => rfl
  | set p =>
    cases t with
    | nil => simp [rests, show p d = false from hr]
    | cons c t => by_cases hc : p c = true <;> simp [rests, hc]
  | many p =>
    simp only [rests]
    induction t with
    | nil => simp [restsMany, show p d = false from hr]
    | cons c t ih => by_cases hc : p c = true <;> simp [restsMany, hc, ih]
  | cat a b iha ihb =>
    rw [rests, iha hr.1, List.flatMap_map, rests, List.map_flatMap]
    congr 1
    funext t'
    exact ihb hr.2 t'
  | opt a ih => simp [rests, ih hr]
  | group a ih => simp [rests, ih hr]

/-! ### Fixed texts -/

/-- What is left after a fixed text. -/
def dropText (ci : Bool) : List Char → Place → Option Place
  | [], s => some s
  | _ :: _, [] => none
  | c :: w, d :: s => if sameLetter ci c d then dropText ci w s else none

/-- Without case, a text is taken if it is the same in small letters. -/
theorem dropText_eq_some_iff {w s u : List Char} :
    dropText true w s = some u ↔ ∃ n, s = n ++ u ∧ n.map foldCase = w.map foldCase := by
  induction w generalizing s with
  | nil => simp [dropText, eq_comm]
  | cons c w ih =>
    cases s with
    | nil => simp [dropText]
    | cons d s =>
      rw [dropText]
      constructor
      · intro h
        split_ifs at h with hd
        obtain ⟨n, rfl, hn⟩ := ih.1 h
        exact ⟨d :: n, rfl, by rw [List.map_cons, List.map_cons, hn, beq_iff_eq.1 hd]⟩
      · rintro ⟨n, hs, hn⟩
        cases n with
        | nil => cases hn
        | cons e n =>
          obtain ⟨rfl, rfl⟩ := List.cons.inj hs
          obtain ⟨hd, hn⟩ := List.cons.inj hn
          have hsame : sameLetter true c d = true := beq_iff_eq.2 hd
          rw [if_pos hsame]
          exact ih.2 ⟨n, rfl, hn⟩

/-- A fixed text that ends before a character it does not have. -/
theorem dropText_append {ci : Bool} {w : List Char} {d : Char}
    (hd : ∀ c ∈ w, sameLetter ci c d = false) (t s : List Char) :
    dropText ci w (t ++ d :: s) = (dropText ci w t).map (· ++ d :: s) := by
  induction w generalizing t with
  | nil => rfl
  | cons c w ih =>
    cases t with
    | nil => simp [dropText, hd c List.mem_cons_self]
    | cons e t =>
      simp only [List.cons_append, dropText]
      split_ifs
      · exact ih (fun c hc => hd c (List.mem_cons_of_mem _ hc)) t
      · rfl

/-- Without case, a text is taken from small letters if it begins them in small letters. -/
theorem isSome_dropText {w s : List Char} (hs : ∀ c ∈ s, foldCase c = c) :
    (dropText true w s).isSome = (w.map foldCase).isPrefixOf s := by
  induction w generalizing s with
  | nil => rfl
  | cons c w ih =>
    cases s with
    | nil => rfl
    | cons d s =>
      rw [List.forall_mem_cons] at hs
      have hsame : sameLetter true c d = (foldCase c == d) := by
        show (foldCase d == foldCase c) = _
        rw [hs.1, Bool.beq_comm]
      rw [dropText, hsame, List.map_cons, List.isPrefixOf, ← ih hs.2]
      cases foldCase c == d <;> rfl

theorem toNat_of_isAlphanum {c : Char} (h : c.isAlphanum = true) :
    0x30 ≤ c.toNat ∧ c.toNat ≤ 0x7A := by
  delta Char.isAlphanum Char.isAlpha Char.isUpper Char.isLower Char.isDigit at h
  simp only [Bool.or_eq_true, Bool.and_eq_true, decide_eq_true_eq] at h
  have htoNat : c.toNat = c.val.toNat := rfl
  simp only [ge_iff_le, UInt32.le_iff_toNat_le, ← htoNat] at h
  rcases h with (⟨h1, h2⟩ | ⟨h1, h2⟩) | ⟨h1, h2⟩
  · exact ⟨Nat.le_trans (by decide) h1, Nat.le_trans h2 (by decide)⟩
  · exact ⟨Nat.le_trans (by decide) h1, Nat.le_trans h2 (by decide)⟩
  · exact ⟨Nat.le_trans (by decide) h1, Nat.le_trans h2 (by decide)⟩

theorem foldCase_of_isLower {c : Char} (h : c.isLower = true) : foldCase c = c := by
  have hk : c ≠ '\u212a' := by rintro rfl; exact absurd h (by decide)
  have hs : c ≠ '\u017f' := by rintro rfl; exact absurd h (by decide)
  rw [foldCase, if_neg hk, if_neg hs]
  delta Char.isLower at h
  simp only [Bool.and_eq_true, decide_eq_true_eq] at h
  delta Char.toLower
  rw [dif_neg]
  rintro ⟨-, hz⟩
  exact absurd (UInt32.le_trans h.1 hz) (by decide)

theorem rests_text (ci : Bool) (w : List Char) (s : Place) :
    (text ci w).rests s = (dropText ci w s).toList := by
  induction w generalizing s with
  | nil => rfl
  | cons c w ih =>
    cases s with
    | nil => rfl
    | cons d s => by_cases hd : sameLetter ci c d = true <;> simp [text, rests, dropText, hd, ih]

theorem groupFree_text (ci : Bool) (w : List Char) : (text ci w).GroupFree := by
  induction w with
  | nil => trivial
  | cons c w ih => exact ⟨trivial, ih⟩

theorem avoids_text {ci : Bool} {w : List Char} {d : Char}
    (h : ∀ c ∈ w, sameLetter ci c d = false) : (text ci w).Avoids d := by
  induction w with
  | nil => trivial
  | cons c w ih =>
    exact ⟨h c List.mem_cons_self, ih fun e he => h e (List.mem_cons_of_mem _ he)⟩

theorem slice_append (u s : List Char) : slice (u ++ s) s = u := by
  rw [slice, List.length_append, Nat.add_sub_cancel, List.take_left]

/-! ### Characters at which a text is cut -/

section Cut

variable {α : Type} {a : α} {x x' z z' : List α}

/-- There is one way to cut at the first of some elements. -/
theorem cut_first (hx : a ∉ x) (hx' : a ∉ x') (h : x ++ a :: z = x' ++ a :: z') :
    x = x' ∧ z = z' := by
  induction x generalizing x' with
  | nil =>
    cases x' with
    | nil => exact ⟨rfl, (List.cons.inj h).2⟩
    | cons b x' => exact absurd ((List.cons.inj h).1 ▸ List.mem_cons_self) hx'
  | cons b x ih =>
    cases x' with
    | nil => exact absurd ((List.cons.inj h).1 ▸ List.mem_cons_self) hx
    | cons b' x' =>
      rw [List.mem_cons, not_or] at hx hx'
      obtain ⟨hb, htail⟩ := List.cons.inj h
      obtain ⟨hxx, hzz⟩ := ih hx.2 hx'.2 htail
      exact ⟨hb ▸ hxx ▸ rfl, hzz⟩

/-- There is one way to cut at the last of some elements. -/
theorem cut_last (hz : a ∉ z) (hz' : a ∉ z') (h : x ++ a :: z = x' ++ a :: z') :
    x = x' ∧ z = z' := by
  have hrev : z.reverse ++ a :: x.reverse = z'.reverse ++ a :: x'.reverse := by
    simpa using congrArg List.reverse h
  obtain ⟨hzz, hxx⟩ := cut_first (by simpa using hz) (by simpa using hz') hrev
  exact ⟨List.reverse_injective hxx, List.reverse_injective hzz⟩

end Cut

/-! ### Searching -/

section Search

variable {r : Regex}

/-- The match of a pattern that can match in one way only. -/
theorem matchAt_eq_some_iff (hr : r.GroupFree) {s : Place} {m : Match}
    (h : ∀ u ∈ r.rests s, ∀ u' ∈ r.rests s, u = u') :
    r.matchAt s = some m ↔ ∃ u ∈ r.rests s, m = ⟨s, [], u⟩ := by
  rw [matchAt, exec_eq_findSome? hr]
  cases hrests : r.rests s with
  | nil => simp
  | cons v l =>
    have hv : ∀ u ∈ v :: l, u = v := fun u hu =>
      h u (hrests ▸ hu) v (hrests ▸ List.mem_cons_self)
    constructor
    · rintro ⟨⟩
      exact ⟨v, List.mem_cons_self, rfl⟩
    · rintro ⟨u, hu, rfl⟩
      rw [hv u hu]
      rfl

theorem find_cons_of_none {c : Char} {s : Place} (h : r.matchAt (c :: s) = none) :
    r.find (c :: s) = r.find s := by
  rw [find, h, Option.none_or]

/-- Text in which the pattern cannot begin is passed over. -/
theorem find_append {u : List Char} (h : ∀ c ∈ u, ∀ s, r.matchAt (c :: s) = none) (s : Place) :
    r.find (u ++ s) = r.find s := by
  induction u with
  | nil => rfl
  | cons c u ih =>
    rw [List.cons_append, find_cons_of_none (h c List.mem_cons_self _)]
    exact ih fun d hd => h d (List.mem_cons_of_mem _ hd)

theorem findIterFrom_length (u s : List Char) :
    r.findIterFrom u.length (u ++ s) = r.findIter s := by
  induction u with
  | nil => rfl
  | cons c u ih => exact ih

theorem findIter_cons_of_none {c : Char} {s : Place} (h : r.matchAt (c :: s) = none) :
    r.findIter (c :: s) = r.findIter s := by
  rw [findIter, findIterFrom, h]
  rfl

/-- After a match the search goes on where the match ends. -/
theorem findIter_of_some {c : Char} {u s : List Char} {m : Match}
    (h : r.matchAt (c :: (u ++ s)) = some m) (hs : m.stop = s) :
    r.findIter (c :: (u ++ s)) = m :: r.findIter s := by
  have hlen : (u ++ s).length - m.stop.length = u.length := by
    rw [hs, List.length_append, Nat.add_sub_cancel]
  rw [findIter, findIterFrom, h]
  show m :: r.findIterFrom _ (u ++ s) = _
  rw [hlen, findIterFrom_length]

theorem findIter_append {u : List Char} (h : ∀ c ∈ u, ∀ s, r.matchAt (c :: s) = none) (s : Place) :
    r.findIter (u ++ s) = r.findIter s := by
  induction u with
  | nil => rfl
  | cons c u ih =>
    rw [List.cons_append, findIter_cons_of_none (h c List.mem_cons_self _)]
    exact ih fun d hd => h d (List.mem_cons_of_mem _ hd)

/-- Text at whose characters the pattern does not match is passed over. -/
theorem find_append_of_none {u s : Place}
    (h : ∀ c v w, u = v ++ c :: w → r.matchAt (c :: w ++ s) = none) :
    r.find (u ++ s) = r.find s := by
  induction u with
  | nil => rfl
  | cons c u ih =>
    have hc : r.matchAt (c :: (u ++ s)) = none := h c [] u rfl
    rw [List.cons_append, find_cons_of_none hc]
    refine ih fun d v w huv => h d (c :: v) w ?_
    rw [huv, List.cons_append]

theorem find_of_matchAt {s : Place} {m : Match} (h : r.matchAt s = some m) : r.find s = some m := by
  cases s with
  | nil => exact h
  | cons c s => rw [find, h, Option.some_or]

/-- The pattern matches nowhere before the leftmost match. -/
theorem exists_of_find {s : Place} {m : Match} (h : r.find s = some m) :
    ∃ u p, s = u ++ p ∧ r.matchAt p = some m ∧
      ∀ v q, s = v ++ q → v.length < u.length → r.matchAt q = none := by
  induction s with
  | nil => exact ⟨[], [], rfl, h, fun v q _ hv => absurd hv (Nat.not_lt_zero _)⟩
  | cons c s ih =>
    cases hc : r.matchAt (c :: s) with
    | some m' =>
      rw [find, hc, Option.some_or] at h
      exact ⟨[], c :: s, rfl, h ▸ hc, fun v q _ hv => absurd hv (Nat.not_lt_zero _)⟩
    | none =>
      rw [find_cons_of_none hc] at h
      obtain ⟨u, p, rfl, hp, hbefore⟩ := ih h
      refine ⟨c :: u, p, rfl, hp, fun v q hvq hv => ?_⟩
      cases v with
      | nil =>
        rw [List.nil_append] at hvq
        rw [← hvq, hc]
      | cons d v => exact hbefore v q (List.cons.inj hvq).2 (Nat.lt_of_succ_lt_succ hv)

theorem find_ne_none_iff {s : Place} :
    r.find s ≠ none ↔ ∃ p m, p <:+ s ∧ r.matchAt p = some m := by
  induction s with
  | nil => simp [find, Option.ne_none_iff_exists']
  | cons c s ih =>
    rw [find]
    cases hc : r.matchAt (c :: s) with
    | some m => exact iff_of_true (by simp) ⟨c :: s, m, List.suffix_rfl, hc⟩
    | none =>
      rw [Option.none_or, ih]
      constructor
      · rintro ⟨p, m, hp, hm⟩
        exact ⟨p, m, hp.trans (List.suffix_cons c s), hm⟩
      · rintro ⟨p, m, hp, hm⟩
        rcases List.suffix_cons_iff.1 hp with rfl | hp
        · rw [hc] at hm
          cases hm
        · exact ⟨p, m, hp, hm⟩

/-! ### Matches one after the other -/

/-- A match begins where it is looked for and is not empty. -/
def Advances (r : Regex) : Prop :=
  ∀ s m, r.matchAt s = some m → m.start = s ∧ ∃ c u, s = c :: (u ++ m.stop)

theorem mem_findIterFrom {n : ℕ} {s : Place} {m : Match} (h : m ∈ r.findIterFrom n s) :
    ∃ p, p <:+ s ∧ r.matchAt p = some m := by
  induction s generalizing n with
  | nil => cases n <;> cases h
  | cons c s ih =>
    have hrest : ∀ {n}, m ∈ r.findIterFrom n s → ∃ p, p <:+ c :: s ∧ r.matchAt p = some m := by
      intro n hm
      obtain ⟨p, hp, hm⟩ := ih hm
      exact ⟨p, hp.trans (List.suffix_cons c s), hm⟩
    cases n with
    | succ n => exact hrest h
    | zero =>
      rw [findIterFrom] at h
      cases hc : r.matchAt (c :: s) with
      | none =>
        rw [hc] at h
        exact hrest h
      | some m' =>
        rw [hc] at h
        rcases List.mem_cons.1 h with rfl | h
        · exact ⟨c :: s, List.suffix_rfl, hc⟩
        · exact hrest h

/-- The matches are in the order in which they begin. -/
theorem pairwise_findIterFrom (hr : r.Advances) (n : ℕ) (s : Place) :
    (r.findIterFrom n s).Pairwise fun m m' => m'.start.length < m.start.length := by
  induction s generalizing n with
  | nil => cases n <;> exact .nil
  | cons c s ih =>
    cases n with
    | succ n => exact ih n
    | zero =>
      rw [findIterFrom]
      cases hc : r.matchAt (c :: s) with
      | none => exact ih 0
      | some m =>
        refine .cons (fun m' hm' => ?_) (ih _)
        obtain ⟨p, hp, hpm⟩ := mem_findIterFrom hm'
        rw [(hr _ _ hc).1, (hr _ _ hpm).1]
        exact Nat.lt_succ_of_le hp.length_le

/-- A place at which the pattern matches is in one of the matches. -/
theorem exists_mem_findIter (hr : r.Advances) {p s : Place} {m : Match} (hp : p <:+ s)
    (hm : r.matchAt p = some m) :
    ∃ m' ∈ r.findIter s, p <:+ m'.start ∧ m'.stop.length < p.length := by
  induction hn : s.length using Nat.strong_induction_on generalizing s with
  | _ n ih =>
    cases s with
    | nil =>
      obtain rfl := List.suffix_nil.1 hp
      obtain ⟨c, u, h⟩ := (hr _ _ hm).2
      cases h
    | cons c s =>
      cases hc : r.matchAt (c :: s) with
      | none =>
        rw [findIter_cons_of_none hc]
        rcases List.suffix_cons_iff.1 hp with rfl | hp
        · rw [hc] at hm
          cases hm
        · exact ih s.length (by rw [← hn]; exact Nat.lt_succ_self _) hp rfl
      | some m' =>
        obtain ⟨hstart, d, u, hsplit⟩ := hr _ _ hc
        obtain ⟨rfl, rfl⟩ := List.cons.inj hsplit
        rw [findIter_of_some hc rfl]
        by_cases hlen : m'.stop.length < p.length
        · exact ⟨m', List.mem_cons_self, hstart ▸ hp, hlen⟩
        · have hstop : p <:+ m'.stop :=
            List.suffix_of_suffix_length_le hp ⟨c :: u, rfl⟩ (Nat.le_of_not_lt hlen)
          have hshort : m'.stop.length < n := by
            rw [← hn, List.length_cons, List.length_append]
            omega
          obtain ⟨m'', hm'', h⟩ := ih _ hshort hstop rfl
          exact ⟨m'', List.mem_cons_of_mem _ hm'', h⟩

end Search

/-! ### What is taken -/

/-- The pattern takes the text and closes these groups on the way. -/
inductive Takes : Regex → List Char → List (List Char) → Prop
  | empty : Takes empty [] []
  | set {p : Char → Bool} {c : Char} (hc : p c = true) : Takes (set p) [c] []
  | many {p : Char → Bool} {w : List Char} (hw : ∀ c ∈ w, p c = true) : Takes (many p) w []
  | cat {a b : Regex} {v w : List Char} {gs hs : List (List Char)} (ha : Takes a v gs)
      (hb : Takes b w hs) : Takes (cat a b) (v ++ w) (gs ++ hs)
  | skip {a : Regex} : Takes (opt a) [] []
  | opt {a : Regex} {w : List Char} {gs : List (List Char)} (ha : Takes a w gs) :
      Takes (opt a) w gs
  | group {a : Regex} {w : List Char} {gs : List (List Char)} (ha : Takes a w gs) :
      Takes (group a) w (gs ++ [w])

end Regex
