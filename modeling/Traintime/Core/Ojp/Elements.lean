import Mathlib.Data.List.Perm.Subperm
import Traintime.Core.Ojp.Tags
import Traintime.Lib.Xml.Parts

/-!
# Blocks and elements

`xml_blocks` of `core/src/ojp.rs` on any XML document: whether its blocks are the elements with the
name that is asked for. The open pattern goes on after the name with anything, and both patterns
look into comments and CDATA sections as well, so this depends on the rest of the document.

## Main definitions

* `Named`: the names that are asked for, in any case and with any prefix.
* `Taken`: those that the patterns take.
* `Delimits`: nothing but the elements looks like one.

## Main results

* `matchAt_openTag_iff`, `matchAt_closeTag_iff`: what the patterns match.
* `xmlBlocks_eq_elements_iff`: when the blocks are the elements.
-/

namespace Traintime.Ojp

open Regex
open Xml (Name Part textList elementsList localName startTag endTag)

/-! ### Names -/

/-- The local name is the tag, in any case. -/
def Named (tag : String) (name : Name) : Bool :=
  (localName name).map foldCase == tag.toList.map foldCase

/-- A name that the patterns take: the tag in any case, with no prefix or one of letters. -/
def Taken (tag : String) (n : List Char) : Prop :=
  n.map foldCase = tag.toList.map foldCase ∨
    ∃ p m, n = p ++ ':' :: m ∧ p ≠ [] ∧ (∀ c ∈ p, isLower true c = true) ∧
      m.map foldCase = tag.toList.map foldCase

/-- What looks like the start of an element, up to the first `>` after it. -/
def Opening (tag : String) (s after : List Char) : Prop :=
  ∃ n w, Taken tag n ∧ '>' ∉ w ∧ s = '<' :: (n ++ (w ++ '>' :: after))

/-- What looks like the end of an element. -/
def Closing (tag : String) (s after : List Char) : Prop :=
  ∃ n, Taken tag n ∧ s = '<' :: '/' :: (n ++ '>' :: after)

/-- Something in the text looks like the end of an element. -/
def HasClosing (tag : String) (s : List Char) : Prop := ∃ p after, p <:+ s ∧ Closing tag p after

/-- A tag of letters, digits, hyphens and underscores, which stand for themselves in a pattern. -/
def IsTag (tag : String) : Prop :=
  (tag.toList.all fun c => c.isAlphanum || c == '-' || c == '_') = true

instance (tag : String) : Decidable (IsTag tag) := inferInstanceAs (Decidable (_ = true))

/-- The elements with the tag, each with what follows it. -/
def elementsOf (tag : String) (doc : List Part) : List (Part × List Char) :=
  elementsList (Named tag) [] doc

/-- Nothing but the elements with the tag looks like one. -/
structure Delimits (tag : String) (doc : List Part) : Prop where
  /-- An element has no prefix or one of letters, and no white space in its end tag. -/
  ends : ∀ name inside content space after,
    (.element name inside content space, after) ∈ elementsOf tag doc →
      Taken tag name.val ∧ space.val = []
  /-- Nothing in its content looks like its end. -/
  inside : ∀ name inside content space after,
    (.element name inside content space, after) ∈ elementsOf tag doc →
      ¬ HasClosing tag (textList content)
  /-- After anything else that looks like its start nothing looks like its end. -/
  outside : ∀ s after, s <:+ textList doc → Opening tag s after →
    (∀ e ∈ elementsOf tag doc, s ≠ e.1.text ++ e.2) → ¬ HasClosing tag after

/-! ### What the patterns take -/

section Patterns

variable {tag : String} {s u n l after after' : List Char} {m : Match}

/-- The characters that end names and prefixes. -/
def nameEnds : List Char := ['<', '>', '/', ':', ' ', '\t', '\n', '\r']

/-- The ends of names and prefixes are in no tag, in any case. -/
theorem foldCase_ne {c d : Char} (hd : (d.isAlphanum || d == '-' || d == '_') = true)
    (hc : c ∈ nameEnds) : foldCase c ≠ foldCase d := by
  have hlt : d.toNat < 128 := by
    rw [Bool.or_eq_true, Bool.or_eq_true, beq_iff_eq, beq_iff_eq] at hd
    rcases hd with (hd | rfl) | rfl
    · exact Nat.lt_of_le_of_lt (toNat_of_isAlphanum hd).2 (by decide)
    · decide
    · decide
  have hall : (List.range 128).all (fun n => nameEnds.all fun c =>
      !((Char.ofNat n).isAlphanum || Char.ofNat n == '-' || Char.ofNat n == '_') ||
        foldCase c != foldCase (Char.ofNat n)) = true := by decide +kernel
  have h := List.all_eq_true.1 (List.all_eq_true.1 hall d.toNat (List.mem_range.2 hlt)) c hc
  rw [Char.ofNat_toNat, hd, Bool.not_true, Bool.false_or, bne_iff_ne] at h
  exact h

theorem mem_rests_tagName_iff_taken :
    u ∈ (tagName true tag.toList).rests s ↔ ∃ n, Taken tag n ∧ s = n ++ u := by
  rw [mem_rests_tagName]
  simp only [dropText_eq_some_iff]
  constructor
  · rintro (⟨p, _, rfl, hne, hp, m, rfl, hm⟩ | ⟨n, rfl, hn⟩)
    · exact ⟨p ++ ':' :: m, .inr ⟨p, m, rfl, hne, hp, hm⟩, by simp⟩
    · exact ⟨n, .inl hn, rfl⟩
  · rintro ⟨n, hn | ⟨p, m, rfl, hne, hp, hm⟩, rfl⟩
    · exact .inr ⟨n, rfl, hn⟩
    · exact .inl ⟨p, m ++ u, by simp, hne, hp, m, rfl, hm⟩

variable (htag : IsTag tag)

include htag

theorem not_mem_of_map_foldCase {c : Char} (hn : n.map foldCase = tag.toList.map foldCase)
    (hc : c ∈ nameEnds) : c ∉ n := by
  intro h
  have hmem : foldCase c ∈ n.map foldCase := List.mem_map_of_mem h
  rw [hn] at hmem
  obtain ⟨d, hd, heq⟩ := List.mem_map.1 hmem
  exact foldCase_ne (List.all_eq_true.1 htag d hd) hc heq.symm

/-- A name has none of the characters that end one. -/
theorem Taken.not_mem {c : Char} (h : Taken tag n) (hc : c ∈ nameEnds) (hcolon : c ≠ ':') :
    c ∉ n := by
  rcases h with h | ⟨p, m, rfl, -, hp, hm⟩
  · exact not_mem_of_map_foldCase htag h hc
  · have hlower : (nameEnds.all fun c => !isLower true c) = true := by decide
    rw [List.mem_append, List.mem_cons]
    rintro (h | h | h)
    · have hfalse := List.all_eq_true.1 hlower c hc
      rw [hp c h] at hfalse
      cases hfalse
    · exact hcolon h
    · exact not_mem_of_map_foldCase htag hm hc h

theorem Taken.open_not_mem (h : Taken tag n) : '<' ∉ n := h.not_mem htag (by decide) (by decide)

theorem Taken.close_not_mem (h : Taken tag n) : '>' ∉ n := h.not_mem htag (by decide) (by decide)

/-- What looks like a start goes up to the first `>`. -/
theorem Opening.exists_eq (h : Opening tag s after) : ∃ v, '>' ∉ v ∧ s = v ++ '>' :: after := by
  obtain ⟨n, w, hn, hw, rfl⟩ := h
  refine ⟨'<' :: (n ++ w), ?_, by simp⟩
  rw [List.mem_cons, List.mem_append]
  rintro (h | h | h)
  · exact absurd h (by decide)
  · exact hn.close_not_mem htag h
  · exact hw h

theorem Opening.unique (h : Opening tag s after) (h' : Opening tag s after') : after = after' := by
  obtain ⟨v, hv, rfl⟩ := h.exists_eq htag
  obtain ⟨v', hv', hs⟩ := h'.exists_eq htag
  exact (cut_first hv hv' hs).2

theorem Closing.unique (h : Closing tag s after) (h' : Closing tag s after') : after = after' := by
  obtain ⟨n, hn, rfl⟩ := h
  obtain ⟨n', hn', h⟩ := h'
  simp only [List.cons.injEq, true_and] at h
  exact (cut_first (hn.close_not_mem htag) (hn'.close_not_mem htag) h).2

theorem matchAt_openTag_iff : (openTag (tagName true tag.toList)).matchAt s = some m ↔
    ∃ after, Opening tag s after ∧ m = ⟨s, [], after⟩ := by
  have hrests : ∀ u, u ∈ (openTag (tagName true tag.toList)).rests s ↔ Opening tag s u := by
    intro u
    simp only [openTag, Regex.char, mem_rests_cat, mem_rests_set, mem_rests_many,
      mem_rests_tagName_iff_taken, beq_iff_eq, bne_iff_ne]
    constructor
    · rintro ⟨_, ⟨_, rfl, rfl⟩, _, ⟨n, hn, rfl⟩, _, ⟨w, rfl, hw⟩, _, rfl, rfl⟩
      exact ⟨n, w, hn, fun h => hw _ h rfl, rfl⟩
    · rintro ⟨n, w, hn, hw, rfl⟩
      exact ⟨_, ⟨_, rfl, rfl⟩, _, ⟨n, hn, rfl⟩, _,
        ⟨w, rfl, fun c hc hc' => hw (hc' ▸ hc)⟩, _, rfl, rfl⟩
  have hgroups : (openTag (tagName true tag.toList)).GroupFree :=
    ⟨trivial, groupFree_tagName true tag.toList, trivial, trivial⟩
  rw [matchAt_eq_some_iff hgroups fun u hu u' hu' =>
    ((hrests u).1 hu).unique htag ((hrests u').1 hu')]
  simp only [hrests]

theorem matchAt_closeTag_iff : (closeTag (tagName true tag.toList)).matchAt s = some m ↔
    ∃ after, Closing tag s after ∧ m = ⟨s, [], after⟩ := by
  have hrests : ∀ u, u ∈ (closeTag (tagName true tag.toList)).rests s ↔ Closing tag s u := by
    intro u
    simp only [closeTag, Regex.char, mem_rests_cat, mem_rests_set, mem_rests_tagName_iff_taken,
      beq_iff_eq]
    constructor
    · rintro ⟨_, ⟨_, rfl, rfl⟩, _, ⟨_, rfl, rfl⟩, _, ⟨n, hn, rfl⟩, _, rfl, rfl⟩
      exact ⟨n, hn, rfl⟩
    · rintro ⟨n, hn, rfl⟩
      exact ⟨_, ⟨_, rfl, rfl⟩, _, ⟨_, rfl, rfl⟩, _, ⟨n, hn, rfl⟩, _, rfl, rfl⟩
  have hgroups : (closeTag (tagName true tag.toList)).GroupFree :=
    ⟨trivial, trivial, groupFree_tagName true tag.toList, trivial⟩
  rw [matchAt_eq_some_iff hgroups fun u hu u' hu' =>
    ((hrests u).1 hu).unique htag ((hrests u').1 hu')]
  simp only [hrests]

theorem advances_openTag : (openTag (tagName true tag.toList)).Advances := by
  intro s m h
  obtain ⟨after, ⟨n, w, -, -, hs⟩, rfl⟩ := (matchAt_openTag_iff htag).1 h
  exact ⟨rfl, '<', n ++ (w ++ ['>']), by simp [hs]⟩

end Patterns

/-! ### The search for an end -/

section Search

variable {tag : String} {s u l after : List Char} {m : Match}

theorem Closing.append_right (h : Closing tag s after) (l : List Char) :
    Closing tag (s ++ l) (after ++ l) := by
  obtain ⟨n, hn, rfl⟩ := h
  exact ⟨n, hn, by simp⟩

theorem not_hasClosing_of_not_mem (h : '<' ∉ l) : ¬ HasClosing tag l := by
  rintro ⟨p, after, hp, n, -, rfl⟩
  exact h (hp.subset List.mem_cons_self)

variable (htag : IsTag tag)

include htag

/-- What looks like an end has no tag in it. -/
theorem Closing.eq_nil {v w : List Char} (h : Closing tag (v ++ '<' :: (w ++ after)) after) :
    v = [] := by
  obtain ⟨n, hn, hs⟩ := h
  cases v with
  | nil => rfl
  | cons c v =>
    have hcancel : v ++ '<' :: w ++ after = '/' :: (n ++ ['>']) ++ after := by
      simpa using (List.cons.inj hs).2
    have hmem : '<' ∈ '/' :: (n ++ ['>']) :=
      List.append_cancel_right hcancel ▸ List.mem_append_right v List.mem_cons_self
    simp [hn.open_not_mem htag] at hmem

theorem find_closeTag_ne_none_iff :
    (closeTag (tagName true tag.toList)).find s ≠ none ↔ HasClosing tag s := by
  simp only [find_ne_none_iff, matchAt_closeTag_iff htag, HasClosing]
  constructor
  · rintro ⟨p, _, hp, after, hclose, -⟩
    exact ⟨p, after, hp, hclose⟩
  · rintro ⟨p, after, hp, hclose⟩
    exact ⟨p, _, hp, after, hclose, rfl⟩

/-- What looks like an end and begins in a text whose tags are closed ends there. -/
theorem hasClosing_of_settled {v w : List Char} (hu : Xml.Settled (u ++ v)) (hv : v ≠ [])
    (h : Closing tag (v ++ w) after) : HasClosing tag (u ++ v) := by
  obtain ⟨n, hn, hvw⟩ := h
  obtain ⟨c, v, rfl⟩ := List.exists_cons_of_ne_nil hv
  obtain ⟨rfl, hrest⟩ := List.cons.inj hvw
  obtain ⟨v, v', rfl, hv'⟩ := List.eq_append_cons_of_mem (hu u v rfl)
  have hslash : '>' ∉ '/' :: n := by
    rw [List.mem_cons, not_or]
    exact ⟨by decide, hn.close_not_mem htag⟩
  have hcut : v ++ '>' :: (v' ++ w) = ('/' :: n) ++ '>' :: after := by
    simpa using hrest
  obtain ⟨rfl, -⟩ := cut_first hv' hslash hcut
  exact ⟨_, v', List.suffix_append u _, n, hn, rfl⟩

/-- A text whose tags are closed and in which nothing looks like an end is passed over. -/
theorem find_closeTag_append (hu : Xml.Settled u) (h : ¬ HasClosing tag u) (s : List Char) :
    (closeTag (tagName true tag.toList)).find (u ++ s) =
      (closeTag (tagName true tag.toList)).find s := by
  refine find_append_of_none ?_
  rintro c v w rfl
  rw [Option.eq_none_iff_forall_ne_some]
  intro m hm
  obtain ⟨after, hclose, -⟩ := (matchAt_closeTag_iff htag).1 hm
  exact h (hasClosing_of_settled htag hu (List.cons_ne_nil c w) hclose)

/-! ### The search for starts -/

/-- Nothing that is passed over before the first `>` has one. -/
theorem Opening.not_mem {x : List Char} (h : Opening tag (x ++ s) after)
    (hlen : after.length < s.length) : '>' ∉ x := by
  obtain ⟨v, hv, hsplit⟩ := h.exists_eq htag
  have hpre : x <+: v := by
    refine List.prefix_of_prefix_length_le (List.prefix_append x s) ⟨'>' :: after, hsplit.symm⟩ ?_
    have hlength := congrArg List.length hsplit
    simp only [List.length_append, List.length_cons] at hlength
    omega
  exact fun h => hv (hpre.subset h)

theorem mem_findIter_openTag (h : m ∈ (openTag (tagName true tag.toList)).findIter l) :
    m.start <:+ l ∧ Opening tag m.start m.stop ∧ m.groups = [] := by
  obtain ⟨p, hp, hm⟩ := mem_findIterFrom h
  obtain ⟨after, hopen, rfl⟩ := (matchAt_openTag_iff htag).1 hm
  exact ⟨hp, hopen, rfl⟩

/-- What looks like a start is in a match that ends where it does. -/
theorem exists_match_of_opening (hs : s <:+ l) (h : Opening tag s after) :
    ∃ x, '>' ∉ x ∧ (⟨x ++ s, [], after⟩ : Match) ∈
      (openTag (tagName true tag.toList)).findIter l := by
  have hmatch := (matchAt_openTag_iff htag).2 ⟨after, h, rfl⟩
  obtain ⟨⟨_, groups, stop⟩, hm, ⟨x, rfl⟩, hlen⟩ :=
    exists_mem_findIter (advances_openTag htag) hs hmatch
  obtain ⟨-, hopen, rfl⟩ := mem_findIter_openTag htag hm
  have hnot := hopen.not_mem htag hlen
  obtain ⟨v, hv, hsplit⟩ := hopen.exists_eq htag
  obtain ⟨v', hv', rfl⟩ := h.exists_eq htag
  have hstop : stop = after := by
    rw [← List.append_assoc] at hsplit
    exact (cut_first hv (List.not_mem_append hnot hv') hsplit.symm).2
  exact ⟨x, hnot, hstop ▸ hm⟩

/-- After a text whose tags are closed, what looks like a start is a match. -/
theorem mem_findIter_of_settled (hu : Xml.Settled u) (h : Opening tag s after) :
    (⟨s, [], after⟩ : Match) ∈ (openTag (tagName true tag.toList)).findIter (u ++ s) := by
  obtain ⟨x, hx, hm⟩ := exists_match_of_opening htag (List.suffix_append u s) h
  cases x with
  | nil => exact hm
  | cons c x =>
    obtain ⟨⟨y, hy⟩, ⟨n, w, -, -, hstart⟩, -⟩ := mem_findIter_openTag htag hm
    obtain ⟨rfl, -⟩ := List.cons.inj hstart
    have hsplit : u = y ++ '<' :: x := by
      have hcancel : y ++ '<' :: x ++ s = u ++ s := by simpa using hy
      exact (List.append_cancel_right hcancel).symm
    exact absurd (List.mem_cons_of_mem _ (hu y x hsplit)) hx

end Search

/-! ### Lists in the order of places -/

section Order

variable {α : Type} {x y : List (List α × List α)}

/-- Lists in the order of places are the same if they have the same elements. -/
theorem eq_of_mem_iff (hx : x.Pairwise fun a b => b.1.length < a.1.length)
    (hy : y.Pairwise fun a b => b.1.length < a.1.length) (h : ∀ a, a ∈ x ↔ a ∈ y) : x = y := by
  have hnodup : ∀ {z : List (List α × List α)},
      z.Pairwise (fun a b => b.1.length < a.1.length) → z.Nodup := fun hz =>
    hz.imp fun hlt heq => (heq ▸ hlt).false
  refine List.Perm.eq_of_pairwise (fun a b _ _ hab hba => absurd hab hba.not_gt) hx hy ?_
  exact (List.perm_ext_iff_of_nodup (hnodup hx) (hnodup hy)).2 h

/-- Lists in the order of places are the same if all places of one are in the other, and the things
at them are the same in order. -/
theorem eq_of_map_snd_eq (hx : x.Pairwise fun a b => b.1.length < a.1.length)
    (hy : y.Pairwise fun a b => b.1.length < a.1.length)
    (hsub : y.map Prod.fst ⊆ x.map Prod.fst) (h : x.map Prod.snd = y.map Prod.snd) : x = y := by
  have hlen : x.length = y.length := by simpa using congrArg List.length h
  have hfst : ∀ {z : List (List α × List α)}, z.Pairwise (fun a b => b.1.length < a.1.length) →
      (z.map Prod.fst).Pairwise fun a b => b.length < a.length := fun hz => List.pairwise_map.2 hz
  have hnodup : (y.map Prod.fst).Nodup := (hfst hy).imp fun hlt heq => (heq ▸ hlt).false
  have hperm : (y.map Prod.fst).Perm (x.map Prod.fst) :=
    (List.subperm_of_subset hnodup hsub).perm_of_length_le (by simp [hlen])
  have hplaces : x.map Prod.fst = y.map Prod.fst :=
    List.Perm.eq_of_pairwise (fun a b _ _ hab hba => absurd hab hba.not_gt) (hfst hx) (hfst hy)
      hperm.symm
  exact (List.zip_of_prod hplaces h).trans (List.zip_of_prod rfl rfl).symm

end Order

/-! ### Blocks -/

section Blocks

variable {tag : String} {s l b after : List Char}

/-- The blocks, each with the place at which it begins. -/
def found (tag : String) (xml : List Char) : List (List Char × List Char) :=
  ((openTag (tagName true tag.toList)).findIter xml).filterMap fun openMatch =>
    ((closeTag (tagName true tag.toList)).find openMatch.stop).map fun closeMatch =>
      (openMatch.start, slice openMatch.start closeMatch.stop)

theorem map_snd_found (tag : String) (xml : List Char) :
    (found tag xml).map Prod.snd = xmlBlocks xml tag := by
  rw [found, xmlBlocks, List.map_filterMap]
  simp only [Option.map_map]
  rfl

variable (htag : IsTag tag)

include htag

/-- The blocks are in the order in which they begin. -/
theorem pairwise_found : (found tag l).Pairwise fun x y => y.1.length < x.1.length := by
  refine List.Pairwise.filterMap _ ?_ (pairwise_findIterFrom (advances_openTag htag) 0 l)
  intro m m' hlt x hx y hy
  obtain ⟨c, -, rfl⟩ := Option.map_eq_some_iff.1 hx
  obtain ⟨c', -, rfl⟩ := Option.map_eq_some_iff.1 hy
  exact hlt

theorem mem_found_iff : (s, b) ∈ found tag l ↔ ∃ after c,
    (⟨s, [], after⟩ : Match) ∈ (openTag (tagName true tag.toList)).findIter l ∧
      (closeTag (tagName true tag.toList)).find after = some c ∧ slice s c.stop = b := by
  simp only [found, List.mem_filterMap, Option.map_eq_some_iff, Prod.mk.injEq]
  constructor
  · rintro ⟨⟨_, groups, after⟩, hm, c, hc, rfl, hb⟩
    obtain ⟨-, -, rfl⟩ := mem_findIter_openTag htag hm
    exact ⟨after, c, hm, hc, hb⟩
  · rintro ⟨after, c, hm, hc, hb⟩
    exact ⟨_, hm, c, hc, rfl, hb⟩

/-- A block goes from what looks like a start up to what first looks like an end after it. -/
theorem exists_of_mem_found (h : (s, b) ∈ found tag l) :
    s <:+ l ∧ ∃ after, Opening tag s after ∧ ∃ u p stop, after = u ++ p ∧ Closing tag p stop ∧
      s = b ++ stop ∧
      ∀ v q stop', after = v ++ q → Closing tag q stop' → u.length ≤ v.length := by
  obtain ⟨after, c, hm, hc, rfl⟩ := (mem_found_iff htag).1 h
  obtain ⟨hs, hopen, -⟩ := mem_findIter_openTag htag hm
  obtain ⟨u, p, rfl, hp, hfirst⟩ := exists_of_find hc
  obtain ⟨stop, hclose, rfl⟩ := (matchAt_closeTag_iff htag).1 hp
  refine ⟨hs, u ++ p, hopen, u, p, stop, rfl, hclose, ?_, ?_⟩
  · obtain ⟨v, -, hsplit⟩ : ∃ v, '>' ∉ v ∧ s = v ++ '>' :: (u ++ p) := hopen.exists_eq htag
    obtain ⟨n, -, rfl⟩ := hclose
    have hstop : s = (v ++ '>' :: (u ++ '<' :: '/' :: (n ++ ['>']))) ++ stop := by
      simp [hsplit]
    rw [hstop, slice_append]
  · intro v q stop' hq hclose'
    by_contra hlt
    have hnone := hfirst v q hq (Nat.lt_of_not_le hlt)
    rw [(matchAt_closeTag_iff htag).2 ⟨stop', hclose', rfl⟩] at hnone
    cases hnone

/-- There is one block at a place. -/
theorem found_unique {b' : List Char} (h : (s, b) ∈ found tag l) (h' : (s, b') ∈ found tag l) :
    b = b' := by
  obtain ⟨after, c, hm, hc, rfl⟩ := (mem_found_iff htag).1 h
  obtain ⟨after', c', hm', hc', rfl⟩ := (mem_found_iff htag).1 h'
  obtain ⟨-, hopen, -⟩ := mem_findIter_openTag htag hm
  obtain ⟨-, hopen', -⟩ := mem_findIter_openTag htag hm'
  obtain rfl : after = after' := hopen.unique htag hopen'
  rw [hc] at hc'
  rw [Option.some.inj hc']

/-- A block ends in what looks like an end. -/
theorem exists_end_of_mem_found (h : (s, b) ∈ found tag l) :
    ∃ y n, Taken tag n ∧ b = y ++ '<' :: '/' :: (n ++ ['>']) := by
  obtain ⟨-, after, hopen, u, p, stop, rfl, ⟨n, hn, rfl⟩, hs, -⟩ := exists_of_mem_found htag h
  obtain ⟨v, -, hsplit⟩ := hopen.exists_eq htag
  have hblock : b ++ stop = (v ++ '>' :: u ++ '<' :: '/' :: (n ++ ['>'])) ++ stop := by
    rw [← hs, hsplit]
    simp
  exact ⟨v ++ '>' :: u, n, hn, List.append_cancel_right hblock⟩

end Blocks

/-! ### Elements -/

section Elements

variable {tag : String} {doc : List Part} {e : Part × List Char}

/-- The elements with the tag, each with the place at which it begins. -/
def written (tag : String) (doc : List Part) : List (List Char × List Char) :=
  (elementsOf tag doc).map fun e => (e.1.text ++ e.2, e.1.text)

theorem pairwise_written (tag : String) (doc : List Part) :
    (written tag doc).Pairwise fun x y => y.1.length < x.1.length :=
  List.pairwise_map.2 (Xml.pairwise_elementsList doc [])

variable {name : Xml.TagName} {inside : Xml.Inside} {content : List Part} {space : Xml.Space}
  {after s b : List Char} (htag : IsTag tag)

/-- An element whose name is taken looks like a start, up to what stands before its content. -/
theorem opening_element (inside : Xml.Inside) (content : List Part) (space : Xml.Space)
    (after : List Char) (hname : Taken tag name.val) :
    ∃ w, '<' ∉ w ∧ Opening tag ((Part.element name inside content space).text ++ after)
      (w ++ (textList content ++ (endTag name space ++ after))) := by
  obtain ⟨v, w, hstart, hv, -, hw⟩ := Xml.exists_startTag_eq name inside
  refine ⟨w, hw, name.val, v, hname, hv, ?_⟩
  rw [Part.text, hstart]
  simp

theorem closing_endTag (hname : Taken tag name.val) (hspace : space.val = []) :
    Closing tag (endTag name space ++ after) after := by
  refine ⟨name.val, hname, ?_⟩
  rw [endTag, hspace]
  simp

omit htag in
/-- Where an element with the tag is written. -/
theorem exists_textList_eq (he : e ∈ elementsOf tag doc) :
    ∃ u, textList doc = u ++ (e.1.text ++ e.2) ∧ Xml.Settled u := by
  obtain ⟨u, v, hdoc, hafter, hu⟩ := (Xml.mem_elementsList he).place
  rw [List.append_nil] at hafter
  exact ⟨u, hafter ▸ hdoc, hu⟩

/-- In an element nothing but its first character looks like a start before its content. -/
theorem eq_nil_of_opening_element {x q : List Char}
    (hs : x ++ s = (Part.element name inside content space).text ++ after) (hx : '>' ∉ x)
    (hopen : Opening tag s q) : x = [] := by
  obtain ⟨v, w, hstart, -, hv, -⟩ := Xml.exists_startTag_eq name inside
  obtain ⟨n, t, -, -, rfl⟩ := hopen
  have hnot : '<' ∉ name.val ++ v := List.not_mem_append (Xml.open_not_mem_name name) hv
  cases x with
  | nil => rfl
  | cons c x =>
    have hcut : x ++ '<' :: (n ++ (t ++ '>' :: q)) = (name.val ++ v) ++ '>' ::
        (w ++ (textList content ++ (endTag name space ++ after))) := by
      rw [Part.text, hstart, List.cons_append] at hs
      simpa using (List.cons.inj hs).2
    rcases List.append_eq_append_iff.1 hcut with ⟨y, hy, hsplit⟩ | ⟨y, rfl, hsplit⟩
    · cases y with
      | nil => exact absurd (List.cons.inj hsplit).1 (by decide)
      | cons d y =>
        obtain ⟨rfl, -⟩ := List.cons.inj hsplit
        exact absurd (hy ▸ List.mem_append_right x List.mem_cons_self) hnot
    · cases y with
      | nil => exact absurd (List.cons.inj hsplit).1 (by decide)
      | cons d y =>
        obtain ⟨rfl, -⟩ := List.cons.inj hsplit
        exact absurd (List.mem_cons_of_mem _ (List.mem_append_right _ List.mem_cons_self)) hx

include htag

/-- An element with a name that is taken is found, as far as its first end. -/
theorem exists_mem_found_element (hname : Taken tag name.val) (hspace : space.val = [])
    (he : (.element name inside content space, after) ∈ elementsOf tag doc) :
    ∃ b, ((Part.element name inside content space).text ++ after, b) ∈
      found tag (textList doc) := by
  obtain ⟨w, -, hopen⟩ := opening_element inside content space after hname
  obtain ⟨u, hdoc, hu⟩ := exists_textList_eq he
  have hclose : HasClosing tag (w ++ (textList content ++ (endTag name space ++ after))) :=
    ⟨_, after, ⟨w ++ textList content, by simp⟩, closing_endTag hname hspace⟩
  obtain ⟨c, hc⟩ := Option.ne_none_iff_exists'.1 ((find_closeTag_ne_none_iff htag).2 hclose)
  rw [hdoc]
  exact ⟨_, (mem_found_iff htag).2 ⟨_, c, mem_findIter_of_settled htag hu hopen, hc, rfl⟩⟩

/-- An element is found as a whole exactly if nothing in its content looks like its end. -/
theorem mem_found_element_iff (hname : Taken tag name.val) (hspace : space.val = [])
    (he : (.element name inside content space, after) ∈ elementsOf tag doc) :
    ((Part.element name inside content space).text ++ after,
        (Part.element name inside content space).text) ∈ found tag (textList doc) ↔
      ¬ HasClosing tag (textList content) := by
  obtain ⟨w, hw, hopen⟩ := opening_element inside content space after hname
  obtain ⟨u, hdoc, hu⟩ := exists_textList_eq he
  have hend : Closing tag (endTag name space ++ after) after := closing_endTag hname hspace
  constructor
  · rintro hfound ⟨p, stop, ⟨v, hp⟩, hclose⟩
    obtain ⟨-, q, hopen', u', p', after', rfl, hclose', hs, hfirst⟩ :=
      exists_of_mem_found htag hfound
    obtain rfl := List.append_cancel_left hs
    have hsplit := hopen'.unique htag hopen
    rw [← hp, List.append_assoc, ← List.append_assoc w] at hsplit
    have hlen := hfirst (w ++ v) _ (stop ++ (endTag name space ++ after)) hsplit
      (hclose.append_right _)
    obtain ⟨y, hy⟩ := List.prefix_of_prefix_length_le ⟨p', rfl⟩ ⟨_, hsplit.symm⟩ hlen
    rw [← hy, List.append_assoc] at hsplit
    rw [List.append_cancel_left hsplit, ← List.append_assoc, endTag, List.cons_append] at hclose'
    obtain ⟨n, -, rfl⟩ := hclose
    exact absurd (hclose'.eq_nil htag) (by simp)
  · intro hinside
    have hfind : (closeTag (tagName true tag.toList)).find
        (w ++ (textList content ++ (endTag name space ++ after))) =
          some ⟨endTag name space ++ after, [], after⟩ := by
      rw [find_closeTag_append htag (Xml.settled_of_not_mem hw) (not_hasClosing_of_not_mem hw),
        find_closeTag_append htag (Xml.settled_textList content) hinside]
      exact find_of_matchAt ((matchAt_closeTag_iff htag).2 ⟨after, hend, rfl⟩)
    rw [hdoc]
    exact (mem_found_iff htag).2
      ⟨_, _, mem_findIter_of_settled htag hu hopen, hfind, slice_append _ _⟩

/-- If a block is an element, then the patterns take its end tag. -/
theorem ends_of_mem_found {l : List Char}
    (h : (s, (Part.element name inside content space).text) ∈ found tag l) :
    Taken tag name.val ∧ space.val = [] := by
  obtain ⟨y, n, hn, htext⟩ := exists_end_of_mem_found htag h
  have hname : '<' ∉ '/' :: (name.val ++ (space.val ++ ['>'])) := by
    have hspace : '<' ∉ space.val := space.not_mem (by decide)
    simp [Xml.open_not_mem_name, hspace]
  have hn' : '<' ∉ '/' :: (n ++ ['>']) := by
    simp [hn.open_not_mem htag]
  rw [Part.text, endTag, ← List.append_assoc] at htext
  have hcut := (cut_last hname hn' htext).2
  obtain rfl : name.val ++ space.val = n := by
    have hcancel : name.val ++ space.val ++ ['>'] = n ++ ['>'] := by
      simpa using (List.cons.inj hcut).2
    exact List.append_cancel_right hcancel
  have hspace : space.val = [] := by
    rw [List.eq_nil_iff_forall_not_mem]
    intro c hc
    have hc' := space.space c hc
    simp only [Xml.isSpace, Bool.or_eq_true, beq_iff_eq] at hc'
    have hend : c ∈ nameEnds ∧ c ≠ ':' := by
      rcases hc' with ((rfl | rfl) | rfl) | rfl <;> decide
    exact hn.not_mem htag hend.1 hend.2 (List.mem_append_right name.val hc)
  rw [hspace, List.append_nil] at hn
  exact ⟨hn, hspace⟩

/-- If the blocks are the elements, then nothing else looks like one. -/
theorem delimits_of_found_eq (h : found tag (textList doc) = written tag doc)
    (hends : ∀ name inside content space after,
      (.element name inside content space, after) ∈ elementsOf tag doc →
        Taken tag name.val ∧ space.val = []) : Delimits tag doc where
  ends := hends
  inside name inside content space after he := by
    obtain ⟨hname, hspace⟩ := hends _ _ _ _ _ he
    refine (mem_found_element_iff htag hname hspace he).1 ?_
    rw [h]
    exact List.mem_map_of_mem he
  outside s after hs hopen hne hclose := by
    obtain ⟨x, hx, hm⟩ := exists_match_of_opening htag hs hopen
    obtain ⟨c, hc⟩ := Option.ne_none_iff_exists'.1 ((find_closeTag_ne_none_iff htag).2 hclose)
    have hmem := (mem_found_iff htag).2 ⟨after, c, hm, hc, rfl⟩
    rw [h] at hmem
    obtain ⟨e, he, heq⟩ := List.mem_map.1 hmem
    obtain ⟨name, inside, content, space, helement, -⟩ := (Xml.mem_elementsList he).element
    have hstart := (Prod.mk.inj heq).1
    rw [helement] at hstart
    obtain rfl := eq_nil_of_opening_element hstart.symm hx hopen
    exact hne e he (by rw [helement, hstart]; rfl)

/-- If nothing but an element looks like one, then it is found. -/
theorem Delimits.mem_found (h : Delimits tag doc) (he : e ∈ elementsOf tag doc) :
    (e.1.text ++ e.2, e.1.text) ∈ found tag (textList doc) := by
  obtain ⟨p, after⟩ := e
  obtain ⟨name, inside, content, space, rfl, -⟩ := (Xml.mem_elementsList he).element
  obtain ⟨hname, hspace⟩ := h.ends _ _ _ _ _ he
  exact (mem_found_element_iff htag hname hspace he).2 (h.inside _ _ _ _ _ he)

theorem Delimits.found_eq (h : Delimits tag doc) :
    found tag (textList doc) = written tag doc := by
  refine eq_of_mem_iff (pairwise_found htag) (pairwise_written tag doc) ?_
  rintro ⟨s, b⟩
  constructor
  · intro hfound
    obtain ⟨hs, after, hopen, u, p, stop, hsplit, hclose, -, -⟩ := exists_of_mem_found htag hfound
    by_contra hnot
    refine h.outside s after hs hopen ?_ ⟨p, stop, ⟨u, hsplit.symm⟩, hclose⟩
    rintro e he rfl
    rw [found_unique htag hfound (h.mem_found htag he)] at hnot
    exact hnot (List.mem_map_of_mem he)
  · intro hmem
    obtain ⟨e, he, heq⟩ := List.mem_map.1 hmem
    exact heq ▸ h.mem_found htag he

/-- The blocks with a tag are its elements if nothing but these elements looks like one, and only
then. -/
theorem xmlBlocks_eq_iff_delimits (doc : List Part) :
    xmlBlocks (textList doc) tag = (elementsOf tag doc).map (fun e => e.1.text) ↔
      Delimits tag doc := by
  have hwritten : (written tag doc).map Prod.snd = (elementsOf tag doc).map fun e => e.1.text := by
    rw [written, List.map_map]
    rfl
  rw [← map_snd_found, ← hwritten]
  constructor
  · intro h
    have hends : ∀ name inside content space after,
        (.element name inside content space, after) ∈ elementsOf tag doc →
          Taken tag name.val ∧ space.val = [] := by
      intro name inside content space after he
      have hmem : (Part.element name inside content space).text ∈
          (found tag (textList doc)).map Prod.snd := by
        rw [h, hwritten]
        exact List.mem_map.2 ⟨_, he, rfl⟩
      obtain ⟨⟨s, b⟩, hfound, rfl⟩ := List.mem_map.1 hmem
      exact ends_of_mem_found htag hfound
    refine delimits_of_found_eq htag (eq_of_map_snd_eq (pairwise_found htag)
      (pairwise_written tag doc) ?_ h) hends
    intro s hs
    obtain ⟨⟨_, _⟩, hmem, rfl⟩ := List.mem_map.1 hs
    obtain ⟨⟨p, after⟩, he, heq⟩ := List.mem_map.1 hmem
    obtain ⟨name, inside, content, space, rfl, -⟩ := (Xml.mem_elementsList he).element
    obtain ⟨hname, hspace⟩ := hends _ _ _ _ _ he
    obtain ⟨b, hb⟩ := exists_mem_found_element htag hname hspace he
    exact List.mem_map.2 ⟨_, hb, (Prod.mk.inj heq).1⟩
  · intro h
    rw [h.found_eq htag]

end Elements

/-- The blocks with a tag are its elements, each from its start tag to its end tag and in document
order, exactly if nothing but these elements looks like one: in every document of the grammar, and
so in every text that the reader accepts, whose tags are those that it reports. -/
theorem xmlBlocks_eq_elements_iff (tag : String) (htag : IsTag tag) :
    (∀ doc : List Part, xmlBlocks (textList doc) tag = (elementsOf tag doc).map (fun e => e.1.text) ↔
      Delimits tag doc) ∧
    ∀ text events, Xml.read text = some events →
      ∃ doc, textList doc = text.toList ∧ Xml.tagsList doc = events.filterMap Xml.Event.bare ∧
        (xmlBlocks text.toList tag = (elementsOf tag doc).map (fun e => e.1.text) ↔
          Delimits tag doc) := by
  refine ⟨xmlBlocks_eq_iff_delimits htag, fun text events hread => ?_⟩
  obtain ⟨doc, htext, htags⟩ := Xml.exists_parts_of_read hread
  refine ⟨doc, htext, htags, ?_⟩
  rw [← htext]
  exact xmlBlocks_eq_iff_delimits htag doc

/-- An element without attributes. -/
def plainElement (name : Xml.TagName) (content : List Part) : Part :=
  .element name ⟨[], rfl, by simp⟩ content ⟨[], by simp⟩

/-- A result with a stop event in it. -/
def resultPart : Part :=
  plainElement ⟨"StopEventResult".toList, by decide⟩
    [plainElement ⟨"StopEvent".toList, by decide⟩ [.chars ⟨['x'], by decide⟩]]

/-- In this document the results look like nothing else. -/
theorem delimits_stopEventResult : Delimits "StopEventResult" [resultPart] :=
  ((xmlBlocks_eq_elements_iff "StopEventResult" (by decide)).1 [resultPart]).1 (by decide +kernel)

/-- A result looks like the start of a stop event, so there are two blocks for the one element. -/
theorem xmlBlocks_resultPart_ne : (Xml.read (String.ofList (textList [resultPart]))).isSome = true ∧
    xmlBlocks (textList [resultPart]) "StopEvent" ≠
      (elementsOf "StopEvent" [resultPart]).map fun e => e.1.text := by
  decide +kernel

end Traintime.Ojp
