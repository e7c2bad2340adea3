import Traintime.Core.Ojp.Scan
import Traintime.Lib.Blocks

/-!
# Documents as pieces

A document is a sequence of tags, each followed by the text up to the next one. On such a document
the patterns are searched for tag by tag.

## Main definitions

* `Piece`, `document`: a tag with the text after it, and a document.
* `opensAt`, `closesAt`: whether a pattern for a name takes the tag of a piece.

## Main results

* `xmlBlocks_document`, `xmlText_document`, `xmlLangText_document`: what the functions that read a
  response do on its pieces.
-/

namespace Traintime.Ojp

open Regex Blocks

/-- A tag, without its brackets, and the text after it. -/
@[ext] structure Piece where
  tag : List Char
  after : List Char
  open_not_mem_tag : '<' ∉ tag
  close_not_mem_tag : '>' ∉ tag
  open_not_mem_after : '<' ∉ after

theorem open_notMem_nil : '<' ∉ ([] : List Char) := List.not_mem_nil

namespace Piece

/-- The characters of a piece: its tag between angle brackets, and the text behind it. -/
def chars (g : Piece) : List Char := '<' :: (g.tag ++ '>' :: g.after)

/-- The piece up to the end of its tag. -/
def cut (g : Piece) : Piece := { g with after := [], open_not_mem_after := open_notMem_nil }

end Piece

/-- The document that pieces make up. -/
def document (gs : List Piece) : List Char := gs.flatMap Piece.chars

/-- Whether the open pattern for a name takes the tag. -/
def opensAt (name : Regex) (g : Piece) : Bool := !(name.rests g.tag).isEmpty

/-- Whether the close pattern for a name takes the tag. -/
def closesAt (name : Regex) (g : Piece) : Bool :=
  match g.tag with
  | '/' :: t => (name.rests t).any (·.isEmpty)
  | _ => false

/-- A pattern for a name: it has no groups and does not go past the end of a tag. -/
structure IsName (name : Regex) : Prop where
  groupFree : name.GroupFree
  avoids : name.Avoids '>'

/-! ### Tags -/

/-- The first result of a search whose results agree. -/
theorem findSome?_eq_ite {α β : Type} {f : α → Option β} {p : α → Bool} {v : Option β}
    {l : List α} (h : ∀ a ∈ l, f a = if p a then v else none) :
    l.findSome? f = if l.any p then v else none := by
  induction l with
  | nil => rfl
  | cons a l ih =>
    rw [List.findSome?_cons, h a List.mem_cons_self, ih fun b hb => h b (List.mem_cons_of_mem _ hb)]
    by_cases ha : p a = true
    · cases v <;> simp [ha]
    · simp [ha]

section Tags

variable {β : Type} {name : Regex} (hname : IsName name) {gs : List (List Char)}
  {k : List (List Char) → Place → Option β}

include hname

theorem exec_name {t s : List Char} {p : Place → Bool} {v : Option β}
    (h : ∀ u ∈ name.rests t, k gs (u ++ '>' :: s) = if p u then v else none) :
    name.exec gs (t ++ '>' :: s) k = if (name.rests t).any p then v else none := by
  rw [exec_eq_findSome? hname.groupFree, rests_append hname.avoids, List.findSome?_map]
  exact findSome?_eq_ite h

theorem exec_openTag {t : List Char} (ht : '>' ∉ t) (s : List Char) :
    (openTag name).exec gs ('<' :: (t ++ '>' :: s)) k =
      if (name.rests t).isEmpty then none else k gs s := by
  have hstep : ∀ u ∈ name.rests t,
      ((cat (many (· != '>')) (char '>')).exec gs (u ++ '>' :: s) k) =
        if true then k gs s else none := by
    intro u hu
    have hu' : ∀ c ∈ u, (c != '>') = true := by
      intro c hc
      rw [bne_iff_ne]
      rintro rfl
      exact ht ((isSuffix_of_mem_rests hu).subset hc)
    rw [exec, exec_many (by simp +contextual [Regex.char, exec]),
      List.dropWhile_append_of_pos hu', List.dropWhile_cons_of_neg (by simp)]
    simp [Regex.char, exec]
  show (cat name _).exec gs (t ++ '>' :: s) k = _
  rw [exec, exec_name hname (p := fun _ => true) hstep]
  cases name.rests t <;> rfl

theorem exec_closeTag {t : List Char} (ht : '>' ∉ t) (s : List Char) :
    (closeTag name).exec gs ('<' :: '/' :: (t ++ '>' :: s)) k =
      if (name.rests t).any (·.isEmpty) then k gs s else none := by
  have hstep : ∀ u ∈ name.rests t, ((char '>').exec gs (u ++ '>' :: s) k) =
      if u.isEmpty then k gs s else none := by
    intro u hu
    cases u with
    | nil => simp [Regex.char, exec]
    | cons c u =>
      have hc : c ≠ '>' := by
        rintro rfl
        exact ht ((isSuffix_of_mem_rests hu).subset List.mem_cons_self)
      simp [Regex.char, exec, hc]
  show (cat name _).exec gs (t ++ '>' :: s) k = _
  rw [exec, exec_name hname hstep]

theorem exec_openTag_piece (g : Piece) (s : List Char) :
    (openTag name).exec gs (g.chars ++ s) k =
      if opensAt name g then k gs (g.after ++ s) else none := by
  rw [Piece.chars, List.cons_append, List.append_assoc, List.cons_append,
    exec_openTag hname g.close_not_mem_tag, opensAt]
  cases (name.rests g.tag).isEmpty <;> rfl

theorem exec_closeTag_piece (g : Piece) (s : List Char) :
    (closeTag name).exec gs (g.chars ++ s) k =
      if closesAt name g then k gs (g.after ++ s) else none := by
  have hg := g.close_not_mem_tag
  rw [Piece.chars, List.cons_append, List.append_assoc, List.cons_append, closesAt]
  cases htag : g.tag with
  | nil => simp [closeTag, exec, Regex.char]
  | cons c t =>
    rw [htag, List.mem_cons, not_or] at hg
    by_cases hc : c = '/'
    · subst hc
      exact exec_closeTag hname hg.2 _
    · have hmatch : (match c :: t with
          | '/' :: t => (name.rests t).any (·.isEmpty)
          | _ => false) = false := by
        split
        · simp_all
        · rfl
      rw [hmatch]
      simp [closeTag, exec, Regex.char, hc]

/-- A leaf is a tag with the closing tag right after its text. -/
theorem exec_leafTag_piece (g h : Piece) (s : List Char) :
    (leafTag name).exec gs (g.chars ++ (h.chars ++ s)) k =
      if opensAt name g && closesAt name h then k (gs ++ [g.after]) (h.after ++ s) else none := by
  have hafter : ∀ c ∈ g.after, (c != '<') = true := by
    intro c hc
    rw [bne_iff_ne]
    rintro rfl
    exact g.open_not_mem_after hc
  rw [leafTag, exec, exec_openTag_piece hname]
  cases opensAt name g with
  | false => rfl
  | true =>
    rw [if_pos rfl, exec, exec, exec_many (by simp +contextual [closeTag, exec, Regex.char]),
      List.dropWhile_append_of_pos hafter]
    have hdrop : (h.chars ++ s).dropWhile (· != '<') = h.chars ++ s := by
      simp [Piece.chars]
    rw [hdrop, slice_append, exec_closeTag_piece hname]
    rfl

theorem exec_leafTag_last (g : Piece) : (leafTag name).exec gs g.chars k = none := by
  have hafter : ∀ c ∈ g.after, (c != '<') = true := by
    intro c hc
    rw [bne_iff_ne]
    rintro rfl
    exact g.open_not_mem_after hc
  rw [leafTag, exec, ← List.append_nil g.chars, exec_openTag_piece hname]
  cases opensAt name g with
  | false => rfl
  | true =>
    rw [if_pos rfl, exec, exec, exec_many (by simp +contextual [closeTag, exec, Regex.char]),
      List.dropWhile_append_of_pos hafter]
    rfl

end Tags

/-! ### Searching a document -/

section Search

variable {name : Regex}

theorem matchAt_openTag_of_ne (c : Char) (s : List Char) (hc : c ≠ '<') :
    (openTag name).matchAt (c :: s) = none := by
  simp [matchAt, openTag, exec, Regex.char, hc]

theorem matchAt_closeTag_of_ne (c : Char) (s : List Char) (hc : c ≠ '<') :
    (closeTag name).matchAt (c :: s) = none := by
  simp [matchAt, closeTag, exec, Regex.char, hc]

theorem matchAt_leafTag_of_ne (c : Char) (s : List Char) (hc : c ≠ '<') :
    (leafTag name).matchAt (c :: s) = none := by
  simp [matchAt, leafTag, openTag, exec, Regex.char, hc]

theorem Piece.chars_eq (g : Piece) :
    ∃ u : List Char, g.chars = '<' :: u ∧ ∀ c ∈ u, c ≠ '<' := by
  refine ⟨_, rfl, ?_⟩
  rintro c hc rfl
  rcases List.mem_append.mp hc with h | h
  · exact g.open_not_mem_tag h
  · rcases List.mem_cons.mp h with h | h
    · exact absurd h (by decide)
    · exact g.open_not_mem_after h

/-- A search that begins at tags only goes on at the next piece. -/
theorem find_piece {r : Regex} (hr : ∀ c s, c ≠ '<' → r.matchAt (c :: s) = none) (g : Piece)
    (s : List Char) :
    r.find (g.chars ++ s) = (r.matchAt (g.chars ++ s)).or (r.find s) := by
  obtain ⟨u, hu, hne⟩ := g.chars_eq
  rw [hu, List.cons_append, Regex.find, find_append fun c hc s => hr c s (hne c hc)]

theorem slice_cut (v : List Char) (g : Piece) (s : List Char) :
    slice (v ++ (g.chars ++ s)) (g.after ++ s) = v ++ document [g.cut] := by
  have hchars : v ++ (g.chars ++ s) = (v ++ document [g.cut]) ++ (g.after ++ s) := by
    simp [document, Piece.chars, Piece.cut]
  rw [hchars, slice_append]

/-- The search for the closing tag. -/
theorem find_closeTag_document (hname : IsName name) (gs : List Piece) (v : List Char) :
    ((closeTag name).find (document gs)).map (fun m => slice (v ++ document gs) m.stop) =
      (upTo (closesAt name) Piece.cut gs).map fun b => v ++ document b := by
  induction gs generalizing v with
  | nil => rfl
  | cons g gs ih =>
    have hdoc : document (g :: gs) = g.chars ++ document gs := rfl
    rw [hdoc, find_piece matchAt_closeTag_of_ne, matchAt, exec_closeTag_piece hname,
      upTo]
    by_cases hg : closesAt name g = true
    · rw [if_pos hg, if_pos hg, Option.some_or, Option.map_some, Option.map_some, slice_cut]
    · have hv := ih (v ++ g.chars)
      rw [List.append_assoc] at hv
      rw [if_neg hg, if_neg hg, Option.none_or, hv, Option.map_map]
      congr 1
      funext b
      simp [document]

/-- The matches of an open pattern. -/
theorem findIter_openTag_piece (hname : IsName name) (g : Piece) (s : List Char) :
    (openTag name).findIter (g.chars ++ s) =
      (if opensAt name g then [⟨g.chars ++ s, [], g.after ++ s⟩] else []) ++
        (openTag name).findIter s := by
  have hmatch : (openTag name).matchAt (g.chars ++ s) =
      if opensAt name g then some ⟨g.chars ++ s, [], g.after ++ s⟩ else none :=
    exec_openTag_piece hname g s
  by_cases hg : opensAt name g = true
  · rw [if_pos hg] at hmatch ⊢
    have hsplit : g.chars ++ s = '<' :: ((g.tag ++ ['>']) ++ (g.after ++ s)) := by
      simp [Piece.chars]
    rw [hsplit] at hmatch ⊢
    rw [findIter_of_some hmatch rfl, findIter_append]
    · rfl
    · rintro c hc s
      refine matchAt_openTag_of_ne c s ?_
      rintro rfl
      exact g.open_not_mem_after hc
  · rw [if_neg hg] at hmatch ⊢
    obtain ⟨u, hu, hne⟩ := g.chars_eq
    rw [hu, List.cons_append] at hmatch ⊢
    rw [findIter_cons_of_none hmatch, findIter_append]
    · rfl
    · exact fun c hc s => matchAt_openTag_of_ne c s (hne c hc)

/-- The first leaf of a document. -/
theorem find_leafTag_document (hname : IsName name) (gs : List Piece) :
    ((leafTag name).find (document gs)).map Match.groups =
      (leaf (opensAt name) (closesAt name) gs).map fun g => [g.after] := by
  induction gs with
  | nil => rfl
  | cons g gs ih =>
    have hdoc : document (g :: gs) = g.chars ++ document gs := rfl
    rw [hdoc, find_piece matchAt_leafTag_of_ne, matchAt]
    cases gs with
    | nil =>
      rw [show document [] = [] from rfl, List.append_nil, exec_leafTag_last hname]
      rfl
    | cons h gs =>
      rw [show document (h :: gs) = h.chars ++ document gs from rfl, exec_leafTag_piece hname, leaf]
      by_cases hgh : (opensAt name g && closesAt name h) = true
      · rw [if_pos hgh, if_pos hgh]
        rfl
      · rw [if_neg hgh, if_neg hgh, Option.none_or]
        exact ih

end Search

/-! ### The functions that read a response -/

theorem isName_text {ci : Bool} {w : List Char} (hw : ∀ c ∈ w, sameLetter ci c '>' = false) :
    IsName (text ci w) where
  groupFree := groupFree_text ci w
  avoids := avoids_text hw

theorem groupFree_tagName (ci : Bool) (tag : List Char) : (tagName ci tag).GroupFree :=
  ⟨⟨⟨trivial, trivial⟩, trivial⟩, groupFree_text ci tag⟩

theorem isName_tagName {ci : Bool} {tag : List Char}
    (htag : ∀ c ∈ tag, sameLetter ci c '>' = false) : IsName (tagName ci tag) where
  groupFree := groupFree_tagName ci tag
  avoids :=
    have hlower : isLower ci '>' = false := by cases ci <;> rfl
    ⟨⟨⟨hlower, hlower⟩, rfl⟩, avoids_text htag⟩

/-- The blocks of a document are those of its pieces. -/
theorem xmlBlocks_document {tag : String} (hname : IsName (tagName true tag.toList))
    (gs : List Piece) :
    xmlBlocks (document gs) tag =
      (blocks (opensAt (tagName true tag.toList)) (closesAt (tagName true tag.toList)) Piece.cut
        gs).map document := by
  unfold xmlBlocks
  induction gs with
  | nil => rfl
  | cons g gs ih =>
    have hclose := find_closeTag_document hname gs g.chars
    have hskip : (closeTag (tagName true tag.toList)).find (g.after ++ document gs) =
        (closeTag (tagName true tag.toList)).find (document gs) := by
      refine find_append (fun c hc s => matchAt_closeTag_of_ne c s ?_) _
      rintro rfl
      exact g.open_not_mem_after hc
    rw [show document (g :: gs) = g.chars ++ document gs from rfl, findIter_openTag_piece hname,
      List.filterMap_append, ih, blocks, List.map_append]
    congr 1
    split_ifs
    · rw [List.filterMap_cons, hskip, hclose]
      cases upTo (closesAt (tagName true tag.toList)) Piece.cut gs <;> rfl
    · rfl

/-- Text before the first tag is passed over. -/
theorem xmlBlocks_append {u : List Char} (hu : '<' ∉ u) (s : List Char) (tag : String) :
    xmlBlocks (u ++ s) tag = xmlBlocks s tag := by
  rw [xmlBlocks, findIter_append]
  · rfl
  · rintro c hc s
    refine matchAt_openTag_of_ne c s ?_
    rintro rfl
    exact hu hc

/-- The text that a leaf pattern takes from a document. -/
theorem leafText_document {name : Regex} (hname : IsName name) (gs : List Piece) :
    (((leafTag name).find (document gs)).bind fun cap => cap.groups.head?.map trim) =
      (leaf (opensAt name) (closesAt name) gs).map fun g => trim g.after := by
  have hfind := find_leafTag_document hname gs
  show ((leafTag name).find (document gs)).bind
    ((fun groups => groups.head?.map trim) ∘ Match.groups) = _
  rw [← Option.bind_map, hfind]
  cases leaf (opensAt name) (closesAt name) gs <;> rfl

theorem xmlText_document {tag : String} (hname : IsName (tagName false tag.toList))
    (gs : List Piece) :
    xmlText (document gs) tag =
      (leaf (opensAt (tagName false tag.toList)) (closesAt (tagName false tag.toList)) gs).map
        fun g => trim g.after :=
  leafText_document hname gs

theorem xmlLangText_document (gs : List Piece) :
    xmlLangText (document gs) =
      (leaf (opensAt (text true "Text".toList)) (closesAt (text true "Text".toList)) gs).map
        fun g => trim g.after := by
  have h : ("Text".toList.all fun c => !sameLetter true c '>') = true := by decide +kernel
  exact leafText_document (isName_text fun c hc => by simpa using List.all_eq_true.mp h c hc) gs

end Traintime.Ojp
