import Traintime.Core.Ojp.Board

/-!
# Reading one element of a document

What the functions that read a response take from a document in which an element stands between
other pieces, depending on the tags of the pieces before and after it.

## Main definitions

* `Among`: pieces whose elements and namespaces are among given ones.
* `block`: an element up to the end of its closing tag.

## Main results

* `firstBlock_element`: the first block is the element when no tag before it is taken for its own.
* `blockText_texts`, `blockText_texts_of_free`, `xmlText_leaf`: the text of an optional element.
* `modeText_mode`: the text of the mode.
-/

namespace Traintime.Ojp

open Regex Blocks

/-! ### The tags of pieces -/

/-- The elements of the pieces are among `E` and their namespaces among `P`. -/
def Among (E : List Element) (P : Set Namespace) (gs : List Piece) : Prop :=
  ∀ g ∈ gs, ∃ ns e t, (g = .opening ns e t ∨ g = .closing ns e t) ∧ e ∈ E ∧ ∀ p ∈ ns, p ∈ P

namespace Among

variable {E E' : List Element} {P : Set Namespace} {gs hs : List Piece} {gaps : Gaps} {e : Element}

theorem nil : Among E P [] := fun _ h => absurd h List.not_mem_nil

theorem cons_opening {ns : Option Namespace} {t : Plain} (he : e ∈ E) (hns : ∀ p ∈ ns, p ∈ P)
    (h : Among E P gs) : Among E P (.opening ns e t :: gs) :=
  List.forall_mem_cons.mpr ⟨⟨ns, e, t, .inl rfl, he, hns⟩, h⟩

theorem cons_closing {ns : Option Namespace} {t : Plain} (he : e ∈ E) (hns : ∀ p ∈ ns, p ∈ P)
    (h : Among E P gs) : Among E P (.closing ns e t :: gs) :=
  List.forall_mem_cons.mpr ⟨⟨ns, e, t, .inr rfl, he, hns⟩, h⟩

theorem append (hg : Among E P gs) (hh : Among E P hs) : Among E P (gs ++ hs) :=
  List.forall_mem_append.mpr ⟨hg, hh⟩

theorem mono (h : Among E P gs) (hE : E ⊆ E') : Among E' P gs := by
  intro g hg
  obtain ⟨ns, e, t, hgt, he, hns⟩ := h g hg
  exact ⟨ns, e, t, hgt, hE he, hns⟩

theorem union (hg : Among E P gs) (hh : Among E' P hs) : Among (E ++ E') P (gs ++ hs) :=
  (hg.mono (List.subset_append_left E E')).append (hh.mono (List.subset_append_right E E'))

theorem element (he : e ∈ E) (h : Among E P gs) : Among E P (element gaps e gs) :=
  cons_opening he (by simp) (h.append (cons_closing he (by simp) nil))

theorem leafPieces {l : Leaf} (he : e ∈ E) (hl : ∀ p ∈ l.ns, p ∈ P) :
    Among E P (leafPieces gaps e l) :=
  cons_opening he hl (cons_closing he hl nil)

theorem textPieces {t : Text} (he : e ∈ E) (ht : .text ∈ E) : Among E P (textPieces gaps e t) :=
  element he (cons_opening ht (by simp) (cons_closing ht (by simp) nil))

theorem elim {α : Type} {o : Option α} {f : α → List Piece} (h : ∀ a ∈ o, Among E P (f a)) :
    Among E P (o.elim [] f) := by
  cases o with
  | none => exact nil
  | some a => exact h a rfl

theorem flatMap {α : Type} {l : List α} {f : α → List Piece} (h : ∀ a ∈ l, Among E P (f a)) :
    Among E P (l.flatMap f) := by
  intro g hg
  obtain ⟨a, ha, hga⟩ := List.mem_flatMap.mp hg
  exact h a ha g hga

/-- No tag is taken for the beginning of an element that is not among them. -/
theorem opensAt_eq_false (h : Among E P gs) (hE : (E.all fun f => !f.beginsWith e) = true)
    (hP : ∀ p ∈ P, p.beginsWith e = false) : ∀ g ∈ gs, opensAt (tagName true e.chars) g = false := by
  intro g hg
  obtain ⟨ns, f, t, rfl | rfl, hf, hns⟩ := h g hg
  · have hbegins : f.beginsWith e = false := by simpa using List.all_eq_true.mp hE f hf
    rw [opensAt_opening, hbegins, Bool.false_or]
    cases ns with
    | none => rfl
    | some p => exact hP p (hns p rfl)
  · exact opensAt_closing true e f ns t

/-- No tag is taken for the end of an element that is not among them. -/
theorem closesAt_eq_false {ci : Bool} (h : Among E P gs) (he : e ∉ E) :
    ∀ g ∈ gs, closesAt (tagName ci e.chars) g = false := by
  intro g hg
  obtain ⟨ns, f, t, rfl | rfl, hf, -⟩ := h g hg
  · exact closesAt_opening _ f ns t
  · rw [closesAt_closing, beq_eq_false_iff_ne]
    rintro rfl
    exact he hf

theorem closesAt_text_eq_false (h : Among E P gs) (ht : .text ∉ E) :
    ∀ g ∈ gs, closesAt (Regex.text true Element.text.chars) g = false := by
  intro g hg
  obtain ⟨ns, f, t, rfl | rfl, hf, -⟩ := h g hg
  · exact closesAt_opening _ f ns t
  · have hf' : (f == Element.text) = false := by
      rw [beq_eq_false_iff_ne]
      rintro rfl
      exact ht hf
    rw [closesAt_text, hf', Bool.and_false]

end Among

/-! ### Blocks -/

/-- An element up to the end of its closing tag. -/
def block (gaps : Gaps) (e : Element) (content : List Piece) : List Piece :=
  .opening none e (gaps.opening e).plain :: (content ++ [.closing none e .empty])

theorem firstBlock_document (gs : List Piece) (e : Element) :
    firstBlock (document gs) e.name =
      (blocks (opensAt (tagName true e.chars)) (closesAt (tagName true e.chars)) Piece.cut
        gs).head?.map document := by
  rw [firstBlock, xmlBlocks_document (isName_element true e), List.head?_map]
  rfl

theorem blockText_document (gs : List Piece) (e : Element) :
    blockText (document gs) e.name =
      (blocks (opensAt (tagName true e.chars)) (closesAt (tagName true e.chars)) Piece.cut
        gs).head?.bind fun b =>
          (leaf (opensAt (text true Element.text.chars)) (closesAt (text true Element.text.chars))
            b).map fun g => trim g.after := by
  rw [blockText, firstBlock_document]
  cases (blocks (opensAt (tagName true e.chars)) (closesAt (tagName true e.chars)) Piece.cut
    gs).head? with
  | none => rfl
  | some b => exact xmlLangText_document b

section Element

variable {as bs content : List Piece} {gaps : Gaps} {e : Element}

theorem element_append (gaps : Gaps) (e : Element) (content bs : List Piece) :
    element gaps e content ++ bs = .opening none e (gaps.opening e).plain ::
      (content ++ .closing none e (gaps.closing e).plain :: bs) := by
  simp [element]

/-- The first block is the element when no tag before it is taken for its own. -/
theorem firstBlock_element (has : ∀ g ∈ as, opensAt (tagName true e.chars) g = false)
    (hcontent : ∀ g ∈ content, closesAt (tagName true e.chars) g = false) :
    firstBlock (document (as ++ (element gaps e content ++ bs))) e.name =
      some (document (block gaps e content)) := by
  rw [firstBlock_document, element_append,
    head?_blocks_eq has (by simp [Element.beginsWith]) hcontent (by simp)]
  rfl

/-- The first block ends with the element in any case. -/
theorem exists_firstBlock_element (gaps : Gaps) (bs : List Piece)
    (has : ∀ g ∈ as, closesAt (tagName true e.chars) g = false)
    (hcontent : ∀ g ∈ content, closesAt (tagName true e.chars) g = false) :
    ∃ as', as' <:+ as ∧ firstBlock (document (as ++ (element gaps e content ++ bs))) e.name =
      some (document (as' ++ block gaps e content)) := by
  obtain ⟨as', hsuf, heq⟩ : ∃ as', as' <:+ as ∧ (blocks (opensAt (tagName true e.chars))
      (closesAt (tagName true e.chars)) Piece.cut (as ++ .opening none e (gaps.opening e).plain ::
        (content ++ .closing none e (gaps.closing e).plain :: bs))).head? = some (as' ++ _) :=
    exists_head?_blocks has (by simp [Element.beginsWith]) (closesAt_opening _ _ _ _) hcontent
      (by simp)
  refine ⟨as', hsuf, ?_⟩
  rw [firstBlock_document, element_append, heq]
  rfl

/-- There is no block of an element that is not closed. -/
theorem firstBlock_eq_none (has : ∀ g ∈ as, closesAt (tagName true e.chars) g = false) :
    firstBlock (document as) e.name = none := by
  rw [firstBlock_document, blocks_eq_nil has]
  rfl

/-! ### Texts -/

theorem xmlLangText_block (t : Text) (gaps : Gaps) (e : Element)
    (has : ∀ g ∈ as, closesAt (text true Element.text.chars) g = false) :
    xmlLangText (document (as ++ block gaps e
      [.opening none .text t.plain, .closing none .text (gaps.closing .text).plain])) =
      some t.val := by
  have hsplit : as ++ block gaps e
      [.opening none .text t.plain, .closing none .text (gaps.closing .text).plain] =
      (as ++ [.opening none e (gaps.opening e).plain]) ++ .opening none .text t.plain ::
        .closing none .text (gaps.closing .text).plain :: [.closing none e .empty] := by
    simp [block]
  have has' : ∀ g ∈ as ++ [.opening none e (gaps.opening e).plain],
      closesAt (text true Element.text.chars) g = false :=
    List.forall_mem_append.mpr ⟨has, List.forall_mem_singleton.mpr (closesAt_opening _ e none _)⟩
  rw [hsplit, xmlLangText_document]
  show (leaf (opensAt (text true Element.text.chars)) (closesAt (text true Element.text.chars))
    _).map _ = _
  rw [leaf_eq has' (closesAt_opening _ _ _ _) (by simp) (by simp)]
  exact congrArg some t.trim_val

/-- The text of an optional element before which no tag is taken for its own. -/
theorem blockText_texts {o : Option Text}
    (has : ∀ g ∈ as, opensAt (tagName true e.chars) g = false)
    (hcl : ∀ g ∈ as ++ bs, closesAt (tagName true e.chars) g = false) (he : e ≠ .text) :
    blockText (document (as ++ (o.elim [] (textPieces gaps e) ++ bs))) e.name =
      o.map Text.val := by
  have hne : (Element.text == e) = false := beq_eq_false_iff_ne.mpr he.symm
  cases o with
  | none => rw [blockText, Option.elim_none, List.nil_append, firstBlock_eq_none hcl]; rfl
  | some t =>
    rw [blockText, Option.elim_some, textPieces, firstBlock_element has (by simp [hne]),
      Option.bind_some]
    exact xmlLangText_block t gaps e (List.forall_mem_nil _)

/-- The text of an optional element before which there is no other text. -/
theorem blockText_texts_of_free {o : Option Text}
    (has : ∀ g ∈ as, closesAt (text true Element.text.chars) g = false)
    (hcl : ∀ g ∈ as ++ bs, closesAt (tagName true e.chars) g = false) (he : e ≠ .text) :
    blockText (document (as ++ (o.elim [] (textPieces gaps e) ++ bs))) e.name =
      o.map Text.val := by
  have hne : (Element.text == e) = false := beq_eq_false_iff_ne.mpr he.symm
  cases o with
  | none => rw [blockText, Option.elim_none, List.nil_append, firstBlock_eq_none hcl]; rfl
  | some t =>
    have hcontent : ∀ g ∈ [Piece.opening none .text t.plain,
        .closing none .text (gaps.closing .text).plain],
        closesAt (tagName true e.chars) g = false := by simp [hne]
    obtain ⟨as', hsuf, heq⟩ := exists_firstBlock_element gaps bs
      (fun g hg => hcl g (List.mem_append_left bs hg)) hcontent
    rw [blockText, Option.elim_some, textPieces, heq, Option.bind_some]
    exact xmlLangText_block t gaps e fun g hg => has g (hsuf.subset hg)

/-- The text of an optional leaf. -/
theorem xmlText_leaf {o : Option Leaf}
    (hcl : ∀ g ∈ as ++ bs, closesAt (tagName false e.chars) g = false) :
    xmlText (document (as ++ (o.elim [] (leafPieces gaps e) ++ bs))) e.name =
      o.map (·.text.val) := by
  rw [xmlText_document (isName_element false e)]
  show (leaf (opensAt (tagName false e.chars)) (closesAt (tagName false e.chars)) _).map _ = _
  cases o with
  | none =>
    rw [Option.elim_none, List.nil_append, leaf_eq_none hcl]
    rfl
  | some l =>
    rw [Option.elim_some, leafPieces, List.cons_append, List.singleton_append,
      leaf_eq (fun g hg => hcl g (List.mem_append_left bs hg)) (closesAt_opening _ _ _ _)
        (by simp [Element.beginsWith]) (by simp)]
    exact congrArg some l.text.trim_val

/-- The text of the mode, when no tag before it is taken for a mode or none for a short name. -/
theorem modeText_mode {o : Option Text}
    (has : (∀ g ∈ as, opensAt (tagName true Element.mode.chars) g = false) ∨
      ∀ g ∈ as, opensAt (tagName true Element.shortName.chars) g = false)
    (hmode : ∀ g ∈ as ++ bs, closesAt (tagName true Element.mode.chars) g = false)
    (hshort : ∀ g ∈ as, closesAt (tagName true Element.shortName.chars) g = false) :
    modeText (document (as ++ (o.elim [] (StopEvent.modePieces gaps) ++ bs))) =
      o.map Text.val := by
  have hinner : ∀ (t : Text) (as' : List Piece),
      (∀ g ∈ as', opensAt (tagName true Element.shortName.chars) g = false) →
      (∀ g ∈ as', closesAt (tagName true Element.shortName.chars) g = false) →
      blockText (document (as' ++ block gaps .mode (textPieces gaps .shortName t)))
        Element.shortName.name = some t.val := by
    intro t as' hopen hclose
    have hsplit : as' ++ block gaps .mode (textPieces gaps .shortName t) =
        (as' ++ [.opening none .mode (gaps.opening .mode).plain]) ++
          ((some t).elim [] (textPieces gaps .shortName) ++ [.closing none .mode .empty]) := by
      simp [block]
    rw [hsplit]
    refine blockText_texts ?_ ?_ (by simp)
    · exact List.forall_mem_append.mpr
        ⟨hopen, List.forall_mem_singleton.mpr (by simp [Element.beginsWith])⟩
    · exact List.forall_mem_append.mpr ⟨List.forall_mem_append.mpr
        ⟨hclose, List.forall_mem_singleton.mpr (closesAt_opening _ _ _ _)⟩,
        List.forall_mem_singleton.mpr (by simp)⟩
  have hcontent : ∀ t : Text, ∀ g ∈ textPieces gaps .shortName t,
      closesAt (tagName true Element.mode.chars) g = false := fun t =>
    (Among.textPieces (E := [.shortName, .text]) (P := ∅) (by simp) (by simp)).closesAt_eq_false
      (by decide)
  have hmode' : ∀ g ∈ as, closesAt (tagName true Element.mode.chars) g = false :=
    fun g hg => hmode g (List.mem_append_left bs hg)
  cases o with
  | none =>
    rw [Option.elim_none, List.nil_append, modeText]
    rw [show "Mode" = Element.mode.name from rfl, firstBlock_eq_none hmode]
    rfl
  | some t =>
    rw [Option.elim_some, StopEvent.modePieces, modeText, show "Mode" = Element.mode.name from rfl]
    rcases has with has | has
    · rw [firstBlock_element has (hcontent t)]
      exact hinner t [] (by simp) (by simp)
    · obtain ⟨as', hsuf, heq⟩ := exists_firstBlock_element gaps bs hmode' (hcontent t)
      rw [heq]
      exact hinner t as' (fun g hg => has g (hsuf.subset hg)) fun g hg => hshort g (hsuf.subset hg)

end Element

end Traintime.Ojp
