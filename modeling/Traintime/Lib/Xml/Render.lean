import Mathlib.Data.List.Basic
import Mathlib.Tactic.SplitIfs
import Traintime.Lib.Xml.Reader

/-!
# Reading back what was rendered

A document put together from start tags, end tags and literal text is read as these tags and the
characters of the text, when the tags are nested and the text has nothing that the reader would not
take literally.

## Main definitions

* `Xml.Piece`, `Xml.render`, `Xml.report`: the pieces of a document, its characters and its events.
* `Xml.scan`: the literal text.
* `Xml.Place`, `Xml.Piece.next`: the pieces that fit after each other.

## Main results

* `Xml.run_render`: pieces that fit are read as they were put together.
-/

namespace Xml

/-- A piece of a document. -/
inductive Piece
  | startTag (name : Name) (attrs : Attrs)
  | endTag (name : Name)
  | text (l : List Char)
deriving DecidableEq, Repr

/-- An attribute as it is written, with the space before it. -/
def renderAttr (a : Name × List Char) : List Char := ' ' :: a.1 ++ '=' :: '"' :: a.2 ++ ['"']

/-- The characters of a piece. -/
def Piece.render : Piece → List Char
  | .startTag name attrs => '<' :: name ++ attrs.flatMap renderAttr ++ ['>']
  | .endTag name => '<' :: '/' :: name ++ ['>']
  | .text l => l

/-- What the reader reports of a piece that is written literally. -/
def Piece.report : Piece → List Event
  | .startTag name attrs => [.startTag name attrs]
  | .endTag name => [.endTag name]
  | .text l => l.map .char

/-- The characters of a document. -/
def render (ps : List Piece) : List Char := ps.flatMap Piece.render

/-- The events of a document. -/
def report (ps : List Piece) : List Event := ps.flatMap Piece.report

/-- A document as a tree. -/
inductive Node
  | elem (name : Name) (attrs : Attrs) (children : List Node)
  | text (l : List Char)

mutual

/-- The pieces of a tree, in document order. -/
def Node.pieces : Node → List Piece
  | .elem name attrs children => .startTag name attrs :: (piecesList children ++ [.endTag name])
  | .text l => [.text l]

/-- The pieces of some nodes one after the other. -/
def Node.piecesList : List Node → List Piece
  | [] => []
  | n :: ns => n.pieces ++ piecesList ns

end

theorem render_append_text (ps qs : List Piece) (l : List Char) :
    render (ps ++ .text l :: qs) = render ps ++ (l ++ render qs) := by
  rw [render, List.flatMap_append, List.flatMap_cons]
  rfl

/-! ### What is read literally -/

/-- A character that content may have as it is. -/
def isLiteral (c : Char) : Bool := isXmlChar c && c != '<' && c != '&' && c != '\r'

/-- The closing brackets counted at the end of a literal text, if it is one. The count goes up to
two, and `]]>` is none. -/
def scan (k : ℕ) : List Char → Option ℕ
  | [] => some k
  | c :: l =>
    if isLiteral c = false then none
    else if c = ']' then scan (min 2 (k + 1)) l
    else if c = '>' ∧ k = 2 then none
    else scan 0 l

/-- A name that a tag can have: a first character of a name, and characters of names behind it. -/
def validName : Name → Bool
  | [] => false
  | c :: l => isNameStart c && isXmlChar c && l.all fun c => isNameChar c && isXmlChar c

/-- An attribute value that is read as it is, between double quotes. -/
def validValue (l : List Char) : Bool :=
  l.all fun c => isXmlChar c && c != '<' && c != '&' && c != '"' && (!isSpace c || c == ' ')

/-- Attributes with distinct names. -/
def validAttrs (attrs : Attrs) : Bool :=
  (attrs.map Prod.fst).Nodup && attrs.all fun a => validName a.1 && validValue a.2

/-- Where a document stands between two pieces. -/
structure Place where
  brackets : ℕ
  stack : List Name
  seenRoot : Bool
deriving DecidableEq, Repr

/-- The place after a piece, if the piece fits. -/
def Piece.next (p : Place) : Piece → Option Place
  | .startTag name attrs =>
    if validName name = true ∧ validAttrs attrs = true ∧ ¬ (p.stack = [] ∧ p.seenRoot = true) then
      some ⟨0, name :: p.stack, true⟩
    else none
  | .endTag name =>
    match p.stack with
    | top :: stack =>
      if name = top ∧ validName name = true then some ⟨0, stack, p.seenRoot⟩ else none
    | [] => none
  | .text l =>
    if p.stack = [] then none
    else (scan p.brackets l).map fun k => ⟨k, p.stack, p.seenRoot⟩

/-- The state of the reader at a place. -/
def Place.state (p : Place) (events : List Event) : State :=
  ⟨false, .text p.brackets, p.stack, p.seenRoot, events⟩

/-! ### Runs -/

variable {s t : State} {l l' : List Char} {c : Char}

theorem run_cons : run s (c :: l) = (step s c).bind fun t => run t l := by
  rw [run, List.foldlM_cons]
  rfl

theorem run_append : run s (l ++ l') = (run s l).bind fun t => run t l' := by
  rw [run, List.foldlM_append]
  rfl

theorem run_append_of_run (h : run s l = some t) : run s (l ++ l') = run t l' := by
  rw [run_append, h, Option.bind_some]

theorem run_cons_of_step (h : step s c = some t) : run s (c :: l) = run t l := by
  rw [run_cons, h, Option.bind_some]

theorem step_eq_stepMode (hcr : s.cr = false) (hx : isXmlChar c = true) (hc : c ≠ '\r') :
    step s c = stepMode s c := by
  have hs : { s with cr := c == '\r' } = s := by
    rw [beq_eq_false_iff_ne.2 hc, ← hcr]
  rw [step, if_pos hx, if_neg (by simp [hcr]), if_neg hc, hs]

theorem isLiteral_iff : isLiteral c = true ↔
    isXmlChar c = true ∧ c ≠ '<' ∧ c ≠ '&' ∧ c ≠ '\r' := by
  simp [isLiteral, and_assoc]

section Runs

variable {k : ℕ} {stack : List Name} {root : Bool} {events : List Event}

theorem step_text (hstack : stack ≠ []) (hc : isLiteral c = true) :
    step ⟨false, .text k, stack, root, events⟩ c =
      if c = ']' then some ⟨false, .text (min 2 (k + 1)), stack, root, events ++ [.char c]⟩
      else if c = '>' ∧ k = 2 then none
      else some ⟨false, .text 0, stack, root, events ++ [.char c]⟩ := by
  obtain ⟨hx, hlt, hamp, hcr⟩ := isLiteral_iff.1 hc
  rw [step_eq_stepMode rfl hx hcr]
  simp only [stepMode, stepText, hlt, hstack, hamp, if_false]
  rfl

/-- Literal text is read as its characters. -/
theorem run_scan {k' : ℕ} (hstack : stack ≠ []) (h : scan k l = some k') :
    run ⟨false, .text k, stack, root, events⟩ l =
      some ⟨false, .text k', stack, root, events ++ l.map .char⟩ := by
  induction l generalizing k events with
  | nil =>
    obtain rfl := Option.some.inj h
    rw [List.map_nil, List.append_nil]
    rfl
  | cons c l ih =>
    rw [scan] at h
    split_ifs at h with hlit hbr hgt
    · have hstep : step ⟨false, .text k, stack, root, events⟩ c = _ :=
        step_text hstack (eq_true_of_ne_false hlit)
      rw [if_pos hbr] at hstep
      rw [run_cons_of_step hstep, ih h, List.map_cons, List.append_assoc, List.singleton_append]
    · have hstep : step ⟨false, .text k, stack, root, events⟩ c = _ :=
        step_text hstack (eq_true_of_ne_false hlit)
      rw [if_neg hbr, if_neg hgt] at hstep
      rw [run_cons_of_step hstep, ih h, List.map_cons, List.append_assoc, List.singleton_append]

end Runs

/-! ### Tags -/

section Tags

variable {stack : List Name} {root : Bool} {events : List Event} {name attr : Name}
  {attrs before : Attrs}

theorem ne_of_isNameStart {d : Char} (h : isNameStart c = true) (hd : isNameStart d = false) :
    c ≠ d := by
  rintro rfl
  rw [h] at hd
  cases hd

theorem ne_of_isNameChar {d : Char} (h : isNameChar c = true) (hd : isNameChar d = false) :
    c ≠ d := by
  rintro rfl
  rw [h] at hd
  cases hd

theorem isSpace_of_isNameStart (h : isNameStart c = true) : isSpace c = false := by
  simp [isSpace, ne_of_isNameStart h (show isNameStart ' ' = false by decide),
    ne_of_isNameStart h (show isNameStart '\t' = false by decide),
    ne_of_isNameStart h (show isNameStart '\n' = false by decide),
    ne_of_isNameStart h (show isNameStart '\r' = false by decide)]

/-- The rest of a name, in a mode that collects one. -/
theorem run_name {m : Name → Mode} {acc : Name} (hacc : acc ≠ [])
    (hm : ∀ acc c, acc ≠ [] → isNameChar c = true →
      stepMode ⟨false, m acc, stack, root, events⟩ c =
        some ⟨false, m (acc ++ [c]), stack, root, events⟩)
    (h : l.all (fun c => isNameChar c && isXmlChar c) = true) :
    run ⟨false, m acc, stack, root, events⟩ l =
      some ⟨false, m (acc ++ l), stack, root, events⟩ := by
  induction l generalizing acc with
  | nil =>
    rw [List.append_nil]
    rfl
  | cons c l ih =>
    obtain ⟨hc, hl⟩ := Bool.and_eq_true_iff.1 h
    obtain ⟨hname, hx⟩ := Bool.and_eq_true_iff.1 hc
    have hstep : step ⟨false, m acc, stack, root, events⟩ c =
        some ⟨false, m (acc ++ [c]), stack, root, events⟩ := by
      rw [step_eq_stepMode rfl hx (ne_of_isNameChar hname (by decide))]
      exact hm acc c hacc hname
    rw [run_cons_of_step hstep, ih (by simp) hl, List.append_assoc, List.singleton_append]

/-- A character in a mode, where it is given what the mode does with it. -/
theorem run_step {m : Mode} (hx : isXmlChar c = true) (hc : c ≠ '\r')
    (h : stepMode ⟨false, m, stack, root, events⟩ c = some t) :
    run ⟨false, m, stack, root, events⟩ (c :: l) = run t l :=
  run_cons_of_step ((step_eq_stepMode rfl hx hc).trans h)

/-- The characters of an attribute value. -/
theorem run_value {acc : List Char} (h : validValue l = true) :
    run ⟨false, .attrValue name attrs attr '"' acc, stack, root, events⟩ l =
      some ⟨false, .attrValue name attrs attr '"' (acc ++ l), stack, root, events⟩ := by
  induction l generalizing acc with
  | nil =>
    rw [List.append_nil]
    rfl
  | cons c l ih =>
    obtain ⟨hc, hl⟩ := Bool.and_eq_true_iff.1 h
    simp only [Bool.and_eq_true, bne_iff_ne, ne_eq, Bool.or_eq_true, Bool.not_eq_true',
      beq_iff_eq] at hc
    obtain ⟨⟨⟨⟨hx, hlt⟩, hamp⟩, hquote⟩, hspace⟩ := hc
    have hchar : (if isSpace c then ' ' else c) = c := by
      rcases hspace with hspace | rfl
      · rw [hspace]
        rfl
      · rfl
    have hcr : c ≠ '\r' := by
      rintro rfl
      rcases hspace with hspace | hspace <;> exact absurd hspace (by decide)
    rw [run_step (t := ⟨false, .attrValue name attrs attr '"' (acc ++ [c]), stack, root, events⟩)
      hx hcr, ih hl, List.append_assoc, List.singleton_append]
    simp only [stepMode, hquote, hlt, hamp, hchar, if_false]
    rfl

/-- An attribute, in a tag after a space. -/
theorem run_attr {value : List Char} (hattr : validName attr = true)
    (hvalue : validValue value = true) (hfresh : attr ∉ before.map Prod.fst) :
    run ⟨false, .inTag name before true, stack, root, events⟩
        (attr ++ ('=' :: '"' :: (value ++ ['"']))) =
      some ⟨false, .inTag name (before ++ [(attr, value)]) false, stack, root, events⟩ := by
  obtain ⟨c, l, rfl⟩ : ∃ c l, attr = c :: l := by
    cases attr with
    | nil => cases hattr
    | cons c l => exact ⟨c, l, rfl⟩
  obtain ⟨hc, hl⟩ := Bool.and_eq_true_iff.1 hattr
  obtain ⟨hstart, hx⟩ := Bool.and_eq_true_iff.1 hc
  have hfirst : stepMode ⟨false, .inTag name before true, stack, root, events⟩ c =
      some ⟨false, .attrName name before [c], stack, root, events⟩ := by
    simp only [stepMode, isSpace_of_isNameStart hstart, hstart,
      ne_of_isNameStart hstart (show isNameStart '>' = false by decide),
      ne_of_isNameStart hstart (show isNameStart '/' = false by decide)]
    rfl
  have hname : run ⟨false, .attrName name before [c], stack, root, events⟩ l = _ :=
    run_name (m := .attrName name before) (List.cons_ne_nil c []) (fun acc c _ hc => if_pos hc) hl
  rw [List.cons_append, run_step hx (ne_of_isNameStart hstart (by decide)) hfirst,
    run_append_of_run hname]
  rw [run_step (t := ⟨false, .attrOpen name before (c :: l), stack, root, events⟩) (by decide)
      (by decide) rfl,
    run_step (t := ⟨false, .attrValue name before (c :: l) '"' [], stack, root, events⟩)
      (by decide) (by decide) rfl,
    run_append_of_run (run_value hvalue), List.nil_append]
  have hquote : stepMode ⟨false, .attrValue name before (c :: l) '"' value, stack, root, events⟩ '"' =
      some ⟨false, .inTag name (before ++ [(c :: l, value)]) false, stack, root, events⟩ :=
    if_neg hfresh
  rw [run_step (by decide) (by decide) hquote]
  rfl

theorem validAttrs_middle {value : List Char}
    (h : validAttrs (before ++ (attr, value) :: attrs) = true) :
    validName attr = true ∧ validValue value = true ∧ attr ∉ before.map Prod.fst := by
  obtain ⟨hnodup, hall⟩ := Bool.and_eq_true_iff.1 h
  obtain ⟨hname, hvalue⟩ := Bool.and_eq_true_iff.1 (List.all_eq_true.1 hall (attr, value) (by simp))
  refine ⟨hname, hvalue, fun hmem => ?_⟩
  have hnodup := of_decide_eq_true hnodup
  rw [List.map_append, List.nodup_append] at hnodup
  exact hnodup.2.2 attr hmem attr (by simp) rfl

/-- A start tag after its name or an attribute. -/
theorem run_attrs {m : Mode}
    (hspace : stepMode ⟨false, m, stack, root, events⟩ ' ' =
      some ⟨false, .inTag name before true, stack, root, events⟩)
    (hgt : stepMode ⟨false, m, stack, root, events⟩ '>' =
      State.openElement ⟨false, m, stack, root, events⟩ name before)
    (hattrs : validAttrs (before ++ attrs) = true) (hroot : ¬ (stack = [] ∧ root = true)) :
    run ⟨false, m, stack, root, events⟩ (attrs.flatMap renderAttr ++ ['>']) =
      some ⟨false, .text 0, name :: stack, true, events ++ [.startTag name (before ++ attrs)]⟩ := by
  induction attrs generalizing m before with
  | nil =>
    rw [State.openElement, if_neg hroot] at hgt
    rw [List.append_nil, List.flatMap_nil, List.nil_append, run_step (by decide) (by decide) hgt]
    rfl
  | cons a attrs ih =>
    obtain ⟨attr, value⟩ := a
    obtain ⟨hname, hvalue, hfresh⟩ := validAttrs_middle hattrs
    have hchars : ((attr, value) :: attrs).flatMap renderAttr ++ ['>'] =
        ' ' :: (attr ++ ('=' :: '"' :: (value ++ ['"'])) ++
          (attrs.flatMap renderAttr ++ ['>'])) := by
      simp [renderAttr]
    have happend : before ++ (attr, value) :: attrs = before ++ [(attr, value)] ++ attrs := by simp
    rw [hchars, happend, run_step (by decide) (by decide) hspace,
      run_append_of_run (run_attr hname hvalue hfresh)]
    exact ih rfl rfl (happend ▸ hattrs)

/-- The bracket and the name that a start tag begins with. -/
theorem run_lt_name (hname : validName name = true) (k : ℕ) :
    run ⟨false, .text k, stack, root, events⟩ ('<' :: name ++ l) =
      run ⟨false, .openName name, stack, root, events⟩ l := by
  obtain ⟨c, cs, rfl⟩ : ∃ c cs, name = c :: cs := by
    cases name with
    | nil => cases hname
    | cons c cs => exact ⟨c, cs, rfl⟩
  obtain ⟨hc, hcs⟩ := Bool.and_eq_true_iff.1 hname
  obtain ⟨hstart, hx⟩ := Bool.and_eq_true_iff.1 hc
  have hfirst : stepMode ⟨false, .lt false, stack, root, events⟩ c =
      some ⟨false, .openName [c], stack, root, events⟩ := if_pos hstart
  have hrest : run ⟨false, .openName [c], stack, root, events⟩ cs = _ :=
    run_name (m := .openName) (List.cons_ne_nil c []) (fun acc c _ hc => if_pos hc) hcs
  rw [List.cons_append, run_step (t := ⟨false, .lt false, stack, root, events⟩) (by decide)
    (by decide) rfl, List.cons_append, run_step hx (ne_of_isNameStart hstart (by decide)) hfirst,
    run_append_of_run hrest, List.singleton_append]

theorem run_startTag (hname : validName name = true) (hattrs : validAttrs attrs = true)
    (hroot : ¬ (stack = [] ∧ root = true)) (k : ℕ) :
    run ⟨false, .text k, stack, root, events⟩ (Piece.startTag name attrs).render =
      some ⟨false, .text 0, name :: stack, true, events ++ [.startTag name attrs]⟩ := by
  rw [Piece.render, List.append_assoc, run_lt_name hname]
  have htag : run ⟨false, .openName name, stack, root, events⟩
      (attrs.flatMap renderAttr ++ ['>']) =
      some ⟨false, .text 0, name :: stack, true, events ++ [.startTag name ([] ++ attrs)]⟩ :=
    run_attrs rfl rfl hattrs hroot
  exact htag

theorem run_endTag (hname : validName name = true) (k : ℕ) :
    run ⟨false, .text k, name :: stack, root, events⟩ (Piece.endTag name).render =
      some ⟨false, .text 0, stack, root, events ++ [.endTag name]⟩ := by
  obtain ⟨c, cs, rfl⟩ : ∃ c cs, name = c :: cs := by
    cases name with
    | nil => cases hname
    | cons c cs => exact ⟨c, cs, rfl⟩
  obtain ⟨hc, hcs⟩ := Bool.and_eq_true_iff.1 hname
  obtain ⟨hstart, hx⟩ := Bool.and_eq_true_iff.1 hc
  have hfirst : stepMode ⟨false, .closeName [], (c :: cs) :: stack, root, events⟩ c =
      some ⟨false, .closeName [c], (c :: cs) :: stack, root, events⟩ := if_pos hstart
  have hrest : run ⟨false, .closeName [c], (c :: cs) :: stack, root, events⟩ cs = _ :=
    run_name (m := .closeName) (List.cons_ne_nil c [])
      (fun acc c hacc hc => by simp only [stepMode, hacc, hc, if_true, if_false]; rfl) hcs
  have hlast : stepMode ⟨false, .closeName (c :: cs), (c :: cs) :: stack, root, events⟩ '>' =
      some ⟨false, .text 0, stack, root, events ++ [.endTag (c :: cs)]⟩ := if_pos rfl
  rw [Piece.render, List.cons_append, List.cons_append,
    run_step (t := ⟨false, .lt false, (c :: cs) :: stack, root, events⟩) (by decide) (by decide) rfl,
    run_step (t := ⟨false, .closeName [], (c :: cs) :: stack, root, events⟩) (by decide) (by decide)
      rfl, List.cons_append, run_step hx (ne_of_isNameStart hstart (by decide)) hfirst,
    run_append_of_run hrest, List.singleton_append, run_step (by decide) (by decide) hlast]
  rfl

end Tags

/-- A piece that fits is read as it was put together. -/
theorem run_piece {pc : Piece} {p p' : Place} (events : List Event) (h : pc.next p = some p') :
    run (p.state events) pc.render = some (p'.state (events ++ pc.report)) := by
  cases pc with
  | startTag name attrs =>
    simp only [Piece.next] at h
    split_ifs at h with hfit
    obtain rfl := Option.some.inj h
    exact run_startTag hfit.1 hfit.2.1 hfit.2.2 p.brackets
  | endTag name =>
    simp only [Piece.next] at h
    split at h
    · rename_i top stack hstack
      split_ifs at h with hfit
      obtain rfl := Option.some.inj h
      obtain ⟨rfl, hname⟩ := hfit
      rw [Place.state, hstack]
      exact run_endTag hname p.brackets
    · cases h
  | text l =>
    simp only [Piece.next] at h
    split_ifs at h with hstack
    obtain ⟨k, hk, rfl⟩ := Option.map_eq_some_iff.1 h
    exact run_scan hstack hk

/-- Pieces that fit are read as they were put together. -/
theorem run_render {ps : List Piece} {p p' : Place} (events : List Event)
    (h : ps.foldlM Piece.next p = some p') :
    run (p.state events) (render ps) = some (p'.state (events ++ report ps)) := by
  induction ps generalizing p events with
  | nil =>
    obtain rfl := Option.some.inj h
    simp only [report, List.flatMap_nil, List.append_nil]
    rfl
  | cons pc ps ih =>
    rw [List.foldlM_cons] at h
    obtain ⟨q, hq, hps⟩ := Option.bind_eq_some_iff.1 h
    have hchars : render (pc :: ps) = pc.render ++ render ps := List.flatMap_cons
    have hevents : report (pc :: ps) = pc.report ++ report ps := List.flatMap_cons
    rw [hchars, hevents, run_append_of_run (run_piece events hq), ih _ hps, List.append_assoc]

/-- A text after pieces that fit. -/
theorem foldlM_append_text {ps qs : List Piece} {p : Place} {b k : ℕ} {stack : List Name}
    {root : Bool} {l : List Char} (hps : ps.foldlM Piece.next p = some ⟨b, stack, root⟩)
    (hstack : stack ≠ []) (hl : scan b l = some k) :
    (ps ++ .text l :: qs).foldlM Piece.next p = qs.foldlM Piece.next ⟨k, stack, root⟩ := by
  have htext : Piece.next ⟨b, stack, root⟩ (.text l) = some ⟨k, stack, root⟩ := by
    simp only [Piece.next, hstack, hl, if_false, Option.map_some]
  rw [List.foldlM_append, hps, Option.bind_eq_bind, Option.bind_some, List.foldlM_cons, htext,
    Option.bind_eq_bind, Option.bind_some]

end Xml
