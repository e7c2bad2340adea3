import Mathlib.Data.List.Basic
import Traintime.Lib.Xml.Render

/-!
# Documents as they are written

The grammar of well-formed documents, as far as it says where tags begin and end: references are
text like any other, and a document type declaration is not looked into. All well-formed documents
are made of such parts, and so is the content of an element.

## Main definitions

* `Xml.Part`: an element, an empty-element tag, text, or something that is not for the content.
* `Xml.Part.text`: the characters of a part.
* `Xml.localName`: a name without its prefix.
* `Xml.elementsList`: the elements whose names are chosen, in document order.

## Main results

* `Xml.settled_textList`: tags and the like end before what follows them.
* `Xml.mem_elementsList`: where an element is written.
* `Xml.pairwise_elementsList`: the elements are in the order in which they begin.
-/

namespace Xml

/-! ### The parts of a tag -/

/-- A name. -/
structure TagName where
  val : Name
  valid : validName val = true

/-- White space. -/
structure Space where
  val : List Char
  space : ∀ c ∈ val, isSpace c = true

/-- Whether quotes come in pairs, with `<` nowhere and the other characters that end a tag in quotes
only. -/
def validInside : Option Char → List Char → Bool
  | none, [] => true
  | some _, [] => false
  | none, c :: l =>
    if c = '"' ∨ c = '\'' then validInside (some c) l
    else c != '<' && c != '>' && c != '/' && validInside none l
  | some q, c :: l =>
    if c = q then validInside none l else c != '<' && validInside (some q) l

/-- The attributes of a tag, with the white space before and after them. -/
structure Inside where
  val : List Char
  valid : validInside none val = true
  space : ∀ c ∈ val.head?, isSpace c = true

/-! ### What is no tag -/

/-- Character data and references. -/
structure Chars where
  val : List Char
  not_mem : '<' ∉ val

/-- The markup between the tags of a document that is no tag. -/
inductive AsideKind
  | comment
  | cdata
  | instruction
  | doctype
deriving DecidableEq, Repr

namespace AsideKind

/-- The characters that it begins with. -/
def start : AsideKind → List Char
  | comment => ['<', '!', '-', '-']
  | cdata => ['<', '!', '[', 'C', 'D', 'A', 'T', 'A', '[']
  | instruction => ['<', '?']
  | doctype => ['<', '!', 'D', 'O', 'C', 'T', 'Y', 'P', 'E']

/-- The characters that it ends with. -/
def stop : AsideKind → List Char
  | comment => ['-', '-', '>']
  | cdata => [']', ']', '>']
  | instruction => ['?', '>']
  | doctype => ['>']

/-- What may stand between the start and the stop. -/
def Admits (l : List Char) : AsideKind → Prop
  | comment => ¬ ['-', '-'] <:+: l ++ ['-']
  | cdata => ¬ [']', ']', '>'] <:+: l
  | instruction => ¬ ['?', '>'] <:+: l
  | doctype => True

end AsideKind

/-- A comment, a CDATA section, a processing instruction or declaration, or a document type
declaration. -/
structure Aside where
  kind : AsideKind
  val : List Char
  admits : kind.Admits val

/-- The markup with its start and its stop. -/
def Aside.text (a : Aside) : List Char := a.kind.start ++ (a.val ++ a.kind.stop)

/-! ### Documents -/

/-- A part of a document. The end tag of an element may have white space after the name. -/
inductive Part
  | element (name : TagName) (inside : Inside) (content : List Part) (space : Space)
  | empty (name : TagName) (inside : Inside)
  | chars (t : Chars)
  | aside (a : Aside)

/-- The start tag of an element, with what stands behind the name. -/
def startTag (name : TagName) (inside : Inside) : List Char :=
  '<' :: (name.val ++ (inside.val ++ ['>']))

/-- The tag of an element without content, which opens and closes it. -/
def emptyTag (name : TagName) (inside : Inside) : List Char :=
  '<' :: (name.val ++ (inside.val ++ ['/', '>']))

/-- The end tag of an element, with the white space behind its name. -/
def endTag (name : TagName) (space : Space) : List Char :=
  '<' :: '/' :: (name.val ++ (space.val ++ ['>']))

mutual

/-- The characters of a part. -/
def Part.text : Part → List Char
  | .element name inside content space =>
    startTag name inside ++ (textList content ++ endTag name space)
  | .empty name inside => emptyTag name inside
  | .chars t => t.val
  | .aside a => a.text

/-- The characters of a document or of the content of an element. -/
def textList : List Part → List Char
  | [] => []
  | p :: ps => p.text ++ textList ps

end

/-- A name without its prefix. -/
def localName (name : Name) : Name :=
  if ':' ∈ name then (name.dropWhile (· != ':')).tail else name

mutual

/-- The elements of a part whose names are chosen, each with what follows it, where `rest` follows
the part. -/
def Part.elements (chosen : Name → Bool) (rest : List Char) : Part → List (Part × List Char)
  | .element name inside content space =>
    (if chosen name.val then [(.element name inside content space, rest)] else []) ++
      elementsList chosen (endTag name space ++ rest) content
  | .empty _ _ => []
  | .chars _ => []
  | .aside _ => []

/-- The elements in document order, where `rest` follows the document. -/
def elementsList (chosen : Name → Bool) (rest : List Char) : List Part → List (Part × List Char)
  | [] => []
  | p :: ps => p.elements chosen (textList ps ++ rest) ++ elementsList chosen rest ps

end

/-! ### Characters of tags -/

theorem TagName.isNameChar (name : TagName) : ∀ c ∈ name.val, isNameChar c = true := by
  obtain ⟨l, hl⟩ := name
  cases l with
  | nil => simp
  | cons d l =>
    simp only [validName, Bool.and_eq_true, List.all_eq_true] at hl
    rintro c (_ | ⟨_, hc⟩)
    · rw [Xml.isNameChar, hl.1.1]
      rfl
    · exact (hl.2 c hc).1

theorem TagName.not_mem (name : TagName) {c : Char} (hc : Xml.isNameChar c = false) :
    c ∉ name.val := by
  intro h
  rw [name.isNameChar c h] at hc
  cases hc

theorem Space.not_mem (space : Space) {c : Char} (hc : isSpace c = false) : c ∉ space.val := by
  intro h
  rw [space.space c h] at hc
  cases hc

/-- Characters up to here end no tag that does not end in them. -/
def Settled (l : List Char) : Prop := ∀ u v, l = u ++ '<' :: v → '>' ∈ v

theorem open_not_mem_of_validInside {quote : Option Char} {l : List Char}
    (hquote : quote ≠ some '<') (h : validInside quote l = true) : '<' ∉ l := by
  induction l generalizing quote with
  | nil => exact List.not_mem_nil
  | cons c l ih =>
    rw [List.mem_cons, not_or]
    cases quote with
    | none =>
      rw [validInside] at h
      split_ifs at h with hc
      · have hne : c ≠ '<' := by
          rintro rfl
          exact absurd hc (by decide)
        exact ⟨hne.symm, ih (by simpa using hne) h⟩
      · simp only [Bool.and_eq_true, bne_iff_ne] at h
        exact ⟨h.1.1.1.symm, ih hquote h.2⟩
    | some q =>
      rw [validInside] at h
      split_ifs at h with hc
      · subst hc
        exact ⟨by simpa [eq_comm] using hquote, ih (by simp) h⟩
      · simp only [Bool.and_eq_true, bne_iff_ne] at h
        exact ⟨h.1.symm, ih hquote h.2⟩

theorem Inside.not_mem (inside : Inside) : '<' ∉ inside.val :=
  open_not_mem_of_validInside (by simp) inside.valid

theorem open_not_mem_name (name : TagName) : '<' ∉ name.val := name.not_mem (by decide)

/-! ### Where tags end -/

section Settled

variable {l l' : List Char}

theorem settled_of_not_mem (h : '<' ∉ l) : Settled l := by
  rintro u v rfl
  exact absurd (List.mem_append_right u List.mem_cons_self) h

/-- Something that ends like a tag leaves none open. -/
theorem settled_concat (l : List Char) : Settled (l ++ ['>']) := by
  intro u v h
  rcases v.eq_nil_or_concat' with rfl | ⟨v, c, rfl⟩
  · have hlast := (List.append_inj' h rfl).2
    cases hlast
  · have hsplit : l ++ ['>'] = (u ++ '<' :: v) ++ [c] := by
      rw [h, List.append_assoc, List.cons_append]
    exact List.mem_append_right v ((List.append_inj' hsplit rfl).2 ▸ List.mem_cons_self)

theorem Settled.append (h : Settled l) (h' : Settled l') : Settled (l ++ l') := by
  intro u v huv
  rcases List.append_eq_append_iff.1 huv with ⟨w, rfl, hw⟩ | ⟨w, hw, hv⟩
  · exact h' w v hw
  · cases w with
    | nil => exact h' [] v (by simpa using hv.symm)
    | cons c w =>
      rw [List.cons_append, List.cons.injEq] at hv
      obtain ⟨rfl, rfl⟩ := hv
      exact List.mem_append_left l' (h u w hw)

theorem settled_startTag (name : TagName) (inside : Inside) : Settled (startTag name inside) := by
  have h : startTag name inside = '<' :: (name.val ++ inside.val) ++ ['>'] := by simp [startTag]
  exact h ▸ settled_concat _

/-- A start tag up to the first `>`, which may be in an attribute, and what comes after. -/
theorem exists_startTag_eq (name : TagName) (inside : Inside) :
    ∃ w w', startTag name inside = '<' :: (name.val ++ (w ++ '>' :: w')) ∧ '>' ∉ w ∧ '<' ∉ w ∧
      '<' ∉ w' := by
  have hstop : '>' ∈ inside.val ++ ['>'] := List.mem_append_right _ List.mem_cons_self
  have hopen : '<' ∉ inside.val ++ ['>'] := List.not_mem_append inside.not_mem (by decide)
  obtain ⟨w, w', hw, hw'⟩ := List.eq_append_cons_of_mem hstop
  rw [hw, List.mem_append, List.mem_cons, not_or, not_or] at hopen
  exact ⟨w, w', by rw [startTag, hw], hw', hopen.1, hopen.2.2⟩

theorem settled_aside (a : Aside) : Settled a.text := by
  have hstop : ∃ l, a.kind.stop = l ++ ['>'] := by
    cases a.kind
    · exact ⟨['-', '-'], rfl⟩
    · exact ⟨[']', ']'], rfl⟩
    · exact ⟨['?'], rfl⟩
    · exact ⟨[], rfl⟩
  obtain ⟨l, hl⟩ := hstop
  rw [Aside.text, hl, ← List.append_assoc, ← List.append_assoc]
  exact settled_concat _

mutual

theorem settled_text : (p : Part) → Settled p.text
  | .element name inside content space => by
    have h : endTag name space = '<' :: '/' :: (name.val ++ space.val) ++ ['>'] := by simp [endTag]
    rw [Part.text, h]
    exact (settled_startTag name inside).append
      ((settled_textList content).append (settled_concat _))
  | .empty name inside => by
    have h : emptyTag name inside = '<' :: (name.val ++ (inside.val ++ ['/'])) ++ ['>'] := by
      simp [emptyTag]
    rw [Part.text, h]
    exact settled_concat _
  | .chars t => settled_of_not_mem t.not_mem
  | .aside a => settled_aside a

/-- What is in a document ends before what follows it. -/
theorem settled_textList : (ps : List Part) → Settled (textList ps)
  | [] => settled_of_not_mem List.not_mem_nil
  | p :: ps => (settled_text p).append (settled_textList ps)

end

end Settled

/-! ### Elements -/

section Elements

variable {chosen : Name → Bool} {l l' rest : List Char} {e : Part × List Char}

/-- The element is written in a text, with the rest of it and more after it. -/
structure Occurs (chosen : Name → Bool) (l rest : List Char) (e : Part × List Char) : Prop where
  element : ∃ name inside content space,
    e.1 = .element name inside content space ∧ chosen name.val = true
  place : ∃ u v, l = u ++ (e.1.text ++ v) ∧ e.2 = v ++ rest ∧ Settled u

theorem Occurs.append_left (h : Occurs chosen l' rest e) (hl : Settled l) :
    Occurs chosen (l ++ l') rest e := by
  obtain ⟨u, v, rfl, hafter, hu⟩ := h.place
  exact ⟨h.element, l ++ u, v, (List.append_assoc _ _ _).symm, hafter, hl.append hu⟩

theorem Occurs.append_right (h : Occurs chosen l (l' ++ rest) e) :
    Occurs chosen (l ++ l') rest e := by
  obtain ⟨u, v, rfl, hafter, hu⟩ := h.place
  refine ⟨h.element, u, v ++ l', ?_, ?_, hu⟩
  · simp only [List.append_assoc]
  · rw [hafter, List.append_assoc]

mutual

theorem occurs_of_mem_elements : {p : Part} → {rest : List Char} →
    e ∈ p.elements chosen rest → Occurs chosen p.text rest e
  | .element name inside content space, rest, h => by
    rw [Part.elements, List.mem_append] at h
    rcases h with h | h
    · split_ifs at h with hname
      · rw [List.mem_singleton] at h
        subst h
        exact ⟨⟨name, inside, content, space, rfl, hname⟩, [], [], by simp, rfl,
          settled_of_not_mem List.not_mem_nil⟩
      · cases h
    · rw [Part.text]
      exact (mem_elementsList h).append_right.append_left (settled_startTag name inside)

/-- Where an element is written. -/
theorem mem_elementsList : {ps : List Part} → {rest : List Char} →
    e ∈ elementsList chosen rest ps → Occurs chosen (textList ps) rest e
  | p :: ps, rest, h => by
    rw [elementsList, List.mem_append] at h
    rw [textList]
    rcases h with h | h
    · exact (occurs_of_mem_elements h).append_right
    · exact (mem_elementsList h).append_left (settled_text p)

end

/-- An element has a tag. -/
theorem Occurs.length_lt (h : Occurs chosen l rest e) : rest.length < (e.1.text ++ e.2).length := by
  obtain ⟨⟨name, inside, content, space, he, -⟩, u, v, -, hafter, -⟩ := h
  rw [he, Part.text, startTag, hafter]
  simp
  omega

theorem Occurs.length_le (h : Occurs chosen l rest e) :
    (e.1.text ++ e.2).length ≤ (l ++ rest).length := by
  obtain ⟨-, u, v, rfl, hafter, -⟩ := h
  rw [hafter]
  simp

/-- What begins earlier has more characters up to the end. -/
def Earlier (e e' : Part × List Char) : Prop :=
  (e'.1.text ++ e'.2).length < (e.1.text ++ e.2).length

mutual

theorem pairwise_elements : (p : Part) → (rest : List Char) →
    (p.elements chosen rest).Pairwise Earlier
  | .element name inside content space, rest => by
    rw [Part.elements, List.pairwise_append]
    refine ⟨?_, pairwise_elementsList content _, ?_⟩
    · split_ifs <;> simp
    · intro e he e' he'
      split_ifs at he
      · obtain rfl := List.mem_singleton.1 he
        have hle := (mem_elementsList he').length_le
        rw [Earlier, Part.text, startTag]
        simp at hle ⊢
        omega
      · cases he
  | .empty _ _, _ => .nil
  | .chars _, _ => .nil
  | .aside _, _ => .nil

/-- The elements are in the order in which they begin. -/
theorem pairwise_elementsList : (ps : List Part) → (rest : List Char) →
    (elementsList chosen rest ps).Pairwise Earlier
  | [], _ => .nil
  | p :: ps, rest => by
    rw [elementsList, List.pairwise_append]
    refine ⟨pairwise_elements p _, pairwise_elementsList ps rest, ?_⟩
    intro e he e' he'
    exact Nat.lt_of_le_of_lt (mem_elementsList he').length_le (occurs_of_mem_elements he).length_lt

end

end Elements

end Xml
