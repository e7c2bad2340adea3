import Traintime.Core.Ojp.Pieces

/-!
# The tags of a response

The elements of a response under their names, each with or without a namespace, and which of their
tags the patterns take.

## Main definitions

* `Element`, `Namespace`: what a tag is made of.
* `Piece.opening`, `Piece.closing`: a tag and the text after it.
* `Element.beginsWith`, `Namespace.beginsWith`: the names and the namespaces that a pattern takes by
  their beginning.

## Main results

* `opensAt_opening`, `closesAt_closing`: the tags that a pattern for blocks takes.
* `opensAt_leaf`, `opensAt_text`: the tags that the patterns for texts take.
-/

namespace Traintime.Ojp

open Regex

/-! ### Names -/

/-- The elements. -/
inductive Element
  | ojp
  | stopEventResult
  | stopEvent
  | previousCall
  | thisCall
  | onwardCall
  | callAtStop
  | serviceDeparture
  | timetabledTime
  | estimatedTime
  | plannedQuay
  | estimatedQuay
  | service
  | operatingDayRef
  | journeyRef
  | mode
  | shortName
  | publishedServiceName
  | destinationText
  | trainNumber
  | operatorRef
  | text
deriving DecidableEq, Repr

namespace Element

/-- All elements. -/
def all : List Element :=
  [ojp, stopEventResult, stopEvent, previousCall, thisCall, onwardCall, callAtStop,
    serviceDeparture, timetabledTime, estimatedTime, plannedQuay, estimatedQuay, service,
    operatingDayRef, journeyRef, mode, shortName, publishedServiceName, destinationText,
    trainNumber, operatorRef, text]

theorem mem_all (e : Element) : e ∈ all := by
  cases e <;> decide

/-- The local name of an element, as OJP spells it. -/
def name : Element → String
  | ojp => "OJP"
  | stopEventResult => "StopEventResult"
  | stopEvent => "StopEvent"
  | previousCall => "PreviousCall"
  | thisCall => "ThisCall"
  | onwardCall => "OnwardCall"
  | callAtStop => "CallAtStop"
  | serviceDeparture => "ServiceDeparture"
  | timetabledTime => "TimetabledTime"
  | estimatedTime => "EstimatedTime"
  | plannedQuay => "PlannedQuay"
  | estimatedQuay => "EstimatedQuay"
  | service => "Service"
  | operatingDayRef => "OperatingDayRef"
  | journeyRef => "JourneyRef"
  | mode => "Mode"
  | shortName => "ShortName"
  | publishedServiceName => "PublishedServiceName"
  | destinationText => "DestinationText"
  | trainNumber => "TrainNumber"
  | operatorRef => "OperatorRef"
  | text => "Text"

/-- The characters of the name, which stand in the tags of the element. -/
def chars (e : Element) : List Char := e.name.toList

/-- The elements whose name begins with the name of another. -/
def beginsWith (f e : Element) : Bool :=
  f == e || (f == stopEventResult && e == stopEvent) || (f == serviceDeparture && e == service)

end Element

/-- A namespace prefix in small letters. -/
structure Namespace where
  val : List Char
  ne_nil : val ≠ []
  lower : ∀ c ∈ val, c.isLower = true

namespace Namespace

/-- A prefix that begins with the name of an element in small letters. -/
def beginsWith (p : Namespace) (e : Element) : Bool := (e.chars.map foldCase).isPrefixOf p.val

end Namespace

/-- A text with no tag in it. -/
structure Plain where
  val : List Char
  not_mem : '<' ∉ val

namespace Plain

/-- No text behind a tag. -/
def empty : Plain := ⟨[], open_notMem_nil⟩

end Plain

/-- The name of an element with its namespace. -/
def qualified : Option Namespace → Element → List Char
  | none, e => e.chars
  | some p, e => p.val ++ ':' :: e.chars

theorem chars_isAlpha (e : Element) : ∀ c ∈ e.chars, c.isAlpha = true := by
  have h : Element.all.all (fun e => e.chars.all Char.isAlpha) = true := by decide +kernel
  exact List.all_eq_true.mp (List.all_eq_true.mp h e e.mem_all)

theorem isAlpha_of_isLower {c : Char} (h : c.isLower = true) : c.isAlpha = true := by
  show (c.isUpper || c.isLower) = true
  rw [h, Bool.or_true]

/-- The characters of a name. -/
theorem mem_qualified {ns : Option Namespace} {e : Element} {c : Char} (h : c ∈ qualified ns e) :
    c.isAlpha = true ∨ c = ':' := by
  cases ns with
  | none => exact .inl (chars_isAlpha e c h)
  | some p =>
    rcases List.mem_append.mp h with h | h
    · exact .inl (isAlpha_of_isLower (p.lower c h))
    · rcases List.mem_cons.mp h with h | h
      · exact .inr h
      · exact .inl (chars_isAlpha e c h)

theorem not_mem_qualified {ns : Option Namespace} {e : Element} {c : Char} (h : c.isAlpha = false)
    (hc : c ≠ ':') : c ∉ qualified ns e := by
  intro hmem
  rcases mem_qualified hmem with h' | h'
  · rw [h] at h'
    cases h'
  · exact hc h'

namespace Piece

/-- The tag that opens an element, with the text after it. -/
def opening (ns : Option Namespace) (e : Element) (after : Plain) : Piece where
  tag := qualified ns e
  after := after.val
  open_not_mem_tag := not_mem_qualified (by decide) (by decide)
  close_not_mem_tag := not_mem_qualified (by decide) (by decide)
  open_not_mem_after := after.not_mem

/-- The tag that closes an element, with the text after it. -/
def closing (ns : Option Namespace) (e : Element) (after : Plain) : Piece where
  tag := '/' :: qualified ns e
  after := after.val
  open_not_mem_tag := by
    rw [List.mem_cons, not_or]
    exact ⟨by decide, not_mem_qualified (by decide) (by decide)⟩
  close_not_mem_tag := by
    rw [List.mem_cons, not_or]
    exact ⟨by decide, not_mem_qualified (by decide) (by decide)⟩
  open_not_mem_after := after.not_mem

theorem cut_closing (ns : Option Namespace) (e : Element) (t : Plain) :
    (closing ns e t).cut = closing ns e .empty := rfl

end Piece

/-! ### The ways to take a name -/

/-- A name is taken after its namespace, or from its beginning. -/
theorem mem_rests_tagName {ci : Bool} {tag s u : List Char} :
    u ∈ (tagName ci tag).rests s ↔
      (∃ l n, s = l ++ ':' :: n ∧ l ≠ [] ∧ (∀ c ∈ l, isLower ci c = true) ∧
        dropText ci tag n = some u) ∨ dropText ci tag s = some u := by
  have hns : ∀ n, n ∈ (cat (many1 (isLower ci)) (char ':')).rests s ↔
      ∃ l, s = l ++ ':' :: n ∧ l ≠ [] ∧ ∀ c ∈ l, isLower ci c = true := by
    intro n
    simp only [many1, Regex.char, mem_rests_cat, mem_rests_many, mem_rests_set, beq_iff_eq]
    constructor
    · rintro ⟨s₁, ⟨s₂, ⟨c, rfl, hc⟩, l, rfl, hl⟩, d, rfl, rfl⟩
      exact ⟨c :: l, rfl, List.cons_ne_nil c l, List.forall_mem_cons.mpr ⟨hc, hl⟩⟩
    · rintro ⟨l, rfl, hne, hl⟩
      obtain ⟨c, l, rfl⟩ := List.exists_cons_of_ne_nil hne
      rw [List.forall_mem_cons] at hl
      exact ⟨':' :: n, ⟨l ++ ':' :: n, ⟨c, rfl, hl.1⟩, l, rfl, hl.2⟩, ':', rfl, rfl⟩
  simp only [tagName, mem_rests_cat (b := text ci tag), mem_rests_opt, hns, rests_text,
    Option.mem_toList]
  constructor
  · rintro ⟨n, ⟨l, rfl, hne, hl⟩ | rfl, hu⟩
    · exact .inl ⟨l, n, rfl, hne, hl, hu⟩
    · exact .inr hu
  · rintro (⟨l, n, rfl, hne, hl, hu⟩ | hu)
    · exact ⟨n, .inl ⟨l, rfl, hne, hl⟩, hu⟩
    · exact ⟨s, .inr rfl, hu⟩

/-! ### Fixed texts in names -/

/-- The names that begin with the name of another, with or without case. -/
theorem dropText_chars (ci : Bool) (e f : Element) :
    (dropText ci e.chars f.chars).isSome = f.beginsWith e := by
  have h : Element.all.all (fun e => Element.all.all fun f =>
      (dropText false e.chars f.chars).isSome == f.beginsWith e &&
        (dropText true e.chars f.chars).isSome == f.beginsWith e) = true := by decide +kernel
  have hef := List.all_eq_true.mp (List.all_eq_true.mp h e e.mem_all) f f.mem_all
  rw [Bool.and_eq_true, beq_iff_eq, beq_iff_eq] at hef
  cases ci
  · exact hef.1
  · exact hef.2

theorem dropText_chars_eq_nil (ci : Bool) (e f : Element) :
    dropText ci e.chars f.chars = some [] ↔ f = e := by
  have h : Element.all.all (fun e => Element.all.all fun f =>
      decide (dropText false e.chars f.chars = some [] ↔ f = e) &&
        decide (dropText true e.chars f.chars = some [] ↔ f = e)) = true := by decide +kernel
  have hef := List.all_eq_true.mp (List.all_eq_true.mp h e e.mem_all) f f.mem_all
  rw [Bool.and_eq_true, decide_eq_true_iff, decide_eq_true_iff] at hef
  cases ci
  · exact hef.1
  · exact hef.2

/-- A name begins with a capital letter. -/
theorem exists_chars_eq_cons (e : Element) :
    ∃ c w, e.chars = c :: w ∧ c.isLower = false := by
  have h : Element.all.all (fun e => e.chars.head?.any (!·.isLower)) = true := by decide +kernel
  have he := List.all_eq_true.mp h e e.mem_all
  cases hchars : e.chars with
  | nil => simp [hchars] at he
  | cons c w => exact ⟨c, w, rfl, by simpa [hchars] using he⟩

/-! ### The tags that are taken -/

theorem not_mem_chars {e : Element} {c : Char} (h : c.isAlpha = false) : c ∉ e.chars := by
  intro hc
  rw [chars_isAlpha e c hc] at h
  cases h

theorem sameLetter_false {ci : Bool} {e : Element} {d : Char} (hd : (foldCase d).isAlpha = false)
    (hd' : d.isAlpha = false) : ∀ c ∈ e.chars, sameLetter ci c d = false := by
  have hfold : Element.all.all (fun e => e.chars.all fun c => (foldCase c).isAlpha) = true := by
    decide +kernel
  intro c hc
  have hcα := chars_isAlpha e c hc
  have hcf := List.all_eq_true.mp (List.all_eq_true.mp hfold e e.mem_all) c hc
  cases ci
  · show (d == c) = false
    rw [beq_eq_false_iff_ne]
    rintro rfl
    rw [hcα] at hd'
    cases hd'
  · show (foldCase d == foldCase c) = false
    rw [beq_eq_false_iff_ne]
    intro h
    rw [h, hcf] at hd
    cases hd

theorem isName_element (ci : Bool) (e : Element) : IsName (tagName ci e.chars) :=
  isName_tagName (sameLetter_false (by decide) (by decide))

/-- What a pattern for a name leaves of a qualified name. -/
theorem mem_rests_qualified {ci : Bool} {e f : Element} {ns : Option Namespace} {u : List Char} :
    u ∈ (tagName ci e.chars).rests (qualified ns f) ↔
      dropText ci e.chars f.chars = some u ∨
        ∃ p ∈ ns, ∃ v, dropText ci e.chars p.val = some v ∧ u = v ++ ':' :: f.chars := by
  have hcolon : ∀ l : List Char, (∀ c ∈ l, isLower ci c = true) → ':' ∉ l := by
    intro l hl hmem
    have : isLower ci ':' = false := by cases ci <;> rfl
    rw [hl ':' hmem] at this
    cases this
  rw [mem_rests_tagName]
  cases ns with
  | none =>
    constructor
    · rintro (⟨l, n, h, -⟩ | h)
      · have : ':' ∈ f.chars := by
          show ':' ∈ qualified none f
          rw [h]
          simp
        exact absurd this (not_mem_chars (by decide))
      · exact .inl h
    · rintro (h | ⟨p, hp, -⟩)
      · exact .inr h
      · cases hp
  | some p =>
    have hp : ∀ c ∈ p.val, isLower ci c = true := by
      intro c hc
      have := p.lower c hc
      cases ci
      · exact this
      · show (foldCase c).isLower = true
        rw [foldCase_of_isLower this, this]
    have hdrop : dropText ci e.chars (qualified (some p) f) =
        (dropText ci e.chars p.val).map (· ++ ':' :: f.chars) :=
      dropText_append (sameLetter_false (by decide) (by decide)) _ _
    rw [hdrop]
    constructor
    · rintro (⟨l, n, h, -, hl, hu⟩ | h)
      · obtain ⟨-, -, rfl⟩ := (List.append_cons_inj_of_notMem (hcolon _ hp)
          (not_mem_chars (by decide))).mp (show p.val ++ ':' :: f.chars = l ++ ':' :: n from h)
        exact .inl hu
      · obtain ⟨v, hv, rfl⟩ := Option.map_eq_some_iff.mp h
        exact .inr ⟨p, rfl, v, hv, rfl⟩
    · rintro (h | ⟨q, hq, v, hv, rfl⟩)
      · exact .inl ⟨p.val, f.chars, rfl, p.ne_nil, hp, h⟩
      · cases hq
        rw [hv]
        exact .inr rfl

theorem opensAt_eq_true_iff {name : Regex} {g : Piece} :
    opensAt name g = true ↔ ∃ u, u ∈ name.rests g.tag := by
  rw [opensAt, Bool.not_eq_true', List.isEmpty_eq_false_iff_exists_mem]

/-- The tags that are taken as the beginning of a block. -/
@[simp] theorem opensAt_opening (e f : Element) (ns : Option Namespace) (t : Plain) :
    opensAt (tagName true e.chars) (.opening ns f t) =
      (f.beginsWith e || ns.any (·.beginsWith e)) := by
  rw [Bool.eq_iff_iff, opensAt_eq_true_iff, Bool.or_eq_true, ← dropText_chars true,
    Option.isSome_iff_exists]
  show (∃ u, u ∈ (tagName true e.chars).rests (qualified ns f)) ↔ _
  simp only [mem_rests_qualified, exists_or]
  refine or_congr Iff.rfl ?_
  cases ns with
  | none => simp
  | some p =>
    have hp : (dropText true e.chars p.val).isSome = p.beginsWith e :=
      isSome_dropText fun c hc => foldCase_of_isLower (p.lower c hc)
    rw [Option.any_some, ← hp, Option.isSome_iff_exists]
    simp

/-- No closing tag begins a block. -/
@[simp] theorem opensAt_closing (ci : Bool) (e f : Element) (ns : Option Namespace) (t : Plain) :
    opensAt (tagName ci e.chars) (.closing ns f t) = false := by
  rw [← Bool.not_eq_true, opensAt_eq_true_iff]
  rintro ⟨u, hu⟩
  rcases mem_rests_tagName.mp hu with ⟨l, n, h, hne, hl, -⟩ | h
  · obtain ⟨c, l, rfl⟩ := List.exists_cons_of_ne_nil hne
    obtain ⟨rfl, -⟩ := List.cons.inj (show '/' :: qualified ns f = c :: (l ++ ':' :: n) from h)
    have hc := hl '/' List.mem_cons_self
    have hslash : isLower ci '/' = false := by cases ci <;> rfl
    rw [hslash] at hc
    cases hc
  · have hdrop : dropText ci e.chars ('/' :: qualified ns f) =
        (dropText ci e.chars []).map (· ++ '/' :: qualified ns f) :=
      dropText_append (sameLetter_false (by decide) (by decide)) [] _
    obtain ⟨c, w, hcw, -⟩ := exists_chars_eq_cons e
    rw [hcw] at hdrop h
    have hnone : dropText ci (c :: w) ('/' :: qualified ns f) = none := hdrop
    exact absurd (hnone.symm.trans h) (by simp)

/-- The tags that are taken as the end of a block. -/
@[simp] theorem closesAt_closing (ci : Bool) (e f : Element) (ns : Option Namespace) (t : Plain) :
    closesAt (tagName ci e.chars) (.closing ns f t) = (f == e) := by
  rw [Bool.eq_iff_iff, beq_iff_eq, ← dropText_chars_eq_nil ci]
  show (((tagName ci e.chars).rests (qualified ns f)).any (·.isEmpty)) = true ↔ _
  simp only [List.any_eq_true, List.isEmpty_iff, exists_eq_right, mem_rests_qualified]
  simp

@[simp] theorem closesAt_opening (name : Regex) (f : Element) (ns : Option Namespace) (t : Plain) :
    closesAt name (.opening ns f t) = false := by
  have hslash : '/' ∉ qualified ns f := not_mem_qualified (by decide) (by decide)
  unfold closesAt
  split
  · next heq =>
    have htag : qualified ns f = '/' :: _ := heq
    rw [htag] at hslash
    exact absurd List.mem_cons_self hslash
  · rfl

/-- The tags that are taken as the beginning of a leaf. -/
@[simp] theorem opensAt_leaf (e f : Element) (ns : Option Namespace) (t : Plain) :
    opensAt (tagName false e.chars) (.opening ns f t) = f.beginsWith e := by
  rw [Bool.eq_iff_iff, opensAt_eq_true_iff, ← dropText_chars false, Option.isSome_iff_exists]
  show (∃ u, u ∈ (tagName false e.chars).rests (qualified ns f)) ↔ _
  simp only [mem_rests_qualified, exists_or]
  refine or_iff_left ?_
  rintro ⟨u, p, -, v, hv, -⟩
  -- A namespace is written in small letters and a name begins with a capital letter.
  obtain ⟨c, w, hcw, hc⟩ := exists_chars_eq_cons e
  obtain ⟨d, s, hds⟩ := List.exists_cons_of_ne_nil p.ne_nil
  have hd := p.lower d (hds ▸ List.mem_cons_self)
  rw [hcw, hds, dropText] at hv
  split_ifs at hv with h
  obtain rfl : d = c := beq_iff_eq.mp h
  exact absurd hd (by simp [hc])

/-- `Text` is taken without a namespace only. -/
@[simp] theorem opensAt_text (f : Element) (t : Plain) :
    opensAt (text true Element.text.chars) (.opening none f t) = (f == .text) := by
  rw [Bool.eq_iff_iff, opensAt_eq_true_iff]
  show (∃ u, u ∈ (text true Element.text.chars).rests f.chars) ↔ _
  simp only [rests_text, Option.mem_toList, ← Option.isSome_iff_exists, dropText_chars]
  simp [Element.beginsWith]

@[simp] theorem closesAt_text (f : Element) (ns : Option Namespace) (t : Plain) :
    closesAt (text true Element.text.chars) (.closing ns f t) = (ns.isNone && f == .text) := by
  rw [Bool.eq_iff_iff]
  show (((text true Element.text.chars).rests (qualified ns f)).any (·.isEmpty)) = true ↔ _
  simp only [rests_text, List.any_eq_true, List.isEmpty_iff, exists_eq_right, Option.mem_toList]
  cases ns with
  | none => simp [qualified, dropText_chars_eq_nil]
  | some p =>
    have hdrop : dropText true Element.text.chars (qualified (some p) f) =
        (dropText true Element.text.chars p.val).map (· ++ ':' :: f.chars) :=
      dropText_append (sameLetter_false (by decide) (by decide)) _ _
    simp [hdrop]

end Traintime.Ojp
