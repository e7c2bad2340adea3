import Mathlib.Data.List.Flatten
import Traintime.Core.Favourites
import Traintime.Core.Ojp.Reading

/-!
# Escaped texts

XML writes `&` and `<` in a text as entities, and a writer may do so with `>` and the quotes. The
functions that take texts out of a response leave the entities as they are, so a text is read as it
is meant exactly if the writer had nothing to escape in it.

White space is never escaped, so trimming goes through the escaping.

## Main definitions

* `Writer`, `Writer.escape`: the characters that are escaped, and a text as it is written.
* `leafElement`, `textElement`: an element with a text in it.
* `Texts`, `Texts.xml`: the texts of a stop event, and a response that says them.

## Main results

* `Writer.trim_escape_eq_iff`: the texts that look the same when they are escaped.
* `Writer.reads_iff`: the texts that are read as they are meant.
-/

namespace Traintime.Ojp

open Regex Blocks

/-! ### Writing texts -/

/-- The predefined entities. -/
def entities : List (Char × String) :=
  [('&', "&amp;"), ('<', "&lt;"), ('>', "&gt;"), (Char.ofNat 34, "&quot;"),
    (Char.ofNat 39, "&apos;")]

/-- The entity of a character, if there is one. -/
def entity (c : Char) : Option (List Char) := (entities.lookup c).map String.toList

/-- What a writer escapes: characters with an entity, and at least `&` and `<`. -/
structure Writer where
  escapes : Char → Bool
  amp : escapes '&' = true
  lt : escapes '<' = true
  isSome_entity : ∀ c, escapes c = true → (entity c).isSome = true

namespace Writer

variable (w : Writer)

/-- A character as it is written. -/
def write (c : Char) : List Char := if w.escapes c then (entity c).getD [c] else [c]

/-- A text as it is written. -/
def escape (s : List Char) : List Char := s.flatMap w.write

/-- Nothing in the text is escaped. -/
def Verbatim (s : List Char) : Prop := ∀ c ∈ s, w.escapes c = false

variable {w} {c : Char} {s : List Char}

theorem write_of_not_escapes (h : w.escapes c = false) : w.write c = [c] := by
  simp [write, h]

theorem exists_mem_entities (h : w.escapes c = true) :
    ∃ e, (c, e) ∈ entities ∧ w.write c = e.toList := by
  obtain ⟨t, ht⟩ := Option.isSome_iff_exists.1 (w.isSome_entity c h)
  obtain ⟨e, he, rfl⟩ := Option.map_eq_some_iff.1 ht
  obtain ⟨l₁, l₂, hl, -⟩ := List.lookup_eq_some_iff.1 he
  refine ⟨e, ?_, by rw [write, if_pos h, ht, Option.getD_some]⟩
  rw [hl]
  simp

/-- An entity is a name between `&` and `;`, of a character that is no white space. -/
theorem exists_write (h : w.escapes c = true) :
    isWhitespace c = false ∧ ∃ name, w.write c = '&' :: (name ++ [';']) ∧ '<' ∉ name := by
  have hall : entities.all (fun p => !isWhitespace p.1 &&
      p.2.toList == '&' :: ((p.2.toList.drop 1).dropLast ++ [';']) &&
      !(p.2.toList.drop 1).dropLast.contains '<') = true := by decide +kernel
  obtain ⟨e, hmem, hwrite⟩ := exists_mem_entities h
  have hce := List.all_eq_true.1 hall _ hmem
  simp only [Bool.and_eq_true, Bool.not_eq_true', beq_iff_eq] at hce
  obtain ⟨⟨hspace, htext⟩, hlt⟩ := hce
  exact ⟨hspace, (e.toList.drop 1).dropLast, hwrite.trans htext, by simpa using hlt⟩

/-- No character is written as the beginning of what another is written as. -/
theorem eq_of_prefix_write {d : Char} (h : w.write c <+: w.write d) : c = d := by
  have hall : entities.all (fun p => entities.all fun q =>
      !p.2.toList.isPrefixOf q.2.toList || p.1 == q.1) = true := by decide +kernel
  cases hc : w.escapes c with
  | true =>
    obtain ⟨e, he, hce⟩ := exists_mem_entities hc
    cases hd : w.escapes d with
    | true =>
      obtain ⟨e', he', hde⟩ := exists_mem_entities hd
      rw [hce, hde, ← List.isPrefixOf_iff_prefix] at h
      have hcd := List.all_eq_true.1 (List.all_eq_true.1 hall _ he) _ he'
      simpa [h] using hcd
    | false =>
      obtain ⟨-, name, hname, -⟩ := exists_write hc
      rw [write_of_not_escapes hd, hname] at h
      have hlen := h.length_le
      simp at hlen
  | false =>
    rw [write_of_not_escapes hc] at h
    cases hd : w.escapes d with
    | true =>
      obtain ⟨-, name, hname, -⟩ := exists_write hd
      rw [hname, List.cons_prefix_cons] at h
      rw [h.1, w.amp] at hc
      cases hc
    | false =>
      rw [write_of_not_escapes hd, List.cons_prefix_cons] at h
      exact h.1

/-- White space is written as it is. -/
theorem write_of_isWhitespace (h : isWhitespace c = true) : w.write c = [c] := by
  refine write_of_not_escapes ?_
  by_contra hesc
  rw [Bool.not_eq_false] at hesc
  rw [(exists_write hesc).1] at h
  cases h

/-- Dropping white space at the beginning goes through a writing that keeps it and writes nothing
else with white space in front. -/
theorem dropWhile_flatMap {f : Char → List Char} (hf : ∀ c, isWhitespace c = true → f c = [c])
    (hf' : ∀ c, isWhitespace c = false → ∃ d t, f c = d :: t ∧ isWhitespace d = false)
    (s : List Char) :
    (s.flatMap f).dropWhile isWhitespace = (s.dropWhile isWhitespace).flatMap f := by
  induction s with
  | nil => rfl
  | cons c s ih =>
    rw [List.flatMap_cons]
    cases hc : isWhitespace c with
    | true =>
      rw [hf c hc, List.singleton_append, List.dropWhile_cons_of_pos hc,
        List.dropWhile_cons_of_pos hc, ih]
    | false =>
      obtain ⟨d, t, hd, hspace⟩ := hf' c hc
      rw [List.dropWhile_cons_of_neg (by simp [hc]), List.flatMap_cons, hd, List.cons_append,
        List.dropWhile_cons_of_neg (by simp [hspace])]

/-- Trimming goes through the escaping. -/
theorem trim_escape (w : Writer) (s : List Char) : trim (w.escape s) = w.escape (trim s) := by
  have hfirst : (w.escape s).dropWhile isWhitespace = w.escape (s.dropWhile isWhitespace) := by
    refine dropWhile_flatMap (fun c => write_of_isWhitespace) (fun c hc => ?_) s
    cases hesc : w.escapes c with
    | true =>
      obtain ⟨-, name, hname, -⟩ := exists_write hesc
      exact ⟨'&', _, hname, by decide⟩
    | false => exact ⟨c, [], write_of_not_escapes hesc, hc⟩
  have hlast : ∀ t : List Char, (w.escape t).rdropWhile isWhitespace =
      w.escape (t.rdropWhile isWhitespace) := by
    intro t
    have hreverse : ∀ t : List Char,
        (w.escape t).reverse = t.reverse.flatMap (List.reverse ∘ w.write) :=
      fun t => List.reverse_flatMap
    have hdrop : ((t.reverse.flatMap (List.reverse ∘ w.write)).dropWhile isWhitespace) =
        (t.reverse.dropWhile isWhitespace).flatMap (List.reverse ∘ w.write) := by
      refine dropWhile_flatMap (fun c hc => ?_) (fun c hc => ?_) t.reverse
      · simp [write_of_isWhitespace hc]
      · cases hesc : w.escapes c with
        | true =>
          obtain ⟨-, name, hname, -⟩ := exists_write hesc
          exact ⟨';', name.reverse ++ ['&'], by simp [hname], by decide⟩
        | false => exact ⟨c, [], by simp [write_of_not_escapes hesc], hc⟩
    rw [List.rdropWhile, List.rdropWhile, hreverse, hdrop, ← List.reverse_inj, List.reverse_reverse,
      hreverse, List.reverse_reverse]
  rw [trim, trim, hfirst, hlast]

theorem escape_cons (w : Writer) (c : Char) (s : List Char) :
    w.escape (c :: s) = w.write c ++ w.escape s := rfl

theorem write_ne_nil (w : Writer) (c : Char) : w.write c ≠ [] := by
  cases hesc : w.escapes c with
  | true =>
    obtain ⟨-, name, hname, -⟩ := exists_write hesc
    simp [hname]
  | false => simp [write_of_not_escapes hesc]

theorem length_le_escape (w : Writer) (s : List Char) : s.length ≤ (w.escape s).length := by
  induction s with
  | nil => exact le_rfl
  | cons c s ih =>
    rw [escape_cons, List.length_append, List.length_cons]
    have hc := List.length_pos_of_ne_nil (write_ne_nil w c)
    omega

/-- Only a text with nothing to escape in it is written as it is. -/
theorem escape_eq_self_iff {s : List Char} : w.escape s = s ↔ w.Verbatim s := by
  constructor
  · intro h
    induction s with
    | nil => exact fun c hc => absurd hc List.not_mem_nil
    | cons c s ih =>
      rw [escape_cons] at h
      cases hesc : w.escapes c with
      | true =>
        obtain ⟨-, name, hname, -⟩ := exists_write hesc
        have hlen := congrArg List.length h
        have hle := length_le_escape w s
        simp only [hname, List.length_append, List.length_cons, List.length_nil] at hlen
        omega
      | false =>
        rw [write_of_not_escapes hesc, List.singleton_append] at h
        exact List.forall_mem_cons.2 ⟨hesc, ih (List.cons.inj h).2⟩
  · intro h
    induction s with
    | nil => rfl
    | cons c s ih =>
      obtain ⟨hc, hs⟩ := List.forall_mem_cons.1 h
      rw [escape_cons, write_of_not_escapes hc, ih hs, List.singleton_append]

/-- No text is written as another. -/
theorem escape_injective : Function.Injective w.escape := by
  intro s t h
  induction s generalizing t with
  | nil =>
    cases t with
    | nil => rfl
    | cons d t => exact absurd (List.append_eq_nil_iff.1 h.symm).1 (write_ne_nil w d)
  | cons c s ih =>
    cases t with
    | nil => exact absurd (List.append_eq_nil_iff.1 h).1 (write_ne_nil w c)
    | cons d t =>
      rw [escape_cons, escape_cons] at h
      obtain rfl : c = d := by
        rcases List.prefix_or_prefix_of_prefix (List.prefix_append _ _)
          (h ▸ List.prefix_append (w.write c) (w.escape s)) with hpre | hpre
        · exact (eq_of_prefix_write hpre).symm
        · exact eq_of_prefix_write hpre
      rw [ih (List.append_cancel_left h)]

/-- What is escaped is not trimmed. -/
theorem verbatim_trim_iff : w.Verbatim (trim s) ↔ w.Verbatim s := by
  constructor
  · intro h c hc
    by_contra hesc
    rw [Bool.not_eq_false] at hesc
    have hspace := (exists_write hesc).1
    have hmem : c ∈ trim s := by
      have hdrop : c ∈ s.dropWhile isWhitespace := by
        rw [← List.takeWhile_append_dropWhile (p := isWhitespace) (l := s),
          List.mem_append] at hc
        refine hc.resolve_left fun htake => ?_
        rw [List.mem_takeWhile_imp htake] at hspace
        cases hspace
      rw [← List.rdropWhile_append_rtakeWhile (p := isWhitespace) (l := s.dropWhile isWhitespace),
        List.mem_append] at hdrop
      refine hdrop.resolve_right fun htake => ?_
      rw [List.mem_rtakeWhile_imp htake] at hspace
      cases hspace
    rw [h c hmem] at hesc
    cases hesc
  · exact fun h c hc => h c (trim_subset s hc)

/-- The texts that look the same, once trimmed, when they are escaped. -/
theorem trim_escape_eq_iff : trim (w.escape s) = trim s ↔ w.Verbatim s := by
  rw [trim_escape, escape_eq_self_iff, verbatim_trim_iff]

theorem not_mem_escape : '<' ∉ w.escape s := by
  intro h
  obtain ⟨c, -, hc⟩ := List.mem_flatMap.1 h
  cases hesc : w.escapes c with
  | true =>
    obtain ⟨-, name, hname, hlt⟩ := exists_write hesc
    rw [hname] at hc
    simp [hlt] at hc
  | false =>
    rw [write_of_not_escapes hesc, List.mem_singleton] at hc
    rw [← hc, w.lt] at hesc
    cases hesc

/-- A text as it is written, which has no tag in it. -/
def plain (w : Writer) (s : List Char) : Plain := ⟨w.escape s, not_mem_escape⟩

end Writer

/-! ### Reading one text -/

variable {w : Writer}

/-- An element with a text and nothing else in it. -/
def leafElement (w : Writer) (ns : Option Namespace) (e : Element) (s : List Char) : List Char :=
  document [.opening ns e (w.plain s), .closing ns e .empty]

/-- The text of a leaf is read as it is written. -/
theorem xmlText_leafElement (ns : Option Namespace) (e : Element) (s : List Char) :
    xmlText (leafElement w ns e s) e.name = some (trim (w.escape s)) := by
  rw [leafElement, xmlText_document (isName_element false e)]
  have hopen : opensAt (tagName false e.chars) (.opening ns e (w.plain s)) = true := by
    simp [Element.beginsWith]
  have hclose : closesAt (tagName false e.chars) (.closing ns e .empty) = true := by simp
  show Option.map _ (leaf (opensAt (tagName false e.chars)) (closesAt (tagName false e.chars)) _) = _
  rw [leaf, hopen, hclose]
  rfl

theorem xmlLangText_leafElement (s : List Char) :
    xmlLangText (leafElement w none .text s) = some (trim (w.escape s)) := by
  rw [leafElement, xmlLangText_document]
  have hopen : opensAt (text true Element.text.chars) (.opening none .text (w.plain s)) = true := by
    simp
  have hclose : closesAt (text true Element.text.chars) (.closing none .text .empty) = true := by
    simp
  show Option.map _ (leaf (opensAt (text true Element.text.chars))
    (closesAt (text true Element.text.chars)) _) = _
  rw [leaf, hopen, hclose]
  rfl

/-! ### Reading a stop event -/

/-- The texts of a stop event. -/
structure Texts where
  destination : List Char
  category : List Char
  number : List Char
  plannedQuay : List Char
  estimatedQuay : List Char
  trainNumber : List Char
  operatorRef : List Char
  timetabledTime : List Char

namespace Texts

variable (w : Writer) (x : Texts)

/-- A leaf with the string as the writer writes it. -/
def leafIn (e : Element) (s : List Char) : List Piece :=
  [.opening none e (w.plain s), .closing none e .empty]

/-- An element around a `Text` with the string as the writer writes it. -/
def textIn (e : Element) (s : List Char) : List Piece :=
  [.opening none e .empty, .opening none .text (w.plain s), .closing none .text .empty,
    .closing none e .empty]

/-- The service of the event: mode, line, destination, train number and operator, each as the writer
writes it. -/
def service : List Piece :=
  .opening none .service .empty :: (.opening none .mode .empty :: (textIn w .shortName x.category ++
    .closing none .mode .empty :: (textIn w .publishedServiceName x.number ++
      (textIn w .destinationText x.destination ++ (leafIn w .trainNumber x.trainNumber ++
        (leafIn w .operatorRef x.operatorRef ++ [.closing none .service .empty]))))))

/-- The call of the event with the departure time and the two platforms. -/
def call : List Piece :=
  .opening none .callAtStop .empty :: (leafIn w .timetabledTime x.timetabledTime ++
    (textIn w .plannedQuay x.plannedQuay ++ (textIn w .estimatedQuay x.estimatedQuay ++
      [.closing none .callAtStop .empty])))

/-- The call as the one at this stop. -/
def thisCall : List Piece :=
  .opening none .thisCall .empty :: (call w x ++ [.closing none .thisCall .empty])

/-- The event up to the end tag of its result, with the service in front of the call. -/
def stopEvent : List Piece :=
  .opening none .stopEventResult .empty :: .opening none .stopEvent .empty ::
    (service w x ++ (thisCall w x ++ [.closing none .stopEvent .empty]))

/-- A response with one stop event. -/
def xml : List Char := document (stopEvent w x ++ [.closing none .stopEventResult .empty])

/-- The row of the event as it is written. -/
def writtenRow (isoToMs : List Char → Binary64) : FlatDeparture where
  destination := trim (w.escape x.destination)
  category := trim (w.escape x.category)
  number := trim (w.escape x.number)
  departure := departureTimestamp isoToMs (some (trim (w.escape x.timetabledTime)))
  delay := none
  platform := trim (w.escape x.estimatedQuay)
  platformChanged := trim (w.escape x.estimatedQuay) != trim (w.escape x.plannedQuay)
  trainNumber := some (trim (w.escape x.trainNumber))
  operatorRef := some (trim (w.escape x.operatorRef))

theorem firstBlock_stopEvent :
    firstBlock (x.xml w) Element.stopEvent.name = some (document (stopEvent w x)) := by
  rw [xml, firstBlock_document]
  simp [stopEvent, service, thisCall, call, textIn, leafIn, blocks, upTo, Element.beginsWith,
    Piece.cut_closing]

theorem xmlBlocks_xml :
    xmlBlocks (x.xml w) Element.stopEventResult.name = [x.xml w] := by
  show xmlBlocks (document _) Element.stopEventResult.name = _
  rw [xmlBlocks_document (isName_element true .stopEventResult)]
  show (blocks (opensAt (tagName true Element.stopEventResult.chars))
    (closesAt (tagName true Element.stopEventResult.chars)) Piece.cut _).map document = _
  simp [xml, stopEvent, service, thisCall, call, textIn, leafIn, blocks, upTo, Element.beginsWith,
    Piece.cut_closing]

theorem firstBlock_service :
    firstBlock (document (stopEvent w x)) Element.service.name = some (document (service w x)) := by
  rw [firstBlock_document]
  simp [stopEvent, service, thisCall, call, textIn, leafIn, blocks, upTo, Element.beginsWith,
    Piece.cut_closing]

theorem firstBlock_thisCall :
    firstBlock (document (stopEvent w x)) Element.thisCall.name = some (document (thisCall w x)) := by
  rw [firstBlock_document]
  simp [stopEvent, service, thisCall, call, textIn, leafIn, blocks, upTo, Element.beginsWith,
    Piece.cut_closing]

theorem firstBlock_callAtStop :
    firstBlock (document (thisCall w x)) Element.callAtStop.name = some (document (call w x)) := by
  rw [firstBlock_document]
  simp [thisCall, call, textIn, leafIn, blocks, upTo, Element.beginsWith, Piece.cut_closing]

theorem firstBlock_mode :
    firstBlock (document (service w x)) Element.mode.name = some (document
      (.opening none .mode .empty :: (textIn w .shortName x.category ++
        [.closing none .mode .empty]))) := by
  rw [firstBlock_document]
  simp [service, textIn, leafIn, blocks, upTo, Element.beginsWith, Piece.cut_closing]

theorem modeText_service : modeText (document (service w x)) = some (trim (w.escape x.category)) := by
  have hmode : firstBlock (document (service w x)) "Mode" = _ := firstBlock_mode w x
  have hname : blockText (document (.opening none .mode .empty ::
      (textIn w .shortName x.category ++ [.closing none .mode .empty]))) Element.shortName.name =
      some (trim (w.escape x.category)) := by
    rw [blockText_document]
    simp [textIn, blocks, upTo, leaf, Element.beginsWith]
    rfl
  rw [modeText, hmode]
  exact hname

theorem blockText_number : blockText (document (service w x)) Element.publishedServiceName.name =
    some (trim (w.escape x.number)) := by
  rw [blockText_document]
  simp [service, textIn, leafIn, blocks, upTo, leaf, Element.beginsWith]
  rfl

theorem blockText_destination : blockText (document (service w x)) Element.destinationText.name =
    some (trim (w.escape x.destination)) := by
  rw [blockText_document]
  simp [service, textIn, leafIn, blocks, upTo, leaf, Element.beginsWith]
  rfl

theorem blockText_plannedQuay : blockText (document (call w x)) Element.plannedQuay.name =
    some (trim (w.escape x.plannedQuay)) := by
  rw [blockText_document]
  simp [call, textIn, leafIn, blocks, upTo, leaf, Element.beginsWith]
  rfl

theorem blockText_estimatedQuay : blockText (document (call w x)) Element.estimatedQuay.name =
    some (trim (w.escape x.estimatedQuay)) := by
  rw [blockText_document]
  simp [call, textIn, leafIn, blocks, upTo, leaf, Element.beginsWith]
  rfl

theorem firstBlock_serviceDeparture :
    firstBlock (document (call w x)) Element.serviceDeparture.name = none := by
  rw [firstBlock_document]
  simp [call, textIn, leafIn, blocks, Element.beginsWith]

theorem xmlText_document_element (gs : List Piece) (e : Element) :
    xmlText (document gs) e.name =
      (leaf (opensAt (tagName false e.chars)) (closesAt (tagName false e.chars)) gs).map
        fun g => trim g.after :=
  xmlText_document (isName_element false e) gs

theorem xmlText_trainNumber : xmlText (document (service w x)) Element.trainNumber.name =
    some (trim (w.escape x.trainNumber)) := by
  rw [xmlText_document_element]
  simp [service, textIn, leafIn, leaf, Element.beginsWith]
  rfl

theorem xmlText_operatorRef : xmlText (document (service w x)) Element.operatorRef.name =
    some (trim (w.escape x.operatorRef)) := by
  rw [xmlText_document_element]
  simp [service, textIn, leafIn, leaf, Element.beginsWith]
  rfl

theorem xmlText_journeyRef : xmlText (document (service w x)) Element.journeyRef.name = none := by
  rw [xmlText_document_element]
  simp [service, textIn, leafIn, leaf, Element.beginsWith]

theorem xmlText_timetabledTime : xmlText (document (call w x)) Element.timetabledTime.name =
    some (trim (w.escape x.timetabledTime)) := by
  rw [xmlText_document_element]
  simp [call, textIn, leafIn, leaf, Element.beginsWith]
  rfl

theorem xmlText_estimatedTime :
    xmlText (document (call w x)) Element.estimatedTime.name = none := by
  rw [xmlText_document_element]
  simp [call, textIn, leafIn, leaf, Element.beginsWith]

/-- The event is read as it is written. -/
theorem parseStopEvents_xml (isoToMs : List Char → Binary64) :
    parseStopEvents (x.xml w) isoToMs = [x.writtenRow w isoToMs] := by
  have hresult : xmlBlocks (x.xml w) "StopEventResult" = _ := xmlBlocks_xml w x
  have hevent : firstBlock (x.xml w) "StopEvent" = _ := firstBlock_stopEvent w x
  have hservice : firstBlock (document (stopEvent w x)) "Service" = _ := firstBlock_service w x
  have hthis : firstBlock (document (stopEvent w x)) "ThisCall" = _ := firstBlock_thisCall w x
  have hcall : firstBlock (document (thisCall w x)) "CallAtStop" = _ := firstBlock_callAtStop w x
  have hdeparture : firstBlock (document (call w x)) "ServiceDeparture" = _ :=
    firstBlock_serviceDeparture w x
  have hjourney : xmlText (document (service w x)) "JourneyRef" = _ := xmlText_journeyRef w x
  have hnumber : blockText (document (service w x)) "PublishedServiceName" = _ :=
    blockText_number w x
  have hdest : blockText (document (service w x)) "DestinationText" = _ :=
    blockText_destination w x
  have htrain : xmlText (document (service w x)) "TrainNumber" = _ := xmlText_trainNumber w x
  have hoperator : xmlText (document (service w x)) "OperatorRef" = _ := xmlText_operatorRef w x
  have hplanned : blockText (document (call w x)) "PlannedQuay" = _ := blockText_plannedQuay w x
  have hestimated : blockText (document (call w x)) "EstimatedQuay" = _ :=
    blockText_estimatedQuay w x
  have htime : xmlText (document (call w x)) "TimetabledTime" = _ := xmlText_timetabledTime w x
  have hnoTime : xmlText (document (call w x)) "EstimatedTime" = _ := xmlText_estimatedTime w x
  have hblock : callBlock (document (stopEvent w x)) = document (call w x) := by
    rw [callBlock, hthis, Option.bind_some, hcall]
    rfl
  have hdep : depBlock (document (call w x)) = document (call w x) := by
    rw [depBlock, hdeparture]
    rfl
  have hrow : parseResult isoToMs (x.xml w) = some (none, x.writtenRow w isoToMs) := by
    simp only [parseResult, Option.bind_eq_bind, hevent, Option.bind_some, hservice, hblock, hdep,
      journeyKey, hjourney, Option.map_none, hnumber, hdest, htrain, hoperator, hplanned,
      hestimated, htime, hnoTime, modeText_service]
    rfl
  rw [parseStopEvents, hresult, List.filterMap_cons, hrow, List.filterMap_nil,
    keepLatestPerJourney_singleton]

/-- The fields of a row compared with the texts that were meant. -/
structure ReadAs (w : Writer) (x : Texts) (row : FlatDeparture) : Prop where
  destination : row.destination = trim x.destination ↔ w.Verbatim x.destination
  category : row.category = trim x.category ↔ w.Verbatim x.category
  number : row.number = trim x.number ↔ w.Verbatim x.number
  platform : row.platform = trim x.estimatedQuay ↔ w.Verbatim x.estimatedQuay
  trainNumber : row.trainNumber = some (trim x.trainNumber) ↔ w.Verbatim x.trainNumber
  operatorRef : row.operatorRef = some (trim x.operatorRef) ↔ w.Verbatim x.operatorRef
  platformChanged : row.platformChanged = (trim x.estimatedQuay != trim x.plannedQuay)
  isFavourite : Favourites.isOf (trim x.number, trim x.destination) row = true ↔
    w.Verbatim x.number ∧ w.Verbatim x.destination

theorem readAs_writtenRow (isoToMs : List Char → Binary64) :
    x.ReadAs w (x.writtenRow w isoToMs) where
  destination := Writer.trim_escape_eq_iff
  category := Writer.trim_escape_eq_iff
  number := Writer.trim_escape_eq_iff
  platform := Writer.trim_escape_eq_iff
  trainNumber := Option.some_inj.trans Writer.trim_escape_eq_iff
  operatorRef := Option.some_inj.trans Writer.trim_escape_eq_iff
  platformChanged := by
    show (trim (w.escape x.estimatedQuay) != trim (w.escape x.plannedQuay)) = _
    rw [Writer.trim_escape, Writer.trim_escape, Bool.eq_iff_iff, bne_iff_ne, bne_iff_ne, ne_eq,
      ne_eq, Writer.escape_injective.eq_iff]
  isFavourite := by
    rw [Favourites.isOf_iff, Prod.mk.injEq]
    exact and_congr Writer.trim_escape_eq_iff Writer.trim_escape_eq_iff

end Texts

/-- **Escaped texts.** A text is read as it is meant from an element exactly if nothing in it is
escaped; so are the fields of a departure, while the quays are compared as they are meant. -/
theorem escaped_reads_iff (w : Writer) :
    (∀ s, ((∀ ns e, xmlText (leafElement w ns e s) e.name = some (trim s)) ∧
        xmlLangText (leafElement w none .text s) = some (trim s)) ↔ w.Verbatim s) ∧
    ∀ (x : Texts) (isoToMs : List Char → Binary64),
      ∃ row, parseStopEvents (x.xml w) isoToMs = [row] ∧ x.ReadAs w row := by
  refine ⟨fun s => ?_, fun x isoToMs => ⟨_, x.parseStopEvents_xml w isoToMs,
    x.readAs_writtenRow w isoToMs⟩⟩
  simp only [xmlText_leafElement, xmlLangText_leafElement, Option.some_inj,
    Writer.trim_escape_eq_iff]
  exact ⟨fun h => h.2, fun h => ⟨fun _ _ => h, h⟩⟩

/-- A writer that escapes all characters with an entity. -/
def Writer.all : Writer where
  escapes c := (entity c).isSome
  amp := by decide
  lt := by decide
  isSome_entity _ h := h

/-- A text of an operator is read with its entity. -/
theorem xmlLangText_escaped :
    xmlLangText (leafElement .all none .text ['B', '&', 'B']) = some "B&amp;B".toList ∧
      trim ['B', '&', 'B'] ≠ "B&amp;B".toList := by
  decide +kernel

end Traintime.Ojp
