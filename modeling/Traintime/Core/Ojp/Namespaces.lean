import Traintime.Core.Ojp.RoundTrip

/-!
# Which namespaces are safe

A pattern takes every tag that begins with the name it looks for, a namespace included. The
documents here show that each namespace that is not unambiguous does make a board read wrongly.

## Main results

* `parse_board_iff`: exactly under unambiguous namespaces all boards are read as they are meant.
* `parse_board_wrong`: a board that is read wrongly.
-/

namespace Traintime.Ojp

open Regex Blocks

/-! ### Small stop events -/

/-- A text of one letter, for documents in which the text makes no difference. -/
def Text.a : Text := ⟨['a'], by decide, by decide, by decide⟩

/-- A second text, so that the rows of two leaves can be told apart. -/
def Text.b : Text := ⟨['b'], by decide, by decide, by decide⟩

/-- A call with one time. -/
def bareCall : Call := ⟨⟨none, .a⟩, none, none, none, .empty⟩

/-- A stop event with one call and nothing of its service. -/
def bareEvent : StopEvent where
  operatingDayRef := none
  journeyRef := none
  mode := none
  publishedServiceName := none
  destinationText := none
  trainNumber := none
  operatorRef := none
  previousCalls := []
  thisCall := bareCall
  onwardCalls := []
  serviceFirst := false
  gaps := .empty

/-- A document with one stop event. -/
def single (s : StopEvent) : Board := ⟨.empty, none, [s]⟩

/-- A clock that stands still. -/
def stoppedClock : Clock := ⟨fun _ => 0, by simp⟩

/-- The document of a board is read as its rows. -/
def Board.IsRead (b : Board) (clock : Clock) : Prop :=
  parseStopEvents b.xml clock.isoToMs = keepLatestPerJourney (b.events.map (StopEvent.row clock))

/-- What is read from a service and a call. -/
theorem parseResult_eq (isoToMs : List Char → Binary64) {result se sv : List Char}
    (hse : firstBlock result Element.stopEvent.name = some se)
    (hsv : firstBlock se Element.service.name = some sv) :
    ∃ ev, parseResult isoToMs result = some ev ∧ ev.1 = journeyKey sv ∧
      ev.2.destination = (blockText sv Element.destinationText.name).getD ['?'] ∧
      ev.2.category = (modeText sv).getD [] ∧
      ev.2.number = (blockText sv Element.publishedServiceName.name).getD [] ∧
      ev.2.platform = (blockText (callBlock se) Element.estimatedQuay.name).getD
        ((blockText (callBlock se) Element.plannedQuay.name).getD []) := by
  have hse' : firstBlock result "StopEvent" = some se := hse
  have hsv' : firstBlock se "Service" = some sv := hsv
  simp only [parseResult, Option.bind_eq_bind, hse', hsv', Option.bind_some]
  exact ⟨_, rfl, rfl, rfl, rfl, rfl, rfl⟩

/-- A stop event that is read alone is read as its row. -/
theorem row_of_isRead {s : StopEvent} (h : (single s).IsRead stoppedClock)
    (hP : ∀ p ∈ s.namespaces, p.beginsWith .stopEventResult = false) {ev : Event}
    (hev : parseResult stoppedClock.isoToMs (document (resultBlock s)) = some ev) :
    ev.2 = (s.row stoppedClock).2 := by
  have hblocks := xmlBlocks_board (P := {p | p ∈ s.namespaces}) hP (b := single s)
    fun t ht p hp => by
      obtain rfl := List.mem_singleton.mp ht
      exact hp
  rw [Board.IsRead, parseStopEvents,
    show "StopEventResult" = Element.stopEventResult.name from rfl, hblocks,
    show (single s).events = [s] from rfl, List.map_singleton, List.map_singleton,
    keepLatestPerJourney_singleton, List.filterMap_cons, hev, List.filterMap_nil,
    keepLatestPerJourney_singleton] at h
  exact List.head_eq_of_cons_eq h

theorem mem_univ_namespaces (s : StopEvent) : ∀ p ∈ s.namespaces, p ∈ (Set.univ : Set Namespace) :=
  fun p _ => Set.mem_univ p

/-- A namespace begins with the names of two elements only if one name begins with the other. -/
theorem beginsWith_eq_false {p : Namespace} {e f : Element} (he : p.beginsWith e = true)
    (hef : (e.beginsWith f || f.beginsWith e) = false) : p.beginsWith f = false := by
  have h : Element.all.all (fun e => Element.all.all fun f =>
      (e.chars.map foldCase).isPrefixOf (f.chars.map foldCase) == f.beginsWith e) = true := by
    decide +kernel
  have htable : ∀ e f : Element,
      (e.chars.map foldCase).isPrefixOf (f.chars.map foldCase) = f.beginsWith e := fun e f =>
    beq_iff_eq.mp (List.all_eq_true.mp (List.all_eq_true.mp h e e.mem_all) f f.mem_all)
  by_contra hf
  rw [Bool.not_eq_false] at hf
  rw [Namespace.beginsWith, List.isPrefixOf_iff_prefix] at he hf
  rw [Bool.or_eq_false_iff, ← htable, ← htable] at hef
  rcases List.prefix_or_prefix_of_prefix he hf with h | h
  · rw [← List.isPrefixOf_iff_prefix, hef.2] at h
    cases h
  · rw [← List.isPrefixOf_iff_prefix, hef.1] at h
    cases h

/-! ### Texts of a service -/

/-- A name before the destination and the name of the service. -/
def serviceEvent (p : Namespace) : StopEvent :=
  { bareEvent with
    serviceFirst := true
    journeyRef := some ⟨some p, .a⟩
    mode := some .a
    publishedServiceName := some .b
    destinationText := some .b }

theorem namespaces_serviceEvent (p : Namespace) : (serviceEvent p).namespaces = [p] := rfl

/-- The name of the mode is read in the place of a later text. -/
theorem blockText_serviceEvent {p : Namespace} {e : Element} (hp : p.beginsWith e = true)
    (he : e = .publishedServiceName ∨ e = .destinationText) :
    blockText (document (serviceBlock [] (serviceEvent p))) e.name = some ['a'] := by
  rw [blockText_document]
  rcases he with rfl | rfl <;>
  · simp [serviceBlock, block, serviceEvent, bareEvent, StopEvent.contentPieces, StopEvent.refPieces,
      leafPieces, StopEvent.modePieces, StopEvent.namePieces, StopEvent.trainPieces, textPieces,
      element, blocks, upTo, leaf, hp, Element.beginsWith]
    exact Text.a.trim_val

theorem not_isRead_serviceEvent {p : Namespace} {e : Element} (hp : p.beginsWith e = true)
    (he : e = .publishedServiceName ∨ e = .destinationText) :
    ¬ (single (serviceEvent p)).IsRead stoppedClock := by
  intro h
  have hresult : p.beginsWith .stopEventResult = false := by
    rcases he with rfl | rfl <;> exact beginsWith_eq_false hp rfl
  obtain ⟨ev, hev, -, hdest, -, hnumber, -⟩ := parseResult_eq stoppedClock.isoToMs
    (firstBlock_stopEvent (mem_univ_namespaces (serviceEvent p)))
    (firstBlock_service_of_first (mem_univ_namespaces (serviceEvent p)) rfl)
  have hrow := row_of_isRead h (by simpa [namespaces_serviceEvent] using hresult) hev
  have htext := blockText_serviceEvent hp he
  rcases he with rfl | rfl
  · rw [htext, hrow] at hnumber
    exact absurd (show ['b'] = ['a'] from hnumber) (by decide)
  · rw [htext, hrow] at hdest
    exact absurd (show ['b'] = ['a'] from hdest) (by decide)

/-! ### The estimated quay -/

/-- A planned quay before the estimated one. -/
def quayEvent (p : Namespace) : StopEvent :=
  { bareEvent with
    thisCall :=
      { bareCall with
        timetabledTime := ⟨some p, .a⟩
        plannedQuay := some .a
        estimatedQuay := some .b } }

/-- The planned quay is read in the place of the estimated one. -/
theorem blockText_quayEvent {p : Namespace} (hp : p.beginsWith .estimatedQuay = true) :
    blockText (document (atStopBlock (quayEvent p).thisCall)) Element.estimatedQuay.name =
      some ['a'] := by
  rw [blockText_document]
  simp [atStopBlock, block, quayEvent, bareEvent, bareCall, Call.contentPieces, Call.timePieces,
    Call.quayPieces, leafPieces, textPieces, element, blocks, upTo, leaf, hp, Element.beginsWith]
  exact Text.a.trim_val

theorem not_isRead_quayEvent {p : Namespace} (hp : p.beginsWith .estimatedQuay = true) :
    ¬ (single (quayEvent p)).IsRead stoppedClock := by
  intro h
  have hns : (quayEvent p).namespaces = [p] := rfl
  have hs : ∀ q ∈ (quayEvent p).namespaces, q ∈ ({p} : Set Namespace) := by simp [hns]
  obtain ⟨pre, -, hservice⟩ := firstBlock_service hs
  obtain ⟨ev, hev, -, -, -, -, hplatform⟩ := parseResult_eq stoppedClock.isoToMs
    (firstBlock_stopEvent hs) hservice
  have hrow := row_of_isRead h
    (by simpa [hns] using beginsWith_eq_false hp (f := .stopEventResult) rfl) hev
  rw [callBlock_stopEventBlock hs (by simpa using beginsWith_eq_false hp (f := .thisCall) rfl),
    blockText_quayEvent hp, hrow] at hplatform
  exact absurd (show ['b'] = ['a'] from hplatform) (by decide)

/-! ### The call at this stop -/

/-- A call before the one at this stop. -/
def callEvent (p : Namespace) : StopEvent :=
  { bareEvent with
    serviceFirst := true
    journeyRef := some ⟨some p, .a⟩
    previousCalls := [⟨{ bareCall with plannedQuay := some .a }, true⟩]
    thisCall := { bareCall with plannedQuay := some .b } }

theorem firstBlock_callAtStop (gs : List Piece) :
    firstBlock (document gs) "CallAtStop" =
      (blocks (opensAt (tagName true Element.callAtStop.chars))
        (closesAt (tagName true Element.callAtStop.chars)) Piece.cut gs).head?.map document :=
  firstBlock_document gs .callAtStop

/-- The call before is read in the place of the one at this stop. -/
theorem callBlock_callEvent {p : Namespace} (hp : p.beginsWith .thisCall = true) :
    callBlock (document (stopEventBlock (callEvent p))) =
      document (atStopBlock { bareCall with plannedQuay := some .a }) := by
  have hcall : p.beginsWith .callAtStop = false := beginsWith_eq_false hp rfl
  rw [callBlock, show "ThisCall" = Element.thisCall.name from rfl, firstBlock_document]
  simp [stopEventBlock, stopEventHead, stopEventEnd, callEvent, bareEvent, bareCall, StopEvent.body,
    StopEvent.servicePieces, StopEvent.contentPieces, StopEvent.refPieces, StopEvent.namePieces,
    StopEvent.trainPieces, StopEvent.callPieces, StopEvent.previousPieces, StopEvent.thisPieces,
    StopEvent.onwardPieces, Sibling.pieces, Call.pieces, Call.contentPieces, Call.timePieces,
    Call.quayPieces, leafPieces, textPieces, element, blocks, upTo, hp, hcall,
    Element.beginsWith, firstBlock_callAtStop, atStopBlock, block, Piece.cut_closing]

theorem not_isRead_callEvent {p : Namespace} (hp : p.beginsWith .thisCall = true) :
    ¬ (single (callEvent p)).IsRead stoppedClock := by
  intro h
  have hns : (callEvent p).namespaces = [p] := rfl
  have hcall : ∀ q ∈ ({ bareCall with plannedQuay := some .a } : Call).namespaces,
      q ∈ (∅ : Set Namespace) := fun q hq => absurd hq List.not_mem_nil
  obtain ⟨ev, hev, -, -, -, -, hplatform⟩ := parseResult_eq stoppedClock.isoToMs
    (firstBlock_stopEvent (mem_univ_namespaces (callEvent p)))
    (firstBlock_service_of_first (mem_univ_namespaces (callEvent p)) rfl)
  have hrow := row_of_isRead h
    (by simpa [hns] using beginsWith_eq_false hp (f := .stopEventResult) rfl) hev
  rw [callBlock_callEvent hp, blockText_plannedQuay hcall,
    blockText_estimatedQuay hcall (by simp), hrow] at hplatform
  exact absurd (show ['b'] = ['a'] from hplatform) (by decide)

/-! ### The mode -/

/-- A quay between two times and the mode. -/
def modeEvent (p q : Namespace) : StopEvent :=
  { bareEvent with
    mode := some .b
    thisCall :=
      { bareCall with
        timetabledTime := ⟨some p, .a⟩
        estimatedTime := some ⟨some q, .a⟩
        plannedQuay := some .a } }

/-- The pieces of the call from the departure on. -/
def modeEventCall (p q : Namespace) : List Piece :=
  (modeEvent p q).thisCall.contentPieces ++
    [.closing none .callAtStop .empty, .closing none .thisCall .empty]

theorem firstBlock_modeEvent (p q : Namespace) :
    firstBlock (document (stopEventBlock (modeEvent p q))) Element.service.name =
      some (document (serviceBlock (modeEventCall p q) (modeEvent p q))) := by
  rw [firstBlock_document]
  simp [stopEventBlock, stopEventHead, stopEventEnd, modeEvent, modeEventCall, bareEvent, bareCall,
    StopEvent.body, StopEvent.servicePieces, StopEvent.contentPieces, StopEvent.refPieces,
    StopEvent.namePieces, StopEvent.trainPieces, StopEvent.callPieces, StopEvent.previousPieces,
    StopEvent.thisPieces, StopEvent.onwardPieces, StopEvent.modePieces, Call.pieces,
    Call.contentPieces, Call.timePieces, Call.quayPieces, leafPieces, textPieces, element, blocks,
    upTo, Element.beginsWith, serviceBlock, block, Piece.cut_closing]
  rfl

/-- The quay is read in the place of the mode. -/
theorem modeText_modeEvent {p q : Namespace} (hp : p.beginsWith .mode = true)
    (hq : q.beginsWith .shortName = true) :
    modeText (document (serviceBlock (modeEventCall p q) (modeEvent p q))) = some ['a'] := by
  have hshort : ∀ gs, blockText (document gs) "ShortName" = _ :=
    fun gs => blockText_document gs .shortName
  rw [modeText, show "Mode" = Element.mode.name from rfl, firstBlock_document]
  simp [modeEvent, modeEventCall, bareEvent, bareCall, StopEvent.contentPieces, StopEvent.refPieces,
    StopEvent.namePieces, StopEvent.trainPieces, StopEvent.modePieces, Call.contentPieces,
    Call.timePieces, Call.quayPieces, leafPieces, textPieces, element, blocks, upTo, leaf,
    Element.beginsWith, serviceBlock, block, hp, hq, hshort,
    beginsWith_eq_false hp (f := .shortName) rfl]
  exact Text.a.trim_val

theorem not_isRead_modeEvent {p q : Namespace} (hp : p.beginsWith .mode = true)
    (hq : q.beginsWith .shortName = true) :
    ¬ (single (modeEvent p q)).IsRead stoppedClock := by
  intro h
  have hns : (modeEvent p q).namespaces = [p, q] := rfl
  obtain ⟨ev, hev, -, -, hcategory, -⟩ := parseResult_eq stoppedClock.isoToMs
    (firstBlock_stopEvent (mem_univ_namespaces _)) (firstBlock_modeEvent p q)
  have hrow := row_of_isRead h
    (by simp [hns, beginsWith_eq_false hp (f := .stopEventResult) rfl,
      beginsWith_eq_false hq (f := .stopEventResult) rfl]) hev
  rw [modeText_modeEvent hp hq, hrow] at hcategory
  exact absurd (show ['b'] = ['a'] from hcategory) (by decide)

/-! ### The result -/

/-- A call whose time may be taken for a result. -/
def resultEvent (p : Namespace) : StopEvent :=
  { bareEvent with thisCall := { bareCall with timetabledTime := ⟨some p, .a⟩ } }

/-- The pieces of the document from that time on. -/
def resultEventRest (p : Namespace) : List Piece :=
  [.opening (some p) .timetabledTime Text.a.plain, .closing (some p) .timetabledTime .empty,
    .closing none .serviceDeparture .empty, .closing none .callAtStop .empty,
    .closing none .thisCall .empty, .opening none .service .empty, .closing none .service .empty,
    .closing none .stopEvent .empty]

theorem keepLatestPerJourney_pair {e f : Event} (he : e.1 = none) (hf : f.1 = none) :
    (keepLatestPerJourney [e, f]).length = 2 := by
  obtain ⟨key, row⟩ := e
  obtain ⟨key', row'⟩ := f
  obtain rfl : key = none := he
  obtain rfl : key' = none := hf
  simp [keepLatestPerJourney, Kept.add, Kept.empty]

/-- The time is taken for a second result. -/
theorem xmlBlocks_resultEvent {p : Namespace} (hp : p.beginsWith .stopEventResult = true) :
    xmlBlocks (single (resultEvent p)).xml Element.stopEventResult.name =
      [document (resultBlock (resultEvent p)),
        document (resultEventRest p ++ [.closing none .stopEventResult .empty])] := by
  have hpieces : (single (resultEvent p)).pieces = (resultEvent p).pieces :=
    List.append_nil _
  rw [Board.xml, xmlBlocks_append (single _).lead.not_mem,
    xmlBlocks_document (isName_element true .stopEventResult), hpieces]
  show (blocks (opensAt (tagName true Element.stopEventResult.chars))
    (closesAt (tagName true Element.stopEventResult.chars)) Piece.cut _).map document = _
  simp [resultEvent, resultEventRest, resultBlock, bareEvent, bareCall, StopEvent.pieces,
    StopEvent.body, StopEvent.servicePieces, StopEvent.contentPieces, StopEvent.refPieces,
    StopEvent.namePieces, StopEvent.trainPieces, StopEvent.callPieces, StopEvent.previousPieces,
    StopEvent.thisPieces, StopEvent.onwardPieces, Call.pieces, Call.contentPieces, Call.timePieces,
    Call.quayPieces, leafPieces, element, block, blocks, upTo, hp, Element.beginsWith,
    Piece.cut_closing]
  rfl

theorem parseResult_resultEventRest {p : Namespace} (hp : p.beginsWith .stopEventResult = true) :
    ∃ ev, parseResult stoppedClock.isoToMs (document (resultEventRest p ++
      [.closing none .stopEventResult .empty])) = some ev ∧ ev.1 = none := by
  have hstop : p.beginsWith .stopEvent = true := by
    rw [Namespace.beginsWith, List.isPrefixOf_iff_prefix] at hp ⊢
    exact List.IsPrefix.trans (by decide +kernel) hp
  have hse : firstBlock (document (resultEventRest p ++ [.closing none .stopEventResult .empty]))
      Element.stopEvent.name = some (document (resultEventRest p)) := by
    rw [firstBlock_document]
    simp [resultEventRest, blocks, upTo, hstop, Element.beginsWith, Piece.cut_closing]
  have hsv : firstBlock (document (resultEventRest p)) Element.service.name =
      some (document (serviceBlock [] bareEvent)) := by
    rw [firstBlock_document]
    simp [resultEventRest, blocks, upTo, beginsWith_eq_false hp (f := .service) rfl,
      Element.beginsWith, Piece.cut_closing]
    rfl
  obtain ⟨ev, hev, hkey, -⟩ := parseResult_eq stoppedClock.isoToMs hse hsv
  refine ⟨ev, hev, hkey.trans ?_⟩
  exact journeyKey_serviceBlock (P := ∅) (fun q hq => absurd hq List.not_mem_nil) .nil

theorem not_isRead_resultEvent {p : Namespace} (hp : p.beginsWith .stopEventResult = true) :
    ¬ (single (resultEvent p)).IsRead stoppedClock := by
  intro h
  obtain ⟨pre, hpre, hservice⟩ := firstBlock_service (mem_univ_namespaces (resultEvent p))
  obtain ⟨ev, hev, hkey, -⟩ := parseResult_eq stoppedClock.isoToMs
    (firstBlock_stopEvent (mem_univ_namespaces _)) hservice
  obtain ⟨ev', hev', hkey'⟩ := parseResult_resultEventRest hp
  rw [Board.IsRead, parseStopEvents,
    show "StopEventResult" = Element.stopEventResult.name from rfl, xmlBlocks_resultEvent hp,
    List.filterMap_cons, hev, List.filterMap_cons, hev', List.filterMap_nil,
    show (single (resultEvent p)).events = [resultEvent p] from rfl, List.map_singleton,
    keepLatestPerJourney_singleton] at h
  have hlength := congrArg List.length h
  rw [keepLatestPerJourney_pair
    (hkey.trans (journeyKey_serviceBlock (mem_univ_namespaces _) hpre)) hkey'] at hlength
  exact absurd (show 2 = 1 from hlength) (by decide)

/-! ### All boards -/

/-- A stop event that uses some of the namespaces makes a board that does. -/
theorem writtenIn_single {P : Set Namespace} {s : StopEvent} (hs : ∀ p ∈ s.namespaces, p ∈ P) :
    (single s).WrittenIn P := by
  intro t ht
  obtain rfl := List.mem_singleton.mp ht
  exact hs

/-- Exactly under unambiguous namespaces all boards are read as they are meant. -/
theorem parse_board_iff (P : Set Namespace) :
    (∀ (b : Board) (clock : Clock), b.WrittenIn P →
      parseStopEvents b.xml clock.isoToMs =
        keepLatestPerJourney (b.events.map (StopEvent.row clock))) ↔ Unambiguous P := by
  constructor
  · intro h
    have hone : ∀ (f : Namespace → StopEvent) (p : Namespace), (f p).namespaces = [p] → p ∈ P →
        (single (f p)).IsRead stoppedClock := by
      intro f p hns hp
      exact h _ _ (writtenIn_single (by simpa [hns] using hp))
    constructor
    · exact fun p hp => Bool.eq_false_iff.mpr fun hb =>
        not_isRead_resultEvent hb (hone resultEvent p rfl hp)
    · exact fun p hp => Bool.eq_false_iff.mpr fun hb =>
        not_isRead_callEvent hb (hone callEvent p rfl hp)
    · exact fun p hp => Bool.eq_false_iff.mpr fun hb =>
        not_isRead_quayEvent hb (hone quayEvent p rfl hp)
    · exact fun p hp => Bool.eq_false_iff.mpr fun hb =>
        not_isRead_serviceEvent hb (.inl rfl) (hone serviceEvent p rfl hp)
    · exact fun p hp => Bool.eq_false_iff.mpr fun hb =>
        not_isRead_serviceEvent hb (.inr rfl) (hone serviceEvent p rfl hp)
    · by_contra hne
      simp only [not_or, not_forall, Bool.not_eq_false] at hne
      obtain ⟨⟨p, hp, hmode⟩, q, hq, hshort⟩ := hne
      have hns : (modeEvent p q).namespaces = [p, q] := rfl
      exact not_isRead_modeEvent hmode hshort
        (h _ _ (writtenIn_single (by simp [hns, hp, hq])))
  · intro hP b clock hb
    exact parseStopEvents_board hP hb clock

/-- The namespace `estimatedquay`. -/
def quayNamespace : Namespace := ⟨"estimatedquay".toList, by decide, by
  have h : "estimatedquay".toList.all Char.isLower = true := by decide +kernel
  exact List.all_eq_true.mp h⟩

/-- A board under that namespace has the planned quay in the place of the estimated one. -/
theorem parse_board_wrong :
    parseStopEvents (single (quayEvent quayNamespace)).xml stoppedClock.isoToMs ≠
      keepLatestPerJourney
        ((single (quayEvent quayNamespace)).events.map (StopEvent.row stoppedClock)) :=
  not_isRead_quayEvent (by decide +kernel)

end Traintime.Ojp
