import Traintime.Core.Ojp.Reading

/-!
# The board that is read is the board that is meant

A document of stop events is read as the rows of its stop events, with what order the parts of a
stop event come in and which of them there are, unless a namespace begins with the name of an
element in small letters.

## Main definitions

* `Unambiguous`: the namespaces under which no tag is taken for another.

## Main results

* `parseResult_resultBlock`: a result is read as the row of its stop event.
* `parseStopEvents_board`: a document is read as the rows of its stop events.
-/

namespace Traintime.Ojp

open Regex Blocks

/-- Namespaces under which no tag is taken for a part of a stop event. A mode is found by two names,
one of which is enough. -/
structure Unambiguous (P : Set Namespace) : Prop where
  stopEventResult : ∀ p ∈ P, p.beginsWith .stopEventResult = false
  thisCall : ∀ p ∈ P, p.beginsWith .thisCall = false
  estimatedQuay : ∀ p ∈ P, p.beginsWith .estimatedQuay = false
  publishedServiceName : ∀ p ∈ P, p.beginsWith .publishedServiceName = false
  destinationText : ∀ p ∈ P, p.beginsWith .destinationText = false
  mode : (∀ p ∈ P, p.beginsWith .mode = false) ∨ ∀ p ∈ P, p.beginsWith .shortName = false

/-! ### The tags of the parts -/

/-- The elements of a call. -/
def callElements : List Element :=
  [.callAtStop, .serviceDeparture, .timetabledTime, .estimatedTime, .plannedQuay, .estimatedQuay,
    .text]

/-- The elements of the calls. -/
def callsElements : List Element := .previousCall :: .thisCall :: .onwardCall :: callElements

/-- The elements of a service. -/
def serviceElements : List Element :=
  [.operatingDayRef, .journeyRef, .mode, .shortName, .publishedServiceName, .destinationText,
    .trainNumber, .operatorRef, .text]

section Parts

variable {P : Set Namespace}

theorem among_leaf {o : Option Leaf} {gaps : Gaps} {e : Element}
    (h : ∀ p ∈ o.bind Leaf.ns, p ∈ P) : Among [e] P (o.elim [] (leafPieces gaps e)) := by
  cases o with
  | none => exact .nil
  | some l => exact .leafPieces (by simp) h

theorem among_texts {o : Option Text} {gaps : Gaps} {e : Element} :
    Among [e, .text] P (o.elim [] (textPieces gaps e)) :=
  .elim fun _ _ => .textPieces (by simp) (by simp)

namespace Call

variable {c : Call} (hc : ∀ p ∈ c.namespaces, p ∈ P)

include hc

theorem among_timePieces : Among [.timetabledTime, .estimatedTime] P c.timePieces := by
  have htt : ∀ p ∈ c.timetabledTime.ns, p ∈ P := fun p hp =>
    hc p (List.mem_append_left _ (Option.mem_toList.mpr hp))
  have het : ∀ p ∈ c.estimatedTime.bind Leaf.ns, p ∈ P := fun p hp =>
    hc p (List.mem_append_right _ (Option.mem_toList.mpr hp))
  exact (Among.leafPieces List.mem_cons_self htt).append ((among_leaf het).mono (by simp))

theorem among_departure : Among [.serviceDeparture, .timetabledTime, .estimatedTime] P
    (element c.gaps .serviceDeparture c.timePieces) :=
  .element (by simp) ((among_timePieces hc).mono (by simp))

omit hc in
theorem among_quayPieces : Among [.plannedQuay, .estimatedQuay, .text] P c.quayPieces :=
  (among_texts.mono (by simp)).append (among_texts.mono (by simp))

theorem among_contentPieces : Among callElements P c.contentPieces :=
  ((among_departure hc).mono (by simp [callElements])).append
    (among_quayPieces.mono (by simp [callElements]))

theorem among_pieces : Among callElements P c.pieces :=
  .element (by simp [callElements]) (among_contentPieces hc)

end Call

theorem Sibling.among_pieces {s : Sibling} {e : Element}
    (hs : ∀ p ∈ s.call.namespaces, p ∈ P) : Among (e :: callElements) P (s.pieces e) := by
  refine .element (by simp) ?_
  split_ifs
  · exact (Call.among_pieces hs).mono (List.subset_cons_self _ _)
  · exact (Call.among_contentPieces hs).mono (List.subset_cons_self _ _)

namespace StopEvent

variable {s : StopEvent} (hs : ∀ p ∈ s.namespaces, p ∈ P)

include hs

theorem namespaces_thisCall : ∀ p ∈ s.thisCall.namespaces, p ∈ P := fun p hp =>
  hs p (by simp [namespaces, hp])

theorem among_previousPieces : Among (.previousCall :: callElements) P s.previousPieces :=
  .flatMap fun c hc => Sibling.among_pieces fun p hp => hs p (by
    simp only [namespaces, List.mem_append, List.mem_flatMap]
    exact .inr (.inl ⟨c, hc, hp⟩))

theorem among_onwardPieces : Among (.onwardCall :: callElements) P s.onwardPieces :=
  .flatMap fun c hc => Sibling.among_pieces fun p hp => hs p (by
    simp only [namespaces, List.mem_append, List.mem_flatMap]
    exact .inr (.inr (.inr ⟨c, hc, hp⟩)))

theorem among_thisPieces : Among (.thisCall :: callElements) P s.thisPieces :=
  .element (by simp)
    ((Call.among_pieces (namespaces_thisCall hs)).mono (List.subset_cons_self _ _))

theorem among_callPieces : Among callsElements P s.callPieces := by
  refine .append ?_ (.append ?_ ?_)
  · exact (among_previousPieces hs).mono (by simp [callsElements, callElements])
  · exact (among_thisPieces hs).mono (by simp [callsElements, callElements])
  · exact (among_onwardPieces hs).mono (by simp [callsElements, callElements])

theorem among_operatingDayRef : Among [.operatingDayRef] P
    (s.operatingDayRef.elim [] (leafPieces s.gaps .operatingDayRef)) :=
  among_leaf fun p hp => hs p (by simp_all [namespaces])

theorem among_journeyRef : Among [.journeyRef] P
    (s.journeyRef.elim [] (leafPieces s.gaps .journeyRef)) :=
  among_leaf fun p hp => hs p (by simp_all [namespaces])

theorem among_trainNumber : Among [.trainNumber] P
    (s.trainNumber.elim [] (leafPieces s.gaps .trainNumber)) :=
  among_leaf fun p hp => hs p (by simp_all [namespaces])

theorem among_operatorRef : Among [.operatorRef] P
    (s.operatorRef.elim [] (leafPieces s.gaps .operatorRef)) :=
  among_leaf fun p hp => hs p (by simp_all [namespaces])

omit hs in
theorem among_mode : Among [.mode, .shortName, .text] P (s.mode.elim [] (modePieces s.gaps)) :=
  .elim fun _ _ => .element (by simp) (.textPieces (by simp) (by simp))

theorem among_contentPieces : Among serviceElements P s.contentPieces := by
  refine .append (.append ?_ ?_) (.append ?_ (.append (.append ?_ ?_) (.append ?_ ?_)))
  · exact (among_operatingDayRef hs).mono (by simp [serviceElements])
  · exact (among_journeyRef hs).mono (by simp [serviceElements])
  · exact among_mode.mono (by simp [serviceElements])
  · exact among_texts.mono (by simp [serviceElements])
  · exact among_texts.mono (by simp [serviceElements])
  · exact (among_trainNumber hs).mono (by simp [serviceElements])
  · exact (among_operatorRef hs).mono (by simp [serviceElements])

end StopEvent

end Parts

/-! ### Reading a service -/

section Service

variable {P : Set Namespace} (hP : Unambiguous P) {s : StopEvent} (hs : ∀ p ∈ s.namespaces, p ∈ P)
  {pre : List Piece} (hpre : Among callsElements P pre)

/-- The block of a service, which may begin at a call. -/
def serviceBlock (pre : List Piece) (s : StopEvent) : List Piece :=
  pre ++ block s.gaps .service s.contentPieces

/-- The pieces of a service block up to its first part. -/
def serviceHead (pre : List Piece) (s : StopEvent) : List Piece :=
  pre ++ [.opening none .service (s.gaps.opening .service).plain]

/-- The end of a service. -/
def serviceEnd : List Piece := [.closing none .service .empty]

include hpre in
theorem among_serviceHead : Among (callsElements ++ [.service]) P (serviceHead pre s) :=
  hpre.union (.cons_opening (by simp) (by simp) .nil)

theorem among_serviceEnd : Among [.service] P serviceEnd := .cons_closing (by simp) (by simp) .nil

theorem serviceBlock_eq (pre : List Piece) (s : StopEvent) :
    serviceBlock pre s = serviceHead pre s ++ (s.refPieces ++ (s.mode.elim []
      (StopEvent.modePieces s.gaps) ++ (s.namePieces ++ (s.trainPieces ++ serviceEnd)))) := by
  simp [serviceBlock, serviceHead, serviceEnd, block, StopEvent.contentPieces]

include hs in
theorem among_refPieces : Among ([.operatingDayRef] ++ [.journeyRef]) P s.refPieces :=
  (StopEvent.among_operatingDayRef hs).union (StopEvent.among_journeyRef hs)

theorem among_namePieces :
    Among ([.publishedServiceName, .text] ++ [.destinationText, .text]) P s.namePieces :=
  among_texts.union among_texts

include hs in
theorem among_trainEnd : Among ([.trainNumber] ++ [.operatorRef] ++ [.service]) P
    (s.trainPieces ++ serviceEnd) :=
  ((StopEvent.among_trainNumber hs).union (StopEvent.among_operatorRef hs)).union among_serviceEnd

include hs hpre

theorem xmlText_operatingDayRef :
    xmlText (document (serviceBlock pre s)) Element.operatingDayRef.name =
      s.operatingDayRef.map (·.text.val) := by
  rw [serviceBlock_eq, StopEvent.refPieces, List.append_assoc]
  refine xmlText_leaf (Among.closesAt_eq_false ((among_serviceHead hpre).union
    ((StopEvent.among_journeyRef hs).union (StopEvent.among_mode.union
      (among_namePieces.union (among_trainEnd hs))))) (by decide))

theorem xmlText_journeyRef :
    xmlText (document (serviceBlock pre s)) Element.journeyRef.name =
      s.journeyRef.map (·.text.val) := by
  rw [serviceBlock_eq, StopEvent.refPieces, List.append_assoc, ← List.append_assoc]
  refine xmlText_leaf (Among.closesAt_eq_false (((among_serviceHead hpre).union
    (StopEvent.among_operatingDayRef hs)).union (StopEvent.among_mode.union
      (among_namePieces.union (among_trainEnd hs)))) (by decide))

theorem xmlText_trainNumber :
    xmlText (document (serviceBlock pre s)) Element.trainNumber.name =
      s.trainNumber.map (·.text.val) := by
  have hsplit : serviceBlock pre s = (serviceHead pre s ++ (s.refPieces ++ (s.mode.elim []
      (StopEvent.modePieces s.gaps) ++ s.namePieces))) ++ (s.trainNumber.elim []
        (leafPieces s.gaps .trainNumber) ++ (s.operatorRef.elim []
          (leafPieces s.gaps .operatorRef) ++ serviceEnd)) := by
    simp [serviceBlock_eq, StopEvent.trainPieces]
  rw [hsplit]
  refine xmlText_leaf (Among.closesAt_eq_false (((among_serviceHead hpre).union
    ((among_refPieces hs).union (StopEvent.among_mode.union among_namePieces))).union
      ((StopEvent.among_operatorRef hs).union among_serviceEnd)) (by decide))

theorem xmlText_operatorRef :
    xmlText (document (serviceBlock pre s)) Element.operatorRef.name =
      s.operatorRef.map (·.text.val) := by
  have hsplit : serviceBlock pre s = (serviceHead pre s ++ (s.refPieces ++ (s.mode.elim []
      (StopEvent.modePieces s.gaps) ++ (s.namePieces ++ s.trainNumber.elim []
        (leafPieces s.gaps .trainNumber))))) ++ (s.operatorRef.elim []
          (leafPieces s.gaps .operatorRef) ++ serviceEnd) := by
    simp [serviceBlock_eq, StopEvent.trainPieces]
  rw [hsplit]
  refine xmlText_leaf (Among.closesAt_eq_false (((among_serviceHead hpre).union
    ((among_refPieces hs).union (StopEvent.among_mode.union (among_namePieces.union
      (StopEvent.among_trainNumber hs))))).union among_serviceEnd) (by decide))

/-- The key of the journey is read. -/
theorem journeyKey_serviceBlock : journeyKey (document (serviceBlock pre s)) = s.key := by
  have hday := xmlText_operatingDayRef hs hpre
  have hjourney := xmlText_journeyRef hs hpre
  rw [journeyKey, show "JourneyRef" = Element.journeyRef.name from rfl, hjourney,
    show "OperatingDayRef" = Element.operatingDayRef.name from rfl, hday, StopEvent.key]
  cases s.journeyRef <;> cases s.operatingDayRef <;> rfl

include hP

theorem modeText_serviceBlock :
    modeText (document (serviceBlock pre s)) = s.mode.map Text.val := by
  have has : Among _ P (serviceHead pre s ++ s.refPieces) :=
    (among_serviceHead hpre).union (among_refPieces hs)
  rw [serviceBlock_eq, ← List.append_assoc]
  refine modeText_mode ?_ ?_ ?_
  · rcases hP.mode with h | h
    · exact .inl (has.opensAt_eq_false (by decide) h)
    · exact .inr (has.opensAt_eq_false (by decide) h)
  · exact Among.closesAt_eq_false (has.union (among_namePieces.union (among_trainEnd hs)))
      (by decide)
  · exact has.closesAt_eq_false (by decide)

theorem blockText_publishedServiceName :
    blockText (document (serviceBlock pre s)) Element.publishedServiceName.name =
      s.publishedServiceName.map Text.val := by
  have hsplit : serviceBlock pre s = (serviceHead pre s ++ (s.refPieces ++ s.mode.elim []
      (StopEvent.modePieces s.gaps))) ++ (s.publishedServiceName.elim []
        (textPieces s.gaps .publishedServiceName) ++ (s.destinationText.elim []
          (textPieces s.gaps .destinationText) ++ (s.trainPieces ++ serviceEnd))) := by
    simp [serviceBlock_eq, StopEvent.namePieces]
  have has : Among _ P (serviceHead pre s ++ (s.refPieces ++ s.mode.elim []
      (StopEvent.modePieces s.gaps))) :=
    (among_serviceHead hpre).union ((among_refPieces hs).union StopEvent.among_mode)
  rw [hsplit]
  refine blockText_texts (has.opensAt_eq_false (by decide) hP.publishedServiceName) ?_ (by simp)
  exact Among.closesAt_eq_false (has.union (among_texts.union (among_trainEnd hs))) (by decide)

theorem blockText_destinationText :
    blockText (document (serviceBlock pre s)) Element.destinationText.name =
      s.destinationText.map Text.val := by
  have hsplit : serviceBlock pre s = (serviceHead pre s ++ (s.refPieces ++ (s.mode.elim []
      (StopEvent.modePieces s.gaps) ++ s.publishedServiceName.elim []
        (textPieces s.gaps .publishedServiceName)))) ++ (s.destinationText.elim []
          (textPieces s.gaps .destinationText) ++ (s.trainPieces ++ serviceEnd)) := by
    simp [serviceBlock_eq, StopEvent.namePieces]
  have has : Among _ P (serviceHead pre s ++ (s.refPieces ++ (s.mode.elim []
      (StopEvent.modePieces s.gaps) ++ s.publishedServiceName.elim []
        (textPieces s.gaps .publishedServiceName)))) :=
    (among_serviceHead hpre).union ((among_refPieces hs).union
      (StopEvent.among_mode.union among_texts))
  rw [hsplit]
  refine blockText_texts (has.opensAt_eq_false (by decide) hP.destinationText) ?_ (by simp)
  exact Among.closesAt_eq_false (has.union (among_trainEnd hs)) (by decide)

end Service

/-! ### Reading a call -/

section Calls

variable {P : Set Namespace} {c : Call} (hc : ∀ p ∈ c.namespaces, p ∈ P)

/-- The block of a call. -/
def atStopBlock (c : Call) : List Piece := block c.gaps .callAtStop c.contentPieces

include hc

theorem depBlock_atStopBlock :
    depBlock (document (atStopBlock c)) = document (block c.gaps .serviceDeparture c.timePieces) := by
  have hsplit : atStopBlock c = [.opening none .callAtStop (c.gaps.opening .callAtStop).plain] ++
      (element c.gaps .serviceDeparture c.timePieces ++
        (c.quayPieces ++ [.closing none .callAtStop .empty])) := by
    simp [atStopBlock, block, Call.contentPieces]
  rw [depBlock, hsplit, show "ServiceDeparture" = Element.serviceDeparture.name from rfl,
    firstBlock_element (by simp [Element.beginsWith])
      ((Call.among_timePieces hc).closesAt_eq_false (by decide))]
  rfl

theorem xmlText_timetabledTime :
    xmlText (document (block c.gaps .serviceDeparture c.timePieces)) Element.timetabledTime.name =
      some c.timetabledTime.text.val := by
  have het : ∀ p ∈ c.estimatedTime.bind Leaf.ns, p ∈ P := fun p hp =>
    hc p (List.mem_append_right _ (Option.mem_toList.mpr hp))
  have hsplit : block c.gaps .serviceDeparture c.timePieces =
      [.opening none .serviceDeparture (c.gaps.opening .serviceDeparture).plain] ++
        ((some c.timetabledTime).elim [] (leafPieces c.gaps .timetabledTime) ++
          (c.estimatedTime.elim [] (leafPieces c.gaps .estimatedTime) ++
            [.closing none .serviceDeparture .empty])) := by
    simp [block, Call.timePieces]
  rw [hsplit]
  refine xmlText_leaf (Among.closesAt_eq_false (P := P) (E := [.serviceDeparture, .estimatedTime])
    (.cons_opening (by simp) (by simp) (((among_leaf het).mono (by simp)).append
      (.cons_closing (by simp) (by simp) .nil))) (by decide))

theorem xmlText_estimatedTime :
    xmlText (document (block c.gaps .serviceDeparture c.timePieces)) Element.estimatedTime.name =
      c.estimatedTime.map (·.text.val) := by
  have htt : ∀ p ∈ c.timetabledTime.ns, p ∈ P := fun p hp =>
    hc p (List.mem_append_left _ (Option.mem_toList.mpr hp))
  have hsplit : block c.gaps .serviceDeparture c.timePieces =
      (.opening none .serviceDeparture (c.gaps.opening .serviceDeparture).plain ::
        leafPieces c.gaps .timetabledTime c.timetabledTime) ++
          (c.estimatedTime.elim [] (leafPieces c.gaps .estimatedTime) ++
            [.closing none .serviceDeparture .empty]) := by
    simp [block, Call.timePieces]
  rw [hsplit]
  refine xmlText_leaf (Among.closesAt_eq_false (P := P) (E := [.serviceDeparture, .timetabledTime])
    (.append (.cons_opening (by simp) (by simp) (.leafPieces (by simp) htt))
      (.cons_closing (by simp) (by simp) .nil)) (by decide))

/-- The pieces of a call up to its quays. -/
def quayHead (c : Call) : List Piece :=
  .opening none .callAtStop (c.gaps.opening .callAtStop).plain ::
    element c.gaps .serviceDeparture c.timePieces

theorem among_quayHead :
    Among [.callAtStop, .serviceDeparture, .timetabledTime, .estimatedTime] P (quayHead c) :=
  .cons_opening (by simp) (by simp) ((Call.among_departure hc).mono (by simp))

/-- No text comes before the planned quay, so it is read with any namespace. -/
theorem blockText_plannedQuay :
    blockText (document (atStopBlock c)) Element.plannedQuay.name = c.plannedQuay.map Text.val := by
  have hsplit : atStopBlock c = quayHead c ++ (c.plannedQuay.elim []
      (textPieces c.gaps .plannedQuay) ++ (c.estimatedQuay.elim []
        (textPieces c.gaps .estimatedQuay) ++ [.closing none .callAtStop .empty])) := by
    simp [atStopBlock, quayHead, block, Call.contentPieces, Call.quayPieces]
  rw [hsplit]
  refine blockText_texts_of_free ((among_quayHead hc).closesAt_text_eq_false (by decide)) ?_
    (by simp)
  exact Among.closesAt_eq_false ((among_quayHead hc).union (among_texts.union
    (.cons_closing (E := [.callAtStop]) (by simp) (by simp) .nil))) (by decide)

theorem blockText_estimatedQuay (hP : ∀ p ∈ P, p.beginsWith .estimatedQuay = false) :
    blockText (document (atStopBlock c)) Element.estimatedQuay.name =
      c.estimatedQuay.map Text.val := by
  have hsplit : atStopBlock c = (quayHead c ++ c.plannedQuay.elim []
      (textPieces c.gaps .plannedQuay)) ++ (c.estimatedQuay.elim []
        (textPieces c.gaps .estimatedQuay) ++ [.closing none .callAtStop .empty]) := by
    simp [atStopBlock, quayHead, block, Call.contentPieces, Call.quayPieces]
  have has : Among _ P (quayHead c ++ c.plannedQuay.elim [] (textPieces c.gaps .plannedQuay)) :=
    (among_quayHead hc).union among_texts
  rw [hsplit]
  refine blockText_texts (has.opensAt_eq_false (by decide) hP) ?_ (by simp)
  exact Among.closesAt_eq_false (has.union
    (.cons_closing (E := [.callAtStop]) (by simp) (by simp) .nil)) (by decide)

end Calls

/-! ### Reading a stop event -/

section StopEvents

variable {P : Set Namespace} (hP : Unambiguous P) {s : StopEvent} (hs : ∀ p ∈ s.namespaces, p ∈ P)

/-- The block of a result. -/
def resultBlock (s : StopEvent) : List Piece :=
  block s.gaps .stopEventResult (element s.gaps .stopEvent s.body)

/-- The pieces before the parts of a stop event. -/
def stopEventHead (s : StopEvent) : List Piece :=
  [.opening none .stopEventResult (s.gaps.opening .stopEventResult).plain,
    .opening none .stopEvent (s.gaps.opening .stopEvent).plain]

/-- The pieces after the parts of a stop event, up to the end of its block. -/
def stopEventEnd : List Piece := [.closing none .stopEvent .empty]

/-- The block of a stop event, which begins at the result. -/
def stopEventBlock (s : StopEvent) : List Piece := stopEventHead s ++ (s.body ++ stopEventEnd)

theorem among_stopEventHead : Among [.stopEventResult, .stopEvent] P (stopEventHead s) :=
  .cons_opening (by simp) (by simp) (.cons_opening (by simp) (by simp) .nil)

include hs

theorem among_servicePieces : Among (.service :: serviceElements) P s.servicePieces :=
  .element (by simp) ((StopEvent.among_contentPieces hs).mono (by simp))

theorem among_body : Among (.service :: serviceElements ++ callsElements) P s.body := by
  have hservice := (among_servicePieces hs).mono
    (List.subset_append_left (.service :: serviceElements) callsElements)
  have hcalls := (StopEvent.among_callPieces hs).mono
    (List.subset_append_right (.service :: serviceElements) callsElements)
  unfold StopEvent.body
  split_ifs
  · exact hservice.append hcalls
  · exact hcalls.append hservice

theorem firstBlock_stopEvent :
    firstBlock (document (resultBlock s)) Element.stopEvent.name =
      some (document (stopEventBlock s)) := by
  have hmid : ∀ g ∈ .opening none .stopEvent (s.gaps.opening .stopEvent).plain :: s.body,
      closesAt (tagName true Element.stopEvent.chars) g = false :=
    List.forall_mem_cons.mpr ⟨closesAt_opening _ _ _ _,
      (among_body hs).closesAt_eq_false (by decide)⟩
  have hsplit : resultBlock s = [] ++ .opening none .stopEventResult
      (s.gaps.opening .stopEventResult).plain ::
        ((.opening none .stopEvent (s.gaps.opening .stopEvent).plain :: s.body) ++
          .closing none .stopEvent (s.gaps.closing .stopEvent).plain ::
            [.closing none .stopEventResult .empty]) := by
    simp [resultBlock, block, element]
  rw [firstBlock_document, hsplit, head?_blocks_eq (by simp) (by simp [Element.beginsWith]) hmid
    (by simp)]
  rfl

omit hs in
theorem contentPieces_eq (c : Call) :
    ∃ tail, c.contentPieces = .opening none .serviceDeparture
      (c.gaps.opening .serviceDeparture).plain :: tail :=
  ⟨_, rfl⟩

omit hs in
/-- The calls begin with tags up to a departure. -/
theorem exists_isPrefix_callPieces (s : StopEvent) :
    ∃ (head : List Piece) (t : Plain),
      head ++ [.opening none .serviceDeparture t] <+: s.callPieces ∧
        Among [.previousCall, .thisCall, .callAtStop] (∅ : Set Namespace) head := by
  rcases hprev : s.previousCalls with - | ⟨c, cs⟩
  · obtain ⟨tail, htail⟩ := contentPieces_eq s.thisCall
    refine ⟨[.opening none .thisCall (s.gaps.opening .thisCall).plain,
      .opening none .callAtStop (s.thisCall.gaps.opening .callAtStop).plain],
      (s.thisCall.gaps.opening .serviceDeparture).plain, ?_,
      .cons_opening (by simp) (by simp) (.cons_opening (by simp) (by simp) .nil)⟩
    rw [StopEvent.callPieces, StopEvent.previousPieces, hprev, StopEvent.thisPieces, Call.pieces,
      htail]
    exact ⟨_, rfl⟩
  · obtain ⟨tail, htail⟩ := contentPieces_eq c.call
    cases hat : c.atStop with
    | false =>
      refine ⟨[.opening none .previousCall (c.call.gaps.opening .previousCall).plain],
        (c.call.gaps.opening .serviceDeparture).plain, ?_, .cons_opening (by simp) (by simp) .nil⟩
      rw [StopEvent.callPieces, StopEvent.previousPieces, hprev, List.flatMap_cons, Sibling.pieces,
        hat, if_neg Bool.false_ne_true, htail]
      exact ⟨_, rfl⟩
    | true =>
      refine ⟨[.opening none .previousCall (c.call.gaps.opening .previousCall).plain,
        .opening none .callAtStop (c.call.gaps.opening .callAtStop).plain],
        (c.call.gaps.opening .serviceDeparture).plain, ?_,
        .cons_opening (by simp) (by simp) (.cons_opening (by simp) (by simp) .nil)⟩
      rw [StopEvent.callPieces, StopEvent.previousPieces, hprev, List.flatMap_cons, Sibling.pieces,
        hat, if_pos rfl, Call.pieces, htail]
      exact ⟨_, rfl⟩

/-- A service that comes first is read by itself. -/
theorem firstBlock_service_of_first (hfirst : s.serviceFirst = true) :
    firstBlock (document (stopEventBlock s)) Element.service.name =
      some (document (serviceBlock [] s)) := by
  have hsplit : stopEventBlock s = stopEventHead s ++ (element s.gaps .service s.contentPieces ++
      (s.callPieces ++ stopEventEnd)) := by
    simp [stopEventBlock, StopEvent.body, hfirst, StopEvent.servicePieces]
  rw [hsplit, firstBlock_element (Among.opensAt_eq_false (P := ∅) among_stopEventHead (by decide)
    (by simp)) ((StopEvent.among_contentPieces hs).closesAt_eq_false (by decide))]
  rfl

/-- The service is read with all that comes before it from the first departure on. -/
theorem firstBlock_service :
    ∃ pre, Among callsElements P pre ∧
      firstBlock (document (stopEventBlock s)) Element.service.name =
        some (document (serviceBlock pre s)) := by
  have hcontent : ∀ g ∈ s.contentPieces, closesAt (tagName true Element.service.chars) g = false :=
    (StopEvent.among_contentPieces hs).closesAt_eq_false (by decide)
  cases hfirst : s.serviceFirst with
  | true => exact ⟨[], .nil, firstBlock_service_of_first hs hfirst⟩
  | false =>
    obtain ⟨head, t, ⟨tail, heq⟩, hhead⟩ := exists_isPrefix_callPieces s
    rw [List.append_assoc, List.singleton_append] at heq
    have hcalls := StopEvent.among_callPieces hs
    rw [← heq] at hcalls
    have htail : Among callsElements P (.opening none .serviceDeparture t :: tail) :=
      fun g hg => hcalls g (List.mem_append_right head hg)
    refine ⟨.opening none .serviceDeparture t :: tail, htail, ?_⟩
    have hsplit : stopEventBlock s = (stopEventHead s ++ head) ++
        .opening none .serviceDeparture t :: ((tail ++ .opening none .service
          (s.gaps.opening .service).plain :: s.contentPieces) ++ .closing none .service
            (s.gaps.closing .service).plain :: stopEventEnd) := by
      simp [stopEventBlock, StopEvent.body, hfirst, StopEvent.servicePieces, ← heq, element]
    have hbefore : ∀ g ∈ stopEventHead s ++ head,
        opensAt (tagName true Element.service.chars) g = false :=
      Among.opensAt_eq_false (among_stopEventHead.union hhead) (by decide) (by simp)
    have hmid : ∀ g ∈ tail ++ .opening none .service (s.gaps.opening .service).plain ::
        s.contentPieces, closesAt (tagName true Element.service.chars) g = false := by
      refine List.forall_mem_append.mpr ⟨?_, List.forall_mem_cons.mpr ⟨closesAt_opening _ _ _ _,
        hcontent⟩⟩
      exact fun g hg => htail.closesAt_eq_false (by decide) g (List.mem_cons_of_mem _ hg)
    rw [firstBlock_document, hsplit, head?_blocks_eq hbefore (by simp [Element.beginsWith]) hmid
      (by simp)]
    simp [serviceBlock, block, Piece.cut_closing]

/-- The call that is read is the one at this stop. -/
theorem callBlock_stopEventBlock (hP : ∀ p ∈ P, p.beginsWith .thisCall = false) :
    callBlock (document (stopEventBlock s)) = document (atStopBlock s.thisCall) := by
  have hc := StopEvent.namespaces_thisCall hs
  have hcontent : ∀ g ∈ s.thisCall.pieces, closesAt (tagName true Element.thisCall.chars) g = false :=
    (Call.among_pieces hc).closesAt_eq_false (by decide)
  have hblock : firstBlock (document (stopEventBlock s)) Element.thisCall.name =
      some (document (block s.gaps .thisCall s.thisCall.pieces)) := by
    obtain ⟨as, bs, hsplit, has⟩ : ∃ as bs, stopEventBlock s =
        as ++ (element s.gaps .thisCall s.thisCall.pieces ++ bs) ∧
          Among ([.stopEventResult, .stopEvent] ++ (.service :: serviceElements ++
            .previousCall :: callElements)) P as := by
      have hhead : Among _ P (stopEventHead s) := among_stopEventHead
      have hprev := StopEvent.among_previousPieces hs
      cases hfirst : s.serviceFirst with
      | true =>
        refine ⟨stopEventHead s ++ (s.servicePieces ++ s.previousPieces),
          s.onwardPieces ++ stopEventEnd, ?_, hhead.union ((among_servicePieces hs).union hprev)⟩
        simp [stopEventBlock, StopEvent.body, hfirst, StopEvent.callPieces, StopEvent.thisPieces]
      | false =>
        refine ⟨stopEventHead s ++ s.previousPieces,
          s.onwardPieces ++ (s.servicePieces ++ stopEventEnd), ?_,
          hhead.union (hprev.mono (List.subset_append_right _ _))⟩
        simp [stopEventBlock, StopEvent.body, hfirst, StopEvent.callPieces, StopEvent.thisPieces]
    rw [hsplit]
    exact firstBlock_element (has.opensAt_eq_false (by decide) hP) hcontent
  have hinner : firstBlock (document (block s.gaps .thisCall s.thisCall.pieces))
      Element.callAtStop.name = some (document (atStopBlock s.thisCall)) := by
    have hsplit : block s.gaps .thisCall s.thisCall.pieces =
        [.opening none .thisCall (s.gaps.opening .thisCall).plain] ++
          (element s.thisCall.gaps .callAtStop s.thisCall.contentPieces ++
            [.closing none .thisCall .empty]) := by
      simp [block, Call.pieces]
    rw [hsplit]
    exact firstBlock_element (by simp [Element.beginsWith]) (Among.closesAt_eq_false
      (E := [.serviceDeparture, .timetabledTime, .estimatedTime, .plannedQuay, .estimatedQuay,
        .text]) (((Call.among_departure hc).mono (by simp)).append
          (Call.among_quayPieces.mono (by simp))) (by decide))
  rw [callBlock, show "ThisCall" = Element.thisCall.name from rfl, hblock, Option.bind_some,
    show "CallAtStop" = Element.callAtStop.name from rfl, hinner]
  rfl

omit hs in
theorem departureTimestamp_isoToMs (clock : Clock) (t : Text) :
    departureTimestamp clock.isoToMs (some t.val) = clock.seconds t := by
  have h := Binary64.toInt64_div (d := 1000) (k := 44) (clock.exact t.val) (by norm_num)
    (by norm_num) (by norm_num) (by norm_num) (by norm_num)
  rw [Int.cast_ofNat] at h
  exact h

omit hs in
theorem delayMinutes_isoToMs (clock : Clock) (et : Option Text) (tt : Text) :
    delayMinutes clock.isoToMs (et.map Text.val) (some tt.val) =
      (et.map fun et => clock.minutes tt et).filter (0 < ·) := by
  cases et with
  | none => rfl
  | some et =>
    have h := Binary64.toInt64_round_div_sub (d := 60000) (k := 38) (clock.exact et.val)
      (clock.exact tt.val) (by norm_num) (by norm_num) (by norm_num) (by norm_num) (by norm_num)
      (by norm_num)
    rw [Int.cast_ofNat] at h
    have hmin : (((clock.isoToMs et.val).sub (clock.isoToMs tt.val)).div (.ofInt
        60000)).round.toInt64 = clock.minutes tt et := h
    rw [Option.map_some, Option.map_some, delayMinutes, hmin, Option.filter_some]
    by_cases h0 : 0 < clock.minutes tt et <;> simp [h0]

include hP in
/-- A result is read as the row of its stop event. -/
theorem parseResult_resultBlock (clock : Clock) :
    parseResult clock.isoToMs (document (resultBlock s)) = some (s.row clock) := by
  have hc := StopEvent.namespaces_thisCall hs
  obtain ⟨pre, hpre, hservice⟩ := firstBlock_service hs
  have hstop : firstBlock (document (resultBlock s)) "StopEvent" = _ := firstBlock_stopEvent hs
  have hservice' : firstBlock (document (stopEventBlock s)) "Service" = _ := hservice
  have htrain : xmlText _ "TrainNumber" = _ := xmlText_trainNumber hs hpre
  have hoperator : xmlText _ "OperatorRef" = _ := xmlText_operatorRef hs hpre
  have hnumber : blockText _ "PublishedServiceName" = _ := blockText_publishedServiceName hP hs hpre
  have hdest : blockText _ "DestinationText" = _ := blockText_destinationText hP hs hpre
  have htt : xmlText _ "TimetabledTime" = _ := xmlText_timetabledTime hc
  have het : xmlText _ "EstimatedTime" = _ := xmlText_estimatedTime hc
  have hplanned : blockText _ "PlannedQuay" = _ := blockText_plannedQuay hc
  have hestimated : blockText _ "EstimatedQuay" = _ := blockText_estimatedQuay hc hP.estimatedQuay
  simp only [parseResult, Option.bind_eq_bind, hstop, Option.bind_some, hservice',
    callBlock_stopEventBlock hs hP.thisCall, depBlock_atStopBlock hc, htrain, hoperator, hnumber, hdest,
    htt, het, hplanned, hestimated, journeyKey_serviceBlock hs hpre, modeText_serviceBlock hP hs hpre]
  have hgetD : ∀ (o : Option Text) (d : List Char), (o.map Text.val).getD d = textOr o d := by
    intro o d
    cases o <;> rfl
  have hdelay : delayMinutes clock.isoToMs (s.thisCall.estimatedTime.map (·.text.val))
      (some s.thisCall.timetabledTime.text.val) = s.thisCall.delay clock := by
    rw [Call.delay, ← Function.comp_def Text.val Leaf.text, ← Option.map_map,
      delayMinutes_isoToMs, Option.map_map]
    rfl
  rw [hdelay, departureTimestamp_isoToMs, StopEvent.row]
  simp only [hgetD, Option.any_map]

end StopEvents

/-! ### Reading a board -/

theorem among_result {P : Set Namespace} {s : StopEvent} (hs : ∀ p ∈ s.namespaces, p ∈ P) :
    Among (.stopEvent :: (.service :: serviceElements ++ callsElements)) P
      (element s.gaps .stopEvent s.body) :=
  .element (by simp) ((among_body hs).mono (List.subset_cons_self _ _))

theorem blocks_eventPieces {P : Set Namespace}
    (hP : ∀ p ∈ P, p.beginsWith .stopEventResult = false) {b : Board}
    (hb : b.WrittenIn P) (rest : List Piece) :
    blocks (opensAt (tagName true Element.stopEventResult.chars))
        (closesAt (tagName true Element.stopEventResult.chars)) Piece.cut (b.eventPieces ++ rest) =
      b.events.map resultBlock ++ blocks (opensAt (tagName true Element.stopEventResult.chars))
        (closesAt (tagName true Element.stopEventResult.chars)) Piece.cut rest :=
  blocks_flatMap (by simp [Element.beginsWith]) (by simp) (fun s hs g hg =>
    ⟨(among_result (hb s hs)).opensAt_eq_false (by decide) hP g hg,
      (among_result (hb s hs)).closesAt_eq_false (by decide) g hg⟩) rest

/-- The results of a document. -/
theorem xmlBlocks_board {P : Set Namespace}
    (hP : ∀ p ∈ P, p.beginsWith .stopEventResult = false) {b : Board}
    (hb : b.WrittenIn P) :
    xmlBlocks b.xml Element.stopEventResult.name =
      b.events.map fun s => document (resultBlock s) := by
  have hblocks : blocks (opensAt (tagName true Element.stopEventResult.chars))
      (closesAt (tagName true Element.stopEventResult.chars)) Piece.cut b.pieces =
        b.events.map resultBlock := by
    cases hwrap : b.wrapper with
    | none =>
      have h := blocks_eventPieces hP hb []
      rw [List.append_nil, blocks, List.append_nil] at h
      rw [Board.pieces, hwrap]
      exact h
    | some gaps =>
      have h := blocks_eventPieces hP hb [.closing none .ojp (gaps.closing .ojp).plain]
      have hend : blocks (opensAt (tagName true Element.stopEventResult.chars))
          (closesAt (tagName true Element.stopEventResult.chars)) Piece.cut
            [.closing none .ojp (gaps.closing .ojp).plain] = [] :=
        blocks_eq_nil (by simp)
      rw [hend, List.append_nil] at h
      rw [Board.pieces, hwrap, ← h]
      have hstart : ∀ g ∈ [Piece.opening none .ojp (gaps.opening .ojp).plain],
          opensAt (tagName true Element.stopEventResult.chars) g = false := by
        simp [Element.beginsWith]
      exact blocks_append hstart _
  rw [Board.xml, xmlBlocks_append b.lead.not_mem,
    xmlBlocks_document (isName_element true .stopEventResult)]
  show (blocks (opensAt (tagName true Element.stopEventResult.chars))
    (closesAt (tagName true Element.stopEventResult.chars)) Piece.cut b.pieces).map document = _
  rw [hblocks, List.map_map]
  rfl

/-- A document is read as the rows of its stop events. -/
theorem parseStopEvents_board {P : Set Namespace} (hP : Unambiguous P) {b : Board}
    (hb : b.WrittenIn P) (clock : Clock) :
    parseStopEvents b.xml clock.isoToMs =
      keepLatestPerJourney (b.events.map (StopEvent.row clock)) := by
  rw [parseStopEvents, show "StopEventResult" = Element.stopEventResult.name from rfl,
    xmlBlocks_board hP.stopEventResult hb, List.filterMap_map]
  congr 1
  rw [← List.filterMap_eq_map]
  exact List.filterMap_congr fun s hs => parseResult_resultBlock hP (hb s hs) clock

end Traintime.Ojp
