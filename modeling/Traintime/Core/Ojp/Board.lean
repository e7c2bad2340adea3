import Traintime.Core.Ojp.StopEvents
import Traintime.Core.Ojp.Tags

/-!
# Boards and their documents

The stop events of a response as they are meant, the document that says them, and their rows.

## Main definitions

* `Text`, `Gap`, `Gaps`: the texts of a document and the white space between its tags.
* `Call`, `StopEvent`, `Board`: calls, stop events and their sequence.
* `Board.xml`: the document.
* `StopEvent.row`: the row of a stop event.
* `Clock`: the timestamp functions with exact values.
-/

namespace Traintime.Ojp

/-! ### Texts -/

/-- A text that a document may have between two tags and that is read back as it is: trimmed, with
no tag and no entity in it. -/
structure Text where
  val : List Char
  trim_val : trim val = val
  not_mem_tag : '<' ∉ val
  not_mem_entity : '&' ∉ val

/-- A text as what stands behind a tag, where the only character that is not allowed is `<`. -/
def Text.plain (t : Text) : Plain := ⟨t.val, t.not_mem_tag⟩

/-- White space between two tags, which a document may have anywhere and which no row shows. -/
structure Gap where
  val : List Char
  blank : ∀ c ∈ val, isWhitespace c = true

namespace Gap

theorem not_mem (g : Gap) : '<' ∉ g.val := fun h => absurd (g.blank _ h) (by decide)

/-- White space as what stands behind a tag. -/
def plain (g : Gap) : Plain := ⟨g.val, g.not_mem⟩

/-- No white space, as in a response that is not indented. -/
def empty : Gap := ⟨[], by simp⟩

end Gap

/-- The white space after the tags of each element. -/
structure Gaps where
  opening : Element → Gap
  closing : Element → Gap

/-- No white space behind any tag, the layout of a document on one line. -/
def Gaps.empty : Gaps := ⟨fun _ => .empty, fun _ => .empty⟩

/-- A text under a tag that may have a namespace, as `siri:` in front of `JourneyRef`. The closing
tag repeats it. -/
structure Leaf where
  ns : Option Namespace
  text : Text

/-! ### Elements -/

/-- An element with its content between the two tags, each followed by the white space that the
layout has there. -/
def element (gaps : Gaps) (e : Element) (content : List Piece) : List Piece :=
  .opening none e (gaps.opening e).plain :: (content ++ [.closing none e (gaps.closing e).plain])

/-- The two tags of a leaf with its text between them. -/
def leafPieces (gaps : Gaps) (e : Element) (l : Leaf) : List Piece :=
  [.opening l.ns e l.text.plain, .closing l.ns e (gaps.closing e).plain]

/-- An element with a `Text`. -/
def textPieces (gaps : Gaps) (e : Element) (t : Text) : List Piece :=
  element gaps e
    [.opening none .text t.plain, .closing none .text (gaps.closing .text).plain]

/-! ### Calls -/

/-- A call at a stop: the timetabled departure, the estimated one if there is one, the platforms,
and the layout of the elements. -/
structure Call where
  timetabledTime : Leaf
  estimatedTime : Option Leaf
  plannedQuay : Option Text
  estimatedQuay : Option Text
  gaps : Gaps

namespace Call

/-- The timetabled time of a call and the estimated one, if there is one. -/
def timePieces (c : Call) : List Piece :=
  leafPieces c.gaps .timetabledTime c.timetabledTime ++
    c.estimatedTime.elim [] (leafPieces c.gaps .estimatedTime)

/-- The platforms of a call, the planned one and then the estimated one, each with its `Text`. -/
def quayPieces (c : Call) : List Piece :=
  c.plannedQuay.elim [] (textPieces c.gaps .plannedQuay) ++
    c.estimatedQuay.elim [] (textPieces c.gaps .estimatedQuay)

/-- What a call says: its times inside of `ServiceDeparture`, and its platforms behind it. -/
def contentPieces (c : Call) : List Piece :=
  element c.gaps .serviceDeparture c.timePieces ++ c.quayPieces

/-- The call as the element `CallAtStop`. -/
def pieces (c : Call) : List Piece := element c.gaps .callAtStop c.contentPieces

/-- The namespaces that the times of a call are written with. The platforms have none. -/
def namespaces (c : Call) : List Namespace :=
  c.timetabledTime.ns.toList ++ (c.estimatedTime.bind Leaf.ns).toList

end Call

/-- A call before or after the one at this stop, with or without `CallAtStop`. -/
structure Sibling where
  call : Call
  atStop : Bool

/-- The element of an earlier or a later call, `PreviousCall` or `OnwardCall`, with the call as its
content or inside of `CallAtStop`. -/
def Sibling.pieces (e : Element) (s : Sibling) : List Piece :=
  element s.call.gaps e (if s.atStop then s.call.pieces else s.call.contentPieces)

/-! ### Stop events -/

/-- A stop event: what is known about the service, the calls before this stop, the one at it and the
ones after it, and whether the service is written first. -/
structure StopEvent where
  operatingDayRef : Option Leaf
  journeyRef : Option Leaf
  mode : Option Text
  publishedServiceName : Option Text
  destinationText : Option Text
  trainNumber : Option Leaf
  operatorRef : Option Leaf
  previousCalls : List Sibling
  thisCall : Call
  onwardCalls : List Sibling
  serviceFirst : Bool
  gaps : Gaps

namespace StopEvent

/-- The mode with its short name. -/
def modePieces (gaps : Gaps) (t : Text) : List Piece :=
  element gaps .mode (textPieces gaps .shortName t)

/-- The references that make up the key of a journey, the operating day and the journey, as far as
they are there. -/
def refPieces (s : StopEvent) : List Piece :=
  s.operatingDayRef.elim [] (leafPieces s.gaps .operatingDayRef) ++
    s.journeyRef.elim [] (leafPieces s.gaps .journeyRef)

/-- The elements with the name of the line and with the destination of the service. -/
def namePieces (s : StopEvent) : List Piece :=
  s.publishedServiceName.elim [] (textPieces s.gaps .publishedServiceName) ++
    s.destinationText.elim [] (textPieces s.gaps .destinationText)

/-- The elements with the number of the train and with its operator. -/
def trainPieces (s : StopEvent) : List Piece :=
  s.trainNumber.elim [] (leafPieces s.gaps .trainNumber) ++
    s.operatorRef.elim [] (leafPieces s.gaps .operatorRef)

/-- Everything that the service of a stop event says: references, mode, names and train. -/
def contentPieces (s : StopEvent) : List Piece :=
  s.refPieces ++ (s.mode.elim [] (modePieces s.gaps) ++ (s.namePieces ++ s.trainPieces))

/-- The element `Service`, the only one whose leaves tell what a row is about. -/
def servicePieces (s : StopEvent) : List Piece := element s.gaps .service s.contentPieces

/-- The calls before this stop. They have times and platforms too, which must not get into the row.
-/
def previousPieces (s : StopEvent) : List Piece :=
  s.previousCalls.flatMap (Sibling.pieces .previousCall)

/-- The element `ThisCall` with the call that the row is about. -/
def thisPieces (s : StopEvent) : List Piece := element s.gaps .thisCall s.thisCall.pieces

/-- The calls after this stop, whose times and platforms must not get into the row either. -/
def onwardPieces (s : StopEvent) : List Piece :=
  s.onwardCalls.flatMap (Sibling.pieces .onwardCall)

/-- All calls of a stop event, the earlier ones first and the later ones last. -/
def callPieces (s : StopEvent) : List Piece :=
  s.previousPieces ++ (s.thisPieces ++ s.onwardPieces)

/-- The content of `StopEvent`. The service stands behind the calls or, where a document has it so,
in front of them. -/
def body (s : StopEvent) : List Piece :=
  if s.serviceFirst then s.servicePieces ++ s.callPieces else s.callPieces ++ s.servicePieces

/-- The stop event inside of the result that it stands in, `StopEventResult`. -/
def pieces (s : StopEvent) : List Piece :=
  element s.gaps .stopEventResult (element s.gaps .stopEvent s.body)

/-- The namespaces that are used in a stop event. -/
def namespaces (s : StopEvent) : List Namespace :=
  ([s.operatingDayRef, s.journeyRef, s.trainNumber, s.operatorRef].flatMap
    fun l => (l.bind Leaf.ns).toList) ++
    (s.previousCalls.flatMap (·.call.namespaces) ++ (s.thisCall.namespaces ++
      s.onwardCalls.flatMap (·.call.namespaces)))

end StopEvent

/-- A document with stop events one after the other, in one element or not. -/
structure Board where
  lead : Gap
  wrapper : Option Gaps
  events : List StopEvent

namespace Board

/-- The stop events of a board one after the other. -/
def eventPieces (b : Board) : List Piece := b.events.flatMap StopEvent.pieces

/-- The stop events, inside of the element that OJP puts around them or without it. -/
def pieces (b : Board) : List Piece :=
  b.wrapper.elim b.eventPieces fun gaps => element gaps .ojp b.eventPieces

/-- The document. -/
def xml (b : Board) : List Char := b.lead.val ++ document b.pieces

/-- All namespaces of a document are among the given ones. -/
def WrittenIn (b : Board) (P : Set Namespace) : Prop :=
  ∀ s ∈ b.events, ∀ p ∈ s.namespaces, p ∈ P

end Board

/-! ### Rows -/

/-- A timestamp function whose values are integers that are exact in double precision. -/
structure Clock where
  ms : List Char → ℤ
  exact : ∀ s, |ms s| ≤ 2 ^ 53

/-- The function as it is passed. -/
def Clock.isoToMs (clock : Clock) (s : List Char) : Binary64 := .ofInt (clock.ms s)

section Rows

variable (clock : Clock)

/-- The seconds of a time. -/
def Clock.seconds (s : Text) : ℤ := Binary64.trunc (clock.ms s.val / 1000)

/-- The minutes from one time to another. The difference is exact when double precision has it. -/
def Clock.minutes (s t : Text) : ℤ :=
  Binary64.roundAway (Binary64.nearest (clock.ms t.val - clock.ms s.val) / 60000)

/-- The minutes by which a call is late, if it is. -/
def Call.delay (c : Call) : Option ℤ :=
  (c.estimatedTime.map fun et => clock.minutes c.timetabledTime.text et.text).filter (0 < ·)

/-- The value of an optional text. -/
def textOr (t : Option Text) (s : List Char) : List Char := t.elim s Text.val

namespace StopEvent

/-- The key of the journey of a stop event, its operating day and its reference. A stop event
without a reference has none and is never taken for a repetition. -/
def key (s : StopEvent) : Option (List Char) :=
  s.journeyRef.map fun journey =>
    textOr (s.operatingDayRef.map Leaf.text) [] ++ '|' :: journey.text.val

/-- The row of a stop event. -/
def row (s : StopEvent) : Event :=
  (s.key,
    { destination := textOr s.destinationText ['?']
      category := textOr s.mode []
      number := textOr s.publishedServiceName []
      departure := clock.seconds s.thisCall.timetabledTime.text
      delay := s.thisCall.delay clock
      platform := textOr s.thisCall.estimatedQuay (textOr s.thisCall.plannedQuay [])
      platformChanged := s.thisCall.estimatedQuay.any (·.val != textOr s.thisCall.plannedQuay [])
      trainNumber := s.trainNumber.map (·.text.val)
      operatorRef := s.operatorRef.map (·.text.val) })

end StopEvent

end Rows

end Traintime.Ojp
