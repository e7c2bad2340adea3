import Traintime.Lib.Xml.Literal

/-!
# The stop event request

The document that `build_stop_event_request_xml` of `core/src/ojp.rs` sends upstream. The handlers
pass the client's station id as it is, and the document has it where the text of an element is.

## Main definitions

* `buildStopEventRequestXml`: the function of the source.
* `IsoTimestamp`: what its callers pass as the time.
* `requestTree`: the request as it is meant.
* `PlainText`: the station ids that are text.

## Main results

* `read_request_iff`: the document is read as the request exactly if the station id is plain text.
-/

namespace Traintime

open Xml

/-- The characters of a timestamp. -/
def isoChars : List Char := "0123456789-:.+TZ".toList

/-- A timestamp as both runtimes write it, such as `2026-01-01T00:00:00.000Z`. -/
structure IsoTimestamp where
  val : String
  ok : val.toList.all isoChars.contains = true

/-! ### The document -/

/-- The lines of the document up to the first timestamp. -/
def serviceHeadLines : List String :=
  ["<?xml version=\"1.0\" encoding=\"UTF-8\"?>\n",
    "<OJP xmlns=\"http://www.vdv.de/ojp\" xmlns:siri=\"http://www.siri.org.uk/siri\" ",
    "version=\"2.0\">\n",
    "  <OJPRequest>\n",
    "    <siri:ServiceRequest>\n",
    "      <siri:RequestTimestamp>"]

/-- The lines up to the second timestamp. -/
def requestHeadLines : List String :=
  ["</siri:RequestTimestamp>\n",
    "      <siri:RequestorRef>traintime_prod</siri:RequestorRef>\n",
    "      <OJPStopEventRequest>\n",
    "        <siri:RequestTimestamp>"]

/-- The lines up to the number of the message. -/
def messageHeadLines : List String :=
  ["</siri:RequestTimestamp>\n",
    "        <siri:MessageIdentifier>SER-"]

/-- The lines up to the station id. -/
def stopHeadLines : List String :=
  ["</siri:MessageIdentifier>\n",
    "        <Location>\n",
    "          <PlaceRef>\n",
    "            <siri:StopPointRef>"]

/-- The lines up to the limit. -/
def paramsHeadLines : List String :=
  ["</siri:StopPointRef>\n",
    "          </PlaceRef>\n",
    "        </Location>\n",
    "        <Params>\n",
    "          <NumberOfResults>"]

/-- The lines after the limit. -/
def requestEndLines : List String :=
  ["</NumberOfResults>\n",
    "          <StopEventType>departure</StopEventType>\n",
    "        </Params>\n",
    "      </OJPStopEventRequest>\n",
    "    </siri:ServiceRequest>\n",
    "  </OJPRequest>\n",
    "</OJP>"]

/-- The document with its values. -/
def buildStopEventRequestXml (stopRef : String) (limit : UInt32) (nowIso : String)
    (messageId : UInt64) : String :=
  String.join (serviceHeadLines ++ nowIso :: (requestHeadLines ++ nowIso :: (messageHeadLines ++
    messageId.toNat.repr :: (stopHeadLines ++ stopRef :: (paramsHeadLines ++
      limit.toNat.repr :: requestEndLines)))))

/-! ### The request that is meant -/

/-- A line break and the indentation of the next line. -/
def indentText (n : ℕ) : List Char := '\n' :: List.replicate n ' '

/-- A line break with the indentation as a node of the tree, since the request is written on several
lines. -/
def indent (n : ℕ) : Node := .text (indentText n)

/-- An element with a text. -/
def leaf (name : String) (text : String) : Node := .elem name.toList [] [.text text.toList]

/-- The request that is meant: one stop event request with the station and the limit. -/
def requestTree (stopRef : String) (limit : UInt32) (now : String) (messageId : UInt64) : Node :=
  .elem "OJP".toList
    [("xmlns".toList, "http://www.vdv.de/ojp".toList),
      ("xmlns:siri".toList, "http://www.siri.org.uk/siri".toList),
      ("version".toList, "2.0".toList)]
    [indent 2, .elem "OJPRequest".toList []
      [indent 4, .elem "siri:ServiceRequest".toList []
        [indent 6, leaf "siri:RequestTimestamp" now,
          indent 6, leaf "siri:RequestorRef" "traintime_prod",
          indent 6, .elem "OJPStopEventRequest".toList []
            [indent 8, leaf "siri:RequestTimestamp" now,
              indent 8, leaf "siri:MessageIdentifier" ("SER-" ++ messageId.toNat.repr),
              indent 8, .elem "Location".toList []
                [indent 10, .elem "PlaceRef".toList []
                  [indent 12, leaf "siri:StopPointRef" stopRef, indent 10],
                  indent 8],
              indent 8, .elem "Params".toList []
                [indent 10, leaf "NumberOfResults" limit.toNat.repr,
                  indent 10, leaf "StopEventType" "departure", indent 8],
              indent 6],
          indent 4],
        indent 2],
      indent 0]

/-- The station ids that are text of the document: characters that a document may have as they are,
without the end of a CDATA section. -/
def PlainText (s : String) : Prop :=
  (∀ c ∈ s.toList, isXmlChar c = true ∧ c ≠ '<' ∧ c ≠ '&' ∧ c ≠ '\r') ∧ ¬ cdataEnd <:+: s.toList

/-! ### The pieces of the document -/

/-- The pieces up to the first timestamp. -/
def serviceHead : List Piece :=
  [.startTag "OJP".toList
      [("xmlns".toList, "http://www.vdv.de/ojp".toList),
        ("xmlns:siri".toList, "http://www.siri.org.uk/siri".toList),
        ("version".toList, "2.0".toList)],
    .text (indentText 2), .startTag "OJPRequest".toList [],
    .text (indentText 4), .startTag "siri:ServiceRequest".toList [],
    .text (indentText 6), .startTag "siri:RequestTimestamp".toList []]

/-- The pieces up to the second timestamp. -/
def requestHead : List Piece :=
  [.endTag "siri:RequestTimestamp".toList,
    .text (indentText 6), .startTag "siri:RequestorRef".toList [], .text "traintime_prod".toList,
    .endTag "siri:RequestorRef".toList,
    .text (indentText 6), .startTag "OJPStopEventRequest".toList [],
    .text (indentText 8), .startTag "siri:RequestTimestamp".toList []]

/-- The pieces up to the message identifier. -/
def messageHead : List Piece :=
  [.endTag "siri:RequestTimestamp".toList,
    .text (indentText 8), .startTag "siri:MessageIdentifier".toList []]

/-- The pieces up to the station id. -/
def stopHead : List Piece :=
  [.endTag "siri:MessageIdentifier".toList,
    .text (indentText 8), .startTag "Location".toList [],
    .text (indentText 10), .startTag "PlaceRef".toList [],
    .text (indentText 12), .startTag "siri:StopPointRef".toList []]

/-- The pieces up to the limit. -/
def paramsHead : List Piece :=
  [.endTag "siri:StopPointRef".toList,
    .text (indentText 10), .endTag "PlaceRef".toList,
    .text (indentText 8), .endTag "Location".toList,
    .text (indentText 8), .startTag "Params".toList [],
    .text (indentText 10), .startTag "NumberOfResults".toList []]

/-- The pieces after the limit. -/
def requestEnd : List Piece :=
  [.endTag "NumberOfResults".toList,
    .text (indentText 10), .startTag "StopEventType".toList [], .text "departure".toList,
    .endTag "StopEventType".toList,
    .text (indentText 8), .endTag "Params".toList,
    .text (indentText 6), .endTag "OJPStopEventRequest".toList,
    .text (indentText 4), .endTag "siri:ServiceRequest".toList,
    .text (indentText 2), .endTag "OJPRequest".toList,
    .text (indentText 0), .endTag "OJP".toList]

variable (stopRef : String) (limit : UInt32) (now : IsoTimestamp) (messageId : UInt64)

/-- The pieces before the station id. -/
def piecesBefore : List Piece :=
  serviceHead ++ .text now.val.toList :: (requestHead ++ .text now.val.toList :: (messageHead ++
    .text ("SER-" ++ messageId.toNat.repr).toList :: stopHead))

/-- The pieces after the station id. -/
def piecesAfter : List Piece := paramsHead ++ .text limit.toNat.repr.toList :: requestEnd

theorem pieces_requestTree :
    (requestTree stopRef limit now.val messageId).pieces =
      piecesBefore now messageId ++ .text stopRef.toList :: piecesAfter limit := by
  simp only [requestTree, leaf, indent, Node.pieces, Node.piecesList, piecesBefore, piecesAfter,
    serviceHead, requestHead, messageHead, stopHead, paramsHead, requestEnd, List.cons_append,
    List.nil_append, List.append_nil]

/-- The declaration before the pieces. -/
def declaration : List Char := "<?xml version=\"1.0\" encoding=\"UTF-8\"?>\n".toList

theorem run_declaration : run State.init declaration = some ((⟨0, [], false⟩ : Place).state []) := by
  decide

/-- The pieces are written as the lines of the source. -/
theorem render_heads :
    declaration ++ render serviceHead = serviceHeadLines.flatMap String.toList ∧
      render requestHead = requestHeadLines.flatMap String.toList ∧
      render messageHead ++ "SER-".toList = messageHeadLines.flatMap String.toList ∧
      render stopHead = stopHeadLines.flatMap String.toList ∧
      render paramsHead = paramsHeadLines.flatMap String.toList ∧
      render requestEnd = requestEndLines.flatMap String.toList := by
  decide +kernel

theorem toList_request :
    (buildStopEventRequestXml stopRef limit now.val messageId).toList =
      declaration ++ (render (piecesBefore now messageId) ++ (stopRef.toList ++
        render (piecesAfter limit))) := by
  obtain ⟨hservice, hrequest, hmessage, hstop, hparams, hend⟩ := render_heads
  simp only [buildStopEventRequestXml, String.toList_join, List.flatMap_append, List.flatMap_cons,
    ← hservice, ← hrequest, ← hmessage, ← hstop, ← hparams, ← hend, piecesBefore, piecesAfter,
    render_append_text, String.toList_append, List.append_assoc]

/-! ### Reading the document -/

/-- The elements around the first timestamp. -/
def serviceStack : List Name :=
  ["siri:ServiceRequest".toList, "OJPRequest".toList, "OJP".toList]

/-- The elements around the second timestamp. -/
def requestStack : List Name := "OJPStopEventRequest".toList :: serviceStack

/-- The elements that are open at the station id. -/
def stopStack : List Name :=
  "siri:StopPointRef".toList :: "PlaceRef".toList :: "Location".toList :: requestStack

theorem scan_isoTimestamp : scan 0 now.val.toList = some 0 := by
  have hchars : isoChars.all (fun c => isLiteral c && c != ']') = true := by decide
  refine scan_eq_zero fun c hc => ?_
  have hmem := List.contains_iff_mem.1 (List.all_eq_true.1 now.ok c hc)
  simpa using List.all_eq_true.1 hchars c hmem

theorem isLiteral_of_isDigit {c : Char} (h : c.isDigit = true) : isLiteral c = true ∧ c ≠ ']' := by
  have hne : ∀ {d : Char}, d.isDigit = false → c ≠ d := by
    rintro d hd rfl
    rw [h] at hd
    cases hd
  have hx : isXmlChar c = true := by
    have hc : 48 ≤ c.toNat ∧ c.toNat ≤ 57 := by
      simpa [Char.isDigit, UInt32.le_iff_toNat_le] using h
    simp only [isXmlChar, Bool.or_eq_true, Bool.and_eq_true, decide_eq_true_eq]
    omega
  exact ⟨isLiteral_iff.2 ⟨hx, hne (by decide), hne (by decide), hne (by decide)⟩, hne (by decide)⟩

theorem scan_repr (n : ℕ) : scan 0 n.repr.toList = some 0 :=
  scan_eq_zero fun _ hc => isLiteral_of_isDigit (Decimal.isDigit_of_mem_repr hc)

theorem scan_message : scan 0 ("SER-" ++ messageId.toNat.repr).toList = some 0 := by
  refine scan_eq_zero fun c hc => ?_
  rw [String.toList_append, List.mem_append] at hc
  rcases hc with hc | hc
  · have hchars : "SER-".toList.all (fun c => isLiteral c && c != ']') = true := by decide
    simpa using List.all_eq_true.1 hchars c hc
  · exact isLiteral_of_isDigit (Decimal.isDigit_of_mem_repr hc)

theorem fits_piecesBefore :
    (piecesBefore now messageId).foldlM Piece.next ⟨0, [], false⟩ =
      some ⟨0, stopStack, true⟩ := by
  have hservice : serviceHead.foldlM Piece.next ⟨0, [], false⟩ =
      some ⟨0, "siri:RequestTimestamp".toList :: serviceStack, true⟩ := by decide +kernel
  have hrequest : requestHead.foldlM Piece.next
      ⟨0, "siri:RequestTimestamp".toList :: serviceStack, true⟩ =
      some ⟨0, "siri:RequestTimestamp".toList :: requestStack, true⟩ := by decide +kernel
  have hmessage : messageHead.foldlM Piece.next
      ⟨0, "siri:RequestTimestamp".toList :: requestStack, true⟩ =
      some ⟨0, "siri:MessageIdentifier".toList :: requestStack, true⟩ := by decide +kernel
  have hstop : stopHead.foldlM Piece.next
      ⟨0, "siri:MessageIdentifier".toList :: requestStack, true⟩ =
      some ⟨0, stopStack, true⟩ := by decide +kernel
  rw [piecesBefore, foldlM_append_text hservice (List.cons_ne_nil _ _) (scan_isoTimestamp now),
    foldlM_append_text hrequest (List.cons_ne_nil _ _) (scan_isoTimestamp now),
    foldlM_append_text hmessage (List.cons_ne_nil _ _) (scan_message messageId), hstop]

theorem fits_piecesAfter (k : ℕ) :
    (piecesAfter limit).foldlM Piece.next ⟨k, stopStack, true⟩ = some ⟨0, [], true⟩ := by
  have hparams : paramsHead.foldlM Piece.next ⟨0, stopStack, true⟩ =
      some ⟨0, "NumberOfResults".toList :: "Params".toList :: requestStack, true⟩ := by
    decide +kernel
  have hend : requestEnd.foldlM Piece.next
      ⟨0, "NumberOfResults".toList :: "Params".toList :: requestStack, true⟩ =
      some ⟨0, [], true⟩ := by decide +kernel
  -- the first piece is a tag, which ends the brackets
  have hparams' : paramsHead.foldlM Piece.next ⟨k, stopStack, true⟩ =
      some ⟨0, "NumberOfResults".toList :: "Params".toList :: requestStack, true⟩ := hparams
  rw [piecesAfter, foldlM_append_text hparams' (List.cons_ne_nil _ _) (scan_repr _), hend]

/-- The pieces of the request with a literal station id fit. -/
theorem fits_request {k : ℕ} {stop : List Char} (h : scan 0 stop = some k) :
    (piecesBefore now messageId ++ .text stop :: piecesAfter limit).foldlM Piece.next
      ⟨0, [], false⟩ = some ⟨0, [], true⟩ := by
  rw [foldlM_append_text (fits_piecesBefore now messageId) (List.cons_ne_nil _ _) h,
    fits_piecesAfter]

/-- Pieces that fit as a document after the declaration are read. -/
theorem read_of_fits {doc : String} {ps : List Piece} (hdoc : doc.toList = declaration ++ render ps)
    (hps : ps.foldlM Piece.next ⟨0, [], false⟩ = some ⟨0, [], true⟩) :
    Xml.read doc = some (report ps) := by
  have hrun : run State.init (declaration ++ render ps) = _ := run_append_of_run run_declaration
  rw [run_render [] hps, List.nil_append] at hrun
  rw [Xml.read, hdoc, hrun]
  rfl

/-- The document of a literal station id is read as the request. -/
theorem read_of_scan {k : ℕ} (h : scan 0 stopRef.toList = some k) :
    Xml.read (buildStopEventRequestXml stopRef limit now.val messageId) =
      some (report (requestTree stopRef limit now.val messageId).pieces) := by
  rw [pieces_requestTree]
  refine read_of_fits ?_ (fits_request limit now messageId h)
  rw [toList_request, render_append_text]

/-- Only the document of a literal station id is read as the request. -/
theorem scan_of_read
    (h : Xml.read (buildStopEventRequestXml stopRef limit now.val messageId) =
      some (report (requestTree stopRef limit now.val messageId).pieces)) :
    ∃ k, scan 0 stopRef.toList = some k := by
  rw [pieces_requestTree, Xml.read, toList_request, run_append_of_run run_declaration,
    run_append_of_run (run_render [] (fits_piecesBefore now messageId))] at h
  split at h
  · rename_i s hrun
    split_ifs at h with hend
    refine scan_of_run_pieces (p := ⟨0, stopStack, true⟩) (List.cons_ne_nil _ _) hrun hend.1 ?_
    rw [Option.some.inj h, report, report, List.flatMap_append, List.flatMap_cons,
      List.nil_append]
    rfl
  · cases h

theorem exists_scan_iff_plainText :
    (∃ k, scan 0 stopRef.toList = some k) ↔ PlainText stopRef := by
  simp only [exists_scan_iff, PlainText, isLiteral_iff]

/-- **The stop event request.** Whatever the limit, the time and the number of the message, the
document is read as the request that is meant if and only if the station id is plain text. -/
theorem read_request_iff :
    Xml.read (buildStopEventRequestXml stopRef limit now.val messageId) =
        some (report (requestTree stopRef limit now.val messageId).pieces) ↔
      PlainText stopRef := by
  rw [← exists_scan_iff_plainText]
  refine ⟨scan_of_read stopRef limit now messageId, fun ⟨k, hk⟩ => ?_⟩
  exact read_of_scan stopRef limit now messageId hk

/-- A time. -/
def someTime : IsoTimestamp := ⟨"2026-01-01T00:00:00.000Z", by decide⟩

/-- A station id that ends its element and begins another one. -/
def injected : String := "1</siri:StopPointRef><siri:StopPointRef>2"

/-- The pieces of its document. -/
def injectedPieces : List Piece :=
  piecesBefore someTime 1 ++ .text ['1'] :: ([.endTag "siri:StopPointRef".toList,
    .startTag "siri:StopPointRef".toList []] ++ .text ['2'] :: piecesAfter 50)

/-- The document is read with two stops, and not as the request that is meant. -/
theorem read_injected :
    (∃ events, Xml.read (buildStopEventRequestXml injected 50 someTime.val 1) = some events ∧
      events.count (.startTag "siri:StopPointRef".toList []) = 2) ∧
    Xml.read (buildStopEventRequestXml injected 50 someTime.val 1) ≠
      some (report (requestTree injected 50 someTime.val 1).pieces) := by
  have hdoc : (buildStopEventRequestXml injected 50 someTime.val 1).toList =
      declaration ++ render injectedPieces := by
    have hstop : injected.toList = ['1'] ++ (render [.endTag "siri:StopPointRef".toList,
        .startTag "siri:StopPointRef".toList []] ++ ['2']) := by decide +kernel
    rw [toList_request, injectedPieces, render_append_text, render_append_text, hstop]
    simp only [List.append_assoc]
  have hfits : injectedPieces.foldlM Piece.next ⟨0, [], false⟩ = some ⟨0, [], true⟩ := by
    have hmiddle : [Piece.endTag "siri:StopPointRef".toList,
        .startTag "siri:StopPointRef".toList []].foldlM Piece.next ⟨0, stopStack, true⟩ =
        some ⟨0, stopStack, true⟩ := by decide +kernel
    rw [injectedPieces, foldlM_append_text (fits_piecesBefore someTime 1) (List.cons_ne_nil _ _) rfl,
      foldlM_append_text hmiddle (List.cons_ne_nil _ _) rfl, fits_piecesAfter]
  refine ⟨⟨_, read_of_fits hdoc hfits, by decide +kernel⟩, fun h => ?_⟩
  obtain ⟨k, hk⟩ := scan_of_read injected 50 someTime 1 h
  have hnone : scan 0 injected.toList = none := by decide +kernel
  rw [hnone] at hk
  cases hk

end Traintime
