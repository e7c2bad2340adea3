import Traintime.Core.Ojp.StopEvents
import Traintime.Lib.Memo
import Traintime.Lib.RegexSyntax

/-!
# The cache of compiled patterns

The functions of `core/src/ojp.rs` as they are, with the texts of their patterns and the cache of
compiled patterns of their thread, `PATTERNS`. A pattern that cannot be compiled is a panic in all of
them but `xml_text`.

## Main definitions

* `textPattern`, `openPattern`, `closePattern`, `langPattern`: the texts of the patterns.
* `Cached.compile`, `Cached.parseStopEvents`: the functions of the source with the cache.
* `patterns`: the patterns of `parse_stop_events`.

## Main results

* `parse_textPattern`, `parse_openPattern`, `parse_closePattern`, `parse_langPattern`: the patterns
  that the texts denote.
* `parseStopEvents_memoised`: a thread parses any responses as if there were no cache, and compiles
  each of the patterns once.
-/

namespace Traintime.Ojp

open Regex (Denotes Same)

/-! ### The texts of the patterns -/

/-- The text of the pattern of `xml_text`, `<(?:[a-z]+:)?{tag}[^>]*>([^<]*)</(?:[a-z]+:)?{tag}>`. -/
def textPattern (tag : List Char) : List Char :=
  "<(?:[a-z]+:)?".toList ++ tag ++ "[^>]*>([^<]*)</(?:[a-z]+:)?".toList ++ tag ++ ">".toList

/-- The text of the start pattern of `xml_blocks`, `(?i)<(?:[a-z]+:)?{tag}[^>]*>`. -/
def openPattern (tag : List Char) : List Char :=
  "(?i)<(?:[a-z]+:)?".toList ++ tag ++ "[^>]*>".toList

/-- The text of the end pattern of `xml_blocks`, `(?i)</(?:[a-z]+:)?{tag}>`. -/
def closePattern (tag : List Char) : List Char :=
  "(?i)</(?:[a-z]+:)?".toList ++ tag ++ ">".toList

/-- The text of the pattern of `xml_lang_text`, the only one that no tag is put into. -/
def langPattern : List Char := "(?i)<Text[^>]*>([^<]*)</Text>".toList

/-! ### What they stand for -/

section Denote

variable {ci : Bool} {n : List Char} {name : Regex}

theorem denotes_tagName {tag : List Char} (htag : ∀ c ∈ tag, Regex.isLiteral c = true) :
    Denotes ci ("(?:[a-z]+:)?".toList ++ tag) (tagName ci tag) :=
  have hprefix := Denotes.lowerMany1.append (.sign (c := ':') (by decide) (by decide) (by decide))
  hprefix.optional.append (.word htag)

theorem denotes_openTag (hname : Denotes ci n name) :
    Denotes ci ("<".toList ++ (n ++ "[^>]*>".toList)) (openTag name) :=
  have hrest := (Denotes.exceptMany (by decide) (by decide) (by decide)).append
    (.sign (by decide) (by decide) (by decide))
  (Denotes.sign (by decide) (by decide) (by decide)).append (hname.append hrest)

theorem denotes_closeTag (hname : Denotes ci n name) :
    Denotes ci ("</".toList ++ (n ++ ">".toList)) (closeTag name) :=
  have hrest := hname.append (.sign (by decide) (by decide) (by decide))
  (Denotes.sign (c := '<') (by decide) (by decide) (by decide)).append
    ((Denotes.sign (c := '/') (by decide) (by decide) (by decide)).append hrest)

theorem denotes_leafTag (hname : Denotes ci n name) :
    Denotes ci ("<".toList ++ (n ++ "[^>]*>".toList) ++
      ("([^<]*)".toList ++ ("</".toList ++ (n ++ ">".toList)))) (leafTag name) :=
  have hmany := Denotes.exceptMany (c := '<') (by decide) (by decide) (by decide)
  have hgroup := hmany.capture (by decide)
  (denotes_openTag hname).append (hgroup.append (denotes_closeTag hname))

end Denote

/-- Takes the first part of a text apart. -/
theorem split_first {p a b n : List Char} (x z : List Char) (h : p = a ++ (b ++ n)) :
    p ++ x ++ z = a ++ (b ++ (n ++ x ++ z)) := by
  simp only [h, List.append_assoc]

/-- Takes the parts of a text before and between two names apart. -/
theorem split_both {p q a b c d n : List Char} (x z : List Char) (hp : p = a ++ n)
    (hq : q = b ++ (c ++ (d ++ n))) :
    p ++ x ++ q ++ x ++ z = a ++ (n ++ x ++ b) ++ (c ++ (d ++ (n ++ x ++ z))) := by
  simp only [hp, hq, List.append_assoc]

section Parse

variable {tag : List Char} (htag : ∀ c ∈ tag, Regex.isLiteral c = true)

include htag

theorem parse_openPattern :
    ∃ r, Regex.parse (openPattern tag) = some r ∧ Same r (openTag (tagName true tag)) := by
  have htext : openPattern tag =
      ['(', '?', 'i', ')'] ++ ("<".toList ++ ("(?:[a-z]+:)?".toList ++ tag ++ "[^>]*>".toList)) :=
    split_first _ _ (by decide)
  rw [htext]
  exact (denotes_openTag (denotes_tagName htag)).parse_flag_eq

theorem parse_closePattern :
    ∃ r, Regex.parse (closePattern tag) = some r ∧ Same r (closeTag (tagName true tag)) := by
  have htext : closePattern tag =
      ['(', '?', 'i', ')'] ++ ("</".toList ++ ("(?:[a-z]+:)?".toList ++ tag ++ ">".toList)) :=
    split_first _ _ (by decide)
  rw [htext]
  exact (denotes_closeTag (denotes_tagName htag)).parse_flag_eq

theorem parse_textPattern :
    ∃ r, Regex.parse (textPattern tag) = some r ∧ Same r (leafTag (tagName false tag)) := by
  have htext : textPattern tag = "<".toList ++ ("(?:[a-z]+:)?".toList ++ tag ++ "[^>]*>".toList) ++
      ("([^<]*)".toList ++ ("</".toList ++ ("(?:[a-z]+:)?".toList ++ tag ++ ">".toList))) :=
    split_both _ _ (by decide) (by decide)
  rw [htext]
  exact (denotes_leafTag (denotes_tagName htag)).parse_eq nofun

end Parse

theorem parse_langPattern :
    ∃ r, Regex.parse langPattern = some r ∧ Same r (leafTag (Regex.text true "Text".toList)) := by
  have hname : Denotes true "Text".toList (Regex.text true "Text".toList) :=
    .word (List.all_eq_true.1 (by decide))
  have htext : langPattern =
      ['(', '?', 'i', ')'] ++ ("<".toList ++ ("Text".toList ++ "[^>]*>".toList) ++
        ("([^<]*)".toList ++ ("</".toList ++ ("Text".toList ++ ">".toList)))) := by
    decide
  rw [htext]
  exact (denotes_leafTag hname).parse_flag_eq

/-! ### The functions with the cache -/

/-- A computation of a thread with its cache. It has no value when it panics. -/
abbrev Cached := StateT (Memo.State (List Char) Regex) Option

namespace Cached

/-- `compile`: a pattern is compiled once and kept, and one that cannot be compiled is tried again.
-/
def compile (pattern : List Char) : Cached (Option Regex) := Memo.get Regex.parse pattern

/-- `compile(..).unwrap()`, which panics for a pattern that cannot be compiled. -/
def compiled (pattern : List Char) : Cached Regex := do
  match ← compile pattern with
  | some re => return re
  | none => fun _ => none

/-- `and_then`, where only a value goes on to look patterns up. -/
def andThen {γ δ : Type} (x : Option γ) (f : γ → Cached (Option δ)) : Cached (Option δ) :=
  match x with
  | some a => f a
  | none => return none

/-- `xml_text` through the cache. A pattern that does not compile counts as one that matches
nowhere, as `.ok()?` has it. -/
def xmlText (xml : List Char) (tag : String) : Cached (Option (List Char)) := do
  andThen (← compile (textPattern tag.toList)) fun re =>
    return (re.find xml).bind fun cap => cap.groups.head?.map trim

/-- `xml_blocks` through the cache, where the start pattern is looked up before the end pattern and
both are unwrapped. -/
def xmlBlocks (xml : List Char) (tag : String) : Cached (List (List Char)) := do
  let openRe ← compiled (openPattern tag.toList)
  let closeRe ← compiled (closePattern tag.toList)
  return (openRe.findIter xml).filterMap fun openMatch =>
    (closeRe.find openMatch.stop).map fun closeMatch => Regex.slice openMatch.start closeMatch.stop

/-- `xml_lang_text` through the cache: the text of the first `Text`, trimmed. -/
def xmlLangText (xml : List Char) : Cached (Option (List Char)) := do
  let re ← compiled langPattern
  return (re.find xml).bind fun cap => cap.groups.head?.map trim

/-- The first block of a tag, for which the source collects all of them and takes the first. -/
def firstBlock (xml : List Char) (tag : String) : Cached (Option (List Char)) := do
  return (← xmlBlocks xml tag).head?

/-- The text of the first block of a tag. The pattern of the text is looked up only if there is a
block. -/
def blockText (xml : List Char) (tag : String) : Cached (Option (List Char)) := do
  andThen (← firstBlock xml tag) xmlLangText

/-- The short name of the mode of a service, looked up inside of `Mode`. -/
def modeText (serviceBlock : List Char) : Cached (Option (List Char)) := do
  andThen (← firstBlock serviceBlock "Mode") fun modeBlock => blockText modeBlock "ShortName"

/-- The key of a journey. The day is looked up only if there is a reference, and is empty if it is
missing. -/
def journeyKey (serviceBlock : List Char) : Cached (Option (List Char)) := do
  andThen (← xmlText serviceBlock "JourneyRef") fun journey => do
    return some ((← xmlText serviceBlock "OperatingDayRef").getD [] ++ '|' :: journey)

/-- The block that the call of this stop is read from: `CallAtStop` inside of `ThisCall`, else
`ThisCall`, else the whole stop event. -/
def callBlock (stopEventBlock : List Char) : Cached (List Char) := do
  let thisCall ← firstBlock stopEventBlock "ThisCall"
  let call ← andThen thisCall fun tc => firstBlock tc "CallAtStop"
  return (call.or thisCall).getD stopEventBlock

/-- The block that the departure times are read from, the whole call where there is no
`ServiceDeparture`. -/
def depBlock (callBlock : List Char) : Cached (List Char) := do
  return (← firstBlock callBlock "ServiceDeparture").getD callBlock

/-- The row of a result, its patterns looked up in the order of the source. -/
def parseResult (isoToMs : List Char → Binary64) (result : List Char) : Cached (Option Event) := do
  andThen (← firstBlock result "StopEvent") fun stopEventBlock => do
  andThen (← firstBlock stopEventBlock "Service") fun serviceBlock => do
    let destination ← blockText serviceBlock "DestinationText"
    let category ← modeText serviceBlock
    let number ← blockText serviceBlock "PublishedServiceName"
    let trainNumber ← xmlText serviceBlock "TrainNumber"
    let operatorRef ← xmlText serviceBlock "OperatorRef"
    let key ← journeyKey serviceBlock
    let call ← callBlock stopEventBlock
    let dep ← depBlock call
    let timetabledTime ← xmlText dep "TimetabledTime"
    let estimatedTime ← xmlText dep "EstimatedTime"
    let plannedQuay ← blockText call "PlannedQuay"
    let estimatedQuay ← blockText call "EstimatedQuay"
    return some (key,
      { destination := destination.getD ['?']
        category := category.getD []
        number := number.getD []
        departure := departureTimestamp isoToMs timetabledTime
        delay := delayMinutes isoToMs estimatedTime timetabledTime
        platform := estimatedQuay.getD (plannedQuay.getD [])
        platformChanged := estimatedQuay.any (· != plannedQuay.getD [])
        trainNumber := trainNumber
        operatorRef := operatorRef })

/-- `parse_stop_events` through the cache: the rows of all results, the latest one for each journey.
-/
def parseStopEvents (isoToMs : List Char → Binary64) (xml : List Char) :
    Cached (List FlatDeparture) := do
  let events ← (← xmlBlocks xml "StopEventResult").mapM (parseResult isoToMs)
  return keepLatestPerJourney (events.filterMap id)

end Cached

/-! ### The patterns that are used -/

/-- The elements whose blocks `parse_stop_events` reads. -/
def blockTags : List String :=
  ["StopEventResult", "StopEvent", "Service", "DestinationText", "Mode", "ShortName",
    "PublishedServiceName", "ThisCall", "CallAtStop", "ServiceDeparture", "PlannedQuay",
    "EstimatedQuay"]

/-- The leaves whose texts `parse_stop_events` reads. -/
def leafTags : List String :=
  ["TrainNumber", "OperatorRef", "JourneyRef", "OperatingDayRef", "TimetabledTime", "EstimatedTime"]

/-- The texts of all patterns that `parse_stop_events` may look up. -/
def patterns : List (List Char) :=
  langPattern :: blockTags.map (fun tag => openPattern tag.toList) ++
    blockTags.map (fun tag => closePattern tag.toList) ++
    leafTags.map fun tag => textPattern tag.toList

theorem isLiteral_tag {tag : String} (htag : tag ∈ blockTags ++ leafTags) :
    ∀ c ∈ tag.toList, Regex.isLiteral c = true := by
  have hall : ((blockTags ++ leafTags).all fun tag => tag.toList.all Regex.isLiteral) = true := by
    decide +kernel
  exact List.all_eq_true.1 (List.all_eq_true.1 hall tag htag)

/-- A computation with the cache gives the value, and builds only patterns of `parse_stop_events`. -/
abbrev Gives {γ : Type} (x : Cached γ) (v : γ) : Prop := Memo.Computes Regex.parse patterns x v

namespace Gives

open Memo (Computes)

variable {γ δ : Type} {xml : List Char} {tag : String}

theorem compiled {pattern : List Char} {re : Regex} (hpattern : pattern ∈ patterns)
    (hre : Regex.parse pattern = some re) : Gives (Cached.compiled pattern) re :=
  (Computes.get hpattern hre).bind (.pure re)

theorem andThen {x : Option γ} {f : γ → Cached (Option δ)} {g : γ → Option δ}
    (h : ∀ a, Gives (f a) (g a)) : Gives (Cached.andThen x f) (x.bind g) := by
  cases x with
  | none => exact .pure none
  | some a => exact h a

theorem xmlText (htag : tag ∈ leafTags) : Gives (Cached.xmlText xml tag) (Ojp.xmlText xml tag) := by
  obtain ⟨re, hparse, hsame⟩ :=
    parse_textPattern (isLiteral_tag (List.mem_append_right blockTags htag))
  have hmem : textPattern tag.toList ∈ patterns :=
    List.mem_append_right _ (List.mem_map_of_mem htag)
  refine (Computes.get hmem hparse).bind ?_
  rw [Ojp.xmlText, ← hsame.find_eq]
  exact .pure _

theorem xmlBlocks (htag : tag ∈ blockTags) :
    Gives (Cached.xmlBlocks xml tag) (Ojp.xmlBlocks xml tag) := by
  have hliteral := isLiteral_tag (List.mem_append_left leafTags htag)
  obtain ⟨openRe, hopen, hsameOpen⟩ := parse_openPattern hliteral
  obtain ⟨closeRe, hclose, hsameClose⟩ := parse_closePattern hliteral
  have hmemOpen : openPattern tag.toList ∈ patterns :=
    List.mem_append_left _ (List.mem_append_left _
      (List.mem_cons_of_mem _ (List.mem_map_of_mem htag)))
  have hmemClose : closePattern tag.toList ∈ patterns :=
    List.mem_append_left _ (List.mem_append_right _ (List.mem_map_of_mem htag))
  refine (compiled hmemOpen hopen).bind ((compiled hmemClose hclose).bind ?_)
  simp only [Ojp.xmlBlocks, ← hsameOpen.findIter_eq, ← hsameClose.find_eq]
  exact .pure _

theorem xmlLangText : Gives (Cached.xmlLangText xml) (Ojp.xmlLangText xml) := by
  obtain ⟨re, hparse, hsame⟩ := parse_langPattern
  refine (compiled List.mem_cons_self hparse).bind ?_
  rw [Ojp.xmlLangText, ← hsame.find_eq]
  exact .pure _

theorem firstBlock (htag : tag ∈ blockTags) :
    Gives (Cached.firstBlock xml tag) (Ojp.firstBlock xml tag) :=
  (xmlBlocks htag).map List.head?

theorem blockText (htag : tag ∈ blockTags) :
    Gives (Cached.blockText xml tag) (Ojp.blockText xml tag) :=
  (firstBlock htag).bind (andThen fun _ => xmlLangText)

theorem modeText : Gives (Cached.modeText xml) (Ojp.modeText xml) :=
  (firstBlock (by decide)).bind (andThen fun _ => blockText (by decide))

theorem journeyKey : Gives (Cached.journeyKey xml) (Ojp.journeyKey xml) := by
  rw [Ojp.journeyKey, Option.map_eq_bind]
  exact (xmlText (by decide)).bind (andThen fun journey => (xmlText (by decide)).map _)

theorem callBlock : Gives (Cached.callBlock xml) (Ojp.callBlock xml) :=
  (firstBlock (by decide)).bind
    ((andThen fun _ => firstBlock (by decide)).map _)

theorem depBlock : Gives (Cached.depBlock xml) (Ojp.depBlock xml) :=
  (firstBlock (by decide)).map _

theorem parseResult (isoToMs : List Char → Binary64) (result : List Char) :
    Gives (Cached.parseResult isoToMs result) (Ojp.parseResult isoToMs result) := by
  refine (firstBlock (by decide)).bind (andThen fun stopEventBlock => ?_)
  refine (firstBlock (by decide)).bind (andThen fun serviceBlock => ?_)
  refine (blockText (by decide)).bind (modeText.bind ((blockText (by decide)).bind ?_))
  refine (xmlText (by decide)).bind ((xmlText (by decide)).bind (journeyKey.bind ?_))
  refine callBlock.bind (depBlock.bind ((xmlText (by decide)).bind ((xmlText (by decide)).bind ?_)))
  exact (blockText (by decide)).bind ((blockText (by decide)).bind (.pure _))

theorem parseStopEvents (isoToMs : List Char → Binary64) (xml : List Char) :
    Gives (Cached.parseStopEvents isoToMs xml) (Ojp.parseStopEvents xml isoToMs) := by
  have hevents : (Ojp.xmlBlocks xml "StopEventResult").filterMap (Ojp.parseResult isoToMs) =
      ((Ojp.xmlBlocks xml "StopEventResult").map (Ojp.parseResult isoToMs)).filterMap id := by
    rw [List.filterMap_map]
    rfl
  rw [Ojp.parseStopEvents, hevents]
  exact (xmlBlocks (by decide)).bind
    ((Computes.mapM fun result _ => parseResult isoToMs result).bind (.pure _))

end Gives

/-- The responses that a thread parses one after the other give the rows that they give without the
cache, and no pattern panics. Each of the 31 patterns is compiled at most once, and those that these
responses need are not compiled again. -/
theorem parseStopEvents_memoised (isoToMs : List Char → Binary64) (responses : List (List Char)) :
    ∃ st, (responses.mapM (Cached.parseStopEvents isoToMs)) Memo.State.empty =
        some (responses.map (parseStopEvents · isoToMs), st) ∧
      st.built.Nodup ∧ st.built ⊆ patterns ∧ st.built.length ≤ 31 ∧
      ∃ st', (responses.mapM (Cached.parseStopEvents isoToMs)) st =
          some (responses.map (parseStopEvents · isoToMs), st') ∧
        st'.built = st.built := by
  have h : Gives (responses.mapM (Cached.parseStopEvents isoToMs)) _ :=
    Memo.Computes.mapM fun xml _ => Gives.parseStopEvents isoToMs xml
  obtain ⟨st, hrun, hnodup, hsub, hagain⟩ := h.run
  exact ⟨st, hrun, hnodup, hsub, (hnodup.subperm hsub).length_le, hagain⟩

end Traintime.Ojp
