import Traintime.Lib.Xml.Document

/-!
# Every document that is read has parts

What the reader accepts is made of parts, and the tags that it reports are those of the parts. After
any characters, what has been read is the content before the innermost element that is open, the
tags that opened this element and the ones around it, and the beginning of a part.

## Main definitions

* `Xml.tagsList`: the tags of a document, as they are reported.
* `Xml.Partial`: the beginning of a part that the reader is in.
* `Xml.Reads`: what has been read when the reader is in a state.

## Main results

* `Xml.Reads.step`: one more character.
* `Xml.exists_parts_of_read`: a document that is read has parts.
-/

namespace Xml

/-! ### Tags -/

/-- A tag that is reported, without its attributes. -/
def Event.bare : Event → Option Event
  | .startTag name _ => some (.startTag name [])
  | .emptyTag name _ => some (.emptyTag name [])
  | .endTag name => some (.endTag name)
  | .char _ => none

mutual

/-- The tags of a part, without their attributes. -/
def Part.tags : Part → List Event
  | .element name _ content _ => .startTag name.val [] :: (tagsList content ++ [.endTag name.val])
  | .empty name _ => [.emptyTag name.val []]
  | .chars _ => []
  | .aside _ => []

/-- The tags of some parts one after the other. -/
def tagsList : List Part → List Event
  | [] => []
  | p :: ps => p.tags ++ tagsList ps

end

theorem textList_append (ps qs : List Part) : textList (ps ++ qs) = textList ps ++ textList qs := by
  induction ps with
  | nil => rfl
  | cons p ps ih => rw [List.cons_append, textList, textList, ih, List.append_assoc]

theorem tagsList_append (ps qs : List Part) : tagsList (ps ++ qs) = tagsList ps ++ tagsList qs := by
  induction ps with
  | nil => rfl
  | cons p ps ih => rw [List.cons_append, tagsList, tagsList, ih, List.append_assoc]

theorem filterMap_bare_map_char (cs : List Char) :
    (cs.map Event.char).filterMap Event.bare = [] := by
  induction cs with
  | nil => rfl
  | cons c cs ih => exact ih

/-! ### Open elements -/

/-- An element that is open, and the content before it. -/
structure Frame where
  before : List Part
  name : TagName
  inside : Inside

/-- What has been read up to the start tag of the innermost element. -/
def framesText : List Frame → List Char
  | [] => []
  | f :: fs => framesText fs ++ (textList f.before ++ startTag f.name f.inside)

/-- The tags up to the start tag of the innermost element that is open, that one included. -/
def framesTags : List Frame → List Event
  | [] => []
  | f :: fs => framesTags fs ++ (tagsList f.before ++ [.startTag f.name.val []])

/-! ### The beginning of a part -/

/-- What stands after the name in a tag, up to a place in quotes or not. -/
structure LeadsTo (v : List Char) (quote : Option Char) : Prop where
  valid : ∀ w, validInside none (v ++ w) = validInside quote w
  space : ∀ c ∈ v.head?, isSpace c = true

/-- The beginning of a tag with something after the name. -/
def InTag (name : Name) (quote : Option Char) (l : List Char) : Prop :=
  ∃ (n : TagName) (v : List Char), n.val = name ∧ v ≠ [] ∧ LeadsTo v quote ∧ l = '<' :: (name ++ v)

/-- The beginning of a part that the reader is in. Every character of text is a part of its own. -/
def Partial : Mode → List Char → Prop
  | .start, l | .text _, l | .ref _, l => l = []
  | .lt _, l => l = ['<']
  | .bang acc, l => l = '<' :: '!' :: acc
  | .comment d, l => d ≤ 2 ∧ ∃ v, l = AsideKind.comment.start ++ (v ++ List.replicate d '-') ∧
      ¬ ['-', '-'] <:+: v ++ ['-']
  | .cdata k, l => ∃ v, l = AsideKind.cdata.start ++ (v ++ List.replicate k ']') ∧
      v.getLast? ≠ some ']' ∧ ¬ [']', ']', '>'] <:+: v ++ List.replicate k ']'
  | .piTarget _ acc, l => l = '<' :: '?' :: acc ∧ ∀ c ∈ acc, isNameChar c = true
  | .piBody question, l => ∃ v, l = '<' :: '?' :: v ∧ ¬ ['?', '>'] <:+: v ∧
      (v.getLast? = some '?' ↔ question = true)
  | .openName acc, l => validName acc = true ∧ l = '<' :: acc
  | .inTag name _ _, l | .attrName name _ _, l | .attrEq name _ _, l | .attrOpen name _ _, l =>
    InTag name none l
  | .attrValue name _ _ quote _, l | .attrRef name _ _ quote _ _, l =>
    (quote = '"' ∨ quote = '\'') ∧ InTag name (some quote) l
  | .slash name _, l => ∃ (n : TagName) (v : List Char), n.val = name ∧ LeadsTo v none ∧
      l = '<' :: (name ++ (v ++ ['/']))
  | .closeName acc, l => l = '<' :: '/' :: acc
  | .closeSpace name, l => ∃ space : Space, l = '<' :: '/' :: (name ++ space.val)

/-- What has been read when the reader is in a state. -/
def Reads (l : List Char) (s : State) : Prop :=
  ∃ frames ps beginning, l = framesText frames ++ (textList ps ++ beginning) ∧
    frames.map (·.name.val) = s.stack ∧
    framesTags frames ++ tagsList ps = s.events.filterMap Event.bare ∧ Partial s.mode beginning

/-! ### What a step can do -/

section Steps

variable {s s' : State} {l : List Char} {r c : Char} {name : Name} {attrs : Attrs}

/-- A part goes on. -/
theorem Reads.move (h : Reads l s) (hstack : s'.stack = s.stack)
    (hevents : s'.events.filterMap Event.bare = s.events.filterMap Event.bare)
    (hbegun : ∀ b, Partial s.mode b → Partial s'.mode (b ++ [r])) : Reads (l ++ [r]) s' := by
  obtain ⟨frames, ps, b, rfl, hframes, htags, hb⟩ := h
  refine ⟨frames, ps, b ++ [r], ?_, ?_, ?_, hbegun b hb⟩
  · simp only [List.append_assoc]
  · rw [hframes, hstack]
  · rw [htags, hevents]

/-- A part ends. -/
theorem Reads.finish (h : Reads l s) (hstack : s'.stack = s.stack) (hmode : Partial s'.mode [])
    (hpart : ∀ b, Partial s.mode b → ∃ part : Part, part.text = b ++ [r] ∧
      s'.events.filterMap Event.bare = s.events.filterMap Event.bare ++ part.tags) :
    Reads (l ++ [r]) s' := by
  obtain ⟨frames, ps, b, rfl, hframes, htags, hb⟩ := h
  obtain ⟨part, htext, hevents⟩ := hpart b hb
  refine ⟨frames, ps ++ [part], [], ?_, ?_, ?_, hmode⟩
  · simp [textList_append, textList, htext]
  · rw [hframes, hstack]
  · rw [hevents, ← htags, tagsList_append, tagsList, tagsList, List.append_nil, List.append_assoc]

/-- A start tag ends. -/
theorem Reads.openElement (h : Reads l s) (hs' : s.openElement name attrs = some s')
    (hpart : ∀ b, Partial s.mode b → ∃ (n : TagName) (inside : Inside), n.val = name ∧
      b ++ [r] = startTag n inside) : Reads (l ++ [r]) s' := by
  obtain ⟨frames, ps, b, rfl, hframes, htags, hb⟩ := h
  obtain ⟨n, inside, rfl, htext⟩ := hpart b hb
  rw [State.openElement] at hs'
  split_ifs at hs'
  obtain rfl := Option.some.inj hs'
  refine ⟨⟨ps, n, inside⟩ :: frames, [], [], ?_, ?_, ?_, rfl⟩
  · simp [framesText, textList, ← htext]
  · rw [List.map_cons, hframes]
  · simp [framesTags, tagsList, ← htags, Event.bare]

/-- An end tag ends. -/
theorem Reads.closeElement (h : Reads l s) (hs' : s.closeElement name = some s')
    (hpart : ∀ b, Partial s.mode b → ∃ space : Space,
      b ++ [r] = '<' :: '/' :: (name ++ (space.val ++ ['>']))) : Reads (l ++ [r]) s' := by
  obtain ⟨frames, ps, b, rfl, hframes, htags, hb⟩ := h
  obtain ⟨space, htext⟩ := hpart b hb
  rw [State.closeElement] at hs'
  cases frames with
  | nil =>
    rw [← hframes] at hs'
    cases hs'
  | cons f frames =>
    rw [← hframes, List.map_cons] at hs'
    simp only at hs'
    split_ifs at hs' with hname
    obtain rfl := Option.some.inj hs'
    subst hname
    refine ⟨frames, f.before ++ [.element f.name f.inside ps space], [], ?_, rfl, ?_, rfl⟩
    · simp [framesText, textList_append, textList, Part.text, endTag, htext]
    · simp only [List.filterMap_append, ← htags, framesTags, tagsList_append, tagsList, Part.tags,
        List.append_assoc, List.append_nil, List.cons_append, List.nil_append]
      rfl

/-- A character of text. -/
theorem Reads.chars (h : Reads l s) (hmode : ∀ b, Partial s.mode b → b = []) (hr : r ≠ '<')
    (hstack : s'.stack = s.stack)
    (hevents : s'.events.filterMap Event.bare = s.events.filterMap Event.bare)
    (hmode' : Partial s'.mode []) : Reads (l ++ [r]) s' := by
  refine h.finish hstack hmode' fun b hb => ⟨.chars ⟨[r], ?_⟩, ?_, ?_⟩
  · simpa using hr.symm
  · rw [hmode b hb]
    rfl
  · rw [hevents, Part.tags, List.append_nil]

/-- An empty-element tag ends. -/
theorem Reads.emptyElement (h : Reads l s) (hs' : s.emptyElement name attrs = some s')
    (hpart : ∀ b, Partial s.mode b → ∃ (n : TagName) (inside : Inside), n.val = name ∧
      b ++ [r] = emptyTag n inside) : Reads (l ++ [r]) s' := by
  rw [State.emptyElement] at hs'
  split_ifs at hs'
  obtain rfl := Option.some.inj hs'
  refine h.finish rfl rfl fun b hb => ?_
  obtain ⟨n, inside, rfl, htext⟩ := hpart b hb
  refine ⟨.empty n inside, htext.symm, ?_⟩
  simp [Part.tags, Event.bare]

end Steps

/-! ### Characters -/

/-- A character and what the reader takes it for, with the line ends normalised. -/
def Normalised (r c : Char) : Prop := r = c ∨ r = '\r' ∧ c = '\n'

section Characters

variable {r c d : Char} {l v w : List Char} {name : Name} {quote quote' : Option Char}

theorem Normalised.eq (h : Normalised r c) (hc : c ≠ '\n') : r = c :=
  h.resolve_right fun h => hc h.2

theorem Normalised.isSpace (h : Normalised r c) (hc : isSpace c = true) : isSpace r = true := by
  rcases h with rfl | ⟨rfl, -⟩
  · exact hc
  · rfl

theorem Normalised.ne (h : Normalised r c) (hc : c ≠ d) (hd : d ≠ '\r') : r ≠ d := by
  rcases h with rfl | ⟨rfl, -⟩
  · exact hc
  · exact hd.symm

theorem Normalised.eq_of_isNameChar (h : Normalised r c) (hc : isNameChar c = true) : r = c :=
  h.eq (ne_of_isNameChar hc (by decide))

theorem Normalised.eq_of_isNameStart (h : Normalised r c) (hc : isNameStart c = true) : r = c :=
  h.eq (ne_of_isNameStart hc (by decide))

/-- Some characters are in what has one character more only if they end with it. -/
theorem not_infix_concat (w : List Char) (d : Char) (h : ¬ w ++ [d] <:+: l)
    (hlast : d = c → ¬ w <:+ l) : ¬ w ++ [d] <:+: l ++ [c] := by
  rw [List.infix_concat_iff, not_or]
  refine ⟨fun hsuffix => ?_, h⟩
  rcases List.suffix_concat_iff.1 hsuffix with hnil | ⟨t, ht, hl⟩
  · simp at hnil
  · obtain ⟨rfl, hd⟩ := List.append_inj' ht rfl
    exact hlast (List.cons.inj hd).1 hl

theorem LeadsTo.concat (h : LeadsTo v quote)
    (hstep : ∀ w, validInside quote (r :: w) = validInside quote' w)
    (hspace : v = [] → isSpace r = true) : LeadsTo (v ++ [r]) quote' where
  valid w := by
    rw [List.append_assoc, List.singleton_append, h.valid, hstep]
  space c hc := by
    cases v with
    | nil =>
      obtain rfl := Option.some.inj hc
      exact hspace rfl
    | cons d v => exact h.space c hc

theorem InTag.concat (h : InTag name quote l)
    (hstep : ∀ w, validInside quote (r :: w) = validInside quote' w) :
    InTag name quote' (l ++ [r]) := by
  obtain ⟨n, v, hn, hv, hlead, rfl⟩ := h
  exact ⟨n, v ++ [r], hn, by simp, hlead.concat hstep fun h => absurd h hv, by simp⟩

/-- Outside of quotes. -/
theorem validInside_none (hquote : ¬ (r = '"' ∨ r = '\'')) (hr : r ≠ '<' ∧ r ≠ '>' ∧ r ≠ '/') :
    validInside none (r :: w) = validInside none w := by
  rw [validInside, if_neg hquote]
  simp [hr]

/-- In quotes. -/
theorem validInside_some {q : Char} (hq : r ≠ q) (hr : r ≠ '<') :
    validInside (some q) (r :: w) = validInside (some q) w := by
  rw [validInside, if_neg hq]
  simp [hr]

theorem leadsTo_nil : LeadsTo [] none := ⟨fun _ => rfl, by simp⟩

/-- What may stand in a tag outside of quotes. -/
theorem validInside_plain (hr : (isNameChar r || isSpace r || r == '=') = true) :
    validInside none (r :: w) = validInside none w := by
  have hne : ∀ d, (isNameChar d || isSpace d || d == '=') = false → r ≠ d := by
    rintro d hd rfl
    rw [hr] at hd
    cases hd
  refine validInside_none (not_or.2 ⟨hne _ ?_, hne _ ?_⟩) ⟨hne _ ?_, hne _ ?_, hne _ ?_⟩
  all_goals decide

/-- A name goes on, or begins. -/
theorem isNameChar_of_ite {acc : List Char}
    (h : (if acc = [] then isNameStart c else isNameChar c) = true) : isNameChar c = true := by
  split_ifs at h
  · rw [isNameChar, h]
    rfl
  · exact h

/-- The inside of a tag, without open quotes. -/
def LeadsTo.inside (h : LeadsTo v none) : Inside :=
  ⟨v, by rw [← List.append_nil v, h.valid]; rfl, h.space⟩

theorem validName_concat (h : validName l = true) (hc : isNameChar c = true)
    (hx : isXmlChar c = true) : validName (l ++ [c]) = true := by
  cases l with
  | nil => cases h
  | cons d l => simp_all [validName]

/-- A tag goes on outside of quotes. -/
theorem Reads.plain {s s' : State} (h : Reads l s) (hmode : Partial s.mode = InTag name none)
    (hmode' : Partial s'.mode = InTag name none) (hstack : s'.stack = s.stack)
    (hevents : s'.events = s.events) (hr : (isNameChar r || isSpace r || r == '=') = true) :
    Reads (l ++ [r]) s' := by
  refine h.move hstack (congrArg _ hevents) fun b hb => ?_
  rw [hmode] at hb
  rw [hmode']
  exact hb.concat fun w => validInside_plain hr

end Characters

/-! ### Content -/

section Content

variable {s s' : State} {l : List Char} {r c : Char}

theorem Reads.stepText {k : ℕ} (h : Reads l s) (hmode : ∀ b, Partial s.mode b → b = [])
    (hnorm : Normalised r c) (hs' : stepText s k c = some s') : Reads (l ++ [r]) s' := by
  rw [Xml.stepText] at hs'
  by_cases hc : c = '<'
  · rw [if_pos hc] at hs'
    obtain rfl := Option.some.inj hs'
    refine h.move rfl rfl fun b hb => ?_
    rw [hmode b hb, hnorm.eq (hc ▸ by decide), hc]
    rfl
  · have hr : r ≠ '<' := hnorm.ne hc (by decide)
    rw [if_neg hc] at hs'
    have hchar : (s.events ++ [Event.char c]).filterMap Event.bare =
        s.events.filterMap Event.bare := by
      rw [List.filterMap_append]
      exact List.append_nil _
    split_ifs at hs'
    · obtain rfl := Option.some.inj hs'
      exact h.chars hmode hr rfl rfl rfl
    · obtain rfl := Option.some.inj hs'
      exact h.chars hmode hr rfl rfl rfl
    · obtain rfl := Option.some.inj hs'
      exact h.chars hmode hr rfl hchar rfl
    · obtain rfl := Option.some.inj hs'
      exact h.chars hmode hr rfl hchar rfl

variable (h : Reads l s) (hnorm : Normalised r c) (hs' : stepMode s c = some s')

include h hnorm hs'

theorem Reads.step_start (hm : s.mode = .start) : Reads (l ++ [r]) s' := by
  have hmode : ∀ b, Partial s.mode b → b = [] := fun b hb => by
    rw [hm] at hb
    exact hb
  simp only [stepMode, hm] at hs'
  split_ifs at hs' with hc
  · obtain rfl := Option.some.inj hs'
    refine h.move rfl rfl fun b hb => ?_
    rw [hmode b hb, hnorm.eq (hc ▸ by decide), hc]
    rfl
  · exact h.stepText hmode hnorm hs'

theorem Reads.step_text {k : ℕ} (hm : s.mode = .text k) : Reads (l ++ [r]) s' := by
  simp only [stepMode, hm] at hs'
  refine h.stepText (fun b hb => ?_) hnorm hs'
  rw [hm] at hb
  exact hb

theorem Reads.step_ref {acc : List Char} (hm : s.mode = .ref acc) : Reads (l ++ [r]) s' := by
  have hmode : ∀ b, Partial s.mode b → b = [] := fun b hb => by
    rw [hm] at hb
    exact hb
  simp only [stepMode, hm] at hs'
  split_ifs at hs' with hc hname
  · obtain ⟨d, -, rfl⟩ := Option.map_eq_some_iff.1 hs'
    refine h.chars hmode (hnorm.ne (hc ▸ by decide) (by decide)) rfl ?_ rfl
    exact (List.filterMap_append ..).trans (List.append_nil _)
  · obtain rfl := Option.some.inj hs'
    refine h.chars hmode (hnorm.ne ?_ (by decide)) rfl rfl rfl
    rintro rfl
    exact absurd hname (by decide)

theorem Reads.step_lt {first : Bool} (hx : isXmlChar c = true) (hm : s.mode = .lt first) :
    Reads (l ++ [r]) s' := by
  have hmove : ∀ m : Mode, Partial m ['<', r] → s.goto m = s' → Reads (l ++ [r]) s' := by
    rintro m hbegun rfl
    refine h.move rfl rfl fun b hb => ?_
    rw [hm] at hb
    obtain rfl : b = ['<'] := hb
    exact hbegun
  simp only [stepMode, hm] at hs'
  split_ifs at hs' with hname hslash hbang hquestion
  · refine hmove _ ?_ (Option.some.inj hs')
    rw [hnorm.eq_of_isNameStart hname]
    refine ⟨?_, rfl⟩
    rw [validName, hname, hx]
    rfl
  · refine hmove _ ?_ (Option.some.inj hs')
    rw [hnorm.eq (hslash ▸ by decide), hslash]
    rfl
  · refine hmove _ ?_ (Option.some.inj hs')
    rw [hnorm.eq (hbang ▸ by decide), hbang]
    rfl
  · refine hmove _ ?_ (Option.some.inj hs')
    rw [hnorm.eq (hquestion ▸ by decide), hquestion]
    exact ⟨rfl, fun c hc => absurd hc List.not_mem_nil⟩

/-! ### What is not for the content -/

omit h hnorm hs' in
/-- What may stand after `<!`. -/
theorem mem_of_stepBang {acc : List Char} (hs' : stepBang s acc = some s') :
    ∀ d ∈ acc, d ∈ ['-', '[', 'C', 'D', 'A', 'T'] := by
  intro d hd
  rw [stepBang] at hs'
  split_ifs at hs' with hdash hcdata hstack hbegins
  · rw [hdash] at hd
    exact List.mem_of_mem_head? (by simp_all)
  · rw [hcdata] at hd
    exact (by decide : "[CDATA[".toList ⊆ ['-', '[', 'C', 'D', 'A', 'T']) hd
  · rcases Bool.or_eq_true_iff.1 hbegins with hpre | hpre
    · exact (by decide : ['-', '-'] ⊆ ['-', '[', 'C', 'D', 'A', 'T'])
        ((List.isPrefixOf_iff_prefix.1 hpre).subset hd)
    · exact (by decide : "[CDATA[".toList ⊆ ['-', '[', 'C', 'D', 'A', 'T'])
        ((List.isPrefixOf_iff_prefix.1 hpre).subset hd)

theorem Reads.step_bang {acc : List Char} (hm : s.mode = .bang acc) : Reads (l ++ [r]) s' := by
  have hmove : ∀ m : Mode, Partial m ('<' :: '!' :: (acc ++ [r])) → s.goto m = s' →
      Reads (l ++ [r]) s' := by
    rintro m hbegun rfl
    refine h.move rfl rfl fun b hb => ?_
    rw [hm] at hb
    obtain rfl : b = '<' :: '!' :: acc := hb
    exact hbegun
  simp only [stepMode, hm] at hs'
  have hr : r = c := by
    refine hnorm.eq ?_
    rintro rfl
    exact absurd (mem_of_stepBang hs' _ (List.mem_append_right acc List.mem_cons_self)) (by decide)
  rw [stepBang] at hs'
  split_ifs at hs' with hdash hcdata hstack hbegins
  · refine hmove _ ?_ (Option.some.inj hs')
    rw [hr, hdash]
    exact ⟨Nat.zero_le 2, [], rfl, by decide⟩
  · refine hmove _ ?_ (Option.some.inj hs')
    rw [hr, hcdata]
    exact ⟨[], rfl, by decide, by decide⟩
  · refine hmove _ ?_ (Option.some.inj hs')
    rw [hr]
    rfl

theorem Reads.step_comment {d : ℕ} (hm : s.mode = .comment d) : Reads (l ++ [r]) s' := by
  simp only [stepMode, hm] at hs'
  split_ifs at hs' with hd hstop hdash
  · obtain rfl := Option.some.inj hs'
    refine h.finish rfl rfl fun b hb => ?_
    rw [hm] at hb
    obtain ⟨-, v, rfl, hv⟩ := hb
    refine ⟨.aside ⟨.comment, v, hv⟩, ?_, (List.append_nil _).symm⟩
    rw [hnorm.eq (hstop ▸ by decide), hstop, hd]
    simp [Part.text, Aside.text, AsideKind.start, AsideKind.stop]
  · obtain rfl := Option.some.inj hs'
    refine h.move rfl rfl fun b hb => ?_
    rw [hm] at hb
    obtain ⟨hle, v, rfl, hv⟩ := hb
    refine ⟨by omega, v, ?_, hv⟩
    rw [hnorm.eq (hdash ▸ by decide), hdash, List.replicate_succ']
    simp
  · obtain rfl := Option.some.inj hs'
    refine h.move rfl rfl fun b hb => ?_
    rw [hm] at hb
    obtain ⟨hle, v, rfl, hv⟩ := hb
    refine ⟨Nat.zero_le 2, v ++ List.replicate d '-' ++ [r], by simp, ?_⟩
    have hr : r ≠ '-' := hnorm.ne hdash (by decide)
    have hbefore : ¬ ['-', '-'] <:+: v ++ List.replicate d '-' := by
      intro hfound
      obtain rfl | rfl : d = 0 ∨ d = 1 := by omega
      · refine hv (hfound.trans ?_)
        rw [List.replicate_zero, List.append_nil]
        exact (List.prefix_append v _).isInfix
      · exact hv hfound
    have hlast := not_infix_concat ['-'] '-' hbefore fun heq => absurd heq.symm hr
    refine not_infix_concat ['-'] '-' hlast fun _ hsuffix => ?_
    obtain ⟨t, ht⟩ := hsuffix
    exact hr (List.cons.inj (List.append_inj' ht rfl).2).1.symm

theorem Reads.step_cdata {k : ℕ} (hm : s.mode = .cdata k) : Reads (l ++ [r]) s' := by
  have hchars : ∀ cs : List Char, (s.events ++ cs.map Event.char).filterMap Event.bare =
      s.events.filterMap Event.bare := fun cs => by
    rw [List.filterMap_append, filterMap_bare_map_char, List.append_nil]
  simp only [stepMode, hm] at hs'
  split_ifs at hs' with hbracket hstop
  · obtain rfl := Option.some.inj hs'
    refine h.move rfl rfl fun b hb => ?_
    rw [hm] at hb
    obtain ⟨v, rfl, hlast, hv⟩ := hb
    rw [hnorm.eq (hbracket ▸ by decide), hbracket]
    refine ⟨v, by simp [List.replicate_succ'], hlast, ?_⟩
    rw [List.replicate_succ', ← List.append_assoc]
    exact not_infix_concat [']', ']'] '>' hv fun heq => absurd heq (by decide)
  · obtain rfl := Option.some.inj hs'
    refine h.finish rfl rfl fun b hb => ?_
    rw [hm] at hb
    obtain ⟨v, rfl, -, hv⟩ := hb
    obtain ⟨rfl, hk⟩ := hstop
    obtain ⟨k, rfl⟩ := Nat.exists_eq_add_of_le' hk
    refine ⟨.aside ⟨.cdata, v ++ List.replicate k ']', ?_⟩, ?_, ?_⟩
    · refine fun hfound => hv (hfound.trans ?_)
      rw [List.replicate_add, ← List.append_assoc]
      exact (List.prefix_append _ _).isInfix
    · rw [hnorm.eq (by decide)]
      simp [Part.text, Aside.text, AsideKind.start, AsideKind.stop, List.replicate_add]
    · rw [Part.tags, List.append_nil]
      exact hchars _
  · obtain rfl := Option.some.inj hs'
    refine h.move rfl (hchars _) fun b hb => ?_
    rw [hm] at hb
    obtain ⟨v, rfl, hlast, hv⟩ := hb
    have hr : r ≠ ']' := hnorm.ne hbracket (by decide)
    refine ⟨v ++ List.replicate k ']' ++ [r], by simp, by simpa using hr, ?_⟩
    rw [List.replicate_zero, List.append_nil]
    refine not_infix_concat [']', ']'] '>' hv ?_
    rintro rfl ⟨t, ht⟩
    have hk : k < 2 := by
      refine Nat.lt_of_not_le fun hk => hstop ⟨?_, hk⟩
      exact (hnorm.resolve_right fun h => absurd h.1 (by decide)).symm
    refine hlast ?_
    obtain rfl | rfl : k = 0 ∨ k = 1 := by omega
    · rw [List.replicate_zero, List.append_nil] at ht
      simp [← ht]
    · have hcancel : t ++ [']'] ++ [']'] = v ++ [']'] := by simpa using ht
      simp [← List.append_cancel_right hcancel]

theorem Reads.step_piTarget {first : Bool} {acc : List Char} (hm : s.mode = .piTarget first acc) :
    Reads (l ++ [r]) s' := by
  have hclose : (∀ c ∈ acc, isNameChar c = true) → r ≠ '>' → ¬ ['?', '>'] <:+: acc ++ [r] := by
    intro hacc hr hfound
    have hmem : '>' ∈ acc ++ [r] := hfound.subset (List.mem_cons_of_mem _ List.mem_cons_self)
    rcases List.mem_append.1 hmem with hmem | hmem
    · exact absurd (hacc _ hmem) (by decide)
    · exact hr (List.mem_singleton.1 hmem).symm
  have hmove : ∀ m : Mode, ((∀ c ∈ acc, isNameChar c = true) →
      Partial m ('<' :: '?' :: (acc ++ [r]))) → s.goto m = s' → Reads (l ++ [r]) s' := by
    rintro m hbegun rfl
    refine h.move rfl rfl fun b hb => ?_
    rw [hm] at hb
    obtain ⟨rfl, hacc⟩ := hb
    exact hbegun hacc
  simp only [stepMode, hm] at hs'
  by_cases hname : (if acc = [] then isNameStart c else isNameChar c) = true
  · rw [if_pos hname] at hs'
    have hchar := isNameChar_of_ite hname
    refine hmove _ (fun hacc => ?_) (Option.some.inj hs')
    rw [hnorm.eq_of_isNameChar hchar]
    refine ⟨rfl, fun d hd => ?_⟩
    rcases List.mem_append.1 hd with hd | hd
    · exact hacc d hd
    · exact List.mem_singleton.1 hd ▸ hchar
  · rw [if_neg hname] at hs'
    split_ifs at hs' with hnil hspace hquestion
    · refine hmove _ (fun hacc => ?_) (Option.some.inj hs')
      have hr := hnorm.isSpace hspace
      have hne : ∀ d, isSpace d = false → r ≠ d := by
        rintro d hd rfl
        rw [hr] at hd
        cases hd
      refine ⟨acc ++ [r], rfl, hclose hacc (hne _ (by decide)), ?_⟩
      simp [hne '?' (by decide)]
    · refine hmove _ (fun hacc => ?_) (Option.some.inj hs')
      have hr := hnorm.eq (hquestion ▸ by decide)
      refine ⟨acc ++ [r], rfl, hclose hacc ?_, ?_⟩
      · rw [hr, hquestion]
        decide
      · simp [hr, hquestion]

theorem Reads.step_piBody {question : Bool} (hm : s.mode = .piBody question) :
    Reads (l ++ [r]) s' := by
  simp only [stepMode, hm] at hs'
  split_ifs at hs' with hstop
  · obtain rfl := Option.some.inj hs'
    refine h.finish rfl rfl fun b hb => ?_
    rw [hm] at hb
    obtain ⟨v, rfl, hv, hlast⟩ := hb
    obtain ⟨v, rfl⟩ := List.getLast?_eq_some_iff.1 (hlast.2 hstop.1)
    refine ⟨.aside ⟨.instruction, v, ?_⟩, ?_, (List.append_nil _).symm⟩
    · exact fun hfound => hv (hfound.trans (List.prefix_append _ _).isInfix)
    · rw [hnorm.eq (hstop.2 ▸ by decide), hstop.2]
      simp [Part.text, Aside.text, AsideKind.start, AsideKind.stop]
  · obtain rfl := Option.some.inj hs'
    refine h.move rfl rfl fun b hb => ?_
    rw [hm] at hb
    obtain ⟨v, rfl, hv, hlast⟩ := hb
    refine ⟨v ++ [r], rfl, not_infix_concat ['?'] '>' hv ?_, ?_⟩
    · rintro rfl ⟨t, rfl⟩
      have hc := hnorm.resolve_right fun h => absurd h.1 (by decide)
      exact hstop ⟨hlast.1 (by simp), hc.symm⟩
    · rw [List.getLast?_concat, Option.some.injEq, beq_iff_eq]
      constructor
      · rintro rfl
        exact (hnorm.resolve_right fun h => absurd h.1 (by decide)).symm
      · rintro rfl
        exact hnorm.eq (by decide)

/-! ### Tags -/

theorem Reads.step_openName {acc : Name} (hx : isXmlChar c = true) (hm : s.mode = .openName acc) :
    Reads (l ++ [r]) s' := by
  have hname : ∀ b, Partial s.mode b → ∃ n : TagName, n.val = acc ∧ b = '<' :: acc := fun b hb => by
    rw [hm] at hb
    exact ⟨⟨acc, hb.1⟩, rfl, hb.2⟩
  simp only [stepMode, hm] at hs'
  split_ifs at hs' with hchar hspace hstop hslash
  · obtain rfl := Option.some.inj hs'
    refine h.move rfl rfl fun b hb => ?_
    obtain ⟨n, rfl, rfl⟩ := hname b hb
    rw [hnorm.eq_of_isNameChar hchar]
    exact ⟨validName_concat n.valid hchar hx, rfl⟩
  · obtain rfl := Option.some.inj hs'
    refine h.move rfl rfl fun b hb => ?_
    obtain ⟨n, rfl, rfl⟩ := hname b hb
    have hr := hnorm.isSpace hspace
    have hlead : LeadsTo ([] ++ [r]) none :=
      leadsTo_nil.concat (fun w => validInside_plain (by simp [hr])) fun _ => hr
    exact ⟨n, [r], rfl, by simp, hlead, rfl⟩
  · refine h.openElement hs' fun b hb => ?_
    obtain ⟨n, rfl, rfl⟩ := hname b hb
    refine ⟨n, leadsTo_nil.inside, rfl, ?_⟩
    rw [hnorm.eq (hstop ▸ by decide), hstop]
    rfl
  · obtain rfl := Option.some.inj hs'
    refine h.move rfl rfl fun b hb => ?_
    obtain ⟨n, rfl, rfl⟩ := hname b hb
    rw [hnorm.eq (hslash ▸ by decide), hslash]
    exact ⟨n, [], rfl, leadsTo_nil, rfl⟩

theorem Reads.step_inTag {name : Name} {attrs : Attrs} {space : Bool}
    (hm : s.mode = .inTag name attrs space) : Reads (l ++ [r]) s' := by
  have hmode : Partial s.mode = InTag name none := hm ▸ rfl
  simp only [stepMode, hm] at hs'
  split_ifs at hs' with hspace hstop hslash hname
  · obtain rfl := Option.some.inj hs'
    exact h.plain hmode rfl rfl rfl (by simp [hnorm.isSpace hspace])
  · refine h.openElement hs' fun b hb => ?_
    rw [hm] at hb
    obtain ⟨n, v, rfl, -, hlead, rfl⟩ := hb
    refine ⟨n, hlead.inside, rfl, ?_⟩
    rw [hnorm.eq (hstop ▸ by decide), hstop]
    simp [startTag, LeadsTo.inside]
  · obtain rfl := Option.some.inj hs'
    refine h.move rfl rfl fun b hb => ?_
    rw [hm] at hb
    obtain ⟨n, v, rfl, -, hlead, rfl⟩ := hb
    rw [hnorm.eq (hslash ▸ by decide), hslash]
    exact ⟨n, v, rfl, hlead, by simp⟩
  · obtain rfl := Option.some.inj hs'
    refine h.plain hmode rfl rfl rfl ?_
    rw [hnorm.eq_of_isNameStart hname.1, isNameChar, hname.1]
    rfl

theorem Reads.step_attrName {name acc : Name} {attrs : Attrs}
    (hm : s.mode = .attrName name attrs acc) : Reads (l ++ [r]) s' := by
  have hmode : Partial s.mode = InTag name none := hm ▸ rfl
  simp only [stepMode, hm] at hs'
  split_ifs at hs' with hchar heq hspace
  · obtain rfl := Option.some.inj hs'
    exact h.plain hmode rfl rfl rfl (by simp [hnorm.eq_of_isNameChar hchar, hchar])
  · obtain rfl := Option.some.inj hs'
    exact h.plain hmode rfl rfl rfl (by simp [hnorm.eq (heq ▸ by decide), heq])
  · obtain rfl := Option.some.inj hs'
    exact h.plain hmode rfl rfl rfl (by simp [hnorm.isSpace hspace])

theorem Reads.step_attrEq {name attr : Name} {attrs : Attrs}
    (hm : s.mode = .attrEq name attrs attr) : Reads (l ++ [r]) s' := by
  have hmode : Partial s.mode = InTag name none := hm ▸ rfl
  simp only [stepMode, hm] at hs'
  split_ifs at hs' with hspace heq
  · obtain rfl := Option.some.inj hs'
    exact h.plain hmode hmode rfl rfl (by simp [hnorm.isSpace hspace])
  · obtain rfl := Option.some.inj hs'
    exact h.plain hmode rfl rfl rfl (by simp [hnorm.eq (heq ▸ by decide), heq])

theorem Reads.step_attrOpen {name attr : Name} {attrs : Attrs}
    (hm : s.mode = .attrOpen name attrs attr) : Reads (l ++ [r]) s' := by
  have hmode : Partial s.mode = InTag name none := hm ▸ rfl
  simp only [stepMode, hm] at hs'
  split_ifs at hs' with hspace hquote
  · obtain rfl := Option.some.inj hs'
    exact h.plain hmode hmode rfl rfl (by simp [hnorm.isSpace hspace])
  · obtain rfl := Option.some.inj hs'
    refine h.move rfl rfl fun b hb => ?_
    rw [hmode] at hb
    have hr : r = c := by
      refine hnorm.eq ?_
      rintro rfl
      exact absurd hquote (by decide)
    subst hr
    exact ⟨hquote, hb.concat fun w => by rw [validInside, if_pos hquote]⟩

theorem Reads.step_attrValue {name attr : Name} {attrs : Attrs} {quote : Char} {acc : List Char}
    (hm : s.mode = .attrValue name attrs attr quote acc) : Reads (l ++ [r]) s' := by
  have hmode : ∀ b, Partial s.mode b →
      (quote = '"' ∨ quote = '\'') ∧ InTag name (some quote) b := by
    rw [hm]
    exact fun b hb => hb
  simp only [stepMode, hm] at hs'
  split_ifs at hs' with hstop hattr hopen href
  · obtain rfl := Option.some.inj hs'
    refine h.move rfl rfl fun b hb => ?_
    obtain ⟨hquote, hb⟩ := hmode b hb
    have hr : r = quote := by
      rw [← hstop]
      refine hnorm.eq ?_
      rintro rfl
      rw [← hstop] at hquote
      exact absurd hquote (by decide)
    exact hb.concat fun w => by rw [validInside, if_pos hr]
  all_goals
    obtain rfl := Option.some.inj hs'
    refine h.move rfl rfl fun b hb => ?_
    obtain ⟨hquote, hb⟩ := hmode b hb
    have hr : r ≠ quote := by
      refine hnorm.ne hstop ?_
      rintro rfl
      exact absurd hquote (by decide)
    exact ⟨hquote, hb.concat fun w => validInside_some hr (hnorm.ne hopen (by decide))⟩

theorem Reads.step_attrRef {name attr : Name} {attrs : Attrs} {quote : Char} {acc ref : List Char}
    (hm : s.mode = .attrRef name attrs attr quote acc ref) : Reads (l ++ [r]) s' := by
  have hmove : (isNameChar c || c == '#' || c == ';') = true → ∀ b, Partial s.mode b →
      (quote = '"' ∨ quote = '\'') ∧ InTag name (some quote) (b ++ [r]) := by
    intro hc b hb
    rw [hm] at hb
    obtain ⟨hquote, hb⟩ := hb
    have hne : ∀ d, (isNameChar d || d == '#' || d == ';') = false → r ≠ d := by
      rintro d hd rfl
      rw [← hnorm.resolve_right, hd] at hc
      · cases hc
      · rintro ⟨-, rfl⟩
        exact absurd hc (by decide)
    refine ⟨hquote, hb.concat fun w => validInside_some (hne _ ?_) (hne _ (by decide))⟩
    rcases hquote with rfl | rfl <;> decide
  simp only [stepMode, hm] at hs'
  split_ifs at hs' with hstop hchar
  · obtain ⟨d, -, rfl⟩ := Option.map_eq_some_iff.1 hs'
    exact h.move rfl rfl (hmove (by simp [hstop]))
  · obtain rfl := Option.some.inj hs'
    refine h.move rfl rfl (hmove ?_)
    rw [hchar]
    rfl

theorem Reads.step_slash {name : Name} {attrs : Attrs} (hm : s.mode = .slash name attrs) :
    Reads (l ++ [r]) s' := by
  simp only [stepMode, hm] at hs'
  split_ifs at hs' with hstop
  refine h.emptyElement hs' fun b hb => ?_
  rw [hm] at hb
  obtain ⟨n, v, rfl, hlead, rfl⟩ := hb
  refine ⟨n, hlead.inside, rfl, ?_⟩
  rw [hnorm.eq (hstop ▸ by decide), hstop]
  simp [emptyTag, LeadsTo.inside]

theorem Reads.step_closeName {acc : Name} (hm : s.mode = .closeName acc) :
    Reads (l ++ [r]) s' := by
  have hmode : ∀ b, Partial s.mode b → b = '<' :: '/' :: acc := by
    rw [hm]
    exact fun b hb => hb
  simp only [stepMode, hm] at hs'
  by_cases hname : (if acc = [] then isNameStart c else isNameChar c) = true
  · rw [if_pos hname] at hs'
    obtain rfl := Option.some.inj hs'
    refine h.move rfl rfl fun b hb => ?_
    obtain rfl := hmode b hb
    rw [hnorm.eq_of_isNameChar (isNameChar_of_ite hname)]
    rfl
  · rw [if_neg hname] at hs'
    split_ifs at hs' with hnil hspace hstop
    · obtain rfl := Option.some.inj hs'
      refine h.move rfl rfl fun b hb => ?_
      obtain rfl := hmode b hb
      refine ⟨⟨[r], ?_⟩, rfl⟩
      simpa using hnorm.isSpace hspace
    · refine h.closeElement hs' fun b hb => ⟨⟨[], by simp⟩, ?_⟩
      rw [hmode b hb, hnorm.eq (hstop ▸ by decide), hstop]
      rfl

theorem Reads.step_closeSpace {name : Name} (hm : s.mode = .closeSpace name) :
    Reads (l ++ [r]) s' := by
  simp only [stepMode, hm] at hs'
  split_ifs at hs' with hspace hstop
  · obtain rfl := Option.some.inj hs'
    refine h.move rfl rfl fun b hb => ?_
    rw [hm] at hb ⊢
    obtain ⟨space, rfl⟩ := hb
    refine ⟨⟨space.val ++ [r], ?_⟩, by simp⟩
    simpa [or_imp, forall_and] using ⟨space.space, hnorm.isSpace hspace⟩
  · refine h.closeElement hs' fun b hb => ?_
    rw [hm] at hb
    obtain ⟨space, rfl⟩ := hb
    refine ⟨space, ?_⟩
    rw [hnorm.eq (hstop ▸ by decide), hstop]
    simp

end Content

/-! ### Runs -/

section Runs

variable {s s' : State} {l : List Char} {r c : Char}

/-- One more character, with the line ends normalised. -/
theorem Reads.stepMode (h : Reads l s) (hx : isXmlChar c = true) (hnorm : Normalised r c)
    (hs' : stepMode s c = some s') : Reads (l ++ [r]) s' := by
  cases hm : s.mode with
  | start => exact h.step_start hnorm hs' hm
  | text k => exact h.step_text hnorm hs' hm
  | ref acc => exact h.step_ref hnorm hs' hm
  | lt first => exact h.step_lt hnorm hs' hx hm
  | bang acc => exact h.step_bang hnorm hs' hm
  | comment d => exact h.step_comment hnorm hs' hm
  | cdata k => exact h.step_cdata hnorm hs' hm
  | piTarget first acc => exact h.step_piTarget hnorm hs' hm
  | piBody question => exact h.step_piBody hnorm hs' hm
  | openName acc => exact h.step_openName hnorm hs' hx hm
  | inTag name attrs space => exact h.step_inTag hnorm hs' hm
  | attrName name attrs acc => exact h.step_attrName hnorm hs' hm
  | attrEq name attrs attr => exact h.step_attrEq hnorm hs' hm
  | attrOpen name attrs attr => exact h.step_attrOpen hnorm hs' hm
  | attrValue name attrs attr quote acc => exact h.step_attrValue hnorm hs' hm
  | attrRef name attrs attr quote acc ref => exact h.step_attrRef hnorm hs' hm
  | slash name attrs => exact h.step_slash hnorm hs' hm
  | closeName acc => exact h.step_closeName hnorm hs' hm
  | closeSpace name => exact h.step_closeSpace hnorm hs' hm

/-- Where the reader may be after a newline. -/
def Mode.afterNewline : Mode → Bool
  | .text _ | .inTag _ _ _ | .attrEq _ _ _ | .attrOpen _ _ _ | .attrValue _ _ _ _ _ => true
  | .closeSpace _ => true
  | .comment d => d == 0
  | .cdata k => k == 0
  | .piBody question => !question
  | _ => false

theorem afterNewline_of_stepText {k : ℕ} (h : stepText s k '\n' = some s') :
    s'.mode.afterNewline = true := by
  have hspace : isSpace '\n' = true := by decide
  simp only [stepText, hspace, Char.reduceEq, if_false, if_true, false_and] at h
  split_ifs at h
  all_goals
    obtain rfl := Option.some.inj h
    rfl

theorem afterNewline_of_stepMode (h : Xml.stepMode s '\n' = some s') :
    s'.mode.afterNewline = true := by
  have hstart : isNameStart '\n' = false := by decide
  have hchar : isNameChar '\n' = false := by decide
  have hspace : isSpace '\n' = true := by decide
  cases hm : s.mode with
  | start =>
    simp only [Xml.stepMode, hm] at h
    exact afterNewline_of_stepText h
  | text k =>
    simp only [Xml.stepMode, hm] at h
    exact afterNewline_of_stepText h
  | bang acc =>
    simp only [Xml.stepMode, hm] at h
    exact absurd (mem_of_stepBang h _ (List.mem_append_right acc List.mem_cons_self)) (by decide)
  | attrValue name attrs attr quote acc =>
    simp only [Xml.stepMode, hm, Char.reduceEq, if_false] at h
    split_ifs at h
    all_goals
      obtain rfl := Option.some.inj h
      rfl
  | comment d =>
    simp [Xml.stepMode, hm] at h
    obtain ⟨-, rfl⟩ := h
    rfl
  | piTarget first acc =>
    simp [Xml.stepMode, hm, hstart, hchar, hspace] at h
    obtain ⟨-, rfl⟩ := h
    rfl
  | closeName acc =>
    simp [Xml.stepMode, hm, hstart, hchar, hspace] at h
    obtain ⟨-, rfl⟩ := h
    rfl
  | attrEq name attrs attr | attrOpen name attrs attr | closeSpace name =>
    simp [Xml.stepMode, hm, hspace] at h
    rw [← h, hm]
    rfl
  | _ =>
    simp [Xml.stepMode, hm, hstart, hchar, hspace] at h
    all_goals
      subst h
      rfl

theorem Reads.congr (h : Reads l s) (hmode : Partial s'.mode = Partial s.mode)
    (hstack : s'.stack = s.stack)
    (hevents : s'.events.filterMap Event.bare = s.events.filterMap Event.bare) : Reads l s' := by
  obtain ⟨frames, ps, b, hl, hframes, htags, hb⟩ := h
  exact ⟨frames, ps, b, hl, hframes.trans hstack.symm, htags.trans hevents.symm, hmode ▸ hb⟩

/-- Another newline is passed over. -/
theorem Reads.newline {m : Mode} (h : Reads l s) (hm : s.mode = m)
    (hafter : m.afterNewline = true) : Reads (l ++ ['\n']) { s with cr := false } := by
  have hspace : isSpace '\n' = true := by decide
  have hstep : ∀ t, Xml.stepMode s '\n' = some t → Partial s.mode = Partial t.mode →
      t.stack = s.stack → t.events.filterMap Event.bare = s.events.filterMap Event.bare →
      Reads (l ++ ['\n']) { s with cr := false } := fun t ht hbegun hstack hevents =>
    (h.stepMode (by decide) (.inl rfl) ht).congr hbegun hstack.symm hevents.symm
  cases m with
  | text k =>
    have htext : ∀ b, Partial s.mode b ↔ b = [] := fun b => by
      rw [hm]
      rfl
    exact h.chars (fun b => (htext b).1) (by decide) rfl rfl ((htext []).2 rfl)
  | comment d =>
    obtain rfl : d = 0 := by simpa [Mode.afterNewline] using hafter
    exact hstep (s.goto (.comment 0)) (by simp [Xml.stepMode, hm]) (by rw [hm]; rfl) rfl rfl
  | cdata k =>
    obtain rfl : k = 0 := by simpa [Mode.afterNewline] using hafter
    refine hstep (s.emit ['\n'] (.cdata 0)) (by simp [Xml.stepMode, hm]) (by rw [hm]; rfl) rfl ?_
    exact (List.filterMap_append ..).trans (List.append_nil _)
  | piBody question =>
    obtain rfl : question = false := by simpa [Mode.afterNewline] using hafter
    exact hstep (s.goto (.piBody false)) (by simp [Xml.stepMode, hm]) (by rw [hm]; rfl) rfl rfl
  | inTag name attrs space =>
    exact hstep (s.goto (.inTag name attrs true)) (by simp [Xml.stepMode, hm, hspace])
      (by rw [hm]; rfl) rfl rfl
  | attrEq name attrs attr | attrOpen name attrs attr | closeSpace name =>
    exact hstep s (by simp [Xml.stepMode, hm, hspace]) rfl rfl rfl
  | attrValue name attrs attr quote acc =>
    have hquote : '\n' ≠ quote := by
      obtain ⟨_, _, _, -, -, -, hb⟩ := h
      rw [hm] at hb
      rcases hb.1 with rfl | rfl <;> decide
    exact hstep (s.goto (.attrValue name attrs attr quote (acc ++ [' '])))
      (by simp [Xml.stepMode, hm, hquote, hspace]) (by rw [hm]; rfl) rfl rfl
  | _ => cases hafter

theorem cr_of_openElement {name : Name} {attrs : Attrs} (h : s.openElement name attrs = some s') :
    s'.cr = s.cr := by
  rw [State.openElement] at h
  split_ifs at h
  rw [← Option.some.inj h]

theorem cr_of_emptyElement {name : Name} {attrs : Attrs} (h : s.emptyElement name attrs = some s') :
    s'.cr = s.cr := by
  rw [State.emptyElement] at h
  split_ifs at h
  rw [← Option.some.inj h]

theorem cr_of_closeElement {name : Name} (h : s.closeElement name = some s') : s'.cr = s.cr := by
  rw [State.closeElement] at h
  split at h
  · split_ifs at h
    rw [← Option.some.inj h]
  · cases h

theorem cr_of_stepMode (h : Xml.stepMode s c = some s') : s'.cr = s.cr := by
  have hgoto : ∀ m, (s.goto m).cr = s.cr := fun _ => rfl
  have hemit : ∀ cs m, (s.emit cs m).cr = s.cr := fun _ _ => rfl
  cases hm : s.mode
  all_goals
    simp only [Xml.stepMode, hm, Xml.stepText, stepBang] at h
    grind [cr_of_openElement, cr_of_emptyElement, cr_of_closeElement, Option.map_eq_some_iff]

/-- What has been read, where a newline may still belong to a carriage return. -/
def ReadsTo (l : List Char) (s : State) : Prop :=
  Reads l s ∧ (s.cr = true → s.mode.afterNewline = true)

theorem ReadsTo.step (h : ReadsTo l s) (hs' : Xml.step s c = some s') : ReadsTo (l ++ [c]) s' := by
  obtain ⟨hreads, hcr⟩ := h
  rw [Xml.step] at hs'
  by_cases hx : isXmlChar c = true
  · rw [if_pos hx] at hs'
    by_cases hskip : s.cr = true ∧ c = '\n'
    · rw [if_pos hskip] at hs'
      obtain rfl := Option.some.inj hs'
      rw [hskip.2]
      exact ⟨hreads.newline rfl (hcr hskip.1), fun hfalse => absurd hfalse Bool.false_ne_true⟩
    · rw [if_neg hskip] at hs'
      have hreads' : Reads l { s with cr := c == '\r' } := hreads
      by_cases hc : c = '\r'
      · rw [if_pos hc] at hs'
        refine ⟨hreads'.stepMode (by decide) (.inr ⟨hc, rfl⟩) hs', fun _ => ?_⟩
        exact afterNewline_of_stepMode hs'
      · rw [if_neg hc] at hs'
        refine ⟨hreads'.stepMode hx (.inl rfl) hs', fun hcr' => ?_⟩
        rw [cr_of_stepMode hs', beq_iff_eq] at hcr'
        exact absurd hcr' hc
  · rw [if_neg hx] at hs'
    cases hs'

theorem readsTo_run {l₀ : List Char} (h : ReadsTo l₀ s) (hrun : run s l = some s') :
    ReadsTo (l₀ ++ l) s' := by
  induction l generalizing l₀ s with
  | nil =>
    obtain rfl := Option.some.inj hrun
    rw [List.append_nil]
    exact h
  | cons c l ih =>
    obtain ⟨t, ht, hrun⟩ := Option.bind_eq_some_iff.1 ((run_cons (s := s)).symm.trans hrun)
    have hstep := ih (h.step ht) hrun
    rwa [List.append_assoc, List.singleton_append] at hstep

end Runs

/-- A document that is read is made of parts, and the tags that are reported are theirs. -/
theorem exists_parts_of_read {doc : String} {events : List Event} (h : read doc = some events) :
    ∃ ps, textList ps = doc.toList ∧ tagsList ps = events.filterMap Event.bare := by
  have hinit : ReadsTo [] State.init :=
    ⟨⟨[], [], [], rfl, rfl, rfl, rfl⟩, fun hfalse => absurd hfalse Bool.false_ne_true⟩
  rw [read] at h
  split at h
  · next s hrun =>
    split_ifs at h with hend
    obtain rfl := Option.some.inj h
    obtain ⟨⟨frames, ps, b, hdoc, hframes, htags, hb⟩, -⟩ := readsTo_run hinit hrun
    obtain ⟨htext, hstack, -⟩ := hend
    rw [hstack, List.map_eq_nil_iff] at hframes
    subst hframes
    have hnil : b = [] := by
      cases hm : s.mode with
      | text k =>
        rw [hm] at hb
        exact hb
      | _ =>
        rw [hm] at htext
        cases htext
    subst hnil
    refine ⟨ps, ?_, htags⟩
    rw [List.nil_append] at hdoc
    simpa [framesText] using hdoc.symm
  · cases h

end Xml
