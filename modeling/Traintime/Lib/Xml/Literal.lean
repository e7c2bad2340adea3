import Mathlib.Algebra.GroupWithZero.Nat
import Traintime.Lib.Xml.Render

/-!
# Text that is read literally

Every event takes at least as many characters as its shortest spelling. A document that is no longer
than the shortest spelling of its events is therefore spelled that way: its text has no references,
no CDATA sections, no comments, and is scanned as literal text.

## Main definitions

* `Xml.Event.weight`: the length of the shortest spelling of an event.
* `Xml.State.weight`: the length of the shortest spelling of what has been read.

## Main results

* `Xml.run_weight_le`: a run reads no more than its characters can spell.
* `Xml.scan_of_run`: a text that is read as its own characters, in a document without slack, is
  scanned as literal text.
-/

namespace Xml

/-- The length of attributes in their shortest spelling. -/
def attrsWeight (attrs : Attrs) : ℕ := (attrs.map fun a => a.1.length + a.2.length + 4).sum

/-- The length of the shortest spelling of an event. -/
def Event.weight : Event → ℕ
  | .startTag name attrs => name.length + 2 + attrsWeight attrs
  | .emptyTag name attrs => name.length + 3 + attrsWeight attrs
  | .endTag name => name.length + 3
  | .char _ => 1

/-- The length of the shortest spelling of what a mode has read of its construct. -/
def Mode.weight : Mode → ℕ
  | .lt _ => 1
  | .cdata k => k
  | .openName acc => 1 + acc.length
  | .inTag name attrs space => 1 + name.length + attrsWeight attrs + if space then 1 else 0
  | .attrName name attrs acc | .attrEq name attrs acc =>
    2 + name.length + attrsWeight attrs + acc.length
  | .attrOpen name attrs attr => 3 + name.length + attrsWeight attrs + attr.length
  | .attrValue name attrs attr _ acc | .attrRef name attrs attr _ acc _ =>
    4 + name.length + attrsWeight attrs + attr.length + acc.length
  | .slash name attrs => 2 + name.length + attrsWeight attrs
  | .closeName acc | .closeSpace acc => 2 + acc.length
  | .start | .text _ | .ref _ | .bang _ | .comment _ | .piTarget _ _ | .piBody _ => 0

/-- The length of the shortest spelling of events. -/
def eventsWeight (events : List Event) : ℕ := (events.map Event.weight).sum

/-- The length of the shortest spelling of what has been read. -/
def State.weight (s : State) : ℕ := eventsWeight s.events + s.mode.weight

theorem eventsWeight_append (es es' : List Event) :
    eventsWeight (es ++ es') = eventsWeight es + eventsWeight es' := by
  rw [eventsWeight, List.map_append, List.sum_append]
  rfl

@[simp] theorem eventsWeight_map_char (cs : List Char) :
    eventsWeight (cs.map .char) = cs.length := by
  induction cs with
  | nil => rfl
  | cons c cs ih =>
    rw [List.map_cons, ← List.singleton_append, eventsWeight_append, ih, List.length_cons,
      Nat.add_comm]
    rfl

variable {s s' : State} {c : Char} {name : Name} {attrs : Attrs}

/-- A start tag, an empty-element tag or an end tag. -/
def Event.isTag : Event → Bool
  | .char _ => false
  | _ => true

/-- In a start tag or an end tag. -/
def Mode.isTag : Mode → Bool
  | .lt _ | .openName _ | .inTag _ _ _ | .attrName _ _ _ | .attrEq _ _ _ | .attrOpen _ _ _
  | .attrValue _ _ _ _ _ | .attrRef _ _ _ _ _ _ | .slash _ _ | .closeName _ | .closeSpace _ => true
  | _ => false

/-! ### What a step can do -/

/-- What a step can do: move within a construct, emit characters of the content, or finish a tag.
What it has then read is at most one character more. -/
inductive Outcome (s : State) : State → Prop
  | goto (m : Mode) (hle : m.weight ≤ s.mode.weight + 1)
      (htag : s.mode.isTag = true → m.isTag = true ∨ m.weight < s.mode.weight + 1) :
      Outcome s (s.goto m)
  | emit (cs : List Char) (m : Mode) (hle : cs.length + m.weight ≤ s.mode.weight + 1)
      (htag : s.mode.isTag = false) : Outcome s (s.emit cs m)
  | tag {s' : State} (e : Event) (he : e.isTag = true) (hle : e.weight ≤ s.mode.weight + 1)
      (hmode : s'.mode = .text 0) (hevents : s'.events = s.events ++ [e]) : Outcome s s'

theorem outcome_openElement (h : s.openElement name attrs = some s')
    (hle : name.length + 2 + attrsWeight attrs ≤ s.mode.weight + 1) : Outcome s s' := by
  rw [State.openElement] at h
  split_ifs at h
  obtain rfl := Option.some.inj h
  exact .tag (.startTag name attrs) rfl hle rfl rfl

theorem outcome_emptyElement (h : s.emptyElement name attrs = some s')
    (hle : name.length + 3 + attrsWeight attrs ≤ s.mode.weight + 1) : Outcome s s' := by
  rw [State.emptyElement] at h
  split_ifs at h
  obtain rfl := Option.some.inj h
  exact .tag (.emptyTag name attrs) rfl hle rfl rfl

theorem outcome_closeElement (h : s.closeElement name = some s')
    (hle : name.length + 3 ≤ s.mode.weight + 1) : Outcome s s' := by
  rw [State.closeElement] at h
  split at h
  · split_ifs at h
    obtain rfl := Option.some.inj h
    exact .tag (.endTag name) rfl hle rfl rfl
  · cases h

theorem outcome_stepText {k : ℕ} (hm : s.mode.isTag = false) (h : stepText s k c = some s') :
    Outcome s s' := by
  have hgoto : ∀ m : Mode, m.weight ≤ 1 → Outcome s (s.goto m) := fun m hw =>
    .goto m (Nat.le_trans hw (Nat.le_add_left _ _)) fun htag => by rw [hm] at htag; cases htag
  have hemit : ∀ k', Outcome s (s.emit [c] (.text k')) := fun k' =>
    .emit [c] _ (Nat.le_add_left _ _) hm
  rw [stepText] at h
  split_ifs at h
  · obtain rfl := Option.some.inj h
    exact hgoto _ (Nat.le_refl _)
  · obtain rfl := Option.some.inj h
    exact hgoto _ (Nat.zero_le _)
  · obtain rfl := Option.some.inj h
    exact hgoto _ (Nat.zero_le _)
  · obtain rfl := Option.some.inj h
    exact hemit _
  · obtain rfl := Option.some.inj h
    exact hemit _

theorem outcome_stepBang {acc : List Char} (hm : s.mode.isTag = false)
    (h : stepBang s acc = some s') : Outcome s s' := by
  have hgoto : ∀ m : Mode, m.weight = 0 → Outcome s (s.goto m) := fun m hw =>
    .goto m (hw ▸ Nat.zero_le _) fun htag => by rw [hm] at htag; cases htag
  rw [stepBang] at h
  split_ifs at h
  all_goals
    obtain rfl := Option.some.inj h
    exact hgoto _ rfl

/-- A move from a mode outside of tags. -/
theorem Outcome.move {m₀ m : Mode} (hm : s.mode = m₀) (htag : m₀.isTag = false)
    (hle : m.weight ≤ m₀.weight + 1) : Outcome s (s.goto m) :=
  .goto m (hm ▸ hle) fun h => by rw [hm, htag] at h; cases h

/-- A move within a tag. -/
theorem Outcome.within {m₀ m : Mode} (hm : s.mode = m₀) (htag : m.isTag = true)
    (hle : m.weight ≤ m₀.weight + 1) : Outcome s (s.goto m) :=
  .goto m (hm ▸ hle) fun _ => .inl htag

theorem outcome_content {m : Mode} (hm : s.mode = m) (htag : m.isTag = false)
    (h : stepMode s c = some s') : Outcome s s' := by
  have htag' : s.mode.isTag = false := hm ▸ htag
  cases m with
  | start =>
    simp only [stepMode, hm] at h
    split_ifs at h
    · obtain rfl := Option.some.inj h
      exact .move hm rfl (Nat.le_refl _)
    · exact outcome_stepText htag' h
  | text k =>
    simp only [stepMode, hm] at h
    exact outcome_stepText htag' h
  | bang acc =>
    simp only [stepMode, hm] at h
    exact outcome_stepBang htag' h
  | ref acc =>
    simp only [stepMode, hm] at h
    split_ifs at h
    · obtain ⟨d, -, rfl⟩ := Option.map_eq_some_iff.1 h
      exact .emit _ _ (Nat.le_add_left _ _) htag'
    · obtain rfl := Option.some.inj h
      exact .move hm rfl (Nat.zero_le _)
  | comment d =>
    simp only [stepMode, hm] at h
    split_ifs at h
    all_goals
      obtain rfl := Option.some.inj h
      exact .move hm rfl (Nat.zero_le _)
  | cdata k =>
    simp only [stepMode, hm] at h
    split_ifs at h
    · obtain rfl := Option.some.inj h
      exact .move hm rfl (Nat.le_refl _)
    · obtain rfl := Option.some.inj h
      refine .emit _ _ ?_ htag'
      rw [hm, List.length_replicate]
      exact Nat.le_succ_of_le (Nat.sub_le _ _)
    · obtain rfl := Option.some.inj h
      refine .emit _ _ ?_ htag'
      rw [hm, List.length_append, List.length_replicate]
      exact Nat.le_refl _
  | piTarget first acc =>
    simp only [stepMode, hm] at h
    split_ifs at h
    all_goals
      obtain rfl := Option.some.inj h
      exact .move hm rfl (Nat.zero_le _)
  | piBody question =>
    simp only [stepMode, hm] at h
    split_ifs at h
    all_goals
      obtain rfl := Option.some.inj h
      exact .move hm rfl (Nat.zero_le _)
  | _ => cases htag

theorem outcome_tag {m : Mode} (hm : s.mode = m) (htag : m.isTag = true)
    (h : stepMode s c = some s') : Outcome s s' := by
  cases m with
  | lt first =>
    simp only [stepMode, hm] at h
    split_ifs at h
    · obtain rfl := Option.some.inj h
      exact .within hm rfl (Nat.le_refl _)
    · obtain rfl := Option.some.inj h
      exact .within hm rfl (Nat.le_refl _)
    -- a comment, a section or an instruction begins, and the bracket is lost
    · obtain rfl := Option.some.inj h
      exact .goto _ (Nat.zero_le _) fun _ => .inr (Nat.succ_pos _)
    · obtain rfl := Option.some.inj h
      exact .goto _ (Nat.zero_le _) fun _ => .inr (Nat.succ_pos _)
  | openName acc =>
    simp only [stepMode, hm] at h
    split_ifs at h
    · obtain rfl := Option.some.inj h
      exact .within hm rfl (by simp [Mode.weight]; omega)
    · obtain rfl := Option.some.inj h
      exact .within hm rfl (by simp [Mode.weight, attrsWeight])
    · refine outcome_openElement h ?_
      simp only [hm, Mode.weight, attrsWeight, List.map_nil, List.sum_nil]
      omega
    · obtain rfl := Option.some.inj h
      exact .within hm rfl (by simp [Mode.weight, attrsWeight]; omega)
  | inTag name attrs space =>
    simp only [stepMode, hm] at h
    split_ifs at h with _ _ _ hname
    · obtain rfl := Option.some.inj h
      exact .within hm rfl (by simp [Mode.weight])
    · exact outcome_openElement h (by simp [hm, Mode.weight]; omega)
    · obtain rfl := Option.some.inj h
      exact .within hm rfl (by simp [Mode.weight]; omega)
    · obtain rfl := Option.some.inj h
      exact .within hm rfl (by simp [Mode.weight, hname.2]; omega)
  | attrName name attrs acc =>
    simp only [stepMode, hm] at h
    split_ifs at h
    all_goals
      obtain rfl := Option.some.inj h
      exact .within hm rfl (by simp [Mode.weight]; try omega)
  | attrEq name attrs attr =>
    simp only [stepMode, hm] at h
    split_ifs at h
    · obtain rfl := Option.some.inj h
      exact .within (m := s.mode) hm (hm ▸ rfl) (by rw [hm]; omega)
    · obtain rfl := Option.some.inj h
      exact .within hm rfl (by simp [Mode.weight]; omega)
  | attrOpen name attrs attr =>
    simp only [stepMode, hm] at h
    split_ifs at h
    · obtain rfl := Option.some.inj h
      exact .within (m := s.mode) hm (hm ▸ rfl) (by rw [hm]; omega)
    · obtain rfl := Option.some.inj h
      exact .within hm rfl (by simp [Mode.weight]; omega)
  | attrValue name attrs attr quote acc =>
    simp only [stepMode, hm] at h
    split_ifs at h
    · obtain rfl := Option.some.inj h
      exact .within hm rfl (by simp [Mode.weight, attrsWeight]; omega)
    · obtain rfl := Option.some.inj h
      exact .within hm rfl (Nat.le_succ _)
    · obtain rfl := Option.some.inj h
      exact .within hm rfl (by simp [Mode.weight]; omega)
    · obtain rfl := Option.some.inj h
      exact .within hm rfl (by simp [Mode.weight]; omega)
  | attrRef name attrs attr quote acc ref =>
    simp only [stepMode, hm] at h
    split_ifs at h
    · obtain ⟨d, -, rfl⟩ := Option.map_eq_some_iff.1 h
      exact .within hm rfl (by simp [Mode.weight]; omega)
    · obtain rfl := Option.some.inj h
      exact .within hm rfl (Nat.le_succ _)
  | slash name attrs =>
    simp only [stepMode, hm] at h
    split_ifs at h
    exact outcome_emptyElement h (by simp [hm, Mode.weight]; omega)
  | closeName acc =>
    simp only [stepMode, hm] at h
    split_ifs at h
    · obtain rfl := Option.some.inj h
      exact .within hm rfl (by simp [Mode.weight]; omega)
    · obtain rfl := Option.some.inj h
      exact .within hm rfl (by simp [Mode.weight]; omega)
    · obtain rfl := Option.some.inj h
      exact .within hm rfl (Nat.le_succ _)
    · exact outcome_closeElement h (by simp [hm, Mode.weight]; omega)
  | closeSpace name =>
    simp only [stepMode, hm] at h
    split_ifs at h
    · obtain rfl := Option.some.inj h
      exact .within (m := s.mode) hm (hm ▸ rfl) (by rw [hm]; omega)
    · exact outcome_closeElement h (by simp [hm, Mode.weight]; omega)
  | _ => cases htag

theorem stepMode_outcome (h : stepMode s c = some s') : Outcome s s' := by
  cases htag : s.mode.isTag with
  | false => exact outcome_content rfl htag h
  | true => exact outcome_tag rfl htag h

theorem Outcome.weight_le (h : Outcome s s') : s'.weight ≤ s.weight + 1 := by
  unfold State.weight
  cases h with
  | goto m hle htag =>
    simp only [State.goto]
    omega
  | emit cs m hle htag =>
    simp only [State.emit, eventsWeight_append, eventsWeight_map_char]
    omega
  | tag e he hle hmode hevents =>
    have hsingle : eventsWeight [e] = e.weight := rfl
    have htext : (Mode.text 0).weight = 0 := rfl
    rw [hmode, hevents, eventsWeight_append]
    omega

theorem Outcome.events_isPrefix (h : Outcome s s') : s.events <+: s'.events := by
  cases h with
  | goto m hle htag => exact List.prefix_refl _
  | emit cs m hle htag => exact List.prefix_append _ _
  | tag e he hle hmode hevents => exact hevents ▸ List.prefix_append _ _

/-- A step in a tag that loses nothing stays in the tag or ends it. -/
theorem Outcome.tag_of_tight (h : Outcome s s') (htag : s.mode.isTag = true)
    (htight : s.weight + 1 ≤ s'.weight) :
    (s'.mode.isTag = true ∧ s'.events = s.events) ∨
      ∃ e, e.isTag = true ∧ s'.events = s.events ++ [e] := by
  cases h with
  | goto m hle hm =>
    rcases hm htag with hm | hlt
    · exact .inl ⟨hm, rfl⟩
    · simp only [State.weight, State.goto] at htight
      omega
  | emit cs m hle hm =>
    rw [htag] at hm
    cases hm
  | tag e he hle hmode hevents => exact .inr ⟨e, he, hevents⟩

/-! ### Characters and runs -/

/-- A character is skipped after a carriage return, or it is a step of the mode. -/
theorem step_cases (h : step s c = some s') :
    s' = { s with cr := false } ∨
      stepMode { s with cr := c == '\r' } (if c = '\r' then '\n' else c) = some s' := by
  rw [step] at h
  split_ifs at h with _ _ hcr
  · exact .inl (Option.some.inj h).symm
  · exact .inr (by rw [if_pos hcr]; exact h)
  · exact .inr (by rw [if_neg hcr]; exact h)

theorem step_weight_le (h : step s c = some s') : s'.weight ≤ s.weight + 1 := by
  rcases step_cases h with rfl | h
  · exact Nat.le_succ _
  · exact (stepMode_outcome h).weight_le

theorem step_events_isPrefix (h : step s c = some s') : s.events <+: s'.events := by
  rcases step_cases h with rfl | h
  · exact List.prefix_refl _
  · exact (stepMode_outcome h).events_isPrefix

variable {l : List Char}

theorem exists_step_of_run (h : run s (c :: l) = some s') :
    ∃ t, step s c = some t ∧ run t l = some s' := by
  rwa [run_cons, Option.bind_eq_some_iff] at h

/-- A run reads no more than its characters can spell. -/
theorem run_weight_le (h : run s l = some s') : s'.weight ≤ s.weight + l.length := by
  induction l generalizing s with
  | nil =>
    obtain rfl := Option.some.inj h
    exact Nat.le_refl _
  | cons c l ih =>
    obtain ⟨t, ht, hrest⟩ := exists_step_of_run h
    have hstep := step_weight_le ht
    have hrest := ih hrest
    rw [List.length_cons]
    omega

theorem run_events_isPrefix (h : run s l = some s') : s.events <+: s'.events := by
  induction l generalizing s with
  | nil =>
    obtain rfl := Option.some.inj h
    exact List.prefix_refl _
  | cons c l ih =>
    obtain ⟨t, ht, hrest⟩ := exists_step_of_run h
    exact (step_events_isPrefix ht).trans (ih hrest)

/-- A run without slack has none in its first step and none in the rest. -/
theorem tight_of_run (h : run s (c :: l) = some s')
    (htight : s.weight + (l.length + 1) ≤ s'.weight) :
    ∃ t, step s c = some t ∧ run t l = some s' ∧ s.weight + 1 ≤ t.weight ∧
      t.weight + l.length ≤ s'.weight := by
  obtain ⟨t, ht, hrest⟩ := exists_step_of_run h
  have hfirst := step_weight_le ht
  have hlast := run_weight_le hrest
  exact ⟨t, ht, hrest, by omega, by omega⟩

/-- The next event after the beginning of a tag is a tag. -/
theorem tag_of_run (h : run s l = some s') (htag : s.mode.isTag = true)
    (htight : s.weight + l.length ≤ s'.weight) (htext : s'.mode.isText = true) :
    ∃ e es, e.isTag = true ∧ s'.events = s.events ++ e :: es := by
  induction l generalizing s with
  | nil =>
    obtain rfl := Option.some.inj h
    cases hm : s.mode <;> rw [hm] at htag htext <;> cases htag <;> cases htext
  | cons c l ih =>
    obtain ⟨t, ht, hrest, hfirst, hlast⟩ := tight_of_run h htight
    rcases step_cases ht with rfl | hmode
    · exact absurd hfirst (Nat.not_succ_le_self _)
    · rcases (stepMode_outcome hmode).tag_of_tight htag hfirst with ⟨htag', hevents⟩ | ⟨e, he, hevents⟩
      · obtain ⟨e, es, he, hes⟩ := ih hrest htag' hlast
        exact ⟨e, es, he, hes.trans (by rw [hevents])⟩
      · obtain ⟨es, hes⟩ := run_events_isPrefix hrest
        refine ⟨e, es, he, ?_⟩
        rw [← hes, hevents, List.append_assoc, List.singleton_append]

section Text

variable {k : ℕ} {stack : List Name} {root : Bool} {events more : List Event}

/-- The event that a step reports is the next one of the run. -/
theorem event_eq_of_run {e e' : Event} (h : run s l = some s') (he : s.events = events ++ [e])
    (hevents : s'.events = events ++ e' :: more) : e = e' := by
  have hprefix := run_events_isPrefix h
  rw [he, hevents, List.prefix_append_right_inj, List.cons_prefix_cons] at hprefix
  exact hprefix.1

/-- A character that is not literal is not read as itself without slack. -/
theorem isLiteral_of_run (hstack : stack ≠ [])
    (h : run ⟨false, .text k, stack, root, events⟩ (c :: l) = some s')
    (htight : eventsWeight events + (l.length + 1) ≤ s'.weight) (htext : s'.mode.isText = true)
    (hevents : s'.events = events ++ .char c :: more) : isLiteral c = true := by
  obtain ⟨t, ht, hrest, hfirst, hlast⟩ := tight_of_run h htight
  have hx : isXmlChar c = true := by
    by_contra hx
    rw [step, if_neg hx] at ht
    cases ht
  refine isLiteral_iff.2 ⟨hx, ?_, ?_, ?_⟩
  · rintro rfl
    obtain rfl : ⟨false, .lt false, stack, root, events⟩ = t := Option.some.inj ht
    obtain ⟨e, es, he, hes⟩ := tag_of_run hrest rfl hlast htext
    rw [hes, List.append_cancel_left_eq, List.cons.injEq] at hevents
    rw [hevents.1] at he
    cases he
  · rintro rfl
    have hstep : step ⟨false, .text k, stack, root, events⟩ '&' =
        some ⟨false, .ref [], stack, root, events⟩ := by
      rw [step_eq_stepMode rfl hx (by decide)]
      simp only [stepMode, stepText, hstack, if_false]
      rfl
    obtain rfl := Option.some.inj (hstep.symm.trans ht)
    exact absurd hfirst (Nat.not_succ_le_self _)
  · rintro rfl
    have hstep : step ⟨false, .text k, stack, root, events⟩ '\r' =
        some ⟨true, .text 0, stack, root, events ++ [.char '\n']⟩ := by
      simp only [step, hx, stepMode, stepText, hstack, if_true, if_false]
      rfl
    obtain rfl := Option.some.inj (hstep.symm.trans ht)
    have heq := event_eq_of_run hrest rfl hevents
    cases heq

/-- A text that is read as its own characters, in a document without slack, is scanned as literal
text. -/
theorem scan_of_run {text rest : List Char} (hstack : stack ≠ [])
    (h : run ⟨false, .text k, stack, root, events⟩ (text ++ rest) = some s')
    (htight : eventsWeight events + (text ++ rest).length ≤ s'.weight)
    (htext : s'.mode.isText = true) (hevents : s'.events = events ++ (text.map .char ++ more)) :
    ∃ k', scan k text = some k' := by
  induction text generalizing k events with
  | nil => exact ⟨k, rfl⟩
  | cons c text ih =>
    have hlit := isLiteral_of_run hstack h htight htext hevents
    obtain ⟨t, ht, hrest, -, hlast⟩ := tight_of_run h htight
    have happend : events ++ (.char c :: text.map .char ++ more) =
        events ++ [.char c] ++ (text.map .char ++ more) := by simp
    rw [List.map_cons, happend] at hevents
    rw [step_text hstack hlit] at ht
    rw [scan, if_neg (by rw [hlit]; decide)]
    split_ifs at ht ⊢ with hbr hgt
    · obtain rfl := Option.some.inj ht
      exact ih hrest hlast hevents
    · obtain rfl := Option.some.inj ht
      exact ih hrest hlast hevents

end Text

/-! ### Documents without slack -/

theorem length_renderAttrs (attrs : Attrs) : (attrs.flatMap renderAttr).length = attrsWeight attrs := by
  induction attrs with
  | nil => rfl
  | cons a attrs ih =>
    have hcons : attrsWeight (a :: attrs) = a.1.length + a.2.length + 4 + attrsWeight attrs := rfl
    have hattr : (renderAttr a).length = a.1.length + a.2.length + 4 := by
      simp only [renderAttr, List.length_append, List.length_cons, List.length_nil]
      omega
    rw [List.flatMap_cons, List.length_append, ih, hattr, hcons]

/-- Pieces are rendered in the shortest spelling of their events. -/
theorem eventsWeight_report (ps : List Piece) : eventsWeight (report ps) = (render ps).length := by
  induction ps with
  | nil => rfl
  | cons pc ps ih =>
    have hchars : render (pc :: ps) = pc.render ++ render ps := List.flatMap_cons
    have hevents : report (pc :: ps) = pc.report ++ report ps := List.flatMap_cons
    have hpiece : eventsWeight pc.report = pc.render.length := by
      cases pc with
      | startTag name attrs =>
        have hsingle : eventsWeight (Piece.startTag name attrs).report =
            name.length + 2 + attrsWeight attrs := rfl
        rw [hsingle, Piece.render, ← length_renderAttrs]
        simp only [List.length_append, List.length_cons, List.length_nil]
        omega
      | endTag name =>
        have hsingle : eventsWeight (Piece.endTag name).report = name.length + 3 := rfl
        rw [hsingle, Piece.render]
        simp only [List.length_append, List.length_cons, List.length_nil]
      | text l => exact eventsWeight_map_char l
    rw [hchars, hevents, eventsWeight_append, hpiece, ih, List.length_append]

/-- Text between pieces is read as itself only if it is scanned as literal text. -/
theorem scan_of_run_pieces {p : Place} {events : List Event} {text : List Char} {ps : List Piece}
    (hstack : p.stack ≠ []) (h : run (p.state events) (text ++ render ps) = some s')
    (htext : s'.mode.isText = true)
    (hevents : s'.events = events ++ (text.map .char ++ report ps)) :
    ∃ k, scan p.brackets text = some k := by
  refine scan_of_run hstack h ?_ htext hevents
  rw [State.weight, hevents, eventsWeight_append, eventsWeight_append, eventsWeight_map_char,
    eventsWeight_report, List.length_append]
  exact Nat.le_add_right _ _

/-! ### Literal text -/

/-- Literal characters without closing brackets are literal text. -/
theorem scan_eq_zero (h : ∀ c ∈ l, isLiteral c = true ∧ c ≠ ']') : scan 0 l = some 0 := by
  induction l with
  | nil => rfl
  | cons c l ih =>
    obtain ⟨⟨hlit, hbr⟩, hl⟩ := List.forall_mem_cons.1 h
    rw [scan, if_neg (by rw [hlit]; decide), if_neg hbr, if_neg (by simp), ih hl]

/-- The end of a CDATA section, which content must not have as it is. -/
def cdataEnd : List Char := [']', ']', '>']

/-- A third closing bracket counts as little as more of them. -/
theorem cdataEnd_bracket {k : ℕ} (hk : k ≤ 2) {l : List Char} :
    cdataEnd <:+: List.replicate (min 2 (k + 1)) ']' ++ l ↔
      cdataEnd <:+: List.replicate k ']' ++ ']' :: l := by
  obtain rfl | rfl | rfl : k = 0 ∨ k = 1 ∨ k = 2 := by omega
  · rfl
  · rfl
  · simp [cdataEnd, List.infix_cons_iff, List.replicate_succ]

/-- Another character ends the brackets. -/
theorem cdataEnd_other {k : ℕ} (hk : k ≤ 2) {l : List Char} (hbr : c ≠ ']')
    (hgt : ¬ (c = '>' ∧ k = 2)) :
    cdataEnd <:+: List.replicate k ']' ++ c :: l ↔ cdataEnd <:+: l := by
  obtain rfl | rfl | rfl : k = 0 ∨ k = 1 ∨ k = 2 := by omega
  all_goals simp_all [cdataEnd, List.infix_cons_iff, List.replicate_succ, eq_comm]

/-- Characters that are literal and do not spell the end of a CDATA section are literal text. -/
theorem exists_scan_iff_of_le {k : ℕ} (hk : k ≤ 2) (l : List Char) :
    (∃ k', scan k l = some k') ↔
      (∀ c ∈ l, isLiteral c = true) ∧ ¬ cdataEnd <:+: List.replicate k ']' ++ l := by
  induction l generalizing k with
  | nil =>
    refine ⟨fun _ => ⟨fun c hc => (List.not_mem_nil hc).elim, fun hin => ?_⟩, fun _ => ⟨k, rfl⟩⟩
    rw [List.append_nil] at hin
    have hgt : '>' ∈ List.replicate k ']' := hin.subset (by decide)
    cases List.eq_of_mem_replicate hgt
  | cons c l ih =>
    rw [scan, List.forall_mem_cons]
    by_cases hlit : isLiteral c = true
    · rw [if_neg (by rw [hlit]; decide)]
      split_ifs with hbr hgt
      · subst hbr
        rw [ih (Nat.min_le_left _ _), cdataEnd_bracket hk]
        simp only [hlit, true_and]
      · obtain ⟨rfl, rfl⟩ := hgt
        have hin : cdataEnd <:+: List.replicate 2 ']' ++ '>' :: l := ⟨[], l, rfl⟩
        simp only [hin, not_true_eq_false, and_false, exists_false]
      · rw [ih (Nat.zero_le _), cdataEnd_other hk hbr hgt, List.replicate_zero, List.nil_append]
        simp only [hlit, true_and]
    · rw [if_pos (eq_false_of_ne_true hlit)]
      simp only [hlit, false_and, reduceCtorEq, exists_false]

theorem exists_scan_iff (l : List Char) :
    (∃ k, scan 0 l = some k) ↔ (∀ c ∈ l, isLiteral c = true) ∧ ¬ cdataEnd <:+: l :=
  exists_scan_iff_of_le (Nat.zero_le _) l

end Xml
