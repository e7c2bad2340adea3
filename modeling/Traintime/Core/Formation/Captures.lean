import Mathlib.Data.Bool.AllAny
import Traintime.Core.Formation.ShortString

/-!
# The pattern of a vehicle

What the pattern of a vehicle captures: its groups make up the text, and the text tells what the
vehicle is.

## Main definitions

* `Formation.Captures.Valid`, `Formation.Captures.text`: the groups that there are, and their text.

## Main results

* `Formation.of_full_tokenRe`, `Formation.isSome_full_tokenRe`: the texts that the pattern matches.
* `Formation.Captures.vehicle_eq`: the text of the groups tells what the vehicle is.
-/

namespace Traintime.Formation

/-! ### The groups of a match -/

namespace Captures

/-- The groups are as the pattern has them. -/
structure Valid (d : DigitClass) (c : Captures) : Prop where
  outer : ∀ a ∈ c.outer, a = ['(']
  status : ∀ ch ∈ c.status, isStatus ch = true
  inner : ∀ a ∈ c.inner, a = ['(']
  kind : c.kind ∈ types
  close : ∀ a ∈ c.close, a = [')']
  number : ∀ n ∈ c.number, (∀ ch ∈ n, d.isDigit ch = true) ∧ n ≠ []
  offers : ∀ o ∈ c.offers, (∀ ch ∈ o, isOffer ch = true) ∧ o ≠ []

/-- The text of the number group, the colon in front of the number included. It is empty if there is
no number. -/
def numberText (c : Captures) : List Char := (c.number.map (':' :: ·)).getD []

/-- The text of the offers group with the sign in front of them. It is empty if there are no offers.
-/
def offersText (c : Captures) : List Char := (c.offers.map ('#' :: ·)).getD []

/-- The text that the groups are read from. -/
def text (c : Captures) : List Char :=
  c.outer.getD [] ++ (c.status ++ (c.inner.getD [] ++ (c.kind ++ (c.close.getD [] ++
    (c.numberText ++ c.offersText)))))

end Captures

theorem reads_groups (d : DigitClass) : (groups d).Reads
    (fun g => (∀ a ∈ g.1, a = ['(']) ∧ (∀ ch ∈ g.2.1, isStatus ch = true) ∧
      (∀ a ∈ g.2.2.1, a = ['(']) ∧ g.2.2.2.1 ∈ types ∧ (∀ a ∈ g.2.2.2.2.1, a = [')']) ∧
      (∀ n ∈ g.2.2.2.2.2.1, n.1 = [':'] ∧ (∀ ch ∈ n.2, d.isDigit ch = true) ∧ n.2 ≠ []) ∧
      ∀ o ∈ g.2.2.2.2.2.2, o.1 = ['#'] ∧ (∀ ch ∈ o.2, isOffer ch = true) ∧ o.2 ≠ [])
    (fun g => (g.1.map id).getD [] ++ (g.2.1 ++ ((g.2.2.1.map id).getD [] ++ (g.2.2.2.1 ++
      ((g.2.2.2.2.1.map id).getD [] ++ ((g.2.2.2.2.2.1.map fun n => n.1 ++ n.2).getD [] ++
        (g.2.2.2.2.2.2.map fun o => o.1 ++ o.2).getD [])))))) :=
  (Pattern.reads_word ['(']).opt.seq <|
  (Pattern.reads_many isStatus).seq <|
  (Pattern.reads_word ['(']).opt.seq <|
  (Pattern.reads_oneOf types).seq <|
  (Pattern.reads_word [')']).opt.seq <|
  ((Pattern.reads_word [':']).seq (Pattern.reads_many1 d.isDigit)).opt.seq
  ((Pattern.reads_word ['#']).seq (Pattern.reads_many1 isOffer)).opt

theorem of_full_tokenRe {d : DigitClass} {s : List Char} {c : Captures}
    (h : (tokenRe d).full s = some c) : c.Valid d ∧ s = c.text := by
  rw [tokenRe, Pattern.full_map, Option.map_eq_some_iff] at h
  obtain ⟨⟨outer, status, inner, kind, close, number, offers⟩, hfull, rfl⟩ := h
  obtain ⟨⟨houter, hstatus, hinner, hkind, hclose, hnumber, hoffers⟩, rfl⟩ :=
    (reads_groups d).of_full hfull
  refine ⟨⟨houter, hstatus, hinner, hkind, hclose, ?_, ?_⟩, ?_⟩
  · intro n hn
    obtain ⟨g, hg, rfl⟩ := Option.map_eq_some_iff.mp hn
    exact (hnumber g hg).2
  · intro o ho
    obtain ⟨g, hg, rfl⟩ := Option.map_eq_some_iff.mp ho
    exact (hoffers g hg).2
  · have hnumberText : (number.map fun n => n.1 ++ n.2).getD [] =
        ((number.map Prod.snd).map (':' :: ·)).getD [] := by
      cases number with
      | none => rfl
      | some g => simp [(hnumber g rfl).1]
    have hoffersText : (offers.map fun n => n.1 ++ n.2).getD [] =
        ((offers.map Prod.snd).map ('#' :: ·)).getD [] := by
      cases offers with
      | none => rfl
      | some g => simp [(hoffers g rfl).1]
    simp only [Captures.text, Captures.numberText, Captures.offersText, hnumberText, hoffersText,
      Option.map_id, id]

theorem isSome_full_tokenRe {d : DigitClass} {c : Captures} (hc : c.Valid d) :
    ((tokenRe d).full c.text).isSome = true := by
  have hsome := (reads_groups d).isSome_full (a := (c.outer, c.status, c.inner, c.kind, c.close,
    c.number.map ([':'], ·), c.offers.map (['#'], ·)))
    ⟨hc.outer, hc.status, hc.inner, hc.kind, hc.close, ?_, ?_⟩
  · rw [tokenRe, Pattern.full_map, Option.isSome_map]
    convert hsome using 3
    simp only [Captures.text, Captures.numberText, Captures.offersText, Option.map_id, id,
      Option.map_map]
    rfl
  · intro n hn
    obtain ⟨n', hn', rfl⟩ := Option.map_eq_some_iff.mp hn
    exact ⟨rfl, hc.number n' hn'⟩
  · intro o ho
    obtain ⟨o', ho', rfl⟩ := Option.map_eq_some_iff.mp ho
    exact ⟨rfl, hc.offers o' ho'⟩

/-- A text is split where the characters of a class end. -/
theorem splitWhile_append {p : Char → Bool} {a b : List Char} (ha : ∀ c ∈ a, p c = true)
    (hb : ∀ c ∈ b.head?, p c = false) :
    (a ++ b).takeWhile p = a ∧ (a ++ b).dropWhile p = b := by
  rw [List.takeWhile_append_of_pos ha, List.dropWhile_append_of_pos ha]
  cases b with
  | nil => exact ⟨List.append_nil a, rfl⟩
  | cons c b =>
    have hc := hb c rfl
    rw [List.takeWhile_cons_of_neg (by simp [hc]), List.dropWhile_cons_of_neg (by simp [hc])]
    exact ⟨List.append_nil a, rfl⟩

namespace Captures

/-- The characters in front of the type. -/
def isFront (c : Char) : Bool := c = '(' || isStatus c

/-- The text in front of the type: the parenthesis outside of the status, the status, and the
parenthesis behind it. -/
def front (c : Captures) : List Char := c.outer.getD [] ++ (c.status ++ c.inner.getD [])

/-- The text behind the type: the closing parenthesis, the number and the offers, each as far as it
is there. -/
def tail (c : Captures) : List Char := c.close.getD [] ++ (c.numberText ++ c.offersText)

theorem text_eq (c : Captures) : c.text = c.front ++ (c.kind ++ c.tail) := by
  simp only [text, front, tail, List.append_assoc]

theorem eq_of_mem_getD {o : Option (List Char)} {ch x : Char} (h : ∀ a ∈ o, a = [x])
    (hch : ch ∈ o.getD []) : ch = x := by
  cases o with
  | none => exact absurd hch List.not_mem_nil
  | some a =>
    rw [Option.getD_some, h a rfl] at hch
    exact List.mem_singleton.mp hch

theorem mem_getD_iff {o : Option (List Char)} {x : Char} (h : ∀ a ∈ o, a = [x]) :
    x ∈ o.getD [] ↔ o.isSome = true := by
  cases o with
  | none => simp
  | some a => simp [h a rfl]

theorem isAlphanum_types : ∀ k ∈ types, k ≠ [] ∧ k.all Char.isAlphanum = true :=
  List.all_iff_forall_prop.mp (by decide)

theorem isFront_eq_false {ch : Char} (h : ch.isAlphanum = true) : isFront ch = false := by
  rw [isFront, isStatus, Bool.or_eq_false_iff, decide_eq_false_iff_not, decide_eq_false_iff_not]
  constructor
  · rintro rfl
    exact absurd h (by decide)
  · rintro (rfl | rfl | rfl | rfl) <;> exact absurd h (by decide)

theorem head?_numberText_append (c : Captures) :
    ∀ ch ∈ (c.numberText ++ c.offersText).head?, ch = ':' ∨ ch = '#' := by
  intro ch hch
  rw [numberText, offersText] at hch
  cases hnumber : c.number with
  | some n =>
    rw [hnumber] at hch
    exact .inl (Option.some_inj.mp hch).symm
  | none =>
    cases hoffers : c.offers with
    | some o =>
      rw [hnumber, hoffers] at hch
      exact .inr (Option.some_inj.mp hch).symm
    | none =>
      rw [hnumber, hoffers] at hch
      cases hch

/-- A group in front of a fixed character is read from its text. -/
theorem eq_of_getD_cons_eq {x : Char} {o o' : Option (List Char)}
    (h : (o.map (x :: ·)).getD [] = (o'.map (x :: ·)).getD []) : o = o' := by
  cases o <;> cases o' <;> simp_all

namespace Valid

variable {d : DigitClass} {c : Captures} (hc : c.Valid d)

include hc

theorem isFront_of_mem_front : ∀ ch ∈ c.front, isFront ch = true := by
  intro ch hch
  rcases List.mem_append.mp hch with h | h
  · rw [eq_of_mem_getD hc.outer h]
    rfl
  rcases List.mem_append.mp h with h | h
  · rw [isFront, hc.status ch h, Bool.or_true]
  · rw [eq_of_mem_getD hc.inner h]
    rfl

theorem isAlphanum_of_mem_kind : ∀ ch ∈ c.kind, ch.isAlphanum = true :=
  List.all_eq_true.mp (isAlphanum_types c.kind hc.kind).2

theorem front_eq :
    c.text.takeWhile isFront = c.front ∧ c.text.dropWhile isFront = c.kind ++ c.tail := by
  rw [text_eq]
  refine splitWhile_append hc.isFront_of_mem_front fun ch hch => ?_
  obtain ⟨k, ks, hk⟩ := List.exists_cons_of_ne_nil (isAlphanum_types c.kind hc.kind).1
  rw [hk, List.cons_append, List.head?_cons, Option.mem_some_iff] at hch
  refine isFront_eq_false (hc.isAlphanum_of_mem_kind ch ?_)
  rw [hk, hch]
  exact List.mem_cons_self

theorem head?_tail : ∀ ch ∈ c.tail.head?, ch = ')' ∨ ch = ':' ∨ ch = '#' := by
  intro ch hch
  rw [tail] at hch
  cases hclose : c.close with
  | none =>
    rw [hclose] at hch
    exact .inr (head?_numberText_append c ch hch)
  | some a =>
    rw [hclose, Option.getD_some, hc.close a hclose] at hch
    exact .inl (Option.some_inj.mp hch).symm

theorem kind_eq : (c.kind ++ c.tail).takeWhile Char.isAlphanum = c.kind ∧
    (c.kind ++ c.tail).dropWhile Char.isAlphanum = c.tail := by
  refine splitWhile_append hc.isAlphanum_of_mem_kind fun ch hch => ?_
  rcases hc.head?_tail ch hch with rfl | rfl | rfl <;> rfl

theorem close_eq : c.tail.takeWhile (· = ')') = c.close.getD [] ∧
    c.tail.dropWhile (· = ')') = c.numberText ++ c.offersText := by
  refine splitWhile_append (fun ch hch => ?_) fun ch hch => ?_
  · rw [eq_of_mem_getD hc.close hch]
    rfl
  · rcases head?_numberText_append c ch hch with rfl | rfl <;> rfl

theorem numberText_eq : (c.numberText ++ c.offersText).takeWhile (· ≠ '#') = c.numberText ∧
    (c.numberText ++ c.offersText).dropWhile (· ≠ '#') = c.offersText := by
  refine splitWhile_append (fun ch hch => ?_) fun ch hch => ?_
  · rw [decide_eq_true_eq]
    rintro rfl
    rw [numberText] at hch
    cases hnumber : c.number with
    | none =>
      rw [hnumber] at hch
      cases hch
    | some n =>
      rw [hnumber] at hch
      rcases List.mem_cons.mp hch with h | h
      · exact absurd h (by decide)
      · have hdigit := (hc.number n hnumber).1 '#' h
        rw [d.ascii '#' (by decide)] at hdigit
        exact absurd hdigit (by decide)
  · rw [offersText] at hch
    cases hoffers : c.offers with
    | none =>
      rw [hoffers] at hch
      cases hch
    | some o =>
      rw [hoffers] at hch
      rw [← Option.some_inj.mp hch]
      rfl

theorem opens_iff : '(' ∈ c.front ↔ (c.outer.isSome || c.inner.isSome) = true := by
  have hstatus : '(' ∉ c.status := fun h => absurd (hc.status _ h) (by decide)
  rw [front, List.mem_append, List.mem_append, or_iff_right hstatus, mem_getD_iff hc.outer,
    mem_getD_iff hc.inner, Bool.or_eq_true]

theorem status_eq : c.front.filter (· ≠ '(') = c.status := by
  have hgroup : ∀ o : Option (List Char), (∀ a ∈ o, a = ['(']) →
      (o.getD []).filter (· ≠ '(') = [] := by
    intro o ho
    cases o with
    | none => rfl
    | some a =>
      rw [ho a rfl]
      rfl
  have hstatus : c.status.filter (· ≠ '(') = c.status := by
    refine List.filter_eq_self.mpr fun ch hch => decide_eq_true ?_
    rintro rfl
    exact absurd (hc.status _ hch) (by decide)
  rw [front, List.filter_append, List.filter_append, hgroup _ hc.outer, hgroup _ hc.inner, hstatus,
    List.nil_append, List.append_nil]

end Valid

/-- The text of the groups tells what the vehicle is. -/
theorem vehicle_eq {d : DigitClass} {c c' : Captures} (hc : c.Valid d) (hc' : c'.Valid d)
    (h : c.text = c'.text) (sector : List Char) : c.vehicle sector = c'.vehicle sector := by
  have hfront : c.front = c'.front := by rw [← hc.front_eq.1, ← hc'.front_eq.1, h]
  have hrest : c.kind ++ c.tail = c'.kind ++ c'.tail := by
    rw [← hc.front_eq.2, ← hc'.front_eq.2, h]
  have hkind : c.kind = c'.kind := by rw [← hc.kind_eq.1, ← hc'.kind_eq.1, hrest]
  have htail : c.tail = c'.tail := by rw [← hc.kind_eq.2, ← hc'.kind_eq.2, hrest]
  have hclose : c.close.getD [] = c'.close.getD [] := by
    rw [← hc.close_eq.1, ← hc'.close_eq.1, htail]
  have htail' : c.numberText ++ c.offersText = c'.numberText ++ c'.offersText := by
    rw [← hc.close_eq.2, ← hc'.close_eq.2, htail]
  have hnumber : c.number = c'.number := by
    refine eq_of_getD_cons_eq (x := ':') ?_
    rw [← numberText, ← numberText, ← hc.numberText_eq.1, ← hc'.numberText_eq.1, htail']
  have hoffers : c.offers = c'.offers := by
    refine eq_of_getD_cons_eq (x := '#') ?_
    rw [← offersText, ← offersText, ← hc.numberText_eq.2, ← hc'.numberText_eq.2, htail']
  have hstatus : c.status = c'.status := by rw [← hc.status_eq, ← hc'.status_eq, hfront]
  have hopens : (c.outer.isSome || c.inner.isSome) = (c'.outer.isSome || c'.inner.isSome) := by
    rw [Bool.eq_iff_iff, ← hc.opens_iff, ← hc'.opens_iff, hfront]
  have hcloses : c.close.isSome = c'.close.isSome := by
    rw [Bool.eq_iff_iff, ← mem_getD_iff hc.close, ← mem_getD_iff hc'.close, hclose]
  rw [vehicle, vehicle, hkind, hnumber, hopens, hcloses, hstatus, hoffers]

end Captures

end Traintime.Formation
