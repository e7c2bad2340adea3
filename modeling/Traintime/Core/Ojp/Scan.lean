import Traintime.Lib.Regex
import Mathlib.Data.List.DropRight

/-!
# Reading a response with patterns

The functions of `core/src/ojp.rs` that take values out of a response: `xml_text`, `xml_blocks` and
`xml_lang_text`. The cache of compiled patterns is left out; every pattern compiles.

## Main definitions

* `xmlText`, `xmlBlocks`, `xmlLangText`: the functions of the source.
* `tagName`, `openTag`, `closeTag`, `leaf`: the parts of their patterns.
-/

namespace Traintime.Ojp

open Regex

/-! ### Patterns -/

/-- `(?:[a-z]+:)?{tag}`, the name of a tag with a prefix or without one. -/
def tagName (ci : Bool) (tag : List Char) : Regex :=
  cat (opt (cat (many1 (isLower ci)) (char ':'))) (text ci tag)

/-- `<{name}[^>]*>`, which goes on after the name with anything up to the next `>`. -/
def openTag (name : Regex) : Regex := cat (char '<') (cat name (cat (many (· != '>')) (char '>')))

/-- `</{name}>`, which ends right after the name. -/
def closeTag (name : Regex) : Regex := cat (char '<') (cat (char '/') (cat name (char '>')))

/-- `<{name}[^>]*>([^<]*)</{name}>`, a start tag, a text without tags, and an end tag. -/
def leafTag (name : Regex) : Regex :=
  cat (openTag name) (cat (group (many (· != '<'))) (closeTag name))

/-! ### The functions of the source -/

/-- The characters that `trim` removes. -/
def isWhitespace (c : Char) : Bool :=
  (9 ≤ c.toNat && c.toNat ≤ 13) || c.toNat == 0x20 || c.toNat == 0x85 || c.toNat == 0xA0 ||
    c.toNat == 0x1680 || (0x2000 ≤ c.toNat && c.toNat ≤ 0x200A) || c.toNat == 0x2028 ||
    c.toNat == 0x2029 || c.toNat == 0x202F || c.toNat == 0x205F || c.toNat == 0x3000

/-- `str::trim`, without the white space of Unicode at both ends. -/
def trim (s : List Char) : List Char := (s.dropWhile isWhitespace).rdropWhile isWhitespace

/-- The text of the first leaf with the tag. -/
def xmlText (xml : List Char) (tag : String) : Option (List Char) :=
  ((leafTag (tagName false tag.toList)).find xml).bind fun cap => cap.groups.head?.map trim

/-- Every place where the tag opens, up to where it is closed next. -/
def xmlBlocks (xml : List Char) (tag : String) : List (List Char) :=
  ((openTag (tagName true tag.toList)).findIter xml).filterMap fun openMatch =>
    ((closeTag (tagName true tag.toList)).find openMatch.stop).map fun closeMatch =>
      slice openMatch.start closeMatch.stop

/-- `xml_lang_text`: the trimmed text of the first `Text` in a block. -/
def xmlLangText (xml : List Char) : Option (List Char) :=
  ((leafTag (text true "Text".toList)).find xml).bind fun cap => cap.groups.head?.map trim

example : xmlText "<a:Ref>  7 </a:Ref>".toList "Ref" = some ['7'] := by decide +kernel

/-- The open pattern takes longer names too. -/
example : xmlBlocks "<Bc/><B>x</b>".toList "B" =
    ["<Bc/><B>x</b>".toList, "<B>x</b>".toList] := by decide +kernel

/-! ### Trimming -/

/-- White space around a text whose ends are none is removed. -/
theorem trim_append {s w w' : List Char} (hfirst : ∀ c ∈ s.head?, isWhitespace c = false)
    (hlast : ∀ c ∈ s.getLast?, isWhitespace c = false) (hw : ∀ c ∈ w, isWhitespace c = true)
    (hw' : ∀ c ∈ w', isWhitespace c = true) : trim (w ++ s ++ w') = s := by
  rw [trim, List.rdropWhile, List.append_assoc, List.dropWhile_append_of_pos hw]
  have hdrop : (s ++ w').dropWhile isWhitespace = s ++ if s = [] then [] else w' := by
    cases s with
    | nil => simpa using hw'
    | cons c s => simp [hfirst c rfl]
  rw [hdrop]
  rcases s.eq_nil_or_concat' with rfl | ⟨t, c, rfl⟩
  · rfl
  · have hrev : ∀ d ∈ w'.reverse, isWhitespace d = true := fun d hd => hw' d (List.mem_reverse.mp hd)
    rw [if_neg (by simp), List.reverse_append, List.dropWhile_append_of_pos hrev,
      List.reverse_append, List.reverse_singleton, List.singleton_append,
      List.dropWhile_cons_of_neg (by simp [hlast c (by simp)])]
    simp

/-- A text whose ends are no white space is not trimmed. -/
theorem trim_eq_self {s : List Char} (hfirst : ∀ c ∈ s.head?, isWhitespace c = false)
    (hlast : ∀ c ∈ s.getLast?, isWhitespace c = false) : trim s = s := by
  have hnil : ∀ c ∈ ([] : List Char), isWhitespace c = true := fun _ hc =>
    absurd hc List.not_mem_nil
  simpa using trim_append hfirst hlast hnil hnil

theorem head?_trim {s : List Char} : ∀ c ∈ (trim s).head?, isWhitespace c = false := by
  intro c hc
  obtain ⟨t, ht⟩ := List.rdropWhile_prefix isWhitespace (s.dropWhile isWhitespace)
  have hhead : (s.dropWhile isWhitespace).head? = some c := by
    rw [← ht, List.head?_append, ← trim, Option.mem_def.1 hc, Option.some_or]
  have hnot := List.head?_dropWhile_not isWhitespace s
  rwa [hhead] at hnot

theorem getLast?_trim {s : List Char} : ∀ c ∈ (trim s).getLast?, isWhitespace c = false := by
  intro c hc
  have hne : trim s ≠ [] := by
    intro hnil
    simp [hnil] at hc
  have hlast := List.rdropWhile_last_not isWhitespace (s.dropWhile isWhitespace) hne
  rw [List.getLast?_eq_some_getLast hne, Option.mem_some_iff] at hc
  rw [← hc]
  simpa [trim] using hlast

theorem trim_subset (s : List Char) : trim s ⊆ s :=
  fun _ hc => (List.dropWhile_suffix _).subset ((List.rdropWhile_prefix _ _).subset hc)

end Traintime.Ojp
