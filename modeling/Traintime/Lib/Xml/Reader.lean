import Traintime.Lib.Decimal

/-!
# An XML reader

A reader of XML documents without a document type declaration, one character after the other, as a
partial step function on states. It reports start tags, end tags, empty-element tags and the
characters of the content, with references resolved, CDATA sections opened and line ends
normalised. It refuses documents that are not well-formed.

## Main definitions

* `Xml.Event`: what is reported.
* `Xml.Mode`, `Xml.State`: the state of the reader.
* `Xml.step`, `Xml.run`: one character and several.
* `Xml.read`: the events of a document.
-/

namespace Xml

/-- The name of an element or of an attribute, with its prefix. -/
abbrev Name := List Char

/-- The attributes of a tag with their values, in the order of the document. -/
abbrev Attrs := List (Name × List Char)

/-- What the reader reports. -/
inductive Event
  | startTag (name : Name) (attrs : Attrs)
  | emptyTag (name : Name) (attrs : Attrs)
  | endTag (name : Name)
  | char (c : Char)
deriving DecidableEq, Repr

/-- The characters of a document. -/
def isXmlChar (c : Char) : Bool :=
  c == '\t' || c == '\n' || c == '\r' || (0x20 ≤ c.toNat && c.toNat ≤ 0xd7ff) ||
    (0xe000 ≤ c.toNat && c.toNat ≤ 0xfffd) || 0x10000 ≤ c.toNat

/-- The white space of XML. -/
def isSpace (c : Char) : Bool := c == ' ' || c == '\t' || c == '\n' || c == '\r'

/-- The character is in one of the ranges. -/
def inRanges (ranges : List (ℕ × ℕ)) (c : Char) : Bool :=
  ranges.any fun r => r.1 ≤ c.toNat && c.toNat ≤ r.2

/-- The first character of a name. -/
def isNameStart (c : Char) : Bool :=
  c.isAlpha || c == ':' || c == '_' || inRanges [(0xc0, 0xd6), (0xd8, 0xf6), (0xf8, 0x2ff),
    (0x370, 0x37d), (0x37f, 0x1fff), (0x200c, 0x200d), (0x2070, 0x218f), (0x2c00, 0x2fef),
    (0x3001, 0xd7ff), (0xf900, 0xfdcf), (0xfdf0, 0xfffd), (0x10000, 0xeffff)] c

/-- A character of a name. -/
def isNameChar (c : Char) : Bool :=
  isNameStart c || c.isDigit || c == '-' || c == '.' ||
    inRanges [(0xb7, 0xb7), (0x300, 0x36f), (0x203f, 0x2040)] c

/-- The value of a hexadecimal digit. -/
def hexDigit (c : Char) : Option ℕ :=
  if c.isDigit then some (c.toNat - 0x30)
  else if 'a' ≤ c ∧ c ≤ 'f' then some (c.toNat - 0x61 + 10)
  else if 'A' ≤ c ∧ c ≤ 'F' then some (c.toNat - 0x41 + 10)
  else none

/-- The number that hexadecimal digits denote. -/
def parseHex (l : List Char) : Option ℕ :=
  if l = [] then none else l.foldlM (fun n c => (hexDigit c).map (16 * n + ·)) 0

/-- The character that a reference stands for, given by what is between `&` and `;`. -/
def reference (l : List Char) : Option Char :=
  match l with
  | ['l', 't'] => some '<'
  | ['g', 't'] => some '>'
  | ['a', 'm', 'p'] => some '&'
  | ['a', 'p', 'o', 's'] => some '\''
  | ['q', 'u', 'o', 't'] => some '"'
  | '#' :: 'x' :: l => charOf (parseHex l)
  | '#' :: l => charOf (Decimal.parse l)
  | _ => none
where
  /-- The character of a number, if a document may have it. -/
  charOf (n : Option ℕ) : Option Char :=
    (n.bind fun n => if n.isValidChar then some (Char.ofNat n) else none).filter isXmlChar

/-- Where the reader is. -/
inductive Mode
  /-- Before the first character. -/
  | start
  /-- In content, after so many closing brackets, two of them at most counted. -/
  | text (brackets : ℕ)
  /-- After `&` in content. -/
  | ref (acc : List Char)
  /-- After `<`, at the start of the document or not. -/
  | lt (first : Bool)
  /-- After `<!`. -/
  | bang (acc : List Char)
  /-- In a comment, after so many dashes. -/
  | comment (dashes : ℕ)
  /-- In a CDATA section, after so many closing brackets. -/
  | cdata (brackets : ℕ)
  | piTarget (first : Bool) (acc : List Char)
  /-- In a processing instruction, after a question mark or not. -/
  | piBody (question : Bool)
  | openName (acc : Name)
  /-- In a start tag after its name or an attribute, and after a space or not. -/
  | inTag (name : Name) (attrs : Attrs) (space : Bool)
  | attrName (name : Name) (attrs : Attrs) (acc : Name)
  /-- Before the equals sign. -/
  | attrEq (name : Name) (attrs : Attrs) (attr : Name)
  /-- Before the opening quote. -/
  | attrOpen (name : Name) (attrs : Attrs) (attr : Name)
  | attrValue (name : Name) (attrs : Attrs) (attr : Name) (quote : Char) (acc : List Char)
  | attrRef (name : Name) (attrs : Attrs) (attr : Name) (quote : Char) (acc ref : List Char)
  /-- After the slash of an empty-element tag. -/
  | slash (name : Name) (attrs : Attrs)
  | closeName (acc : Name)
  | closeSpace (name : Name)
deriving DecidableEq, Repr

/-- In content. -/
def Mode.isText : Mode → Bool
  | .text _ => true
  | _ => false

/-- The state of the reader. -/
structure State where
  /-- The last character was a carriage return. -/
  cr : Bool
  mode : Mode
  /-- The elements that are open, innermost first. -/
  stack : List Name
  /-- The root element has begun. -/
  seenRoot : Bool
  events : List Event
deriving DecidableEq, Repr

/-- The reader before the first character of a document. -/
def State.init : State := ⟨false, .start, [], false, []⟩

namespace State

/-- The reader goes on in another mode and reports nothing. -/
def goto (s : State) (mode : Mode) : State := { s with mode }

/-- Characters of the content. -/
def emit (s : State) (cs : List Char) (mode : Mode) : State :=
  { s with mode, events := s.events ++ cs.map .char }

/-- The end of a start tag. Only one element is the root. -/
def openElement (s : State) (name : Name) (attrs : Attrs) : Option State :=
  if s.stack = [] ∧ s.seenRoot = true then none
  else some { s with
    mode := .text 0
    stack := name :: s.stack
    seenRoot := true
    events := s.events ++ [.startTag name attrs] }

/-- The end of an empty-element tag. -/
def emptyElement (s : State) (name : Name) (attrs : Attrs) : Option State :=
  if s.stack = [] ∧ s.seenRoot = true then none
  else some { s with
    mode := .text 0
    seenRoot := true
    events := s.events ++ [.emptyTag name attrs] }

/-- The end of an end tag, which is that of the innermost open element. -/
def closeElement (s : State) (name : Name) : Option State :=
  match s.stack with
  | top :: stack =>
    if name = top then some { s with
      mode := .text 0
      stack
      events := s.events ++ [.endTag name] }
    else none
  | [] => none

end State

/-- One character of content. -/
def stepText (s : State) (k : ℕ) (c : Char) : Option State :=
  if c = '<' then some (s.goto (.lt false))
  else if s.stack = [] then if isSpace c then some (s.goto (.text 0)) else none
  else if c = '&' then some (s.goto (.ref []))
  else if c = ']' then some (s.emit [c] (.text (min 2 (k + 1))))
  else if c = '>' ∧ k = 2 then none
  else some (s.emit [c] (.text 0))

/-- One character after `<!`. -/
def stepBang (s : State) (acc : List Char) : Option State :=
  if acc = ['-', '-'] then some (s.goto (.comment 0))
  else if acc = "[CDATA[".toList then if s.stack = [] then none else some (s.goto (.cdata 0))
  else if acc.isPrefixOf ['-', '-'] || acc.isPrefixOf "[CDATA[".toList then some (s.goto (.bang acc))
  else none

/-- Names are compared letter by letter. -/
local instance lawfulBEq_name : LawfulBEq Name := inferInstance

/-- One character with the line ends normalised. -/
def stepMode (s : State) (c : Char) : Option State :=
  match s.mode with
  | .start => if c = '<' then some (s.goto (.lt true)) else stepText s 0 c
  | .text k => stepText s k c
  | .ref acc =>
    if c = ';' then (reference acc).map fun d => s.emit [d] (.text 0)
    else if isNameChar c || c == '#' then some (s.goto (.ref (acc ++ [c])))
    else none
  | .lt first =>
    if isNameStart c then some (s.goto (.openName [c]))
    else if c = '/' then some (s.goto (.closeName []))
    else if c = '!' then some (s.goto (.bang []))
    else if c = '?' then some (s.goto (.piTarget first []))
    else none
  | .bang acc => stepBang s (acc ++ [c])
  | .comment d =>
    if d = 2 then if c = '>' then some (s.goto (.text 0)) else none
    else some (s.goto (.comment (if c = '-' then d + 1 else 0)))
  | .cdata k =>
    if c = ']' then some (s.goto (.cdata (k + 1)))
    else if c = '>' ∧ 2 ≤ k then some (s.emit (List.replicate (k - 2) ']') (.text 0))
    else some (s.emit (List.replicate k ']' ++ [c]) (.cdata 0))
  | .piTarget first acc =>
    if (if acc = [] then isNameStart c else isNameChar c) then
      some (s.goto (.piTarget first (acc ++ [c])))
    else if acc = [] ∨ first = false ∧ acc.map Char.toLower = ['x', 'm', 'l'] then none
    else if isSpace c then some (s.goto (.piBody false))
    else if c = '?' then some (s.goto (.piBody true))
    else none
  | .piBody question =>
    if question = true ∧ c = '>' then some (s.goto (.text 0))
    else some (s.goto (.piBody (c == '?')))
  | .openName acc =>
    if isNameChar c then some (s.goto (.openName (acc ++ [c])))
    else if isSpace c then some (s.goto (.inTag acc [] true))
    else if c = '>' then s.openElement acc []
    else if c = '/' then some (s.goto (.slash acc []))
    else none
  | .inTag name attrs space =>
    if isSpace c then some (s.goto (.inTag name attrs true))
    else if c = '>' then s.openElement name attrs
    else if c = '/' then some (s.goto (.slash name attrs))
    else if isNameStart c ∧ space = true then some (s.goto (.attrName name attrs [c]))
    else none
  | .attrName name attrs acc =>
    if isNameChar c then some (s.goto (.attrName name attrs (acc ++ [c])))
    else if c = '=' then some (s.goto (.attrOpen name attrs acc))
    else if isSpace c then some (s.goto (.attrEq name attrs acc))
    else none
  | .attrEq name attrs attr =>
    if isSpace c then some s
    else if c = '=' then some (s.goto (.attrOpen name attrs attr))
    else none
  | .attrOpen name attrs attr =>
    if isSpace c then some s
    else if c = '"' ∨ c = '\'' then some (s.goto (.attrValue name attrs attr c []))
    else none
  | .attrValue name attrs attr quote acc =>
    if c = quote then
      if attr ∈ attrs.map Prod.fst then none
      else some (s.goto (.inTag name (attrs ++ [(attr, acc)]) false))
    else if c = '<' then none
    else if c = '&' then some (s.goto (.attrRef name attrs attr quote acc []))
    else some (s.goto (.attrValue name attrs attr quote (acc ++ [if isSpace c then ' ' else c])))
  | .attrRef name attrs attr quote acc ref =>
    if c = ';' then
      (reference ref).map fun d => s.goto (.attrValue name attrs attr quote (acc ++ [d]))
    else if isNameChar c || c == '#' then
      some (s.goto (.attrRef name attrs attr quote acc (ref ++ [c])))
    else none
  | .slash name attrs => if c = '>' then s.emptyElement name attrs else none
  | .closeName acc =>
    if (if acc = [] then isNameStart c else isNameChar c) then
      some (s.goto (.closeName (acc ++ [c])))
    else if acc = [] then none
    else if isSpace c then some (s.goto (.closeSpace acc))
    else if c = '>' then s.closeElement acc
    else none
  | .closeSpace name =>
    if isSpace c then some s else if c = '>' then s.closeElement name else none

/-- One character. A carriage return, alone or with a newline after it, is a newline. -/
def step (s : State) (c : Char) : Option State :=
  if isXmlChar c then
    if s.cr = true ∧ c = '\n' then some { s with cr := false }
    else
      stepMode { s with cr := c == '\r' } (if c = '\r' then '\n' else c)
  else none

/-- Several characters. -/
def run (s : State) (l : List Char) : Option State := l.foldlM step s

/-- The events of a document. -/
def read (doc : String) : Option (List Event) :=
  match run State.init doc.toList with
  | some s => if s.mode.isText ∧ s.stack = [] ∧ s.seenRoot then some s.events else none
  | none => none

end Xml
