import TagMarkup.Element.Basic
import TagMarkup.Parser.Run

/-!
# The grammar of elements

```
element        = white space, (single element | parent element), white space
single element = "<", name, attributes, "/>"
parent element = "<", name, attributes, ">", element*, "</", the same name, ">"
attributes     = (white space, attribute)*
attribute      = name, "=", quoted text
quoted text    = quotation mark, anything but a quotation mark, quotation mark
```

There is no text between tags, and there are no comments, entities or name spaces.

## Implementation notes

The parsers are stated for any grammar that has a rule for elements, given as `self`, so that a
larger grammar can contain them. `Element.grammar` is the grammar with that rule alone.
-/

namespace TagMarkup

namespace Element

variable {R : Type} {ρ : R → Type}

/-- Reads the text between two quotation marks; nothing is escaped. -/
def quotedText : Parser ρ Text :=
  ((Parser.literal "\"").seqRight
    ((Parser.character.satisfying fun c => c != "\"").many.seqLeft (.literal "\""))).map Text.join

/-- Reads a name, an equals sign and a quoted text. -/
def attributeItem : Parser ρ Attribute :=
  (Parser.name.seq ((Parser.literal "=").seqRight quotedText)).map fun (n, v) => ⟨n, v⟩

/-- Reads attributes with white space in front of each. -/
def attributeList : Parser ρ (List Attribute) :=
  (Parser.spaces1.seqRight attributeItem).many

/-- Reads the start of a tag, up to what ends it. -/
def tagStart : Parser ρ (Text × List Attribute) :=
  (Parser.literal "<").seqRight (Parser.name.seq attributeList)

/-- The element without children that the start of a tag describes. -/
def ofTagStart (start : Text × List Attribute) : Element :=
  node start.1 start.2 []

/-- Reads an element that consists of one tag. -/
def singleElement : Parser ρ Element :=
  (tagStart.seqLeft (.literal "/>")).map ofTagStart

/-- Reads an opening tag. -/
def openTag : Parser ρ Element :=
  (tagStart.seqLeft (.literal ">")).map ofTagStart

/-- Reads the closing tag of a given name. Whatever else stands there, the failure is at the start
of the tag. -/
def closeTag (expected : Text) : Parser ρ Text :=
  (((Parser.literal "</").seqRight (Parser.name.seqLeft (.literal ">"))).satisfying
    fun n => n == expected).attempt

/-- Reads an opening tag, child elements and the closing tag of the same name. -/
def parentElement (self : Parser ρ Element) : Parser ρ Element :=
  openTag.bind fun opened => (self.many.seqLeft (closeTag opened.name)).map opened.withChildren

/-- Reads an element with white space around it. -/
def element (self : Parser ρ Element) : Parser ρ Element :=
  (singleElement.orElse (parentElement self)).spaced

/-- The one rule of `Element.grammar`. -/
abbrev Values : Unit → Type := fun _ => Element

/-- The grammar with the rule for elements alone. -/
def grammar : Grammar Values :=
  fun _ => element (.rule ())

/-- Reads an element, which counts as the first activation of the rule for elements. -/
def root : Parser Values Element :=
  .rule ()

/-- Reads an element from an offset with at most `limit` elements open at once. -/
def read (limit : Nat) (text : Text) (p : Int) : Except Fault (Result Element) :=
  grammar.run limit root text p

end Element

end TagMarkup
