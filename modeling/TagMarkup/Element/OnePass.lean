import TagMarkup.Element.Parser

/-!
# Elements in one pass

The rule for elements tries the element of one tag first and the parent element second, and so
reads the start of every opening tag twice. The rule of this module reads it once and then looks
at what ends the tag.
-/

namespace TagMarkup

namespace Element

variable {R : Type} {ρ : R → Type}

/-- Reads what follows the start of a tag: the end of a single element, or the end of the opening
tag, child elements and the closing tag. -/
def afterTagStart (self : Parser ρ Element) (start : Text × List Attribute) : Parser ρ Element :=
  ((Parser.literal "/>").map fun _ => ofTagStart start).orElse
    (((Parser.literal ">").seqRight (self.many.seqLeft (closeTag start.1))).map
      (ofTagStart start).withChildren)

/-- Reads an element with white space around it, the start of its tag only once. -/
def elementOnePass (self : Parser ρ Element) : Parser ρ Element :=
  (tagStart.bind (afterTagStart self)).spaced

/-- The grammar with the rule for elements in one pass alone. -/
def onePassGrammar : Grammar Values :=
  fun _ => elementOnePass (.rule ())

end Element

end TagMarkup
