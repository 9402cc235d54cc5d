import TagMarkup.Element.Basic

/-!
# The canonical form of an element

An element without children is printed as one tag, any other as an opening tag, its children and a
closing tag. There is one space in front of each attribute and no other white space. The elements
that can be printed so as to be read again are the well-formed ones.
-/

namespace TagMarkup

namespace Text

/-- A letter followed by letters, digits and hyphens. -/
def IsName (t : Text) : Prop :=
  ∃ u rest, t.toList = u :: rest ∧ u.isLetter = true ∧ ∀ v ∈ rest, CodeUnit.isNameUnit v = true

end Text

namespace Attribute

/-- The name is a name, and the value does not hold a quotation mark. -/
def WellFormed (a : Attribute) : Prop :=
  a.name.IsName ∧ (0x22 : CodeUnit) ∉ a.value.toList

/-- The attribute with one space in front. -/
def print (a : Attribute) : Text :=
  (" " : Text) ++ a.name ++ ("=\"" : Text) ++ a.value ++ ("\"" : Text)

end Attribute

namespace Element

/-- All names are names, and no attribute value holds a quotation mark, at every depth. -/
inductive WellFormed : Element → Prop where
  /-- The element and its attributes are well formed, and so is every child. -/
  | node {name : Text} {attributes : List Attribute} {children : List Element}
      (isName : name.IsName)
      (ofAttribute : ∀ a ∈ attributes, a.WellFormed)
      (ofChild : ∀ c ∈ children, WellFormed c) :
      WellFormed (.node name attributes children)

/-- What both the tag of a childless element and an opening tag start with. -/
def printTagStart (name : Text) (attributes : List Attribute) : Text :=
  ("<" : Text) ++ name ++ Text.join (attributes.map Attribute.print)

mutual

/-- The canonical form of an element. -/
def print : Element → Text
  | node name attributes [] => printTagStart name attributes ++ ("/>" : Text)
  | node name attributes (c :: cs) =>
    printTagStart name attributes ++ (">" : Text) ++ (print c ++ printAll cs) ++ ("</" : Text) ++
      name ++ (">" : Text)

/-- The canonical forms of elements, one after the other. -/
def printAll : List Element → Text
  | [] => .empty
  | c :: cs => print c ++ printAll cs

end

mutual

/-- How many elements lie inside one another at most, the element itself included. -/
def nesting : Element → Nat
  | node _ _ cs => nestingAll cs + 1

/-- The greatest nesting among elements. -/
def nestingAll : List Element → Nat
  | [] => 0
  | c :: cs => max (nesting c) (nestingAll cs)

end

end Element

end TagMarkup
