import TagMarkup.Text.Character

/-!
# Elements

The tree that a text in the markup describes. Attributes keep their order and may repeat a name;
children keep their order.
-/

namespace TagMarkup

/-- An attribute of an element. -/
@[ext]
structure Attribute where
  /-- The name in front of the equals sign. -/
  name : Text
  /-- The text between the quotation marks. -/
  value : Text
deriving DecidableEq

/-- An element with its attributes and its child elements. -/
inductive Element where
  /-- The element with the given name, attributes and children. -/
  | node (name : Text) (attributes : List Attribute) (children : List Element)

namespace Element

/-- The name of an element. -/
def name : Element → Text
  | node n _ _ => n

/-- The attributes of an element in order. -/
def attributes : Element → List Attribute
  | node _ as _ => as

/-- The child elements of an element in order. -/
def children : Element → List Element
  | node _ _ cs => cs

/-- The element with other children. -/
def withChildren (e : Element) (cs : List Element) : Element :=
  node e.name e.attributes cs

end Element

end TagMarkup
