import TagMarkup.Element.Printer

/-!
# Derivations of elements

Which units spell an element, said without a parser. White space may surround every element and
has to precede every attribute; the closing tag repeats the name of the opening tag.
-/

namespace TagMarkup

namespace Element

/-- White space, possibly none. -/
def IsSpaces (us : List CodeUnit) : Prop :=
  ∀ u ∈ us, CodeUnit.isSpace u = true

/-- The units of an attribute: its name, an equals sign, and its value in quotation marks. -/
def attributeUnits (a : Attribute) : List CodeUnit :=
  a.name.toList ++ [0x3D, 0x22] ++ a.value.toList ++ [0x22]

/-- The units spell attributes with white space in front of each. -/
inductive SpellsAttributes : List CodeUnit → List Attribute → Prop where
  /-- Nothing spells no attributes. -/
  | nil : SpellsAttributes [] []
  /-- White space and an attribute, then further attributes. -/
  | cons {gap rest : List CodeUnit} {a : Attribute} {as : List Attribute}
      (spaces : IsSpaces gap) (nonempty : gap ≠ []) (wellFormed : a.WellFormed)
      (others : SpellsAttributes rest as) :
      SpellsAttributes (gap ++ attributeUnits a ++ rest) (a :: as)

mutual

/-- The units spell an element with white space around it. -/
inductive Spells : List CodeUnit → Element → Prop where
  /-- An element of one tag. -/
  | single {before after us : List CodeUnit} {name : Text} {attributes : List Attribute}
      (spacesBefore : IsSpaces before) (spacesAfter : IsSpaces after) (isName : name.IsName)
      (spellsAttributes : SpellsAttributes us attributes) :
      Spells (before ++ ([0x3C] ++ name.toList ++ us ++ [0x2F, 0x3E]) ++ after)
        (.node name attributes [])
  /-- An opening tag, child elements, and the closing tag of the same name. -/
  | parent {before after us inner : List CodeUnit} {name : Text} {attributes : List Attribute}
      {children : List Element}
      (spacesBefore : IsSpaces before) (spacesAfter : IsSpaces after) (isName : name.IsName)
      (spellsAttributes : SpellsAttributes us attributes)
      (spellsChildren : SpellsAll inner children) :
      Spells
        (before ++ ([0x3C] ++ name.toList ++ us ++ [0x3E] ++ inner ++ [0x3C, 0x2F] ++
          name.toList ++ [0x3E]) ++ after)
        (.node name attributes children)

/-- The units spell elements, one after the other. -/
inductive SpellsAll : List CodeUnit → List Element → Prop where
  /-- Nothing spells no elements. -/
  | nil : SpellsAll [] []
  /-- An element, then further elements. -/
  | cons {us rest : List CodeUnit} {c : Element} {cs : List Element}
      (first : Spells us c) (others : SpellsAll rest cs) :
      SpellsAll (us ++ rest) (c :: cs)

end

end Element

end TagMarkup
