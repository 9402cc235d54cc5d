import TagMarkup.Text.Basic

/-!
# Characters of a text

A character of a text is one code point: a pair of surrogates, or a single unit. This module holds
the classes of units that the markup and its configuration distinguish, reads the character at an
offset, and says which lists of units are well formed, that is, hold no unpaired surrogate.

## Implementation notes

Every class is a class of units. The members of the classes of markup are no surrogates, so such a
class is at the same time the class of the one-unit characters that hold its members.
-/

namespace TagMarkup

namespace CodeUnit

/-- The first half of a surrogate pair. -/
def isHighSurrogate (u : CodeUnit) : Bool :=
  0xD800 ≤ u && u ≤ 0xDBFF

/-- The second half of a surrogate pair. -/
def isLowSurrogate (u : CodeUnit) : Bool :=
  0xDC00 ≤ u && u ≤ 0xDFFF

/-- An ASCII letter. -/
def isLetter (u : CodeUnit) : Bool :=
  (0x41 ≤ u && u ≤ 0x5A) || (0x61 ≤ u && u ≤ 0x7A)

/-- An ASCII digit. -/
def isDigit (u : CodeUnit) : Bool :=
  0x30 ≤ u && u ≤ 0x39

/-- A unit that may follow the first letter of a name: a letter, a digit or a hyphen. -/
def isNameUnit (u : CodeUnit) : Bool :=
  isLetter u || isDigit u || u == 0x2D

/-- The spaces that separate markup as well as fill a blank file. -/
def isCommonSpace (u : CodeUnit) : Bool :=
  (0x09 ≤ u && u ≤ 0x0D) || u == 0x20 || u == 0xA0 || u == 0x1680 ||
    (0x2000 ≤ u && u ≤ 0x200A) || u == 0x2028 || u == 0x2029 || u == 0x202F || u == 0x205F ||
    u == 0x3000

/-- A unit with the Unicode property `White_Space`: these separate the parts of the markup. -/
def isSpace (u : CodeUnit) : Bool :=
  isCommonSpace u || u == 0x85

/-- A unit that a blank file may hold: the byte order mark counts, U+0085 does not. -/
def isBlank (u : CodeUnit) : Bool :=
  isCommonSpace u || u == 0xFEFF

/-- The ASCII letter in lower case; any other unit is itself. -/
def toLower (u : CodeUnit) : CodeUnit :=
  if 0x41 ≤ u && u ≤ 0x5A then u + 0x20 else u

/-- The number that decimal digits write. -/
def decimalValue (digits : List CodeUnit) : Nat :=
  digits.foldl (fun n u => 10 * n + (u.toNat - 0x30)) 0

/-- The pieces of a list of units between separators, of which there is one more than there are
separators. -/
def splitAt (separator : CodeUnit) : List CodeUnit → List (List CodeUnit)
  | [] => [[]]
  | u :: rest =>
    if u = separator then [] :: splitAt separator rest
    else
      match splitAt separator rest with
      | [] => [[u]]
      | piece :: pieces => (u :: piece) :: pieces

/-- Whether a list of units holds no unpaired surrogate. -/
def wellFormed : List CodeUnit → Bool
  | [] => true
  | [u] => !isHighSurrogate u && !isLowSurrogate u
  | u :: v :: rest =>
    if isHighSurrogate u then
      isLowSurrogate v && wellFormed rest
    else
      !isLowSurrogate u && wellFormed (v :: rest)

end CodeUnit

namespace Text

/-- The character at an offset, if the offset is inside the text: a pair of surrogates that
starts there, or else the single unit. -/
def character? (t : Text) (p : Int) : Option Text :=
  (t.at? p).map fun u =>
    match t.at? (p + 1) with
    | some v =>
      if u.isHighSurrogate && v.isLowSurrogate then ⟨#[u, v]⟩ else singleton u
    | none => singleton u

/-- A text of exactly one unit that belongs to a class. -/
def isOne (cls : CodeUnit → Bool) (t : Text) : Bool :=
  t.size == 1 && t.units.all cls

@[simp] theorem isOne_singleton (cls : CodeUnit → Bool) (u : CodeUnit) :
    isOne cls (singleton u) = cls u := by
  simp [isOne, singleton, size]

/-- The end of the longest run of units of a class that starts at `start`. -/
def runEnd (cls : CodeUnit → Bool) (t : Text) (start : Nat) : Nat :=
  if h : start < t.units.size then
    if cls t.units[start] then runEnd cls t (start + 1) else start
  else start

/-- The text with its ASCII letters in lower case. -/
def toLower (t : Text) : Text :=
  ⟨t.units.map CodeUnit.toLower⟩

/-- Whether the text holds nothing but blanks. -/
def isBlank (t : Text) : Bool :=
  t.units.all CodeUnit.isBlank

/-- Whether `word` stands somewhere in the text. -/
def contains (t word : Text) : Bool :=
  (List.range (t.size + 1)).any fun p => t.matchesAt word p

end Text

end TagMarkup
