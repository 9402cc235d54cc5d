import TagMarkup.Text.Character

/-!
# Quoted texts

The quoted form of a text is a JSON string: the text between two quotation marks, with quotation
marks, backslashes, control characters and unpaired surrogates escaped, and everything else as it
is. `Quoted.encode` writes what stands between the quotation marks. `Text.unquoted?` reads it, and
takes the escapes that are never written as well.

## Implementation notes

Texts are long, so the running definitions push onto an array; `Quoted.encode` is the list that
`Quoted.encodeOnto` pushes.
-/

namespace TagMarkup

namespace Quoted

/-- The units with an escape of two units, each with the letter of its escape. -/
def shortEscapes : List (CodeUnit × CodeUnit) :=
  [(0x22, 0x22), (0x5C, 0x5C), (0x08, 0x62), (0x09, 0x74), (0x0A, 0x6E), (0x0C, 0x66), (0x0D, 0x72)]

/-- The lower-case hexadecimal digit of a number below sixteen. -/
def hexDigit (n : CodeUnit) : CodeUnit :=
  if n < 10 then 0x30 + n else 0x57 + n

/-- The escape of six units, which every unit has. -/
def longEscape (u : CodeUnit) : List CodeUnit :=
  [0x5C, 0x75, hexDigit (u >>> 12), hexDigit (u >>> 8 &&& 0xF), hexDigit (u >>> 4 &&& 0xF),
    hexDigit (u &&& 0xF)]

/-- The written form of a unit that is no half of a surrogate pair. -/
def encodeUnit (u : CodeUnit) : List CodeUnit :=
  match shortEscapes.lookup u with
  | some letter => [0x5C, letter]
  | none =>
    if u < 0x20 || u.isHighSurrogate || u.isLowSurrogate then longEscape u else [u]

/-- The written form of a list of units: surrogate pairs stay, every other unit is written by
itself. -/
def encode : List CodeUnit → List CodeUnit
  | [] => []
  | [u] => encodeUnit u
  | u :: v :: rest =>
    if u.isHighSurrogate && v.isLowSurrogate then
      u :: v :: encode rest
    else
      encodeUnit u ++ encode (v :: rest)

/-- Pushes the written form of a list of units. -/
def encodeOnto (written : Array CodeUnit) : List CodeUnit → Array CodeUnit
  | [] => written
  | [u] => written ++ encodeUnit u
  | u :: v :: rest =>
    if u.isHighSurrogate && v.isLowSurrogate then
      encodeOnto ((written.push u).push v) rest
    else
      encodeOnto (written ++ encodeUnit u) (v :: rest)

theorem toList_encodeOnto (written : Array CodeUnit) (us : List CodeUnit) :
    (encodeOnto written us).toList = written.toList ++ encode us := by
  fun_induction encodeOnto written us with
  | case1 => simp [encode]
  | case2 => simp [encode]
  | case3 written u v rest paired ih => simp [encode, paired, ih]
  | case4 written u v rest paired ih => simp [encode, paired, ih]

/-- The value of a hexadecimal digit of either case. -/
def hexValue? (u : CodeUnit) : Option CodeUnit :=
  if 0x30 ≤ u && u ≤ 0x39 then some (u - 0x30)
  else if 0x61 ≤ u && u ≤ 0x66 then some (u - 0x57)
  else if 0x41 ≤ u && u ≤ 0x46 then some (u - 0x37)
  else none

/-- The unit that four hexadecimal digits name. -/
def longValue? (a b c d : CodeUnit) : Option CodeUnit := do
  pure (((← hexValue? a) <<< 12) + ((← hexValue? b) <<< 8) + ((← hexValue? c) <<< 4) +
    (← hexValue? d))

/-- The unit that the letter of an escape of two units names; the escaped slash is read though it
is never written. -/
def shortValue? (letter : CodeUnit) : Option CodeUnit :=
  if letter = 0x2F then some 0x2F
  else (shortEscapes.find? fun entry => entry.2 == letter).map (·.1)

/-- Pushes the units that a written form stands for, unless it is ill formed. -/
def decodeOnto? (read : Array CodeUnit) : List CodeUnit → Option (Array CodeUnit)
  | [] => some read
  | u :: rest =>
    if u = 0x5C then
      match rest with
      | [] => none
      | letter :: rest =>
        if letter = 0x75 then
          match rest with
          | a :: b :: c :: d :: rest =>
            match longValue? a b c d with
            | some value => decodeOnto? (read.push value) rest
            | none => none
          | _ => none
        else
          match shortValue? letter with
          | some value => decodeOnto? (read.push value) rest
          | none => none
    else if u < 0x20 || u = 0x22 then none
    else decodeOnto? (read.push u) rest

end Quoted

namespace Text

/-- The text as a JSON string with its quotation marks. -/
def quoted (t : Text) : Text :=
  ⟨(Quoted.encodeOnto #[0x22] t.toList).push 0x22⟩

theorem toList_quoted (t : Text) :
    t.quoted.toList = 0x22 :: Quoted.encode t.toList ++ [0x22] := by
  simp [quoted, toList, Quoted.toList_encodeOnto]

/-- The text whose written form, without quotation marks, is given. -/
def unquoted? (body : Text) : Option Text :=
  (Quoted.decodeOnto? #[] body.toList).map Text.mk

end Text

end TagMarkup
