/-!
# Texts

A text is a finite sequence of 16-bit code units, as in UTF-16, except that a surrogate may stand
unpaired. Offsets and lengths count code units.

## Implementation notes

An offset is an integer, so that a reader may be started before the beginning or past the end of
a text. Looking up a unit outside the text gives `none`; cutting clamps its ends to the text. The
view `Text.toList` is what statements about texts speak of.
-/

namespace TagMarkup

/-- One 16-bit unit of a text. -/
abbrev CodeUnit := UInt16

/-- A finite sequence of code units. -/
@[ext]
structure Text where
  /-- The units in order. -/
  units : Array CodeUnit
deriving DecidableEq, Inhabited

namespace Text

/-- The units of a text as a list. -/
def toList (t : Text) : List CodeUnit :=
  t.units.toList

/-- The text with the given units. -/
def ofList (us : List CodeUnit) : Text :=
  ⟨us.toArray⟩

@[simp] theorem toList_ofList (us : List CodeUnit) : (ofList us).toList = us := rfl

@[simp] theorem ofList_toList (t : Text) : ofList t.toList = t := rfl

theorem toList_inj {s t : Text} : s.toList = t.toList ↔ s = t := by
  constructor
  · intro h
    rw [← ofList_toList s, h, ofList_toList]
  · intro h
    rw [h]

/-- The units that encode one character: one unit, or a pair of surrogates beyond U+FFFF. -/
def encodeChar (c : Char) : List CodeUnit :=
  let n := c.toNat
  if n < 0x10000 then
    [n.toUInt16]
  else
    [(0xD800 + (n - 0x10000) / 0x400).toUInt16, (0xDC00 + (n - 0x10000) % 0x400).toUInt16]

/-- The text of a string of characters. -/
def ofString (s : String) : Text :=
  ofList (s.toList.flatMap encodeChar)

instance : Coe String Text := ⟨ofString⟩

/-- The number of units. -/
def size (t : Text) : Nat :=
  t.units.size

@[simp] theorem length_toList (t : Text) : t.toList.length = t.size := by
  simp [toList, size]

/-- The text without units. -/
def empty : Text :=
  ⟨#[]⟩

@[simp] theorem toList_empty : empty.toList = [] := rfl

/-- Whether the text has no units. -/
def isEmpty (t : Text) : Bool :=
  t.size == 0

instance : Append Text := ⟨fun s t => ⟨s.units ++ t.units⟩⟩

@[simp] theorem toList_append (s t : Text) : (s ++ t).toList = s.toList ++ t.toList := by
  change (s.units ++ t.units).toList = s.units.toList ++ t.units.toList
  simp

/-- The text of one unit. -/
def singleton (u : CodeUnit) : Text :=
  ⟨#[u]⟩

@[simp] theorem toList_singleton (u : CodeUnit) : (singleton u).toList = [u] := rfl

/-- The texts of a list, one after the other. -/
def join (parts : List Text) : Text :=
  ⟨parts.foldl (fun acc t => acc ++ t.units) #[]⟩

@[simp] theorem toList_join (parts : List Text) : (join parts).toList = parts.flatMap toList := by
  have step : ∀ (acc : Array CodeUnit),
      (parts.foldl (fun acc t => acc ++ t.units) acc).toList =
        acc.toList ++ parts.flatMap toList := by
    induction parts with
    | nil => simp
    | cons t rest ih =>
      intro acc
      simp [ih, toList]
  simpa [join, toList] using step #[]

/-- The unit at an offset, if the offset is inside the text. -/
def at? (t : Text) (p : Int) : Option CodeUnit :=
  if p < 0 then none else t.units[p.toNat]?

theorem at?_natCast (t : Text) (n : Nat) : t.at? n = t.toList[n]? := by
  have h : ¬ (n : Int) < 0 := by omega
  simp [at?, h, toList]

theorem at?_of_neg (t : Text) {p : Int} (h : p < 0) : t.at? p = none := by
  simp [at?, h]

/-- The units from `start` up to `stop`, both cut down to the length of the text. -/
def slice (t : Text) (start stop : Nat) : Text :=
  ⟨t.units.extract start stop⟩

@[simp] theorem toList_slice (t : Text) (start stop : Nat) :
    (t.slice start stop).toList = (t.toList.take stop).drop start := by
  simp [slice, toList, List.extract_eq_take_drop, List.drop_take]

/-- The first units of a text, at most `n` of them. -/
def take (t : Text) (n : Nat) : Text :=
  t.slice 0 n

@[simp] theorem toList_take (t : Text) (n : Nat) : (t.take n).toList = t.toList.take n := by
  simp [take]

/-- Where a cut at an offset starts: a negative offset counts from the end, and neither end of
the text is passed. -/
def cut (t : Text) (p : Int) : Nat :=
  if p < 0 then ((t.size : Int) + p).toNat else min p.toNat t.size

/-- What is left of a text from an offset on, a negative offset counting from the end. -/
def suffixFrom (t : Text) (p : Int) : Text :=
  t.slice (t.cut p) t.size

theorem toList_suffixFrom (t : Text) (p : Int) :
    (t.suffixFrom p).toList = t.toList.drop (t.cut p) := by
  simp [suffixFrom, List.take_of_length_le]

/-- Whether `s` stands in `t` at the offset `p`, moved to the nearer end of `t` if it lies
outside. -/
def matchesAt (t s : Text) (p : Int) : Bool :=
  let start := min p.toNat t.size
  t.slice start (start + s.size) == s

theorem matchesAt_iff (t s : Text) (p : Int) :
    t.matchesAt s p = true ↔ s.toList <+: t.toList.drop (min p.toNat t.size) := by
  simp only [matchesAt, beq_iff_eq, ← toList_inj, toList_slice, List.prefix_iff_eq_take,
    length_toList, List.take_drop]
  exact eq_comm

/-- A text repeated `n` times. -/
def replicate (n : Nat) (t : Text) : Text :=
  join (List.replicate n t)

end Text

end TagMarkup
