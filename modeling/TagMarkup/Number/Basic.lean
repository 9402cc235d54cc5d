/-!
# Binary numbers

The numbers of settings are those of the binary format with a significand of 53 bits: every finite
one is a whole number of quanta of `2^-1074`. A decimal is read as the nearest such number, of two
equally near ones the one with the even significand, and as an infinity if it is too large.

## Implementation notes

Counting quanta makes the representation unique and all arithmetic exact. Not every number of
quanta is a number of the format; `round` yields only those that are.
-/

namespace TagMarkup

/-- A number of the binary format. -/
inductive Number where
  /-- A number of quanta with a sign, which zero has too. -/
  | finite (negative : Bool) (quanta : Nat)
  /-- A number too large for the format. -/
  | infinite (negative : Bool)
deriving DecidableEq, Inhabited

namespace Number

/-- How many quanta make one. -/
def unit : Nat := Nat.pow 2 1074

/-- The first number of quanta beyond the format. -/
def limit : Nat := Nat.pow 2 2098

/-- The distance of neighbouring numbers of the format from this many quanta upwards. -/
def spacing (quanta : Nat) : Nat :=
  Nat.pow 2 (quanta.log2 - 52)

/-- The whole number nearest to a quotient, of two equally near ones the even one. -/
def divRound (num den : Nat) : Nat :=
  let q := num / den
  let twice := 2 * (num % den)
  if twice < den then q
  else if den < twice then q + 1
  else q + q % 2

/-- The number of the format nearest to a quotient. -/
def round (negative : Bool) (num den : Nat) : Number :=
  let exact := num * unit
  let step := spacing (exact / den)
  let quanta := divRound exact (den * step) * step
  if quanta < limit then finite negative quanta else infinite negative

/-- How many decimal digits a whole number has; zero has one. -/
def decimalLength (n : Nat) : Nat :=
  (Nat.toDigits 10 n).length

/-- The number of the format nearest to `digits · 10^exponent`. Exponents beyond the reach of the
format are not worked out: the result is zero or infinite. -/
def ofDecimal (negative : Bool) (digits : Nat) (exponent : Int) : Number :=
  if digits = 0 then finite negative 0
  else
    let magnitude := exponent + decimalLength digits
    if 400 < magnitude then infinite negative
    else if magnitude < -400 then finite negative 0
    else if 0 ≤ exponent then round negative (digits * Nat.pow 10 exponent.toNat) 1
    else round negative digits (Nat.pow 10 (-exponent).toNat)

/-- The whole number that a number is, if it is one. Both zeros are zero. -/
def toInt? : Number → Option Int
  | finite negative quanta =>
    if quanta % unit = 0 then
      let n : Int := quanta / unit
      some (if negative then -n else n)
    else none
  | infinite _ => none

/-- The natural number that a number is, if it is one. -/
def toNat? (x : Number) : Option Nat :=
  match x.toInt? with
  | some (.ofNat n) => some n
  | _ => none

end Number

end TagMarkup
