import TagMarkup.Json.Basic
import TagMarkup.Parser.Run

/-!
# Reading JSON

The grammar of JSON texts, written with the parsers of this library. A key that occurs again in an
object replaces its earlier value, and a number is the nearest number of the binary format.

## Implementation notes

Nesting is not limited: every rule that is active has read a bracket of its own, so one activation
more than there are units is enough.
-/

namespace TagMarkup

namespace Json

variable {R : Type} {ρ : R → Type} {α β : Type}

/-- A unit that may stand between the tokens of a JSON text. -/
def isGap (u : CodeUnit) : Bool :=
  u == 0x20 || u == 0x09 || u == 0x0A || u == 0x0D

/-- Reads one character of a class of units. -/
def oneOf (cls : CodeUnit → Bool) : Parser ρ Text :=
  Parser.character.satisfying (Text.isOne cls)

/-- Reads the space between two tokens. -/
def gap : Parser ρ (List Text) :=
  (oneOf isGap).many

/-- Reads a token and the space after it. -/
def token (p : Parser ρ α) : Parser ρ α :=
  p.seqLeft gap

/-- Reads a fixed token and the space after it. -/
def mark (s : String) : Parser ρ Unit :=
  token (.literal s)

/-- Reads a thing or nothing. -/
def optionally (p : Parser ρ α) : Parser ρ (Option α) :=
  (p.map some).orElse (.pure none)

/-- Reads things with commas between them, possibly none. -/
def separated (p : Parser ρ α) : Parser ρ (List α) :=
  ((p.seq ((mark ",").seqRight p).many).map fun (a, rest) => a :: rest).orElse (.pure [])

/-- Reads a character of a string as it is written. -/
def stringPiece : Parser ρ Text :=
  (oneOf fun u => u == 0x5C).bind (fun slash => Parser.character.map fun c => slash ++ c)
    |>.orElse (Parser.character.satisfying fun c => c != "\"")

/-- Reads a string. -/
def stringText : Parser ρ Text :=
  let body := (Parser.literal "\"").seqRight ((stringPiece.many).seqLeft (.literal "\""))
  let read := body.map fun pieces => (Text.join pieces).unquoted?
  (read.satisfying Option.isSome).map fun t => t.getD .empty

/-- Reads decimal digits, at least one. -/
def digits : Parser ρ (List CodeUnit) :=
  (oneOf CodeUnit.isDigit).many1.map fun pieces => (Text.join pieces).toList

/-- Reads the whole part of a number: one zero, or digits that do not start with a zero. -/
def wholePart : Parser ρ (List CodeUnit) :=
  ((Parser.literal "0").map fun _ => [0x30]).orElse digits

/-- Reads the fraction of a number. -/
def fraction : Parser ρ (List CodeUnit) :=
  (optionally ((Parser.literal ".").seqRight digits)).map fun ds => ds.getD []

/-- Reads the exponent of a number. -/
def exponent : Parser ρ Int :=
  let sign := optionally (oneOf fun u => u == 0x2B || u == 0x2D)
  let mark := oneOf fun u => u == 0x45 || u == 0x65
  (optionally (mark.seqRight (sign.seq digits))).map fun
    | none => 0
    | some (s, ds) =>
      if s = some ("-" : Text) then -(CodeUnit.decimalValue ds : Int)
      else CodeUnit.decimalValue ds

/-- Reads a number. -/
def numberValue : Parser ρ Number :=
  ((optionally (Parser.literal "-")).seq (wholePart.seq (fraction.seq exponent))).map
    fun (sign, whole, frac, e) =>
      Number.ofDecimal sign.isSome (CodeUnit.decimalValue (whole ++ frac)) (e - frac.length)

/-- Reads a JSON value without the space around it, given a reader of the values inside it. -/
def value (inner : Parser ρ Json) : Parser ρ Json :=
  let items := (mark "[").seqRight ((separated (token inner)).seqLeft (.literal "]"))
  let member := ((token stringText).seqLeft (mark ":")).seq (token inner)
  let members := (mark "\x7b").seqRight ((separated member).seqLeft (.literal "\x7d"))
  (stringText.map string).orElse <|
  (members.map fun ms => object (Members.ofList ms)).orElse <|
  (items.map array).orElse <|
  (numberValue.map number).orElse <|
  ((Parser.literal "null").map fun _ => null).orElse <|
  ((Parser.literal "true").map fun _ => bool true).orElse <|
  ((Parser.literal "false").map fun _ => bool false)

/-- The grammar of JSON values. -/
def grammar : Grammar fun _ : Unit => Json :=
  fun _ => value (.rule ())

/-- The value that a JSON text writes, unless the text is malformed. -/
def read? (text : Text) : Option Json :=
  (grammar.runWhole (text.size + 1) (gap.seqRight (token (.rule ()))) text).toOption

end Json

end TagMarkup
