import TagMarkup.Parser.Fault

/-!
# Parsers

A parser is a description of what to read, built from three readers of text by sequencing,
alternation, repetition and functions on values. It may refer to the rules of a grammar by name, so
that rules can be recursive. `TagMarkup.Parser.Run` says how a parser reads a text.

## Implementation notes

`Parser ρ α` is data: `ρ` gives the value type of each rule name and `α` is the type of the values
that the parser yields. Statements about all parsers are proved by induction over it.
-/

namespace TagMarkup

universe u

/-- A parser of values of type `α` over rules whose value types are given by `ρ`. -/
inductive Parser {R : Type} (ρ : R → Type) : Type → Type 1 where
  /-- Reads a fixed text. -/
  | literal (expected : Text) : Parser ρ Unit
  /-- Reads one character. -/
  | character : Parser ρ Text
  /-- Reads the longest name: a letter, then letters, digits and hyphens. -/
  | name : Parser ρ Text
  /-- Ends the run in a fault. -/
  | raise {α : Type} (fault : Fault) : Parser ρ α
  /-- Reads what the rule of a given name reads. -/
  | rule (r : R) : Parser ρ (ρ r)
  /-- Applies a function, which may raise a fault, to the value. -/
  | transform {α β : Type} (f : α → Except Fault β) (p : Parser ρ α) : Parser ρ β
  /-- Refuses the values that a test, which may raise a fault, does not accept. A refused value is
  a failure at the start, not where the parser stopped. -/
  | filter {α : Type} (test : α → Except Fault Bool) (p : Parser ρ α) : Parser ρ α
  /-- Moves a failure to the start. -/
  | attempt {α : Type} (p : Parser ρ α) : Parser ρ α
  /-- Reads two things one after the other. A failure of the second is reported where it arose. -/
  | seq {α β : Type} (p : Parser ρ α) (q : Parser ρ β) : Parser ρ (α × β)
  /-- Reads a thing, then what its value asks for. -/
  | protected bind {α β : Type} (p : Parser ρ α) (next : α → Parser ρ β) : Parser ρ β
  /-- Reads the first thing or, if that fails, the second from the same offset. -/
  | orElse {α : Type} (p q : Parser ρ α) : Parser ρ α
  /-- Reads a thing as often as it consumes something. -/
  | many {α : Type} (p : Parser ρ α) : Parser ρ (List α)
  /-- Reads a thing once, then as often as it consumes something. -/
  | many1 {α : Type} (p : Parser ρ α) : Parser ρ (List α)

/-- What each rule of a grammar reads. -/
abbrev Grammar {R : Type} (ρ : R → Type) : Type 1 :=
  (r : R) → Parser ρ (ρ r)

namespace Parser

variable {R : Type} {ρ : R → Type} {α β : Type}

/-- Applies a function to the value. -/
protected def map (f : α → β) (p : Parser ρ α) : Parser ρ β :=
  p.transform fun a => .ok (f a)

/-- Refuses the values outside a class. -/
def satisfying (p : Parser ρ α) (cls : α → Bool) : Parser ρ α :=
  p.filter fun a => .ok (cls a)

/-- Reads nothing and yields a value. -/
protected def pure (a : α) : Parser ρ α :=
  (literal .empty).map fun _ => a

/-- Reads two things and keeps the value of the first. -/
def seqLeft (p : Parser ρ α) (q : Parser ρ β) : Parser ρ α :=
  (p.seq q).map Prod.fst

/-- Reads two things and keeps the value of the second. -/
def seqRight (p : Parser ρ α) (q : Parser ρ β) : Parser ρ β :=
  (p.seq q).map Prod.snd

/-- Reads one white-space character. -/
def space : Parser ρ Text :=
  character.satisfying (Text.isOne CodeUnit.isSpace)

/-- Reads white space, possibly none. -/
def spaces : Parser ρ (List Text) :=
  many space

/-- Reads white space, at least one character. -/
def spaces1 : Parser ρ (List Text) :=
  many1 space

/-- Reads a thing with white space around it. -/
def spaced (p : Parser ρ α) : Parser ρ α :=
  seqRight spaces (seqLeft p spaces)

end Parser

end TagMarkup
