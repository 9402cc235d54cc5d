import TagMarkup.Parser.Basic

/-!
# Running parsers

`Parser.run` reads a text from an offset. It either yields a value and the offset of what is left,
or fails with the offset where it stopped, or ends in a fault. The limit on how many rules may be
active at once is part of `Grammar.call`: each call of a rule uses up one activation, and a call
without any left is exhausted.

## Implementation notes

The meaning of the rules is a parameter of `Parser.run`, and so is the effect they have. The plain
meaning is `Grammar.call`; the meaning with rules built on first use is in
`TagMarkup.Parser.RuleCache`.

Repetition carries the values already read, latest first. It goes on only while the offset grows
towards its bound, the end of the text or its own start, whichever is later.
-/

namespace TagMarkup

universe u

/-- What a run that is not ended by a fault comes to. -/
inductive Result (α : Type) where
  /-- A value, and the offset of what is left. -/
  | success (value : α) (offset : Int)
  /-- The offset where reading stopped. -/
  | failure (offset : Int)
deriving DecidableEq

namespace Result

variable {α : Type}

/-- The offset of a success or a failure. -/
def offset : Result α → Int
  | success _ q => q
  | failure q => q

end Result

namespace Parser

section Primitives

/-- Reads a fixed text. The offset after it is counted from the start, even where the start lies
outside the text. -/
def readLiteral (text expected : Text) (p : Int) : Result Unit :=
  if text.matchesAt expected p then .success () (p + expected.size) else .failure p

/-- Reads one character. -/
def readCharacter (text : Text) (p : Int) : Result Text :=
  match text.character? p with
  | some c => .success c (p + c.size)
  | none => .failure p

/-- Reads the longest name. -/
def readName (text : Text) (p : Int) : Result Text :=
  match text.at? p with
  | some u =>
    if u.isLetter then
      let stop := text.runEnd CodeUnit.isNameUnit (p.toNat + 1)
      .success (text.slice p.toNat stop) stop
    else .failure p
  | none => .failure p

end Primitives

section Run

variable {R : Type} {ρ : R → Type} {m : Type → Type u} [Monad m] [MonadExceptOf Fault m]

/-- Reads items from `cur` on until one fails or consumes nothing, after the items already read. -/
@[specialize] def repeatFrom {α : Type} (item : Int → m (Result α)) (bound : Int)
    (read : List α) (cur : Int) : m (Result (List α)) := do
  match ← item cur with
  | .failure _ => return .success read.reverse cur
  | .success a next =>
    if _h : cur < next ∧ next ≤ bound then
      repeatFrom item bound (a :: read) next
    else
      return .success read.reverse cur
termination_by (bound - cur).toNat
decreasing_by omega

/-- Where repetition in a text ends at the latest. -/
def bound (text : Text) (p : Int) : Int :=
  max p text.size

/-- Reads a text from an offset, given the meaning of the rules. -/
@[specialize] def run (call : (r : R) → Int → m (Result (ρ r))) (text : Text) {α : Type}
    (parser : Parser ρ α) (p : Int) : m (Result α) :=
  match parser with
  | literal expected => return readLiteral text expected p
  | character => return readCharacter text p
  | name => return readName text p
  | raise fault => throw fault
  | rule r => call r p
  | transform f inner => do
    match ← inner.run call text p with
    | .failure q => return .failure q
    | .success a q =>
      match f a with
      | .ok b => return .success b q
      | .error fault => throw fault
  | filter test inner => do
    match ← inner.run call text p with
    | .failure q => return .failure q
    | .success a q =>
      match test a with
      | .ok true => return .success a q
      | .ok false => return .failure p
      | .error fault => throw fault
  | attempt inner => do
    match ← inner.run call text p with
    | .failure _ => return .failure p
    | .success a q => return .success a q
  | seq first second => do
    match ← first.run call text p with
    | .failure q => return .failure q
    | .success a q =>
      match ← second.run call text q with
      | .failure q' => return .failure q'
      | .success b q' => return .success (a, b) q'
  | .bind first next => do
    match ← first.run call text p with
    | .failure q => return .failure q
    | .success a q => (next a).run call text q
  | orElse first second => do
    match ← first.run call text p with
    | .failure _ => second.run call text p
    | .success a q => return .success a q
  | many item => repeatFrom (item.run call text) (bound text p) [] p
  | many1 item => do
    match ← item.run call text p with
    | .failure _ => return .failure p
    | .success a q => repeatFrom (item.run call text) (bound text q) [a] q

end Run

end Parser

namespace Grammar

variable {R : Type} {ρ : R → Type}

/-- What a rule reads when at most `limit` rules may be active at once. -/
def call (g : Grammar ρ) (text : Text) : (limit : Nat) → (r : R) → Int → Except Fault (Result (ρ r))
  | 0, _, _ => .error .exhausted
  | limit + 1, r, p => (g r).run (call g text limit) text p

/-- Reads a text from an offset with the rules of a grammar. -/
def run {α : Type} (g : Grammar ρ) (limit : Nat) (parser : Parser ρ α) (text : Text) (p : Int) :
    Except Fault (Result α) :=
  parser.run (g.call text limit) text p

end Grammar

/-- The value of a reading that has to use up the whole text. Anything else is a rejection, and so
is an exhausted reading; other faults stay. -/
def wholeValue {α : Type} (text : Text) : Except Fault (Result α) → Except Fault α
  | .error fault =>
    if fault.isExhaustion then
      .error (.rejected (.ofText text 0 .recursionLimit Rejection.defaultSnippet))
    else .error fault
  | .ok (.failure q) =>
    .error (.rejected (.ofText text q .unexpectedInput Rejection.defaultSnippet))
  | .ok (.success a q) =>
    if q = text.size then .ok a
    else .error (.rejected (.ofText text q .trailingInput Rejection.defaultSnippet))

namespace Grammar

/-- Reads a whole text with the rules of a grammar. -/
def runWhole {R : Type} {ρ : R → Type} {α : Type} (g : Grammar ρ) (limit : Nat)
    (parser : Parser ρ α) (text : Text) : Except Fault α :=
  wholeValue text (g.run limit parser text 0)

end Grammar

end TagMarkup
