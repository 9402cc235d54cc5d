import TagMarkup.Text.Quoted

/-!
# Rejected texts

A reading of a whole text that cannot be accepted ends in a rejection. It says why the text was
refused, at which offset, and what was left of the text there; its message quotes the first units
of what was left.
-/

namespace TagMarkup

/-- Why a text is rejected. -/
inductive Reason where
  /-- The parser failed. -/
  | unexpectedInput
  /-- The parser succeeded before the end of the text. -/
  | trailingInput
  /-- Rules were nested deeper than the limit. -/
  | recursionLimit
  /-- A reason of the caller's own, which no reading of this library gives. -/
  | other (name : Text)
deriving DecidableEq

namespace Reason

/-- The name of a reason in messages. -/
def name : Reason → Text
  | unexpectedInput => "unexpected-input"
  | trailingInput => "trailing-input"
  | recursionLimit => "recursion-limit"
  | other name => name

end Reason

/-- A rejected text. -/
@[ext]
structure Rejection where
  /-- Why the text was rejected. -/
  reason : Reason
  /-- Where reading stopped. -/
  offset : Int
  /-- What was left of the text from there on. -/
  remaining : Text
  /-- The rejection in words. -/
  message : Text
deriving DecidableEq

namespace Rejection

/-- How many units of the remaining text a message quotes, unless told otherwise. -/
def defaultSnippet : Nat := 20

/-- The remaining text in words: its first `snippet` units in quotation marks, with dots if some
were cut off. A negative number of units counts as none. -/
def describe (remaining : Text) (snippet : Int) : Text :=
  if remaining.isEmpty then
    "end of input"
  else
    let quotedPart := remaining.take snippet.toNat
    if quotedPart.size < remaining.size then quotedPart.quoted ++ ("..." : Text)
    else quotedPart.quoted

/-- The message of a rejection, with the offset already in words. -/
def messageAt (reason : Reason) (offset : String) (remaining : Text) (snippet : Int) : Text :=
  ("Parse error (" : Text) ++ reason.name ++ Text.ofString (") at offset " ++ offset ++ ": ") ++
    describe remaining snippet

/-- The rejection of a text at an offset, quoting at most `snippet` units. -/
def ofText (text : Text) (offset : Int) (reason : Reason) (snippet : Int) : Rejection :=
  let remaining := text.suffixFrom offset
  { reason, offset, remaining
    message := messageAt reason (toString offset) remaining snippet }

end Rejection

end TagMarkup
