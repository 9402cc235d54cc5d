import TagMarkup.Parser.Rejection

/-!
# Faults

A parser fails quietly, with an offset. A fault is different: it ends the whole run. The functions
that a grammar applies to values may raise one, and a run that nests rules beyond its limit ends in
the fault `exhausted`. No parser catches a fault; reading a whole text turns exhaustion, and nothing
else, into a rejection.
-/

namespace TagMarkup

/-- What ends a run without a result. -/
inductive Fault where
  /-- More rules were active at once than the limit allows. -/
  | exhausted
  /-- A value of the wrong type. -/
  | wrongType (message : Text)
  /-- A value out of range. -/
  | outOfRange (message : Text)
  /-- Any other fault that is an error. -/
  | general (message : Text)
  /-- A bare text, which is not an error. -/
  | bare (message : Text)
  /-- A rejected text. -/
  | rejected (rejection : Rejection)
deriving DecidableEq

namespace Fault

/-- The words of exhaustion. -/
def exhaustedMessage : String := "Maximum call stack size exceeded"

/-- The message of a fault. -/
def message : Fault → Text
  | exhausted => exhaustedMessage
  | wrongType m | outOfRange m | general m | bare m => m
  | rejected r => r.message

/-- Whether a fault counts as exhaustion: the limit itself, or a value out of range whose message
speaks of the call stack in letters of either case. -/
def isExhaustion : Fault → Bool
  | exhausted => true
  | outOfRange m => m.toLower.contains "call stack"
  | _ => false

end Fault

end TagMarkup
