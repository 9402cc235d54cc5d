import TagMarkup.Json.Basic
import TagMarkup.Parser.Rejection

/-!
# Settings

The configuration has three settings. It is put together from layers, each of which may supply any
of them: the defaults at the bottom, then a file, the environment, and the values set by the
program. A setting has the value of the last layer that supplies it.

## Implementation notes

A layer is read off a JSON value by `Layer.ofJson`. A value of the wrong kind supplies nothing,
whatever the other settings of the same layer are.
-/

namespace TagMarkup

/-- What becomes of input after the root element. -/
inductive TrailingPolicy where
  /-- The document is rejected. -/
  | error
  /-- The input is ignored. -/
  | allow
deriving DecidableEq

namespace TrailingPolicy

/-- The name of a policy in settings. -/
def name : TrailingPolicy → String
  | error => "error"
  | allow => "allow"

/-- The policy of a given name. -/
def ofName? (t : Text) : Option TrailingPolicy :=
  if t = error.name then some error
  else if t = allow.name then some allow
  else none

end TrailingPolicy

/-- The settings in force. -/
@[ext]
structure Config where
  /-- Whether each parsed or rejected document is logged. -/
  debug : Bool
  /-- How many units of the remaining text a rejection quotes. -/
  snippet : Nat
  /-- What becomes of input after the root element. -/
  trailing : TrailingPolicy
deriving DecidableEq

/-- Settings that may be missing. -/
@[ext]
structure Layer where
  /-- The supplied value of `Config.debug`. -/
  debug : Option Bool
  /-- The supplied value of `Config.snippet`. -/
  snippet : Option Nat
  /-- The supplied value of `Config.trailing`. -/
  trailing : Option TrailingPolicy
deriving DecidableEq

namespace Layer

/-- The layer that supplies nothing. -/
def empty : Layer :=
  ⟨none, none, none⟩

/-- A JSON value as a truth value. -/
def debug? : Json → Option Bool
  | .bool b => some b
  | _ => none

/-- A JSON value as a number of units: a whole number that is not negative. -/
def snippet? : Json → Option Nat
  | .number x => x.toNat?
  | _ => none

/-- A JSON value as a policy. -/
def trailing? : Json → Option TrailingPolicy
  | .string t => TrailingPolicy.ofName? t
  | _ => none

/-- The settings that a JSON value supplies. -/
def ofJson (j : Json) : Layer where
  debug := (j.get? "debug").bind debug?
  snippet := ((j.get? "diagnostics").bind (·.get? "snippet")).bind snippet?
  trailing := ((j.get? "document").bind (·.get? "trailing")).bind trailing?

end Layer

namespace Config

/-- The settings that hold where no layer supplies others. -/
def defaults : Config :=
  ⟨false, Rejection.defaultSnippet, .error⟩

/-- The settings with those that a layer supplies replaced. -/
def overlay (c : Config) (l : Layer) : Config where
  debug := l.debug.getD c.debug
  snippet := l.snippet.getD c.snippet
  trailing := l.trailing.getD c.trailing

end Config

end TagMarkup
