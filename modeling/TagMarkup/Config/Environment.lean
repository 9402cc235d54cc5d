import TagMarkup.Config.Basic
import TagMarkup.Text.Character

/-!
# Settings from the environment

Every environment variable whose name starts with `Variables.mark` sets the value at a path: the
rest of the name in lower case, with one dot for each run of underscores, split at the dots.
Variables take effect in their order, so a later one replaces what an earlier one set at its path,
below it, or above it.

## Implementation notes

Only ASCII letters are put in lower case. No path of a setting holds a letter that is the lower
case of a character beyond ASCII, so the others do not matter.
-/

namespace TagMarkup

/-- Environment variables with their values, in the order in which they were added. -/
abbrev Variables := List (Text × Text)

namespace Variables

/-- What the names of the variables that hold settings start with. -/
def mark : Text := "TAGWEAVE_"

/-- Gives a variable a value. A variable that is already there keeps its place. -/
def set : Variables → Text → Text → Variables
  | [], name, value => [(name, value)]
  | (n, v) :: rest, name, value =>
    if n = name then (name, value) :: rest else (n, v) :: set rest name value

/-- Removes a variable. -/
def unset (vs : Variables) (name : Text) : Variables :=
  vs.filter fun entry => entry.1 != name

/-- The units in lower case, with one dot for each run of underscores; `inRun` tells whether an
underscore stands in front. -/
def dotted (inRun : Bool) : List CodeUnit → List CodeUnit
  | [] => []
  | u :: rest =>
    if u = 0x5F then
      if inRun then dotted true rest else 0x2E :: dotted true rest
    else u.toLower :: dotted false rest

/-- The path that a variable sets, if its name is that of a setting. -/
def path? (name : Text) : Option (List Text) :=
  if name.matchesAt mark 0 then
    some ((CodeUnit.splitAt 0x2E (dotted false (name.toList.drop mark.size))).map Text.ofList)
  else none

/-- The path at which digits are a number even where they could be a truth value. -/
def numericPath : List Text := ["diagnostics", "snippet"]

/-- The value that a variable gives to a path. -/
def valueAt (path : List Text) (value : Text) : Json :=
  let isNumber := !value.isEmpty && value.units.all CodeUnit.isDigit
  let number := Json.number (.ofDecimal false (CodeUnit.decimalValue value.toList) 0)
  if path = numericPath ∧ isNumber then number
  else if value = "1" ∨ value = "true" then .bool true
  else if value = "0" ∨ value = "false" ∨ value = "" then .bool false
  else if isNumber then number
  else .string value

/-- Sets the value at a path, with objects on the way to it in place of anything else. -/
def setAt (ms : Json.Members) : List Text → Json → Json.Members
  | [], _ => ms
  | [key], value => ms.insert key value
  | key :: next :: rest, value =>
    ms.insert key (.object (setAt ((ms.get? key).getD .null).members (next :: rest) value))

/-- The members that the variables set, one variable after the other. -/
def settings (vs : Variables) : Json.Members :=
  vs.foldl (fun ms entry =>
    match path? entry.1 with
    | some path => setAt ms path (valueAt path entry.2)
    | none => ms) []

/-- The layer of the environment. -/
def layer (vs : Variables) : Layer :=
  .ofJson (.object vs.settings)

end Variables

end TagMarkup
