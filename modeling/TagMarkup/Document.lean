import TagMarkup.Config.Store
import TagMarkup.Element.Parser

/-!
# Documents and fragments

A document is a text with one root element; a fragment is the first element of a text together with
what is left. Reading either may need the configuration: the policy on trailing input if none is
given, the length of the quotation in a rejection, and whether to log what happened.

## Implementation notes

`Session` is the state that readings share; `Reading` is a computation on it that can end in a
failure and keeps the state also then. The host that it runs on is passed along. Lines are logged in
order at the end of `Session.log`.
-/

namespace TagMarkup

/-- Surroundings, the stored configuration and the lines logged so far. -/
structure Session where
  /-- The files and variables. -/
  around : Surroundings
  /-- The stored configuration. -/
  store : Store
  /-- The logged lines in order. -/
  log : List Text

namespace Session

/-- No files, no variables, nothing stored and nothing logged. -/
def start : Session :=
  ⟨.empty, .reset, []⟩

end Session

/-- What ends a reading without a value. -/
inductive Failure where
  /-- The configuration cannot be computed. -/
  | unusable (error : ConfigError)
  /-- A fault, a rejection among them. -/
  | fault (fault : Fault)
deriving DecidableEq

/-- A computation on a session that may end in a failure. -/
abbrev Reading (α : Type) := ExceptT Failure (StateM Session) α

/-- The first element of a text and what is left. -/
structure Fragment where
  /-- The element. -/
  element : Element
  /-- The text after it. -/
  rest : Text

namespace Reading

/-- Changes the stored configuration and gives what the change gives. -/
def onStore {α : Type} (change : Surroundings → Store → Except ConfigError α × Store) :
    Reading α := do
  let session ← get
  let (outcome, store) := change session.around session.store
  set { session with store }
  match outcome with
  | .ok a => return a
  | .error e => throw (.unusable e)

/-- The configuration in force. -/
def need (host : Host) : Reading Config :=
  onStore (Store.need host)

/-- What each logged line starts with. -/
def logMark : String := "[tagweave] "

/-- Logs a line if the configuration in force asks for it. -/
def debugLine (host : Host) (line : Text) : Reading Unit := do
  if (← need host).debug then
    modify fun session => { session with log := session.log ++ [(logMark : Text) ++ line] }

/-- The line logged for a rejected document. -/
def rejectedLine (reason : Reason) (offset : Int) : Text :=
  ("rejected document (" : Text) ++ reason.name ++
    Text.ofString (") at offset " ++ toString offset)

/-- The line logged for a parsed document. -/
def parsedLine (root : Element) (offset : Int) (text : Text) : Text :=
  ("parsed <" : Text) ++ root.name ++
    Text.ofString ("> (" ++ toString offset ++ " of " ++ toString text.size ++ " characters)")

/-- Rejects a text at an offset, logging it, with the quotation as long as the configuration
says. -/
def reject {α : Type} (host : Host) (text : Text) (offset : Int) (reason : Reason) :
    Reading α := do
  debugLine host (rejectedLine reason offset)
  let snippet := (← need host).snippet
  throw (.fault (.rejected (.ofText text offset reason snippet)))

/-- Reads the root element of a text; exhaustion is a rejection of the text. -/
def root (host : Host) (text : Text) : Reading (Result Element) := do
  match Element.read host.limit text 0 with
  | .ok result => return result
  | .error fault =>
    if fault.isExhaustion then reject host text 0 .recursionLimit
    else throw (.fault fault)

/-- Reads the first element of a text, if it starts with one. -/
def fragment (host : Host) (text : Text) : Reading (Option Fragment) := do
  match ← root host text with
  | .failure _ => return none
  | .success e q => return some ⟨e, text.suffixFrom q⟩

/-- Reads fragments from a text, after those already read, latest first, as long as there is one
and it leaves less of the text. -/
def fragmentsFrom (host : Host) (read : List Element) (text : Text) :
    Reading (List Element × Text) := do
  match ← fragment host text with
  | none => return (read.reverse, text)
  | some ⟨e, rest⟩ =>
    if _h : rest.size < text.size then
      fragmentsFrom host (e :: read) rest
    else
      return (read.reverse, text)
termination_by text.size

/-- Reads fragments from a text until there is none. -/
def fragments (host : Host) (text : Text) : Reading (List Element × Text) :=
  fragmentsFrom host [] text

/-- Reads a text as a document. Without a policy on trailing input that of the configuration
counts. -/
def document (host : Host) (text : Text) (trailing : Option TrailingPolicy) : Reading Element := do
  let policy ← match trailing with
    | some policy => pure policy
    | none => do pure (← need host).trailing
  match ← root host text with
  | .failure q => reject host text q .unexpectedInput
  | .success e q =>
    if q ≠ text.size ∧ policy = .error then reject host text q .trailingInput
    debugLine host (parsedLine e q text)
    return e

end Reading

end TagMarkup
