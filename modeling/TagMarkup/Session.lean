import TagMarkup.Document

/-!
# Sessions

A session is a sequence of steps: changes of files and variables, uses of the configuration, and
readings of documents and fragments. Each step is answered by an outcome and the lines it logged. A
step that fails does not end the session.

## Implementation notes

Directories are not kept, so making one has no effect; see `TagMarkup.Config.Host`.
-/

namespace TagMarkup

/-- A step of a session. -/
inductive Step where
  /-- Gives an environment variable a value. -/
  | setVariable (name value : Text)
  /-- Removes an environment variable. -/
  | unsetVariable (name : Text)
  /-- Writes a file. -/
  | writeFile (path : Path) (content : Text)
  /-- Makes a directory. -/
  | makeDirectory (path : Path)
  /-- Deletes a file, if it is there. -/
  | removeFile (path : Path)
  /-- Asks for the configuration in force. -/
  | get
  /-- Puts the settings of a value on top of the configuration in force. -/
  | set (values : Json)
  /-- Forgets the stored configuration. -/
  | reset
  /-- Computes the configuration anew with the settings of a directory. -/
  | load (directory : Path)
  /-- Asks for the file that the settings came from. -/
  | path
  /-- Declares settings, which does nothing with them. -/
  | define (values : Json)
  /-- Reads a document. -/
  | document (text : Text) (trailing : Option TrailingPolicy)
  /-- Reads a fragment. -/
  | fragment (text : Text)
  /-- Reads fragments until there is none. -/
  | fragments (text : Text)

/-- What a step answers if it does not fail. -/
inductive Answer where
  /-- Nothing but that it is done. -/
  | done
  /-- The configuration in force. -/
  | config (c : Config)
  /-- The file of the settings, if there is one. -/
  | path (file : Option Path)
  /-- The declared settings. -/
  | values (j : Json)
  /-- The root element of a document. -/
  | element (e : Element)
  /-- The fragment, if the text starts with one. -/
  | fragment (f : Option Fragment)
  /-- The elements read, and what is left after them. -/
  | fragments (elements : List Element) (rest : Text)

/-- The outcome of a step and the lines it logged. -/
structure Reply where
  /-- The answer or the failure. -/
  outcome : Except Failure Answer
  /-- The logged lines in order. -/
  log : List Text

namespace Step

/-- Changes the surroundings. -/
def onSurroundings (change : Surroundings → Surroundings) : Reading Answer := do
  modify fun session => { session with around := change session.around }
  return .done

/-- What a step does. -/
def perform (host : Host) : Step → Reading Answer
  | setVariable name value =>
    onSurroundings fun a => { a with environment := Variables.set a.environment name value }
  | unsetVariable name =>
    onSurroundings fun a => { a with environment := Variables.unset a.environment name }
  | writeFile file content =>
    onSurroundings fun a => { a with files := Files.write a.files file content }
  | makeDirectory _ => return .done
  | removeFile file =>
    onSurroundings fun a => { a with files := Files.remove a.files file }
  | get => return .config (← Reading.need host)
  | set values => do
    Reading.onStore fun around store => store.set host around (.ofJson values)
    return .done
  | reset => do
    Reading.onStore fun _ _ => (.ok (), Store.reset)
    return .done
  | load directory =>
    return .config (← Reading.onStore fun around _ => Store.load host around directory)
  | path => return .path (← Reading.onStore (Store.path host))
  | define values => return .values values
  | document text trailing => return .element (← Reading.document host text trailing)
  | fragment text => return .fragment (← Reading.fragment host text)
  | fragments text => do
    let (elements, rest) ← Reading.fragments host text
    return .fragments elements rest

end Step

namespace Session

/-- Takes one step, with the log of that step alone. -/
def step (host : Host) (s : Session) (st : Step) : Reply × Session :=
  let (outcome, s') := (st.perform host).run { s with log := [] }
  (⟨outcome, s'.log⟩, { s' with log := [] })

/-- Takes steps in order, each from the session that the one before it left. -/
def steps (host : Host) (s : Session) : List Step → List Reply × Session
  | [] => ([], s)
  | st :: rest =>
    let (reply, s) := s.step host st
    let (replies, s) := s.steps host rest
    (reply :: replies, s)

end Session

end TagMarkup
