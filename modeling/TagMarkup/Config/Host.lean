import TagMarkup.Config.Basic

/-!
# Hosts

Settings are looked for in files, and the search for them is no part of this library: a `Host`
supplies it. A host also says how many rules of a grammar may be active at once. Everything about
the configuration and about documents is stated for any host; `TagMarkup.Config.JsonFiles` has one
to run the library on.

## Implementation notes

A search is a function of files and a directory. So the same search among the same files comes to
the same, whenever it is made, and a search that raises an error has no other effect.

A settings file may be a program, and then the members of what it holds may be computed when they
are read. `Found.value` is therefore the value or what is raised on reading it. By that time the
file has been found; see `Store.readFile`.

Paths are lists of names, relative to the working directory, with `.` and `..` already worked out.
Directories are not kept.
-/

namespace TagMarkup

/-- The names on the way from the working directory to a file or directory. -/
abbrev Path := List Text

/-- Files with their contents. -/
abbrev Files := List (Path × Text)

namespace Files

/-- Removes a file. -/
def remove (fs : Files) (p : Path) : Files :=
  fs.filter fun entry => entry.1 != p

/-- Gives a file a content. -/
def write (fs : Files) (p : Path) (content : Text) : Files :=
  (p, content) :: fs.remove p

end Files

/-- What a search for settings raises, or what is raised when the settings it has found are read. -/
structure ConfigError where
  /-- The kind of the error. -/
  name : Text
  /-- Its message, if that is told. -/
  message : Option Text
deriving DecidableEq

/-- What a search for settings has found. -/
structure Found where
  /-- The file. -/
  file : Path
  /-- Whether the file is there but empty. -/
  isEmpty : Bool
  /-- The value that the file holds, as far as settings can be read off it, or what is raised when
  it is read. -/
  value : Except ConfigError Json

/-- The settings in the value of a file: those of its member `default`, if that is an object. -/
def Json.unwrapped (j : Json) : Json :=
  match j.get? "default" with
  | some (.object ms) => .object ms
  | _ => j

/-- The settings in what has been found. -/
def Found.settings (found : Found) : Except ConfigError Json :=
  found.value.map Json.unwrapped

/-- What the library runs on. -/
structure Host where
  /-- Looks for settings among files, for those of a directory. -/
  search : Files → Path → Except ConfigError (Option Found)
  /-- How many rules of a grammar may be active at once. -/
  limit : Nat

/-- The settings found for a directory. An empty file counts for nothing. -/
def Host.find (host : Host) (fs : Files) (directory : Path) : Except ConfigError (Option Found) :=
  (host.search fs directory).map fun found => found.filter fun found => !found.isEmpty

end TagMarkup
