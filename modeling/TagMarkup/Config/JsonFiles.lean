import TagMarkup.Config.Host
import TagMarkup.Json.Reader

/-!
# Settings in JSON files

This host takes settings from files that hold JSON. They are looked for in one directory, in a fixed
order of places. The first file that is there, is not blank and does not hold the null value is
used; in a package description the value of the tool's own key counts. A file that is reached and is
not JSON ends the search in an error, and so does a package description that holds the null value,
which has no keys. The package description of the working directory is reached in every search,
before the places of the directory in question.

## Implementation notes

The library runs on this host where no settings file is a program, and examples are worked out on
it. Nothing else rests on it.
-/

namespace TagMarkup

namespace JsonFiles

/-- The key of the settings in a package description, and the stem of the names of the files. -/
def toolName : String := "tagweave"

/-- The package description. -/
def packageFile : Path := ["package.json"]

/-- The endings of the names of settings files. -/
def endings : List String := ["", ".json", ".yaml", ".yml"]

/-- The settings file with a given ending in the directory itself. -/
def hiddenFile (ending : String) : Path :=
  [Text.ofString ("." ++ toolName ++ "rc" ++ ending)]

/-- The settings file with a given ending in the folder for settings. -/
def folderFile (ending : String) : Path :=
  [Text.ofString ".config", Text.ofString (toolName ++ "rc" ++ ending)]

/-- The places where settings are looked for, in order. -/
def places : List Path :=
  packageFile :: (endings.map hiddenFile ++ endings.map folderFile)

/-- The error for a file that is not JSON. -/
def notJson : ConfigError :=
  ⟨"JSONError", none⟩

/-- The error for a package description that holds the null value. -/
def nullPackage : ConfigError :=
  ⟨"TypeError", some "Cannot convert undefined or null to object"⟩

/-- The value that counts in a file: `none` if the search is to go on. -/
def valueIn? (place : Path) (content : Text) : Except ConfigError (Option Json) :=
  if content.isBlank then .ok none
  else
    match Json.read? content with
    | none => .error notJson
    | some .null => if place = packageFile then .error nullPackage else .ok none
    | some j =>
      match if place = packageFile then j.get? toolName else some j with
      | none | some .null => .ok none
      | some value => .ok (some value)

/-- Looks through places of a directory in order. -/
def among (fs : Files) (directory : Path) : List Path → Except ConfigError (Option (Path × Json))
  | [] => .ok none
  | place :: rest =>
    match fs.lookup (directory ++ place) with
    | none => among fs directory rest
    | some content =>
      match valueIn? place content with
      | .error e => .error e
      | .ok none => among fs directory rest
      | .ok (some value) => .ok (some (directory ++ place, value))

/-- Looks for settings in a directory, after a look at the package description of the working
directory. -/
def find (fs : Files) (directory : Path) : Except ConfigError (Option (Path × Json)) :=
  match among fs [] [packageFile] with
  | .error e => .error e
  | .ok _ => among fs directory places

/-- The host that takes settings from JSON files. -/
def host (limit : Nat) : Host where
  search fs directory :=
    (find fs directory).map (Option.map fun (file, value) => ⟨file, false, .ok value⟩)
  limit := limit

@[simp] theorem limit_host (n : Nat) : (host n).limit = n := rfl

end JsonFiles

end TagMarkup
