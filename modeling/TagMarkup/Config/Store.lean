import TagMarkup.Config.Environment
import TagMarkup.Config.Host

/-!
# The configuration in force

The configuration is computed when it is first needed and kept until it is reset or loaded again.
Files and variables are read only then. Where it cannot be computed none is stored, and the next
need tries again.

## Implementation notes

The configuration and the file that it came from are stored in cells of their own, which are
assigned one after the other: the file as soon as it has been found, the configuration when all its
layers have been read. Nothing but the order of the assignments keeps the two together.
-/

namespace TagMarkup

/-- What a configuration is computed from. -/
structure Surroundings where
  /-- The files below the working directory. -/
  files : Files
  /-- The environment variables. -/
  environment : Variables

namespace Surroundings

/-- No files and no variables. -/
def empty : Surroundings :=
  ⟨[], []⟩

end Surroundings

/-- The cells for the configuration, for the file that it came from, and for the directory to look
for settings in. -/
structure Store where
  /-- The configuration in force, if it has been computed. -/
  config : Option Config
  /-- The file that was found last. -/
  file : Option Path
  /-- The directory whose settings count. -/
  directory : Path
deriving DecidableEq

namespace Store

/-- Nothing is stored, and the settings of the working directory count. -/
def reset : Store :=
  ⟨none, none, []⟩

/-- The layer of the file that is found. The cell for the file is assigned before the settings are
read, and left as it is if there is no file. -/
def readFile (host : Host) (fs : Files) (s : Store) : Except ConfigError Layer × Store :=
  match host.find fs s.directory with
  | .error e => (.error e, s)
  | .ok none => (.ok .empty, s)
  | .ok (some found) => (found.settings.map .ofJson, { s with file := some found.file })

/-- The configuration in force, computed and stored if it is not there yet. -/
def need (host : Host) (around : Surroundings) (s : Store) : Except ConfigError Config × Store :=
  match s.config with
  | some config => (.ok config, s)
  | none =>
    match s.readFile host around.files with
    | (.error e, s) => (.error e, s)
    | (.ok fromFile, s) =>
      let config := (Config.defaults.overlay fromFile).overlay around.environment.layer
      (.ok config, { s with config := some config })

/-- Forgets what is stored and computes the configuration with the settings of a directory. -/
def load (host : Host) (around : Surroundings) (directory : Path) :
    Except ConfigError Config × Store :=
  need host around { reset with directory }

/-- Puts a layer on top of the configuration in force, unless that cannot be computed. -/
def set (host : Host) (around : Surroundings) (l : Layer) (s : Store) :
    Except ConfigError Unit × Store :=
  match s.need host around with
  | (.error e, s) => (.error e, s)
  | (.ok config, s) => (.ok (), { s with config := some (config.overlay l) })

/-- What is in the cell for the file once the configuration has been computed. -/
def path (host : Host) (around : Surroundings) (s : Store) :
    Except ConfigError (Option Path) × Store :=
  match s.need host around with
  | (.error e, s) => (.error e, s)
  | (.ok _, s) => (.ok s.file, s)

end Store

end TagMarkup
