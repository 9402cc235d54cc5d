import TagMarkup.Config.JsonFiles
import TagMarkup.Config.Store
import TagMarkup.Proofs.Config.Layers

/-!
# What a need finds and what it leaves

Where no configuration is stored, a need comes out in one of three ways: the search raises an error,
what it has found cannot be read, or the configuration is computed, from what has been found and
from the environment. The first leaves everything as it was. The second leaves the file assigned,
without a configuration to go with it. Where settings files hold plain data it does not occur.

## Implementation notes

`Store.Needed` has one constructor for each of the three. All that is known about a need is derived
from `Store.needed`.
-/

namespace TagMarkup

namespace Host

variable {host : Host} {fs : Files} {directory : Path} {found : Found} {e : ConfigError}

/-- Settings files hold plain data: nothing is raised when what has been found is read. -/
def PlainValues (host : Host) : Prop :=
  ∀ fs directory found, host.search fs directory = .ok (some found) →
    ∃ value, found.value = .ok value

theorem find_eq_error_iff : host.find fs directory = .error e ↔
    host.search fs directory = .error e := by
  rw [find]
  cases host.search fs directory with
  | error e' => simp [Except.map]
  | ok result => simp [Except.map]

/-- What counts has been found by the search, in a file that is not empty. -/
theorem search_of_find (h : host.find fs directory = .ok (some found)) :
    host.search fs directory = .ok (some found) ∧ found.isEmpty = false := by
  rw [find] at h
  cases hsearch : host.search fs directory with
  | error e =>
      rw [hsearch] at h
      cases h
  | ok result =>
      rw [hsearch, Except.map, Except.ok.injEq, Option.filter_eq_some_iff] at h
      obtain ⟨rfl, nonempty⟩ := h
      exact ⟨rfl, by simpa using nonempty⟩

/-- Settings can be read off plain data. -/
theorem PlainValues.settings_ne_error (plain : host.PlainValues)
    (h : host.find fs directory = .ok (some found)) : found.settings ≠ .error e := by
  obtain ⟨value, hvalue⟩ := plain fs directory found (search_of_find h).1
  rw [Found.settings, hvalue]
  exact nofun

end Host

/-- What JSON files hold is plain data. -/
theorem JsonFiles.plainValues_host (limit : Nat) : (JsonFiles.host limit).PlainValues := by
  intro fs directory found h
  change (JsonFiles.find fs directory).map _ = .ok (some found) at h
  cases hfind : JsonFiles.find fs directory with
  | error e =>
      rw [hfind] at h
      cases h
  | ok result =>
      rw [hfind] at h
      cases result with
      | none => cases h
      | some entry =>
          cases h
          exact ⟨entry.2, rfl⟩

/-- The values that a configuration is layered from when it is computed: the settings found in a
file, if there are any, and those of the environment. -/
def Config.sources (settings : Option Json) (environment : Variables) : List Json :=
  settings.toList ++ [.object environment.settings]

namespace Store

section Finds

variable {host : Host} {fs : Files} {directory : Path} {result : Option Found}
  {settings : Option Json}

/-- What has been found, and the settings that have been read off it, are what a search among files
comes to. -/
def Finds (host : Host) (fs : Files) (directory : Path) (found : Option Found)
    (settings : Option Json) : Prop :=
  host.find fs directory = .ok found ∧ found.map Found.settings = settings.map .ok

/-- Without a file there are no settings. -/
theorem Finds.settings_eq_none (h : Finds host fs directory result settings)
    (nothing : result = none) : settings = none := by
  obtain ⟨-, hsettings⟩ := h
  subst nothing
  exact Option.map_eq_none_iff.mp hsettings.symm

/-- The settings of a file are the value that was found in it, unwrapped once. -/
theorem Finds.exists_unwraps (h : Finds host fs directory result settings) {found : Found}
    (hfound : result = some found) :
    ∃ value settings', found.value = .ok value ∧ settings = some settings' ∧
      value.Unwraps settings' := by
  obtain ⟨-, hsettings⟩ := h
  subst hfound
  obtain ⟨settings', rfl, hok⟩ := Option.map_eq_some_iff.mp hsettings.symm
  cases hvalue : found.value with
  | error e =>
      rw [Found.settings, hvalue] at hok
      cases hok
  | ok value =>
      rw [Found.settings, hvalue] at hok
      cases hok
      exact ⟨value, _, rfl, rfl, value.unwraps_unwrapped⟩

end Finds

section Need

variable {host : Host} {around : Surroundings} {s : Store} {config : Config} {e : ConfigError}

theorem need_of_config (h : s.config = some config) : s.need host around = (.ok config, s) := by
  rw [need, h]

/-- What a need for a configuration that is not stored may come to, and the store that it leaves. -/
inductive Needed (host : Host) (around : Surroundings) (s : Store) :
    Except ConfigError Config × Store → Prop where
  /-- The search raises an error. -/
  | raised (e : ConfigError) (finds : host.find around.files s.directory = .error e) :
      Needed host around s (.error e, s)
  /-- An error is raised when the settings in the file that has been found are read. -/
  | unreadable (found : Found) (e : ConfigError)
      (finds : host.find around.files s.directory = .ok (some found))
      (reads : found.settings = .error e) :
      Needed host around s (.error e, { s with file := some found.file })
  /-- The configuration is layered from the settings that have been found and the environment. -/
  | computed (found : Option Found) (settings : Option Json) (config : Config)
      (finds : Finds host around.files s.directory found settings)
      (layers : config = .ofLayers (Config.sources settings around.environment)) :
      Needed host around s
        (.ok config, ⟨some config, (found.map Found.file).or s.file, s.directory⟩)

theorem needed (host : Host) (around : Surroundings) (h : s.config = none) :
    Needed host around s (s.need host around) := by
  obtain ⟨_, file, directory⟩ := s
  cases h
  simp only [need, readFile]
  cases hfind : host.find around.files directory with
  | error e => exact .raised e hfind
  | ok found =>
      cases found with
      | none => exact .computed none none _ ⟨hfind, rfl⟩ rfl
      | some found =>
          cases hsettings : found.settings with
          | error e =>
              simp only [hsettings, Except.map]
              exact .unreadable found e hfind hsettings
          | ok settings =>
              simp only [hsettings, Except.map]
              have finds : Finds host around.files directory (some found) (some settings) :=
                ⟨hfind, by rw [Option.map_some, hsettings, Option.map_some]⟩
              exact .computed (some found) (some settings) _ finds rfl

/-- A need that computes the configuration has found what its layers tell, and assigns the file if
one was found. -/
theorem need_of_ok (h : s.config = none) (computed : (s.need host around).1 = .ok config) :
    ∃ found settings, Finds host around.files s.directory found settings ∧
      config = .ofLayers (Config.sources settings around.environment) ∧
      (s.need host around).2 = ⟨some config, (found.map Found.file).or s.file, s.directory⟩ := by
  have outcome := needed host around h
  generalize s.need host around = result at outcome computed ⊢
  cases outcome with
  | raised | unreadable => cases computed
  | computed found settings config' finds layers =>
      cases computed
      exact ⟨found, settings, finds, layers, rfl⟩

/-- A need that fails leaves the directory, and the file as well where settings files hold plain
data. -/
theorem need_of_error (h : s.config = none) (failed : (s.need host around).1 = .error e) :
    ∃ file, (s.need host around).2 = ⟨none, file, s.directory⟩ ∧
      (host.PlainValues → file = s.file) := by
  have outcome := needed host around h
  generalize s.need host around = result at outcome failed ⊢
  cases outcome with
  | raised e' finds =>
      refine ⟨s.file, ?_, fun _ => rfl⟩
      rw [← h]
  | unreadable found e' finds reads =>
      refine ⟨some found.file, ?_, ?_⟩
      · rw [← h]
      · intro plain
        exact absurd reads (plain.settings_ne_error finds)
  | computed => cases failed

/-- A search that raises an error leaves everything as it was. -/
theorem need_of_search_error (h : s.config = none)
    (raised : host.search around.files s.directory = .error e) :
    s.need host around = (.error e, s) := by
  have hfind := Host.find_eq_error_iff.mpr raised
  rw [need, h]
  simp only [readFile, hfind]

/-- Where settings files hold plain data, a need fails exactly if the search raises an error. -/
theorem need_eq_error_iff (plain : host.PlainValues) (h : s.config = none) :
    (s.need host around).1 = .error e ↔ host.search around.files s.directory = .error e := by
  constructor
  · intro failed
    have outcome := needed host around h
    generalize s.need host around = result at outcome failed
    cases outcome with
    | raised e' finds =>
        cases failed
        exact Host.find_eq_error_iff.mp finds
    | unreadable found e' finds reads => exact absurd reads (plain.settings_ne_error finds)
    | computed => cases failed
  · intro raised
    rw [need_of_search_error h raised]

/-- Where an error is raised when the settings in a file are read, the file has been assigned. -/
theorem need_of_unreadable {found : Found} (h : s.config = none)
    (finds : host.find around.files s.directory = .ok (some found))
    (unreadable : found.value = .error e) :
    s.need host around = (.error e, { s with file := some found.file }) := by
  simp only [need, h, readFile, finds, Found.settings, unreadable, Except.map]

/-- Where nothing is found, the configuration is computed and the file is left as it is. -/
theorem exists_need_of_nothing (h : s.config = none)
    (finds : host.find around.files s.directory = .ok none) :
    ∃ config, s.need host around = (.ok config, { s with config := some config }) := by
  simp only [need, h, readFile, finds]
  exact ⟨_, rfl⟩

/-- Needing the configuration again makes no difference, also where it cannot be computed. -/
theorem need_need (host : Host) (around : Surroundings) (s : Store) :
    (s.need host around).2.need host around = s.need host around := by
  cases hconfig : s.config with
  | some config => rw [need_of_config hconfig, need_of_config hconfig]
  | none =>
      have outcome := needed host around hconfig
      generalize hneed : s.need host around = result at outcome ⊢
      cases outcome with
      | raised e finds => exact hneed
      | unreadable found e finds reads =>
          simp only [need, hconfig, readFile, finds, reads, Except.map]
      | computed found settings config finds layers => rw [need]

/-- A need that succeeds leaves the configuration stored. -/
theorem config_need_of_ok (h : (s.need host around).1 = .ok config) :
    (s.need host around).2.config = some config := by
  cases hconfig : s.config with
  | some config' =>
      rw [need_of_config hconfig] at h ⊢
      cases h
      exact hconfig
  | none =>
      obtain ⟨found, settings, -, -, hstore⟩ := need_of_ok hconfig h
      rw [hstore]

end Need

end Store

end TagMarkup
