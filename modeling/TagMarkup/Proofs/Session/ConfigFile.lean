import TagMarkup.Config.JsonFiles
import TagMarkup.Proofs.Session.History

/-!
# The file that the settings came from

Where settings files hold plain data, the file that a session reports is that of the configuration
in force: the file that was found by the search from which that configuration was computed, and none
if none was found. It stays the same until the configuration is forgotten, whatever becomes of files
and variables.

## Implementation notes

The cells for the configuration and for its file are assigned one after the other, and nothing but
the order of the assignments keeps them together. If an error is raised between the two, the file
is left without a configuration, and the next search that finds nothing leaves it where it is; see
`Session.outcome_step_path_of_unreadable`. Plain data rules that out.
-/

namespace TagMarkup

namespace Session

/-- The history explains a configuration and the file next to it. -/
structure Origin.Explains {host : Host} {start : Session} {steps : List Step}
    (o : Origin host start steps) (config : Config) (file : Option Path) : Prop where
  /-- The configuration has the layers that the history tells. -/
  config_eq : config = .ofLayers o.layers
  /-- The file is the one that was found when the configuration was computed, if there was one. -/
  file_eq : file = o.found.map Found.file
  /-- It was found by the search for the directory that counts, among the files of that time. -/
  find_eq : host.find o.around.files o.directory = .ok o.found
  /-- A value that is not an object adds nothing to the configuration, and is found all the same. -/
  ofJson_eq_empty (found : Found) (value : Json) : o.found = some found →
    found.value = .ok value → (∀ ms, value ≠ .object ms) →
      o.settings = some value ∧ Layer.ofJson value = .empty

/-- What a session stores after steps, and what it reports of that. -/
structure ReportsFile (host : Host) (start : Session) (steps : List Step) : Prop where
  /-- Where there is no configuration, there is no file. -/
  file_of_none : (start.after host steps).store.config = none →
    (start.after host steps).store.file = none
  /-- The file next to a configuration belongs to it. -/
  file_of_some (config : Config) : (start.after host steps).store.config = some config →
    ∃ o : Origin host start steps, o.Explains config (start.after host steps).store.file
  /-- It stays as it is until the configuration is forgotten. -/
  file_after (later : List Step) : (start.after host steps).store.config ≠ none →
    (∀ st ∈ later, st.forgets? = none) →
      ((start.after host steps).after host later).store.config ≠ none ∧
        ((start.after host steps).after host later).store.file =
          (start.after host steps).store.file
  /-- Asking for the file fails where the configuration cannot be computed. Elsewhere it is answered
  with the file that is then stored, which belongs to the configuration that is then stored. -/
  answered : (∃ e, (start.after host steps).inForce host = .error e ∧
      (start.entry host steps .path).reply.outcome = .error (.unusable e)) ∨
    ∃ (o : Origin host start (steps ++ [.path])) (config : Config) (file : Option Path),
      (start.after host (steps ++ [.path])).store.config = some config ∧
        (start.after host (steps ++ [.path])).store.file = file ∧ o.Explains config file ∧
        (start.entry host steps .path).reply.outcome = .ok (.path file)

section ReportsFile

variable {host : Host} {start s : Session} {steps : List Step} {st : Step} {config : Config}
  {e : ConfigError}

/-- What is stored after steps of a session that starts afresh is explained by its history. -/
theorem exists_explains (plain : host.PlainValues) (fresh : start.store = .reset)
    (stored : (start.after host steps).store.config = some config) :
    ∃ o : Origin host start steps, o.Explains config (start.after host steps).store.file := by
  have accounted : Accounted host start steps _ := accounted_of_fresh fresh steps
  rw [Accounted, stored] at accounted
  obtain ⟨o, config_eq, file_eq⟩ := accounted
  refine ⟨o, config_eq, file_eq plain, o.finds.1, ?_⟩
  intro found value hfound hvalue other
  obtain ⟨value', settings, hvalue', hsettings, unwraps⟩ := o.finds.exists_unwraps hfound
  cases hvalue.symm.trans hvalue'
  rcases unwraps with ⟨_, ⟨ms, rfl, -⟩, -⟩ | ⟨-, rfl⟩
  · exact absurd rfl (other ms)
  · exact ⟨hsettings, Layer.ofJson_eq_empty other⟩

/-- A step that does not forget what is stored keeps the file. -/
theorem file_step_of_config (stored : s.store.config = some config) (keeps : st.forgets? = none) :
    (s.step host st).2.store.config ≠ none ∧ (s.step host st).2.store.file = s.store.file := by
  have hfacing := Step.facing_of_forgets keeps s
  by_cases needs : st.NeedsConfig host
  · have hforce : (st.facing s).inForce host = .ok config := by
      rw [hfacing]
      exact inForce_of_config stored
    rw [store_step_of_ok needs hforce, hfacing, afterNeed_of_config stored]
    exact ⟨Option.some_ne_none _, rfl⟩
  · rw [store_step_of_not_needsConfig needs, hfacing, stored]
    exact ⟨Option.some_ne_none _, rfl⟩

/-- So do any number of such steps. -/
theorem file_after_of_config (stored : s.store.config ≠ none) {later : List Step}
    (keeps : ∀ st ∈ later, st.forgets? = none) :
    (s.after host later).store.config ≠ none ∧
      (s.after host later).store.file = s.store.file := by
  induction later using List.reverseRecOn with
  | nil => exact ⟨stored, rfl⟩
  | append_singleton past st ih =>
      obtain ⟨before, last⟩ := List.forall_mem_append.mp keeps
      obtain ⟨hconfig, hfile⟩ := ih before
      obtain ⟨config, hstored⟩ := Option.ne_none_iff_exists'.mp hconfig
      have hlast : st.forgets? = none := last st (List.mem_singleton_self st)
      obtain ⟨hstep, hkept⟩ := file_step_of_config hstored hlast
      rw [after_concat]
      exact ⟨hstep, hkept.trans hfile⟩

theorem outcome_step_path_of_error (h : s.inForce host = .error e) :
    (s.step host .path).1.outcome = .error (.unusable e) := by
  have needs : Step.path.NeedsConfig host := trivial
  rw [step_of_error needs h]

/-- Where an error is raised when the settings in a file are read, the file is stored all the same.
A search that finds nothing does not clear it, so it is reported with a configuration that it has no
part in. -/
theorem outcome_step_path_of_unreadable {found : Found} {around : Surroundings}
    (nothing : s.store.config = none)
    (finds : host.find s.around.files s.store.directory = .ok (some found))
    (unreadable : found.value = .error e)
    (later : host.find around.files s.store.directory = .ok none) :
    (step host { s.afterNeed host with around } .path).1.outcome =
      .ok (.path (some found.file)) := by
  have hfailed : s.afterNeed host = { s with store.file := some found.file } := by
    rw [afterNeed, Store.need_of_unreadable nothing finds unreadable]
  rw [hfailed]
  obtain ⟨config, hneed⟩ : ∃ config,
      Store.need host around { s.store with file := some found.file } =
        (.ok config, ⟨some config, some found.file, s.store.directory⟩) :=
    Store.exists_need_of_nothing nothing later
  have hforce : inForce host { s with around, store.file := some found.file } = .ok config :=
    congrArg Prod.fst hneed
  rw [outcome_step_path hforce]
  change Except.ok (Answer.path (Store.need host around _).2.file) = _
  rw [hneed]

end ReportsFile

/-- A file that holds a number is read, a directory with an unusable file is tried, and that file is
removed. -/
def directoryTried : List Step :=
  [.writeFile [".tagweaverc"] "7", .get, .writeFile ["sub", ".tagweaverc"] "\x7b", .load ["sub"],
    .removeFile ["sub", ".tagweaverc"], .get]

end Session

end TagMarkup
