import TagMarkup.Config.JsonFiles
import TagMarkup.Proofs.Session.History

/-!
# A configuration that cannot be computed leaves nothing behind

A step that needs the configuration while none is stored, or that loads it, fails where the search
for settings raises an error. Whatever else the step would have done, it answers with that error,
logs nothing, and leaves nothing stored but the directory to look for settings in. From there on the
session is in no way different from one that has just been started: as soon as the configuration is
needed again, on the files and variables of that time, all is as after a fresh load of the
directory.

## Implementation notes

`Session.Idle` says of the steps in between that none of them has computed or forgotten the
configuration. They may well have needed it and failed again. That they leave no file stored is
where it counts that settings files hold plain data.
-/

namespace TagMarkup

namespace Session

/-- A session with the given surroundings in which nothing has happened yet. -/
def freshIn (around : Surroundings) : Session :=
  { start with around }

/-- None of the steps has computed the configuration, and none has forgotten it. -/
def Idle (host : Host) (s : Session) (steps : List Step) : Prop :=
  ∀ e ∈ s.history host steps, ¬ e.Computed host ∧ e.step.forgets? = none

/-- The directory whose settings count for a step: the one that the step names, or else the one
whose settings have counted before. -/
def directoryFor (s : Session) (st : Step) : Path :=
  st.forgets?.getD s.store.directory

/-- A need comes to what a fresh load of the directory comes to, and each step that needs the
configuration goes on as after such a load, with all that follows it. -/
structure GoesOnAsLoaded (host : Host) (s : Session) (directory : Path) : Prop where
  /-- Asking for the configuration is loading it. -/
  get_eq : s.step host .get = (freshIn s.around).step host (.load directory)
  /-- A step that needs the configuration, and the steps after it, are answered as after a load. -/
  steps_eq (next : Step) (later : List Step) : next.NeedsConfig host →
    s.steps host (next :: later) =
      ((freshIn s.around).step host (.load directory)).2.steps host (next :: later)

/-- The step fails with the error and leaves a session that is as good as new. -/
structure FailsCleanly (host : Host) (s : Session) (st : Step) (e : ConfigError) : Prop where
  /-- The step answers with the error and logs nothing. -/
  reply_eq : (s.step host st).1 = ⟨.error (.unusable e), []⟩
  /-- No configuration is stored. -/
  config_eq : (s.step host st).2.store.config = none
  /-- Neither is a file. -/
  file_eq : (s.step host st).2.store.file = none
  /-- The directory is the one that was in force for the step. -/
  directory_eq : (s.step host st).2.store.directory = s.directoryFor st
  /-- The files and variables are as before. -/
  around_eq : (s.step host st).2.around = s.around
  /-- The next need goes as if nothing had happened before, however often it has failed. -/
  retry (between : List Step) : (s.step host st).2.Idle host between →
    GoesOnAsLoaded host ((s.step host st).2.after host between) (s.directoryFor st)

section Retry

variable {host : Host} {s : Session} {st next : Step} {directory : Path} {e : ConfigError}

theorem idle_concat_iff {past : List Step} :
    s.Idle host (past ++ [st]) ↔
      s.Idle host past ∧ ¬ (s.entry host past st).Computed host ∧ st.forgets? = none := by
  rw [Idle, history_concat, List.forall_mem_append, List.forall_mem_singleton]
  rfl

/-- Idle steps leave nothing stored. -/
theorem store_after_idle (plain : host.PlainValues) (nothing : s.store = ⟨none, none, directory⟩)
    {steps : List Step} (idle : s.Idle host steps) :
    (s.after host steps).store = ⟨none, none, directory⟩ := by
  induction steps using List.reverseRecOn with
  | nil => exact nothing
  | append_singleton past st ih =>
      obtain ⟨before, not_computed, keeps⟩ := idle_concat_iff.mp idle
      have hfacing : (st.facing (s.after host past)).store = ⟨none, none, directory⟩ := by
        rw [Step.facing_of_forgets keeps, ih before]
      obtain ⟨file, hstore, kept⟩ :=
        store_step_of_not_computed (congrArg Store.config hfacing) not_computed
      rw [after_concat, hstore, kept plain, hfacing]

/-- Asking for the configuration first makes no difference to a step that needs it. -/
theorem step_after_get (s : Session) (needs : next.NeedsConfig host) :
    (s.step host .get).2.step host next = s.step host next := by
  have hafter : (Step.get.perform host).after { s with log := [] } =
      { s.afterNeed host with log := [] } := by
    rw [Step.perform, Reading.after_map, Reading.after, Reading.run_need]
    rfl
  have hget : (s.step host .get).2 = { s.afterNeed host with log := [] } :=
    congrArg (fun after : Session => { after with log := [] }) hafter
  calc (s.step host .get).2.step host next
      _ = (s.afterNeed host).step host next := by
        rw [hget]
        rfl
      _ = s.step host next := step_afterNeed needs

/-- A step that finds nothing stored, or is a load, faces a store with nothing but a directory. -/
theorem store_facing_of_nothing (nothing : s.store.config = none → s.store.file = none)
    (h : s.store.config = none ∨ ∃ directory, st = .load directory) :
    (st.facing s).store = ⟨none, none, s.directoryFor st⟩ := by
  rcases h with h | ⟨directory, rfl⟩
  · rw [directoryFor]
    cases hforgets : st.forgets? with
    | some directory =>
        rw [Step.facing, hforgets]
        rfl
    | none => rw [Step.facing_of_forgets hforgets, Option.getD_none, ← h, ← nothing h]
  · rfl

/-- Where nothing is stored, all goes on as after a fresh load of the directory. -/
theorem goesOnAsLoaded (nothing : s.store = ⟨none, none, directory⟩) :
    GoesOnAsLoaded host s directory := by
  have hsame : (Step.load directory).facing (freshIn s.around) = { s with log := [] } := by
    change (⟨s.around, ⟨none, none, directory⟩, []⟩ : Session) = _
    rw [← nothing]
  have hload : (freshIn s.around).step host (.load directory) = s.step host .get := by
    rw [step_load, hsame]
    rfl
  constructor
  · exact hload.symm
  · intro next later needs
    rw [hload, steps, steps, step_after_get s needs]

end Retry

/-- A settings file is written that is not JSON. -/
def brokenFile : List Step :=
  [.writeFile [".tagweaverc.json"] "\x7b"]

/-- The file is written anew. -/
def repair : Step :=
  .writeFile [".tagweaverc.json"] "\x7b\"debug\":true\x7d"

end Session

end TagMarkup
