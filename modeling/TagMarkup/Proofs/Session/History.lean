import TagMarkup.Config.JsonFiles
import TagMarkup.Proofs.Session.Steps

/-!
# The configuration in force is told by the history

Which configuration is in force at a step is a matter of the steps before it and their replies. It
is layered from the file and the environment as they were when the configuration was first needed
with success since it was last forgotten, and from the values that have been set with success since
then. Later changes of files and variables make no difference to it, and neither do needs that
fail.

## Implementation notes

`Session.Origin` is the account that a history gives of the stored configuration, and where settings
files hold plain data, of the file that is stored next to it. What one step does to that account is
`Session.Accounted.concat`; every session that starts afresh has one (`Session.accounted_of_fresh`),
by induction on its steps from the first to the last.
-/

namespace TagMarkup

namespace Entry

/-- The entries begin where the stored configuration was last forgotten, or where the session
began, and the settings of the directory count from there on. -/
def SinceForgotten (earlier entries : List Entry) (directory : Path) : Prop :=
  (earlier = [] ∧ directory = [] ∧ ∀ e ∈ entries, e.step.forgets? = none) ∨
    ∃ first others, entries = first :: others ∧ first.step.forgets? = some directory ∧
      ∀ e ∈ others, e.step.forgets? = none

variable {earlier entries : List Entry} {directory : Path} {e : Entry}

theorem SinceForgotten.concat (h : SinceForgotten earlier entries directory)
    (keeps : e.step.forgets? = none) : SinceForgotten earlier (entries ++ [e]) directory := by
  rcases h with ⟨rfl, rfl, all⟩ | ⟨first, others, rfl, forgets, all⟩
  · exact .inl ⟨rfl, rfl, List.forall_mem_append.mpr ⟨all, List.forall_mem_singleton.mpr keeps⟩⟩
  · right
    refine ⟨first, others ++ [e], rfl, forgets, ?_⟩
    exact List.forall_mem_append.mpr ⟨all, List.forall_mem_singleton.mpr keeps⟩

theorem sinceForgotten_singleton (forgets : e.step.forgets? = some directory) :
    SinceForgotten earlier [e] directory :=
  .inr ⟨e, [], rfl, forgets, List.forall_mem_nil _⟩

theorem filterMap_singleton (e : Entry) : [e].filterMap setting? = e.setting?.toList := by
  rw [List.filterMap_cons]
  cases e.setting? with
  | none => rfl
  | some values => rfl

end Entry

namespace Session

/-- How a history accounts for a configuration: when it was last forgotten, when it was first
computed after that, and what was found then. -/
structure Origin (host : Host) (start : Session) (steps : List Step) where
  /-- What happened before the configuration was last forgotten. -/
  earlier : List Entry
  /-- What has happened from then on before the configuration was computed. -/
  idle : List Entry
  /-- The step for which it was computed. -/
  first : Entry
  /-- What has happened since. -/
  later : List Entry
  /-- The directory whose settings count. -/
  directory : Path
  /-- What the search has found. -/
  found : Option Found
  /-- The settings that have been read off it. -/
  settings : Option Json
  /-- This is the whole history. -/
  history_eq : start.history host steps = earlier ++ (idle ++ first :: later)
  /-- The configuration was last forgotten there. -/
  since : Entry.SinceForgotten earlier (idle ++ first :: later) directory
  /-- It was not computed before. -/
  not_computed : ∀ e ∈ idle, ¬ e.Computed host
  /-- It was computed then. -/
  computed : first.Computed host
  /-- The search was for that directory, among the files that were there then. -/
  finds : Store.Finds host (start.after host ((earlier ++ idle).map Entry.step)).around.files
    directory found settings

namespace Origin

variable {host : Host} {start : Session} {steps : List Step}

/-- The files and variables when the configuration was computed. -/
def around (o : Origin host start steps) : Surroundings :=
  (start.after host ((o.earlier ++ o.idle).map Entry.step)).around

/-- The layers above the defaults: the file, the environment, and the values set with success since
the configuration was last forgotten. -/
def layers (o : Origin host start steps) : List Json :=
  Config.sources o.settings o.around.environment ++
    (o.idle ++ o.first :: o.later).filterMap Entry.setting?

end Origin

/-- Before a step that faces nothing stored, the history since the configuration was last forgotten
shows no success in computing it. -/
structure Pending (host : Host) (start : Session) (past : List Step) (st : Step) (directory : Path)
    (earlier idle : List Entry) : Prop where
  /-- This is the history before the step. -/
  history_eq : start.history host past = earlier ++ idle
  /-- The step belongs to what has happened since the configuration was last forgotten. -/
  since : Entry.SinceForgotten earlier (idle ++ [start.entry host past st]) directory
  /-- It was not computed before the step. -/
  not_computed : ∀ e ∈ idle, ¬ e.Computed host

/-- The history accounts for what is stored, or for there being nothing stored. It accounts for the
file as well where settings files hold plain data. -/
def Accounted (host : Host) (start : Session) (steps : List Step) (store : Store) : Prop :=
  match store.config with
  | none => (host.PlainValues → store.file = none) ∧
      ∃ earlier idle, start.history host steps = earlier ++ idle ∧
        Entry.SinceForgotten earlier idle store.directory ∧ ∀ e ∈ idle, ¬ e.Computed host
  | some config => ∃ o : Origin host start steps, config = .ofLayers o.layers ∧
      (host.PlainValues → store.file = o.found.map Found.file)

section Accounted

variable {host : Host} {start : Session} {past : List Step} {st : Step} {directory : Path}
  {earlier idle : List Entry} {found : Option Found} {settings : Option Json}

theorem Accounted.pending {s : Session} (h : Accounted host start past s.store)
    (nothing : (st.facing s).store.config = none) :
    (host.PlainValues → (st.facing s).store.file = none) ∧
      ∃ earlier idle, Pending host start past st (st.facing s).store.directory earlier idle := by
  cases hforgets : st.forgets? with
  | some directory =>
      rw [Step.facing, hforgets]
      refine ⟨fun _ => rfl, start.history host past, [], ?_, ?_, ?_⟩
      · exact (List.append_nil _).symm
      · exact Entry.sinceForgotten_singleton hforgets
      · exact List.forall_mem_nil _
  | none =>
      rw [Step.facing_of_forgets hforgets] at nothing ⊢
      rw [Accounted, nothing] at h
      obtain ⟨file_none, earlier, idle, history_eq, since, not_computed⟩ := h
      exact ⟨file_none, earlier, idle, history_eq, since.concat hforgets, not_computed⟩

/-- A step that is not successful in computing the configuration leaves the account open. -/
theorem Pending.history_concat (pending : Pending host start past st directory earlier idle)
    (h : ¬ (start.entry host past st).Computed host) :
    ∃ earlier idle, start.history host (past ++ [st]) = earlier ++ idle ∧
      Entry.SinceForgotten earlier idle directory ∧ ∀ e ∈ idle, ¬ e.Computed host := by
  refine ⟨earlier, idle ++ [start.entry host past st], ?_, pending.since, ?_⟩
  · rw [Session.history_concat, pending.history_eq, List.append_assoc]
  · exact List.forall_mem_append.mpr ⟨pending.not_computed, List.forall_mem_singleton.mpr h⟩

theorem Pending.map_step (pending : Pending host start past st directory earlier idle) :
    (earlier ++ idle).map Entry.step = past := by
  rw [← pending.history_eq, map_step_history]

/-- A step that computes the configuration is its origin. -/
def Pending.origin (pending : Pending host start past st directory earlier idle)
    (computed : (start.entry host past st).Computed host)
    (finds : Store.Finds host (start.after host past).around.files directory found settings) :
    Origin host start (past ++ [st]) where
  earlier := earlier
  idle := idle
  first := start.entry host past st
  later := []
  directory := directory
  found := found
  settings := settings
  history_eq := by rw [Session.history_concat, pending.history_eq, List.append_assoc]
  since := pending.since
  not_computed := pending.not_computed
  computed := computed
  finds := by
    rw [pending.map_step]
    exact finds

theorem Pending.layers_origin (pending : Pending host start past st directory earlier idle)
    (computed : (start.entry host past st).Computed host)
    (finds : Store.Finds host (start.after host past).around.files directory found settings) :
    (pending.origin computed finds).layers =
      Config.sources settings (start.after host past).around.environment ++
        (start.entry host past st).setting?.toList := by
  have haround : (pending.origin computed finds).around = (start.after host past).around :=
    congrArg (fun steps => (start.after host steps).around) pending.map_step
  have hidle : idle.filterMap Entry.setting? = [] := by
    apply List.filterMap_eq_nil_iff.mpr
    intro e he
    exact Entry.setting?_eq_none_of_not_computed (pending.not_computed e he)
  rw [Origin.layers, haround]
  change _ ++ (idle ++ [start.entry host past st]).filterMap Entry.setting? = _
  rw [List.filterMap_append, hidle, List.nil_append, Entry.filterMap_singleton]
  rfl

/-- A further step that does not forget the configuration is part of its account. -/
def Origin.concat (o : Origin host start past) (keeps : st.forgets? = none) :
    Origin host start (past ++ [st]) where
  earlier := o.earlier
  idle := o.idle
  first := o.first
  later := o.later ++ [start.entry host past st]
  directory := o.directory
  found := o.found
  settings := o.settings
  history_eq := by simp [Session.history_concat, o.history_eq]
  since := by
    have hsince := o.since.concat (e := start.entry host past st) keeps
    simpa using hsince
  not_computed := o.not_computed
  computed := o.computed
  finds := o.finds

theorem Origin.layers_concat (o : Origin host start past) (keeps : st.forgets? = none) :
    (o.concat keeps).layers = o.layers ++ (start.entry host past st).setting?.toList := by
  change _ ++ (o.idle ++ o.first :: (o.later ++ [start.entry host past st])).filterMap
    Entry.setting? = _
  rw [← List.cons_append, ← List.append_assoc, List.filterMap_append, Entry.filterMap_singleton,
    ← List.append_assoc]
  rfl

/-- A step that faces no configuration and does not compute it leaves the account open. -/
theorem accounted_of_not_computed (h : Accounted host start past (start.after host past).store)
    (nothing : (st.facing (start.after host past)).store.config = none)
    (failed : ¬ (start.entry host past st).Computed host) :
    Accounted host start (past ++ [st]) (start.after host (past ++ [st])).store := by
  obtain ⟨file_none, earlier, idle, pending⟩ := h.pending nothing
  obtain ⟨file, hstore, kept⟩ := store_step_of_not_computed nothing failed
  rw [after_concat, hstore]
  exact ⟨fun plain => (kept plain).trans (file_none plain), pending.history_concat failed⟩

/-- A step that computes the configuration opens its account. -/
theorem accounted_of_computed (h : Accounted host start past (start.after host past).store)
    (nothing : (st.facing (start.after host past)).store.config = none)
    (computed : (start.entry host past st).Computed host) :
    Accounted host start (past ++ [st]) (start.after host (past ++ [st])).store := by
  obtain ⟨file_none, earlier, idle, pending⟩ := h.pending nothing
  obtain ⟨needs, config, hforce⟩ := computed_iff.mp computed
  obtain ⟨found, settings, finds, rfl, hneed⟩ := Store.need_of_ok nothing hforce
  rw [around_facing] at finds
  rw [after_concat, store_step_of_ok needs hforce, onTop_ofLayers computed, Accounted]
  refine ⟨pending.origin computed finds, ?_, ?_⟩
  · rw [pending.layers_origin computed finds, around_facing]
    rfl
  · intro plain
    change (Store.need host _ _).2.file = found.map Found.file
    rw [hneed]
    simp only [file_none plain, Option.or_none]

/-- A step that faces a stored configuration is added to its account. -/
theorem accounted_of_config {config : Config}
    (h : Accounted host start past (start.after host past).store)
    (stored : (st.facing (start.after host past)).store.config = some config) :
    Accounted host start (past ++ [st]) (start.after host (past ++ [st])).store := by
  have keeps := forgets?_of_config stored
  rw [Step.facing_of_forgets keeps] at stored
  rw [Accounted, stored] at h
  obtain ⟨o, rfl, file_eq⟩ := h
  have hfacing := Step.facing_of_forgets keeps (start.after host past)
  rw [after_concat]
  by_cases needs : st.NeedsConfig host
  · have hforce : (st.facing (start.after host past)).inForce host =
        .ok (.ofLayers o.layers) := by
      rw [hfacing]
      exact inForce_of_config stored
    have computed : (start.entry host past st).Computed host :=
      computed_iff.mpr ⟨needs, _, hforce⟩
    rw [store_step_of_ok needs hforce, hfacing, afterNeed_of_config stored,
      onTop_ofLayers computed, Accounted]
    refine ⟨o.concat keeps, ?_, file_eq⟩
    rw [o.layers_concat keeps]
    rfl
  · have failed : ¬ (start.entry host past st).Computed host := fun computed => needs computed.1
    rw [store_step_of_not_needsConfig needs, hfacing, Accounted, stored]
    refine ⟨o.concat keeps, ?_, file_eq⟩
    rw [o.layers_concat keeps, Entry.setting?_eq_none_of_not_computed failed, Option.toList_none,
      List.append_nil]

/-- Every step carries the account on. -/
theorem Accounted.concat (h : Accounted host start past (start.after host past).store)
    (st : Step) : Accounted host start (past ++ [st]) (start.after host (past ++ [st])).store := by
  cases hfacing : (st.facing (start.after host past)).store.config with
  | some config => exact accounted_of_config h hfacing
  | none =>
      by_cases computed : (start.entry host past st).Computed host
      · exact accounted_of_computed h hfacing computed
      · exact accounted_of_not_computed h hfacing computed

/-- The history of every session that starts afresh accounts for what is stored. -/
theorem accounted_of_fresh (fresh : start.store = .reset) (steps : List Step) :
    Accounted host start steps (start.after host steps).store := by
  induction steps using List.reverseRecOn with
  | nil =>
      change Accounted host start [] start.store
      rw [fresh]
      refine ⟨fun _ => rfl, [], [], rfl, .inl ⟨rfl, rfl, ?_⟩, ?_⟩
      · exact List.forall_mem_nil _
      · exact List.forall_mem_nil _
  | append_singleton past st ih => exact ih.concat st

/-- Where there is no configuration there is no file, if settings files hold plain data. -/
theorem file_eq_none_of_fresh (plain : host.PlainValues) (fresh : start.store = .reset)
    (nothing : (start.after host past).store.config = none) :
    (start.after host past).store.file = none := by
  have accounted : Accounted host start past _ := accounted_of_fresh fresh past
  rw [Accounted, nothing] at accounted
  exact accounted.1 plain

end Accounted

/-- The configuration in force at a step is stored, layered as the history tells, and what the step
is answered with. -/
structure Configured (host : Host) (start : Session) (past : List Step) (st : Step)
    (config : Config) : Prop where
  /-- It is stored after the step. -/
  stored : (start.after host (past ++ [st])).store.config = some config
  /-- Each setting has the value of the last layer that supplies it. The settings of the file are
  the value that was found in it, unwrapped once. -/
  layered : ∃ o : Origin host start (past ++ [st]), Config.Layered o.layers config ∧
    (o.found = none → o.settings = none) ∧
    ∀ found, o.found = some found → ∃ value settings, found.value = .ok value ∧
      o.settings = some settings ∧ value.Unwraps settings
  /-- The step is answered with it. -/
  answered : (start.after host past).AnsweredWith host st config
    (start.entry host past st).reply

/-- In every session that starts afresh, a step that needs the configuration with success has the
one that is layered from the file and the environment at the first such step since it was last
forgotten, and from the values set since then. -/
theorem exists_configured (host : Host) (start : Session) (fresh : start.store = .reset)
    (past : List Step) (st : Step) (computed : (start.entry host past st).Computed host) :
    ∃ config, Configured host start past st config := by
  obtain ⟨needs, config, hforce⟩ := computed_iff.mp computed
  have stored : (start.after host (past ++ [st])).store.config = some (st.onTop config) := by
    rw [after_concat, store_step_of_ok needs hforce]
    rfl
  have accounted : Accounted host start _ _ := accounted_of_fresh fresh (past ++ [st])
  rw [Accounted, stored] at accounted
  obtain ⟨o, layers_eq, -⟩ := accounted
  refine ⟨st.onTop config, stored, ⟨o, ?_, ?_, ?_⟩, answeredWith_step needs hforce⟩
  · rw [Config.layered_iff, layers_eq]
  · exact o.finds.settings_eq_none
  · exact fun found => o.finds.exists_unwraps

/-- Settings that allow trailing input. -/
def policyAllow : Json :=
  .object [("document", .object [("trailing", .string "allow")])]

/-- A file with settings is written, a variable is set, the file is read and removed, and a policy
is set. -/
def fileRemoved : List Step :=
  [.writeFile [".tagweaverc"] "\x7b\"default\":\x7b\"debug\":true\x7d\x7d",
    .setVariable "TAGWEAVE_DIAGNOSTICS_SNIPPET" "7", .get, .removeFile [".tagweaverc"],
    .set policyAllow]

/-- A file that has been removed since it was read still counts, below what has been set. -/
theorem exists_configured_fileRemoved :
    start.store = .reset ∧
      (start.entry (JsonFiles.host 9) fileRemoved .get).Computed (JsonFiles.host 9) ∧
      Configured (JsonFiles.host 9) start fileRemoved .get ⟨true, 7, .allow⟩ := by
  have hstored : (start.after (JsonFiles.host 9) fileRemoved).store.config =
      some ⟨true, 7, .allow⟩ := by
    decide +kernel
  have needs : Step.get.NeedsConfig (JsonFiles.host 9) := trivial
  have computed : (start.entry (JsonFiles.host 9) fileRemoved .get).Computed (JsonFiles.host 9) :=
    computed_iff.mpr ⟨needs, _, inForce_of_config hstored⟩
  obtain ⟨config, configured⟩ :=
    exists_configured (JsonFiles.host 9) start rfl fileRemoved .get computed
  have hanswer : (start.entry (JsonFiles.host 9) fileRemoved .get).reply.outcome =
      .ok (.config config) := configured.answered
  have hconfig : config = ⟨true, 7, .allow⟩ :=
    Answer.config.inj
      (Except.ok.inj (hanswer.symm.trans (outcome_step_get (inForce_of_config hstored))))
  rw [← hconfig]
  exact ⟨rfl, computed, configured⟩

end Session

end TagMarkup
