import TagMarkup.Proofs.Session.Needs

/-!
# What a step does to a session

A step that needs the configuration and gets it stores it, with its own values on top, and is
answered with it. A step that needs it in vain does nothing but to need it, and any other step
leaves the store as it faces it. A history is the list of the steps with the replies that they got;
whether a step has computed the configuration can be told from its entry.
-/

namespace TagMarkup

/-- A step with the reply it got. -/
structure Entry where
  /-- The step. -/
  step : Step
  /-- The reply. -/
  reply : Reply

namespace Entry

/-- The step needed the configuration, and the configuration could be computed. -/
def Computed (host : Host) (e : Entry) : Prop :=
  e.step.NeedsConfig host ∧ ∀ error, e.reply.outcome ≠ .error (.unusable error)

/-- The values that the step has set with success. -/
def setting? (e : Entry) : Option Json :=
  match e.step, e.reply.outcome with
  | .set values, .ok _ => some values
  | _, _ => none

/-- A step whose need fails has set nothing. -/
theorem setting?_eq_none_of_not_computed {host : Host} {e : Entry} (h : ¬ e.Computed host) :
    e.setting? = none := by
  obtain ⟨st, outcome, log⟩ := e
  cases st with
  | set values =>
      cases outcome with
      | ok a => exact absurd ⟨trivial, nofun⟩ h
      | error failure => rfl
  | _ => rfl

end Entry

namespace Session

/-- The session that the steps leave. -/
def after (host : Host) (s : Session) (steps : List Step) : Session :=
  (s.steps host steps).2

/-- The steps with their replies. -/
def history (host : Host) (s : Session) (steps : List Step) : List Entry :=
  List.zipWith Entry.mk steps (s.steps host steps).1

/-- The last entry of a history, given the steps before. -/
def entry (host : Host) (s : Session) (past : List Step) (st : Step) : Entry :=
  ⟨st, ((s.after host past).step host st).1⟩

section History

variable (host : Host) (s : Session)

theorem after_concat (past : List Step) (st : Step) :
    s.after host (past ++ [st]) = ((s.after host past).step host st).2 := by
  induction past generalizing s with
  | nil => rfl
  | cons first past ih => exact ih (s.step host first).2

theorem history_concat (past : List Step) (st : Step) :
    s.history host (past ++ [st]) = s.history host past ++ [s.entry host past st] := by
  induction past generalizing s with
  | nil => rfl
  | cons first past ih =>
      exact congrArg (Entry.mk first (s.step host first).1 :: ·) (ih (s.step host first).2)

theorem map_step_history (steps : List Step) : (s.history host steps).map Entry.step = steps := by
  induction steps generalizing s with
  | nil => rfl
  | cons first rest ih => exact congrArg (first :: ·) (ih (s.step host first).2)

end History

section Step

variable {host : Host} {s : Session} {st : Step} {config : Config} {e : ConfigError}

theorem facing_log (log : List Text) : st.facing { s with log := log } =
    { st.facing s with log := log } := by
  unfold Step.facing
  split <;> rfl

/-- The log makes no difference to what a step finds in force. -/
theorem inForce_facing_log (log : List Text) :
    (st.facing { s with log := log }).inForce host = (st.facing s).inForce host := by
  rw [facing_log]
  rfl

theorem around_facing : (st.facing s).around = s.around := by
  unfold Step.facing
  split <;> rfl

/-- What a step faces is the stored configuration only if the step does not forget it. -/
theorem forgets?_of_config (h : (st.facing s).store.config = some config) :
    st.forgets? = none := by
  cases hforgets : st.forgets? with
  | none => rfl
  | some directory =>
      rw [Step.facing, hforgets] at h
      cases h

/-- What is stored is in force. -/
theorem inForce_of_config (h : s.store.config = some config) : s.inForce host = .ok config := by
  rw [inForce, Store.need_of_config h]

theorem afterNeed_of_config (h : s.store.config = some config) : s.afterNeed host = s := by
  rw [afterNeed, Store.need_of_config h]

/-- A step gets the configuration that it needs where it can be computed. -/
theorem computed_iff :
    Entry.Computed host ⟨st, (s.step host st).1⟩ ↔
      st.NeedsConfig host ∧ ∃ config, (st.facing s).inForce host = .ok config := by
  apply and_congr_right
  intro needs
  have uses := Step.uses_of_needsConfig needs
  have hfacing : (st.facing { s with log := [] }).inForce host = _ := inForce_facing_log []
  change (∀ e, (st.perform host).outcome { s with log := [] } ≠ .error (.unusable e)) ↔ _
  cases hforce : (st.facing s).inForce host with
  | ok config =>
      rw [hforce] at hfacing
      exact iff_of_true (uses.onlyRejects hfacing).ne_unusable ⟨config, rfl⟩
  | error e =>
      rw [hforce] at hfacing
      have houtcome : (st.perform host).outcome { s with log := [] } = .error (.unusable e) := by
        rw [Reading.outcome, uses.run_of_error hfacing]
      constructor
      · intro usable
        exact absurd houtcome (usable e)
      · rintro ⟨_, ⟨⟩⟩

/-- A step that gets the configuration stores it, with its own values on top. -/
theorem store_step_of_ok (needs : st.NeedsConfig host)
    (h : (st.facing s).inForce host = .ok config) :
    (s.step host st).2.store =
      (((st.facing s).afterNeed host).keeping (st.onTop config)).store := by
  have hfacing := (inForce_facing_log []).trans h
  calc (s.step host st).2.store
      _ = (((st.facing { s with log := [] }).afterNeed host).keeping (st.onTop config)).store :=
        (Step.uses_of_needsConfig needs).store_after hfacing
      _ = (((st.facing s).afterNeed host).keeping (st.onTop config)).store := by
        rw [facing_log]
        rfl

/-- A step that needs the configuration in vain does nothing but to need it. -/
theorem step_of_error (needs : st.NeedsConfig host)
    (h : (st.facing s).inForce host = .error e) :
    s.step host st =
      (⟨.error (.unusable e), []⟩, { (st.facing s).afterNeed host with log := [] }) := by
  have hfacing := (inForce_facing_log []).trans h
  rw [step, (Step.uses_of_needsConfig needs).run_of_error hfacing, facing_log]
  rfl

/-- Any other step leaves the store as it faces it. -/
theorem store_step_of_not_needsConfig (h : ¬ st.NeedsConfig host) :
    (s.step host st).2.store = (st.facing s).store := by
  change ((st.perform host).after { s with log := [] }).store = _
  rw [Step.store_after_of_not_needsConfig h, facing_log]

/-- A step that faces no configuration and does not compute it leaves none. It leaves the file as it
is where settings files hold plain data. -/
theorem store_step_of_not_computed (nothing : (st.facing s).store.config = none)
    (failed : ¬ Entry.Computed host ⟨st, (s.step host st).1⟩) :
    ∃ file, (s.step host st).2.store = ⟨none, file, (st.facing s).store.directory⟩ ∧
      (host.PlainValues → file = (st.facing s).store.file) := by
  by_cases needs : st.NeedsConfig host
  · cases hforce : (st.facing s).inForce host with
    | ok config => exact absurd (computed_iff.mpr ⟨needs, config, hforce⟩) failed
    | error e =>
        rw [step_of_error needs hforce]
        exact Store.need_of_error nothing hforce
  · rw [store_step_of_not_needsConfig needs]
    refine ⟨(st.facing s).store.file, ?_, fun _ => rfl⟩
    rw [← nothing]

/-- The reply is what a configuration makes it: the configuration itself or the file next to it,
where the step asks for that, and otherwise what the step gets in a session in which the
configuration has been stored before. -/
def AnsweredWith (host : Host) (s : Session) (st : Step) (config : Config) (reply : Reply) : Prop :=
  match st with
  | .get | .load _ => reply.outcome = .ok (.config config)
  | .path => reply.outcome = .ok (.path (s.afterNeed host).store.file)
  | .set _ => reply.outcome = .ok .done
  | st => (s.afterNeed host).store.config = some config ∧
      reply = ((s.afterNeed host).step host st).1

theorem outcome_step_get (h : s.inForce host = .ok config) :
    (s.step host .get).1.outcome = .ok (.config config) := by
  have hlog : Session.inForce host { s with log := [] } = .ok config := h
  change (do return Answer.config (← Reading.need host) : Reading Answer).outcome _ = _
  rw [Reading.outcome_map, Reading.outcome_need, hlog]
  rfl

theorem outcome_step_path (h : s.inForce host = .ok config) :
    (s.step host .path).1.outcome = .ok (.path (s.afterNeed host).store.file) := by
  have hlog : Session.inForce host { s with log := [] } = .ok config := h
  change (do return Answer.path (← Reading.onStore (Store.path host)) : Reading Answer).outcome _ =
    _
  rw [Reading.outcome_map, Reading.outcome, Reading.run_onStore_path, hlog]
  rfl

theorem outcome_step_set (h : s.inForce host = .ok config) (values : Json) :
    (s.step host (.set values)).1.outcome = .ok .done := by
  have hlog : Session.inForce host { s with log := [] } = .ok config := h
  change ((Step.set values).perform host).outcome { s with log := [] } = _
  rw [Reading.outcome, Step.run_perform_set_of_ok hlog]

/-- Loading answers as asking does in the session that has forgotten what was stored. -/
theorem step_load (s : Session) (directory : Path) :
    s.step host (.load directory) = ((Step.load directory).facing s).step host .get := by
  rw [step, step, Step.run_perform_load]
  rfl

/-- A need before a step that needs the configuration makes no difference to it. -/
theorem step_afterNeed (needs : st.NeedsConfig host) :
    (s.afterNeed host).step host st = s.step host st := by
  have of_keeps (keeps : st.forgets? = none) :
      (s.afterNeed host).step host st = s.step host st := by
    have hrun := (Step.needs_perform needs keeps).run_afterNeed { s with log := [] }
    rw [step, step, ← hrun]
    rfl
  cases st with
  | load directory =>
      rw [step_load, step_load]
      rfl
  | reset => exact needs.elim
  | _ => exact of_keeps rfl

/-- A step that gets the configuration is answered with it. -/
theorem answeredWith_step (needs : st.NeedsConfig host)
    (h : (st.facing s).inForce host = .ok config) :
    s.AnsweredWith host st (st.onTop config) (s.step host st).1 := by
  have of_step {st : Step} (needs : st.NeedsConfig host) (h : s.inForce host = .ok config) :
      (s.afterNeed host).store.config = some config ∧
        (s.step host st).1 = ((s.afterNeed host).step host st).1 :=
    ⟨Store.config_need_of_ok h, congrArg Prod.fst (step_afterNeed needs).symm⟩
  cases st with
  | get => exact outcome_step_get h
  | load directory =>
      rw [step_load]
      exact outcome_step_get h
  | path => exact outcome_step_path h
  | set values => exact outcome_step_set h values
  | document text trailing => exact of_step needs h
  | fragment text => exact of_step needs h
  | fragments text => exact of_step needs h
  | setVariable | unsetVariable | writeFile | makeDirectory | removeFile | reset | define =>
      exact needs.elim

/-- What a step that gets the configuration puts on top of it are the values that its entry says it
has set. -/
theorem onTop_ofLayers (computed : Entry.Computed host ⟨st, (s.step host st).1⟩)
    (layers : List Json) :
    st.onTop (.ofLayers layers) =
      .ofLayers (layers ++ (Entry.setting? ⟨st, (s.step host st).1⟩).toList) := by
  cases st with
  | set values =>
      obtain ⟨-, config, hforce⟩ := computed_iff.mp computed
      have hforce : s.inForce host = .ok config := hforce
      rw [Entry.setting?]
      simp only [outcome_step_set hforce values]
      rw [Option.toList_some, Config.ofLayers_concat]
      rfl
  | _ => simp [Step.onTop, Entry.setting?]

end Step

end Session

end TagMarkup
