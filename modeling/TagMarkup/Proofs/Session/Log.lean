import TagMarkup.Config.JsonFiles
import TagMarkup.Proofs.Document.Diagnostics
import TagMarkup.Proofs.Document.Report
import TagMarkup.Proofs.Session.Steps

/-!
# What a step logs

The log of a step tells what became of the text that the step has read. Reading a document logs one
line if the configuration in force asks for it, and that line is the report of the outcome. Reading
a fragment logs a line only where the fragment is nested too deeply, and no other step logs
anything.
-/

namespace TagMarkup

/-- The step reads a document or fragments. -/
def Step.ReadsText : Step → Prop
  | document _ _ | fragment _ | fragments _ => True
  | _ => False

namespace Session

/-- The reply to a step that reads a document under the policy: the line is logged if the
configuration asks for it, and reports what the step has come to. -/
structure LogsOutcome (text : Text) (policy : TrailingPolicy) (debug : Bool) (reply : Reply)
    (line : Text) : Prop where
  /-- There is one line, or none. -/
  log_eq : reply.log = if debug then [(Reading.logMark : Text) ++ line] else []
  /-- The line reports a parsed document exactly if the root element of that name is returned, which
  ends at that offset of the text, and at its end where trailing input is an error. -/
  parsed_iff (name : Text) (offset : Int) (length : Nat) :
    line = (Report.parsed name offset length).words ↔
      ∃ (e : Element) (stop : Nat), reply.outcome = .ok (.element e) ∧ e.name = name ∧
        offset = stop ∧ Element.SpelledBetween text 0 stop e ∧ length = text.size ∧
        (policy = .error → stop = text.size)
  /-- The line reports a rejected document exactly if the text is rejected for the reason of that
  name at that offset. -/
  rejected_iff (reason : Text) (offset : Int) :
    line = (Report.rejected reason offset).words ↔
      ∃ r : Rejection, reply.outcome = .error (.fault (.rejected r)) ∧ r.reason.name = reason ∧
        r.offset = offset

/-- The reply to a step that reads fragments: a line is logged only for a rejected text, and that is
one nested too deeply. -/
structure LogsNesting (host : Host) (s : Session) (reply : Reply) : Prop where
  /-- Nothing is logged unless a text is rejected for the nesting of its elements. -/
  rejects_of_logged : reply.log ≠ [] → ∃ left, Rejects reply.outcome .recursionLimit 0 left
  /-- Then there is one line if the configuration asks for it, and none otherwise. -/
  log_of_rejects (left : Text) : Rejects reply.outcome .recursionLimit 0 left →
    ∃ config, s.inForce host = .ok config ∧
      reply.log = if config.debug then
        [(Reading.logMark : Text) ++ (Report.rejected Reason.recursionLimit.name 0).words]
      else []

/-- The log of a step tells what the step has come to. -/
def LogTells (host : Host) (s : Session) (st : Step) (reply : Reply) : Prop :=
  match st with
  | .document text trailing => ∃ config line, s.inForce host = .ok config ∧
      LogsOutcome text (trailing.getD config.trailing) config.debug reply line
  | .fragment _ | .fragments _ => LogsNesting host s reply
  | _ => reply.log = []

section Log

variable {host : Host} {s : Session} {config : Config} {text : Text} {st : Step}

theorem fst_step (host : Host) (s : Session) (st : Step) :
    (s.step host st).1 = ⟨(st.perform host).outcome { s with log := [] },
      ((st.perform host).after { s with log := [] }).log⟩ := rfl

theorem log_after_onStore {α : Type}
    (change : Surroundings → Store → Except ConfigError α × Store) (s : Session) :
    ((Reading.onStore change).after s).log = s.log := by
  rw [Reading.after, Reading.run_onStore]

/-- A step that reads no text logs nothing. -/
theorem log_step_of_not_readsText (h : ¬ st.ReadsText) : (s.step host st).1.log = [] := by
  rw [fst_step]
  cases st with
  | get | path | load =>
      rw [Step.perform, Reading.after_map]
      exact log_after_onStore _ _
  | set values =>
      change ((do return (fun _ => Answer.done) (← Reading.onStore _)).after _).log = []
      rw [Reading.after_map]
      exact log_after_onStore _ _
  | reset => rfl
  | setVariable | unsetVariable | writeFile | makeDirectory | removeFile | define => rfl
  | document | fragment | fragments => exact absurd trivial h

/-- The reply to a step that reads a document is the verdict on it, and the line for that verdict if
the configuration asks for it. -/
theorem step_document (h : s.inForce host = .ok config) (text : Text)
    (trailing : Option TrailingPolicy) :
    (s.step host (.document text trailing)).1 =
      ⟨(((Verdict.onDocument host.limit text (trailing.getD config.trailing)).value text
          config.snippet).mapError .fault).map .element,
        if config.debug then
          [(Reading.logMark : Text) ++
            (Verdict.onDocument host.limit text (trailing.getD config.trailing)).line text]
        else []⟩ := by
  have hlog : Session.inForce host { s with log := [] } = .ok config := h
  rw [fst_step, Step.perform, Reading.outcome_map, Reading.after_map,
    Reading.outcome_document_of_ok hlog, Reading.log_after_document text trailing hlog]
  rfl

/-- The verdict is told by what a step answers with. -/
theorem answers_value_iff {v : Verdict} {snippet : Int} {e : Element} :
    ((v.value text snippet).mapError Failure.fault).map Answer.element = .ok (.element e) ↔
      ∃ q, v = .accepted e q := by
  cases v with
  | accepted e' q =>
      constructor
      · rintro ⟨⟩
        exact ⟨q, rfl⟩
      · rintro ⟨_, ⟨⟩⟩
        rfl
  | rejected reason q =>
      constructor
      · rintro ⟨⟩
      · rintro ⟨_, ⟨⟩⟩

theorem rejects_value_iff_exists {v : Verdict} {snippet : Int} {reason : Text} {offset : Int} :
    (∃ r : Rejection, ((v.value text snippet).mapError Failure.fault).map Answer.element =
        .error (.fault (.rejected r)) ∧ r.reason.name = reason ∧ r.offset = offset) ↔
      ∃ r : Reason, v = .rejected r offset ∧ r.name = reason := by
  cases v with
  | accepted e q =>
      constructor
      · rintro ⟨_, ⟨⟩, -⟩
      · rintro ⟨_, ⟨⟩, -⟩
  | rejected r q =>
      constructor
      · rintro ⟨_, ⟨⟩, hreason, rfl⟩
        exact ⟨r, rfl, hreason⟩
      · rintro ⟨_, ⟨⟩, hreason⟩
        exact ⟨_, rfl, hreason, rfl⟩

/-- The line for the verdict on a document tells the outcome of the step. -/
theorem logsOutcome_step (h : s.inForce host = .ok config) (text : Text)
    (trailing : Option TrailingPolicy) :
    LogsOutcome text (trailing.getD config.trailing) config.debug
      (s.step host (.document text trailing)).1
      ((Verdict.onDocument host.limit text (trailing.getD config.trailing)).line text) where
  log_eq := by rw [step_document h]
  parsed_iff name offset length := by
    simp only [step_document h, Verdict.line_eq_parsed_iff, answers_value_iff]
    constructor
    · rintro ⟨e, hverdict, hname, hlength⟩
      obtain ⟨stop, hoffset, spelled, complete⟩ := Verdict.spelledBetween_of_onDocument hverdict
      exact ⟨e, stop, ⟨offset, hverdict⟩, hname, hoffset, spelled, hlength, complete⟩
    · rintro ⟨e, stop, ⟨q, hverdict⟩, hname, rfl, spelled, hlength, -⟩
      obtain ⟨stop', rfl, spelled', -⟩ := Verdict.spelledBetween_of_onDocument hverdict
      rw [(Element.spelledBetween_unique spelled spelled').2]
      exact ⟨e, hverdict, hname, hlength⟩
  rejected_iff reason offset := by
    rw [step_document h, Verdict.line_eq_rejected_iff]
    exact rejects_value_iff_exists.symm

/-- A step that comes to a rejection for the nesting of a text logs that rejection. -/
theorem logsNesting_of_reject {rest : Text} (h : s.inForce host = .ok config)
    (hperform : st.perform host = Reading.reject host rest 0 .recursionLimit) :
    LogsNesting host s (s.step host st).1 := by
  have hlog : Session.inForce host { s with log := [] } = .ok config := h
  have hstep : (s.step host st).1 =
      ⟨.error (.fault (.rejected (.ofText rest 0 .recursionLimit config.snippet))),
        if config.debug then
          [(Reading.logMark : Text) ++ Reading.rejectedLine .recursionLimit 0] else []⟩ := by
    rw [fst_step, hperform, Reading.outcome, Reading.after, Reading.run_reject_of_ok hlog,
      Session.log_logged]
    rfl
  rw [hstep]
  constructor
  · intro _
    exact ⟨_, _, rfl, rfl, rfl, rfl⟩
  · intro _ _
    exact ⟨config, h, rfl⟩

/-- A step that comes to an answer and logs nothing has met no text nested too deeply. -/
theorem logsNesting_of_answer {a : Answer} (h : (s.step host st).1 = ⟨.ok a, []⟩) :
    LogsNesting host s (s.step host st).1 := by
  rw [h]
  constructor
  · intro logged
    exact absurd rfl logged
  · rintro left ⟨_, ⟨⟩, -⟩

theorem logsNesting_fragment (text : Text)
    (met : (Step.fragment text).NeedsConfig host → ∃ config, s.inForce host = .ok config) :
    LogsNesting host s (s.step host (.fragment text)).1 := by
  cases hread : Element.read host.limit text 0 with
  | error fault =>
      cases Element.eq_exhausted_of_read hread
      obtain ⟨config, h⟩ := met hread
      exact logsNesting_of_reject h (Step.perform_fragment_of_exhausted hread)
  | ok result =>
      apply logsNesting_of_answer (a := .fragment (Reading.fragmentOf text result))
      rw [step, Step.perform, Reading.run_bind, Reading.run_fragment_of_read hread]
      rfl

theorem logsNesting_fragments (text : Text)
    (met : (Step.fragments text).NeedsConfig host → ∃ config, s.inForce host = .ok config) :
    LogsNesting host s (s.step host (.fragments text)).1 := by
  by_cases exhausted :
      Element.grammar.run host.limit Element.root.many text 0 = .error .exhausted
  · obtain ⟨config, h⟩ := met exhausted
    obtain ⟨rest, hperform⟩ := Step.perform_fragments_of_exhausted exhausted
    exact logsNesting_of_reject h hperform
  · obtain ⟨fs, last, taken⟩ := Reading.exists_takes { s with log := [] } exhausted
    have hrun : (Reading.fragments host text).run { s with log := [] } = _ :=
      taken.run_fragmentsFrom []
    apply logsNesting_of_answer (a := .fragments (fs.map Fragment.element) last)
    rw [step, Step.perform, Reading.run_bind, hrun]
    rfl

end Log

/-- The log of every step of a session tells what the step has come to, if its need for the
configuration is met. -/
theorem logTells_entry (host : Host) (start : Session) (past : List Step) (st : Step)
    (met : st.NeedsConfig host → (start.entry host past st).Computed host) :
    LogTells host (start.after host past) st (start.entry host past st).reply := by
  have inForce_of_needs (needs : st.NeedsConfig host) :
      ∃ config, (st.facing (start.after host past)).inForce host = .ok config :=
    (computed_iff.mp (met needs)).2
  have nothing (h : ¬ st.ReadsText) : (start.entry host past st).reply.log = [] :=
    log_step_of_not_readsText h
  cases st with
  | document text trailing =>
      obtain ⟨config, h⟩ := inForce_of_needs trivial
      exact ⟨config, _, h, logsOutcome_step h text trailing⟩
  | fragment text => exact logsNesting_fragment text inForce_of_needs
  | fragments text => exact logsNesting_fragments text inForce_of_needs
  | setVariable | unsetVariable | writeFile | makeDirectory | removeFile | get | set | reset | load
  | path | define => exact nothing not_false

/-- A variable asks for lines in the log. -/
def debugOn : List Step :=
  [.setVariable "TAGWEAVE_DEBUG" "1"]

/-- A document with trailing input that is allowed. -/
def trailingAllowed : Step :=
  .document "<a/>b" (some .allow)

/-- The line for a document with trailing input says how much of the text its element takes up. -/
theorem logTells_entry_trailingAllowed :
    (trailingAllowed.NeedsConfig (JsonFiles.host 9) →
        (start.entry (JsonFiles.host 9) debugOn trailingAllowed).Computed (JsonFiles.host 9)) ∧
      LogTells (JsonFiles.host 9) (start.after (JsonFiles.host 9) debugOn) trailingAllowed
        (start.entry (JsonFiles.host 9) debugOn trailingAllowed).reply ∧
      (start.entry (JsonFiles.host 9) debugOn trailingAllowed).reply.log =
        [Text.ofString "[tagweave] parsed <a> (4 of 5 characters)"] := by
  have needs : trailingAllowed.NeedsConfig (JsonFiles.host 9) := trivial
  have hforce : (start.after (JsonFiles.host 9) debugOn).inForce (JsonFiles.host 9) =
      .ok ⟨true, 20, .error⟩ := by
    decide +kernel
  have met : trailingAllowed.NeedsConfig (JsonFiles.host 9) →
      (start.entry (JsonFiles.host 9) debugOn trailingAllowed).Computed (JsonFiles.host 9) :=
    fun needs => computed_iff.mpr ⟨needs, _, hforce⟩
  have tells :
      LogTells (JsonFiles.host 9) (start.after (JsonFiles.host 9) debugOn) trailingAllowed _ :=
    logTells_entry (JsonFiles.host 9) start debugOn trailingAllowed met
  refine ⟨met, tells, ?_⟩
  obtain ⟨config, line, hconfig, logs⟩ := tells
  cases hforce.symm.trans hconfig
  have isName : Text.IsName "a" := ⟨0x61, [], by decide, by decide, nofun⟩
  have noSpaces : Element.IsSpaces [] := List.forall_mem_nil _
  have spelled : Element.SpelledBetween "<a/>b" 0 4 (.node "a" [] []) := by
    refine ⟨by decide, by decide, ?_, ?_⟩
    · exact Element.Spells.single noSpaces noSpaces isName .nil
    · intro u hu
      cases hu
      decide
  have hread : Element.read (JsonFiles.host 9).limit "<a/>b" 0 =
      .ok (.success (.node "a" [] []) 4) :=
    Element.read_of_spelledBetween spelled (by decide)
  have hanswer : (start.entry (JsonFiles.host 9) debugOn trailingAllowed).reply.outcome =
      .ok (.element (.node "a" [] [])) := by
    change (step (JsonFiles.host 9) (start.after _ debugOn) trailingAllowed).1.outcome = _
    rw [trailingAllowed, step_document hforce]
    apply answers_value_iff.mpr
    refine ⟨4, ?_⟩
    rw [Verdict.onDocument, hread]
    rfl
  have hline : line = (Report.parsed "a" 4 5).words := by
    apply (logs.parsed_iff "a" 4 5).mpr
    refine ⟨_, 4, hanswer, rfl, rfl, spelled, rfl, ?_⟩
    rintro ⟨⟩
  rw [logs.log_eq, hline]
  decide +kernel

end Session

end TagMarkup
