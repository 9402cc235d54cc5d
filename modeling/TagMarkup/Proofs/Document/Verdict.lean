import TagMarkup.Proofs.Document.Need
import TagMarkup.Proofs.Element.Depth

/-!
# Verdicts on documents

What becomes of a text depends on the text and the policy on trailing input alone: the root element
is accepted, or the text is rejected for a reason at an offset. The configuration adds how much a
rejection quotes and whether a line is logged. Reading a document is described in full by one
equation, `Reading.run_document_of_ok`, and so are the readings of fragments and of whole texts.
-/

namespace TagMarkup

/-- What becomes of a text of which the root element has been read. -/
inductive Verdict where
  /-- The element is returned; reading it stopped at the offset. -/
  | accepted (root : Element) (offset : Int)
  /-- The text is rejected at the offset. -/
  | rejected (reason : Reason) (offset : Int)

namespace Verdict

/-- The verdict on a text, given what reading its root element came to. -/
def ofOutcome (text : Text) (policy : TrailingPolicy) : Outcome Element → Verdict
  | .error _ => rejected .recursionLimit 0
  | .ok (.failure q) => rejected .unexpectedInput q
  | .ok (.success e q) =>
    if q ≠ text.size ∧ policy = .error then rejected .trailingInput q else accepted e q

/-- The verdict on a text under a policy on trailing input. -/
def onDocument (limit : Nat) (text : Text) (policy : TrailingPolicy) : Verdict :=
  ofOutcome text policy (Element.read limit text 0)

/-- What is returned or raised. -/
def value (text : Text) (snippet : Int) : Verdict → Except Fault Element
  | accepted e _ => .ok e
  | rejected reason q => .error (.rejected (.ofText text q reason snippet))

/-- The line that tells of the verdict. -/
def line (text : Text) : Verdict → Text
  | accepted e q => Reading.parsedLine e q text
  | rejected reason q => Reading.rejectedLine reason q

end Verdict

namespace Reading

variable {host : Host}

section Keeping

variable {s : Session} {config : Config}

theorem run_debugLine_of_ok (h : s.inForce host = .ok config) (line : Text) :
    (debugLine host line).run s = (.ok (), (s.afterNeed host).logged config line) := by
  rw [debugLine, run_need_bind_of_ok h, Session.logged]
  cases config.debug with
  | true => rfl
  | false => rfl

theorem run_reject_of_ok {α : Type} (h : s.inForce host = .ok config) (text : Text) (offset : Int)
    (reason : Reason) :
    (reject host text offset reason : Reading α).run s =
      (.error (.fault (.rejected (.ofText text offset reason config.snippet))),
        (s.afterNeed host).logged config (rejectedLine reason offset)) := by
  have again : ((s.afterNeed host).logged config (rejectedLine reason offset)).inForce host =
      .ok config := by
    rw [Session.inForce_logged, Session.inForce_afterNeed, h]
  rw [reject, run_bind, run_debugLine_of_ok h]
  simp only
  rw [run_need_bind_of_ok again, Session.afterNeed_logged, Session.afterNeed_afterNeed]
  rfl

theorem run_policyOf_of_ok (h : s.inForce host = .ok config) (trailing : Option TrailingPolicy) :
    ∃ s', (policyOf host trailing).run s = (.ok (trailing.getD config.trailing), s') ∧
      s'.inForce host = .ok config ∧ s'.afterNeed host = s.afterNeed host := by
  cases trailing with
  | some policy => exact ⟨s, rfl, h, rfl⟩
  | none =>
      refine ⟨s.afterNeed host, ?_, ?_, s.afterNeed_afterNeed host⟩
      · rw [policyOf, run_need_bind_of_ok h]
        rfl
      · rw [Session.inForce_afterNeed, h]

end Keeping

/-- Reading the root element can fail in no other way than by rejecting the text. -/
theorem root_of_error {text : Text} {fault : Fault}
    (h : Element.read host.limit text 0 = .error fault) :
    root host text = reject host text 0 .recursionLimit := by
  cases Element.eq_exhausted_of_read h
  rw [root, h]
  rfl

section Needs

variable (text : Text)

theorem needs_settle (policy : TrailingPolicy) (result : Result Element) :
    Needs host (settle host text policy result) := by
  cases result with
  | failure q => exact needs_reject _ _ _
  | success e q =>
      rw [settle]
      split
      · exact needs_reject _ _ _
      · exact (needs_debugLine _).bind _

/-- Every reading of a document needs the configuration. -/
theorem needs_document (trailing : Option TrailingPolicy) :
    Needs host (document host text trailing) := by
  rw [document_eq]
  cases trailing with
  | none =>
      apply Needs.bind
      exact needs_need.bind _
  | some policy =>
      rw [policyOf, pure_bind]
      cases h : Element.read host.limit text 0 with
      | error fault =>
          rw [root_of_error h]
          exact (needs_reject _ _ _).bind _
      | ok result =>
          rw [root_of_read h, pure_bind]
          exact needs_settle _ _ _

end Needs

section Run

variable {s : Session} {config : Config} (computed : s.inForce host = .ok config) (text : Text)
include computed

theorem run_settle_of_ok (policy : TrailingPolicy) (result : Result Element) :
    (settle host text policy result).run s =
      (((Verdict.ofOutcome text policy (.ok result)).value text config.snippet).mapError
          .fault,
        (s.afterNeed host).logged config
          ((Verdict.ofOutcome text policy (.ok result)).line text)) := by
  cases result with
  | failure q => exact run_reject_of_ok computed text q .unexpectedInput
  | success e q =>
      rw [settle, Verdict.ofOutcome]
      split
      · exact run_reject_of_ok computed text q .trailingInput
      · rw [run_bind, run_debugLine_of_ok computed]
        rfl

/-- What reading a document does where the configuration can be computed: it gives the value of the
verdict, stores the configuration, and logs the line of the verdict. -/
theorem run_document_of_ok (trailing : Option TrailingPolicy) :
    (document host text trailing).run s =
      (((Verdict.onDocument host.limit text (trailing.getD config.trailing)).value text
          config.snippet).mapError .fault,
        (s.afterNeed host).logged config
          ((Verdict.onDocument host.limit text (trailing.getD config.trailing)).line text)) := by
  obtain ⟨s', hpolicy, computed', hkeeping⟩ := run_policyOf_of_ok computed trailing
  rw [document_eq, run_bind, hpolicy, ← hkeeping, Verdict.onDocument]
  simp only
  cases h : Element.read host.limit text 0 with
  | error fault =>
      rw [root_of_error h, run_bind, run_reject_of_ok computed']
      rfl
  | ok result =>
      rw [root_of_read h, pure_bind]
      exact run_settle_of_ok computed' text _ result

theorem outcome_document_of_ok (trailing : Option TrailingPolicy) :
    (document host text trailing).outcome s =
      ((Verdict.onDocument host.limit text (trailing.getD config.trailing)).value text
        config.snippet).mapError .fault := by
  rw [outcome, run_document_of_ok computed]

end Run

/-- The fragment in a text for which reading the root element came to the result. -/
def fragmentOf (text : Text) : Result Element → Option Fragment
  | .failure _ => none
  | .success e q => some ⟨e, text.suffixFrom q⟩

/-- A fragment that is read needs no configuration and changes nothing. -/
theorem run_fragment_of_read {text : Text} {result : Result Element}
    (h : Element.read host.limit text 0 = .ok result) (s : Session) :
    (fragment host text).run s = (.ok (fragmentOf text result), s) := by
  rw [fragment, root_of_read h, pure_bind]
  cases result with
  | failure q => rfl
  | success e q => rfl

/-- A fragment nested too deeply is rejected. -/
theorem fragment_of_error {text : Text} {fault : Fault}
    (h : Element.read host.limit text 0 = .error fault) :
    fragment host text = reject host text 0 .recursionLimit := by
  rw [fragment, root_of_error h, reject_bind]

end Reading

/-- Reading a whole text gives the value of the verdict on it without trailing input, in the wording
of the default quotation. -/
theorem Element.runWhole_eq_value (limit : Nat) (text : Text) :
    grammar.runWhole limit root text =
      (Verdict.onDocument limit text .error).value text Rejection.defaultSnippet := by
  rw [Grammar.runWhole, Verdict.onDocument]
  change wholeValue text (read limit text 0) = _
  cases h : read limit text 0 with
  | error fault =>
      cases eq_exhausted_of_read h
      rfl
  | ok result =>
      cases result with
      | failure q => rfl
      | success e q =>
          simp only [wholeValue, Verdict.ofOutcome, ne_eq, and_true]
          by_cases hq : q = text.size
          · rw [if_pos hq, if_neg (not_not.mpr hq)]
            rfl
          · rw [if_neg hq, if_pos hq]
            rfl

end TagMarkup
