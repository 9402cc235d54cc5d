import TagMarkup.Document

/-!
# What readings of documents come to

A reading of a document or a fragment returns an element only if the element was read from the
beginning of the text. It can fail for a reason that lies outside the text: a configuration that
cannot be computed ends every reading that asks for it.

## Implementation notes

`Reading.outcome` and `Reading.after` take a computation apart into what it returns and the session
it leaves, so that a sequence is followed one computation at a time.
-/

namespace TagMarkup

namespace Reading

section Sequence

variable {α β : Type}

/-- What a computation comes to in a session. -/
def outcome (x : Reading α) (s : Session) : Except Failure α :=
  (x.run s).1

/-- The session that a computation leaves. -/
def after (x : Reading α) (s : Session) : Session :=
  (x.run s).2

@[simp] theorem outcome_pure (a : α) (s : Session) : (pure a : Reading α).outcome s = .ok a := rfl

/-- A sequence goes on in the session that its first part leaves, unless that part failed. -/
theorem run_bind (x : Reading α) (next : α → Reading β) (s : Session) :
    (x >>= next).run s =
      match x.run s with
      | (.ok a, s') => (next a).run s'
      | (.error failure, s') => (.error failure, s') := by
  change (match x.run s with | (r, s') => ExceptT.bindCont next r s') = _
  rcases x.run s with ⟨_ | _, _⟩
  · rfl
  · rfl

theorem outcome_bind (x : Reading α) (next : α → Reading β) (s : Session) :
    (x >>= next).outcome s = (x.outcome s).bind fun a => (next a).outcome (x.after s) := by
  rw [outcome, outcome, after, run_bind]
  rcases x.run s with ⟨_ | _, _⟩
  · rfl
  · rfl

/-- A sequence returns a value when both of its parts do. -/
theorem outcome_bind_eq_ok {x : Reading α} {next : α → Reading β} {s : Session} {b : β} :
    (x >>= next).outcome s = .ok b ↔
      ∃ a, x.outcome s = .ok a ∧ (next a).outcome (x.after s) = .ok b := by
  rw [outcome_bind]
  cases x.outcome s with
  | error failure => simp [Except.bind]
  | ok a => simp [Except.bind]

end Sequence

/-- Logging a line fails when the configuration cannot be computed, and not otherwise. -/
theorem outcome_debugLine (host : Host) (line : Text) (s : Session) :
    (debugLine host line).outcome s = ((need host).outcome s).map fun _ => () := by
  rw [debugLine, outcome_bind]
  cases (need host).outcome s with
  | error failure => rfl
  | ok config =>
      change (ite (config.debug = true) _ _ : Reading Unit).outcome _ = .ok ()
      split
      · rfl
      · rfl

section Reject

variable {α β : Type} (host : Host) (text : Text) (offset : Int) (reason : Reason)

/-- Nothing is done after a rejection. -/
theorem reject_bind (next : α → Reading β) :
    (reject host text offset reason >>= next) = reject host text offset reason := by
  rw [reject, reject, bind_assoc]
  congr 1
  funext _
  rw [bind_assoc]
  rfl

/-- No value is returned for a rejected text. -/
theorem outcome_reject_ne_ok (s : Session) (a : α) :
    (reject host text offset reason : Reading α).outcome s ≠ .ok a := by
  intro h
  rw [reject, outcome_bind_eq_ok] at h
  obtain ⟨_, -, h⟩ := h
  rw [outcome_bind_eq_ok] at h
  obtain ⟨_, -, h⟩ := h
  cases h

end Reject

/-- The policy on trailing input, from the configuration if none is given. -/
def policyOf (host : Host) : Option TrailingPolicy → Reading TrailingPolicy
  | some policy => pure policy
  | none => do return (← need host).trailing

/-- What is done with the result for a document. -/
def settle (host : Host) (text : Text) (policy : TrailingPolicy) :
    Result Element → Reading Element
  | .failure q => reject host text q .unexpectedInput
  | .success e q =>
    if q ≠ text.size ∧ policy = .error then reject host text q .trailingInput
    else do
      debugLine host (parsedLine e q text)
      return e

/-- A document is read in three steps: find the policy, read the root element, settle. -/
theorem document_eq (host : Host) (text : Text) (trailing : Option TrailingPolicy) :
    document host text trailing =
      (do settle host text (← policyOf host trailing) (← root host text)) := by
  have hsettle (policy : TrailingPolicy) (result : Result Element) :
      settle host text policy result =
        match result with
        | .failure q => reject host text q .unexpectedInput
        | .success e q => do
          if q ≠ text.size ∧ policy = .error then reject host text q .trailingInput
          debugLine host (parsedLine e q text)
          return e := by
    cases result with
    | success e q =>
        simp only [settle]
        split
        · rw [reject_bind]
        · rfl
    | failure q => rfl
  simp only [hsettle]
  cases trailing with
  | none =>
      rw [policyOf, bind_assoc]
      rfl
  | some policy => rfl

section Root

variable {host : Host} {text : Text} {s : Session} {result : Result Element} {e : Element}
  {q : Int}

theorem root_of_read (h : Element.read host.limit text 0 = .ok result) :
    root host text = pure result := by
  rw [root, h]

/-- The result for a text is that of reading it from the beginning. -/
theorem read_of_outcome_root (h : (root host text).outcome s = .ok result) :
    Element.read host.limit text 0 = .ok result := by
  cases hread : Element.read host.limit text 0 with
  | error fault =>
      rw [root, hread] at h
      simp only at h
      split at h
      · exact (outcome_reject_ne_ok _ _ _ _ _ _ h).elim
      · cases h
  | ok result' =>
      rw [root_of_read hread] at h
      cases h
      rfl

/-- The first element of a text is what is read from its beginning. -/
theorem read_of_outcome_fragment {f : Fragment}
    (h : (fragment host text).outcome s = .ok (some f)) :
    ∃ q, Element.read host.limit text 0 = .ok (.success f.element q) ∧
      f.rest = text.suffixFrom q := by
  rw [fragment, outcome_bind_eq_ok] at h
  obtain ⟨result, hroot, h⟩ := h
  cases result with
  | success e q =>
      cases h
      exact ⟨q, read_of_outcome_root hroot, rfl⟩
  | failure q => cases h

theorem outcome_fragment_of_read
    (h : Element.read host.limit text 0 = .ok (.success e q)) (s : Session) :
    (fragment host text).outcome s = .ok (some ⟨e, text.suffixFrom q⟩) := by
  rw [fragment, root_of_read h]
  rfl

/-- The root element of a document is what is read from its beginning. -/
theorem read_of_outcome_document {trailing : Option TrailingPolicy}
    (h : (document host text trailing).outcome s = .ok e) :
    ∃ q, Element.read host.limit text 0 = .ok (.success e q) := by
  rw [document_eq, outcome_bind_eq_ok] at h
  obtain ⟨policy, -, h⟩ := h
  rw [outcome_bind_eq_ok] at h
  obtain ⟨result, hroot, h⟩ := h
  cases result with
  | success e' q =>
      rw [settle] at h
      split at h
      · exact (outcome_reject_ne_ok _ _ _ _ _ _ h).elim
      · obtain ⟨_, -, ⟨⟩⟩ := outcome_bind_eq_ok.mp h
        exact ⟨q, read_of_outcome_root hroot⟩
  | failure q => exact (outcome_reject_ne_ok _ _ _ _ _ _ h).elim

/-- A document that is read up to its end is returned if the configuration can be computed. -/
theorem outcome_document_of_read
    (h : Element.read host.limit text 0 = .ok (.success e text.size))
    (policy : TrailingPolicy) (s : Session) :
    (document host text (some policy)).outcome s = ((need host).outcome s).map fun _ => e := by
  have hdocument : document host text (some policy) = (do
      debugLine host (parsedLine e text.size text)
      return e) := by
    rw [document_eq, root_of_read h, policyOf, pure_bind, pure_bind, settle,
      if_neg (by simp)]
  rw [hdocument, outcome_bind, outcome_debugLine]
  cases (need host).outcome s with
  | error failure => rfl
  | ok config => rfl

end Root

end Reading

end TagMarkup
