import TagMarkup.Config.JsonFiles
import TagMarkup.Proofs.Document.Verdict

/-!
# The entry points agree

A text can be read as a fragment, as a document under either policy on trailing input, and as a
whole without a configuration. Wherever the configuration can be computed these come to the same:
they return the same element and reject for the same reason at the same offset, and the only faults
they end in are rejections.
-/

namespace TagMarkup

/-- The outcome is a rejection for the reason at the offset, with that text left. -/
def Rejects {α : Type} (outcome : Except Failure α) (reason : Reason) (offset : Int)
    (remaining : Text) : Prop :=
  ∃ r : Rejection, outcome = .error (.fault (.rejected r)) ∧ r.reason = reason ∧
    r.offset = offset ∧ r.remaining = remaining

/-- Whatever the outcome fails with is a rejection. -/
def OnlyRejects {α : Type} (outcome : Except Failure α) : Prop :=
  ∀ failure, outcome = .error failure → ∃ r, failure = .fault (.rejected r)

namespace Text

variable {t : Text} {n : Nat}

theorem size_suffixFrom (inside : n ≤ t.size) : (t.suffixFrom n).size = t.size - n := by
  rw [← length_toList, toList_suffixFrom, List.length_drop, length_toList, cut, if_neg (by omega),
    Int.toNat_natCast]
  omega

/-- The offset from which on a text is left is told by how much is left. -/
theorem size_sub_size_suffixFrom (inside : n ≤ t.size) :
    (t.size : Int) - (t.suffixFrom n).size = n := by
  rw [size_suffixFrom inside]
  omega

/-- Nothing is left of a text exactly from its end on. -/
theorem suffixFrom_eq_empty_iff (inside : n ≤ t.size) : t.suffixFrom n = .empty ↔ n = t.size := by
  have hsize := size_suffixFrom inside
  rw [← toList_inj, toList_empty, ← List.length_eq_zero_iff, length_toList, hsize]
  omega

theorem suffixFrom_zero : t.suffixFrom 0 = t := by
  rw [← toList_inj, toList_suffixFrom, cut, if_neg (by omega)]
  simp

end Text

namespace Verdict

variable {text : Text} {snippet : Int}

/-- A text is rejected just as the verdict says. -/
theorem rejects_value_iff {v : Verdict} {reason : Reason} {offset : Int} {remaining : Text} :
    Rejects ((v.value text snippet).mapError Failure.fault) reason offset remaining ↔
      v = .rejected reason offset ∧ remaining = text.suffixFrom offset := by
  cases v with
  | accepted e q =>
      constructor
      · rintro ⟨r, ⟨⟩, -⟩
      · rintro ⟨⟨⟩, -⟩
  | rejected reason' q =>
      constructor
      · rintro ⟨r, ⟨⟩, rfl, rfl, rfl⟩
        exact ⟨rfl, rfl⟩
      · rintro ⟨⟨⟩, rfl⟩
        exact ⟨_, rfl, rfl, rfl, rfl⟩

theorem value_eq_ok_iff {v : Verdict} {e : Element} :
    (v.value text snippet).mapError Failure.fault = .ok e ↔ ∃ q, v = .accepted e q := by
  cases v with
  | accepted e' q =>
      constructor
      · rintro ⟨⟩
        exact ⟨q, rfl⟩
      · rintro ⟨_, ⟨⟩⟩
        rfl
  | rejected reason q =>
      constructor
      · rintro ⟨⟩
      · rintro ⟨_, ⟨⟩⟩

theorem onlyRejects_value (v : Verdict) :
    OnlyRejects ((v.value text snippet).mapError Failure.fault) := by
  cases v with
  | accepted e q => rintro failure ⟨⟩
  | rejected reason q =>
      rintro failure ⟨⟩
      exact ⟨_, rfl⟩

/-- Only exhaustion makes a text be rejected for the nesting of its elements. -/
theorem ofOutcome_eq_recursionLimit_iff {policy : TrailingPolicy} {x : Outcome Element} {q : Int} :
    ofOutcome text policy x = .rejected .recursionLimit q ↔ q = 0 ∧ ∃ fault, x = .error fault := by
  rcases x with fault | ⟨e, n⟩ | n
  · constructor
    · rintro ⟨⟩
      exact ⟨rfl, fault, rfl⟩
    · rintro ⟨rfl, -⟩
      rfl
  · constructor
    · intro h
      rw [ofOutcome] at h
      split at h <;> cases h
    · rintro ⟨-, _, ⟨⟩⟩
  · constructor
    · rintro ⟨⟩
    · rintro ⟨-, _, ⟨⟩⟩

end Verdict

namespace Reading

/-- Reads a whole text as an element, without a configuration. -/
def wholeOutcome (limit : Nat) (text : Text) : Except Failure Element :=
  (Element.grammar.runWhole limit Element.root text).mapError .fault

/-- The ways to read a text come to the same in a session with the given configuration, on the same
host. -/
structure EntryPointsAgree (host : Host) (text : Text) (s : Session) (config : Config) :
    Prop where
  /-- The element of a fragment is the root of the document that allows trailing input. -/
  fragment_iff (e : Element) : (∃ rest, (fragment host text).outcome s = .ok (some ⟨e, rest⟩)) ↔
    (document host text (some .allow)).outcome s = .ok e
  /-- If nothing is left behind a fragment, it is the whole document. -/
  nothing_left (e : Element) : (fragment host text).outcome s = .ok (some ⟨e, .empty⟩) →
    (document host text (some .error)).outcome s = .ok e
  /-- What is left behind a fragment is the trailing input of the document. -/
  something_left (e : Element) (rest : Text) :
    (fragment host text).outcome s = .ok (some ⟨e, rest⟩) → rest ≠ .empty →
      Rejects ((document host text (some .error)).outcome s) .trailingInput
        (text.size - rest.size) rest
  /-- There is no fragment where a document is rejected as unexpected, under both policies and at
  one offset. -/
  no_fragment_iff : (fragment host text).outcome s = .ok none ↔
    ∃ q, ∀ policy, Rejects ((document host text (some policy)).outcome s) .unexpectedInput q
      (text.suffixFrom q)
  /-- The same texts are nested too deeply for a fragment and for a document. -/
  limit_fragment_iff (trailing : Option TrailingPolicy) :
    Rejects ((fragment host text).outcome s) .recursionLimit 0 text ↔
      Rejects ((document host text trailing).outcome s) .recursionLimit 0 text
  /-- The same texts are nested too deeply for a document and for an element. -/
  limit_document_iff (trailing : Option TrailingPolicy) :
    Rejects ((document host text trailing).outcome s) .recursionLimit 0 text ↔
      Rejects (wholeOutcome host.limit text) .recursionLimit 0 text
  /-- No other fault leaves any of the ways to read. -/
  onlyRejects : OnlyRejects ((fragment host text).outcome s) ∧
    (∀ trailing, OnlyRejects ((document host text trailing).outcome s)) ∧
    OnlyRejects (wholeOutcome host.limit text)
  /-- A document without trailing input and a whole element have the same value, or are rejected
  alike, and in the same words if the same number of units is quoted. -/
  document_whole :
    (∃ e, (document host text (some .error)).outcome s = .ok e ∧
        wholeOutcome host.limit text = .ok e) ∨
      ∃ r r' : Rejection,
        (document host text (some .error)).outcome s = .error (.fault (.rejected r)) ∧
        wholeOutcome host.limit text = .error (.fault (.rejected r')) ∧
        r.reason = r'.reason ∧ r.offset = r'.offset ∧ r.remaining = r'.remaining ∧
        (config.snippet = Rejection.defaultSnippet → r.message = r'.message)

section Agree

variable {host : Host} {text : Text} {s : Session} {config : Config}

theorem wholeOutcome_eq (limit : Nat) (text : Text) :
    wholeOutcome limit text =
      ((Verdict.onDocument limit text .error).value text Rejection.defaultSnippet).mapError
        .fault := by
  rw [wholeOutcome, Element.runWhole_eq_value]

/-- Where a fragment stops is inside the text. -/
theorem stop_of_read {e : Element} {q : Int}
    (h : Element.read host.limit text 0 = .ok (.success e q)) :
    ∃ n : Nat, q = n ∧ n ≤ text.size := by
  obtain ⟨n, hn, -, inside, -⟩ := Element.spelledBetween_of_read (Nat.zero_le text.size) h
  exact ⟨n, hn, inside⟩

variable (computed : s.inForce host = .ok config)
include computed

theorem outcome_fragment_of_ok :
    (fragment host text).outcome s =
      match Element.read host.limit text 0 with
      | .error _ => .error (.fault (.rejected
          (.ofText text 0 .recursionLimit config.snippet)))
      | .ok (.failure _) => .ok none
      | .ok (.success e q) => .ok (some ⟨e, text.suffixFrom q⟩) := by
  cases h : Element.read host.limit text 0 with
  | error fault => rw [fragment_of_error h, outcome, run_reject_of_ok computed]
  | ok result =>
      rw [outcome, run_fragment_of_read h]
      cases result with
      | failure q => rfl
      | success e q => rfl

theorem fragment_eq_some_iff {e : Element} {rest : Text} :
    (fragment host text).outcome s = .ok (some ⟨e, rest⟩) ↔
      ∃ q, Element.read host.limit text 0 = .ok (.success e q) ∧ text.suffixFrom q = rest := by
  rw [outcome_fragment_of_ok computed]
  rcases Element.read host.limit text 0 with fault | ⟨e', q⟩ | q
  · simp
  · simp only [Except.ok.injEq, Option.some.injEq, Fragment.mk.injEq, Result.success.injEq]
    constructor
    · rintro ⟨rfl, rfl⟩
      exact ⟨q, ⟨rfl, rfl⟩, rfl⟩
    · rintro ⟨_, ⟨rfl, rfl⟩, rfl⟩
      exact ⟨rfl, rfl⟩
  · simp

theorem fragment_eq_none_iff :
    (fragment host text).outcome s = .ok none ↔
      ∃ q, Element.read host.limit text 0 = .ok (.failure q) := by
  rw [outcome_fragment_of_ok computed]
  rcases Element.read host.limit text 0 with fault | ⟨e, q⟩ | q
  · simp
  · simp
  · simp

theorem rejects_fragment_recursionLimit_iff :
    Rejects ((fragment host text).outcome s) .recursionLimit 0 text ↔
      ∃ fault, Element.read host.limit text 0 = .error fault := by
  rw [outcome_fragment_of_ok computed]
  rcases Element.read host.limit text 0 with fault | ⟨e, q⟩ | q
  · exact iff_of_true ⟨_, rfl, rfl, rfl, Text.suffixFrom_zero⟩ ⟨fault, rfl⟩
  · simp [Rejects]
  · simp [Rejects]

theorem rejects_document_recursionLimit_iff (trailing : Option TrailingPolicy) :
    Rejects ((document host text trailing).outcome s) .recursionLimit 0 text ↔
      ∃ fault, Element.read host.limit text 0 = .error fault := by
  rw [outcome_document_of_ok computed, Verdict.rejects_value_iff, Verdict.onDocument,
    Verdict.ofOutcome_eq_recursionLimit_iff, Text.suffixFrom_zero]
  simp

theorem document_allow_eq_ok_iff {e : Element} :
    (document host text (some .allow)).outcome s = .ok e ↔
      ∃ q, Element.read host.limit text 0 = .ok (.success e q) := by
  rw [outcome_document_of_ok computed, Verdict.value_eq_ok_iff, Option.getD_some,
    Verdict.onDocument]
  rcases Element.read host.limit text 0 with fault | ⟨e', q⟩ | q
  · simp [Verdict.ofOutcome]
  · simp [Verdict.ofOutcome]
  · simp [Verdict.ofOutcome]

theorem rejects_document_unexpectedInput_iff (policy : TrailingPolicy) {q : Int} :
    Rejects ((document host text (some policy)).outcome s) .unexpectedInput q (text.suffixFrom q) ↔
      Element.read host.limit text 0 = .ok (.failure q) := by
  rw [outcome_document_of_ok computed, Verdict.rejects_value_iff, Option.getD_some,
    Verdict.onDocument]
  rcases Element.read host.limit text 0 with fault | ⟨e, n⟩ | n
  · simp [Verdict.ofOutcome]
  · simp only [Verdict.ofOutcome, and_true]
    split <;> simp
  · simp [Verdict.ofOutcome]

/-- What the two drivers that refuse trailing input make of one verdict. -/
theorem document_whole_of_ok :
    (∃ e, (document host text (some .error)).outcome s = .ok e ∧
        wholeOutcome host.limit text = .ok e) ∨
      ∃ r r' : Rejection,
        (document host text (some .error)).outcome s = .error (.fault (.rejected r)) ∧
        wholeOutcome host.limit text = .error (.fault (.rejected r')) ∧
        r.reason = r'.reason ∧ r.offset = r'.offset ∧ r.remaining = r'.remaining ∧
        (config.snippet = Rejection.defaultSnippet → r.message = r'.message) := by
  rw [outcome_document_of_ok computed, wholeOutcome_eq, Option.getD_some]
  cases Verdict.onDocument host.limit text .error with
  | accepted e q => exact .inl ⟨e, rfl, rfl⟩
  | rejected reason q =>
      right
      refine ⟨_, _, rfl, rfl, rfl, rfl, rfl, ?_⟩
      intro same
      rw [same]

theorem document_error_of_fragment {e : Element} {rest : Text}
    (h : (fragment host text).outcome s = .ok (some ⟨e, rest⟩)) :
    Verdict.onDocument host.limit text .error =
      if rest = .empty then .accepted e text.size
      else .rejected .trailingInput (text.size - rest.size) := by
  obtain ⟨q, hread, rfl⟩ := (fragment_eq_some_iff computed).mp h
  obtain ⟨n, rfl, inside⟩ := stop_of_read hread
  rw [Verdict.onDocument, hread, Verdict.ofOutcome, Text.size_sub_size_suffixFrom inside]
  simp only [Text.suffixFrom_eq_empty_iff inside, Int.natCast_inj, ne_eq, and_true]
  by_cases hend : n = text.size
  · rw [if_neg (not_not.mpr hend), if_pos hend, hend]
  · rw [if_pos hend, if_neg hend]

/-- In every session in which the configuration can be computed, all ways to read a text agree. -/
theorem entryPointsAgree : EntryPointsAgree host text s config where
  fragment_iff e := by
    rw [document_allow_eq_ok_iff computed]
    simp only [fragment_eq_some_iff computed]
    constructor
    · rintro ⟨rest, q, hread, -⟩
      exact ⟨q, hread⟩
    · rintro ⟨q, hread⟩
      exact ⟨_, q, hread, rfl⟩
  nothing_left e h := by
    rw [outcome_document_of_ok computed, Option.getD_some, document_error_of_fragment computed h,
      if_pos rfl]
    rfl
  something_left e rest h nonempty := by
    rw [outcome_document_of_ok computed, Option.getD_some, Verdict.rejects_value_iff,
      document_error_of_fragment computed h, if_neg nonempty]
    obtain ⟨q, hread, rfl⟩ := (fragment_eq_some_iff computed).mp h
    obtain ⟨n, rfl, inside⟩ := stop_of_read hread
    rw [Text.size_sub_size_suffixFrom inside]
    exact ⟨rfl, rfl⟩
  no_fragment_iff := by
    rw [fragment_eq_none_iff computed]
    simp only [rejects_document_unexpectedInput_iff computed]
    constructor
    · rintro ⟨q, hread⟩
      exact ⟨q, fun _ => hread⟩
    · rintro ⟨q, hread⟩
      exact ⟨q, hread .error⟩
  limit_fragment_iff trailing := by
    rw [rejects_fragment_recursionLimit_iff computed,
      rejects_document_recursionLimit_iff computed]
  limit_document_iff trailing := by
    rw [rejects_document_recursionLimit_iff computed, wholeOutcome_eq, Verdict.rejects_value_iff,
      Verdict.onDocument, Verdict.ofOutcome_eq_recursionLimit_iff, Text.suffixFrom_zero]
    simp
  onlyRejects := by
    refine ⟨?_, ?_, ?_⟩
    · rw [outcome_fragment_of_ok computed]
      rcases Element.read host.limit text 0 with fault | ⟨e, q⟩ | q
      · rintro failure ⟨⟩
        exact ⟨_, rfl⟩
      · rintro failure ⟨⟩
      · rintro failure ⟨⟩
    · intro trailing
      rw [outcome_document_of_ok computed]
      exact Verdict.onlyRejects_value _
    · rw [wholeOutcome_eq]
      exact Verdict.onlyRejects_value _
  document_whole := document_whole_of_ok computed

end Agree

/-- A unit behind the root element is what is left of the fragment and the trailing input of the
document. -/
theorem entryPointsAgree_trailing_unit :
    Session.start.inForce (JsonFiles.host 9) = .ok .defaults ∧
      (fragment (JsonFiles.host 9) "<a/>b").outcome .start =
        .ok (some ⟨.node "a" [] [], "b"⟩) ∧
      Rejects ((document (JsonFiles.host 9) "<a/>b" (some .error)).outcome .start)
        .trailingInput 4 "b" := by
  have computed : Session.start.inForce (JsonFiles.host 9) = .ok .defaults := rfl
  have isName : Text.IsName "a" := ⟨0x61, [], by decide, by decide, nofun⟩
  have noSpaces : Element.IsSpaces [] := nofun
  have spelled : Element.SpelledBetween "<a/>b" 0 4 (.node "a" [] []) := by
    refine ⟨by decide, by decide, ?_, ?_⟩
    · exact Element.Spells.single noSpaces noSpaces isName .nil
    · intro u hu
      cases hu
      decide
  have hread : Element.read 9 "<a/>b" 0 = .ok (.success (.node "a" [] []) 4) :=
    Element.read_of_spelledBetween spelled (by decide)
  have hrest : Text.suffixFrom "<a/>b" 4 = "b" := by decide
  have hfragment : (fragment (JsonFiles.host 9) "<a/>b").outcome .start =
      .ok (some ⟨.node "a" [] [], "b"⟩) :=
    (fragment_eq_some_iff computed).mpr ⟨4, hread, hrest⟩
  have agree : EntryPointsAgree _ "<a/>b" .start _ := entryPointsAgree computed
  exact ⟨computed, hfragment, agree.something_left _ _ hfragment (by decide)⟩

end Reading

end TagMarkup
