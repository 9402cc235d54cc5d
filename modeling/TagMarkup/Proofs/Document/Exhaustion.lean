import TagMarkup.Config.JsonFiles
import TagMarkup.Proofs.Document.Verdict

/-!
# Exhaustion is never masked

A run that is not exhausted comes to what it comes to under every higher limit, and a run that
contains an exhausted one is exhausted itself, whatever alternative, repetition, test or attempt
stands between the two. So a limit that is too low can only show as such: no value is ever cut
short by it, and no other alternative is taken. The readings of texts report it at the beginning of
the text.

## Implementation notes

Which runs a run contains is told by `Grammar.Performs`. That they cannot hold back a fault is
`Grammar.Performs.fault`; that the limit makes no other difference is `Grammar.run_limit_le`.
-/

namespace TagMarkup

namespace Grammar

variable {R : Type} {ρ : R → Type} {α : Type}

/-- The limit on active rules shows in a run as exhaustion or not at all. -/
structure ExhaustionShows (g : Grammar ρ) (limit : Nat) (parser : Parser ρ α) (text : Text)
    (p : Int) : Prop where
  /-- A run that is not exhausted comes to the same under every higher limit. -/
  stable (higher : Nat) : limit ≤ higher → g.run limit parser text p ≠ .error .exhausted →
    g.run higher parser text p = g.run limit parser text p
  /-- A run that contains an exhausted one is exhausted. -/
  run_exhausted (part : Invocation ρ) : g.Performs text ⟨limit, parser, p⟩ part →
    part.outcome g text = .error .exhausted → g.run limit parser text p = .error .exhausted
  /-- A whole text is rejected at its beginning if reading it contains an exhausted run. -/
  whole_rejected (part : Invocation ρ) : g.Performs text ⟨limit, parser, 0⟩ part →
    part.outcome g text = .error .exhausted → g.runWhole limit parser text =
      .error (.rejected (.ofText text 0 .recursionLimit Rejection.defaultSnippet))

theorem exhaustionShows (g : Grammar ρ) (limit : Nat) (parser : Parser ρ α) (text : Text)
    (p : Int) : ExhaustionShows g limit parser text p where
  stable higher le enough := by
    have same := (g.run_limit_le parser text le p).resolve_left enough
    exact same.symm
  run_exhausted part contained h := contained.fault h
  whole_rejected part contained h := by
    have hrun : g.run limit parser text 0 = .error .exhausted := contained.fault h
    rw [runWhole, hrun]
    rfl

/-- The rule that tries itself before the letter `a`. -/
def selfFirst : Grammar fun _ : Unit => Unit :=
  fun _ => (Parser.rule ()).attempt.orElse (.literal "a")

/-- A rule that tries itself first contains the call for which no activation is left. -/
theorem selfFirst_performs (limit : Nat) (text : Text) (p : Int) :
    selfFirst.Performs text ⟨limit, .rule (), p⟩ ⟨0, .rule (), p⟩ := by
  induction limit with
  | zero => exact .refl
  | succ limit ih =>
      apply Relation.ReflTransGen.head (.rule limit () p)
      apply Relation.ReflTransGen.head (.orElseFirst limit _ _ p)
      apply Relation.ReflTransGen.head (.attempt limit _ p)
      exact ih

end Grammar

namespace Reading

/-- The failure of a text that is nested too deeply: a rejection at the beginning, unless there is
no configuration that says how much it quotes. -/
def tooDeep (host : Host) (text : Text) (s : Session) : Failure :=
  match s.inForce host with
  | .ok config => .fault (.rejected (.ofText text 0 .recursionLimit config.snippet))
  | .error e => .unusable e

variable {host : Host} {text : Text}

theorem outcome_reject_recursionLimit {α : Type} (s : Session) :
    (reject host text 0 .recursionLimit : Reading α).outcome s = .error (tooDeep host text s) := by
  rw [outcome, tooDeep]
  cases h : s.inForce host with
  | ok config => rw [run_reject_of_ok h]
  | error e => rw [(needs_reject text 0 .recursionLimit).run_of_error h]

theorem outcome_fragment_of_error (h : Element.read host.limit text 0 = .error .exhausted)
    (s : Session) : (fragment host text).outcome s = .error (tooDeep host text s) := by
  rw [fragment_of_error h]
  exact outcome_reject_recursionLimit s

theorem outcome_document_of_error (h : Element.read host.limit text 0 = .error .exhausted)
    (trailing : Option TrailingPolicy) (s : Session) :
    (document host text trailing).outcome s = .error (tooDeep host text s) := by
  rw [tooDeep]
  cases hs : s.inForce host with
  | ok config =>
      rw [outcome_document_of_ok hs, Verdict.onDocument, h]
      rfl
  | error e => rw [outcome, (needs_document text trailing).run_of_error hs]

end Reading

namespace Grammar

variable {R : Type} {ρ : R → Type} {α : Type}

/-- Exhaustion is never masked, neither in a run with any grammar nor in the reading of a fragment
or of a document on any host. -/
theorem exhaustion_unmasked (g : Grammar ρ) (limit : Nat) (parser : Parser ρ α) (text : Text)
    (p : Int) :
    g.ExhaustionShows limit parser text p ∧
    ∀ (host : Host) part, Element.grammar.Performs text ⟨host.limit, Element.root, 0⟩ part →
      part.outcome Element.grammar text = .error .exhausted →
        ∀ s : Session,
          (Reading.fragment host text).outcome s = .error (Reading.tooDeep host text s) ∧
          ∀ trailing, (Reading.document host text trailing).outcome s =
            .error (Reading.tooDeep host text s) := by
  constructor
  · exact exhaustionShows g limit parser text p
  · intro host part contained h s
    have hread : Element.read host.limit text 0 = .error .exhausted := contained.fault h
    constructor
    · exact Reading.outcome_fragment_of_error hread s
    · intro trailing
      exact Reading.outcome_document_of_error hread trailing s

/-- An element is read alike by two limits; the letter is not read by the rule that tries itself
first; and as many opening tags as elements may be open are rejected as a fragment. -/
theorem exhaustion_unmasked_selfFirst :
    Element.grammar.run 5 Element.root "<b/>" 0 = .ok (.success (.node "b" [] []) 4) ∧
      selfFirst.run 3 (.rule ()) "a" 0 = .error .exhausted ∧
      (Reading.fragment (JsonFiles.host 9) (Element.openings 9)).outcome .start =
        .error (.fault (.rejected (.ofText (Element.openings 9) 0 .recursionLimit 20))) := by
  constructor
  · have isName : Text.IsName "b" := ⟨0x62, [], by decide, by decide, nofun⟩
    have noSpaces : Element.IsSpaces [] := nofun
    have spelled : Element.SpelledBetween "<b/>" 0 4 (.node "b" [] []) := by
      refine ⟨by decide, by decide, ?_, nofun⟩
      exact Element.Spells.single noSpaces noSpaces isName .nil
    have hread : Element.grammar.run 2 Element.root "<b/>" 0 =
        .ok (.success (.node "b" [] []) 4) := Element.read_of_spelledBetween spelled (by decide)
    have shows := (exhaustion_unmasked Element.grammar 2 Element.root "<b/>" 0).1
    have enough : Element.grammar.run 2 Element.root "<b/>" 0 ≠ .error .exhausted := by
      rw [hread]
      nofun
    rw [shows.stable 5 (by decide) enough, hread]
  · constructor
    · have shows := (exhaustion_unmasked selfFirst 3 (.rule ()) "a" 0).1
      exact shows.run_exhausted ⟨0, .rule (), 0⟩ (selfFirst_performs 3 "a" 0) rfl
    · have reports := (exhaustion_unmasked selfFirst 3 (.rule ()) (Element.openings 9) 0).2
      have hread := Element.read_openings 9
      exact (reports (JsonFiles.host 9) ⟨9, Element.root, 0⟩ .refl hread .start).1

end Grammar

end TagMarkup
