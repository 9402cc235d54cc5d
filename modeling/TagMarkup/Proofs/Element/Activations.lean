import TagMarkup.Proofs.Document.Verdict
import TagMarkup.Proofs.Element.FailureOffset
import TagMarkup.Proofs.Parser.Activations

/-!
# How deep the rule for elements goes

The rule for elements calls for itself only behind an opening tag and complete children. So when it
is called for inside itself, the opening tags of all the elements around it have been read, and none
of them has been closed. An opening tag takes up three units, and this bounds the activations by the
text that is left: reading ends, and the limit is reached only if there are as many unclosed opening
tags.

## Implementation notes

`Unclosed` counts these tags in the units between the start of the reading and the call. One step
from a call to the next inside it is `exists_opening_of_calls`; a whole run goes through such steps
by `Grammar.Performs.calls`.
-/

namespace TagMarkup

namespace Element

open CodeUnit
open TagMarkup.Grammar (Invocation)
open TagMarkup.Parser (Reaches)

/-- The units contain so many opening tags that are not closed: each has white space in front and
complete elements behind, up to the next one or to the end. -/
inductive Unclosed : List CodeUnit → Nat → Prop where
  /-- No opening tag. -/
  | none : Unclosed [] 0
  /-- An opening tag and its complete children, then further unclosed tags. -/
  | next {before front inner rest : List CodeUnit} {n : Text} {as : List Attribute}
      {cs : List Element} {count : Nat} (spaces : IsSpaces before) (isName : n.IsName)
      (spelled : SpellsAttributes front as) (children : SpellsAll inner cs)
      (others : Unclosed rest count) :
      Unclosed (before ++ (tagStartUnits n front ++ [0x3E]) ++ inner ++ rest) (count + 1)

/-- The shortest opening tag has three units. -/
theorem Unclosed.length_le {us : List CodeUnit} {count : Nat} (h : Unclosed us count) :
    3 * count ≤ us.length := by
  induction h with
  | none => exact Nat.zero_le _
  | @next before front inner rest n as cs count spaces isName spelled children others ih =>
      obtain ⟨u, us, hunits, -, -⟩ := isName
      have hname : 0 < n.toList.length := by
        rw [hunits]
        exact Nat.succ_pos _
      simp only [tagStartUnits, List.length_append, List.length_cons, List.length_nil]
      omega

section Step

variable {R : Type} {ρ : R → Type} {call : (r : R) → Int → Outcome (ρ r)} {text : Text} {p q : Int}
  {r : R}

theorem not_calls_spaces : ¬ (Parser.spaces : Parser ρ (List Text)).Calls call text p r q := by
  simp [Parser.spaces, Parser.space, Parser.satisfying, Parser.Calls]

theorem not_calls_tagStart :
    ¬ (tagStart : Parser ρ (Text × List Attribute)).Calls call text p r q := by
  simp [tagStart, attributeList, attributeItem, quotedText, Parser.spaces1, Parser.space,
    Parser.seqLeft, Parser.seqRight, Parser.map, Parser.satisfying, Parser.Calls]

theorem not_calls_tagWith (mark : Text) :
    ¬ (tagWith mark : Parser ρ Element).Calls call text p r q := by
  simp [tagWith, Parser.seqLeft, Parser.map, Parser.Calls, not_calls_tagStart]

theorem not_calls_closeTag (n : Text) :
    ¬ (closeTag n : Parser ρ Text).Calls call text p r q := by
  simp [closeTag, Parser.seqLeft, Parser.seqRight, Parser.map, Parser.satisfying, Parser.Calls]

/-- The rule for elements calls for others only behind white space, an opening tag and the children
that have been read. -/
theorem exists_reaches_of_calls {self : Parser ρ Element}
    (h : (element self).Calls call text p r q) :
    ∃ ws mid opened behind stop,
      (Parser.spaces : Parser ρ (List Text)).run call text p = .ok (.success ws mid) ∧
      (openTag : Parser ρ Element).run call text mid = .ok (.success opened behind) ∧
      Reaches (self.run call text) (Parser.bound text behind) behind stop ∧
      self.Calls call text stop r q := by
  obtain inSpaces | ⟨ws, mid, hspaces, (inSingle | ⟨_, -, inParent⟩) | ⟨_, _, -, inSpaces⟩⟩ := h
  · exact absurd inSpaces not_calls_spaces
  · exact absurd inSingle (not_calls_tagWith "/>")
  · obtain inOpen | ⟨opened, behind, hopen, ⟨stop, reached, inChild⟩ | ⟨_, _, -, inClose⟩⟩ :=
      inParent
    · exact absurd inOpen (not_calls_tagWith ">")
    · exact ⟨ws, mid, opened, behind, stop, hspaces, hopen, reached, inChild⟩
    · exact absurd inClose (not_calls_closeTag _)
  · exact absurd inSpaces not_calls_spaces

end Step

section Run

variable {text : Text} {limit start : Nat} {q : Int}

/-- Between the start of a repetition and where an item is looked for there are complete
elements. -/
theorem exists_spellsAll_of_reaches {last : Int} (inside : start ≤ text.size)
    (reached : Reaches (read limit text) last start q) :
    ∃ (stop : Nat) (inner : List CodeUnit) (cs : List Element), q = stop ∧ stop ≤ text.size ∧
      text.toList.drop start = inner ++ text.toList.drop stop ∧ SpellsAll inner cs := by
  generalize hstart : (start : Int) = p at reached
  induction reached generalizing start with
  | start p => exact ⟨start, [], [], hstart.symm, inside, rfl, .nil⟩
  | @next _ mid q e first grows inside' others ih =>
      rw [← hstart] at first
      obtain ⟨next, rfl, le, hnext, spelled, -⟩ := spelledBetween_of_read inside first
      obtain ⟨stop, inner, cs, rfl, hstop, hdrop, spelledAll⟩ := ih hnext rfl
      refine ⟨stop, (text.slice start next).toList ++ inner, e :: cs, rfl, hstop, ?_, ?_⟩
      · rw [drop_eq_slice_append text le, hdrop, List.append_assoc]
      · exact .cons spelled spelledAll

/-- Between the start of the rule for elements and where it calls for itself there is an unclosed
opening tag. -/
theorem exists_opening_of_calls (inside : start ≤ text.size) {s r : Unit}
    (h : Invocation.Calls grammar text ⟨limit, grammar s, start⟩ r q) :
    ∃ (stop : Nat) (front : List CodeUnit), q = stop ∧ stop ≤ text.size ∧
      text.toList.drop start = front ++ text.toList.drop stop ∧
      ∀ rest count, Unclosed rest count → Unclosed (front ++ rest) (count + 1) := by
  obtain ⟨ws, _, opened, _, _, hspaces, hopen, reached, -, rfl⟩ := exists_reaches_of_calls h
  obtain ⟨mid, rfl, hmid, hspaces⟩ := grammar.exists_scan_of_run inside hspaces
  obtain ⟨behind, rfl, hbehind, hopen⟩ := grammar.exists_scan_of_run hmid hopen
  obtain ⟨stop, inner, cs, rfl, hstop, hchildren, spelledAll⟩ :=
    exists_spellsAll_of_reaches hbehind reached
  obtain ⟨before, spaces, hbefore⟩ : ∃ before, IsSpaces before ∧
      text.toList.drop start = before ++ text.toList.drop mid := by
    rw [Grammar.scan, Parser.scan_spaces, Except.ok.injEq, Scan.success.injEq] at hspaces
    refine ⟨(text.toList.drop start).takeWhile isSpace, fun _ => List.mem_takeWhile_imp, ?_⟩
    rw [← hspaces.2, List.takeWhile_append_dropWhile]
  obtain ⟨n, as, front, -, isName, spelled, htag⟩ :=
    (scan_tagWith_eq_success _ toList_greater (by decide) (by decide)).mp hopen
  rw [toList_greater] at htag
  refine ⟨stop, before ++ (tagStartUnits n front ++ [0x3E]) ++ inner, rfl, hstop, ?_, ?_⟩
  · rw [hbefore, htag, hchildren]
    simp only [List.append_assoc]
  · intro rest count others
    exact .next spaces isName spelled spelledAll others

/-- When the rule for elements is called for in the course of reading one, so many opening tags have
been read that are not closed as activations have been used up. -/
theorem exists_unclosed_of_performs {limit left start : Nat} (inside : start ≤ text.size)
    (h : grammar.Performs text ⟨limit, root, start⟩ ⟨left, root, q⟩) :
    ∃ (stop : Nat) (front : List CodeUnit) (count : Nat), q = stop ∧ stop ≤ text.size ∧
      text.toList.drop start = front ++ text.toList.drop stop ∧ Unclosed front count ∧
      left + count = limit := by
  rcases h.calls with ⟨hlimit, -, hp⟩ | ⟨l, s, p, hlimit, ⟨-, rfl⟩, body⟩
  · exact ⟨start, [], 0, hp.symm, inside, rfl, .none, hlimit.symm⟩
  · obtain rfl : limit = l + 1 := hlimit
    obtain ⟨s', p, hcalls, others⟩ := body.exists_calls
    obtain ⟨mid, opening, rfl, hmid, hfirst, unclosed⟩ := exists_opening_of_calls inside hcalls
    obtain ⟨stop, front, count, rfl, hstop, hothers, further, hcount⟩ :=
      exists_unclosed_of_performs hmid others
    refine ⟨stop, opening ++ front, count + 1, rfl, hstop, ?_, unclosed _ _ further, ?_⟩
    · rw [hfirst, hothers, List.append_assoc]
    · exact congrArg Nat.succ hcount
termination_by limit

end Run

/-- So many opening tags lie unclosed between two offsets. -/
structure UnclosedBetween (text : Text) (start stop count : Nat) : Prop where
  /-- The second offset is inside the text. -/
  inside : stop ≤ text.size
  /-- Each of the tags takes up three units. -/
  le : start + 3 * count ≤ stop
  /-- The units between the offsets contain the tags. -/
  unclosed : Unclosed (text.slice start stop).toList count

/-- No activation is left at the second offset for the rule for elements, which is called for there
in the course of reading an element from the first. -/
structure ExhaustedAt (limit : Nat) (text : Text) (start stop : Nat) : Prop where
  /-- The rule is called for there. -/
  performs : grammar.Performs text ⟨limit, root, start⟩ ⟨0, root, stop⟩
  /-- All the elements that may be open have been opened and not been closed. -/
  unclosedBetween : UnclosedBetween text start stop limit

/-- How the activations of the rule for elements, of which there may be `limit` at once, depend on
the text in which an element is read. A part of the run has used up the difference of the limits. -/
structure BoundedByText (limit : Nat) (text : Text) (start : Nat) : Prop where
  /-- At most one activation more is in use at once than there are triples of units left. -/
  active_le (x : Invocation Values) : grammar.Performs text ⟨limit, root, start⟩ x →
    x.limit ≤ limit ∧ limit - x.limit ≤ 1 + (text.size - start) / 3
  /-- Each activation in use when the rule is called for has an opening tag of its own in front. -/
  unclosedBetween (left : Nat) (p : Int) :
    grammar.Performs text ⟨limit, root, start⟩ ⟨left, root, p⟩ →
      left ≤ limit ∧ ∃ stop : Nat, p = stop ∧ UnclosedBetween text start stop (limit - left)
  /-- If the reading is exhausted, there is a place where it is. -/
  exhausted : read limit text start = .error .exhausted → ∃ stop, ExhaustedAt limit text start stop
  /-- In a text that is too short for so many opening tags the reading is not exhausted. -/
  comesTo : text.size - start < 3 * limit → ∃ result, read limit text start = .ok result

section Bounds

variable {text : Text} {limit start : Nat} {q : Int}

theorem exists_unclosedBetween_of_performs {left : Nat} (inside : start ≤ text.size)
    (h : grammar.Performs text ⟨limit, root, start⟩ ⟨left, root, q⟩) :
    left ≤ limit ∧ ∃ stop : Nat, q = stop ∧ UnclosedBetween text start stop (limit - left) := by
  obtain ⟨stop, front, count, rfl, hstop, hdrop, unclosed, rfl⟩ :=
    exists_unclosed_of_performs inside h
  obtain ⟨hinside, -, hslice⟩ := Text.drop_add_length hdrop inside
  have hlength := congrArg List.length hdrop
  rw [List.length_append, List.length_drop, List.length_drop, Text.length_toList] at hlength
  obtain rfl : stop = start + front.length := by omega
  have hle := unclosed.length_le
  refine ⟨Nat.le_add_right _ _, _, rfl, hstop, ?_, ?_⟩
  · omega
  · rwa [hslice, Nat.add_sub_cancel_left]

/-- The place where a reading is exhausted. -/
theorem exists_exhaustedAt (inside : start ≤ text.size)
    (h : read limit text start = .error .exhausted) :
    ∃ stop, ExhaustedAt limit text start stop := by
  have hroot : root.FaultFree := trivial
  obtain ⟨_, q, performs⟩ := Grammar.exists_performs_of_error faultFree_grammar hroot h
  obtain ⟨-, stop, rfl, between⟩ := exists_unclosedBetween_of_performs inside performs
  exact ⟨stop, performs, between⟩

/-- The activations of the rule for elements are bounded by the text. -/
theorem boundedByText (inside : start ≤ text.size) : BoundedByText limit text start where
  active_le x contained := by
    rcases contained.exists_activation with hlimit | ⟨_, q, outer⟩
    · rw [hlimit, Nat.sub_self]
      exact ⟨le_refl _, Nat.zero_le _⟩
    · obtain ⟨hlimit, stop, -, between⟩ := exists_unclosedBetween_of_performs inside outer
      have hstop := between.inside
      have hle := between.le
      omega
  unclosedBetween left p := exists_unclosedBetween_of_performs inside
  exhausted := exists_exhaustedAt inside
  comesTo few := by
    cases h : read limit text start with
    | ok result => exact ⟨result, rfl⟩
    | error fault =>
        cases eq_exhausted_of_read h
        obtain ⟨stop, -, between⟩ := exists_exhaustedAt inside h
        have hstop := between.inside
        have hle := between.le
        omega

/-- A text is rejected for its nesting only if reading its root element is exhausted. -/
theorem read_of_runWhole {rejection : Rejection}
    (h : grammar.runWhole limit root text = .error (.rejected rejection))
    (reason : rejection.reason = .recursionLimit) : read limit text 0 = .error .exhausted := by
  have hwhole : wholeValue text (read limit text 0) = .error (.rejected rejection) := h
  cases hread : read limit text 0 with
  | error fault =>
      cases eq_exhausted_of_read hread
      rfl
  | ok result =>
      rw [hread] at hwhole
      cases result with
      | failure q =>
          cases hwhole
          cases reason
      | success e q =>
          rw [wholeValue] at hwhole
          split at hwhole
          · cases hwhole
          · cases hwhole
            cases reason

/-- Reading the root element of a text fails only if it is exhausted. -/
theorem read_of_outcome_root_eq_error {host : Host} {s : Session} {failure : Failure}
    (h : (Reading.root host text).outcome s = .error failure) :
    read host.limit text 0 = .error .exhausted := by
  cases hread : read host.limit text 0 with
  | error fault =>
      cases eq_exhausted_of_read hread
      rfl
  | ok result =>
      rw [Reading.root_of_read hread, Reading.outcome_pure] at h
      cases h

end Bounds

/-- Wherever an element is read, the text bounds how many activations of the rule for elements are
in use at once, so every reading comes to a result that is the same for all limits the text cannot
reach. A text is rejected for its nesting only with as many unclosed opening tags in it as elements
may be open. -/
theorem activations_bounded_by_text (text : Text) (start : Nat) (inside : start ≤ text.size) :
    (∀ limit, BoundedByText limit text start) ∧
    (∃ result, ∀ limit, text.size - start < 3 * limit →
      read limit text start = .ok result) ∧
    (∀ limit rejection, grammar.runWhole limit root text = .error (.rejected rejection) →
      rejection.reason = .recursionLimit → ∃ stop, ExhaustedAt limit text 0 stop) ∧
    ∀ (host : Host) (s : Session) (failure : Failure),
      (Reading.root host text).outcome s = .error failure →
        ∃ stop, ExhaustedAt host.limit text 0 stop := by
  refine ⟨fun _ => boundedByText inside, ?_, ?_, ?_⟩
  · -- the least limit that the text cannot reach is compared with each other one
    have least : text.size - start < 3 * ((text.size - start) / 3 + 1) := by omega
    obtain ⟨result, hread⟩ := (boundedByText inside).comesTo least
    refine ⟨result, fun limit few => ?_⟩
    exact read_of_le (by omega) hread
  · intro limit rejection h reason
    exact exists_exhaustedAt (Nat.zero_le _) (read_of_runWhole h reason)
  · intro host s failure h
    exact exists_exhaustedAt (Nat.zero_le _) (read_of_outcome_root_eq_error h)

/-- Two opening tags exhaust a limit of two; three activations are enough for them. -/
theorem activations_bounded_by_text_two_openings :
    0 ≤ (openings 2).size ∧ (∃ stop, ExhaustedAt 2 (openings 2) 0 stop) ∧
      ∃ result, read 3 (openings 2) 0 = .ok result := by
  have inside : 0 ≤ (openings 2).size := Nat.zero_le _
  have bounded := (activations_bounded_by_text (openings 2) 0 inside).1
  refine ⟨inside, (bounded 2).exhausted (read_openings 2), (bounded 3).comesTo ?_⟩
  decide

end Element

end TagMarkup
