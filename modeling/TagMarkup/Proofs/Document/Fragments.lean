import Mathlib.Data.List.Chain
import TagMarkup.Config.JsonFiles
import TagMarkup.Proofs.Document.Verdict

/-!
# One fragment at a time

Fragments can be taken from a text one at a time, each from what the one before it left. Unless the
nesting of elements exhausts a run, this ends after at most a quarter as many fragments as the text
has units, and it comes to what one repetition of the rule for elements reads: the same elements in
the same order, with the same text left.

## Implementation notes

`Reading.Takes` is the loop as a relation, without a condition on what is left; `Reading.fragments`
is the same loop as a procedure that makes sure that less and less is left. Both are compared with
`Parser.scanRepeat`, the repetition that reads lists of units.
-/

namespace TagMarkup

namespace Text

variable {t : Text}

/-- What is left of a text at the offset of some units are these units. -/
theorem suffixFrom_offsetOf {us : List CodeUnit} (left : us <:+ t.toList) :
    t.suffixFrom (t.offsetOf us) = .ofList us := by
  have hle := length_le_of_suffix left
  have hcut : t.cut (t.offsetOf us) = t.size - us.length := by
    rw [cut, offsetOf, if_neg (by omega)]
    omega
  rw [← toList_inj, toList_suffixFrom, hcut, drop_of_suffix left, toList_ofList]

theorem offsetOf_toList : t.offsetOf t.toList = 0 := by
  rw [offsetOf, length_toList]
  omega

/-- A text is what is left of another behind at least one unit. -/
def LeftOf (s t : Text) : Prop :=
  s.toList <:+ t.toList ∧ s.size < t.size

end Text

theorem Scanned.outcome_eq_error_iff {α : Type} {x : Scanned α} {size : Nat} {fault : Fault} :
    x.outcome size = .error fault ↔ x = .error fault := by
  cases x with
  | error fault' => simp [outcome, Except.map]
  | ok scan => simp [outcome, Except.map]

namespace Element

open TagMarkup.Parser (scanRepeat)

/-- Two brackets, a letter and a slash belong to every element. -/
theorem four_le_length_of_spells {us : List CodeUnit} {e : Element} (spelled : Spells us e) :
    4 ≤ us.length := by
  cases spelled with
  | single spacesBefore spacesAfter isName spellsAttributes =>
      obtain ⟨u, rest, hname, -⟩ := isName
      simp only [hname, List.length_append, List.length_cons, List.length_nil]
      omega
  | parent spacesBefore spacesAfter isName spellsAttributes spellsChildren =>
      obtain ⟨u, rest, hname, -⟩ := isName
      simp only [hname, List.length_append, List.length_cons, List.length_nil]
      omega

/-- Reading an element takes at least four units off a list. -/
theorem length_add_four_le_of_scanRead {limit : Nat} {us rest : List CodeUnit} {e : Element}
    (h : scanRead limit us = .ok (.success e rest)) : rest.length + 4 ≤ us.length := by
  obtain ⟨front, rfl, spelled, -, -⟩ := spells_of_scanRead h
  have hfront := four_le_length_of_spells spelled
  rw [List.length_append]
  omega

theorem suffix_of_scanRead {limit : Nat} {us rest : List CodeUnit} {e : Element}
    (h : scanRead limit us = .ok (.success e rest)) : rest <:+ us := by
  obtain ⟨front, rfl, -⟩ := spells_of_scanRead h
  exact List.suffix_append front rest

theorem read_zero_eq_scanRead (limit : Nat) (text : Text) :
    read limit text 0 = (scanRead limit text.toList).outcome text.size := by
  have h := read_eq_scanRead limit (Nat.zero_le text.size)
  rwa [List.drop_zero] at h

/-- The same faults end the reading of a text and that of its units. -/
theorem read_zero_eq_error_iff {limit : Nat} {text : Text} {fault : Fault} :
    read limit text 0 = .error fault ↔ scanRead limit text.toList = .error fault := by
  rw [read_zero_eq_scanRead, Scanned.outcome_eq_error_iff]

theorem suffix_of_scanRepeat {limit : Nat} {us rest : List CodeUnit} {es : List Element}
    (h : scanRepeat (scanRead limit) us = .ok (.success es rest)) : rest <:+ us :=
  Parser.scanRepeat_within (grammar.scanCall_within limit ()) us _ h

/-- Repeating the rule for elements from the beginning of a text. -/
theorem run_many_eq_scanRepeat (limit : Nat) (text : Text) :
    grammar.run limit root.many text 0 =
      (scanRepeat (scanRead limit) text.toList).outcome text.size := by
  have h := grammar.run_eq_scan limit root.many (List.suffix_refl text.toList)
  rwa [Text.offsetOf_toList] at h

theorem run_many_eq_error_iff {limit : Nat} {text : Text} {fault : Fault} :
    grammar.run limit root.many text 0 = .error fault ↔
      scanRepeat (scanRead limit) text.toList = .error fault := by
  rw [run_many_eq_scanRepeat, Scanned.outcome_eq_error_iff]

end Element

namespace Reading

open TagMarkup.Element (scanRead)
open TagMarkup.Parser (scanRepeat)

/-- Fragments are taken from the beginning of a text, each from what the one before it left, until
there is none; some text is left in the end. The readings may change the session. -/
inductive Takes (host : Host) : Session → Text → List Fragment → Text → Session → Prop where
  /-- There is no fragment. -/
  | stop {s s' : Session} {text : Text} (none : (fragment host text).run s = (.ok none, s')) :
      Takes host s text [] text s'
  /-- A fragment, then those of what it left. -/
  | next {s mid s' : Session} {text last : Text} {f : Fragment} {fs : List Fragment}
      (first : (fragment host text).run s = (.ok (some f), mid))
      (others : Takes host mid f.rest fs last s') :
      Takes host s text (f :: fs) last s'

section Fragment

variable {host : Host} {s s' : Session} {text : Text}

theorem run_fragment_ne_ok {fault : Fault}
    (h : scanRead host.limit text.toList = .error fault) (found : Option Fragment) :
    (fragment host text).run s ≠ (.ok found, s') := by
  rw [fragment_of_error (Element.read_zero_eq_error_iff.mpr h)]
  intro hrun
  exact outcome_reject_ne_ok host text 0 .recursionLimit s found (congrArg Prod.fst hrun)

/-- Reading a fragment goes by what is read from the units of the text. -/
theorem run_fragment_of_scan {x : Scan Element}
    (h : scanRead host.limit text.toList = .ok x) (s : Session) :
    (fragment host text).run s = (.ok (fragmentOf text (x.result text.size)), s) := by
  apply run_fragment_of_read
  rw [Element.read_zero_eq_scanRead, h]
  rfl

/-- There is no fragment where no element is read, and the session stays as it is. -/
theorem run_fragment_eq_none_iff :
    (fragment host text).run s = (.ok none, s') ↔
      s' = s ∧ ∃ rest, scanRead host.limit text.toList = .ok (.failure rest) := by
  cases hscan : scanRead host.limit text.toList using Scanned.cases with
  | error fault => exact iff_of_false (run_fragment_ne_ok hscan none) (by simp)
  | success e rest =>
      rw [run_fragment_of_scan hscan, Scan.result, fragmentOf]
      constructor
      · rintro ⟨⟩
      · rintro ⟨-, _, ⟨⟩⟩
  | failure rest =>
      rw [run_fragment_of_scan hscan, Scan.result, fragmentOf]
      constructor
      · rintro ⟨⟩
        exact ⟨rfl, rest, rfl⟩
      · rintro ⟨rfl, -⟩
        rfl

/-- A fragment is the element that is read and what is left then, and the session stays as it
is. -/
theorem run_fragment_eq_some_iff {f : Fragment} :
    (fragment host text).run s = (.ok (some f), s') ↔
      s' = s ∧ scanRead host.limit text.toList = .ok (.success f.element f.rest.toList) := by
  cases hscan : scanRead host.limit text.toList using Scanned.cases with
  | error fault => exact iff_of_false (run_fragment_ne_ok hscan (some f)) (by simp)
  | success e rest =>
      have hrest : text.suffixFrom (text.size - rest.length) = .ofList rest :=
        Text.suffixFrom_offsetOf (Element.suffix_of_scanRead hscan)
      rw [run_fragment_of_scan hscan, Scan.result, fragmentOf, hrest]
      constructor
      · rintro ⟨⟩
        exact ⟨rfl, rfl⟩
      · rintro ⟨rfl, h⟩
        cases h
        rfl
  | failure rest =>
      rw [run_fragment_of_scan hscan, Scan.result, fragmentOf]
      constructor
      · rintro ⟨⟩
      · rintro ⟨-, ⟨⟩⟩

/-- A fragment leaves less of the text. -/
theorem leftOf_of_fragment {f : Fragment} (h : (fragment host text).run s = (.ok (some f), s')) :
    f.rest.LeftOf text := by
  have hscan := (run_fragment_eq_some_iff.mp h).2
  have hlength := Element.length_add_four_le_of_scanRead hscan
  rw [Text.length_toList, Text.length_toList] at hlength
  exact ⟨Element.suffix_of_scanRead hscan, by omega⟩

end Fragment

section Takes

variable {host : Host} {s s' : Session} {text last : Text} {fs : List Fragment}

/-- Taking fragments gives the elements that a repetition reads, leaves what it leaves, and does not
change the session. -/
theorem Takes.scanRepeat_eq (taken : Takes host s text fs last s') :
    s' = s ∧ scanRepeat (scanRead host.limit) text.toList =
      .ok (.success (fs.map Fragment.element) last.toList) := by
  induction taken with
  | stop none =>
      obtain ⟨rfl, rest, hscan⟩ := run_fragment_eq_none_iff.mp none
      exact ⟨rfl, Parser.scanRepeat_of_failure hscan⟩
  | next first others ih =>
      obtain ⟨rfl, hscan⟩ := run_fragment_eq_some_iff.mp first
      obtain ⟨rfl, hothers⟩ := ih
      refine ⟨rfl, ?_⟩
      rw [Parser.scanRepeat_of_success hscan (Element.length_lt_of_scanRead hscan), hothers]
      rfl

/-- Unless the repetition is ended by a fault, there are fragments to take until there is none. -/
theorem exists_takes_of_scanRepeat {us : List CodeUnit} (s : Session)
    (h : ∀ fault, scanRepeat (scanRead host.limit) us ≠ .error fault) :
    ∃ fs last, Takes host s (.ofList us) fs last s := by
  fun_induction scanRepeat (scanRead host.limit) us with
  | case1 us fault hitem => exact absurd rfl (h fault)
  | case2 us vs hitem => exact ⟨[], _, .stop (run_fragment_eq_none_iff.mpr ⟨rfl, vs, hitem⟩)⟩
  | case3 us e mid hitem shorter ih =>
      have hmore (fault : Fault) : scanRepeat (scanRead host.limit) mid ≠ .error fault := by
        intro hfault
        apply h fault
        rw [hfault, Scanned.andThen_error]
      obtain ⟨fs, last, others⟩ := ih hmore
      have first : (fragment host (.ofList us)).run s = (.ok (some ⟨e, .ofList mid⟩), s) :=
        run_fragment_eq_some_iff.mpr ⟨rfl, hitem⟩
      exact ⟨_, last, .next first others⟩
  | case4 us e mid hitem shorter => exact absurd (Element.length_lt_of_scanRead hitem) shorter

/-- If repeating the rule for elements is not exhausted, there are fragments to take until there is
none. -/
theorem exists_takes (s : Session)
    (enough : Element.grammar.run host.limit Element.root.many text 0 ≠ .error .exhausted) :
    ∃ fs last, Takes host s text fs last s := by
  have noFault (fault : Fault) :
      scanRepeat (scanRead host.limit) text.toList ≠ .error fault := by
    intro h
    have hrun := Element.run_many_eq_error_iff.mpr h
    have hmany : Element.root.many.FaultFree := trivial
    cases Element.eq_exhausted_of_run hmany hrun
    exact enough hrun
  exact exists_takes_of_scanRepeat s noFault

/-- There is one way only to take fragments. -/
theorem Takes.unique (taken : Takes host s text fs last s') {fs' : List Fragment} {last' : Text}
    {s'' : Session} (taken' : Takes host s text fs' last' s'') :
    fs' = fs ∧ last' = last ∧ s'' = s' := by
  induction taken generalizing fs' with
  | stop none =>
      cases taken' with
      | stop none' =>
          rw [none] at none'
          cases none'
          exact ⟨rfl, rfl, rfl⟩
      | next first others =>
          rw [none] at first
          cases first
  | next first others ih =>
      cases taken' with
      | stop none =>
          rw [first] at none
          cases none
      | next first' others' =>
          rw [first] at first'
          cases first'
          obtain ⟨rfl, rfl, rfl⟩ := ih others'
          exact ⟨rfl, rfl, rfl⟩

/-- Four units of the text go into each fragment. -/
theorem Takes.length_le (taken : Takes host s text fs last s') :
    4 * fs.length + last.size ≤ text.size := by
  induction taken with
  | stop none => simp
  | next first others ih =>
      have hscan := (run_fragment_eq_some_iff.mp first).2
      have hlength := Element.length_add_four_le_of_scanRead hscan
      rw [Text.length_toList, Text.length_toList] at hlength
      rw [List.length_cons]
      omega

/-- Less and less of the text is left. -/
theorem Takes.isChain (taken : Takes host s text fs last s') :
    List.IsChain (fun t rest => rest.LeftOf t) (text :: fs.map Fragment.rest) := by
  induction taken with
  | stop none => exact .singleton _
  | next first others ih => exact .cons_cons (leftOf_of_fragment first) ih

/-- The procedure takes the fragments. -/
theorem Takes.run_fragmentsFrom (taken : Takes host s text fs last s') (read : List Element) :
    (fragmentsFrom host read text).run s =
      (.ok (read.reverse ++ fs.map Fragment.element, last), s') := by
  induction taken generalizing read with
  | stop none =>
      rw [fragmentsFrom, run_bind, none, List.map_nil, List.append_nil]
      rfl
  | @next s mid s' text last f fs first others ih =>
      rw [fragmentsFrom, run_bind, first]
      simp only [dif_pos (leftOf_of_fragment first).2]
      rw [ih, List.reverse_cons, List.append_assoc, List.map_cons]
      rfl

end Takes

/-- Taking fragments from a text in a session comes to one repetition of the rule for elements. -/
structure TakenAsRepetition (host : Host) (s : Session) (text : Text) (fs : List Fragment)
    (last : Text) : Prop where
  /-- These fragments are taken, and the session stays as it is. -/
  takes : Takes host s text fs last s
  /-- No others are. -/
  unique (fs' : List Fragment) (last' : Text) (s' : Session) : Takes host s text fs' last' s' →
    fs' = fs ∧ last' = last ∧ s' = s
  /-- There is at most one for every four units. -/
  length_le : fs.length ≤ text.size / 4
  /-- What each of them leaves is a shorter end of what it was taken from. -/
  shorter : List.IsChain (fun t rest => rest.LeftOf t) (text :: fs.map Fragment.rest)
  /-- The repetition reads their elements in order and stops where the last of them left off. -/
  repetition : ∃ q, Element.grammar.run host.limit Element.root.many text 0 =
    .ok (.success (fs.map Fragment.element) q) ∧ last = text.suffixFrom q
  /-- So does the procedure. -/
  procedure : (fragments host text).run s = (.ok (fs.map Fragment.element, last), s)

theorem Takes.asRepetition {host : Host} {s : Session} {text last : Text} {fs : List Fragment}
    (taken : Takes host s text fs last s) : TakenAsRepetition host s text fs last where
  takes := taken
  unique _ _ _ taken' := taken.unique taken'
  length_le := by
    have h := taken.length_le
    omega
  shorter := taken.isChain
  repetition := by
    have hscan := taken.scanRepeat_eq.2
    have left := Element.suffix_of_scanRepeat hscan
    refine ⟨text.offsetOf last.toList, ?_, ?_⟩
    · rw [Element.run_many_eq_scanRepeat, hscan]
      rfl
    · rw [Text.suffixFrom_offsetOf left, Text.ofList_toList]
  procedure := taken.run_fragmentsFrom []

/-- Provided that repeating the rule for elements is not exhausted, taking fragments one at a time
ends, and it comes to that repetition. -/
theorem exists_takenAsRepetition (host : Host) (s : Session) (text : Text)
    (enough : Element.grammar.run host.limit Element.root.many text 0 ≠ .error .exhausted) :
    ∃ fs last, TakenAsRepetition host s text fs last := by
  obtain ⟨fs, last, taken⟩ := exists_takes s enough
  exact ⟨fs, last, taken.asRepetition⟩

/-- Two fragments are taken from a text that goes on with a closing tag. -/
theorem exists_takenAsRepetition_closing_tag :
    Element.grammar.run 9 Element.root.many "<a/> <b/></c>" 0 ≠ .error .exhausted ∧
      ∃ fs, TakenAsRepetition (JsonFiles.host 9) .start "<a/> <b/></c>" fs "</c>" ∧
        fs.map Fragment.element = [.node "a" [] [], .node "b" [] []] := by
  have isNameA : Text.IsName "a" := ⟨0x61, [], by decide, by decide, nofun⟩
  have isNameB : Text.IsName "b" := ⟨0x62, [], by decide, by decide, nofun⟩
  have noSpaces : Element.IsSpaces [] := nofun
  have oneSpace : Element.IsSpaces [0x20] := List.forall_mem_singleton.mpr (by decide)
  have first : Element.Reads 9 (Text.toList "<a/>") (.node "a" [] []) :=
    Element.reads_of_spells (.single noSpaces noSpaces isNameA .nil) (by decide)
  have second : Element.Reads 9 (Text.toList " <b/>") (.node "b" [] []) :=
    Element.reads_of_spells (.single oneSpace noSpaces isNameB .nil) (by decide)
  have hscan : scanRepeat (scanRead 9) (Text.toList "<a/> <b/></c>") =
      .ok (.success [.node "a" [] [], .node "b" [] []] (Text.toList "</c>")) :=
    (Element.ReadsAll.cons first (.cons second .nil)).scanRepeat_eq (by decide) "c" []
  have hrun : Element.grammar.run 9 Element.root.many "<a/> <b/></c>" 0 =
      .ok (.success [.node "a" [] [], .node "b" [] []] 9) := by
    rw [Element.run_many_eq_scanRepeat, hscan]
    rfl
  have enough : Element.grammar.run 9 Element.root.many "<a/> <b/></c>" 0 ≠
      .error .exhausted := by
    rw [hrun]
    nofun
  obtain ⟨fs, last, taken⟩ :=
    exists_takenAsRepetition (JsonFiles.host 9) .start "<a/> <b/></c>" enough
  obtain ⟨q, hrun', hlast⟩ := taken.repetition
  obtain ⟨helements, rfl⟩ := Result.success.inj (Except.ok.inj (hrun.symm.trans hrun'))
  have hclosing : last = "</c>" := hlast.trans (by decide)
  exact ⟨enough, fs, hclosing ▸ taken, helements.symm⟩

end Reading

end TagMarkup
