import TagMarkup.Proofs.Document.EntryPoints
import TagMarkup.Proofs.Document.Fragments
import TagMarkup.Proofs.Element.Spacing

/-!
# White space in documents

White space in front of a text moves every offset and changes nothing else, and white space at its
end changes nothing about whether the text is accepted. In a text that is accepted with nothing
left, the white space around elements may be any, and that in front of attributes any but none. Only
between the two tags of an element without children may there be none.
-/

namespace TagMarkup

open TagMarkup.Element (IsSpaces Writes Parts scanRead)

/-- White space in front of a text moves the offset of every success and failure. -/
theorem Element.read_append_of_isSpaces {w : Text} (spaces : IsSpaces w.toList) (limit : Nat)
    (text : Text) : read limit (w ++ text) 0 = (read limit text 0).map (Result.shift w.size) := by
  have hsize : (w ++ text).size = text.size + w.size := by
    rw [← Text.length_toList, Text.toList_append, List.length_append, Text.length_toList,
      Text.length_toList, Nat.add_comm]
  rw [read_zero_eq_scanRead, read_zero_eq_scanRead, Text.toList_append,
    scanRead_append_of_isSpaces spaces, hsize]
  cases scanRead limit text.toList with
  | error fault => rfl
  | ok x =>
      apply congrArg Except.ok
      exact Scan.result_shift x text.size w.size

namespace Verdict

/-- A text is accepted if its root element is read and the policy allows for what is left. -/
theorem exists_accepted_iff {limit : Nat} {text : Text} {policy : TrailingPolicy} {e : Element} :
    (∃ q, onDocument limit text policy = .accepted e q) ↔
      ∃ rest, scanRead limit text.toList = .ok (.success e rest) ∧
        (policy = .error → rest = []) := by
  rw [onDocument, Element.read_zero_eq_scanRead]
  cases scanRead limit text.toList using Scanned.cases with
  | error fault => simp [Scanned.outcome, Except.map, ofOutcome]
  | failure rest => simp [Scanned.outcome, Except.map, Scan.result, ofOutcome]
  | success e' rest =>
      have hleft : (text.size - rest.length : Int) ≠ text.size ↔ rest ≠ [] := by
        rw [ne_eq, ne_eq, ← List.length_eq_zero_iff]
        omega
      simp only [Scanned.outcome, Except.map, Scan.result, ofOutcome, hleft]
      split
      · next h =>
        simp only [reduceCtorEq, exists_false, Except.ok.injEq, Scan.success.injEq, false_iff]
        rintro ⟨_, ⟨rfl, rfl⟩, allowed⟩
        exact h.1 (allowed h.2)
      · next h =>
        constructor
        · rintro ⟨_, ⟨⟩⟩
          refine ⟨rest, rfl, fun strict => ?_⟩
          by_contra nonempty
          exact h ⟨nonempty, strict⟩
        · rintro ⟨_, ⟨⟩, -⟩
          exact ⟨_, rfl⟩

end Verdict

namespace Reading

variable {host : Host} {s : Session} {text : Text}

/-- A document is accepted if its root element is read and the policy in force allows for what is
left. -/
theorem document_eq_ok_iff {config : Config} (computed : s.inForce host = .ok config)
    {trailing : Option TrailingPolicy} {e : Element} :
    (document host text trailing).outcome s = .ok e ↔
      ∃ rest, scanRead host.limit text.toList = .ok (.success e rest) ∧
        (trailing.getD config.trailing = .error → rest = []) := by
  rw [outcome_document_of_ok computed, Verdict.value_eq_ok_iff, Verdict.exists_accepted_iff]

/-- Where the configuration cannot be computed, no document is accepted. -/
theorem exists_inForce_of_document {trailing : Option TrailingPolicy} {e : Element}
    (h : (document host text trailing).outcome s = .ok e) :
    ∃ config, s.inForce host = .ok config := by
  cases hs : s.inForce host with
  | ok config => exact ⟨config, rfl⟩
  | error failed =>
      rw [outcome, (needs_document text trailing).run_of_error hs] at h
      cases h

/-- White space at the end of a text makes no difference to whether it is accepted. -/
theorem document_append_spaces_iff {w : Text} (spaces : IsSpaces w.toList) (s : Session)
    (text : Text) (trailing : Option TrailingPolicy) (e : Element) :
    (document host (text ++ w) trailing).outcome s = .ok e ↔
      (document host text trailing).outcome s = .ok e := by
  cases hs : s.inForce host with
  | ok config =>
      rw [document_eq_ok_iff hs, document_eq_ok_iff hs, Text.toList_append]
      exact Element.scanRead_append_spaces_iff spaces e _
  | error failed =>
      have never (t : Text) : (document host t trailing).outcome s ≠ .ok e := by
        intro h
        obtain ⟨config, computed⟩ := exists_inForce_of_document h
        rw [hs] at computed
        cases computed
      exact iff_of_false (never _) (never _)

/-- How the white space of a text that is accepted with nothing left can be changed. -/
structure Respacing (host : Host) (s : Session) (text : Text) (e : Element) : Prop where
  /-- The text writes some markup of the element. -/
  written : ∃ m, Writes text.toList m ∧ m.element = e
  /-- Every text that differs only in the white space around elements and in front of attributes is
  accepted as well, as the same element. -/
  respaced (m : Markup) (text' : Text) : Writes text.toList m → Writes text'.toList m →
    ∀ trailing, (document host text' trailing).outcome s = .ok e
  /-- With white space between the two tags of an element without children, the text is rejected. -/
  parted (m : Markup) (opened closed gap : Text) : Parts opened.toList closed.toList m →
    text = opened ++ closed → IsSpaces gap.toList → gap ≠ .empty →
    ∀ trailing, ∃ q, Rejects ((document host (opened ++ gap ++ closed) trailing).outcome s)
      .unexpectedInput q ((opened ++ gap ++ closed).suffixFrom q)

section Respacing

variable {config : Config} (computed : s.inForce host = .ok config)
include computed

/-- Whatever writes a markup that is not too deep is accepted as the element. -/
theorem document_of_writes {m : Markup} (written : Writes text.toList m)
    (enough : m.depth ≤ host.limit) (trailing : Option TrailingPolicy) :
    (document host text trailing).outcome s = .ok m.element := by
  refine (document_eq_ok_iff computed).mpr ⟨[], ?_, fun _ => rfl⟩
  rw [Element.scanRead_of_writes written, if_pos enough]

/-- A text of which the root element is not read is rejected. -/
theorem rejects_document_of_failure {rest : List CodeUnit}
    (h : scanRead host.limit text.toList = .ok (.failure rest))
    (trailing : Option TrailingPolicy) :
    ∃ q, Rejects ((document host text trailing).outcome s) .unexpectedInput q
      (text.suffixFrom q) := by
  have hread : Element.read host.limit text 0 =
      .ok (.failure (text.size - rest.length)) := by
    rw [Element.read_zero_eq_scanRead, h]
    rfl
  refine ⟨text.size - rest.length, ?_⟩
  rw [outcome_document_of_ok computed, Verdict.rejects_value_iff, Verdict.onDocument, hread]
  exact ⟨rfl, rfl⟩

/-- Whatever markup a text that is accepted with nothing left writes, it is one of the element and
not too deep. -/
theorem enough_of_document {e : Element} (h : (document host text (some .error)).outcome s = .ok e)
    {m : Markup} (written : Writes text.toList m) : m.depth ≤ host.limit ∧ m.element = e := by
  obtain ⟨rest, hscan, -⟩ := (document_eq_ok_iff computed).mp h
  rw [Element.scanRead_of_writes written] at hscan
  split at hscan
  · next enough =>
    cases hscan
    exact ⟨enough, rfl⟩
  · cases hscan

/-- What a text that is accepted with nothing left allows for and what it does not. -/
theorem respacing_of_document {e : Element}
    (h : (document host text (some .error)).outcome s = .ok e) : Respacing host s text e where
  written := by
    obtain ⟨rest, hscan, whole⟩ := (document_eq_ok_iff computed).mp h
    obtain ⟨front, hsplit, spelled, -, -⟩ := Element.spells_of_scanRead hscan
    rw [whole rfl, List.append_nil] at hsplit
    rw [hsplit]
    exact Element.exists_writes_of_spells spelled
  respaced m text' written written' trailing := by
    obtain ⟨enough, rfl⟩ := enough_of_document computed h written
    exact document_of_writes computed written' enough trailing
  parted m opened closed gap parts joined spaces nonempty trailing := by
    have written : Writes text.toList m := by
      rw [joined, Text.toList_append]
      exact Element.writes_of_parts parts
    obtain ⟨enough, -⟩ := enough_of_document computed h written
    have hgap : gap.toList ≠ [] := fun hnil => nonempty (Text.toList_inj.mp hnil)
    obtain ⟨left, hread⟩ := Element.exists_failure_of_parts parts spaces hgap enough []
    rw [List.append_nil, ← Text.toList_append, ← Text.toList_append] at hread
    exact rejects_document_of_failure computed hread trailing

end Respacing

/-- White space is read over in front of a text, at its end, around elements and in front of
attributes. Between the two tags of an element without children it is not. -/
theorem spaces_read_over (host : Host) (s : Session) (text : Text) :
    (∀ (limit : Nat) (w : Text), IsSpaces w.toList →
      Element.read limit (w ++ text) 0 =
        (Element.read limit text 0).map (Result.shift w.size)) ∧
    (∀ (w : Text) (trailing : Option TrailingPolicy) (e : Element), IsSpaces w.toList →
      ((document host (text ++ w) trailing).outcome s = .ok e ↔
        (document host text trailing).outcome s = .ok e)) ∧
    ∀ e, (document host text (some .error)).outcome s = .ok e → Respacing host s text e := by
  refine ⟨?_, ?_, ?_⟩
  · intro limit w spaces
    exact Element.read_append_of_isSpaces spaces limit text
  · intro w trailing e spaces
    exact document_append_spaces_iff spaces s text trailing e
  · intro e h
    obtain ⟨config, computed⟩ := exists_inForce_of_document h
    exact respacing_of_document computed h

/-- An element with an attribute and a child of two tags, with other white space, with white space
around the whole, and with white space between the tags of the child. -/
theorem spaces_read_over_child :
    IsSpaces (Text.ofString " ").toList ∧
      Element.read 3 ((" " : Text) ++ "<a x=\"1\"><b></b></a>") 0 =
        (Element.read 3 "<a x=\"1\"><b></b></a>" 0).map (Result.shift 1) ∧
      ((document (JsonFiles.host 9) (("<a x=\"1\"><b></b></a>" : Text) ++ " ") none).outcome
          .start = .ok (.node "a" [⟨"x", "1"⟩] [.node "b" [] []]) ↔
        (document (JsonFiles.host 9) "<a x=\"1\"><b></b></a>" none).outcome .start =
          .ok (.node "a" [⟨"x", "1"⟩] [.node "b" [] []])) ∧
    (document (JsonFiles.host 9) "<a x=\"1\"><b></b></a>" (some .error)).outcome .start =
        .ok (.node "a" [⟨"x", "1"⟩] [.node "b" [] []]) ∧
      (document (JsonFiles.host 9) "<a\tx=\"1\"> <b></b>\n</a>" none).outcome .start =
        .ok (.node "a" [⟨"x", "1"⟩] [.node "b" [] []]) ∧
      ∃ q, Rejects
        ((document (JsonFiles.host 9) "<a x=\"1\"><b> </b></a>" none).outcome .start)
        .unexpectedInput q (Text.suffixFrom "<a x=\"1\"><b> </b></a>" q) := by
  have noSpaces : IsSpaces [] := nofun
  have one (u : CodeUnit) (hu : u.isSpace = true) : IsSpaces [u] := List.forall_mem_singleton.mpr hu
  have space : IsSpaces (Text.ofString " ").toList := one 0x20 (by decide)
  have isNameA : Text.IsName "a" := ⟨0x61, [], by decide, by decide, nofun⟩
  have isNameB : Text.IsName "b" := ⟨0x62, [], by decide, by decide, nofun⟩
  have wellFormed : Attribute.WellFormed ⟨"x", "1"⟩ :=
    ⟨⟨0x78, [], by decide, by decide, nofun⟩, by decide⟩
  have written : Writes (Text.ofString "<a x=\"1\"><b></b></a>").toList
      (.paired "a" [⟨"x", "1"⟩] [.paired "b" [] []]) :=
    .paired noSpaces noSpaces isNameA (.cons (one 0x20 (by decide)) (by decide) wellFormed .nil)
      (.cons (.paired noSpaces noSpaces isNameB .nil .nil) .nil)
  have written' : Writes (Text.ofString "<a\tx=\"1\"> <b></b>\n</a>").toList
      (.paired "a" [⟨"x", "1"⟩] [.paired "b" [] []]) :=
    .paired noSpaces noSpaces isNameA (.cons (one 0x09 (by decide)) (by decide) wellFormed .nil)
      (.cons (.paired (one 0x20 (by decide)) (one 0x0A (by decide)) isNameB .nil .nil) .nil)
  have parts : Parts (Text.ofString "<a x=\"1\"><b>").toList (Text.ofString "</b></a>").toList
      (.paired "a" [⟨"x", "1"⟩] [.paired "b" [] []]) :=
    .inner noSpaces noSpaces isNameA (.cons (one 0x20 (by decide)) (by decide) wellFormed .nil) .nil
      (.outermost noSpaces noSpaces isNameB .nil) .nil
  have computed : Session.start.inForce (JsonFiles.host 9) = .ok .defaults := rfl
  have accepted :
      (document (JsonFiles.host 9) "<a x=\"1\"><b></b></a>" (some .error)).outcome .start =
        .ok (.node "a" [⟨"x", "1"⟩] [.node "b" [] []]) :=
    document_of_writes computed written (by decide) _
  obtain ⟨front, behind, respacing⟩ :=
    spaces_read_over (JsonFiles.host 9) .start "<a x=\"1\"><b></b></a>"
  have respacing := respacing _ accepted
  refine ⟨space, front 3 " " space, behind " " _ _ space, accepted,
    respacing.respaced _ _ written written' _, ?_⟩
  exact respacing.parted _ "<a x=\"1\"><b>" "</b></a>" " " parts (by decide) space (by decide) _

end Reading

end TagMarkup
