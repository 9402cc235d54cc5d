import TagMarkup.Config.JsonFiles
import TagMarkup.Proofs.Document
import TagMarkup.Proofs.Element.Acceptance

/-!
# Printing and reading

The canonical form of a well-formed element is read as that element, whatever follows it, by every
limit that is not below its nesting. Conversely all that is ever read is well formed, so what is
read from a text can be printed, and the canonical form stands for the same element.

## Implementation notes

A printed element has no white space around it, and one without children is printed as a single
tag. This is why the limit may equal the nesting here, where an element spelled in another way
may need one more activation, to find that an element with a closing tag has no children.
-/

namespace TagMarkup

namespace Element

open CodeUnit

section Print

theorem toList_print_attribute (a : Attribute) :
    a.print.toList = [0x20] ++ attributeUnits a := by
  have hspace : (Text.ofString " ").toList = [0x20] := by decide
  have hequals : (Text.ofString "=\"").toList = [0x3D, 0x22] := by decide
  simp only [Attribute.print, Text.toList_append, hspace, hequals, toList_quote, attributeUnits,
    List.append_assoc]

/-- Printed attributes are spelled with one space in front of each. -/
theorem spellsAttributes_print {as : List Attribute} (wellFormed : ∀ a ∈ as, a.WellFormed) :
    SpellsAttributes (Text.join (as.map Attribute.print)).toList as := by
  induction as with
  | nil => exact .nil
  | cons a as ih =>
      rw [Text.toList_join, List.map_cons, List.flatMap_cons, toList_print_attribute,
        ← Text.toList_join]
      obtain ⟨first, others⟩ := List.forall_mem_cons.mp wellFormed
      have oneSpace : IsSpaces [0x20] := List.forall_mem_singleton.mpr (by decide)
      apply SpellsAttributes.cons oneSpace (List.cons_ne_nil _ _) first
      exact ih others

theorem toList_printTagStart (n : Text) (as : List Attribute) :
    (printTagStart n as).toList =
      [0x3C] ++ n.toList ++ (Text.join (as.map Attribute.print)).toList := by
  rw [printTagStart, Text.toList_append, Text.toList_append, toList_less]

theorem toList_print_leaf (n : Text) (as : List Attribute) :
    (print (node n as [])).toList =
      [0x3C] ++ n.toList ++ (Text.join (as.map Attribute.print)).toList ++ [0x2F, 0x3E] := by
  rw [print, Text.toList_append, toList_printTagStart, toList_slashGreater]

theorem toList_print_parent (n : Text) (as : List Attribute) (c : Element) (cs : List Element) :
    (print (node n as (c :: cs))).toList =
      [0x3C] ++ n.toList ++ (Text.join (as.map Attribute.print)).toList ++ [0x3E] ++
        (printAll (c :: cs)).toList ++ [0x3C, 0x2F] ++ n.toList ++ [0x3E] := by
  simp only [print, printAll, Text.toList_append, toList_printTagStart, toList_greater,
    toList_lessSlash]

variable {limit : Nat}

/-- Printed elements are read one after the other if each of them is. -/
theorem readsAll_printAll {cs : List Element}
    (ofPrint : ∀ c ∈ cs, Reads limit c.print.toList c) :
    ReadsAll limit (printAll cs).toList cs := by
  induction cs with
  | nil => exact .nil
  | cons c cs ih =>
      rw [printAll, Text.toList_append]
      obtain ⟨first, others⟩ := List.forall_mem_cons.mp ofPrint
      apply ReadsAll.cons first
      exact ih others

theorem nesting_le_of_mem {c : Element} {cs : List Element} (hc : c ∈ cs) :
    c.nesting ≤ nestingAll cs := by
  induction cs with
  | nil => cases hc
  | cons d cs ih =>
      rw [nestingAll]
      rcases List.mem_cons.mp hc with rfl | hmem
      · exact Nat.le_max_left _ _
      · exact (ih hmem).trans (Nat.le_max_right _ _)

theorem nesting_pos (e : Element) : 0 < e.nesting := by
  cases e with
  | node n as cs =>
      rw [nesting]
      exact Nat.succ_pos _

/-- The canonical form of a well-formed element is read as that element. -/
theorem reads_print {e : Element} (wellFormed : e.WellFormed) (enough : e.nesting ≤ limit) :
    Reads limit e.print.toList e := by
  induction limit generalizing e with
  | zero => exact absurd enough (nesting_pos e).not_ge
  | succ limit ih =>
      cases wellFormed with
      | @node n as cs isName ofAttribute ofChild =>
          have none : IsSpaces [] := nofun
          have spelled := spellsAttributes_print ofAttribute
          cases cs with
          | nil =>
              have hreads : Reads (limit + 1) _ _ := reads_single none none isName spelled
              rwa [List.append_nil, List.nil_append, ← toList_print_leaf] at hreads
          | cons c cs =>
              rw [nesting, Nat.add_le_add_iff_right] at enough
              have below (d : Element) (hd : d ∈ c :: cs) : d.nesting ≤ limit :=
                (nesting_le_of_mem hd).trans enough
              have children : ReadsAll limit (printAll (c :: cs)).toList (c :: cs) := by
                apply readsAll_printAll
                intro d hd
                exact ih (ofChild d hd) (below d hd)
              have positive : 0 < limit := (nesting_pos c).trans_le (below c List.mem_cons_self)
              have hreads := reads_parent positive none none isName spelled children
              rwa [List.append_nil, List.nil_append, ← toList_print_parent] at hreads

/-- The canonical form is read up to its end. -/
theorem read_print {e : Element} (wellFormed : e.WellFormed) (enough : e.nesting ≤ limit) :
    read limit e.print 0 = .ok (.success e e.print.size) := by
  have hscan := reads_print wellFormed enough []
  rw [List.append_nil] at hscan
  calc read limit e.print 0
      _ = (scanRead limit (e.print.toList.drop 0)).outcome e.print.size :=
        read_eq_scanRead limit (Nat.zero_le _)
      _ = Scanned.outcome e.print.size (.ok (.success e [])) := by
        rw [List.drop_zero, hscan, List.dropWhile_nil]
      _ = .ok (.success e e.print.size) := by
        rw [Scanned.outcome, Except.map, Scan.result, List.length_nil, Int.natCast_zero,
          Int.sub_zero]

end Print

section WellFormed

theorem SpellsAttributes.wellFormed {us : List CodeUnit} {as : List Attribute}
    (spelled : SpellsAttributes us as) : ∀ a ∈ as, a.WellFormed := by
  induction spelled with
  | nil => nofun
  | cons spaces nonempty wellFormed others ih => exact List.forall_mem_cons.mpr ⟨wellFormed, ih⟩

mutual

/-- Only well-formed elements are spelled. -/
theorem Spells.wellFormed {us : List CodeUnit} {e : Element} : Spells us e → e.WellFormed
  | .single _ _ isName spelled => .node isName spelled.wellFormed nofun
  | .parent _ _ isName spelled children => .node isName spelled.wellFormed children.wellFormed

theorem SpellsAll.wellFormed {us : List CodeUnit} {cs : List Element} :
    SpellsAll us cs → ∀ c ∈ cs, c.WellFormed
  | .nil => nofun
  | .cons first others => List.forall_mem_cons.mpr ⟨first.wellFormed, others.wellFormed⟩

end

/-- Whatever is read is well formed and nested no deeper than the limit. -/
theorem wellFormed_of_read {limit : Nat} {text : Text} {e : Element} {q : Int}
    (h : read limit text 0 = .ok (.success e q)) : e.WellFormed ∧ e.nesting ≤ limit := by
  obtain ⟨rest, hscan, -⟩ := scanRead_of_read (Nat.zero_le text.size) h
  obtain ⟨front, -, spelled, hnesting, -⟩ := spells_of_scanRead hscan
  exact ⟨spelled.wellFormed, hnesting⟩

end WellFormed

section Session

/-- The canonical form stands for the element: as a document without trailing input it gives the
element in every session in which the configuration can be computed, and as a fragment it gives the
element with nothing left. -/
def ReadsBack (host : Host) (e : Element) : Prop :=
  ∀ s : Session,
    (Reading.document host e.print (some .error)).outcome s =
      ((Reading.need host).outcome s).map (fun _ => e) ∧
    (Reading.fragment host e.print).outcome s = .ok (some ⟨e, .empty⟩)

/-- The text gives the element in the session, as a document or as a fragment. -/
def GivenBy (host : Host) (text : Text) (s : Session) (e : Element) : Prop :=
  (∃ trailing, (Reading.document host text trailing).outcome s = .ok e) ∨
    ∃ rest, (Reading.fragment host text).outcome s = .ok (some ⟨e, rest⟩)

variable {host : Host}

theorem readsBack_of_wellFormed {e : Element} (wellFormed : e.WellFormed)
    (enough : e.nesting ≤ host.limit) : e.ReadsBack host := by
  have hread := read_print wellFormed enough
  intro s
  constructor
  · exact Reading.outcome_document_of_read hread .error s
  · have hrest : e.print.suffixFrom e.print.size = .empty := by
      rw [← Text.toList_inj, Text.toList_suffixFrom, Text.cut, if_neg (by omega)]
      simp
    rw [Reading.outcome_fragment_of_read hread, hrest]

theorem read_of_givenBy {text : Text} {s : Session} {e : Element} (h : GivenBy host text s e) :
    ∃ q, read host.limit text 0 = .ok (.success e q) := by
  rcases h with ⟨trailing, h⟩ | ⟨rest, h⟩
  · exact Reading.read_of_outcome_document h
  · obtain ⟨q, hread, -⟩ := Reading.read_of_outcome_fragment h
    exact ⟨q, hread⟩

/-- Printing and reading are inverse: the canonical form of each well-formed element within the
limit gives that element, and each element that some text gives is of this kind. -/
theorem readsBack_and_wellFormed_of_givenBy (host : Host) :
    (∀ e : Element, e.WellFormed → e.nesting ≤ host.limit → e.ReadsBack host) ∧
    (∀ text s e, GivenBy host text s e →
      e.WellFormed ∧ e.nesting ≤ host.limit ∧ e.ReadsBack host) := by
  constructor
  · intro e wellFormed enough
    exact readsBack_of_wellFormed wellFormed enough
  · intro text s e h
    obtain ⟨q, hread⟩ := read_of_givenBy h
    obtain ⟨wellFormed, enough⟩ := wellFormed_of_read hread
    exact ⟨wellFormed, enough, readsBack_of_wellFormed wellFormed enough⟩

/-- An element with a child and an attribute that holds half of a pair and a bracket. -/
def halfPair : Element :=
  node "a-1" [⟨"k", ⟨#[0xD83D, 0x3C]⟩⟩] [node "b" [] []]

theorem readsBack_and_wellFormed_of_givenBy_halfPair :
    halfPair.WellFormed ∧ halfPair.nesting ≤ 9 ∧ halfPair.ReadsBack (JsonFiles.host 9) ∧
      (Reading.document (JsonFiles.host 9) halfPair.print (some .error)).outcome .start =
        .ok halfPair := by
  have isNameA : Text.IsName "a-1" := by
    refine ⟨0x61, [0x2D, 0x31], by decide, by decide, ?_⟩
    exact List.forall_mem_cons.mpr ⟨by decide, List.forall_mem_singleton.mpr (by decide)⟩
  have isNameB : Text.IsName "b" := ⟨0x62, [], by decide, by decide, nofun⟩
  have isNameK : Text.IsName "k" := ⟨0x6B, [], by decide, by decide, nofun⟩
  have wellFormed : halfPair.WellFormed := by
    refine .node isNameA ?_ ?_
    · exact List.forall_mem_singleton.mpr ⟨isNameK, by decide⟩
    · exact List.forall_mem_singleton.mpr (.node isNameB nofun nofun)
  have enough : halfPair.nesting ≤ 9 := by decide
  obtain ⟨readsBack, givenBack⟩ := readsBack_and_wellFormed_of_givenBy (JsonFiles.host 9)
  have hdocument :
      (Reading.document (JsonFiles.host 9) halfPair.print (some .error)).outcome .start =
        .ok halfPair := (readsBack halfPair wellFormed enough .start).1
  have given : GivenBy (JsonFiles.host 9) halfPair.print .start halfPair := .inl ⟨_, hdocument⟩
  obtain ⟨wellFormed, enough, back⟩ := givenBack _ _ _ given
  exact ⟨wellFormed, enough, back, hdocument⟩

end Session

end Element

end TagMarkup
