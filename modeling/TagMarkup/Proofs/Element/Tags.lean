import TagMarkup.Element.Derivation
import TagMarkup.Element.Parser
import TagMarkup.Proofs.Parser.Words

/-!
# Reading tags

The pieces of a tag are read exactly where they are spelled: a quoted text up to the next quotation
mark, an attribute, a list of attributes, and the tags that begin or end an element. None of them
uses a rule, so none can be exhausted.
-/

namespace TagMarkup

namespace Element

open CodeUnit
open TagMarkup.Parser (scan scanRepeat scanCharacter scanName Chain)

variable {R : Type} {ρ : R → Type} (call : (r : R) → List CodeUnit → Scanned (ρ r))

section Marks

theorem toList_quote : (Text.ofString "\"").toList = [0x22] := by decide

theorem toList_equals : (Text.ofString "=").toList = [0x3D] := by decide

theorem toList_less : (Text.ofString "<").toList = [0x3C] := by decide

theorem toList_greater : (Text.ofString ">").toList = [0x3E] := by decide

theorem toList_slashGreater : (Text.ofString "/>").toList = [0x2F, 0x3E] := by decide

theorem toList_lessSlash : (Text.ofString "</").toList = [0x3C, 0x2F] := by decide

end Marks

/-- Anything but a quotation mark. -/
def isUnquoted (u : CodeUnit) : Bool :=
  u != 0x22

theorem isUnquoted_of_notMem {us : List CodeUnit} (h : (0x22 : CodeUnit) ∉ us) :
    ∀ u ∈ us, isUnquoted u = true := by
  intro u hu
  rw [isUnquoted, bne_iff_ne]
  rintro rfl
  exact h hu

/-- Reads one character of a quoted text. -/
def quotedPiece : Parser ρ Text :=
  Parser.character.satisfying fun c => c != "\""

theorem scan_quotedPiece_of_noneAhead {us : List CodeUnit} (h : NoneAhead isUnquoted us) :
    (quotedPiece : Parser ρ Text).scan call us = .ok (.failure us) := by
  rw [quotedPiece, Parser.scan_satisfying, scan]
  cases us with
  | nil => rfl
  | cons u us =>
      have hu : u = 0x22 := by simpa [isUnquoted] using h
      subst hu
      cases us with
      | nil => rfl
      | cons v rest => rfl

/-- One character of a quoted text takes one or two units, neither of them a quotation mark. -/
theorem scan_quotedPiece_cons {u : CodeUnit} (hu : isUnquoted u = true) (us : List CodeUnit) :
    ∃ c rest, (quotedPiece : Parser ρ Text).scan call (u :: us) = .ok (.success c rest) ∧
      u :: us = c.toList ++ rest ∧ rest.length < (u :: us).length ∧
      ∀ v ∈ c.toList, isUnquoted v = true := by
  obtain ⟨c, tail, rest, hscan, hc, rfl, htail⟩ := Parser.scanCharacter_cons u us
  have hne : (c != "\"") = true := by
    rw [bne_iff_ne]
    rintro rfl
    rw [toList_quote, List.cons.injEq] at hc
    rw [← hc.1] at hu
    exact absurd hu (by decide)
  refine ⟨c, rest, ?_, by rw [hc, List.cons_append], ?_, ?_⟩
  · rw [quotedPiece, Parser.scan_satisfying, scan, hscan]
    simp only [Scanned.andThen_success, hne, if_true]
  · rw [List.length_cons, List.length_append]
    omega
  · rw [hc]
    refine List.forall_mem_cons.mpr ⟨hu, fun v hv => ?_⟩
    rw [isUnquoted, bne_iff_ne]
    rintro rfl
    exact absurd (htail _ hv) (by decide)

/-- Characters are read up to the next quotation mark and give back the units that they took. -/
theorem scanRepeat_quotedPiece (us : List CodeUnit) :
    ∃ cs, scanRepeat ((quotedPiece : Parser ρ Text).scan call) us =
        .ok (.success cs (us.dropWhile isUnquoted)) ∧
      (Text.join cs).toList = us.takeWhile isUnquoted := by
  induction hlen : us.length using Nat.strongRecOn generalizing us with
  | ind len ih =>
      cases us with
      | nil => exact ⟨[], Parser.scanRepeat_of_failure rfl, rfl⟩
      | cons u us =>
          cases hu : isUnquoted u with
          | false =>
              have hstop : NoneAhead isUnquoted (u :: us) := noneAhead_cons.mpr hu
              refine ⟨[], ?_, ?_⟩
              · rw [hstop.dropWhile]
                apply Parser.scanRepeat_of_failure
                exact scan_quotedPiece_of_noneAhead call hstop
              · rw [hstop.takeWhile]
                rfl
          | true =>
              obtain ⟨c, rest, hscan, hsplit, hshort, hc⟩ := scan_quotedPiece_cons call hu us
              obtain ⟨cs, hcs, hjoin⟩ := ih rest.length (hlen ▸ hshort) rest rfl
              refine ⟨c :: cs, ?_, ?_⟩
              · rw [Parser.scanRepeat_of_success hscan hshort, hcs, hsplit,
                  List.dropWhile_append_of_pos hc]
                rfl
              · rw [Text.toList_join] at hjoin ⊢
                rw [hsplit, List.takeWhile_append_of_pos hc, List.flatMap_cons, hjoin]

/-- What is read as a quoted text: the units up to the next quotation mark. -/
def scanQuoted : List CodeUnit → Scan Text
  | [] => .failure []
  | u :: us =>
    if u = 0x22 then
      match us.dropWhile isUnquoted with
      | [] => .failure []
      | _ :: rest => .success (.ofList (us.takeWhile isUnquoted)) rest
    else .failure (u :: us)

theorem scan_quotedText (us : List CodeUnit) :
    (quotedText : Parser ρ Text).scan call us = .ok (scanQuoted us) := by
  rw [quotedText, Parser.scan_map, Parser.scan_seqRight]
  cases us with
  | nil => rfl
  | cons u us =>
      rw [Parser.scan_literal_cons call toList_quote]
      by_cases hu : u = 0x22
      · obtain ⟨cs, hcs, hjoin⟩ := scanRepeat_quotedPiece call us
        have hmany : (quotedPiece : Parser ρ Text).many.scan call us =
            .ok (.success cs (us.dropWhile isUnquoted)) := hcs
        rw [← quotedPiece, scanQuoted, if_pos hu, if_pos hu, Scanned.andThen_success,
          Parser.scan_seqLeft, hmany, Scanned.andThen_success, ← hjoin, Text.ofList_toList]
        have hrest : NoneAhead isUnquoted (us.dropWhile isUnquoted) := noneAhead_dropWhile us
        generalize us.dropWhile isUnquoted = left at hrest ⊢
        cases left with
        | nil => rfl
        | cons v rest =>
            have hv : v = 0x22 := by simpa [isUnquoted] using hrest
            rw [Parser.scan_literal_cons call toList_quote, if_pos hv]
            rfl
      · rw [scanQuoted, if_neg hu, if_neg hu]
        rfl

/-- A quoted text is read when it stands in front, whatever comes after it. -/
theorem scanQuoted_eq_success {us rest : List CodeUnit} {v : Text} :
    scanQuoted us = .success v rest ↔
      (0x22 : CodeUnit) ∉ v.toList ∧ us = 0x22 :: (v.toList ++ 0x22 :: rest) := by
  constructor
  · intro h
    cases us with
    | nil => cases h
    | cons u us =>
        rw [scanQuoted] at h
        split at h
        · next hu =>
          subst hu
          have hsplit := List.takeWhile_append_dropWhile (p := isUnquoted) (l := us)
          have hstop : NoneAhead isUnquoted (us.dropWhile isUnquoted) := noneAhead_dropWhile us
          split at h
          · cases h
          · next w more hmore =>
            cases h
            rw [hmore, noneAhead_cons] at hstop
            have hw : w = 0x22 := by simpa [isUnquoted] using hstop
            rw [hmore, hw] at hsplit
            rw [Text.toList_ofList, hsplit]
            refine ⟨fun hmem => ?_, rfl⟩
            exact absurd (List.mem_takeWhile_imp hmem) (by decide)
        · cases h
  · rintro ⟨hv, rfl⟩
    have hall := isUnquoted_of_notMem hv
    have hstop : NoneAhead isUnquoted (0x22 :: rest) := noneAhead_cons.mpr (by decide)
    rw [scanQuoted, if_pos rfl, dropWhile_append_eq hall hstop, takeWhile_append_eq hall hstop,
      Text.ofList_toList]

/-- An attribute is read when it stands in front, whatever comes after it. -/
theorem scan_attributeItem_eq_success {us rest : List CodeUnit} {a : Attribute} :
    (attributeItem : Parser ρ Attribute).scan call us = .ok (.success a rest) ↔
      a.WellFormed ∧ us = attributeUnits a ++ rest := by
  simp only [attributeItem, Parser.scan_map, Parser.scan_seq, Parser.scan_name,
    Parser.scan_seqRight, Scanned.andThen_eq_success, Parser.scan_literal_eq_success,
    scan_quotedText, Except.ok.injEq, Parser.scanName_eq_success, scanQuoted_eq_success,
    toList_equals]
  constructor
  · rintro ⟨⟨n, v⟩, left, ⟨_, _, ⟨isName, _, rfl⟩, _, _, ⟨_, _, rfl, hv, rfl⟩, ⟨⟩⟩, ⟨⟩⟩
    exact ⟨⟨isName, hv⟩, by simp [attributeUnits]⟩
  · rintro ⟨⟨isName, hv⟩, rfl⟩
    refine ⟨(a.name, a.value), rest, ⟨a.name, 0x3D :: 0x22 :: (a.value.toList ++ 0x22 :: rest),
      ⟨isName, noneAhead_cons.mpr (by decide), by simp [attributeUnits]⟩, a.value, rest,
      ⟨(), 0x22 :: (a.value.toList ++ 0x22 :: rest), rfl, hv, rfl⟩, rfl⟩, rfl⟩

theorem noneAhead_isSpace_name {n : Text} (isName : n.IsName) (us : List CodeUnit) :
    NoneAhead isSpace (n.toList ++ us) := by
  obtain ⟨u, tail, hn, letter, _⟩ := isName
  rw [hn, List.cons_append, noneAhead_cons]
  exact isSpace_of_isNameUnit (isNameUnit_of_isLetter letter)

/-- Reads an attribute with white space in front. -/
def spacedAttribute : Parser ρ Attribute :=
  Parser.spaces1.seqRight attributeItem

theorem scan_spacedAttribute_append {gap : List CodeUnit} (spaces : IsSpaces gap)
    (nonempty : gap ≠ []) {a : Attribute} (wellFormed : a.WellFormed) (rest : List CodeUnit) :
    (spacedAttribute : Parser ρ Attribute).scan call (gap ++ attributeUnits a ++ rest) =
      .ok (.success a rest) := by
  have hahead : NoneAhead isSpace (attributeUnits a ++ rest) := by
    simp only [attributeUnits, List.append_assoc]
    exact noneAhead_isSpace_name wellFormed.1 _
  obtain ⟨ts, hspaces⟩ := Parser.scan_spaces1_append call spaces nonempty hahead
  rw [spacedAttribute, Parser.scan_seqRight, List.append_assoc, hspaces, Scanned.andThen_success]
  exact (scan_attributeItem_eq_success call).mpr ⟨wellFormed, rfl⟩

theorem eq_of_scan_spacedAttribute {us rest : List CodeUnit} {a : Attribute}
    (h : (spacedAttribute : Parser ρ Attribute).scan call us = .ok (.success a rest)) :
    ∃ gap, IsSpaces gap ∧ gap ≠ [] ∧ a.WellFormed ∧ us = gap ++ attributeUnits a ++ rest := by
  rw [spacedAttribute, Parser.scan_seqRight] at h
  obtain ⟨ts, mid, hspaces, hitem⟩ := Scanned.andThen_eq_success.mp h
  obtain ⟨gap, nonempty, spaces, rfl⟩ := Parser.eq_of_scan_spaces1 call hspaces
  obtain ⟨wellFormed, rfl⟩ := (scan_attributeItem_eq_success call).mp hitem
  exact ⟨gap, spaces, nonempty, wellFormed, (List.append_assoc ..).symm⟩

/-- What is read as attributes is spelled so. -/
theorem eq_of_scan_attributeList {us rest : List CodeUnit} {as : List Attribute}
    (h : (attributeList : Parser ρ (List Attribute)).scan call us = .ok (.success as rest)) :
    ∃ front, SpellsAttributes front as ∧ us = front ++ rest := by
  have chain : Chain ((spacedAttribute : Parser ρ Attribute).scan call) us as rest :=
    Chain.of_scanRepeat h
  clear h
  induction chain with
  | nil us => exact ⟨[], .nil, rfl⟩
  | cons first shorter others ih =>
      obtain ⟨gap, spaces, nonempty, wellFormed, rfl⟩ := eq_of_scan_spacedAttribute call first
      obtain ⟨front, spelled, rfl⟩ := ih
      exact ⟨_, .cons spaces nonempty wellFormed spelled, by simp⟩

/-- Attributes are read as they are spelled, if no white space comes after them. -/
theorem scan_attributeList_append {front rest : List CodeUnit} {as : List Attribute}
    (spelled : SpellsAttributes front as) (hrest : NoneAhead isSpace rest) :
    (attributeList : Parser ρ (List Attribute)).scan call (front ++ rest) =
      .ok (.success as rest) := by
  have chain : Chain ((spacedAttribute : Parser ρ Attribute).scan call) (front ++ rest) as
      rest := by
    induction spelled with
    | nil => exact .nil rest
    | @cons gap more a as spaces nonempty wellFormed others ih =>
        have hitem := scan_spacedAttribute_append call spaces nonempty wellFormed (more ++ rest)
        rw [List.append_assoc]
        refine .cons hitem ?_ ih
        simp [attributeUnits]
        omega
  have stop : (spacedAttribute : Parser ρ Attribute).scan call rest = .ok (.failure rest) := by
    rw [spacedAttribute, Parser.scan_seqRight, Parser.scan_spaces1_of_noneAhead call hrest]
    rfl
  exact chain.scanRepeat_eq stop

/-- What follows a name in a tag cannot be part of the name. -/
theorem noneAhead_isNameUnit_attributes {front rest : List CodeUnit} {as : List Attribute}
    (spelled : SpellsAttributes front as) (hrest : NoneAhead isNameUnit rest) :
    NoneAhead isNameUnit (front ++ rest) := by
  cases spelled with
  | nil => exact hrest
  | @cons gap more a as spaces nonempty wellFormed others =>
      cases gap with
      | nil => exact absurd rfl nonempty
      | cons u gap =>
          rw [List.cons_append, List.cons_append, List.cons_append, noneAhead_cons]
          apply isNameUnit_of_isSpace
          exact spaces u List.mem_cons_self

/-- The units of the start of a tag. -/
def tagStartUnits (n : Text) (front : List CodeUnit) : List CodeUnit :=
  0x3C :: (n.toList ++ front)

/-- What is read as the start of a tag is spelled so. -/
theorem eq_of_scan_tagStart {us rest : List CodeUnit} {start : Text × List Attribute}
    (h : (tagStart : Parser ρ (Text × List Attribute)).scan call us = .ok (.success start rest)) :
    start.1.IsName ∧ ∃ front, SpellsAttributes front start.2 ∧
      us = tagStartUnits start.1 front ++ rest := by
  rw [tagStart, Parser.scan_seqRight] at h
  obtain ⟨_, body, hmark, h⟩ := Scanned.andThen_eq_success.mp h
  rw [Parser.scan_literal_eq_success, toList_less] at hmark
  rw [Parser.scan_seq] at h
  obtain ⟨n, mid, hname, h⟩ := Scanned.andThen_eq_success.mp h
  obtain ⟨as, left, has, ⟨⟩⟩ := Scanned.andThen_eq_success.mp h
  rw [Parser.scan_name, Except.ok.injEq, Parser.scanName_eq_success] at hname
  obtain ⟨isName, -, rfl⟩ := hname
  obtain ⟨front, spelled, rfl⟩ := eq_of_scan_attributeList call has
  refine ⟨isName, front, spelled, ?_⟩
  rw [hmark, tagStartUnits]
  simp

/-- The start of a tag is read as it is spelled, if what comes after it belongs neither to a name
nor to an attribute. -/
theorem scan_tagStart_append {n : Text} (isName : n.IsName) {front rest : List CodeUnit}
    {as : List Attribute} (spelled : SpellsAttributes front as) (hspace : NoneAhead isSpace rest)
    (hname : NoneAhead isNameUnit rest) :
    (tagStart : Parser ρ (Text × List Attribute)).scan call (tagStartUnits n front ++ rest) =
      .ok (.success (n, as) rest) := by
  have hread := Parser.scanName_eq_success.mpr
    ⟨isName, noneAhead_isNameUnit_attributes spelled hname, rfl⟩
  rw [tagStart, Parser.scan_seqRight, tagStartUnits, List.cons_append,
    Parser.scan_literal_cons call toList_less, if_pos rfl, Scanned.andThen_success, Parser.scan_seq,
    Parser.scan_name, List.append_assoc, hread, Scanned.andThen_success,
    scan_attributeList_append call spelled hspace]
  rfl

/-- Where no letter follows the bracket, no tag starts. -/
theorem scan_tagStart_of_not_letter {u : CodeUnit} (hu : u.isLetter = false)
    (us : List CodeUnit) :
    (tagStart : Parser ρ (Text × List Attribute)).scan call (0x3C :: u :: us) =
      .ok (.failure (u :: us)) := by
  rw [tagStart, Parser.scan_seqRight, Parser.scan_literal_cons call toList_less, if_pos rfl,
    Scanned.andThen_success, Parser.scan_seq, Parser.scan_name, scanName, hu]
  rfl

/-- Reads the start of a tag and the mark that ends it. -/
def tagWith (mark : Text) : Parser ρ Element :=
  (tagStart.seqLeft (.literal mark)).map ofTagStart

/-- A tag is read when it stands in front, whatever comes after its mark. The mark must begin with
what can be part neither of a name nor of an attribute. -/
theorem scan_tagWith_eq_success {mark : Text} {m : CodeUnit} {ms : List CodeUnit}
    (hmark : mark.toList = m :: ms) (hspace : isSpace m = false) (hname : isNameUnit m = false)
    {us rest : List CodeUnit} {e : Element} :
    (tagWith mark : Parser ρ Element).scan call us = .ok (.success e rest) ↔
      ∃ n as front, e = node n as [] ∧ n.IsName ∧ SpellsAttributes front as ∧
        us = tagStartUnits n front ++ (mark.toList ++ rest) := by
  rw [tagWith, Parser.scan_map, Parser.scan_seqLeft]
  constructor
  · intro h
    obtain ⟨start, _, h, ⟨⟩⟩ := Scanned.andThen_eq_success.mp h
    obtain ⟨start', left, hstart, h⟩ := Scanned.andThen_eq_success.mp h
    obtain ⟨_, _, hend, ⟨⟩⟩ := Scanned.andThen_eq_success.mp h
    obtain ⟨isName, front, spelled, rfl⟩ := eq_of_scan_tagStart call hstart
    rw [Parser.scan_literal_eq_success] at hend
    exact ⟨start.1, start.2, front, rfl, isName, spelled, by rw [hend]⟩
  · rintro ⟨n, as, front, rfl, isName, spelled, rfl⟩
    rw [hmark, List.cons_append,
      scan_tagStart_append call isName spelled (noneAhead_cons.mpr hspace)
        (noneAhead_cons.mpr hname),
      Scanned.andThen_success, ← List.cons_append, ← hmark, Parser.scan_literal_append]
    rfl

/-- A tag that is not ended by the given mark is refused where the mark should stand. -/
theorem scan_tagWith_of_absent {mark : Text} {n : Text} (isName : n.IsName)
    {front rest : List CodeUnit} {as : List Attribute} (spelled : SpellsAttributes front as)
    (hspace : NoneAhead isSpace rest) (hname : NoneAhead isNameUnit rest)
    (hrest : ¬ mark.toList <+: rest) :
    (tagWith mark : Parser ρ Element).scan call (tagStartUnits n front ++ rest) =
      .ok (.failure rest) := by
  rw [tagWith, Parser.scan_map, Parser.scan_seqLeft,
    scan_tagStart_append call isName spelled hspace hname, Scanned.andThen_success,
    Parser.scan_literal_of_absent call hrest]
  rfl

theorem scan_tagWith_of_not_letter (mark : Text) {u : CodeUnit} (hu : u.isLetter = false)
    (us : List CodeUnit) :
    (tagWith mark : Parser ρ Element).scan call (0x3C :: u :: us) = .ok (.failure (u :: us)) := by
  rw [tagWith, Parser.scan_map, Parser.scan_seqLeft, scan_tagStart_of_not_letter call hu]
  rfl

/-- The units of the closing tag of a name. -/
def closeTagUnits (n : Text) : List CodeUnit :=
  0x3C :: 0x2F :: (n.toList ++ [0x3E])

/-- A closing tag is read when that of the expected name stands in front. -/
theorem scan_closeTag_eq_success {expected n : Text} {us rest : List CodeUnit} :
    (closeTag expected : Parser ρ Text).scan call us = .ok (.success n rest) ↔
      n = expected ∧ n.IsName ∧ us = closeTagUnits n ++ rest := by
  rw [closeTag, Parser.scan_attempt, Scanned.orElse_eq_success, Parser.scan_satisfying,
    Parser.scan_seqRight]
  constructor
  · rintro (h | ⟨_, _, ⟨⟩⟩)
    obtain ⟨m, left, h, haccept⟩ := Scanned.andThen_eq_success.mp h
    obtain ⟨_, body, hmark, h⟩ := Scanned.andThen_eq_success.mp h
    rw [Parser.scan_seqLeft] at h
    obtain ⟨m', mid, hname, h⟩ := Scanned.andThen_eq_success.mp h
    obtain ⟨_, _, hend, ⟨⟩⟩ := Scanned.andThen_eq_success.mp h
    rw [Parser.scan_name, Except.ok.injEq, Parser.scanName_eq_success] at hname
    rw [Parser.scan_literal_eq_success, toList_lessSlash] at hmark
    rw [Parser.scan_literal_eq_success, toList_greater] at hend
    split at haccept
    · next heq =>
      cases haccept
      obtain ⟨isName, -, rfl⟩ := hname
      refine ⟨by simpa using heq, isName, ?_⟩
      rw [hmark, hend, closeTagUnits]
      simp
    · cases haccept
  · rintro ⟨rfl, isName, rfl⟩
    have hstop : NoneAhead isNameUnit (0x3E :: rest) := noneAhead_cons.mpr (by decide)
    have hread : scanName (n.toList ++ 0x3E :: rest) = .success n (0x3E :: rest) :=
      Parser.scanName_eq_success.mpr ⟨isName, hstop, rfl⟩
    have hunits : closeTagUnits n ++ rest =
        (Text.ofString "</").toList ++ (n.toList ++ 0x3E :: rest) := by
      rw [toList_lessSlash, closeTagUnits]
      simp
    left
    rw [hunits, Parser.scan_literal_append, Scanned.andThen_success, Parser.scan_seqLeft,
      Parser.scan_name, hread, Scanned.andThen_success,
      Parser.scan_literal_cons call toList_greater, if_pos rfl]
    simp

/-- Where no closing tag begins, none is read. -/
theorem scan_closeTag_of_absent (n : Text) {us : List CodeUnit} (h : ¬ [0x3C, 0x2F] <+: us) :
    (closeTag n : Parser ρ Text).scan call us = .ok (.failure us) := by
  rw [← toList_lessSlash] at h
  rw [closeTag, Parser.scan_attempt, Parser.scan_satisfying, Parser.scan_seqRight,
    Parser.scan_literal_of_absent call h]
  rfl

end Element

end TagMarkup
