import TagMarkup.Proofs.Element.Depth

/-!
# Where an element is refused

When no element can be read, the units that are left tell what is missing: a bracket, the letter
that begins a name, the mark that ends a tag, or the closing tag. Names, attributes and children are
taken as far as they go; what could be part of none of them is left as it is found, however much of
it looks like an attribute or a child.

## Implementation notes

`Refused` is to failures what `Tagged` is to successes. Every list of units is one or the other,
unless the reading of the children is exhausted, so it is enough to show that what is refused is not
read.
-/

namespace TagMarkup

namespace Element

open CodeUnit
open TagMarkup.Parser (scan scanRepeat)

section Attributes

variable {R : Type} {ρ : R → Type} (call : (r : R) → List CodeUnit → Scanned (ρ r))
variable {us front rest left : List CodeUnit} {as as' : List Attribute}

/-- A sequence of readings without faults is one. -/
theorem exists_andThen {α β : Type} {x : Scanned α} {next : α → List CodeUnit → Scanned β}
    (hx : ∃ s, x = .ok s) (hnext : ∀ a us, ∃ s, next a us = .ok s) :
    ∃ s, Scanned.andThen x next = .ok s := by
  obtain ⟨_ | _, rfl⟩ := hx
  · exact hnext _ _
  · exact ⟨_, rfl⟩

/-- Reading an attribute ends in no fault. -/
theorem exists_scan_spacedAttribute (us : List CodeUnit) :
    ∃ s, (spacedAttribute : Parser ρ Attribute).scan call us = .ok s := by
  have hspaces : ∃ s, (Parser.spaces1 : Parser ρ (List Text)).scan call us = .ok s := by
    cases us with
    | nil => exact ⟨_, Parser.scan_spaces1_of_noneAhead call noneAhead_nil⟩
    | cons u us =>
        cases hu : isSpace u with
        | true => exact ⟨_, Parser.scan_spaces1_cons call hu us⟩
        | false => exact ⟨_, Parser.scan_spaces1_of_noneAhead call (noneAhead_cons.mpr hu)⟩
  rw [spacedAttribute, Parser.scan_seqRight]
  apply exists_andThen hspaces
  intro _ rest
  rw [attributeItem, Parser.scan_map, Parser.scan_seq]
  apply exists_andThen _ fun _ _ => ⟨_, rfl⟩
  apply exists_andThen ⟨_, Parser.scan_name call rest⟩
  intro n value
  apply exists_andThen _ fun _ _ => ⟨_, rfl⟩
  rw [Parser.scan_seqRight]
  apply exists_andThen ⟨_, rfl⟩
  intro _ quoted
  exact ⟨_, scan_quotedText call quoted⟩

/-- Items that are read or refused can be repeated until there is none. -/
theorem exists_scanRepeat {α : Type} {item : List CodeUnit → Scanned α}
    (h : ∀ us, ∃ s, item us = .ok s) (us : List CodeUnit) :
    ∃ as rest, scanRepeat item us = .ok (.success as rest) := by
  fun_induction scanRepeat item us with
  | case1 us fault hitem =>
      obtain ⟨s, hs⟩ := h us
      cases hs.symm.trans hitem
  | case2 us vs hitem => exact ⟨[], us, rfl⟩
  | case3 us a mid hitem shorter ih =>
      obtain ⟨as, rest, hmore⟩ := ih
      refine ⟨a :: as, rest, ?_⟩
      rw [hmore]
      rfl
  | case4 us a mid hitem shorter => exact ⟨[], us, rfl⟩

/-- A repetition never fails. -/
theorem scanRepeat_ne_failure {α : Type} {item : List CodeUnit → Scanned α}
    (us left : List CodeUnit) : scanRepeat item us ≠ .ok (.failure left) := by
  fun_induction scanRepeat item us with
  | case1 us fault hitem => rintro ⟨⟩
  | case2 us vs hitem => rintro ⟨⟩
  | case3 us a mid hitem shorter ih =>
      intro h
      cases hmore : scanRepeat item mid using Scanned.cases with
      | error fault =>
          rw [hmore] at h
          cases h
      | success as rest =>
          rw [hmore] at h
          cases h
      | failure rest =>
          rw [hmore] at h
          cases h
          exact ih hmore
  | case4 us a mid hitem shorter => rintro ⟨⟩

theorem exists_scan_attributeList (us : List CodeUnit) :
    ∃ as rest, (attributeList : Parser ρ (List Attribute)).scan call us =
      .ok (.success as rest) :=
  exists_scanRepeat (exists_scan_spacedAttribute call) us

/-- No attributes that are spelled in front go beyond those that are read. -/
theorem length_le_of_spellsAttributes (spelled : SpellsAttributes front as)
    (h : (attributeList : Parser ρ (List Attribute)).scan call (front ++ left) =
      .ok (.success as' rest)) : rest.length ≤ left.length := by
  induction spelled generalizing as' with
  | nil =>
      obtain ⟨more, -, hsplit⟩ := eq_of_scan_attributeList call h
      rw [List.nil_append] at hsplit
      rw [hsplit, List.length_append]
      exact Nat.le_add_left _ _
  | @cons gap more a as spaces nonempty wellFormed others ih =>
      rw [List.append_assoc] at h
      have hitem := scan_spacedAttribute_append call spaces nonempty wellFormed (more ++ left)
      have shorter :
          (more ++ left).length < (gap ++ attributeUnits a ++ (more ++ left)).length := by
        simp [attributeUnits]
        omega
      have hrepeat : scanRepeat ((spacedAttribute : Parser ρ Attribute).scan call)
          (gap ++ attributeUnits a ++ (more ++ left)) = .ok (.success as' rest) := h
      rw [Parser.scanRepeat_of_success hitem shorter] at hrepeat
      obtain ⟨as'', rest', hmore, ⟨⟩⟩ := Scanned.andThen_eq_success.mp hrepeat
      exact ih hmore

/-- The longest sequence of attributes at the front is the one that is read. -/
theorem scan_attributeList_of_longest (spelled : SpellsAttributes front as)
    (longest : ∀ other as', SpellsAttributes other as' → other <+: front ++ rest →
      other.length ≤ front.length) :
    ∃ as', (attributeList : Parser ρ (List Attribute)).scan call (front ++ rest) =
      .ok (.success as' rest) := by
  obtain ⟨as', left, h⟩ := exists_scan_attributeList call (front ++ rest)
  obtain ⟨other, spelledOther, hsplit⟩ := eq_of_scan_attributeList call h
  have hle := length_le_of_spellsAttributes call spelled h
  have hother := longest other as' spelledOther ⟨left, hsplit.symm⟩
  have hlength := congrArg List.length hsplit
  rw [List.length_append, List.length_append] at hlength
  obtain ⟨-, rfl⟩ := List.append_inj' hsplit (by omega)
  exact ⟨as', h⟩

/-- There is a longest sequence of attributes at the front of any list of units. -/
theorem exists_longest_attributes (us : List CodeUnit) :
    ∃ front rest as, us = front ++ rest ∧ SpellsAttributes front as ∧
      ∀ other as', SpellsAttributes other as' → other <+: us → other.length ≤ front.length := by
  obtain ⟨as, rest, h⟩ := exists_scan_attributeList (grammar.scanCall 0) us
  obtain ⟨front, spelled, rfl⟩ := eq_of_scan_attributeList _ h
  refine ⟨front, rest, as, rfl, spelled, ?_⟩
  rintro other as' spelledOther ⟨left, hsplit⟩
  rw [← hsplit] at h
  have hle := length_le_of_spellsAttributes _ spelledOther h
  have hlength := congrArg List.length hsplit
  rw [List.length_append, List.length_append] at hlength
  omega

end Attributes

/-- The units begin with a tag up to its mark: a bracket, the longest name after it, and the longest
sequence of attributes after that. -/
structure TagStart (us : List CodeUnit) (n : Text) (front rest : List CodeUnit) : Prop where
  /-- These are the units. -/
  split : us = tagStartUnits n front ++ rest
  /-- The name is one. -/
  isName : n.IsName
  /-- No longer name stands there. -/
  longestName : NoneAhead isNameUnit (front ++ rest)
  /-- The attributes are such. -/
  spelled : ∃ as, SpellsAttributes front as
  /-- No longer sequence of attributes stands there. -/
  longest : ∀ other as, SpellsAttributes other as → other <+: front ++ rest →
    other.length ≤ front.length

/-- What is refused as an element with no white space in front, given the reading of its children,
and what is left then. -/
inductive Refused (item : List CodeUnit → Scanned Element) : List CodeUnit → List CodeUnit → Prop
    where
  /-- No bracket is there. -/
  | bracket {us : List CodeUnit} (absent : ¬ [0x3C] <+: us) : Refused item us us
  /-- No letter comes after the bracket. -/
  | letter {us : List CodeUnit} (absent : NoneAhead isLetter us) : Refused item (0x3C :: us) us
  /-- Neither mark comes after the attributes. -/
  | mark {us front rest : List CodeUnit} {n : Text} (start : TagStart us n front rest)
      (absentSingle : ¬ [0x2F, 0x3E] <+: rest) (absentOpen : ¬ [0x3E] <+: rest) :
      Refused item us rest
  /-- The closing tag does not come after the children. -/
  | closing {us front body rest : List CodeUnit} {n : Text} {cs : List Element}
      (start : TagStart us n front (0x3E :: body))
      (children : scanRepeat item body = .ok (.success cs rest))
      (absent : ¬ closeTagUnits n <+: rest) : Refused item us rest

section Refused

variable {R : Type} {ρ : R → Type} (call : (r : R) → List CodeUnit → Scanned (ρ r))
variable {us front rest : List CodeUnit} {n : Text}

/-- Units without white space in front begin with no bracket, with no letter after the bracket, or
with a tag. -/
theorem tagStart_cases (us : List CodeUnit) :
    ¬ [0x3C] <+: us ∨ (∃ more, us = 0x3C :: more ∧ NoneAhead isLetter more) ∨
      ∃ n front rest, TagStart us n front rest := by
  by_cases bracket : [0x3C] <+: us
  · obtain ⟨more, rfl⟩ := bracket
    cases more with
    | nil => exact .inr (.inl ⟨[], rfl, noneAhead_nil⟩)
    | cons u more =>
        cases letter : isLetter u with
        | false => exact .inr (.inl ⟨u :: more, rfl, noneAhead_cons.mpr letter⟩)
        | true =>
            right
            right
            obtain ⟨n, behind, hname⟩ : ∃ n behind,
                Parser.scanName (u :: more) = .success n behind := by
              rw [Parser.scanName, if_pos letter]
              exact ⟨_, _, rfl⟩
            obtain ⟨isName, longestName, hunits⟩ := Parser.scanName_eq_success.mp hname
            obtain ⟨front, rest, as, rfl, spelled, longest⟩ := exists_longest_attributes behind
            refine ⟨n, front, rest, ?_, isName, longestName, ⟨as, spelled⟩, longest⟩
            rw [hunits, tagStartUnits]
            simp
  · exact .inl bracket

theorem TagStart.exists_scan (start : TagStart us n front rest) :
    ∃ as, (tagStart : Parser ρ (Text × List Attribute)).scan call us =
      .ok (.success (n, as) rest) := by
  obtain ⟨rfl, isName, longestName, ⟨as, spelled⟩, longest⟩ := start
  obtain ⟨as', hattributes⟩ := scan_attributeList_of_longest call spelled longest
  have hname : Parser.scanName (n.toList ++ (front ++ rest)) = .success n (front ++ rest) :=
    Parser.scanName_eq_success.mpr ⟨isName, longestName, rfl⟩
  refine ⟨as', ?_⟩
  rw [tagStart, Parser.scan_seqRight, tagStartUnits, List.cons_append,
    Parser.scan_literal_cons call toList_less, if_pos rfl, Scanned.andThen_success, Parser.scan_seq,
    Parser.scan_name, List.append_assoc, hname, Scanned.andThen_success, hattributes]
  rfl

/-- A tag that is not ended by the mark is refused where the mark should stand. -/
theorem TagStart.scan_tagWith (start : TagStart us n front rest) {mark : Text}
    (absent : ¬ mark.toList <+: rest) :
    (tagWith mark : Parser ρ Element).scan call us = .ok (.failure rest) := by
  obtain ⟨as, hstart⟩ := start.exists_scan call
  rw [tagWith, Parser.scan_map, Parser.scan_seqLeft, hstart, Scanned.andThen_success,
    Parser.scan_literal_of_absent call absent]
  rfl

/-- Where neither of the two tags can be read, no element is. -/
theorem scanRead_of_tagWith {limit : Nat} (hspace : NoneAhead isSpace us)
    (single : (tagWith "/>" : Parser Values Element).scan (grammar.scanCall limit) us =
      .ok (.failure rest))
    (opening : (tagWith ">" : Parser Values Element).scan (grammar.scanCall limit) us =
      .ok (.failure rest)) :
    scanRead (limit + 1) us = .ok (.failure rest) := by
  have hsingle : (singleElement : Parser Values Element).scan (grammar.scanCall limit) us = _ :=
    single
  have hopening : (openTag : Parser Values Element).scan (grammar.scanCall limit) us = _ :=
    opening
  change (element (.rule ())).scan (grammar.scanCall limit) _ = _
  rw [element, Parser.scan_spaced, hspace.dropWhile, Parser.scan_orElse, hsingle,
    Scanned.orElse_failure, parentElement, Parser.scan_bind, hopening]
  rfl

theorem scan_tagWith_of_absent_bracket (mark : Text) (absent : ¬ [0x3C] <+: us) :
    (tagWith mark : Parser ρ Element).scan call us = .ok (.failure us) := by
  rw [← toList_less] at absent
  rw [tagWith, Parser.scan_map, Parser.scan_seqLeft, tagStart, Parser.scan_seqRight,
    Parser.scan_literal_of_absent call absent]
  rfl

theorem scan_tagWith_of_absent_letter (mark : Text) (absent : NoneAhead isLetter us) :
    (tagWith mark : Parser ρ Element).scan call (0x3C :: us) = .ok (.failure us) := by
  cases us with
  | nil =>
      rw [tagWith, Parser.scan_map, Parser.scan_seqLeft, tagStart, Parser.scan_seqRight,
        Parser.scan_literal_cons call toList_less, if_pos rfl]
      rfl
  | cons u us => exact scan_tagWith_of_not_letter call mark (noneAhead_cons.mp absent) us

/-- An attempt that ends in no fault succeeds or leaves all units. -/
theorem scan_attempt_cases {α : Type} {inner : Parser ρ α}
    (total : ∃ s, inner.scan call us = .ok s) :
    (∃ a rest, inner.attempt.scan call us = .ok (.success a rest)) ∨
      inner.attempt.scan call us = .ok (.failure us) := by
  obtain ⟨⟨a, rest⟩ | left, h⟩ := total
  · left
    refine ⟨a, rest, ?_⟩
    rw [Parser.scan_attempt, h]
    rfl
  · right
    rw [Parser.scan_attempt, h]
    rfl

/-- Where the closing tag of a name does not stand, none is read. -/
theorem scan_closeTag_of_not_spelled (absent : ¬ (n.IsName ∧ closeTagUnits n <+: us)) :
    (closeTag n : Parser ρ Text).scan call us = .ok (.failure us) := by
  have total : ∃ s, (((Parser.literal "</").seqRight
      (Parser.name.seqLeft (.literal ">"))).satisfying fun m => m == n : Parser ρ Text).scan call us
        = .ok s := by
    rw [Parser.scan_satisfying, Parser.scan_seqRight]
    apply exists_andThen
    · apply exists_andThen ⟨_, rfl⟩
      intro _ rest
      rw [Parser.scan_seqLeft]
      apply exists_andThen ⟨_, rfl⟩
      intro m left
      exact exists_andThen ⟨_, rfl⟩ fun _ _ => ⟨_, rfl⟩
    · intro m rest
      split
      · exact ⟨_, rfl⟩
      · exact ⟨_, rfl⟩
  rcases scan_attempt_cases call total with ⟨m, rest, h⟩ | h
  · obtain ⟨rfl, isName, rfl⟩ := (scan_closeTag_eq_success call).mp h
    exact absurd ⟨isName, List.prefix_append _ _⟩ absent
  · exact h

theorem scan_closeTag_eq_failure (absent : ¬ closeTagUnits n <+: us) :
    (closeTag n : Parser ρ Text).scan call us = .ok (.failure us) :=
  scan_closeTag_of_not_spelled call fun h => absent h.2

end Refused

section ScanRead

variable {limit : Nat} {us rest : List CodeUnit}

/-- What is refused is not read. -/
theorem Refused.scanRead (refused : Refused (scanRead limit) us rest)
    (hspace : NoneAhead isSpace us) : scanRead (limit + 1) us = .ok (.failure rest) := by
  cases refused with
  | bracket absent =>
      apply scanRead_of_tagWith hspace
      · exact scan_tagWith_of_absent_bracket _ "/>" absent
      · exact scan_tagWith_of_absent_bracket _ ">" absent
  | letter absent =>
      apply scanRead_of_tagWith hspace
      · exact scan_tagWith_of_absent_letter _ "/>" absent
      · exact scan_tagWith_of_absent_letter _ ">" absent
  | mark start absentSingle absentOpen =>
      rw [← toList_slashGreater] at absentSingle
      rw [← toList_greater] at absentOpen
      exact scanRead_of_tagWith hspace (start.scan_tagWith _ absentSingle)
        (start.scan_tagWith _ absentOpen)
  | closing start children absent =>
      obtain ⟨rfl, isName, -, ⟨as, spelled⟩, -⟩ := start
      rw [scanRead_openTag isName spelled, children, Scanned.andThen_success,
        scan_closeTag_eq_failure _ absent]
      rfl

/-- Units without white space in front are refused, or they begin with an element, or the reading of
its children ends in a fault. -/
theorem refused_or_tagged (limit : Nat) (us : List CodeUnit) :
    (∃ rest, Refused (Element.scanRead limit) us rest) ∨
      (∃ e rest, Tagged (Element.scanRead limit) us e rest) ∨
      ∃ fault, Element.scanRead (limit + 1) us = .error fault := by
  rcases tagStart_cases us with absent | ⟨more, rfl, absent⟩ | ⟨n, front, rest, start⟩
  · exact .inl ⟨us, .bracket absent⟩
  · exact .inl ⟨more, .letter absent⟩
  · by_cases single : [0x2F, 0x3E] <+: rest
    · obtain ⟨left, rfl⟩ := single
      obtain ⟨rfl, isName, -, ⟨as, spelled⟩, -⟩ := start
      exact .inr (.inl ⟨node n as [], left, .single isName spelled⟩)
    · by_cases opening : [0x3E] <+: rest
      · obtain ⟨body, rfl⟩ := opening
        cases children : scanRepeat (Element.scanRead limit) body using Scanned.cases with
        | error fault =>
            obtain ⟨rfl, isName, -, ⟨as, spelled⟩, -⟩ := start
            right
            right
            refine ⟨fault, ?_⟩
            rw [List.singleton_append, scanRead_openTag isName spelled, children]
            rfl
        | success cs left =>
            by_cases closing : closeTagUnits n <+: left
            · obtain ⟨behind, rfl⟩ := closing
              obtain ⟨rfl, isName, -, ⟨as, spelled⟩, -⟩ := start
              exact .inr (.inl ⟨node n as cs, behind, .parent isName spelled children⟩)
            · exact .inl ⟨left, .closing start children closing⟩
        | failure left => exact absurd children (scanRepeat_ne_failure body left)
      · exact .inl ⟨rest, .mark start single opening⟩

/-- An element is refused behind the white space in front of it. -/
theorem scanRead_succ_eq_failure :
    scanRead (limit + 1) us = .ok (.failure rest) ↔
      Refused (scanRead limit) (us.dropWhile isSpace) rest := by
  rw [← scanRead_dropWhile]
  have hspace : NoneAhead isSpace (us.dropWhile isSpace) := noneAhead_dropWhile us
  constructor
  · intro h
    rcases refused_or_tagged limit (us.dropWhile isSpace) with
      ⟨left, refused⟩ | ⟨e, left, tagged⟩ | ⟨fault, hfault⟩
    · cases h.symm.trans (refused.scanRead hspace)
      exact refused
    · have hread : scanRead (limit + 1) (us.dropWhile isSpace) = .ok (.success e _) :=
        scanRead_succ_eq_success.mpr ⟨left, hspace.dropWhile.symm ▸ tagged, rfl⟩
      cases h.symm.trans hread
    · cases h.symm.trans hfault
  · intro refused
    exact refused.scanRead hspace

end ScanRead

end Element

end TagMarkup
