import TagMarkup.Proofs.Element.FailureOffset
import TagMarkup.Proofs.Element.Spacing

/-!
# Closing tags of another name

When the closing tag behind the children of an element has another name than the opening tag, the
element is refused, and the failure is where the children end. White space there has been taken by
the last child. Without a child nothing takes it, and the failure is in front of the white space and
not at the closing tag.
-/

namespace TagMarkup

namespace Element

open CodeUnit
open TagMarkup.Parser (scanRepeat)

section Spellings

variable {us gap : List CodeUnit}

/-- More white space may stand behind an element. -/
theorem Spells.append_spaces {e : Element} (spelled : Spells us e) (spaces : IsSpaces gap) :
    Spells (us ++ gap) e := by
  have spacesBehind {after : List CodeUnit} (spacesAfter : IsSpaces after) :
      IsSpaces (after ++ gap) := List.forall_mem_append.mpr ⟨spacesAfter, spaces⟩
  cases spelled with
  | single spacesBefore spacesAfter isName spelled =>
      rw [List.append_assoc]
      exact .single spacesBefore (spacesBehind spacesAfter) isName spelled
  | parent spacesBefore spacesAfter isName spelled children =>
      rw [List.append_assoc]
      exact .parent spacesBefore (spacesBehind spacesAfter) isName spelled children

/-- More white space may stand behind elements, unless there are none. -/
theorem SpellsAll.append_spaces {c : Element} {cs : List Element}
    (spelled : SpellsAll us (c :: cs)) (spaces : IsSpaces gap) :
    SpellsAll (us ++ gap) (c :: cs) := by
  induction cs generalizing us c with
  | nil =>
      obtain _ | ⟨first, ⟨⟩⟩ := spelled
      rw [List.append_nil, ← List.append_nil (_ ++ gap)]
      exact .cons (first.append_spaces spaces) .nil
  | cons d ds ih =>
      obtain _ | ⟨first, others⟩ := spelled
      rw [List.append_assoc]
      exact .cons first (ih others)

end Spellings

section ClosingTags

variable {n m : Text} {us rest : List CodeUnit}

/-- Units that begin with white space do not begin with a closing tag. -/
theorem closeTag_ahead_append_iff {gap : List CodeUnit} (spaces : IsSpaces gap) :
    closeTagUnits n <+: gap ++ us ↔ gap = [] ∧ closeTagUnits n <+: us := by
  constructor
  · intro h
    have bracket : [0x3C, 0x2F] <+: closeTagUnits n := ⟨n.toList ++ [0x3E], rfl⟩
    obtain ⟨rfl, -⟩ := eq_nil_of_closing_ahead spaces (bracket.trans h)
    exact ⟨rfl, h⟩
  · rintro ⟨rfl, h⟩
    exact h

/-- Where the closing tag of a name stands, that of no other name does. -/
theorem eq_of_closeTag_ahead (isName : n.IsName) (isName' : m.IsName)
    (h : closeTagUnits n <+: closeTagUnits m ++ rest) : n = m := by
  obtain ⟨left, hsplit⟩ := h
  have hnames : n.toList ++ 0x3E :: left = m.toList ++ 0x3E :: rest := by
    simpa [closeTagUnits] using hsplit
  have hstop (us : List CodeUnit) : NoneAhead isNameUnit (0x3E :: us) :=
    noneAhead_cons.mpr (by decide)
  have hread := Parser.scanName_eq_success.mpr ⟨isName, hstop left, rfl⟩
  have hread' := Parser.scanName_eq_success.mpr ⟨isName', hstop rest, rfl⟩
  rw [hnames, hread'] at hread
  exact (Scan.success.inj hread).1.symm

end ClosingTags

/-- The white space behind children that none of them takes. -/
def untaken : List Element → List CodeUnit → List CodeUnit
  | [], gap => gap
  | _ :: _, _ => []

theorem untaken_eq_nil_iff {cs : List Element} {gap : List CodeUnit} :
    untaken cs gap = [] ↔ cs ≠ [] ∨ gap = [] := by
  cases cs <;> simp [untaken]

theorem isSpaces_untaken {cs : List Element} {gap : List CodeUnit} (spaces : IsSpaces gap) :
    IsSpaces (untaken cs gap) := by
  cases cs with
  | nil => exact spaces
  | cons => nofun

/-- The units begin with an opening tag, complete children, white space, and the closing tag of
another name. -/
inductive Misclosed :
    List CodeUnit → List Element → List CodeUnit → Text → List CodeUnit → Prop where
  /-- The name of the closing tag is not that of the opening tag. -/
  | mk {before front inner gap rest : List CodeUnit} {n m : Text} {as : List Attribute}
      {cs : List Element} (spacesBefore : IsSpaces before) (isName : n.IsName)
      (spelled : SpellsAttributes front as) (children : SpellsAll inner cs)
      (spacesGap : IsSpaces gap) (isNameClosing : m.IsName) (ne : m ≠ n) :
      Misclosed (before ++ (tagStartUnits n front ++
        0x3E :: (inner ++ (gap ++ (closeTagUnits m ++ rest))))) cs gap m rest

theorem Misclosed.isSpaces_gap {us gap rest : List CodeUnit} {cs : List Element} {m : Text}
    (h : Misclosed us cs gap m rest) : IsSpaces gap := by
  cases h
  assumption

section Reading

variable {limit : Nat} {inner gap : List CodeUnit} {cs : List Element}

/-- The children are read up to the white space that none of them takes. -/
theorem scanRepeat_untaken (children : SpellsAll inner cs) (spaces : IsSpaces gap)
    (enough : nestingAll cs < limit) (m : Text) (rest : List CodeUnit) :
    scanRepeat (scanRead limit) (inner ++ (gap ++ (closeTagUnits m ++ rest))) =
      .ok (.success cs (untaken cs gap ++ (closeTagUnits m ++ rest))) := by
  have positive : 0 < limit := Nat.zero_lt_of_lt enough
  cases cs with
  | nil =>
      cases children
      obtain ⟨left, hclosing⟩ := scanRead_closing positive (m.toList ++ [0x3E] ++ rest)
      have hstop : scanRead limit (gap ++ (closeTagUnits m ++ rest)) = .ok (.failure left) := by
        rw [scanRead_append_of_isSpaces spaces]
        exact hclosing
      exact Parser.scanRepeat_of_failure hstop
  | cons c cs =>
      have ofSpells (us : List CodeUnit) (e : Element) (spelled : Spells us e)
          (below : e.nesting < limit) : Reads limit us e := reads_of_spells spelled below
      have readsAll := readsAll_of_spellsAll ofSpells (children.append_spaces spaces) enough
      rw [← List.append_assoc]
      exact readsAll.scanRepeat_eq positive m rest

/-- An element with the closing tag of another name is refused behind its children. -/
theorem Misclosed.exists_scanRead {us rest : List CodeUnit} {m : Text}
    (misclosed : Misclosed us cs gap m rest) :
    ∃ least, ∀ limit, least ≤ limit →
      scanRead limit us = .ok (.failure (untaken cs gap ++ (closeTagUnits m ++ rest))) := by
  cases misclosed with
  | @mk before front inner _ _ n _ as _ spacesBefore isName spelled children spacesGap isNameClosing
      ne =>
      refine ⟨nestingAll cs + 2, fun limit le => ?_⟩
      obtain ⟨limit, rfl⟩ := Nat.exists_eq_add_of_le' (Nat.one_le_of_lt le)
      have absent : ¬ closeTagUnits n <+: untaken cs gap ++ (closeTagUnits m ++ rest) := by
        rw [closeTag_ahead_append_iff (isSpaces_untaken spacesGap)]
        rintro ⟨-, closing⟩
        exact ne (eq_of_closeTag_ahead isName isNameClosing closing).symm
      rw [scanRead_append_of_isSpaces spacesBefore, scanRead_openTag isName spelled,
        scanRepeat_untaken children spacesGap (by omega), Scanned.andThen_success,
        scan_closeTag_eq_failure _ absent]
      rfl

/-- Where the units left are refused, reading fails at the offset of what is then left. -/
theorem exists_read_of_scanRead_eq_failure {text : Text} {start : Nat} {rest : List CodeUnit}
    (inside : start ≤ text.size)
    (h : scanRead limit (text.toList.drop start) = .ok (.failure rest)) :
    ∃ stop : Nat, stop ≤ text.size ∧ read limit text start = .ok (.failure stop) ∧
      text.toList.drop stop = rest := by
  have within : rest <:+ text.toList.drop start :=
    Parser.scan_within (grammar.scanCall_within limit) root _ _ h
  have left : rest <:+ text.toList := within.trans (List.drop_suffix _ _)
  refine ⟨text.size - rest.length, Nat.sub_le _ _, ?_, Text.drop_of_suffix left⟩
  apply (read_eq_failure_iff_scanRead inside).mpr
  exact ⟨rest, h, Int.ofNat_sub (Text.length_le_of_suffix left)⟩

end Reading

/-- An element with the closing tag of another name is refused behind its children. What is left
there begins with that tag if there is a child or no white space in front of the tag, and otherwise
with the white space. -/
theorem misclosed_pointed_at_iff (limit : Nat) (text : Text) (start : Nat) (cs : List Element)
    (gap : List CodeUnit) (m : Text) (rest : List CodeUnit) (inside : start ≤ text.size)
    (misclosed : Misclosed (text.toList.drop start) cs gap m rest)
    (enough : read limit text start ≠ .error .exhausted) :
    ∃ stop : Nat, stop ≤ text.size ∧ read limit text start = .ok (.failure stop) ∧
      text.toList.drop stop = untaken cs gap ++ (closeTagUnits m ++ rest) ∧
      (closeTagUnits m <+: text.toList.drop stop ↔ cs ≠ [] ∨ gap = []) := by
  obtain ⟨least, hscan⟩ := misclosed.exists_scanRead
  -- the given limit is compared with one that lets all the children be read
  obtain ⟨stop, hstop, hread, hdrop⟩ :=
    exists_read_of_scanRead_eq_failure inside (hscan (max limit least) (Nat.le_max_right _ _))
  refine ⟨stop, hstop, ?_, hdrop, ?_⟩
  · rw [read_eq_of_le (Nat.le_max_left limit least) enough, hread]
  · rw [hdrop, closeTag_ahead_append_iff (isSpaces_untaken misclosed.isSpaces_gap),
      untaken_eq_nil_iff]
    exact and_iff_left (List.prefix_append _ _)

/-- The child has taken the white space in front of the closing tag. -/
theorem misclosed_pointed_at_iff_child :
    0 ≤ Text.size "<a> <b/> </c>" ∧
      Misclosed ((Text.toList "<a> <b/> </c>").drop 0) [node "b" [] []] [0x20] "c" [] ∧
      read 3 "<a> <b/> </c>" (0 : Nat) ≠ .error .exhausted ∧
      ∃ stop : Nat, read 3 "<a> <b/> </c>" (0 : Nat) = .ok (.failure stop) ∧
        closeTagUnits "c" <+: (Text.toList "<a> <b/> </c>").drop stop := by
  have isNameA : Text.IsName "a" := ⟨0x61, [], by decide, by decide, nofun⟩
  have isNameB : Text.IsName "b" := ⟨0x62, [], by decide, by decide, nofun⟩
  have isNameC : Text.IsName "c" := ⟨0x63, [], by decide, by decide, nofun⟩
  have none : IsSpaces [] := nofun
  have oneSpace : IsSpaces [0x20] := List.forall_mem_singleton.mpr (by decide)
  have inside : 0 ≤ Text.size "<a> <b/> </c>" := Nat.zero_le _
  have child : SpellsAll _ [node "b" [] []] := .cons (.single oneSpace none isNameB .nil) .nil
  have misclosed :
      Misclosed ((Text.toList "<a> <b/> </c>").drop 0) [node "b" [] []] [0x20] "c" [] :=
    .mk none isNameA .nil child oneSpace isNameC (by decide)
  have enough : read 3 "<a> <b/> </c>" (0 : Nat) ≠ .error .exhausted := by
    have hread : read 3 "<a> <b/> </c>" (0 : Nat) = .ok (.failure 9) :=
      eq_failure_of_map_failedAt? (by decide +kernel)
    rw [hread]
    nofun
  refine ⟨inside, misclosed, enough, ?_⟩
  obtain ⟨stop, -, hread, -, pointedAt⟩ :=
    misclosed_pointed_at_iff 3 _ 0 _ _ _ _ inside misclosed enough
  exact ⟨stop, hread, pointedAt.mpr (.inl (List.cons_ne_nil _ _))⟩

/-- Without a child, the white space in front of the closing tag is still left. -/
theorem misclosed_not_pointed_at :
    Misclosed ((Text.toList "<a> </b>").drop 0) [] [0x20] "b" [] ∧
      read 2 "<a> </b>" (0 : Nat) = .ok (.failure 3) ∧
      ¬ closeTagUnits "b" <+: (Text.toList "<a> </b>").drop 3 := by
  have isNameA : Text.IsName "a" := ⟨0x61, [], by decide, by decide, nofun⟩
  have isNameB : Text.IsName "b" := ⟨0x62, [], by decide, by decide, nofun⟩
  have none : IsSpaces [] := nofun
  have oneSpace : IsSpaces [0x20] := List.forall_mem_singleton.mpr (by decide)
  refine ⟨.mk none isNameA .nil .nil oneSpace isNameB (by decide), ?_, by decide⟩
  exact eq_failure_of_map_failedAt? (by decide +kernel)

end Element

end TagMarkup
