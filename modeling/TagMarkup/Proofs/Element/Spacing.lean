import TagMarkup.Proofs.Element.Markup

/-!
# White space where it may and may not stand

White space in front of an element and behind it is read over, so further white space at the end of
a list of units changes nothing about the element read from it. Between the two tags of an element
without children there may be none: what is put there is taken for the beginning of a child, given
back when there is no child, and then stands where the closing tag should.
-/

namespace TagMarkup

namespace Element

open CodeUnit
open TagMarkup.Parser (scanRepeat)

section Behind

/-- White space does not contain the bracket that ends an element. -/
theorem exists_tail_of_append_spaces {core tail us gap : List CodeUnit} (spaces : IsSpaces gap)
    (h : us ++ gap = core ++ 0x3E :: tail) :
    ∃ left, us = core ++ 0x3E :: left ∧ tail = left ++ gap := by
  rcases List.append_eq_append_iff.mp h with ⟨more, rfl, hgap⟩ | ⟨more, rfl, htail⟩
  · have hmem : (0x3E : CodeUnit) ∈ gap := by simp [hgap]
    exact absurd (spaces _ hmem) (by decide)
  · cases more with
    | nil =>
        have hmem : (0x3E : CodeUnit) ∈ gap := by
          rw [List.nil_append] at htail
          simp [← htail]
        exact absurd (spaces _ hmem) (by decide)
    | cons u left =>
        obtain ⟨rfl, rfl⟩ := List.cons_eq_cons.mp htail
        exact ⟨left, rfl, rfl⟩

theorem dropWhile_append_spaces_eq_nil_iff {us gap : List CodeUnit} (spaces : IsSpaces gap) :
    (us ++ gap).dropWhile isSpace = [] ↔ us.dropWhile isSpace = [] := by
  rw [List.dropWhile_eq_nil_iff, List.dropWhile_eq_nil_iff, List.forall_mem_append]
  exact and_iff_left spaces

/-- Further white space at the end makes no difference to the element that is read, nor to whether
something is left behind it. -/
theorem scanRead_append_spaces_iff {limit : Nat} {us gap : List CodeUnit} (spaces : IsSpaces gap)
    (e : Element) (whole : Prop) :
    (∃ rest, scanRead limit (us ++ gap) = .ok (.success e rest) ∧ (whole → rest = [])) ↔
      ∃ rest, scanRead limit us = .ok (.success e rest) ∧ (whole → rest = []) := by
  constructor
  · rintro ⟨_, h, hwhole⟩
    obtain ⟨core, tail, m, hunits, written, enough, rfl, rfl⟩ := scanRead_eq_success_iff.mp h
    obtain ⟨left, rfl, rfl⟩ := exists_tail_of_append_spaces spaces hunits
    rw [dropWhile_append_spaces_eq_nil_iff spaces] at hwhole
    exact ⟨_, scanRead_eq_success_iff.mpr ⟨core, left, m, rfl, written, enough, rfl, rfl⟩, hwhole⟩
  · rintro ⟨_, h, hwhole⟩
    obtain ⟨core, tail, m, rfl, written, enough, rfl, rfl⟩ := scanRead_eq_success_iff.mp h
    rw [← dropWhile_append_spaces_eq_nil_iff spaces] at hwhole
    refine ⟨_, scanRead_eq_success_iff.mpr ⟨core, tail ++ gap, m, ?_, written, enough, rfl, rfl⟩,
      hwhole⟩
    rw [List.append_assoc, List.cons_append]

end Behind

/-- Parts the units of a markup between the two tags of an element without children. -/
inductive Parts : List CodeUnit → List CodeUnit → Markup → Prop where
  /-- The parted element is the outermost one. -/
  | outermost {before after us : List CodeUnit} {name : Text} {attributes : List Attribute}
      (spacesBefore : IsSpaces before) (spacesAfter : IsSpaces after) (isName : name.IsName)
      (spellsAttributes : SpellsAttributes us attributes) :
      Parts (before ++ ([0x3C] ++ name.toList ++ us ++ [0x3E]))
        ([0x3C, 0x2F] ++ name.toList ++ [0x3E] ++ after)
        (.paired name attributes [])
  /-- The parted element lies inside a child, which has children before and after it. -/
  | inner {before after us earlier later opened closed : List CodeUnit} {name : Text}
      {attributes : List Attribute} {earlierChildren laterChildren : List Markup} {child : Markup}
      (spacesBefore : IsSpaces before) (spacesAfter : IsSpaces after) (isName : name.IsName)
      (spellsAttributes : SpellsAttributes us attributes)
      (writesEarlier : WritesAll earlier earlierChildren) (parts : Parts opened closed child)
      (writesLater : WritesAll later laterChildren) :
      Parts (before ++ ([0x3C] ++ name.toList ++ us ++ [0x3E]) ++ earlier ++ opened)
        (closed ++ later ++ ([0x3C, 0x2F] ++ name.toList ++ [0x3E]) ++ after)
        (.paired name attributes (earlierChildren ++ child :: laterChildren))

section Between

variable {opened closed : List CodeUnit} {m : Markup}

/-- The two parts write the markup together. -/
theorem writes_of_parts (parts : Parts opened closed m) : Writes (opened ++ closed) m := by
  induction parts with
  | outermost spacesBefore spacesAfter isName spelled =>
      have written := Writes.paired spacesBefore spacesAfter isName spelled .nil
      simpa using written
  | inner spacesBefore spacesAfter isName spelled earlier parts later ih =>
      have written := Writes.paired spacesBefore spacesAfter isName spelled
        (earlier.append (.cons ih later))
      simpa using written

/-- The first of the two parts begins with the opening tag of an element. -/
theorem exists_letter_of_parts (parts : Parts opened closed m) :
    ∃ before u tail, opened = before ++ 0x3C :: u :: tail ∧ IsSpaces before ∧
      isLetter u = true := by
  cases parts with
  | @outermost before after us n as spacesBefore spacesAfter isName spelled =>
      obtain ⟨u, tail, hn, letter, -⟩ := isName
      exact ⟨before, u, tail ++ us ++ [0x3E], by simp [hn], spacesBefore, letter⟩
  | @inner before after us earlier later opened closed n as _ _ child spacesBefore spacesAfter
      isName spelled =>
      obtain ⟨u, tail, hn, letter, -⟩ := isName
      exact ⟨before, u, tail ++ us ++ [0x3E] ++ earlier ++ opened, by simp [hn], spacesBefore,
        letter⟩

/-- A closing tag does not begin with white space. -/
theorem eq_nil_of_closing_ahead {before us : List CodeUnit} (spaces : IsSpaces before)
    (h : [0x3C, 0x2F] <+: before ++ us) : before = [] ∧ [0x3C, 0x2F] <+: us := by
  cases before with
  | nil => exact ⟨rfl, h⟩
  | cons u before =>
      obtain ⟨rfl, -⟩ := List.cons_prefix_cons.mp h
      exact absurd (spaces _ List.mem_cons_self) (by decide)

/-- An opening tag stands in front of the first part, also with the white space taken off. -/
theorem not_closing_ahead_of_parts (parts : Parts opened closed m) (behind : List CodeUnit)
    {left : List CodeUnit}
    (hleft : left = opened ++ behind ∨ left = (opened ++ behind).dropWhile isSpace) :
    ¬ [0x3C, 0x2F] <+: left := by
  obtain ⟨before, u, tail, rfl, spaces, letter⟩ := exists_letter_of_parts parts
  have hopening : ¬ [0x3C, 0x2F] <+: 0x3C :: u :: (tail ++ behind) := by
    rw [List.cons_prefix_cons, List.cons_prefix_cons]
    rintro ⟨-, rfl, -⟩
    exact absurd letter (by decide)
  have hbracket : NoneAhead isSpace (0x3C :: u :: (tail ++ behind)) :=
    noneAhead_cons.mpr (by decide)
  rw [List.append_assoc, List.cons_append, List.cons_append, dropWhile_append_eq spaces hbracket]
    at hleft
  rcases hleft with rfl | rfl
  · exact fun h => hopening (eq_nil_of_closing_ahead spaces h).2
  · exact hopening

variable {limit : Nat} {gap : List CodeUnit}

section Parent

variable {before front : List CodeUnit} {n : Text} {as : List Attribute}

/-- Where children are followed by what is neither a further child nor a closing tag, the element
is refused. -/
theorem scanRead_of_stuck {body left : List CodeUnit} {cs : List Element}
    (spacesBefore : IsSpaces before) (isName : n.IsName) (spelled : SpellsAttributes front as)
    (children : scanRepeat (scanRead limit) body = .ok (.success cs left))
    (absent : ¬ [0x3C, 0x2F] <+: left) :
    scanRead (limit + 1) (before ++ (tagStartUnits n front ++ 0x3E :: body)) =
      .ok (.failure left) := by
  rw [scanRead_append_of_isSpaces spacesBefore, scanRead_openTag isName spelled, children,
    Scanned.andThen_success, scan_closeTag_of_absent _ n absent]
  rfl

/-- White space in front of the closing tag of an element without children is refused. -/
theorem exists_failure_of_gap (spacesBefore : IsSpaces before) (isName : n.IsName)
    (spelled : SpellsAttributes front as) (spaces : IsSpaces gap) (nonempty : gap ≠ [])
    (positive : 0 < limit) (behind : List CodeUnit) :
    ∃ left, scanRead (limit + 1)
      (before ++ (tagStartUnits n front ++ 0x3E :: (gap ++ (0x3C :: 0x2F :: behind)))) =
        .ok (.failure left) := by
  obtain ⟨_, hclosing⟩ := scanRead_closing positive behind
  rw [← scanRead_append_of_isSpaces spaces] at hclosing
  refine ⟨_, scanRead_of_stuck spacesBefore isName spelled
    (Parser.scanRepeat_of_failure hclosing) fun h => ?_⟩
  exact nonempty (eq_nil_of_closing_ahead spaces h).1

/-- An element is refused if the children before one of its children are read, and that one is
not. -/
theorem exists_failure_of_child (spacesBefore : IsSpaces before) (isName : n.IsName)
    (spelled : SpellsAttributes front as) {earlier stop : List CodeUnit} {ms : List Markup}
    (writtenEarlier : WritesAll earlier ms) (enough : Markup.depthAll ms ≤ limit)
    (parts : Parts opened closed m) (behind : List CodeUnit)
    (hchild : scanRead limit (opened ++ behind) = .ok (.failure stop)) :
    ∃ left, scanRead (limit + 1)
      (before ++ (tagStartUnits n front ++ 0x3E :: (earlier ++ (opened ++ behind)))) =
        .ok (.failure left) := by
  have ofWrites (us : List CodeUnit) (m : Markup) (h : Writes us m) :
      ReadsFromDepth limit us m := readsFromDepth_of_writes limit h
  obtain ⟨left, hleft, hrepeat⟩ := scanRepeat_of_writesAll ofWrites (opened ++ behind)
    writtenEarlier (.inl rfl)
  have hstop : scanRead limit left = .ok (.failure stop) := by
    rcases hleft with rfl | rfl
    · exact hchild
    · rwa [scanRead_dropWhile]
  rw [if_pos enough, Parser.scanRepeat_of_failure hstop] at hrepeat
  refine ⟨left, scanRead_of_stuck spacesBefore isName spelled hrepeat ?_⟩
  exact not_closing_ahead_of_parts parts behind hleft

end Parent

/-- With white space between the two tags of an element without children, no element is read. -/
theorem exists_failure_of_parts (parts : Parts opened closed m) (spaces : IsSpaces gap)
    (nonempty : gap ≠ []) (enough : m.depth ≤ limit) (rest : List CodeUnit) :
    ∃ left, scanRead limit (opened ++ gap ++ closed ++ rest) = .ok (.failure left) := by
  induction parts generalizing limit rest with
  | @outermost before after us n as spacesBefore spacesAfter isName spelled =>
      rw [Markup.depth, Markup.depthAll] at enough
      obtain ⟨limit, rfl⟩ := Nat.exists_eq_add_of_le' enough
      have hunits : before ++ ([0x3C] ++ n.toList ++ us ++ [0x3E]) ++ gap ++
          ([0x3C, 0x2F] ++ n.toList ++ [0x3E] ++ after) ++ rest =
            before ++ (tagStartUnits n us ++
              0x3E :: (gap ++ (0x3C :: 0x2F :: (n.toList ++ [0x3E] ++ after ++ rest)))) := by
        simp [tagStartUnits]
      rw [hunits]
      exact exists_failure_of_gap spacesBefore isName spelled spaces nonempty limit.succ_pos _
  | @inner before after us earlier later opened closed n as ms ms' child spacesBefore spacesAfter
      isName spelled writtenEarlier parts writtenLater ih =>
      rw [Markup.depth, Markup.depthAll_append, Markup.depthAll] at enough
      obtain ⟨limit, rfl⟩ := Nat.exists_eq_add_of_le' (Nat.one_le_of_lt enough)
      have enoughEarlier : Markup.depthAll ms ≤ limit := by omega
      have enoughChild : child.depth ≤ limit := by omega
      have hunits : before ++ ([0x3C] ++ n.toList ++ us ++ [0x3E]) ++ earlier ++ opened ++ gap ++
          (closed ++ later ++ ([0x3C, 0x2F] ++ n.toList ++ [0x3E]) ++ after) ++ rest =
            before ++ (tagStartUnits n us ++ 0x3E :: (earlier ++ (opened ++ (gap ++ closed ++
              (later ++ ([0x3C, 0x2F] ++ n.toList ++ [0x3E] ++ (after ++ rest))))))) := by
        simp [tagStartUnits]
      obtain ⟨stop, hchild⟩ := ih enoughChild
        (later ++ ([0x3C, 0x2F] ++ n.toList ++ [0x3E] ++ (after ++ rest)))
      rw [List.append_assoc, List.append_assoc, ← List.append_assoc gap] at hchild
      rw [hunits]
      exact exists_failure_of_child spacesBefore isName spelled writtenEarlier enoughEarlier parts
        _ hchild

end Between

end Element

end TagMarkup
