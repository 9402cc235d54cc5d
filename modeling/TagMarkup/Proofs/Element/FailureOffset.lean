import TagMarkup.Proofs.Element.Refusal

/-!
# The offset at which an element is refused

In a text, the offset of a failure is found by looking at the text alone. Behind the white space
there has to be a bracket, then a name, attributes as long as they go on, and a mark; behind the
mark of an opening tag come elements as long as they can be read, and then the closing tag. The
first of these that is missing is where the failure is reported. What fails inside an attribute or
inside a child is reported where that attribute or that child was to begin.

## Implementation notes

An offset stands for the units that are left from there on; `Refused` says of these what `RefusedAt`
says of offsets. A child is read within fewer activations than its parent, so `ComesTo` leaves their
number open, and the readings are compared at a common higher one.
-/

namespace TagMarkup

namespace Text

variable {t : Text} {k : Nat}

/-- Past the end as at the end, only the empty text is found. -/
theorem matchesAt_natCast_iff {s : Text} :
    t.matchesAt s k = true ↔ s.toList <+: t.toList.drop k := by
  rw [matchesAt_iff, Int.toNat_natCast]
  obtain inside | past := Nat.le_total k t.size
  · rw [Nat.min_eq_left inside]
  · have hend (i : Nat) (past : t.size ≤ i) : t.toList.drop i = [] :=
      List.drop_eq_nil_of_le (by rwa [length_toList])
    rw [Nat.min_eq_right past, hend _ (Nat.le_refl _), hend _ past]

theorem matchesAt_natCast_eq_false_iff {s : Text} :
    t.matchesAt s k = false ↔ ¬ s.toList <+: t.toList.drop k := by
  rw [← matchesAt_natCast_iff, Bool.not_eq_true]

/-- What is left of a text behind units that are spelled in front. -/
theorem drop_add_length {front rest : List CodeUnit} (h : t.toList.drop k = front ++ rest)
    (inside : k ≤ t.size) :
    k + front.length ≤ t.size ∧ t.toList.drop (k + front.length) = rest ∧
      (t.slice k (k + front.length)).toList = front := by
  have hlength := congrArg List.length h
  rw [List.length_drop, List.length_append, length_toList] at hlength
  refine ⟨by omega, ?_, ?_⟩
  · rw [← List.drop_drop, h, List.drop_left]
  · rw [toList_slice, List.drop_take, Nat.add_sub_cancel_left, h, List.take_left]

end Text

namespace Element

open CodeUnit
open TagMarkup.Parser (scanRepeat)

/-- Reading an element from the offset comes to the result, if enough of them may be open at
once. -/
def ComesTo (text : Text) (start : Nat) (result : Result Element) : Prop :=
  ∃ limit, read limit text start = .ok result

/-- From the first offset to the second, elements are read one after the other, and none can be read
there. -/
inductive ElementsBetween (text : Text) : Nat → Nat → Prop where
  /-- No element can be read. -/
  | none {start : Nat} {p : Int} (refused : ComesTo text start (.failure p)) :
      ElementsBetween text start start
  /-- An element is read, then further elements. -/
  | next {start mid stop : Nat} {e : Element} (first : ComesTo text start (.success e mid))
      (others : ElementsBetween text mid stop) : ElementsBetween text start stop

/-- A tag up to its mark: a bracket at the first offset, the longest name behind it, and the longest
sequence of attributes behind that, which goes up to the second offset. -/
structure TagBetween (text : Text) (start : Nat) (n : Text) (stop : Nat) : Prop where
  /-- The tag is inside the text. -/
  inside : stop ≤ text.size
  /-- The name is one. -/
  isName : n.IsName
  /-- The bracket and the name stand there. -/
  matchesName : text.matchesAt ("<" ++ n) start = true
  /-- The name does not go on. -/
  longestName (u : CodeUnit) : text.at? (start + (1 + n.size) : Nat) = some u →
    isNameUnit u = false
  /-- The name comes before the attributes. -/
  name_le : start + (1 + n.size) ≤ stop
  /-- The attributes are such. -/
  spelled : ∃ as, SpellsAttributes (text.slice (start + (1 + n.size)) stop).toList as
  /-- The attributes do not go on. -/
  longest (stop' : Nat) (as : List Attribute) : stop' ≤ text.size →
    SpellsAttributes (text.slice (start + (1 + n.size)) stop').toList as → stop' ≤ stop

/-- An element is refused that would begin at the first offset: the second is where something is
missing of it. -/
inductive RefusedAt (text : Text) (start : Nat) : Nat → Prop where
  /-- There is no bracket. -/
  | bracket (absent : text.matchesAt "<" start = false) : RefusedAt text start start
  /-- There is no letter behind the bracket. -/
  | letter (bracket : text.matchesAt "<" start = true)
      (absent : ∀ u, text.at? (start + 1 : Nat) = some u → isLetter u = false) :
      RefusedAt text start (start + 1)
  /-- There is no mark behind the attributes. -/
  | mark {n : Text} {stop : Nat} (tag : TagBetween text start n stop)
      (absentSingle : text.matchesAt "/>" stop = false)
      (absentOpen : text.matchesAt ">" stop = false) : RefusedAt text start stop
  /-- There is no closing tag of the name behind the children. -/
  | closing {n : Text} {behind stop : Nat} (tag : TagBetween text start n behind)
      (opened : text.matchesAt ">" behind = true)
      (children : ElementsBetween text (behind + 1) stop)
      (absent : text.matchesAt ("</" ++ n ++ ">") stop = false) : RefusedAt text start stop

/-- The second offset is the first one from the first on at which no white space stands. -/
structure SpacesBetween (text : Text) (start stop : Nat) : Prop where
  /-- It does not come before the first one. -/
  le : start ≤ stop
  /-- It is inside the text. -/
  inside : stop ≤ text.size
  /-- There is white space between the two. -/
  spaces : IsSpaces (text.slice start stop).toList
  /-- There is none behind. -/
  noneAhead (u : CodeUnit) : text.at? stop = some u → isSpace u = false

section Offsets

variable {text : Text} {start stop limit : Nat}

theorem SpacesBetween.drop_eq (h : SpacesBetween text start stop) :
    text.toList.drop stop = (text.toList.drop start).dropWhile isSpace := by
  rw [drop_eq_slice_append text h.le,
    dropWhile_append_eq h.spaces (noneAhead_drop_iff.mpr h.noneAhead)]

theorem exists_spacesBetween (inside : start ≤ text.size) :
    ∃ stop, SpacesBetween text start stop := by
  have hsplit : text.toList.drop start =
      (text.toList.drop start).takeWhile isSpace ++ (text.toList.drop start).dropWhile isSpace :=
    List.takeWhile_append_dropWhile.symm
  obtain ⟨hinside, hdrop, hslice⟩ := Text.drop_add_length hsplit inside
  refine ⟨_, Nat.le_add_right _ _, hinside, ?_, ?_⟩
  · rw [hslice]
    exact fun _ => List.mem_takeWhile_imp
  · rw [← noneAhead_drop_iff, hdrop]
    exact noneAhead_dropWhile _

/-- Reading from an offset succeeds with the units that are left where it stops. -/
theorem read_eq_success_iff (inside : start ≤ text.size) {e : Element} :
    read limit text start = .ok (.success e stop) ↔
      stop ≤ text.size ∧
        scanRead limit (text.toList.drop start) = .ok (.success e (text.toList.drop stop)) := by
  constructor
  · intro h
    obtain ⟨rest, hscan, hstop⟩ := scanRead_of_read inside h
    obtain ⟨front, hsplit, -⟩ := spells_of_scanRead hscan
    obtain ⟨hinside, hdrop, -⟩ := Text.drop_add_length hsplit inside
    have heq : stop = start + front.length := by
      rw [← hdrop, List.length_drop, Text.length_toList] at hstop
      omega
    subst heq
    exact ⟨hinside, hdrop ▸ hscan⟩
  · rintro ⟨hinside, hscan⟩
    have hoffset := Text.offsetOf_drop text hinside
    rw [read_eq_scanRead limit inside, hscan]
    exact congrArg (fun q => Except.ok (Result.success e q)) hoffset

theorem read_eq_failure_iff_scanRead (inside : start ≤ text.size) {p : Int} :
    read limit text start = .ok (.failure p) ↔
      ∃ rest, scanRead limit (text.toList.drop start) = .ok (.failure rest) ∧
        p = text.offsetOf rest := by
  rw [read_eq_scanRead limit inside]
  cases scanRead limit (text.toList.drop start) using Scanned.cases with
  | error fault => exact iff_of_false nofun nofun
  | success e rest =>
      apply iff_of_false nofun
      rintro ⟨_, ⟨⟩, -⟩
  | failure rest =>
      constructor
      · rintro ⟨⟩
        exact ⟨rest, rfl, rfl⟩
      · rintro ⟨_, ⟨⟩, rfl⟩
        rfl

theorem toList_less_append (n : Text) : (Text.ofString "<" ++ n).toList = 0x3C :: n.toList := by
  rw [Text.toList_append, toList_less]
  rfl

theorem toList_closeTag (n : Text) :
    (Text.ofString "</" ++ n ++ Text.ofString ">").toList = closeTagUnits n := by
  rw [Text.toList_append, Text.toList_append, toList_lessSlash, toList_greater, closeTagUnits]
  rfl

/-- What is left behind the bracket and the name of a tag. -/
theorem drop_name {n : Text} {us : List CodeUnit} (inside : start ≤ text.size)
    (h : text.toList.drop start = 0x3C :: n.toList ++ us) :
    start + (1 + n.size) ≤ text.size ∧ text.toList.drop (start + (1 + n.size)) = us := by
  have hlength : (0x3C :: n.toList).length = 1 + n.size := by
    rw [List.length_cons, Text.length_toList, Nat.add_comm]
  obtain ⟨hinside, hdrop, -⟩ := Text.drop_add_length h inside
  rw [hlength] at hinside hdrop
  exact ⟨hinside, hdrop⟩

/-- A tag begins the units that are left from its offset on. -/
theorem TagBetween.tagStart {n : Text} (tag : TagBetween text start n stop) :
    ∃ front, TagStart (text.toList.drop start) n front (text.toList.drop stop) := by
  have inside : start ≤ text.size := by
    have hle := tag.name_le.trans tag.inside
    omega
  obtain ⟨us, hname⟩ := Text.matchesAt_natCast_iff.mp tag.matchesName
  rw [toList_less_append] at hname
  obtain ⟨hinside, hus⟩ := drop_name inside hname.symm
  have hdrop := drop_eq_slice_append text tag.name_le
  refine ⟨(text.slice (start + (1 + n.size)) stop).toList, ?_, tag.isName, ?_, tag.spelled, ?_⟩
  · rw [← hname, ← hus, hdrop, tagStartUnits]
    simp
  · rw [← hdrop, noneAhead_drop_iff]
    exact tag.longestName
  · rintro other as spelled ⟨more, hmore⟩
    rw [← hdrop] at hmore
    obtain ⟨hother, -, hslice⟩ := Text.drop_add_length hmore.symm hinside
    rw [← hslice] at spelled
    have hle := tag.longest _ as hother spelled
    have hlength := congrArg List.length hdrop
    rw [List.length_append, List.length_drop, List.length_drop, Text.length_toList] at hlength
    have hstop := tag.name_le
    have hinside' := tag.inside
    omega

/-- Units that begin with a tag are left from the offset of the tag on. -/
theorem TagStart.tagBetween {n : Text} {front rest : List CodeUnit} (inside : start ≤ text.size)
    (h : TagStart (text.toList.drop start) n front rest) :
    ∃ stop, TagBetween text start n stop ∧ text.toList.drop stop = rest := by
  have hname : text.toList.drop start = 0x3C :: n.toList ++ (front ++ rest) := by
    rw [h.split, tagStartUnits]
    simp
  obtain ⟨hinside, hbehind⟩ := drop_name inside hname
  obtain ⟨hstop, hrest, hslice⟩ := Text.drop_add_length hbehind hinside
  refine ⟨start + (1 + n.size) + front.length, ⟨hstop, h.isName, ?_, ?_, ?_, ?_, ?_⟩, hrest⟩
  · rw [Text.matchesAt_natCast_iff, toList_less_append, hname]
    exact List.prefix_append _ _
  · rw [← noneAhead_drop_iff, hbehind]
    exact h.longestName
  · exact Nat.le_add_right _ _
  · rw [hslice]
    exact h.spelled
  · intro stop' as inside' spelled
    by_cases le : start + (1 + n.size) ≤ stop'
    · have hprefix : (text.slice (start + (1 + n.size)) stop').toList <+: front ++ rest := by
        rw [← hbehind, drop_eq_slice_append text le]
        exact List.prefix_append _ _
      have hle := h.longest _ as spelled hprefix
      rw [Text.toList_slice, List.length_drop, List.length_take, Text.length_toList] at hle
      omega
    · omega

/-- The children that are read one after the other lie between two offsets. -/
theorem exists_elementsBetween {us rest : List CodeUnit} {cs : List Element}
    (inside : start ≤ text.size) (hus : text.toList.drop start = us)
    (h : scanRepeat (scanRead limit) us = .ok (.success cs rest)) :
    ∃ stop, stop ≤ text.size ∧ text.toList.drop stop = rest ∧ ElementsBetween text start stop := by
  fun_induction scanRepeat (scanRead limit) us generalizing start cs rest with
  | case1 us fault hitem => cases h
  | case2 us vs hitem =>
      cases h
      have hread := (read_eq_failure_iff_scanRead inside).mpr ⟨vs, hus ▸ hitem, rfl⟩
      exact ⟨start, inside, hus, .none ⟨limit, hread⟩⟩
  | case3 us a mid hitem shorter ih =>
      obtain ⟨as, left, hmore, ⟨⟩⟩ := Scanned.andThen_eq_success.mp h
      obtain ⟨front, rfl, -⟩ := spells_of_scanRead hitem
      obtain ⟨hmid, hdrop, -⟩ := Text.drop_add_length hus inside
      have hread : read limit text start = .ok (.success a (start + front.length : Nat)) := by
        apply (read_eq_success_iff inside).mpr
        rw [hus, hdrop]
        exact ⟨hmid, hitem⟩
      obtain ⟨stop, hinside, hrest, others⟩ := ih hmid hdrop hmore
      exact ⟨stop, hinside, hrest, .next ⟨limit, hread⟩ others⟩
  | case4 us a mid hitem shorter => exact absurd (length_lt_of_scanRead hitem) shorter

/-- What an offset comes to, it comes to within each higher number of activations. -/
theorem read_of_le {limit' : Nat} {result : Result Element} (le : limit ≤ limit')
    (h : read limit text start = .ok result) : read limit' text start = .ok result := by
  rw [← h]
  apply (read_eq_of_le le _).symm
  rw [h]
  exact nofun

/-- Elements between two offsets are read as children, if enough of them may be open at once. -/
theorem ElementsBetween.scanRepeat_eq (h : ElementsBetween text start stop)
    (inside : start ≤ text.size) :
    stop ≤ text.size ∧ ∃ least, ∀ limit, least ≤ limit → ∃ cs,
      scanRepeat (scanRead limit) (text.toList.drop start) =
        .ok (.success cs (text.toList.drop stop)) := by
  induction h with
  | none refused =>
      obtain ⟨least, hread⟩ := refused
      refine ⟨inside, least, ?_⟩
      intro limit le
      obtain ⟨rest, hscan, -⟩ := (read_eq_failure_iff_scanRead inside).mp (read_of_le le hread)
      exact ⟨[], Parser.scanRepeat_of_failure hscan⟩
  | @next start mid stop e first others ih =>
      obtain ⟨leastFirst, hread⟩ := first
      obtain ⟨hmid, -⟩ := (read_eq_success_iff inside).mp hread
      obtain ⟨hstop, leastOthers, hothers⟩ := ih hmid
      refine ⟨hstop, max leastFirst leastOthers, ?_⟩
      intro limit le
      obtain ⟨leFirst, leOthers⟩ := Nat.max_le.mp le
      obtain ⟨-, hscan⟩ := (read_eq_success_iff inside).mp (read_of_le leFirst hread)
      obtain ⟨cs, hcs⟩ := hothers limit leOthers
      refine ⟨e :: cs, ?_⟩
      rw [Parser.scanRepeat_of_success hscan (length_lt_of_scanRead hscan), hcs]
      rfl

/-- What is left where an element is refused is left of the offset where it is refused. -/
theorem exists_refusedAt {rest : List CodeUnit} (inside : start ≤ text.size)
    (refused : Refused (scanRead limit) (text.toList.drop start) rest) :
    ∃ stop, stop ≤ text.size ∧ text.toList.drop stop = rest ∧ RefusedAt text start stop := by
  generalize hus : text.toList.drop start = us at refused
  cases refused with
  | bracket absent =>
      refine ⟨start, inside, hus, .bracket ?_⟩
      rwa [Text.matchesAt_natCast_eq_false_iff, toList_less, hus]
  | letter absent =>
      have hsplit : text.toList.drop start = [0x3C] ++ rest := hus
      obtain ⟨hinside, hrest, -⟩ := Text.drop_add_length hsplit inside
      rw [List.length_singleton] at hinside hrest
      refine ⟨start + 1, hinside, hrest, .letter ?_ ?_⟩
      · rw [Text.matchesAt_natCast_iff, toList_less, hsplit]
        exact List.prefix_append _ _
      · rw [← noneAhead_drop_iff, hrest]
        exact absent
  | mark tagStart absentSingle absentOpen =>
      rw [← hus] at tagStart
      obtain ⟨stop, tag, rfl⟩ := tagStart.tagBetween inside
      refine ⟨stop, tag.inside, rfl, .mark tag ?_ ?_⟩
      · rwa [Text.matchesAt_natCast_eq_false_iff, toList_slashGreater]
      · rwa [Text.matchesAt_natCast_eq_false_iff, toList_greater]
  | closing tagStart children absent =>
      rw [← hus] at tagStart
      obtain ⟨behind, tag, hbehind⟩ := tagStart.tagBetween inside
      rw [← List.singleton_append] at hbehind
      obtain ⟨hinside, hbody, -⟩ := Text.drop_add_length hbehind tag.inside
      rw [List.length_singleton] at hinside hbody
      obtain ⟨stop, hstop, rfl, between⟩ := exists_elementsBetween hinside hbody children
      refine ⟨stop, hstop, rfl, .closing tag ?_ between ?_⟩
      · rw [Text.matchesAt_natCast_iff, toList_greater, hbehind]
        exact List.prefix_append _ _
      · rwa [Text.matchesAt_natCast_eq_false_iff, toList_closeTag]

/-- An element that is refused at an offset is refused with what is left there, if enough of them
may be open at once. -/
theorem RefusedAt.refused (h : RefusedAt text start stop) (inside : start ≤ text.size) :
    stop ≤ text.size ∧ ∃ least, ∀ limit, least ≤ limit →
      Refused (scanRead limit) (text.toList.drop start) (text.toList.drop stop) := by
  cases h with
  | bracket absent =>
      rw [Text.matchesAt_natCast_eq_false_iff, toList_less] at absent
      exact ⟨inside, 0, fun limit _ => .bracket absent⟩
  | letter bracket absent =>
      obtain ⟨us, hus⟩ := Text.matchesAt_natCast_iff.mp bracket
      rw [toList_less] at hus
      obtain ⟨hinside, hrest, -⟩ := Text.drop_add_length hus.symm inside
      rw [List.length_singleton] at hinside hrest
      rw [← noneAhead_drop_iff, hrest] at absent
      refine ⟨hinside, 0, fun limit _ => ?_⟩
      rw [hrest, ← hus]
      exact .letter absent
  | mark tag absentSingle absentOpen =>
      obtain ⟨front, tagStart⟩ := tag.tagStart
      rw [Text.matchesAt_natCast_eq_false_iff, toList_slashGreater] at absentSingle
      rw [Text.matchesAt_natCast_eq_false_iff, toList_greater] at absentOpen
      exact ⟨tag.inside, 0, fun limit _ => .mark tagStart absentSingle absentOpen⟩
  | @closing n behind _ tag opened children absent =>
      obtain ⟨front, tagStart⟩ := tag.tagStart
      obtain ⟨body, hbody⟩ := Text.matchesAt_natCast_iff.mp opened
      rw [toList_greater] at hbody
      obtain ⟨hinside, hdrop, -⟩ := Text.drop_add_length hbody.symm tag.inside
      rw [List.length_singleton] at hinside hdrop
      obtain ⟨hstop, least, hchildren⟩ := children.scanRepeat_eq hinside
      rw [Text.matchesAt_natCast_eq_false_iff, toList_closeTag] at absent
      refine ⟨hstop, least, fun limit le => ?_⟩
      obtain ⟨cs, hcs⟩ := hchildren limit le
      rw [hdrop] at hcs
      rw [← hbody] at tagStart
      exact .closing tagStart hcs absent

end Offsets

/-- Provided that the limit is not reached, an element is refused exactly at the offset where
something is missing of it, behind the white space. -/
theorem read_eq_failure_iff (limit : Nat) (text : Text) (start : Nat) (inside : start ≤ text.size)
    (enough : read limit text start ≠ .error .exhausted) (p : Int) :
    read limit text start = .ok (.failure p) ↔
      ∃ first stop : Nat, SpacesBetween text start first ∧ RefusedAt text first stop ∧
        p = stop := by
  constructor
  · intro h
    obtain ⟨rest, hscan, rfl⟩ := (read_eq_failure_iff_scanRead inside).mp h
    cases limit with
    | zero => cases hscan
    | succ limit =>
        obtain ⟨first, spaces⟩ := exists_spacesBetween inside
        have refused := scanRead_succ_eq_failure.mp hscan
        rw [← spaces.drop_eq] at refused
        obtain ⟨stop, hstop, rfl, refusedAt⟩ := exists_refusedAt spaces.inside refused
        exact ⟨first, stop, spaces, refusedAt, Text.offsetOf_drop text hstop⟩
  · rintro ⟨first, stop, spaces, refusedAt, rfl⟩
    obtain ⟨hstop, least, refused⟩ := refusedAt.refused spaces.inside
    have hrefused := refused (max limit least) (Nat.le_max_right _ _)
    rw [spaces.drop_eq] at hrefused
    calc read limit text start
        _ = read (max limit least + 1) text start :=
          read_eq_of_le ((Nat.le_max_left _ _).trans (Nat.le_succ _)) enough
        _ = .ok (.failure stop) := by
          apply (read_eq_failure_iff_scanRead inside).mpr
          exact ⟨_, scanRead_succ_eq_failure.mpr hrefused, (Text.offsetOf_drop text hstop).symm⟩

/-- The offset of a failure. -/
def failedAt? : Result Element → Option Int
  | .failure p => some p
  | .success _ _ => none

theorem eq_failure_of_map_failedAt? {x : Outcome Element} {p : Int}
    (h : x.map failedAt? = .ok (some p)) : x = .ok (.failure p) := by
  obtain fault | ⟨e, q⟩ | q := x
  · cases h
  · cases h
  · cases h
    rfl

/-- The second child has no closing tag. -/
def childUnclosed : Text :=
  "<a><b/> <c></a>"

/-- A child that cannot be read is reported where it begins, behind the white space. -/
theorem read_eq_failure_iff_childUnclosed :
    0 ≤ childUnclosed.size ∧ read 3 childUnclosed (0 : Nat) ≠ .error .exhausted ∧
      ∃ first stop : Nat, SpacesBetween childUnclosed 0 first ∧
        RefusedAt childUnclosed first stop ∧ (8 : Int) = stop := by
  have hread : read 3 childUnclosed (0 : Nat) = .ok (.failure 8) :=
    eq_failure_of_map_failedAt? (by decide +kernel)
  have enough : read 3 childUnclosed (0 : Nat) ≠ .error .exhausted := by
    rw [hread]
    exact nofun
  refine ⟨Nat.zero_le _, enough, ?_⟩
  exact (read_eq_failure_iff 3 childUnclosed 0 (Nat.zero_le _) enough 8).mp hread

end Element

end TagMarkup
