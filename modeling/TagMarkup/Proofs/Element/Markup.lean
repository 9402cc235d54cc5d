import TagMarkup.Proofs.Element.Depth

/-!
# Elements as they are written

An element without children can be written in one tag or in two, which the element itself does not
tell. Its markup does: it is all there is about the units that spell the element, except for the
white space. The markup therefore says how many activations reading the element takes, and two texts
that write one markup are read alike under every limit.
-/

namespace TagMarkup

/-- An element as it is written, but for the white space. -/
inductive Markup where
  /-- An element of one tag. -/
  | single (name : Text) (attributes : List Attribute)
  /-- An opening tag, child elements and a closing tag. -/
  | paired (name : Text) (attributes : List Attribute) (children : List Markup)

namespace Markup

mutual

/-- The element that is written. -/
def element : Markup → Element
  | single n as => .node n as []
  | paired n as ms => .node n as (elements ms)

/-- The elements that are written. -/
def elements : List Markup → List Element
  | [] => []
  | m :: ms => element m :: elements ms

end

mutual

/-- How many activations reading the element takes. The rule for elements is tried at the closing
tag, too. -/
def depth : Markup → Nat
  | single _ _ => 1
  | paired _ _ ms => max 1 (depthAll ms) + 1

/-- How many activations reading the elements one after the other takes. -/
def depthAll : List Markup → Nat
  | [] => 0
  | m :: ms => max (depth m) (depthAll ms)

end

theorem depth_pos (m : Markup) : 0 < m.depth := by
  cases m with
  | single n as => exact Nat.one_pos
  | paired n as ms => exact Nat.succ_pos _

theorem depthAll_append (ms ms' : List Markup) :
    depthAll (ms ++ ms') = max (depthAll ms) (depthAll ms') := by
  induction ms with
  | nil => exact (Nat.zero_max _).symm
  | cons m ms ih => rw [List.cons_append, depthAll, depthAll, ih, Nat.max_assoc]

end Markup

namespace Element

open CodeUnit
open TagMarkup.Parser (scanRepeat)

mutual

/-- The units write the markup, with any white space where it may stand: around elements and in
front of attributes. -/
inductive Writes : List CodeUnit → Markup → Prop where
  /-- An element of one tag. -/
  | single {before after us : List CodeUnit} {name : Text} {attributes : List Attribute}
      (spacesBefore : IsSpaces before) (spacesAfter : IsSpaces after) (isName : name.IsName)
      (spellsAttributes : SpellsAttributes us attributes) :
      Writes (before ++ ([0x3C] ++ name.toList ++ us ++ [0x2F, 0x3E]) ++ after)
        (.single name attributes)
  /-- An opening tag, child elements, and the closing tag of the same name. -/
  | paired {before after us inner : List CodeUnit} {name : Text} {attributes : List Attribute}
      {children : List Markup}
      (spacesBefore : IsSpaces before) (spacesAfter : IsSpaces after) (isName : name.IsName)
      (spellsAttributes : SpellsAttributes us attributes)
      (writesChildren : WritesAll inner children) :
      Writes
        (before ++ ([0x3C] ++ name.toList ++ us ++ [0x3E] ++ inner ++ [0x3C, 0x2F] ++
          name.toList ++ [0x3E]) ++ after)
        (.paired name attributes children)

/-- The units write the markups, one after the other. -/
inductive WritesAll : List CodeUnit → List Markup → Prop where
  /-- Nothing writes no markups. -/
  | nil : WritesAll [] []
  /-- A markup, then further markups. -/
  | cons {us rest : List CodeUnit} {m : Markup} {ms : List Markup}
      (first : Writes us m) (others : WritesAll rest ms) :
      WritesAll (us ++ rest) (m :: ms)

end

mutual

/-- Whatever spells an element writes a markup of it. -/
theorem exists_writes_of_spells {us : List CodeUnit} {e : Element} :
    Spells us e → ∃ m, Writes us m ∧ m.element = e
  | .single spacesBefore spacesAfter isName spelled =>
    ⟨_, .single spacesBefore spacesAfter isName spelled, rfl⟩
  | .parent spacesBefore spacesAfter isName spelled children =>
    have ⟨ms, written, helements⟩ := exists_writesAll_of_spellsAll children
    ⟨.paired _ _ ms, .paired spacesBefore spacesAfter isName spelled written, by
      rw [Markup.element, helements]⟩

/-- Whatever spells elements writes markups of them. -/
theorem exists_writesAll_of_spellsAll {us : List CodeUnit} {cs : List Element} :
    SpellsAll us cs → ∃ ms, WritesAll us ms ∧ Markup.elements ms = cs
  | .nil => ⟨[], .nil, rfl⟩
  | .cons first others =>
    have ⟨m, written, helement⟩ := exists_writes_of_spells first
    have ⟨ms, writtenAll, helements⟩ := exists_writesAll_of_spellsAll others
    ⟨m :: ms, .cons written writtenAll, by rw [Markup.elements, helement, helements]⟩

end

theorem WritesAll.append {us us' : List CodeUnit} {ms ms' : List Markup} (h : WritesAll us ms)
    (h' : WritesAll us' ms') : WritesAll (us ++ us') (ms ++ ms') := by
  induction ms generalizing us with
  | nil =>
      cases h
      exact h'
  | cons m ms ih =>
      cases h with
      | cons first others =>
          rw [List.append_assoc]
          exact .cons first (ih others)

section Reading

variable {limit : Nat}

/-- Further white space in front makes no difference. -/
theorem scanRead_append_of_isSpaces {before : List CodeUnit} (spaces : IsSpaces before)
    (us : List CodeUnit) : scanRead limit (before ++ us) = scanRead limit us := by
  calc scanRead limit (before ++ us)
      _ = scanRead limit ((before ++ us).dropWhile isSpace) := (scanRead_dropWhile limit _).symm
      _ = scanRead limit (us.dropWhile isSpace) := by rw [List.dropWhile_append_of_pos spaces]
      _ = scanRead limit us := scanRead_dropWhile limit us

/-- The units are read as the element from the depth of the markup on, whatever comes after them,
and exhaust every lower limit. -/
def ReadsFromDepth (limit : Nat) (us : List CodeUnit) (m : Markup) : Prop :=
  ∀ rest, scanRead limit (us ++ rest) =
    if m.depth ≤ limit then .ok (.success m.element (rest.dropWhile isSpace))
    else .error .exhausted

/-- Written elements are read one after the other up to what comes after them, if each of them is
read. What is left there may have lost the white space in front, and so may the whole. -/
theorem scanRepeat_of_writesAll (ofWrites : ∀ us m, Writes us m → ReadsFromDepth limit us m)
    (tail : List CodeUnit) {ms : List Markup} {inner us : List CodeUnit}
    (written : WritesAll inner ms)
    (begins : us = inner ++ tail ∨ us = (inner ++ tail).dropWhile isSpace) :
    ∃ left, (left = tail ∨ left = tail.dropWhile isSpace) ∧
      scanRepeat (scanRead limit) us =
        if Markup.depthAll ms ≤ limit then
          Scanned.andThen (scanRepeat (scanRead limit) left) fun cs rest =>
            .ok (.success (Markup.elements ms ++ cs) rest)
        else .error .exhausted := by
  induction ms generalizing inner us with
  | nil =>
      cases written
      refine ⟨us, begins, ?_⟩
      rw [Markup.depthAll, if_pos (Nat.zero_le limit)]
      cases scanRepeat (scanRead limit) us using Scanned.cases <;> rfl
  | cons m ms ih =>
      cases written with
      | @cons front more _ _ first others =>
          have hread : scanRead limit us =
              if m.depth ≤ limit then .ok (.success m.element ((more ++ tail).dropWhile isSpace))
              else .error .exhausted := by
            rw [← ofWrites front m first, ← List.append_assoc]
            rcases begins with rfl | rfl
            · rfl
            · exact scanRead_dropWhile limit _
          obtain ⟨left, hleft, hothers⟩ := ih others (.inr rfl)
          refine ⟨left, hleft, ?_⟩
          rw [Markup.depthAll]
          by_cases hm : m.depth ≤ limit
          · rw [if_pos hm] at hread
            rw [Parser.scanRepeat_of_success hread (length_lt_of_scanRead hread), hothers]
            by_cases hms : Markup.depthAll ms ≤ limit
            · rw [if_pos hms, if_pos (Nat.max_le.mpr ⟨hm, hms⟩)]
              cases scanRepeat (scanRead limit) left using Scanned.cases <;> rfl
            · rw [if_neg hms, if_neg fun h => hms (Nat.max_le.mp h).2]
              rfl
          · rw [if_neg hm] at hread
            rw [scanRepeat_of_error hread, if_neg fun h => hm (Nat.max_le.mp h).1]

/-- The repetition stops at a closing tag, where the rule for elements is tried once more. -/
theorem scanRepeat_closing (n : Text) (rest : List CodeUnit) :
    scanRepeat (scanRead limit) (closeTagUnits n ++ rest) =
      if 1 ≤ limit then .ok (.success [] (closeTagUnits n ++ rest)) else .error .exhausted := by
  cases limit with
  | zero => exact scanRepeat_of_error rfl
  | succ limit =>
      obtain ⟨left, hstop⟩ := scanRead_closing limit.succ_pos (n.toList ++ [0x3E] ++ rest)
      rw [if_pos (Nat.le_add_left 1 limit)]
      exact Parser.scanRepeat_of_failure hstop

section Paired

variable {before after front inner : List CodeUnit} {n : Text} {as : List Attribute}
  {ms : List Markup}

/-- An element of two tags takes one activation more than its children, and at least two. -/
theorem readsFromDepth_paired (ofWrites : ∀ us m, Writes us m → ReadsFromDepth limit us m)
    (spacesBefore : IsSpaces before) (spacesAfter : IsSpaces after) (isName : n.IsName)
    (spelled : SpellsAttributes front as) (children : WritesAll inner ms) :
    ReadsFromDepth (limit + 1)
      (before ++ ([0x3C] ++ n.toList ++ front ++ [0x3E] ++ inner ++ [0x3C, 0x2F] ++ n.toList ++
        [0x3E]) ++ after)
      (.paired n as ms) := by
  intro rest
  have hunits : before ++ ([0x3C] ++ n.toList ++ front ++ [0x3E] ++ inner ++ [0x3C, 0x2F] ++
        n.toList ++ [0x3E]) ++ after ++ rest =
      before ++ (tagStartUnits n front ++
        0x3E :: (inner ++ (closeTagUnits n ++ (after ++ rest)))) := by
    simp [tagStartUnits, closeTagUnits]
  have hclose : (closeTag n : Parser Values Text).scan (grammar.scanCall limit)
      (closeTagUnits n ++ (after ++ rest)) = .ok (.success n (after ++ rest)) :=
    (scan_closeTag_eq_success _).mpr ⟨rfl, isName, rfl⟩
  have hspace : NoneAhead isSpace (closeTagUnits n ++ (after ++ rest)) :=
    noneAhead_cons.mpr (by decide)
  obtain ⟨left, hleft, hchildren⟩ := scanRepeat_of_writesAll ofWrites
    (closeTagUnits n ++ (after ++ rest)) children (.inl rfl)
  rw [hspace.dropWhile, or_self] at hleft
  rw [hunits, scanRead_append_of_isSpaces spacesBefore, scanRead_openTag isName spelled, hchildren,
    hleft, scanRepeat_closing, Markup.depth, Markup.element]
  by_cases hdepth : max 1 (Markup.depthAll ms) ≤ limit
  · obtain ⟨hpos, hms⟩ := Nat.max_le.mp hdepth
    simp only [if_pos hpos, if_pos hms, if_pos (Nat.succ_le_succ hdepth),
      Scanned.andThen_success, hclose, List.append_nil]
    rw [List.dropWhile_append_of_pos spacesAfter]
  · rw [if_neg fun h => hdepth (Nat.le_of_succ_le_succ h)]
    split
    · next hms =>
      rw [if_neg fun hpos => hdepth (Nat.max_le.mpr ⟨hpos, hms⟩)]
      rfl
    · rfl

end Paired

/-- What writes a markup is read as its element by each limit from its depth on, and exhausts every
lower one. -/
theorem readsFromDepth_of_writes (limit : Nat) {us : List CodeUnit} {m : Markup}
    (written : Writes us m) : ReadsFromDepth limit us m := by
  induction limit generalizing us m with
  | zero =>
      intro rest
      rw [if_neg (Nat.not_le.mpr m.depth_pos)]
      rfl
  | succ limit ih =>
      cases written with
      | single spacesBefore spacesAfter isName spelled =>
          intro rest
          rw [Markup.depth, if_pos (Nat.le_add_left 1 limit)]
          exact reads_single spacesBefore spacesAfter isName spelled rest
      | paired spacesBefore spacesAfter isName spelled children =>
          exact readsFromDepth_paired (fun _ _ => ih) spacesBefore spacesAfter isName spelled
            children

theorem scanRead_of_writes {us : List CodeUnit} {m : Markup} (written : Writes us m) :
    scanRead limit us =
      if m.depth ≤ limit then .ok (.success m.element []) else .error .exhausted := by
  have hread := readsFromDepth_of_writes limit written []
  rwa [List.append_nil] at hread

/-- What writes a markup ends with a bracket, except for white space after it. -/
theorem exists_core_of_writes {us : List CodeUnit} {m : Markup} (written : Writes us m) :
    ∃ core after, us = core ++ 0x3E :: after ∧ IsSpaces after ∧ Writes (core ++ [0x3E]) m := by
  have none : IsSpaces [] := nofun
  cases written with
  | @single before after front n as spacesBefore spacesAfter isName spelled =>
      refine ⟨before ++ ([0x3C] ++ n.toList ++ front ++ [0x2F]), after, ?_, spacesAfter, ?_⟩
      · simp
      · have h := Writes.single spacesBefore none isName spelled
        simpa using h
  | @paired before after front inner n as ms spacesBefore spacesAfter isName spelled children =>
      refine ⟨before ++ ([0x3C] ++ n.toList ++ front ++ [0x3E] ++ inner ++ [0x3C, 0x2F] ++
        n.toList), after, ?_, spacesAfter, ?_⟩
      · simp
      · have h := Writes.paired spacesBefore none isName spelled children
        simpa using h

/-- An element is read where a markup of it is written, up to the bracket that ends it and with the
white space after that bracket. -/
theorem scanRead_eq_success_iff {us rest : List CodeUnit} {e : Element} :
    scanRead limit us = .ok (.success e rest) ↔
      ∃ core tail m, us = core ++ 0x3E :: tail ∧ Writes (core ++ [0x3E]) m ∧ m.depth ≤ limit ∧
        e = m.element ∧ rest = tail.dropWhile isSpace := by
  constructor
  · intro h
    obtain ⟨front, rfl, spelled, -, -⟩ := spells_of_scanRead h
    obtain ⟨m, written, rfl⟩ := exists_writes_of_spells spelled
    obtain ⟨core, after, rfl, spacesAfter, writtenCore⟩ := exists_core_of_writes written
    rw [readsFromDepth_of_writes limit written] at h
    split at h
    · next enough =>
      have hrest : rest.dropWhile isSpace = rest := by simpa using h
      refine ⟨core, after ++ rest, m, ?_, writtenCore, enough, rfl, ?_⟩
      · rw [List.append_assoc, List.cons_append]
      · rw [List.dropWhile_append_of_pos spacesAfter, hrest]
    · cases h
  · rintro ⟨core, tail, m, rfl, written, enough, rfl, rfl⟩
    rw [List.append_cons, readsFromDepth_of_writes limit written, if_pos enough]

end Reading

end Element

end TagMarkup
