import TagMarkup.Proofs.Element.Tags
import TagMarkup.Proofs.Parser.Position
import TagMarkup.Proofs.Parser.Simulation

/-!
# Which texts are read as elements

An element is read from a place exactly if the units from there up to where the reading stops spell
it and no white space follows. Reading is greedy and does not go back into a sequence, while a
spelling may leave white space to either of two neighbours; what makes the two agree is that an
element takes all the white space around it, so that the next child starts at a bracket.

## Implementation notes

A spelled element is read by every limit above its nesting (`Reads`), and this is proved along the
limit, over the children of each element. A lower limit is compared with a higher one by
`Grammar.run_limit_le`.
-/

namespace TagMarkup

namespace Element

open CodeUnit
open TagMarkup.Parser (scanRepeat Chain)

/-- What is read as an element without white space in front, given the reading of its children. -/
inductive Tagged (item : List CodeUnit → Scanned Element) :
    List CodeUnit → Element → List CodeUnit → Prop where
  /-- An element of one tag. -/
  | single {n : Text} {as : List Attribute} {front rest : List CodeUnit} (isName : n.IsName)
      (spelled : SpellsAttributes front as) :
      Tagged item (tagStartUnits n front ++ 0x2F :: 0x3E :: rest) (node n as []) rest
  /-- An opening tag, then as many children as there are, then the closing tag. -/
  | parent {n : Text} {as : List Attribute} {cs : List Element} {front body rest : List CodeUnit}
      (isName : n.IsName) (spelled : SpellsAttributes front as)
      (children : scanRepeat item body = .ok (.success cs (closeTagUnits n ++ rest))) :
      Tagged item (tagStartUnits n front ++ 0x3E :: body) (node n as cs) rest

section Rule

variable {R : Type} {ρ : R → Type} (call : (r : R) → List CodeUnit → Scanned (ρ r))

/-- An element of one tag is read when that tag stands in front. -/
theorem scan_singleElement_eq_success {us rest : List CodeUnit} {e : Element} :
    (singleElement : Parser ρ Element).scan call us = .ok (.success e rest) ↔
      ∃ n as front, e = node n as [] ∧ n.IsName ∧ SpellsAttributes front as ∧
        us = tagStartUnits n front ++ 0x2F :: 0x3E :: rest := by
  have h : (singleElement : Parser ρ Element).scan call us = .ok (.success e rest) ↔ _ :=
    scan_tagWith_eq_success call toList_slashGreater (by decide) (by decide)
  rwa [toList_slashGreater] at h

/-- A parent element is read when its opening tag stands in front, then its children and its closing
tag. -/
theorem scan_parentElement_eq_success {self : Parser ρ Element} {us rest : List CodeUnit}
    {e : Element} :
    (parentElement self).scan call us = .ok (.success e rest) ↔
      ∃ n as cs front body, e = node n as cs ∧ n.IsName ∧ SpellsAttributes front as ∧
        us = tagStartUnits n front ++ 0x3E :: body ∧
        scanRepeat (self.scan call) body = .ok (.success cs (closeTagUnits n ++ rest)) := by
  have hopen (vs left : List CodeUnit) (e : Element) :
      (openTag : Parser ρ Element).scan call vs = .ok (.success e left) ↔
        ∃ n as front, e = node n as [] ∧ n.IsName ∧ SpellsAttributes front as ∧
          vs = tagStartUnits n front ++ 0x3E :: left := by
    have h : (openTag : Parser ρ Element).scan call vs = .ok (.success e left) ↔ _ :=
      scan_tagWith_eq_success call toList_greater (by decide) (by decide)
    rwa [toList_greater] at h
  rw [parentElement, Parser.scan_bind, Scanned.andThen_eq_success]
  constructor
  · rintro ⟨opened, body, htag, h⟩
    obtain ⟨n, as, front, rfl, isName, spelled, rfl⟩ := (hopen us body opened).mp htag
    rw [Parser.scan_map] at h
    obtain ⟨cs, left, h, ⟨⟩⟩ := Scanned.andThen_eq_success.mp h
    rw [Parser.scan_seqLeft] at h
    obtain ⟨cs', close, hchildren, h⟩ := Scanned.andThen_eq_success.mp h
    obtain ⟨_, _, hclose, ⟨⟩⟩ := Scanned.andThen_eq_success.mp h
    obtain ⟨hname, -, hunits⟩ := (scan_closeTag_eq_success call).mp hclose
    rw [hunits, hname] at hchildren
    exact ⟨n, as, cs, front, body, rfl, isName, spelled, rfl, hchildren⟩
  · rintro ⟨n, as, cs, front, body, rfl, isName, spelled, rfl, hchildren⟩
    refine ⟨node n as [], body, (hopen _ _ _).mpr ⟨n, as, front, rfl, isName, spelled, rfl⟩, ?_⟩
    have hclose : (closeTag n : Parser ρ Text).scan call (closeTagUnits n ++ rest) =
        .ok (.success n rest) := (scan_closeTag_eq_success call).mpr ⟨rfl, isName, rfl⟩
    rw [Parser.scan_map, Parser.scan_seqLeft, Parser.scan_many, hchildren,
      Scanned.andThen_success]
    simp only [name, hclose]
    rfl

/-- An element is read behind the white space in front of it, and leaves no white space. -/
theorem scan_element_eq_success {self : Parser ρ Element} {us rest : List CodeUnit}
    {e : Element} :
    (element self).scan call us = .ok (.success e rest) ↔
      ∃ left, Tagged (self.scan call) (us.dropWhile isSpace) e left ∧
        rest = left.dropWhile isSpace := by
  rw [element, Parser.scan_spaced, Scanned.andThen_eq_success]
  simp only [Parser.scan_orElse, Scanned.orElse_eq_success]
  generalize us.dropWhile isSpace = vs
  constructor
  · rintro ⟨e', left, h | ⟨_, -, h⟩, heq⟩
    · cases heq
      obtain ⟨n, as, front, rfl, isName, spelled, rfl⟩ :=
        (scan_singleElement_eq_success call).mp h
      exact ⟨left, .single isName spelled, rfl⟩
    · cases heq
      obtain ⟨n, as, cs, front, body, rfl, isName, spelled, rfl, hchildren⟩ :=
        (scan_parentElement_eq_success call).mp h
      exact ⟨left, .parent isName spelled hchildren, rfl⟩
  · rintro ⟨left, tagged, rfl⟩
    refine ⟨e, left, ?_, rfl⟩
    cases tagged with
    | @single n as front _ isName spelled =>
        left
        exact (scan_singleElement_eq_success call).mpr ⟨n, as, front, rfl, isName, spelled, rfl⟩
    | @parent n as cs front body _ isName spelled children =>
        right
        -- the tag of a single element fails at the bracket that ends the opening tag
        have hmark : ¬ (Text.ofString "/>").toList <+: 0x3E :: body := by
          rw [toList_slashGreater, List.cons_prefix_cons]
          rintro ⟨hslash, -⟩
          exact absurd hslash (by decide)
        have hsingle := scan_tagWith_of_absent call isName spelled
          (noneAhead_cons.mpr (by decide)) (noneAhead_cons.mpr (by decide)) hmark
        refine ⟨_, hsingle, (scan_parentElement_eq_success call).mpr ?_⟩
        exact ⟨n, as, cs, front, body, rfl, isName, spelled, rfl, children⟩

end Rule

/-- Reads a list of units as an element with at most `limit` elements open at once. -/
def scanRead (limit : Nat) (us : List CodeUnit) : Scanned Element :=
  grammar.scan limit root us

theorem scanRead_succ_eq_success {limit : Nat} {us rest : List CodeUnit} {e : Element} :
    scanRead (limit + 1) us = .ok (.success e rest) ↔
      ∃ left, Tagged (scanRead limit) (us.dropWhile isSpace) e left ∧
        rest = left.dropWhile isSpace :=
  scan_element_eq_success (grammar.scanCall limit)

/-- White space in front makes no difference. -/
theorem scanRead_dropWhile (limit : Nat) (us : List CodeUnit) :
    scanRead limit (us.dropWhile isSpace) = scanRead limit us := by
  cases limit with
  | zero => rfl
  | succ limit =>
      change (element (.rule ())).scan (grammar.scanCall limit) _ =
        (element (.rule ())).scan (grammar.scanCall limit) _
      rw [element, Parser.scan_spaced, Parser.scan_spaced, (noneAhead_dropWhile us).dropWhile]

/-- A closing tag is not read as an element. -/
theorem scanRead_closing {limit : Nat} (positive : 0 < limit) (us : List CodeUnit) :
    ∃ rest, scanRead limit (0x3C :: 0x2F :: us) = .ok (.failure rest) := by
  obtain ⟨limit, rfl⟩ := Nat.exists_eq_succ_of_ne_zero positive.ne'
  have hstop : NoneAhead isSpace (0x3C :: 0x2F :: us) := noneAhead_cons.mpr (by decide)
  have htag (mark : Text) := scan_tagWith_of_not_letter (grammar.scanCall limit) mark
    (by decide : CodeUnit.isLetter 0x2F = false) us
  refine ⟨0x2F :: us, ?_⟩
  change (element (.rule ())).scan (grammar.scanCall limit) _ = _
  have hsingle : (singleElement : Parser Values Element).scan (grammar.scanCall limit)
      (0x3C :: 0x2F :: us) = .ok (.failure (0x2F :: us)) := htag "/>"
  have hopen : (openTag : Parser Values Element).scan (grammar.scanCall limit)
      (0x3C :: 0x2F :: us) = .ok (.failure (0x2F :: us)) := htag ">"
  rw [element, Parser.scan_spaced, hstop.dropWhile, Parser.scan_orElse, hsingle,
    Scanned.orElse_failure, parentElement, Parser.scan_bind, hopen]
  rfl

section Soundness

variable {item : List CodeUnit → Scanned Element} {limit : Nat}

/-- What is read one after the other is spelled so, if every item is. -/
theorem spellsAll_of_chain
    (ofItem : ∀ us rest c, item us = .ok (.success c rest) →
      ∃ front, us = front ++ rest ∧ Spells front c ∧ c.nesting ≤ limit)
    {us rest : List CodeUnit} {cs : List Element} (chain : Chain item us cs rest) :
    ∃ inner, us = inner ++ rest ∧ SpellsAll inner cs ∧ nestingAll cs ≤ limit := by
  induction chain with
  | nil us => exact ⟨[], rfl, .nil, Nat.zero_le limit⟩
  | @cons us mid rest c cs first shorter others ih =>
      obtain ⟨front, rfl, spelled, hc⟩ := ofItem us mid c first
      obtain ⟨inner, rfl, spelledAll, hcs⟩ := ih
      refine ⟨front ++ inner, (List.append_assoc ..).symm, .cons spelled spelledAll, ?_⟩
      rw [nestingAll]
      exact max_le hc hcs

/-- What is read as an element spells it, with any white space around it. -/
theorem spells_of_tagged
    (ofItem : ∀ us rest c, item us = .ok (.success c rest) →
      ∃ front, us = front ++ rest ∧ Spells front c ∧ c.nesting ≤ limit)
    {us rest : List CodeUnit} {e : Element} (tagged : Tagged item us e rest) :
    ∃ core, us = core ++ rest ∧ e.nesting ≤ limit + 1 ∧
      ∀ before after, IsSpaces before → IsSpaces after → Spells (before ++ core ++ after) e := by
  cases tagged with
  | @single n as front _ isName spelled =>
      refine ⟨[0x3C] ++ n.toList ++ front ++ [0x2F, 0x3E], ?_, ?_, ?_⟩
      · simp [tagStartUnits]
      · simp [nesting, nestingAll]
      · intro before after spacesBefore spacesAfter
        exact .single spacesBefore spacesAfter isName spelled
  | @parent n as cs front body _ isName spelled children =>
      obtain ⟨inner, rfl, spelledAll, hcs⟩ :=
        spellsAll_of_chain ofItem (Chain.of_scanRepeat children)
      refine ⟨[0x3C] ++ n.toList ++ front ++ [0x3E] ++ inner ++ [0x3C, 0x2F] ++ n.toList ++ [0x3E],
        ?_, ?_, ?_⟩
      · simp [tagStartUnits, closeTagUnits]
      · rw [nesting]
        exact Nat.succ_le_succ hcs
      · intro before after spacesBefore spacesAfter
        exact .parent spacesBefore spacesAfter isName spelled spelledAll

end Soundness

/-- What is read as an element spells it, and no white space is left. -/
theorem spells_of_scanRead {limit : Nat} {us rest : List CodeUnit} {e : Element}
    (h : scanRead limit us = .ok (.success e rest)) :
    ∃ front, us = front ++ rest ∧ Spells front e ∧ e.nesting ≤ limit ∧ NoneAhead isSpace rest := by
  induction limit generalizing us rest e with
  | zero => cases h
  | succ limit ih =>
      obtain ⟨left, tagged, rfl⟩ := scanRead_succ_eq_success.mp h
      have ofItem (us rest : List CodeUnit) (c : Element)
          (hc : scanRead limit us = .ok (.success c rest)) :
          ∃ front, us = front ++ rest ∧ Spells front c ∧ c.nesting ≤ limit := by
        obtain ⟨front, hsplit, spelled, hnesting, -⟩ := ih hc
        exact ⟨front, hsplit, spelled, hnesting⟩
      obtain ⟨core, hcore, hnesting, spelled⟩ := spells_of_tagged ofItem tagged
      have hbefore : IsSpaces (us.takeWhile isSpace) := fun _ => List.mem_takeWhile_imp
      have hafter : IsSpaces (left.takeWhile isSpace) := fun _ => List.mem_takeWhile_imp
      refine ⟨_, ?_, spelled _ _ hbefore hafter, hnesting, noneAhead_dropWhile left⟩
      calc us = us.takeWhile isSpace ++ us.dropWhile isSpace :=
            List.takeWhile_append_dropWhile.symm
        _ = us.takeWhile isSpace ++ (core ++ left) := by rw [hcore]
        _ = us.takeWhile isSpace ++ core ++ left.takeWhile isSpace ++ left.dropWhile isSpace := by
            simp only [List.append_assoc, List.takeWhile_append_dropWhile]

/-- Every element takes up some units. -/
theorem ne_nil_of_spells {us : List CodeUnit} {e : Element} (spelled : Spells us e) : us ≠ [] := by
  cases spelled with
  | single => simp
  | parent => simp

theorem length_lt_of_scanRead {limit : Nat} {us rest : List CodeUnit} {e : Element}
    (h : scanRead limit us = .ok (.success e rest)) : rest.length < us.length := by
  obtain ⟨front, rfl, spelled, -, -⟩ := spells_of_scanRead h
  have hpos := List.length_pos_iff.mpr (ne_nil_of_spells spelled)
  rw [List.length_append]
  omega

section Completeness

/-- The units are read as the element, whatever comes after them. -/
def Reads (limit : Nat) (us : List CodeUnit) (e : Element) : Prop :=
  ∀ rest, scanRead limit (us ++ rest) = .ok (.success e (rest.dropWhile isSpace))

/-- The units fall into parts that are read as the elements. -/
inductive ReadsAll (limit : Nat) : List CodeUnit → List Element → Prop where
  /-- No elements. -/
  | nil : ReadsAll limit [] []
  /-- An element, then further elements. -/
  | cons {us rest : List CodeUnit} {c : Element} {cs : List Element} (first : Reads limit us c)
      (others : ReadsAll limit rest cs) : ReadsAll limit (us ++ rest) (c :: cs)

variable {limit : Nat}

/-- A chain of elements may begin behind the white space. -/
theorem chain_dropWhile {us rest : List CodeUnit} {cs : List Element}
    (hrest : NoneAhead isSpace rest) (chain : Chain (scanRead limit) us cs rest) :
    Chain (scanRead limit) (us.dropWhile isSpace) cs rest := by
  cases chain with
  | nil =>
      rw [hrest.dropWhile]
      exact .nil us
  | cons first shorter others =>
      rw [← scanRead_dropWhile] at first
      exact .cons first (length_lt_of_scanRead first) others

theorem ReadsAll.chain {inner close : List CodeUnit} {cs : List Element}
    (h : ReadsAll limit inner cs) (hclose : NoneAhead isSpace close) :
    Chain (scanRead limit) (inner ++ close) cs close := by
  induction h with
  | nil => exact .nil close
  | @cons us rest c cs first others ih =>
      rw [List.append_assoc]
      have hfirst := first (rest ++ close)
      exact .cons hfirst (length_lt_of_scanRead hfirst) (chain_dropWhile hclose ih)

/-- The children of an element are read up to its closing tag. -/
theorem ReadsAll.scanRepeat_eq {inner : List CodeUnit} {cs : List Element}
    (h : ReadsAll limit inner cs) (positive : 0 < limit) (n : Text) (rest : List CodeUnit) :
    scanRepeat (scanRead limit) (inner ++ (closeTagUnits n ++ rest)) =
      .ok (.success cs (closeTagUnits n ++ rest)) := by
  have hspace : NoneAhead isSpace (closeTagUnits n ++ rest) := noneAhead_cons.mpr (by decide)
  obtain ⟨left, hstop⟩ := scanRead_closing positive (n.toList ++ [0x3E] ++ rest)
  exact (h.chain hspace).scanRepeat_eq hstop

/-- An element is read with the white space around it once it is read without. -/
theorem reads_of_tagged {core : List CodeUnit} {e : Element}
    (hcore : ∀ rest, NoneAhead isSpace (core ++ rest))
    (tagged : ∀ rest, Tagged (scanRead limit) (core ++ rest) e rest) {before after : List CodeUnit}
    (spacesBefore : IsSpaces before) (spacesAfter : IsSpaces after) :
    Reads (limit + 1) (before ++ core ++ after) e := by
  intro rest
  apply scanRead_succ_eq_success.mpr
  refine ⟨after ++ rest, ?_, ?_⟩
  · rw [List.append_assoc, List.append_assoc, dropWhile_append_eq spacesBefore (hcore _)]
    exact tagged (after ++ rest)
  · rw [List.dropWhile_append_of_pos spacesAfter]

variable {before after front : List CodeUnit} {n : Text} {as : List Attribute}

/-- An element of one tag is read. -/
theorem reads_single (spacesBefore : IsSpaces before) (spacesAfter : IsSpaces after)
    (isName : n.IsName) (spelled : SpellsAttributes front as) :
    Reads (limit + 1) (before ++ ([0x3C] ++ n.toList ++ front ++ [0x2F, 0x3E]) ++ after)
      (node n as []) := by
  refine reads_of_tagged ?_ ?_ spacesBefore spacesAfter
  · intro rest
    exact noneAhead_cons.mpr (by decide)
  · intro rest
    have tagged : Tagged (scanRead limit) _ _ rest := .single isName spelled
    simpa [tagStartUnits] using tagged

/-- An element with a closing tag is read if its children are. -/
theorem reads_parent {inner : List CodeUnit} {cs : List Element} (positive : 0 < limit)
    (spacesBefore : IsSpaces before) (spacesAfter : IsSpaces after) (isName : n.IsName)
    (spelled : SpellsAttributes front as) (children : ReadsAll limit inner cs) :
    Reads (limit + 1)
      (before ++ ([0x3C] ++ n.toList ++ front ++ [0x3E] ++ inner ++ [0x3C, 0x2F] ++ n.toList ++
        [0x3E]) ++ after)
      (node n as cs) := by
  refine reads_of_tagged ?_ ?_ spacesBefore spacesAfter
  · intro rest
    exact noneAhead_cons.mpr (by decide)
  · intro rest
    have tagged := Tagged.parent isName spelled (children.scanRepeat_eq positive n rest)
    simpa [tagStartUnits, closeTagUnits] using tagged

/-- Spelled elements are read one after the other if each of them is. -/
theorem readsAll_of_spellsAll
    (ofSpells : ∀ us c, Spells us c → c.nesting < limit → Reads limit us c) {cs : List Element} :
    ∀ {inner : List CodeUnit}, SpellsAll inner cs → nestingAll cs < limit →
      ReadsAll limit inner cs := by
  induction cs with
  | nil =>
      rintro inner ⟨⟩ -
      exact .nil
  | cons c cs ih =>
      rintro _ (_ | ⟨first, others⟩) hnesting
      rw [nestingAll, Nat.max_lt] at hnesting
      exact .cons (ofSpells _ c first hnesting.1) (ih others hnesting.2)

/-- Every spelled element is read by each limit above its nesting. -/
theorem reads_of_spells {us : List CodeUnit} {e : Element} (spelled : Spells us e)
    (enough : e.nesting < limit) : Reads limit us e := by
  induction limit generalizing us e with
  | zero => exact absurd enough (Nat.not_lt_zero _)
  | succ limit ih =>
      cases spelled with
      | single spacesBefore spacesAfter isName spelled =>
          exact reads_single spacesBefore spacesAfter isName spelled
      | parent spacesBefore spacesAfter isName spelled children =>
          rw [nesting, Nat.add_lt_add_iff_right] at enough
          have positive : 0 < limit := Nat.zero_lt_of_lt enough
          apply reads_parent positive spacesBefore spacesAfter isName spelled
          apply readsAll_of_spellsAll _ children enough
          intro us c spelled below
          exact ih spelled below

end Completeness

/-- The units between the two offsets spell the element, and no white space follows them. -/
def SpelledBetween (text : Text) (start stop : Nat) (e : Element) : Prop :=
  start ≤ stop ∧ stop ≤ text.size ∧ Spells (text.slice start stop).toList e ∧
    ∀ u, text.at? stop = some u → isSpace u = false

section Read

variable {text : Text} {start stop : Nat} {e : Element}

theorem drop_eq_slice_append (text : Text) (le : start ≤ stop) :
    text.toList.drop start = (text.slice start stop).toList ++ text.toList.drop stop := by
  have hdrop : text.toList.drop stop = (text.toList.drop start).drop (stop - start) := by
    rw [List.drop_drop, Nat.add_sub_cancel' le]
  rw [Text.toList_slice, List.drop_take, hdrop, List.take_append_drop]

theorem noneAhead_drop_iff {cls : CodeUnit → Bool} :
    NoneAhead cls (text.toList.drop stop) ↔ ∀ u, text.at? stop = some u → cls u = false := by
  rw [NoneAhead, List.head?_drop, Text.at?_natCast]
  rfl

theorem read_eq_scanRead (limit : Nat) (inside : start ≤ text.size) :
    read limit text start = (scanRead limit (text.toList.drop start)).outcome text.size :=
  grammar.run_natCast_eq_scan limit root inside

theorem scanRead_of_read {limit : Nat} (inside : start ≤ text.size) {n : Int}
    (h : read limit text start = .ok (.success e n)) :
    ∃ rest, scanRead limit (text.toList.drop start) = .ok (.success e rest) ∧
      n = text.size - rest.length := by
  rw [read_eq_scanRead limit inside] at h
  cases hscan : scanRead limit (text.toList.drop start) using Scanned.cases with
  | error fault =>
      rw [hscan] at h
      cases h
  | success e' rest =>
      rw [hscan] at h
      cases h
      exact ⟨rest, rfl, rfl⟩
  | failure rest =>
      rw [hscan] at h
      cases h

/-- What is read as an element is spelled there. -/
theorem spelledBetween_of_read {limit : Nat} (inside : start ≤ text.size) {n : Int}
    (h : read limit text start = .ok (.success e n)) :
    ∃ stop : Nat, n = stop ∧ SpelledBetween text start stop e := by
  obtain ⟨rest, hscan, rfl⟩ := scanRead_of_read inside h
  obtain ⟨front, hsplit, spelled, -, hrest⟩ := spells_of_scanRead hscan
  have hcount := congrArg List.length hsplit
  rw [List.length_drop, List.length_append, Text.length_toList] at hcount
  have hslice := drop_eq_slice_append text (Nat.le_add_right start front.length)
  rw [hsplit] at hslice
  have hlength : front.length = (text.slice start (start + front.length)).toList.length := by
    rw [Text.toList_slice, List.length_drop, List.length_take, Text.length_toList]
    omega
  obtain ⟨hfront, hdrop⟩ := List.append_inj hslice hlength
  refine ⟨start + front.length, by omega, by omega, by omega, hfront ▸ spelled, ?_⟩
  exact noneAhead_drop_iff.mp (hdrop ▸ hrest)

/-- A spelled element is read by each limit above its nesting, together with the white space after
it. -/
theorem read_of_spells {limit : Nat} (le : start ≤ stop) (inside : stop ≤ text.size)
    (spelled : Spells (text.slice start stop).toList e) (enough : e.nesting < limit) :
    read limit text start =
      .ok (.success e (text.size - ((text.toList.drop stop).dropWhile isSpace).length)) := by
  rw [read_eq_scanRead limit (le.trans inside), drop_eq_slice_append text le,
    reads_of_spells spelled enough]
  rfl

theorem read_of_spelledBetween {limit : Nat} (spelled : SpelledBetween text start stop e)
    (enough : e.nesting < limit) : read limit text start = .ok (.success e stop) := by
  obtain ⟨le, inside, spelled, hstop⟩ := spelled
  have hsize : (text.size : Int) - (text.toList.drop stop).length = stop := by
    rw [List.length_drop, Text.length_toList]
    omega
  rw [read_of_spells le inside spelled enough, (noneAhead_drop_iff.mpr hstop).dropWhile, hsize]

/-- An element is spelled in one way only. -/
theorem spelledBetween_unique {e' : Element} {stop' : Nat} (h : SpelledBetween text start stop e)
    (h' : SpelledBetween text start stop' e') : e = e' ∧ stop = stop' := by
  have hread := read_of_spelledBetween h
    (Nat.lt_succ_of_le (Nat.le_max_left e.nesting e'.nesting))
  have hread' := read_of_spelledBetween h'
    (Nat.lt_succ_of_le (Nat.le_max_right e.nesting e'.nesting))
  rw [hread] at hread'
  cases hread'
  exact ⟨rfl, rfl⟩

/-- A run that is not exhausted comes to what each higher limit comes to. -/
theorem read_eq_of_le {limit limit' : Nat} (le : limit ≤ limit')
    (enough : read limit text start ≠ .error .exhausted) :
    read limit text start = read limit' text start :=
  (grammar.run_limit_le root text le start).resolve_left enough

/-- Provided that the limit is not reached, an element is read exactly where it is spelled and no
white space follows, no place spells more than one, and whatever is spelled somewhere is read there
together with the white space after it. -/
theorem read_eq_success_iff_spelledBetween (limit : Nat) (text : Text) (start : Nat)
    (inside : start ≤ text.size) (enough : read limit text start ≠ .error .exhausted) :
    (∀ e n, read limit text start = .ok (.success e n) ↔
      ∃ stop : Nat, n = stop ∧ SpelledBetween text start stop e) ∧
    (∀ e stop e' stop', SpelledBetween text start stop e → SpelledBetween text start stop' e' →
      e = e' ∧ stop = stop') ∧
    (∀ e stop, start ≤ stop → stop ≤ text.size → Spells (text.slice start stop).toList e →
      ∃ n, (stop : Int) ≤ n ∧ read limit text start = .ok (.success e n)) := by
  -- a limit that the element cannot reach is compared with the given one
  have raise (e : Element) : read limit text start = read (max limit (e.nesting + 1)) text start :=
    read_eq_of_le (Nat.le_max_left _ _) enough
  have above (e : Element) : e.nesting < max limit (e.nesting + 1) := by omega
  constructor
  · intro e n
    constructor
    · exact spelledBetween_of_read inside
    · rintro ⟨stop, rfl, spelled⟩
      calc read limit text start
          _ = read (max limit (e.nesting + 1)) text start := raise e
          _ = .ok (.success e stop) := read_of_spelledBetween spelled (above e)
  · constructor
    · intro e stop e' stop'
      exact spelledBetween_unique
    · intro e stop le inside' spelled
      have hread := (raise e).trans (read_of_spells le inside' spelled (above e))
      refine ⟨_, ?_, hread⟩
      have hshort := (List.dropWhile_sublist isSpace (l := text.toList.drop stop)).length_le
      rw [List.length_drop, Text.length_toList] at hshort
      omega

/-- A child with white space around it, read from behind the white space in front of its parent. -/
theorem read_eq_success_iff_spelledBetween_one_child :
    1 ≤ Text.size " <a> <b/> </a>." ∧ read 3 " <a> <b/> </a>." 1 ≠ .error .exhausted ∧
      ∀ e n, read 3 " <a> <b/> </a>." 1 = .ok (.success e n) ↔
        ∃ stop : Nat, n = stop ∧ SpelledBetween " <a> <b/> </a>." 1 stop e := by
  have isNameA : Text.IsName "a" := ⟨0x61, [], by decide, by decide, nofun⟩
  have isNameB : Text.IsName "b" := ⟨0x62, [], by decide, by decide, nofun⟩
  have oneSpace : IsSpaces [0x20] := List.forall_mem_singleton.mpr (by decide)
  have spelled : Spells (Text.slice " <a> <b/> </a>." 1 14).toList
      (node "a" [] [node "b" [] []]) := by
    have none : IsSpaces [] := nofun
    exact Spells.parent none none isNameA .nil
      (.cons (.single oneSpace oneSpace isNameB .nil) .nil)
  have inside : 1 ≤ Text.size " <a> <b/> </a>." := by decide
  have enough : read 3 " <a> <b/> </a>." 1 ≠ .error .exhausted := by
    have hread : read 3 " <a> <b/> </a>." 1 = .ok (.success _ _) :=
      read_of_spells (by decide) (by decide) spelled (by decide)
    rw [hread]
    nofun
  exact ⟨inside, enough, (read_eq_success_iff_spelledBetween 3 _ 1 inside enough).1⟩

end Read

end Element

end TagMarkup
