import TagMarkup.Proofs.Element.FailureOffset

/-!
# Quoted texts and closing tags by themselves

A quoted text goes up to the next quotation mark. It is read character by character, but what is
read is the units between the two marks as they stand, whether or not they are well formed. A
closing tag is read as the one text that it must be: a name is taken as far as it goes and compared
with the expected one, and this comes to the same as looking for the expected tag. Both hold from
every offset, those past the end included, and in every grammar.

## Implementation notes

Inside the text a run is the reading of the units that are left. Past its end nothing is found that
is not empty, so a parser fails there at the mark that it begins with.
-/

namespace TagMarkup

namespace Text

/-- The second text is found in the first one at an offset. -/
def StandsAt (t s : Text) (p : Nat) : Prop :=
  s.toList <+: t.toList.drop p

instance (t s : Text) (p : Nat) : Decidable (t.StandsAt s p) :=
  inferInstanceAs (Decidable (s.toList <+: t.toList.drop p))

section StandsAt

variable {t s : Text} {p : Nat} {u : CodeUnit}

/-- From the offset of a unit on, that unit is left and what is behind it. -/
theorem drop_of_at? (h : t.at? p = some u) :
    p < t.size ∧ t.toList.drop p = u :: t.toList.drop (p + 1) := by
  rw [at?_natCast, List.getElem?_eq_some_iff] at h
  obtain ⟨hlt, rfl⟩ := h
  exact ⟨by rwa [length_toList] at hlt, List.drop_eq_getElem_cons hlt⟩

theorem standsAt_singleton_iff (h : s.toList = [u]) : t.StandsAt s p ↔ t.at? p = some u := by
  rw [StandsAt, h, at?_natCast, ← List.head?_drop]
  cases t.toList.drop p with
  | nil => simp
  | cons v rest => simp [eq_comm]

/-- Only the empty text is found past the end. -/
theorem not_standsAt_of_lt (nonempty : s.toList ≠ []) (past : t.size < p) : ¬ t.StandsAt s p := by
  rw [StandsAt, List.drop_eq_nil_of_le (by rw [length_toList]; omega), List.prefix_nil]
  exact nonempty

theorem mem_drop_iff : u ∈ t.toList.drop p ↔ ∃ i : Nat, p ≤ i ∧ t.at? i = some u := by
  rw [List.mem_iff_getElem?]
  constructor
  · rintro ⟨k, hk⟩
    rw [List.getElem?_drop, ← at?_natCast] at hk
    exact ⟨p + k, Nat.le_add_right p k, hk⟩
  · rintro ⟨i, hle, hi⟩
    rw [at?_natCast, ← Nat.add_sub_cancel' hle, ← List.getElem?_drop] at hi
    exact ⟨i - p, hi⟩

theorem exists_of_mem_slice {stop : Nat} (h : u ∈ (t.slice p stop).toList) :
    ∃ i : Nat, p ≤ i ∧ i < stop ∧ t.at? i = some u := by
  rw [toList_slice, List.drop_take, List.mem_take_iff_getElem] at h
  obtain ⟨k, hk, rfl⟩ := h
  rw [Nat.lt_min, List.length_drop] at hk
  refine ⟨p + k, by omega, by omega, ?_⟩
  rw [at?_natCast, ← List.getElem?_drop]
  exact List.getElem?_eq_getElem _

end StandsAt

end Text

namespace Parser

variable {R : Type} {ρ : R → Type} (call : (r : R) → Int → Outcome (ρ r)) {text s : Text} {p : Nat}

theorem run_literal_of_standsAt (h : text.StandsAt s p) :
    (literal s : Parser ρ Unit).run call text p = .ok (.success () (p + s.size)) := by
  rw [run_literal, readLiteral, if_pos (Text.matchesAt_natCast_iff.mpr h)]

theorem run_literal_of_not_standsAt (h : ¬ text.StandsAt s p) :
    (literal s : Parser ρ Unit).run call text p = .ok (.failure p) := by
  rw [run_literal, readLiteral, if_neg (mt Text.matchesAt_natCast_iff.mp h)]

end Parser

namespace Element

open CodeUnit

variable {R : Type} {ρ : R → Type}

section QuotedText

/-- The second offset is that of the first quotation mark behind the first one. -/
structure FirstQuoteBehind (text : Text) (start stop : Nat) : Prop where
  /-- It is behind it. -/
  lt : start < stop
  /-- There is a quotation mark. -/
  at_eq : text.at? stop = some 0x22
  /-- There is none in between. -/
  ne_between (i : Nat) : start < i → i < stop → text.at? i ≠ some 0x22

theorem scanQuoted_of_unclosed {us : List CodeUnit} (unclosed : (0x22 : CodeUnit) ∉ us) :
    scanQuoted (0x22 :: us) = .failure [] := by
  have hdrop : us.dropWhile isUnquoted = [] :=
    List.dropWhile_eq_nil_iff.mpr (isUnquoted_of_notMem unclosed)
  rw [scanQuoted, if_pos rfl, hdrop]

variable (g : Grammar ρ) (limit : Nat) {text : Text} {start : Nat}

theorem run_quotedText_of_unopened (unopened : text.at? start ≠ some 0x22) :
    g.run limit quotedText text start = .ok (.failure start) := by
  have absent : ¬ text.StandsAt "\"" start := by
    rwa [Text.standsAt_singleton_iff toList_quote]
  rw [Grammar.run, quotedText, Parser.run_map, Parser.run_seqRight,
    Parser.run_literal_of_not_standsAt _ absent]
  rfl

theorem run_quotedText_eq_scanQuoted (opened : text.at? start = some 0x22) :
    g.run limit quotedText text start =
      .ok ((scanQuoted (0x22 :: text.toList.drop (start + 1))).result text.size) := by
  obtain ⟨hlt, hdrop⟩ := Text.drop_of_at? opened
  rw [g.run_natCast_eq_scan limit quotedText (Nat.le_of_lt hlt), Grammar.scan, scan_quotedText,
    hdrop]
  rfl

theorem run_quotedText_of_closed {stop : Nat} (opened : text.at? start = some 0x22)
    (first : FirstQuoteBehind text start stop) :
    g.run limit quotedText text start =
      .ok (.success (text.slice (start + 1) stop) (stop + 1 : Nat)) := by
  obtain ⟨hlt, hdrop⟩ := Text.drop_of_at? first.at_eq
  have hsplit := drop_eq_slice_append text first.lt
  rw [hdrop] at hsplit
  have hquoted : scanQuoted (0x22 :: text.toList.drop (start + 1)) =
      .success (text.slice (start + 1) stop) (text.toList.drop (stop + 1)) := by
    rw [scanQuoted_eq_success, ← hsplit]
    refine ⟨fun hmem => ?_, rfl⟩
    obtain ⟨i, hle, hstop, hi⟩ := Text.exists_of_mem_slice hmem
    exact first.ne_between i hle hstop hi
  have hoffset := Text.offsetOf_drop text hlt
  rw [run_quotedText_eq_scanQuoted g limit opened, hquoted]
  exact congrArg (fun q => Except.ok (Result.success _ q)) hoffset

theorem run_quotedText_of_unclosed (opened : text.at? start = some 0x22)
    (unclosed : ∀ i : Nat, start < i → text.at? i ≠ some 0x22) :
    g.run limit quotedText text start = .ok (.failure text.size) := by
  have absent : (0x22 : CodeUnit) ∉ text.toList.drop (start + 1) := by
    rw [Text.mem_drop_iff]
    rintro ⟨i, hle, hi⟩
    exact unclosed i hle hi
  rw [run_quotedText_eq_scanQuoted g limit opened, scanQuoted_of_unclosed absent, Scan.result,
    List.length_nil, Int.natCast_zero, Int.sub_zero]

/-- A quoted text is the units between a quotation mark and the next one. It fails where it is not
opened, and at the end of the text where it is not closed. -/
theorem quotedText_up_to_first_quote (g : Grammar ρ) (limit : Nat) (text : Text) (start : Nat) :
    (text.at? start ≠ some 0x22 → g.run limit quotedText text start = .ok (.failure start)) ∧
    (text.at? start = some 0x22 →
      (∀ stop : Nat, FirstQuoteBehind text start stop →
        g.run limit quotedText text start =
          .ok (.success (text.slice (start + 1) stop) (stop + 1 : Nat))) ∧
      ((∀ i : Nat, start < i → text.at? i ≠ some 0x22) →
        g.run limit quotedText text start = .ok (.failure text.size))) :=
  ⟨run_quotedText_of_unopened g limit, fun opened =>
    ⟨fun _ => run_quotedText_of_closed g limit opened, run_quotedText_of_unclosed g limit opened⟩⟩

/-- One half of a surrogate pair is the text between two marks; behind the second of these the other
half stands, and no further mark. -/
theorem quotedText_up_to_first_quote_halfPair :
    FirstQuoteBehind ⟨#[0x22, 0xD83D, 0x22, 0xDE00]⟩ 0 2 ∧
      grammar.run 1 quotedText ⟨#[0x22, 0xD83D, 0x22, 0xDE00]⟩ (0 : Nat) =
        .ok (.success ⟨#[0xD83D]⟩ 3) ∧
      grammar.run 1 quotedText ⟨#[0x22, 0xD83D, 0x22, 0xDE00]⟩ (1 : Nat) = .ok (.failure 1) ∧
      grammar.run 1 quotedText ⟨#[0x22, 0xD83D, 0x22, 0xDE00]⟩ (2 : Nat) = .ok (.failure 4) := by
  have first : FirstQuoteBehind ⟨#[0x22, 0xD83D, 0x22, 0xDE00]⟩ 0 2 := by
    refine ⟨by decide, by decide, fun i hlt hstop => ?_⟩
    obtain rfl : i = 1 := by omega
    decide
  have none (i : Nat) (hlt : 2 < i) :
      Text.at? ⟨#[0x22, 0xD83D, 0x22, 0xDE00]⟩ i ≠ some 0x22 := by
    intro hi
    exact absurd (Text.mem_drop_iff.mpr ⟨i, hlt, hi⟩) (by decide)
  have up (start : Nat) :=
    quotedText_up_to_first_quote grammar 1 ⟨#[0x22, 0xD83D, 0x22, 0xDE00]⟩ start
  exact ⟨first, ((up 0).2 (by decide)).1 2 first, (up 1).1 (by decide),
    ((up 2).2 (by decide)).2 none⟩

end QuotedText

section ClosingTag

/-- The closing tag of a name. -/
def closingTag (n : Text) : Text :=
  "</" ++ n ++ ">"

/-- Reading the closing tag of a name from an offset accepts this one text and no other. -/
structure AcceptsClosingTag (g : Grammar ρ) (limit : Nat) (expected text : Text)
    (start : Nat) : Prop where
  /-- It is read where it stands, if there can be such a tag. -/
  eq_success_iff (n : Text) (q : Int) :
    g.run limit (closeTag expected) text start = .ok (.success n q) ↔
      (expected.IsName ∧ text.StandsAt (closingTag expected) start) ∧
        n = expected ∧ q = start + expected.size + 3
  /-- Everything else is refused where the tag should stand. -/
  eq_failure_iff (q : Int) :
    g.run limit (closeTag expected) text start = .ok (.failure q) ↔
      ¬ (expected.IsName ∧ text.StandsAt (closingTag expected) start) ∧ q = start
  /-- For a name it is the same as looking for the text. -/
  eq_literal : expected.IsName →
    g.run limit (closeTag expected) text start =
      g.run limit ((Parser.literal (closingTag expected)).map fun _ => expected) text start
  /-- The closing tag of another name is refused, be it the beginning of a name or a longer one. -/
  eq_failure_of_ne (n : Text) : n ≠ expected → (∀ u ∈ n.toList, isNameUnit u = true) →
    text.StandsAt (closingTag n) start →
      g.run limit (closeTag expected) text start = .ok (.failure start)

section Runs

variable {expected text : Text} {start : Nat}

theorem size_closingTag (n : Text) : (closingTag n).size = n.size + 3 := by
  rw [← Text.length_toList, closingTag, toList_closeTag, closeTagUnits]
  simp

theorem standsAt_closingTag_iff {n : Text} :
    text.StandsAt (closingTag n) start ↔ closeTagUnits n <+: text.toList.drop start := by
  rw [Text.StandsAt, closingTag, toList_closeTag]

/-- A name in a closing tag goes as far as there are name units. -/
theorem takeWhile_of_standsAt {n : Text} (hn : ∀ u ∈ n.toList, isNameUnit u = true)
    (stands : text.StandsAt (closingTag n) start) :
    ((text.toList.drop start).drop 2).takeWhile isNameUnit = n.toList := by
  obtain ⟨rest, hrest⟩ := standsAt_closingTag_iff.mp stands
  have hstop : NoneAhead isNameUnit (0x3E :: rest) := noneAhead_cons.mpr (by decide)
  rw [← hrest, closeTagUnits, List.cons_append, List.cons_append, List.append_assoc]
  exact takeWhile_append_eq hn hstop

theorem isNameUnit_of_mem {n : Text} (isName : n.IsName) : ∀ u ∈ n.toList, isNameUnit u = true := by
  obtain ⟨u, tail, hn, letter, units⟩ := isName
  rw [hn]
  exact List.forall_mem_cons.mpr ⟨isNameUnit_of_isLetter letter, units⟩

variable (g : Grammar ρ) (limit : Nat)

theorem run_closeTag_of_standsAt (isName : expected.IsName)
    (stands : text.StandsAt (closingTag expected) start) :
    g.run limit (closeTag expected) text start =
      .ok (.success expected (start + expected.size + 3)) := by
  have hsize := size_closingTag expected
  have inside : start ≤ text.size := by
    by_contra past
    refine Text.not_standsAt_of_lt ?_ (Nat.lt_of_not_le past) stands
    rw [closingTag, toList_closeTag]
    exact List.cons_ne_nil _ _
  obtain ⟨rest, hrest⟩ := stands
  obtain ⟨hinside, hdrop, -⟩ := Text.drop_add_length hrest.symm inside
  rw [Text.length_toList, hsize] at hinside hdrop
  have hscan : (closeTag expected : Parser ρ Text).scan (g.scanCall limit)
      (text.toList.drop start) = .ok (.success expected rest) := by
    rw [scan_closeTag_eq_success, ← hrest, closingTag, toList_closeTag]
    exact ⟨rfl, isName, rfl⟩
  have hoffset : text.offsetOf rest = start + expected.size + 3 := by
    rw [← hdrop, Text.offsetOf_drop text hinside]
    omega
  rw [g.run_natCast_eq_scan limit _ inside, Grammar.scan, hscan]
  exact congrArg (fun q => Except.ok (Result.success expected q)) hoffset

theorem run_closeTag_of_not_standsAt
    (absent : ¬ (expected.IsName ∧ text.StandsAt (closingTag expected) start)) :
    g.run limit (closeTag expected) text start = .ok (.failure start) := by
  obtain past | inside := Nat.lt_or_ge text.size start
  · have none : ¬ text.StandsAt "</" start :=
      Text.not_standsAt_of_lt (by decide) past
    rw [Grammar.run, closeTag, Parser.run_attempt, Parser.run_satisfying, Parser.run_seqRight,
      Parser.run_literal_of_not_standsAt _ none]
    rfl
  · rw [standsAt_closingTag_iff] at absent
    rw [g.run_natCast_eq_scan limit _ inside, Grammar.scan, scan_closeTag_of_not_spelled _ absent]
    exact congrArg (fun q => Except.ok (Result.failure q)) (Text.offsetOf_drop text inside)

theorem run_closeTag_eq_success_iff (expected text : Text) (start : Nat) (n : Text) (q : Int) :
    g.run limit (closeTag expected) text start = .ok (.success n q) ↔
      (expected.IsName ∧ text.StandsAt (closingTag expected) start) ∧
        n = expected ∧ q = start + expected.size + 3 := by
  by_cases stands : expected.IsName ∧ text.StandsAt (closingTag expected) start
  · rw [run_closeTag_of_standsAt g limit stands.1 stands.2, Except.ok.injEq, Result.success.injEq,
      and_iff_right stands, eq_comm, @eq_comm _ q]
  · rw [run_closeTag_of_not_standsAt g limit stands]
    simp [stands]

theorem run_closeTag_eq_failure_iff (expected text : Text) (start : Nat) (q : Int) :
    g.run limit (closeTag expected) text start = .ok (.failure q) ↔
      ¬ (expected.IsName ∧ text.StandsAt (closingTag expected) start) ∧ q = start := by
  by_cases stands : expected.IsName ∧ text.StandsAt (closingTag expected) start
  · rw [run_closeTag_of_standsAt g limit stands.1 stands.2]
    simp [stands]
  · rw [run_closeTag_of_not_standsAt g limit stands, Except.ok.injEq, Result.failure.injEq,
      and_iff_right stands, eq_comm]

theorem run_closeTag_eq_run_literal (isName : expected.IsName) (text : Text) (start : Nat) :
    g.run limit (closeTag expected) text start =
      g.run limit ((Parser.literal (closingTag expected)).map fun _ => expected) text start := by
  by_cases stands : text.StandsAt (closingTag expected) start
  · rw [run_closeTag_of_standsAt g limit isName stands, Grammar.run, Parser.run_map,
      Parser.run_literal_of_standsAt _ stands, size_closingTag, Int.natCast_add, ← Int.add_assoc]
    rfl
  · rw [run_closeTag_of_not_standsAt g limit fun h => stands h.2, Grammar.run, Parser.run_map,
      Parser.run_literal_of_not_standsAt _ stands]
    rfl

theorem run_closeTag_of_ne {n : Text} (hne : n ≠ expected)
    (hn : ∀ u ∈ n.toList, isNameUnit u = true) (stands : text.StandsAt (closingTag n) start) :
    g.run limit (closeTag expected) text start = .ok (.failure start) := by
  apply run_closeTag_of_not_standsAt
  rintro ⟨isName, hexpected⟩
  -- Both tags stand there, and in both the name goes as far as there are name units.
  have hname := takeWhile_of_standsAt (isNameUnit_of_mem isName) hexpected
  rw [takeWhile_of_standsAt hn stands] at hname
  exact hne (Text.toList_inj.mp hname)

end Runs

/-- A closing tag is accepted as one text. -/
theorem acceptsClosingTag (g : Grammar ρ) (limit : Nat) (expected text : Text) (start : Nat) :
    AcceptsClosingTag g limit expected text start where
  eq_success_iff := run_closeTag_eq_success_iff g limit expected text start
  eq_failure_iff := run_closeTag_eq_failure_iff g limit expected text start
  eq_literal isName := run_closeTag_eq_run_literal g limit isName text start
  eq_failure_of_ne _ := run_closeTag_of_ne g limit

/-- The closing tag of a longer name is refused, the one behind it is read, and past the end of the
text none is. -/
theorem acceptsClosingTag_longerName :
    Text.StandsAt "</abc></ab>" (closingTag "abc") 0 ∧
      Text.IsName "ab" ∧ Text.StandsAt "</abc></ab>" (closingTag "ab") 6 ∧
      grammar.run 1 (closeTag "ab") "</abc></ab>" (0 : Nat) = .ok (.failure (0 : Nat)) ∧
      grammar.run 1 (closeTag "ab") "</abc></ab>" (6 : Nat) = .ok (.success "ab" 11) ∧
      grammar.run 1 ((Parser.literal (closingTag "ab")).map fun _ => ("ab" : Text)) "</abc></ab>"
        (6 : Nat) = .ok (.success "ab" 11) ∧
      grammar.run 1 (closeTag "ab") "</abc></ab>" (20 : Nat) = .ok (.failure 20) := by
  have isName : Text.IsName "ab" :=
    ⟨0x61, [0x62], by decide, by decide, List.forall_mem_singleton.mpr (by decide)⟩
  have units : ∀ u ∈ Text.toList "abc", isNameUnit u = true := List.all_eq_true.mp (by decide)
  have longer : Text.StandsAt "</abc></ab>" (closingTag "abc") 0 := by decide
  have stands : Text.StandsAt "</abc></ab>" (closingTag "ab") 6 := by decide
  have absent : ¬ Text.StandsAt "</abc></ab>" (closingTag "ab") 20 := by decide
  have accepts (start : Nat) := acceptsClosingTag grammar 1 "ab" "</abc></ab>" start
  have read : grammar.run 1 (closeTag "ab") "</abc></ab>" (6 : Nat) = .ok (.success "ab" 11) :=
    ((accepts 6).eq_success_iff "ab" 11).mpr ⟨⟨isName, stands⟩, rfl, by decide⟩
  exact ⟨longer, isName, stands, (accepts 0).eq_failure_of_ne "abc" (by decide) units longer,
    read, (accepts 6).eq_literal isName ▸ read,
    ((accepts 20).eq_failure_iff 20).mpr ⟨fun h => absent h.2, rfl⟩⟩

end ClosingTag

end Element

end TagMarkup
