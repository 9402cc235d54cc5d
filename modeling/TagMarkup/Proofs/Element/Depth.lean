import TagMarkup.Proofs.Element.Acceptance
import TagMarkup.Proofs.Parser.Faults

/-!
# Elements nested too deeply

Reading an element can end in no other fault than exhaustion, and it does so when there are as many
opening tags in a row as elements may be open at once.
-/

namespace TagMarkup

namespace Element

open CodeUnit
open TagMarkup.Parser (scanRepeat)

section Faults

variable {R : Type} {ρ : R → Type}

/-- No function in the rule for elements raises a fault. -/
theorem faultFree_element {self : Parser ρ Element} (h : self.FaultFree) :
    (element self).FaultFree := by
  simp [element, singleElement, parentElement, openTag, closeTag, tagStart, attributeList,
    attributeItem, quotedText, Parser.spaced, Parser.spaces, Parser.spaces1, Parser.space,
    Parser.seqLeft, Parser.seqRight, Parser.map, Parser.satisfying, Parser.FaultFree, h]

theorem faultFree_grammar (r : Unit) : (grammar r).FaultFree :=
  faultFree_element trivial

/-- Reading with the rule for elements can be ended by no other fault than exhaustion. -/
theorem eq_exhausted_of_run {α : Type} {parser : Parser Values α} (h : parser.FaultFree)
    {limit : Nat} {text : Text} {p : Int} {fault : Fault}
    (hrun : grammar.run limit parser text p = .error fault) : fault = .exhausted :=
  Grammar.atMostExhausted_run faultFree_grammar limit h text p fault hrun

/-- The only fault that can end the reading of an element is exhaustion. -/
theorem eq_exhausted_of_read {limit : Nat} {text : Text} {p : Int} {fault : Fault}
    (h : read limit text p = .error fault) : fault = .exhausted := by
  have hroot : root.FaultFree := trivial
  exact eq_exhausted_of_run hroot h

end Faults

section Depth

variable {limit : Nat}

/-- A repetition does not get past an item that ends in a fault at its start. -/
theorem scanRepeat_of_error {α : Type} {item : List CodeUnit → Scanned α} {us : List CodeUnit}
    {fault : Fault} (h : item us = .error fault) : scanRepeat item us = .error fault := by
  rw [scanRepeat, h]

/-- What comes after an opening tag is read as children up to where none is, and then as the closing
tag. -/
theorem scanRead_openTag {n : Text} {as : List Attribute} {front : List CodeUnit}
    (isName : n.IsName) (spelled : SpellsAttributes front as) (body : List CodeUnit) :
    scanRead (limit + 1) (tagStartUnits n front ++ 0x3E :: body) =
      Scanned.andThen (scanRepeat (scanRead limit) body) fun cs rest =>
        Scanned.andThen ((closeTag n : Parser Values Text).scan (grammar.scanCall limit) rest)
          fun _ left => .ok (.success (node n as cs) (left.dropWhile isSpace)) := by
  have hspace : NoneAhead isSpace (tagStartUnits n front ++ 0x3E :: body) :=
    noneAhead_cons.mpr (by decide)
  -- the tag is not that of an element without children
  have hmark : ¬ (Text.ofString "/>").toList <+: 0x3E :: body := by
    rw [toList_slashGreater, List.cons_prefix_cons]
    rintro ⟨hslash, -⟩
    exact absurd hslash (by decide)
  have hsingle : (singleElement : Parser Values Element).scan (grammar.scanCall limit)
      (tagStartUnits n front ++ 0x3E :: body) = .ok (.failure (0x3E :: body)) :=
    scan_tagWith_of_absent _ isName spelled (noneAhead_cons.mpr (by decide))
      (noneAhead_cons.mpr (by decide)) hmark
  have hopen : (openTag : Parser Values Element).scan (grammar.scanCall limit)
      (tagStartUnits n front ++ 0x3E :: body) = .ok (.success (node n as []) body) := by
    apply (scan_tagWith_eq_success _ toList_greater (by decide) (by decide)).mpr
    refine ⟨n, as, front, rfl, isName, spelled, ?_⟩
    rw [toList_greater]
    rfl
  have hrule : (Parser.rule () : Parser Values Element).scan (grammar.scanCall limit) =
      scanRead limit := rfl
  change (element (.rule ())).scan (grammar.scanCall limit) _ = _
  rw [element, Parser.scan_spaced, hspace.dropWhile, Parser.scan_orElse, hsingle,
    Scanned.orElse_failure, parentElement, Parser.scan_bind, hopen, Scanned.andThen_success,
    Parser.scan_map, Parser.scan_seqLeft, Parser.scan_many, hrule]
  cases scanRepeat (scanRead limit) body using Scanned.cases with
  | error fault => rfl
  | failure left => rfl
  | success cs rest =>
      simp only [Scanned.andThen_success, name]
      cases (closeTag n : Parser Values Text).scan (grammar.scanCall limit) rest
        using Scanned.cases <;> rfl

/-- An element is exhausted with one activation more if what follows its opening tag is. -/
theorem scanRead_openTag_of_exhausted {n : Text} {as : List Attribute} {front body : List CodeUnit}
    (isName : n.IsName) (spelled : SpellsAttributes front as)
    (h : scanRead limit body = .error .exhausted) :
    scanRead (limit + 1) (tagStartUnits n front ++ 0x3E :: body) = .error .exhausted := by
  rw [scanRead_openTag isName spelled, scanRepeat_of_error h]
  rfl

/-- So many opening tags of the name `a` in a row. -/
def openings (count : Nat) : Text :=
  .replicate count "<a>"

/-- As many opening tags in a row as elements may be open at once exhaust the reading. -/
theorem read_openings (limit : Nat) : read limit (openings limit) 0 = .error .exhausted := by
  have isName : Text.IsName "a" := ⟨0x61, [], by decide, by decide, nofun⟩
  have htag : (Text.ofString "<a>").toList = tagStartUnits "a" [] ++ [0x3E] := by decide
  have hunits (count : Nat) : (openings (count + 1)).toList =
      tagStartUnits "a" [] ++ 0x3E :: (openings count).toList := by
    rw [openings, Text.replicate, Text.toList_join, List.replicate_succ, List.flatMap_cons,
      ← Text.toList_join, htag]
    rfl
  have hscan : scanRead limit (openings limit).toList = .error .exhausted := by
    induction limit with
    | zero => rfl
    | succ limit ih =>
        rw [hunits]
        exact scanRead_openTag_of_exhausted isName .nil ih
  calc read limit (openings limit) 0
      _ = (scanRead limit ((openings limit).toList.drop 0)).outcome (openings limit).size :=
        read_eq_scanRead limit (Nat.zero_le _)
      _ = .error .exhausted := by
        rw [List.drop_zero, hscan]
        rfl

end Depth

end Element

end TagMarkup
