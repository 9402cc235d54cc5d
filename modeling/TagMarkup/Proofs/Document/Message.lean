import TagMarkup.Proofs.Document.Rejections
import TagMarkup.Proofs.Text.Numeral
import TagMarkup.Proofs.Text.Quoted

/-!
# What the message of a rejection quotes

The message of a rejection ends with the first units that were left of the text, as a JSON string,
and with dots if that is not all of them; where nothing was left it says so. The quotation gives the
units back whatever they are, also where it ends between the halves of a surrogate pair. Nothing but
the caller's own name of a reason can make a message ill formed or put control characters into it.
-/

namespace TagMarkup

namespace CodeUnit

/-- Well-formed units without control characters. -/
def Printable (us : List CodeUnit) : Prop :=
  wellFormed us = true ∧ ∀ u ∈ us, 0x20 ≤ u

section Printable

variable {u : CodeUnit} {us vs : List CodeUnit}

/-- Graphic units in front make no difference. -/
theorem printable_append_of_all (h : us.all isGraphic = true) :
    Printable (us ++ vs) ↔ Printable vs := by
  have graphic : ∀ u ∈ us, isGraphic u = true := List.all_eq_true.mp h
  have plain : ∀ u ∈ us, isSurrogate u = false :=
    fun u hu => isSurrogate_of_isGraphic (graphic u hu)
  have notControl : ∀ u ∈ us, 0x20 ≤ u := fun u hu => le_of_isGraphic (graphic u hu)
  rw [Printable, Printable, wellFormed_append_of_plain plain, List.forall_mem_append]
  exact and_congr_right fun _ => and_iff_right notControl

/-- Units on both sides of a graphic unit are printable each for themselves. -/
theorem printable_append_cons (hu : isGraphic u = true) :
    Printable (us ++ u :: vs) ↔ Printable us ∧ Printable vs := by
  have notControl := le_of_isGraphic hu
  rw [Printable, Printable, Printable, wellFormed_append_cons (isSurrogate_of_isGraphic hu),
    Bool.and_eq_true, List.forall_mem_append, List.forall_mem_cons]
  tauto

theorem printable_of_all (h : us.all isGraphic = true) : Printable us := by
  have hnil : Printable [] := ⟨rfl, nofun⟩
  rw [← List.append_nil us]
  exact (printable_append_of_all h).mpr hnil

theorem printable_encode (us : List CodeUnit) : Printable (Quoted.encode us) :=
  ⟨Quoted.wellFormed_encode us, (Quoted.denotes_encode us).le_of_mem⟩

theorem all_isGraphic_numeral (i : Int) : (numeral i).all isGraphic = true := by
  rw [List.all_eq_true]
  intro u h
  have hu := isNumeral_of_mem h
  simp only [isNumeral, isDigit, Bool.or_eq_true, Bool.and_eq_true, decide_eq_true_eq,
    beq_iff_eq] at hu
  obtain ⟨hle, hge⟩ | rfl := hu
  · rw [isGraphic_iff]
    simp only [UInt16.le_iff_toNat_le, UInt16.lt_iff_toNat_lt, UInt16.reduceToNat] at hle hge ⊢
    omega
  · decide

end Printable

end CodeUnit

namespace Reason

open CodeUnit (Printable)

/-- The names of the library's own reasons are printable. -/
theorem printable_name_iff (reason : Reason) :
    Printable reason.name.toList ↔ ∀ name, reason = .other name → Printable name.toList := by
  cases reason with
  | other name =>
      constructor
      · rintro h _ ⟨⟩
        exact h
      · intro h
        exact h name rfl
  | unexpectedInput => exact iff_of_true (CodeUnit.printable_of_all (by decide)) nofun
  | trailingInput => exact iff_of_true (CodeUnit.printable_of_all (by decide)) nofun
  | recursionLimit => exact iff_of_true (CodeUnit.printable_of_all (by decide)) nofun

end Reason

namespace Rejection

open CodeUnit (Printable)

/-- The units of a text that a message quotes from an offset on, when it may quote so many. -/
def quotedUnits (text : Text) (pos : Nat) (snippet : Int) : List CodeUnit :=
  (text.toList.drop pos).take (min (max snippet 0).toNat (text.size - pos))

/-- What stands between quotation marks, and what follows them, quote a text from an offset on. -/
structure Quotes (text : Text) (pos : Nat) (snippet : Int) (body dots : Text) : Prop where
  /-- The quotation is a JSON string for the units. -/
  denotes : Quoted.Denotes body.toList (quotedUnits text pos snippet)
  /-- It is read as these units. -/
  unquoted : body.unquoted? = some (.ofList (quotedUnits text pos snippet))
  /-- Dots follow it if some of the units that were left are not quoted. -/
  dots_eq : dots = if (quotedUnits text pos snippet).length < text.size - pos then
    Text.ofString "..." else Text.empty
  /-- With the dots it takes up at most six units for each that may be quoted, and five. -/
  size_le : ((("\"" : Text) ++ body ++ ("\"" : Text) ++ dots).size : Int) ≤ 6 * max snippet 0 + 5

/-- What a message says at its end about the text that was left at an offset. -/
structure Tells (text : Text) (pos : Nat) (snippet : Int) (tail : Text) : Prop where
  /-- It says so where the text is at its end, and only there. -/
  eq_endOfInput_iff : tail = "end of input" ↔ pos = text.size
  /-- Elsewhere it quotes what was left. -/
  exists_quotes : pos < text.size → ∃ body dots : Text,
    tail = ("\"" : Text) ++ body ++ ("\"" : Text) ++ dots ∧ Quotes text pos snippet body dots

section Describe

variable {text : Text} {pos : Nat}

/-- The units are the first of those that are left, if there are so many. -/
theorem quotedUnits_eq (text : Text) (pos : Nat) (snippet : Int) :
    quotedUnits text pos snippet = (text.toList.drop pos).take snippet.toNat := by
  have hlength : (text.toList.drop pos).length = text.size - pos := by
    rw [List.length_drop, Text.length_toList]
  have hsnippet : (max snippet 0).toNat = snippet.toNat := by omega
  rw [quotedUnits, hsnippet, ← hlength, ← List.take_eq_take_min]

theorem length_quotedUnits_le (text : Text) (pos : Nat) (snippet : Int) :
    ((quotedUnits text pos snippet).length : Int) ≤ max snippet 0 := by
  rw [quotedUnits, List.length_take]
  omega

/-- A text that is left is described by the JSON string of its first units. -/
theorem describe_eq_quoted (inside : pos < text.size) (snippet : Int) :
    describe (text.suffixFrom pos) snippet =
      (Text.ofList (quotedUnits text pos snippet)).quoted ++
        if (quotedUnits text pos snippet).length < text.size - pos then Text.ofString "..."
        else Text.empty := by
  have hleft : (text.suffixFrom pos).toList = text.toList.drop pos :=
    Text.toList_suffixFrom_natCast (Nat.le_of_lt inside)
  have hsize : (text.suffixFrom pos).size = text.size - pos := by
    rw [← Text.length_toList, hleft, List.length_drop, Text.length_toList]
  have hquoted : (text.suffixFrom pos).take snippet.toNat =
      Text.ofList (quotedUnits text pos snippet) := by
    rw [← Text.toList_inj, Text.toList_take, hleft, Text.toList_ofList, quotedUnits_eq]
  have hlength : (Text.ofList (quotedUnits text pos snippet)).size =
      (quotedUnits text pos snippet).length := by
    rw [← Text.length_toList, Text.toList_ofList]
  have hsome : ¬ (text.suffixFrom pos).isEmpty = true := by
    rw [Text.isEmpty, hsize, beq_iff_eq]
    omega
  rw [describe, if_neg hsome, hquoted]
  simp only [hlength, hsize]
  split
  · rfl
  · rw [← Text.toList_inj, Text.toList_append, Text.toList_empty, List.append_nil]

theorem describe_of_end (snippet : Int) :
    describe (text.suffixFrom text.size) snippet = "end of input" := by
  have hnone : (text.suffixFrom text.size).isEmpty = true := by
    rw [Text.isEmpty, beq_iff_eq, ← Text.length_toList,
      Text.toList_suffixFrom_natCast (Nat.le_refl _), List.length_drop, Text.length_toList,
      Nat.sub_self]
  rw [describe, if_pos hnone]

end Describe

section Message

variable {text : Text} {pos : Nat}

theorem quoted_eq (us : List CodeUnit) :
    (Text.ofList us).quoted = ("\"" : Text) ++ Text.ofList (Quoted.encode us) ++ ("\"" : Text) := by
  rw [← Text.toList_inj, Text.toList_quoted, Text.toList_append, Text.toList_append,
    Element.toList_quote]
  rfl

theorem quotes_encode (text : Text) (pos : Nat) (snippet : Int) :
    Quotes text pos snippet (.ofList (Quoted.encode (quotedUnits text pos snippet)))
      (if (quotedUnits text pos snippet).length < text.size - pos then Text.ofString "..."
        else Text.empty) := by
  have denotes := Quoted.denotes_encode (quotedUnits text pos snippet)
  refine ⟨denotes, ?_, rfl, ?_⟩
  · rw [Text.unquoted?, Text.toList_ofList, Quoted.decodeOnto?_of_denotes denotes, Option.map_some]
    simp [Text.ofList]
  · have hbody := denotes.length_le
    have hquoted := length_quotedUnits_le text pos snippet
    have hdots : (Text.ofString "...").toList.length = 3 := by decide
    rw [← Text.length_toList, Text.toList_append, Text.toList_append, Text.toList_append,
      Text.toList_ofList, Element.toList_quote]
    simp only [List.length_append, List.length_singleton]
    split
    · omega
    · rw [Text.toList_empty, List.length_nil]
      omega

theorem tells_describe (inside : pos ≤ text.size) (snippet : Int) :
    Tells text pos snippet (describe (text.suffixFrom pos) snippet) := by
  obtain rfl | hlt := Nat.eq_or_lt_of_le inside
  · rw [describe_of_end]
    exact ⟨iff_of_true rfl rfl, fun h => absurd h (Nat.lt_irrefl _)⟩
  · rw [describe_eq_quoted hlt, quoted_eq]
    refine ⟨?_, fun _ => ⟨_, _, rfl, quotes_encode text pos snippet⟩⟩
    -- The first unit of a quotation tells it from the words.
    refine iff_of_false ?_ (Nat.ne_of_lt hlt)
    intro h
    have hfirst := congrArg (fun t => t.toList.head?) h
    simp only [Text.toList_append, Element.toList_quote, List.cons_append, List.head?_cons]
      at hfirst
    exact absurd hfirst (by decide)

theorem printable_describe (inside : pos ≤ text.size) (snippet : Int) :
    Printable (describe (text.suffixFrom pos) snippet).toList := by
  obtain rfl | hlt := Nat.eq_or_lt_of_le inside
  · rw [describe_of_end]
    exact CodeUnit.printable_of_all (by decide)
  · have hquote : ([0x22] : List CodeUnit).all CodeUnit.isGraphic = true := by decide
    have hdots : Printable (if (quotedUnits text pos snippet).length < text.size - pos then
        Text.ofString "..." else Text.empty).toList := by
      split
      · exact CodeUnit.printable_of_all (by decide)
      · exact CodeUnit.printable_of_all rfl
    rw [describe_eq_quoted hlt, Text.toList_append, Text.toList_quoted, List.append_assoc,
      List.singleton_append]
    exact (CodeUnit.printable_append_of_all hquote).mpr
      ((CodeUnit.printable_append_cons (by decide)).mpr ⟨CodeUnit.printable_encode _, hdots⟩)

/-- Nothing but the name of its reason can make a message unprintable. -/
theorem printable_message_iff (inside : pos ≤ text.size) (reason : Reason) (snippet : Int) :
    Printable (ofText text pos reason snippet).message.toList ↔ Printable reason.name.toList := by
  have hfront : (Text.ofString "Parse error (").toList.all CodeUnit.isGraphic = true := by decide
  have hoffset : (Text.ofString ") at offset ").toList =
      0x29 :: (Text.ofString " at offset ").toList := by decide
  have hbehind : ((Text.ofString " at offset ").toList ++ CodeUnit.numeral pos ++
      (Text.ofString ": ").toList).all CodeUnit.isGraphic = true := by
    rw [List.all_append, List.all_append, CodeUnit.all_isGraphic_numeral]
    decide
  have hunits : (ofText text pos reason snippet).message.toList =
      (Text.ofString "Parse error (").toList ++ (reason.name.toList ++
        0x29 :: (((Text.ofString " at offset ").toList ++ CodeUnit.numeral pos ++
          (Text.ofString ": ").toList) ++
            (describe (text.suffixFrom pos) snippet).toList)) := by
    simp only [ofText, messageAt, Text.toList_append, Text.toList_ofString_append, hoffset,
      CodeUnit.numeral, List.append_assoc, List.cons_append]
  rw [hunits, CodeUnit.printable_append_of_all hfront, CodeUnit.printable_append_cons (by decide),
    CodeUnit.printable_append_of_all hbehind]
  exact and_iff_left (printable_describe inside snippet)

/-- The message of a rejection quotes what was left of the text, unit by unit, whatever the units
are and wherever the quotation ends, and is printable as far as its reason is. -/
theorem message_quotes_remaining (text : Text) {pos : Nat} (inside : pos ≤ text.size)
    (reason : Reason) (snippet : Int) :
    (∃ tail : Text,
      (ofText text pos reason snippet).message =
        ("Parse error (" : Text) ++ reason.name ++
          Text.ofString (") at offset " ++ toString pos ++ ": ") ++ tail ∧
      Tells text pos snippet tail) ∧
    (Printable (ofText text pos reason snippet).message.toList ↔
      ∀ name, reason = .other name → Printable name.toList) := by
  refine ⟨⟨describe (text.suffixFrom pos) snippet, ?_, tells_describe inside snippet⟩, ?_⟩
  · have hoffset : toString (pos : Int) = toString pos := rfl
    rw [ofText, messageAt, hoffset]
  · rw [printable_message_iff inside, Reason.printable_name_iff]

/-- A quotation mark, a line feed and one half of the pair behind them are quoted. -/
theorem message_quotes_remaining_halfPair :
    1 ≤ (⟨#[0x41, 0x22, 0x0A, 0xD83D, 0xDE00]⟩ : Text).size ∧
      (ofText ⟨#[0x41, 0x22, 0x0A, 0xD83D, 0xDE00]⟩ (1 : Nat) .unexpectedInput 3).message =
        "Parse error (unexpected-input) at offset 1: \"\\\"\\n\\ud83d\"..." ∧
      Printable
        (ofText ⟨#[0x41, 0x22, 0x0A, 0xD83D, 0xDE00]⟩ (1 : Nat) .unexpectedInput 3).message.toList ∧
      ∃ body dots : Text,
        Quotes ⟨#[0x41, 0x22, 0x0A, 0xD83D, 0xDE00]⟩ 1 3 body dots ∧
        body.unquoted? = some ⟨#[0x22, 0x0A, 0xD83D]⟩ ∧ dots = "..." := by
  have inside : 1 ≤ (⟨#[0x41, 0x22, 0x0A, 0xD83D, 0xDE00]⟩ : Text).size := by decide
  obtain ⟨⟨tail, -, tells⟩, printable⟩ :=
    message_quotes_remaining _ inside .unexpectedInput 3
  obtain ⟨body, dots, -, quotes⟩ := tells.exists_quotes (by decide)
  refine ⟨inside, by decide, printable.mpr nofun, body, dots, quotes, quotes.unquoted, ?_⟩
  rw [quotes.dots_eq]
  decide

end Message

end Rejection

end TagMarkup
