import TagMarkup.Proofs.Document.EntryPoints
import TagMarkup.Proofs.Text.Numeral

/-!
# Reports in the log

A logged line reports that a document was parsed, naming its root element, or that a text was
rejected, naming the reason; in both cases it gives the offset where reading stopped. The words of a
line determine what it reports, see `Report.words_injective`, and the line for a verdict reports
that verdict.

## Implementation notes

A name or a reason may hold any units, those of the words around it among them. A line is therefore
taken apart from its end, where the numbers are.
-/

namespace TagMarkup

/-- What a logged line reports. -/
inductive Report where
  /-- The root element of that name was read up to the offset in a text of that length. -/
  | parsed (name : Text) (offset : Int) (length : Nat)
  /-- The text was rejected for the reason of that name at the offset. -/
  | rejected (reason : Text) (offset : Int)

namespace Report

/-- The report in words. -/
def words : Report → Text
  | parsed name offset length =>
    ("parsed <" : Text) ++ name ++
      Text.ofString ("> (" ++ toString offset ++ " of " ++ toString length ++ " characters)")
  | rejected reason offset =>
    ("rejected document (" : Text) ++ reason ++
      Text.ofString (") at offset " ++ toString offset)

end Report

namespace Report

open CodeUnit

theorem toList_words_parsed (name : Text) (offset : Int) (length : Nat) :
    (parsed name offset length).words.toList =
      (Text.ofString "parsed <").toList ++ name.toList ++ (Text.ofString "> ").toList ++
        0x28 :: numeral offset ++ (Text.ofString " of").toList ++ 0x20 :: numeral length ++
          (Text.ofString " characters)").toList := by
  have hopen : (Text.ofString "> (").toList = (Text.ofString "> ").toList ++ [0x28] := by decide
  have hof : (Text.ofString " of ").toList = (Text.ofString " of").toList ++ [0x20] := by decide
  simp only [words, Text.toList_append, Text.toList_ofString_append, hopen, hof,
    toList_toString, List.append_assoc, List.cons_append, List.nil_append, numeral]

theorem toList_words_rejected (reason : Text) (offset : Int) :
    (rejected reason offset).words.toList =
      (Text.ofString "rejected document (").toList ++ reason.toList ++
        (Text.ofString ") at offset").toList ++ 0x20 :: numeral offset := by
  have hat : (Text.ofString ") at offset ").toList =
      (Text.ofString ") at offset").toList ++ [0x20] := by decide
  simp only [words, Text.toList_append, Text.toList_ofString_append, hat, List.append_assoc,
    List.singleton_append, numeral]

/-- No report of a parsed document reads like that of a rejected one. -/
theorem words_parsed_ne_words_rejected (name reason : Text) (offset offset' : Int)
    (length : Nat) : (parsed name offset length).words ≠ (rejected reason offset').words := by
  intro h
  have hhead := congrArg (fun t : Text => t.toList.head?) h
  have hparsed : (Text.ofString "parsed <").toList.head? = some 0x70 := by decide
  have hrejected : (Text.ofString "rejected document (").toList.head? = some 0x72 := by decide
  simp only [words, Text.toList_append, List.append_assoc, List.head?_append, hparsed, hrejected,
    Option.some_or] at hhead
  exact absurd hhead (by decide)

/-- The words of a line determine what it reports. -/
theorem words_injective : Function.Injective words := by
  intro r r' h
  cases r with
  | parsed name offset length =>
      cases r' with
      | parsed name' offset' length' =>
          have hunits := congrArg Text.toList h
          rw [toList_words_parsed, toList_words_parsed] at hunits
          obtain ⟨htoLength, hlength⟩ :=
            append_numeral_inj (by decide) (List.append_cancel_right hunits)
          obtain ⟨htoOffset, hoffset⟩ :=
            append_numeral_inj (by decide) (List.append_cancel_right htoLength)
          have hname := List.append_cancel_left (List.append_cancel_right htoOffset)
          rw [Text.toList_inj.mp hname, hoffset, Int.ofNat_inj.mp hlength]
      | rejected reason offset' =>
          exact absurd h (words_parsed_ne_words_rejected _ _ _ _ _)
  | rejected reason offset =>
      cases r' with
      | parsed name offset' length =>
          exact absurd h.symm (words_parsed_ne_words_rejected _ _ _ _ _)
      | rejected reason' offset' =>
          have hunits := congrArg Text.toList h
          rw [toList_words_rejected, toList_words_rejected] at hunits
          obtain ⟨htoOffset, hoffset⟩ := append_numeral_inj (by decide) hunits
          have hreason := List.append_cancel_left (List.append_cancel_right htoOffset)
          rw [Text.toList_inj.mp hreason, hoffset]

end Report

namespace Verdict

variable {text : Text} {v : Verdict}

/-- What the line for a verdict reports. -/
def report (text : Text) : Verdict → Report
  | accepted e q => .parsed e.name q text.size
  | rejected reason q => .rejected reason.name q

theorem line_eq_words (v : Verdict) (text : Text) : v.line text = (v.report text).words := by
  cases v with
  | accepted e q => rfl
  | rejected reason q => rfl

theorem line_eq_words_iff {r : Report} : v.line text = r.words ↔ v.report text = r := by
  rw [line_eq_words]
  exact Report.words_injective.eq_iff

/-- The line for a verdict reports a parsed document exactly if the verdict accepts it. -/
theorem line_eq_parsed_iff {name : Text} {offset : Int} {length : Nat} :
    v.line text = (Report.parsed name offset length).words ↔
      ∃ e, v = .accepted e offset ∧ e.name = name ∧ length = text.size := by
  rw [line_eq_words_iff]
  cases v with
  | accepted e q =>
      constructor
      · rintro ⟨⟩
        exact ⟨e, rfl, rfl, rfl⟩
      · rintro ⟨_, ⟨⟩, rfl, rfl⟩
        rfl
  | rejected reason q =>
      constructor
      · rintro ⟨⟩
      · rintro ⟨_, ⟨⟩, -⟩

/-- The line for a verdict reports a rejected document exactly if the verdict rejects it. -/
theorem line_eq_rejected_iff {reason : Text} {offset : Int} :
    v.line text = (Report.rejected reason offset).words ↔
      ∃ r : Reason, v = .rejected r offset ∧ r.name = reason := by
  rw [line_eq_words_iff]
  cases v with
  | accepted e q =>
      constructor
      · rintro ⟨⟩
      · rintro ⟨_, ⟨⟩, -⟩
  | rejected r q =>
      constructor
      · rintro ⟨⟩
        exact ⟨r, rfl, rfl⟩
      · rintro ⟨_, ⟨⟩, rfl⟩
        rfl

/-- An accepted element is spelled up to the offset of the verdict, and that is the end of the text
where trailing input is an error. -/
theorem spelledBetween_of_onDocument {limit : Nat} {policy : TrailingPolicy} {e : Element} {q : Int}
    (h : onDocument limit text policy = .accepted e q) :
    ∃ stop : Nat, q = stop ∧ Element.SpelledBetween text 0 stop e ∧
      (policy = .error → stop = text.size) := by
  rw [onDocument] at h
  rcases hread : Element.read limit text 0 with fault | ⟨e', q'⟩ | q'
  · rw [hread] at h
    cases h
  · rw [hread, ofOutcome] at h
    split at h
    · cases h
    · next complete =>
      cases h
      obtain ⟨stop, rfl, spelled⟩ :=
        Element.spelledBetween_of_read (Nat.zero_le text.size) hread
      refine ⟨stop, rfl, spelled, ?_⟩
      intro strict
      by_contra hne
      exact complete ⟨fun h => hne (Int.ofNat_inj.mp h), strict⟩
  · rw [hread] at h
    cases h

end Verdict

end TagMarkup
