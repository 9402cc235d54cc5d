import TagMarkup.Proofs.Document.EntryPoints
import TagMarkup.Proofs.Parser.Offsets

/-!
# Rejections point into the text

What is left after a run that was started inside a text is an end of what was left before, and a
rejection names a place of the text, its end included, together with the units from there on. This
holds of the readings of whole texts by every parser and of documents. A rejection that a function
in a parser has raised is not one of theirs.
-/

namespace TagMarkup

namespace Rejection

/-- The rejection names a place of the text, and what it says was left are the units from there
on. -/
def PointsInto (text : Text) (r : Rejection) : Prop :=
  ∃ n : Nat, n ≤ text.size ∧ r.offset = n ∧ r.remaining.toList = text.toList.drop n

end Rejection

namespace Text

variable {t : Text} {n : Nat}

theorem toList_suffixFrom_natCast (inside : n ≤ t.size) :
    (t.suffixFrom n).toList = t.toList.drop n := by
  have hcut : t.cut n = n := by
    rw [cut, if_neg (by omega)]
    omega
  rw [toList_suffixFrom, hcut]

/-- A rejection of the text at a place inside points there. -/
theorem pointsInto_ofText {q : Int} (le : 0 ≤ q) (inside : q ≤ t.size) (reason : Reason)
    (snippet : Int) : (Rejection.ofText t q reason snippet).PointsInto t := by
  obtain ⟨n, rfl⟩ := Int.eq_ofNat_of_zero_le le
  have hn : n ≤ t.size := by omega
  exact ⟨n, hn, rfl, toList_suffixFrom_natCast hn⟩

end Text

/-- The bounds of a run that begins with the text. -/
theorem Outcome.Ahead.inside {α : Type} {text : Text} {x : Outcome α} (h : x.Ahead text 0)
    {result : Result α} (hx : x = .ok result) : 0 ≤ result.offset ∧ result.offset ≤ text.size := by
  have hresult := h result hx
  simp only [Parser.bound] at hresult
  omega

/-- The rejections that the reading of a whole text makes itself point into the text. -/
theorem pointsInto_of_wholeValue {α : Type} {text : Text} {x : Outcome α} (ahead : x.Ahead text 0)
    {r : Rejection} (h : wholeValue text x = .error (.rejected r))
    (own : x ≠ .error (.rejected r)) : r.PointsInto text := by
  rcases x with fault | ⟨a, q⟩ | q
  · rw [wholeValue] at h
    split at h
    · cases h
      exact Text.pointsInto_ofText (Int.le_refl 0) (Int.natCast_nonneg _) _ _
    · cases h
      exact absurd rfl own
  · obtain ⟨le, inside⟩ : 0 ≤ q ∧ q ≤ text.size := ahead.inside rfl
    rw [wholeValue] at h
    split at h
    · cases h
    · cases h
      exact Text.pointsInto_ofText le inside _ _
  · obtain ⟨le, inside⟩ : 0 ≤ q ∧ q ≤ text.size := ahead.inside rfl
    cases h
    exact Text.pointsInto_ofText le inside _ _

/-- A verdict that rejects a text does so at a place inside. -/
theorem Verdict.inside_of_ofOutcome {text : Text} {policy : TrailingPolicy} {x : Outcome Element}
    (ahead : x.Ahead text 0) {reason : Reason} {offset : Int}
    (h : ofOutcome text policy x = .rejected reason offset) :
    0 ≤ offset ∧ offset ≤ text.size := by
  rcases x with fault | ⟨e, q⟩ | q
  · cases h
    exact ⟨Int.le_refl 0, Int.natCast_nonneg _⟩
  · have hinside : 0 ≤ q ∧ q ≤ text.size := ahead.inside rfl
    rw [ofOutcome] at h
    split at h
    · cases h
      exact hinside
    · cases h
  · have hinside : 0 ≤ q ∧ q ≤ text.size := ahead.inside rfl
    cases h
    exact hinside

/-- The rejections of documents point into the text. -/
theorem Reading.pointsInto_of_document {host : Host} {text : Text}
    {trailing : Option TrailingPolicy} {s : Session} {r : Rejection}
    (h : (document host text trailing).outcome s = .error (.fault (.rejected r))) :
    r.PointsInto text := by
  cases hforce : s.inForce host with
  | error e =>
      rw [outcome, (needs_document text trailing).run_of_error hforce] at h
      cases h
  | ok config =>
      have hrejects :
          Rejects ((document host text trailing).outcome s) r.reason r.offset r.remaining :=
        ⟨r, h, rfl, rfl, rfl⟩
      rw [outcome_document_of_ok hforce, Verdict.rejects_value_iff] at hrejects
      obtain ⟨hverdict, hremaining⟩ := hrejects
      have ahead := Element.grammar.ahead_run host.limit Element.root text 0
      obtain ⟨le, inside⟩ := Verdict.inside_of_ofOutcome ahead hverdict
      obtain ⟨n, hn⟩ := Int.eq_ofNat_of_zero_le le
      have hle : n ≤ text.size := by omega
      refine ⟨n, hle, hn, ?_⟩
      rw [hremaining, hn]
      exact Text.toList_suffixFrom_natCast hle

namespace Grammar

variable {R : Type} {ρ : R → Type} {α : Type}

/-- The runs of a parser in a text stay between their start and the end of the text. -/
structure StaysInside (g : Grammar ρ) (limit : Nat) (parser : Parser ρ α) (text : Text) :
    Prop where
  /-- No offset lies before the start, and none past the end unless the start does. -/
  between (p : Int) (result : Result α) : g.run limit parser text p = .ok result →
    p ≤ result.offset ∧ result.offset ≤ max p text.size
  /-- What is left of the text is an end of what was left at the start. -/
  left_suffix (k : Nat) (result : Result α) : k ≤ text.size →
    g.run limit parser text k = .ok result →
      (text.suffixFrom result.offset).toList <:+ (text.suffixFrom k).toList
  /-- A rejection of the whole text points into it, unless a function in the parser raised it. -/
  whole (r : Rejection) : g.runWhole limit parser text = .error (.rejected r) →
    g.run limit parser text 0 ≠ .error (.rejected r) → r.PointsInto text

theorem left_suffix_of_run (g : Grammar ρ) {limit : Nat} {parser : Parser ρ α} {text : Text}
    {k : Nat} {result : Result α} (inside : k ≤ text.size)
    (h : g.run limit parser text k = .ok result) :
    (text.suffixFrom result.offset).toList <:+ (text.suffixFrom k).toList := by
  have hresult := g.ahead_run limit parser text k result h
  simp only [Parser.bound] at hresult
  obtain ⟨n, hn⟩ : ∃ n : Nat, result.offset = n := Int.eq_ofNat_of_zero_le (by omega)
  rw [hn, Text.toList_suffixFrom_natCast (by omega), Text.toList_suffixFrom_natCast inside]
  obtain ⟨d, rfl⟩ : ∃ d, n = k + d := Nat.exists_eq_add_of_le (by omega)
  rw [← List.drop_drop]
  exact List.drop_suffix d _

/-- Offsets never go back and never leave the text, whatever the parser and wherever it is started,
and neither do the places that rejections of whole texts and documents name. -/
theorem staysInside_and_pointsInto (g : Grammar ρ) (limit : Nat) (parser : Parser ρ α)
    (text : Text) :
    g.StaysInside limit parser text ∧
      ∀ (host : Host) (s : Session) (trailing : Option TrailingPolicy) (r : Rejection),
        (Reading.document host text trailing).outcome s = .error (.fault (.rejected r)) →
          r.PointsInto text := by
  constructor
  · refine ⟨?_, ?_, ?_⟩
    · intro p result h
      exact g.ahead_run limit parser text p result h
    · intro k result inside h
      exact g.left_suffix_of_run inside h
    · intro r h own
      exact pointsInto_of_wholeValue (g.ahead_run limit parser text 0) h own
  · intro host s trailing r h
    exact Reading.pointsInto_of_document h

/-- A letter that is looked for before the beginning of a text is found at its beginning, and none
is found past the end; a whole text and a document are rejected where they go on too long. -/
theorem staysInside_and_pointsInto_outside :
    (Element.grammar.run 1 (.literal "a") "ab" (-3) = .ok (.success () (-2)) ∧
      (-3 : Int) ≤ -2 ∧ (-2 : Int) ≤ max (-3) 2) ∧
    (Element.grammar.run 1 (.literal "a") "ab" 9 = .ok (.failure 9) ∧
      (9 : Int) ≤ 9 ∧ (9 : Int) ≤ max 9 2) ∧
    (Element.grammar.runWhole 1 (.literal "a") "ab" =
        .error (.rejected (.ofText "ab" 1 .trailingInput 20)) ∧
      (Rejection.ofText "ab" 1 .trailingInput 20).PointsInto "ab") ∧
    (Reading.document (JsonFiles.host 9) "<a/>b" none).outcome .start =
        .error (.fault (.rejected (.ofText "<a/>b" 4 .trailingInput 20))) ∧
      (Rejection.ofText "<a/>b" 4 .trailingInput 20).PointsInto "<a/>b" := by
  have inside : Element.grammar.StaysInside 1 (.literal "a") "ab" :=
    (staysInside_and_pointsInto Element.grammar 1 (.literal "a") "ab").1
  have before : Element.grammar.run 1 (.literal "a") "ab" (-3) = .ok (.success () (-2)) := by
    decide
  have past : Element.grammar.run 1 (.literal "a") "ab" 9 = .ok (.failure 9) := by decide
  have hwhole : Element.grammar.runWhole 1 (.literal "a") "ab" =
      .error (.rejected (.ofText "ab" 1 .trailingInput 20)) := rfl
  have own : Element.grammar.run 1 (.literal "a") "ab" 0 ≠
      .error (.rejected (.ofText "ab" 1 .trailingInput 20)) := by
    have hrun : Element.grammar.run 1 (.literal "a") "ab" 0 = .ok (.success () 1) := by decide
    rw [hrun]
    nofun
  have isName : Text.IsName "a" := ⟨0x61, [], by decide, by decide, nofun⟩
  have noSpaces : Element.IsSpaces [] := nofun
  have hread : Element.read 9 "<a/>b" 0 = .ok (.success (.node "a" [] []) 4) := by
    apply Element.read_of_spelledBetween _ (by decide)
    refine ⟨by decide, by decide, Element.Spells.single noSpaces noSpaces isName .nil, ?_⟩
    intro u hu
    cases hu
    decide
  have hdocument : (Reading.document (JsonFiles.host 9) "<a/>b" none).outcome .start =
      .error (.fault (.rejected (.ofText "<a/>b" 4 .trailingInput 20))) := by
    have computed : Session.start.inForce (JsonFiles.host 9) = .ok .defaults := rfl
    rw [Reading.outcome_document_of_ok computed, Verdict.onDocument, JsonFiles.limit_host, hread]
    rfl
  have points := (staysInside_and_pointsInto Element.grammar 1 (.literal "a") "<a/>b").2
  exact ⟨⟨before, inside.between _ _ before⟩, ⟨past, inside.between _ _ past⟩,
    ⟨hwhole, inside.whole _ hwhole own⟩, hdocument, points _ .start none _ hdocument⟩

end Grammar

end TagMarkup
