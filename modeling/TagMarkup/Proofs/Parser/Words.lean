import TagMarkup.Element.Printer
import TagMarkup.Proofs.Parser.Scan
import TagMarkup.Proofs.Text.Stretch

/-!
# Reading white space and names

White space is read up to the first unit that is none, and a name up to the first unit that cannot
go on with it.
-/

namespace TagMarkup

namespace Parser

open CodeUnit

variable {R : Type} {ρ : R → Type} (call : (r : R) → List CodeUnit → Scanned (ρ r))

/-- A fixed text of one unit is read when that unit stands in front. -/
theorem scan_literal_cons {expected : Text} {m : CodeUnit} (h : expected.toList = [m])
    (u : CodeUnit) (us : List CodeUnit) :
    (literal expected : Parser ρ Unit).scan call (u :: us) =
      if u = m then .ok (.success () us) else .ok (.failure (u :: us)) := by
  by_cases hu : u = m
  · subst hu
    rw [if_pos rfl]
    have happend := scan_literal_append call expected us
    rwa [h] at happend
  · rw [if_neg hu]
    apply scan_literal_of_absent
    rw [h, List.cons_prefix_cons]
    exact fun hfront => hu hfront.1.symm

/-- The character in front is the first unit, with the second half of its pair if it has one. -/
theorem scanCharacter_cons (u : CodeUnit) (us : List CodeUnit) :
    ∃ c tail rest, scanCharacter (u :: us) = .success c rest ∧ c.toList = u :: tail ∧
      us = tail ++ rest ∧ ∀ v ∈ tail, v.isLowSurrogate = true := by
  cases us with
  | nil => exact ⟨.singleton u, [], [], rfl, rfl, rfl, nofun⟩
  | cons v rest =>
      by_cases paired : (u.isHighSurrogate && v.isLowSurrogate) = true
      · have hv : v.isLowSurrogate = true := (Bool.and_eq_true_iff.mp paired).2
        refine ⟨⟨#[u, v]⟩, [v], rest, ?_, rfl, rfl, ?_⟩
        · rw [scanCharacter, if_pos paired]
        · exact List.forall_mem_singleton.mpr hv
      · refine ⟨.singleton u, [], v :: rest, ?_, rfl, rfl, nofun⟩
        rw [scanCharacter, if_neg paired]

/-- A unit of a class without surrogates is a character of its own. -/
theorem scan_isOne_cons {cls : CodeUnit → Bool}
    (plain : ∀ u, cls u = true → u.isHighSurrogate = false) (u : CodeUnit)
    (us : List CodeUnit) :
    (character.satisfying (Text.isOne cls) : Parser ρ Text).scan call (u :: us) =
      if cls u then .ok (.success (.singleton u) us) else .ok (.failure (u :: us)) := by
  rw [scan_satisfying, scan]
  cases us with
  | nil => simp [scanCharacter]
  | cons v rest =>
      by_cases paired : (u.isHighSurrogate && v.isLowSurrogate) = true
      · have hcls : cls u = false := by
          cases hc : cls u with
          | false => rfl
          | true => simp [plain u hc] at paired
        simp [scanCharacter, paired, hcls, Text.isOne, Text.size]
      · simp [scanCharacter, paired]

theorem scanRepeat_isOne {cls : CodeUnit → Bool}
    (plain : ∀ u, cls u = true → u.isHighSurrogate = false) (us : List CodeUnit) :
    scanRepeat ((character.satisfying (Text.isOne cls) : Parser ρ Text).scan call) us =
      .ok (.success ((us.takeWhile cls).map .singleton) (us.dropWhile cls)) := by
  induction us with
  | nil => exact scanRepeat_of_failure rfl
  | cons u us ih =>
      have hitem := scan_isOne_cons call plain u us
      by_cases hc : cls u = true
      · rw [if_pos hc] at hitem
        rw [scanRepeat_of_success hitem (Nat.lt_succ_self _), ih, List.takeWhile_cons_of_pos hc,
          List.dropWhile_cons_of_pos hc]
        rfl
      · rw [if_neg hc] at hitem
        rw [scanRepeat_of_failure hitem, List.takeWhile_cons_of_neg hc,
          List.dropWhile_cons_of_neg hc]
        rfl

theorem scan_spaces (us : List CodeUnit) :
    (spaces : Parser ρ (List Text)).scan call us =
      .ok (.success ((us.takeWhile isSpace).map .singleton) (us.dropWhile isSpace)) :=
  scanRepeat_isOne call (fun _ => isHighSurrogate_of_isSpace) us

/-- Without white space in front there is nothing to read. -/
theorem scan_spaces1_of_noneAhead {us : List CodeUnit} (h : NoneAhead isSpace us) :
    (spaces1 : Parser ρ (List Text)).scan call us = .ok (.failure us) := by
  rw [spaces1, scan, space]
  cases us with
  | nil => rfl
  | cons u rest =>
      rw [scan_isOne_cons call (fun _ => isHighSurrogate_of_isSpace), noneAhead_cons.mp h]
      rfl

theorem scan_spaces1_cons {u : CodeUnit} (hu : isSpace u = true) (us : List CodeUnit) :
    (spaces1 : Parser ρ (List Text)).scan call (u :: us) =
      .ok (.success (.singleton u :: (us.takeWhile isSpace).map .singleton)
        (us.dropWhile isSpace)) := by
  rw [spaces1, scan, space, scan_isOne_cons call (fun _ => isHighSurrogate_of_isSpace), if_pos hu]
  simp only [Scanned.orElse_success, Scanned.andThen_success]
  rw [scanRepeat_isOne call (fun _ => isHighSurrogate_of_isSpace)]
  rfl

/-- White space is read as a whole. -/
theorem scan_spaces1_append {gap us : List CodeUnit} (spaces : ∀ u ∈ gap, isSpace u = true)
    (nonempty : gap ≠ []) (h : NoneAhead isSpace us) :
    ∃ ts, (spaces1 : Parser ρ (List Text)).scan call (gap ++ us) = .ok (.success ts us) := by
  cases gap with
  | nil => exact absurd rfl nonempty
  | cons u gap =>
      obtain ⟨hu, hgap⟩ := List.forall_mem_cons.mp spaces
      refine ⟨.singleton u :: ((gap ++ us).takeWhile isSpace).map .singleton, ?_⟩
      rw [List.cons_append, scan_spaces1_cons call hu, dropWhile_append_eq hgap h]

theorem eq_of_scan_spaces1 {us rest : List CodeUnit} {ts : List Text}
    (h : (spaces1 : Parser ρ (List Text)).scan call us = .ok (.success ts rest)) :
    ∃ gap, gap ≠ [] ∧ (∀ u ∈ gap, isSpace u = true) ∧ us = gap ++ rest := by
  cases us with
  | nil =>
      rw [scan_spaces1_of_noneAhead call noneAhead_nil] at h
      cases h
  | cons u us =>
      cases hu : isSpace u with
      | false =>
          rw [scan_spaces1_of_noneAhead call (noneAhead_cons.mpr hu)] at h
          cases h
      | true =>
          rw [scan_spaces1_cons call hu] at h
          cases h
          refine ⟨u :: us.takeWhile isSpace, List.cons_ne_nil _ _, ?_, ?_⟩
          · exact List.forall_mem_cons.mpr ⟨hu, fun v hv => List.mem_takeWhile_imp hv⟩
          · rw [List.cons_append, List.takeWhile_append_dropWhile]

/-- White space around a parser is taken off the units in front of it and off those it leaves. -/
theorem scan_spaced {α : Type} (parser : Parser ρ α) (us : List CodeUnit) :
    parser.spaced.scan call us =
      Scanned.andThen (parser.scan call (us.dropWhile isSpace)) fun a rest =>
        .ok (.success a (rest.dropWhile isSpace)) := by
  rw [spaced, scan_seqRight, scan_spaces, Scanned.andThen_success, scan_seqLeft]
  congr 1
  funext a rest
  rw [scan_spaces, Scanned.andThen_success]

/-- A name is read when it stands in front and cannot be any longer. -/
theorem scanName_eq_success {us rest : List CodeUnit} {n : Text} :
    scanName us = .success n rest ↔
      n.IsName ∧ NoneAhead isNameUnit rest ∧ us = n.toList ++ rest := by
  constructor
  · intro h
    cases us with
    | nil => cases h
    | cons u us =>
        rw [scanName] at h
        split at h
        · next letter =>
          cases h
          refine ⟨⟨u, us.takeWhile isNameUnit, rfl, letter, ?_⟩, noneAhead_dropWhile us, ?_⟩
          · exact fun v hv => List.mem_takeWhile_imp hv
          · rw [Text.toList_ofList, List.cons_append, List.takeWhile_append_dropWhile]
        · cases h
  · rintro ⟨⟨u, tail, hn, letter, htail⟩, hrest, rfl⟩
    rw [hn, List.cons_append, scanName, if_pos letter, takeWhile_append_eq htail hrest,
      dropWhile_append_eq htail hrest, ← hn, Text.ofList_toList]

end Parser

end TagMarkup
