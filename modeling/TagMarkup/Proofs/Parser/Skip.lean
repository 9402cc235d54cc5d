import Mathlib.Order.Bounds.Basic
import TagMarkup.Proofs.Parser.Repetition
import TagMarkup.Proofs.Text.Stretch

/-!
# White space around a parser

To skip the units of a class is to go on to the first offset at which none of them stands. A
repetition of characters of the class does this from every offset, in front of the text and past its
end as well, where it stays where it is.

A parser with white space around it therefore skips white space, does what the parser does from
there on, and skips again. Where white space has been skipped there is none left, so more of it
around the parser changes nothing.

## Implementation notes

`Text.skip` stops where `Text.runEnd` does, which counts from inside a text only. What it skips is a
chain of items in the sense of `Parser.Advances`, one for each unit.
-/

namespace TagMarkup

namespace Text

/-- No unit of the class stands at the offset: another unit does, or the offset lies outside. -/
def NoneAt (cls : CodeUnit → Bool) (t : Text) (p : Int) : Prop :=
  ∀ u, t.at? p = some u → cls u = false

/-- The first offset from `p` on at which no unit of the class stands. -/
def skip (cls : CodeUnit → Bool) (t : Text) (p : Int) : Int :=
  if p < 0 then p else t.runEnd cls p.toNat

section Skip

variable {cls : CodeUnit → Bool} {t : Text} {p : Int} {u : CodeUnit}

theorem noneAt_of_at?_eq_none (h : t.at? p = none) : t.NoneAt cls p := by
  intro u hu
  cases h.symm.trans hu

theorem noneAt_iff_of_at? (h : t.at? p = some u) : t.NoneAt cls p ↔ cls u = false := by
  constructor
  · exact fun none => none u h
  · rintro hu v hv
    cases h.symm.trans hv
    exact hu

theorem at?_of_lt {start : Nat} (h : start < t.units.size) :
    t.at? start = some t.units[start] := by
  rw [at?_natCast, ← List.head?_drop, drop_eq_cons h, List.head?_cons]

/-- Either no unit of a class stands at an offset, or the offset is that of one in the text. -/
theorem noneAt_or_exists (cls : CodeUnit → Bool) (t : Text) (p : Int) :
    t.NoneAt cls p ∨
      ∃ (start : Nat) (h : start < t.units.size), p = start ∧ cls t.units[start] = true := by
  cases hu : t.at? p with
  | none => exact .inl (noneAt_of_at?_eq_none hu)
  | some u =>
      obtain ⟨inside, hlt⟩ := inside_of_at? hu
      obtain ⟨start, rfl⟩ := Int.eq_ofNat_of_zero_le inside
      have h : start < t.units.size := Int.ofNat_lt.mp hlt
      cases hc : cls t.units[start] with
      | false => exact .inl ((noneAt_iff_of_at? (at?_of_lt h)).mpr hc)
      | true => exact .inr ⟨start, h, rfl, hc⟩

/-- Where no unit of a class stands, that is the first such offset already. -/
theorem isLeast_of_noneAt (h : t.NoneAt cls p) : IsLeast {q : Int | p ≤ q ∧ t.NoneAt cls q} p :=
  ⟨⟨Int.le_refl p, h⟩, fun _ hq => hq.1⟩

theorem skip_natCast (start : Nat) : t.skip cls start = t.runEnd cls start :=
  if_neg (Int.not_lt.mpr (Int.natCast_nonneg start))

/-- A run of units ends at the first offset at which there is none of its class. -/
theorem isLeast_runEnd (cls : CodeUnit → Bool) (t : Text) (start : Nat) :
    IsLeast {q : Int | start ≤ q ∧ t.NoneAt cls q} (t.runEnd cls start) := by
  fun_induction runEnd cls t start with
  | case1 start h hc ih =>
      -- a unit of the class stands at the start, so the first such offset lies behind it
      obtain ⟨⟨hle, none⟩, least⟩ := ih
      refine ⟨⟨by omega, none⟩, ?_⟩
      rintro q ⟨hq, hnone⟩
      obtain rfl | behind := Int.le_iff_eq_or_lt.mp hq
      · rw [noneAt_iff_of_at? (at?_of_lt h), hc] at hnone
        cases hnone
      · exact least ⟨by omega, hnone⟩
  | case2 start h hc =>
      exact isLeast_of_noneAt ((noneAt_iff_of_at? (at?_of_lt h)).mpr (Bool.eq_false_iff.mpr hc))
  | case3 start h =>
      apply isLeast_of_noneAt
      apply noneAt_of_at?_eq_none
      rw [at?_natCast]
      exact List.getElem?_eq_none (by simpa [toList] using h)

theorem isLeast_skip (cls : CodeUnit → Bool) (t : Text) (p : Int) :
    IsLeast {q : Int | p ≤ q ∧ t.NoneAt cls q} (t.skip cls p) := by
  obtain negative | inside := lt_or_ge p 0
  · rw [skip, if_pos negative]
    exact isLeast_of_noneAt (noneAt_of_at?_eq_none (at?_of_neg t negative))
  · obtain ⟨start, rfl⟩ := Int.eq_ofNat_of_zero_le inside
    rw [skip_natCast]
    exact isLeast_runEnd cls t start

theorem noneAt_skip (cls : CodeUnit → Bool) (t : Text) (p : Int) : t.NoneAt cls (t.skip cls p) :=
  (isLeast_skip cls t p).1.2

/-- Where there is nothing to skip, skipping stays. -/
theorem skip_of_noneAt (h : t.NoneAt cls p) : t.skip cls p = p :=
  (isLeast_skip cls t p).unique (isLeast_of_noneAt h)

@[simp] theorem skip_skip (cls : CodeUnit → Bool) (t : Text) (p : Int) :
    t.skip cls (t.skip cls p) = t.skip cls p :=
  skip_of_noneAt (noneAt_skip cls t p)

end Skip

end Text

namespace Parser

variable {R : Type} {ρ : R → Type} {cls : CodeUnit → Bool}

section OneUnit

variable (call : (r : R) → Int → Outcome (ρ r)) {text : Text} {p : Int} {u : CodeUnit}

/-- A unit of a class without surrogates is read as a character of its own. -/
theorem run_isOne_of_at? (plain : ∀ u, cls u = true → u.isHighSurrogate = false)
    (h : text.at? p = some u) (hu : cls u = true) :
    (character.satisfying (Text.isOne cls)).run call text p =
      .ok (.success (.singleton u) (p + 1)) := by
  have hchar : text.character? p = some (.singleton u) := by
    rw [Text.character?, h, Option.map_some]
    cases text.at? (p + 1) with
    | none => rfl
    | some v => simp [plain u hu]
  rw [run_satisfying, run_character, readCharacter, hchar, Outcome.andThen_success,
    Text.isOne_singleton, if_pos hu]
  rfl

/-- Where no unit of the class stands, its characters are not read. -/
theorem run_isOne_of_noneAt (h : text.NoneAt cls p) :
    (character.satisfying (Text.isOne cls)).run call text p = .ok (.failure p) := by
  rw [run_satisfying, run_character, readCharacter, Text.character?]
  cases hu : text.at? p with
  | none => rfl
  | some u =>
      have hone : Text.isOne cls (.singleton u) = false := by rw [Text.isOne_singleton, h u hu]
      cases text.at? (p + 1) with
      | none => simp [hone]
      | some v =>
          by_cases paired : (u.isHighSurrogate && v.isLowSurrogate) = true
          · simp only [Option.map_some, if_pos paired, Outcome.andThen_success]
            rfl
          · simp only [Option.map_some, if_neg paired, Outcome.andThen_success, hone]
            rfl

end OneUnit

end Parser

namespace Grammar

open CodeUnit TagMarkup.Parser

variable {R : Type} {ρ : R → Type} {α : Type} {cls : CodeUnit → Bool}

section Skip

variable (plain : ∀ u, cls u = true → u.isHighSurrogate = false) (g : Grammar ρ) (limit : Nat)
  (text : Text)
include plain

/-- The characters of a run of units follow one another up to its end. -/
theorem advances_runEnd (start : Nat) :
    Advances (g.run limit (character.satisfying (Text.isOne cls)) text) start
      (((text.toList.drop start).takeWhile cls).map .singleton) (text.runEnd cls start) := by
  fun_induction Text.runEnd cls text start with
  | case1 start h hc ih =>
      rw [Text.drop_eq_cons h, List.takeWhile_cons_of_pos hc, List.map_cons]
      exact .step (run_isOne_of_at? _ plain (Text.at?_of_lt h) hc) (Int.lt_succ _) ih
  | case2 start h hc =>
      rw [Text.drop_eq_cons h, List.takeWhile_cons_of_neg hc]
      exact .stay _
  | case3 start h =>
      rw [List.drop_eq_nil_of_le (by simpa [Text.toList] using h)]
      exact .stay _

theorem many_isOne_natCast (start : Nat) :
    g.run limit (character.satisfying (Text.isOne cls)).many text start =
      .ok (.success (((text.toList.drop start).takeWhile cls).map .singleton)
        (text.runEnd cls start)) := by
  have rests : Rests (g.run limit (character.satisfying (Text.isOne cls)) text)
      (text.runEnd cls start) :=
    .inl ⟨_, run_isOne_of_noneAt _ (Text.isLeast_runEnd cls text start).1.2⟩
  exact (g.many_eq_success_iff limit _ text start _ _).mpr
    ⟨g.advances_runEnd plain limit text start, rests⟩

/-- A repetition of characters of a class skips the units of the class. -/
theorem exists_many_isOne (p : Int) :
    ∃ cs, g.run limit (character.satisfying (Text.isOne cls)).many text p =
      .ok (.success cs (text.skip cls p)) := by
  obtain negative | inside := lt_or_ge p 0
  · have none : text.NoneAt cls p := Text.noneAt_of_at?_eq_none (text.at?_of_neg negative)
    refine ⟨[], ?_⟩
    rw [Text.skip_of_noneAt none, many_eq_success_iff]
    exact ⟨.stay p, .inl ⟨p, run_isOne_of_noneAt _ none⟩⟩
  · obtain ⟨start, rfl⟩ := Int.eq_ofNat_of_zero_le inside
    rw [Text.skip_natCast]
    exact ⟨_, g.many_isOne_natCast plain limit text start⟩

end Skip

section Spaced

variable (g : Grammar ρ) (limit : Nat) (parser : Parser ρ α) (text : Text) (start : Int)

theorem exists_run_spaces :
    ∃ cs, g.run limit spaces text start = .ok (.success cs (text.skip isSpace start)) :=
  g.exists_many_isOne (fun _ => isHighSurrogate_of_isSpace) limit text start

/-- A parser with white space around it runs where white space has been skipped, and white space is
skipped behind it. -/
theorem run_spaced :
    g.run limit parser.spaced text start =
      Outcome.andThen (g.run limit parser text (text.skip isSpace start)) fun a q =>
        .ok (.success a (text.skip isSpace q)) := by
  obtain ⟨front, hfront⟩ := g.exists_run_spaces limit text start
  rw [run] at hfront
  rw [run, spaced, run_seqRight, hfront, Outcome.andThen_success, run_seqLeft]
  congr 1
  funext a q
  obtain ⟨behind, hbehind⟩ := g.exists_run_spaces limit text q
  rw [run] at hbehind
  rw [hbehind, Outcome.andThen_success]

theorem run_spaced_spaced :
    g.run limit parser.spaced.spaced text start = g.run limit parser.spaced text start := by
  rw [run_spaced, run_spaced, Text.skip_skip, run_spaced]
  rcases g.run limit parser text (text.skip isSpace start) with fault | ⟨a, q⟩ | q
  · rfl
  · rw [Outcome.andThen_success, Outcome.andThen_success, Text.skip_skip]
  · rfl

/-- What a parser with white space around it comes to, given what the parser alone comes to. -/
structure StripsSpaces (g : Grammar ρ) (limit : Nat) (parser : Parser ρ α) (text : Text)
    (start : Int) : Prop where
  /-- Skipping white space leads to the first offset that lies outside the text or holds some other
  unit. -/
  isLeast_skip (p : Int) : IsLeast {q : Int | p ≤ q ∧ text.NoneAt isSpace q} (text.skip isSpace p)
  /-- It ends in a fault where the parser does that runs behind the white space. -/
  eq_error_iff (fault : Fault) : g.run limit parser.spaced text start = .error fault ↔
    g.run limit parser text (text.skip isSpace start) = .error fault
  /-- It fails where that parser fails. -/
  eq_failure_iff (q : Int) : g.run limit parser.spaced text start = .ok (.failure q) ↔
    g.run limit parser text (text.skip isSpace start) = .ok (.failure q)
  /-- It succeeds where that parser does, with the same value, and stops behind the white space
  there. -/
  eq_success_iff (a : α) (q : Int) : g.run limit parser.spaced text start = .ok (.success a q) ↔
    ∃ stop, g.run limit parser text (text.skip isSpace start) = .ok (.success a stop) ∧
      q = text.skip isSpace stop
  /-- White space around it once more makes no difference. -/
  spaced_eq : g.run limit parser.spaced.spaced text start = g.run limit parser.spaced text start

/-- White space around a parser is stripped, whatever the parser, the text and the start are. -/
theorem stripsSpaces (g : Grammar ρ) (limit : Nat) (parser : Parser ρ α) (text : Text)
    (start : Int) : g.StripsSpaces limit parser text start where
  isLeast_skip := text.isLeast_skip isSpace
  eq_error_iff fault := by
    rw [run_spaced]
    rcases g.run limit parser text (text.skip isSpace start) with _ | _ | _
    all_goals simp
  eq_failure_iff q := by
    rw [run_spaced]
    rcases g.run limit parser text (text.skip isSpace start) with _ | _ | _
    all_goals simp
  eq_success_iff a q := by
    rw [run_spaced]
    rcases g.run limit parser text (text.skip isSpace start) with _ | ⟨b, stop⟩ | _
    · simp
    · simp [eq_comm]
    · simp
  spaced_eq := g.run_spaced_spaced limit parser text start

end Spaced

end Grammar

end TagMarkup
