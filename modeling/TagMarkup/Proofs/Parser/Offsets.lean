import TagMarkup.Proofs.Parser.Position

/-!
# Offsets never go back and never leave the text

A parser started anywhere, be it before the beginning of the text or past its end, stops no earlier
than it was started, and not past the end of the text unless it was started there. This holds of
successes and of failures, whatever the functions in the parser do, and for the rules of every
grammar.

## Implementation notes

`Outcome.Ahead` is the invariant, with one lemma for each way to go on after a run. Because it holds
of every item, the test by which a repetition goes on is no more than that the item has moved
(`Parser.repeatFrom_of_ahead`).
-/

namespace TagMarkup

namespace Text

variable {t : Text} {p : Int}

/-- There is a unit only inside the text. -/
theorem inside_of_at? {u : CodeUnit} (h : t.at? p = some u) : 0 ≤ p ∧ p < t.size := by
  by_cases negative : p < 0
  · rw [at?_of_neg t negative] at h
    cases h
  · obtain ⟨n, rfl⟩ : ∃ n : Nat, p = n := Int.eq_ofNat_of_zero_le (Int.not_lt.mp negative)
    rw [at?_natCast] at h
    obtain ⟨inside, -⟩ := List.getElem?_eq_some_iff.mp h
    rw [length_toList] at inside
    omega

/-- A character takes up at least one unit and lies inside the text. -/
theorem inside_of_character? {c : Text} (h : t.character? p = some c) :
    1 ≤ c.size ∧ p + c.size ≤ t.size := by
  obtain ⟨u, hu, hc⟩ := Option.map_eq_some_iff.mp h
  have hfirst := inside_of_at? hu
  have hone : (singleton u).size = 1 := rfl
  split at hc
  · next v hv =>
    have hsecond := inside_of_at? hv
    split at hc
    · cases hc
      have htwo : Text.size ⟨#[u, v]⟩ = 2 := rfl
      omega
    · cases hc
      omega
  · cases hc
    omega

/-- A run of units ends inside the text if it begins there. -/
theorem runEnd_le (cls : CodeUnit → Bool) {start : Nat} (inside : start ≤ t.size) :
    start ≤ t.runEnd cls start ∧ t.runEnd cls start ≤ t.size := by
  have hrun := (List.takeWhile_prefix cls (l := t.toList.drop start)).length_le
  rw [List.length_drop, length_toList] at hrun
  rw [runEnd_eq]
  omega

end Text

namespace Outcome

variable {α β : Type} {text : Text} {p q : Int}

/-- The run has not gone back behind its start, and not past the end of the text, unless it was
started there. -/
def Ahead (text : Text) (p : Int) (x : Outcome α) : Prop :=
  ∀ result, x = .ok result → p ≤ result.offset ∧ result.offset ≤ Parser.bound text p

theorem ahead_error (fault : Fault) : Ahead text p (.error fault : Outcome α) := by
  intro result h
  cases h

theorem ahead_ok {result : Result α} :
    Ahead text p (.ok result) ↔ p ≤ result.offset ∧ result.offset ≤ Parser.bound text p := by
  constructor
  · intro h
    exact h result rfl
  · rintro h _ ⟨⟩
    exact h

theorem le_bound (text : Text) (p : Int) : p ≤ Parser.bound text p :=
  Int.le_max_left p text.size

/-- A run that stops where it was started. -/
theorem ahead_failure : Ahead text p (.ok (.failure p) : Outcome α) :=
  ahead_ok.mpr ⟨Int.le_refl p, le_bound text p⟩

/-- The end of the text is no farther away from where a run has stopped. -/
theorem bound_le_bound (inside : q ≤ Parser.bound text p) :
    Parser.bound text q ≤ Parser.bound text p := by
  simp only [Parser.bound] at inside ⊢
  omega

/-- What is ahead of a place farther on is ahead of the place itself. -/
theorem Ahead.of_le {x : Outcome α} (h : Ahead text q x) (le : p ≤ q)
    (inside : q ≤ Parser.bound text p) : Ahead text p x := by
  intro result hx
  obtain ⟨hle, hinside⟩ := h result hx
  exact ⟨Int.le_trans le hle, Int.le_trans hinside (bound_le_bound inside)⟩

/-- A sequence is ahead of its start if its second part is ahead of the end of the first. -/
theorem Ahead.andThen {x : Outcome α} {next : α → Int → Outcome β} (hx : Ahead text p x)
    (hnext : ∀ a q, p ≤ q → q ≤ Parser.bound text p → Ahead text q (next a q)) :
    Ahead text p (Outcome.andThen x next) := by
  rcases x with fault | ⟨a, q⟩ | q
  · exact ahead_error fault
  · obtain ⟨le, inside⟩ := hx _ rfl
    exact (hnext a q le inside).of_le le inside
  · exact ahead_ok.mpr (hx _ rfl)

/-- An alternative is ahead of its start if both parts are. -/
theorem Ahead.orElse {x : Outcome α} {next : Int → Outcome α} (hx : Ahead text p x)
    (hnext : ∀ q, Ahead text p (next q)) : Ahead text p (Outcome.orElse x next) := by
  rcases x with fault | ⟨a, q⟩ | q
  · exact ahead_error fault
  · exact ahead_ok.mpr (hx _ rfl)
  · exact hnext q

end Outcome

namespace Parser

open Outcome (Ahead)

variable {R : Type} {ρ : R → Type} {α : Type} {text : Text}

theorem ahead_readLiteral (expected : Text) (p : Int) :
    Ahead text p (.ok (readLiteral text expected p)) := by
  rw [readLiteral]
  split
  · next matched =>
    have hlength := ((Text.matchesAt_iff text expected p).mp matched).length_le
    rw [List.length_drop, Text.length_toList, Text.length_toList] at hlength
    apply Outcome.ahead_ok.mpr
    simp only [Result.offset, bound]
    omega
  · exact Outcome.ahead_failure

theorem ahead_readCharacter (p : Int) : Ahead text p (.ok (readCharacter text p)) := by
  rw [readCharacter]
  split
  · next c found =>
    have hinside := Text.inside_of_character? found
    apply Outcome.ahead_ok.mpr
    simp only [Result.offset, bound]
    omega
  · exact Outcome.ahead_failure

theorem ahead_readName (p : Int) : Ahead text p (.ok (readName text p)) := by
  rw [readName]
  split
  · next u found =>
    have hinside := Text.inside_of_at? found
    split
    · have hstart : p.toNat + 1 ≤ text.size := by omega
      have hstop := Text.runEnd_le CodeUnit.isNameUnit hstart
      apply Outcome.ahead_ok.mpr
      simp only [Result.offset, bound]
      omega
    · exact Outcome.ahead_failure
  · exact Outcome.ahead_failure

section Repeat

variable {item : Int → Outcome α} (ahead : ∀ p, Ahead text p (item p))
include ahead

/-- Since no item goes back, a repetition goes on exactly if the item has moved. -/
theorem repeatFrom_of_ahead {last cur : Int} (inside : bound text cur ≤ last) (read : List α) :
    repeatFrom (m := Except Fault) item last read cur =
      match item cur with
      | .error fault => .error fault
      | .ok (.failure _) => .ok (.success read.reverse cur)
      | .ok (.success a next) =>
        if next = cur then .ok (.success read.reverse cur)
        else repeatFrom (m := Except Fault) item last (a :: read) next := by
  rw [repeatFrom_eq]
  rcases hitem : item cur with fault | ⟨a, next⟩ | q
  · rfl
  · obtain ⟨hle, hnext⟩ : cur ≤ next ∧ next ≤ bound text cur := ahead cur _ hitem
    by_cases stays : next = cur
    · have rests : ¬ (cur < next ∧ next ≤ last) := by omega
      simp only [if_pos stays, if_neg rests]
    · have moves : cur < next ∧ next ≤ last := by omega
      simp only [if_neg stays, if_pos moves]
  · rfl

theorem ahead_repeatFrom {last cur : Int} (inside : bound text cur ≤ last) (read : List α) :
    Ahead text cur (repeatFrom (m := Except Fault) item last read cur) := by
  have stop : Ahead text cur (.ok (.success read.reverse cur)) :=
    Outcome.ahead_ok.mpr ⟨Int.le_refl cur, Outcome.le_bound text cur⟩
  rw [repeatFrom_of_ahead ahead inside]
  rcases hitem : item cur with fault | ⟨a, next⟩ | q
  · exact Outcome.ahead_error fault
  · obtain ⟨hle, hnext⟩ : cur ≤ next ∧ next ≤ bound text cur := ahead cur _ hitem
    by_cases stays : next = cur
    · simpa only [if_pos stays] using stop
    · have inside' : bound text next ≤ last :=
        Int.le_trans (Outcome.bound_le_bound hnext) inside
      simp only [if_neg stays]
      exact (ahead_repeatFrom inside' (a :: read)).of_le hle hnext
  · exact stop
termination_by (last - cur).toNat
decreasing_by
  have hcur := Outcome.le_bound text cur
  omega

end Repeat

/-- A parser stops ahead of its start, provided that the rules do. -/
theorem ahead_run {call : (r : R) → Int → Outcome (ρ r)}
    (hcall : ∀ r p, Ahead text p (call r p)) (parser : Parser ρ α) (p : Int) :
    Ahead text p (parser.run call text p) := by
  induction parser generalizing p with
  | literal expected => exact ahead_readLiteral expected p
  | character => exact ahead_readCharacter p
  | name => exact ahead_readName p
  | raise fault => exact Outcome.ahead_error fault
  | rule r => exact hcall r p
  | transform f inner ih =>
      rw [run_transform]
      apply (ih p).andThen
      intro a q _ _
      cases f a with
      | ok b => exact Outcome.ahead_ok.mpr ⟨Int.le_refl q, Outcome.le_bound text q⟩
      | error fault => exact Outcome.ahead_error fault
  | filter test inner ih =>
      -- a refused value sends the run back to its start, but not behind it
      rw [run_filter]
      rcases hinner : inner.run call text p with fault | ⟨a, q⟩ | q
      · exact Outcome.ahead_error fault
      · rw [Outcome.andThen_success]
        cases test a with
        | ok accepted =>
            cases accepted with
            | true => exact Outcome.ahead_ok.mpr (ih p _ hinner)
            | false => exact Outcome.ahead_failure
        | error fault => exact Outcome.ahead_error fault
      · exact Outcome.ahead_ok.mpr (ih p _ hinner)
  | attempt inner ih =>
      rw [run_attempt]
      exact (ih p).orElse fun _ => Outcome.ahead_failure
  | seq first second ih₁ ih₂ =>
      rw [run_seq]
      apply (ih₁ p).andThen
      intro a q _ _
      apply (ih₂ q).andThen
      intro b q' _ _
      exact Outcome.ahead_ok.mpr ⟨Int.le_refl q', Outcome.le_bound text q'⟩
  | bind first next ih₁ ih₂ =>
      rw [run_bind]
      apply (ih₁ p).andThen
      intro a q _ _
      exact ih₂ a q
  | orElse first second ih₁ ih₂ =>
      rw [run_orElse]
      exact (ih₁ p).orElse fun _ => ih₂ p
  | many item ih =>
      rw [run_many]
      exact ahead_repeatFrom ih (Int.le_refl _) []
  | many1 item ih =>
      rw [run_many1]
      apply ((ih p).orElse fun _ => Outcome.ahead_failure).andThen
      intro a q _ _
      exact ahead_repeatFrom ih (Int.le_refl _) [a]

end Parser

namespace Grammar

open Outcome (Ahead)

variable {R : Type} {ρ : R → Type} {α : Type}

theorem ahead_call (g : Grammar ρ) (text : Text) (limit : Nat) (r : R) (p : Int) :
    Ahead text p (g.call text limit r p) := by
  induction limit generalizing r p with
  | zero => exact Outcome.ahead_error .exhausted
  | succ limit ih => exact Parser.ahead_run ih (g r) p

/-- With the rules of a grammar, every run stops ahead of its start. -/
theorem ahead_run (g : Grammar ρ) (limit : Nat) (parser : Parser ρ α) (text : Text) (p : Int) :
    Ahead text p (g.run limit parser text p) :=
  Parser.ahead_run (g.ahead_call text limit) parser p

end Grammar

end TagMarkup
