import Mathlib.Data.List.TakeWhile
import TagMarkup.Text.Character

/-!
# Stretches of units

A stretch is a run of units of one class at the front of a list. This module says when a list is
split behind the longest stretch, and how the classes of the markup lie to each other.
-/

namespace TagMarkup

namespace CodeUnit

theorem isNameUnit_of_isLetter {u : CodeUnit} (h : isLetter u = true) : isNameUnit u = true := by
  simp [isNameUnit, h]

theorem isSpace_of_isNameUnit {u : CodeUnit} (h : isNameUnit u = true) : isSpace u = false := by
  simp only [isSpace, isCommonSpace, isNameUnit, isLetter, isDigit, Bool.or_eq_true,
    Bool.and_eq_true, decide_eq_true_eq, beq_iff_eq, UInt16.le_iff_toNat_le, ← UInt16.toNat_inj,
    UInt16.reduceToNat, Bool.eq_false_iff, ne_eq] at h ⊢
  omega

theorem isNameUnit_of_isSpace {u : CodeUnit} (h : isSpace u = true) : isNameUnit u = false := by
  cases hn : isNameUnit u with
  | false => rfl
  | true => rw [isSpace_of_isNameUnit hn] at h; cases h

theorem isHighSurrogate_of_isSpace {u : CodeUnit} (h : isSpace u = true) :
    isHighSurrogate u = false := by
  simp only [isSpace, isCommonSpace, isHighSurrogate, Bool.or_eq_true, Bool.and_eq_true,
    decide_eq_true_eq, beq_iff_eq, UInt16.le_iff_toNat_le, ← UInt16.toNat_inj,
    UInt16.reduceToNat, Bool.eq_false_iff, ne_eq] at h ⊢
  omega

theorem isHighSurrogate_of_isNameUnit {u : CodeUnit} (h : isNameUnit u = true) :
    isHighSurrogate u = false := by
  simp only [isNameUnit, isLetter, isDigit, isHighSurrogate, Bool.or_eq_true, Bool.and_eq_true,
    decide_eq_true_eq, beq_iff_eq, UInt16.le_iff_toNat_le, ← UInt16.toNat_inj,
    UInt16.reduceToNat, Bool.eq_false_iff, ne_eq] at h ⊢
  omega

/-- No unit of the class stands in front. -/
def NoneAhead (cls : CodeUnit → Bool) (us : List CodeUnit) : Prop :=
  ∀ u ∈ us.head?, cls u = false

section NoneAhead

variable {cls : CodeUnit → Bool}

@[simp] theorem noneAhead_nil : NoneAhead cls [] := by
  intro u h
  cases h

@[simp] theorem noneAhead_cons {u : CodeUnit} {us : List CodeUnit} :
    NoneAhead cls (u :: us) ↔ cls u = false := by
  simp [NoneAhead]

theorem NoneAhead.takeWhile {us : List CodeUnit} (h : NoneAhead cls us) :
    us.takeWhile cls = [] := by
  cases us with
  | nil => rfl
  | cons u rest => exact List.takeWhile_cons_of_neg (by simpa using h)

theorem NoneAhead.dropWhile {us : List CodeUnit} (h : NoneAhead cls us) :
    us.dropWhile cls = us := by
  cases us with
  | nil => rfl
  | cons u rest => exact List.dropWhile_cons_of_neg (by simpa using h)

theorem noneAhead_dropWhile (us : List CodeUnit) : NoneAhead cls (us.dropWhile cls) := by
  induction us with
  | nil => exact noneAhead_nil
  | cons u rest ih =>
      by_cases h : cls u = true
      · rwa [List.dropWhile_cons_of_pos h]
      · rw [List.dropWhile_cons_of_neg h, noneAhead_cons]
        exact Bool.eq_false_iff.mpr h

/-- The longest stretch ends where no further unit of the class stands. -/
theorem takeWhile_append_eq {front rest : List CodeUnit} (hfront : ∀ u ∈ front, cls u = true)
    (hrest : NoneAhead cls rest) : (front ++ rest).takeWhile cls = front := by
  rw [List.takeWhile_append_of_pos hfront, hrest.takeWhile, List.append_nil]

theorem dropWhile_append_eq {front rest : List CodeUnit} (hfront : ∀ u ∈ front, cls u = true)
    (hrest : NoneAhead cls rest) : (front ++ rest).dropWhile cls = rest := by
  rw [List.dropWhile_append_of_pos hfront, hrest.dropWhile]

end NoneAhead

end CodeUnit

end TagMarkup
