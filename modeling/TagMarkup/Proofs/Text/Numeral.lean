import Mathlib
import TagMarkup.Proofs.Text.Stretch

/-!
# Numerals

A number is written with decimal digits, behind a minus sign if it is negative. Its numeral
determines it, also at the end of a longer list of units: the numeral goes as far back as there are
digits and minus signs.
-/

namespace TagMarkup

namespace CodeUnit

/-- A unit of a numeral: a digit or a minus sign. -/
def isNumeral (u : CodeUnit) : Bool :=
  isDigit u || u == 0x2D

/-- The units of a number in decimal digits. -/
def numeral (i : Int) : List CodeUnit :=
  (Text.ofString (toString i)).toList

end CodeUnit

namespace Text

theorem toList_ofString_append (s t : String) :
    (ofString (s ++ t)).toList = (ofString s).toList ++ (ofString t).toList := by
  simp [ofString]

/-- A character within ASCII is one unit. -/
theorem encodeChar_of_lt {c : Char} (ascii : c.toNat < 128) :
    encodeChar c = [c.toNat.toUInt16] := by
  rw [encodeChar, if_pos (by omega)]

theorem toNat_toUInt16_of_lt {c : Char} (ascii : c.toNat < 128) :
    c.toNat.toUInt16.toNat = c.toNat := by
  rw [Nat.toUInt16, UInt16.toNat_ofNat', Nat.mod_eq_of_lt (by omega)]

/-- Characters within ASCII are told by their units. -/
theorem map_flatMap_encodeChar {cs : List Char} (ascii : ∀ c ∈ cs, c.toNat < 128) :
    (cs.flatMap encodeChar).map (fun u => Char.ofNat u.toNat) = cs := by
  induction cs with
  | nil => rfl
  | cons c cs ih =>
      obtain ⟨hc, hcs⟩ := List.forall_mem_cons.mp ascii
      rw [List.flatMap_cons, List.map_append, ih hcs, encodeChar_of_lt hc, List.map_singleton,
        toNat_toUInt16_of_lt hc, Char.ofNat_toNat, List.singleton_append]

end Text

namespace CodeUnit

theorem isDigit_of_mem_repr {n : Nat} {c : Char} (h : c ∈ (Nat.repr n).toList) :
    c.isDigit = true := by
  rw [Nat.toList_repr] at h
  exact Nat.isDigit_of_mem_toDigits (by decide) (by decide) h

/-- A number is written with digits and a minus sign. -/
theorem isDigit_or_eq_of_mem_toString {i : Int} {c : Char} (h : c ∈ (toString i).toList) :
    c.isDigit = true ∨ c = '-' := by
  rw [Int.toString_eq_repr, Int.repr_eq_if] at h
  split at h
  · exact .inl (isDigit_of_mem_repr h)
  · rw [String.toList_append] at h
    rcases List.mem_append.mp h with h | h
    · exact .inr (List.mem_singleton.mp h)
    · exact .inl (isDigit_of_mem_repr h)

theorem toNat_lt_of_mem_toString {i : Int} {c : Char} (h : c ∈ (toString i).toList) :
    c.toNat < 128 := by
  rcases isDigit_or_eq_of_mem_toString h with digit | rfl
  · have hle : c.toNat ≤ 57 := (Char.isDigit_iff_toNat.mp digit).2
    omega
  · decide

theorem numeral_injective : Function.Injective numeral := by
  intro i j h
  have hchars := congrArg (List.map fun u => Char.ofNat u.toNat) h
  simp only [numeral, Text.ofString, Text.toList_ofList] at hchars
  rw [Text.map_flatMap_encodeChar fun _ => toNat_lt_of_mem_toString,
    Text.map_flatMap_encodeChar fun _ => toNat_lt_of_mem_toString, String.toList_inj,
    Int.toString_eq_repr, Int.toString_eq_repr] at hchars
  exact Int.repr_injective hchars

theorem isNumeral_of_mem {i : Int} {u : CodeUnit} (h : u ∈ numeral i) : isNumeral u = true := by
  rw [numeral, Text.ofString, Text.toList_ofList, List.mem_flatMap] at h
  obtain ⟨c, hc, hu⟩ := h
  rw [Text.encodeChar_of_lt (toNat_lt_of_mem_toString hc), List.mem_singleton] at hu
  subst hu
  rcases isDigit_or_eq_of_mem_toString hc with digit | rfl
  · have hrange : 48 ≤ c.toNat ∧ c.toNat ≤ 57 := Char.isDigit_iff_toNat.mp digit
    have hunit := Text.toNat_toUInt16_of_lt (toNat_lt_of_mem_toString hc)
    simp only [isNumeral, isDigit, Bool.or_eq_true, Bool.and_eq_true, decide_eq_true_eq,
      UInt16.le_iff_toNat_le, hunit, UInt16.reduceToNat]
    exact .inl hrange
  · decide

/-- What stands behind the last unit outside of a class is told by the whole. -/
theorem append_cons_inj {cls : CodeUnit → Bool} {front front' back back' : List CodeUnit}
    {u : CodeUnit} (hu : cls u = false) (hback : ∀ v ∈ back, cls v = true)
    (hback' : ∀ v ∈ back', cls v = true) (h : front ++ u :: back = front' ++ u :: back') :
    front = front' ∧ back = back' := by
  have hreverse := congrArg (fun us => us.reverse.takeWhile cls) h
  simp only [List.reverse_append, List.reverse_cons, List.append_assoc, List.singleton_append]
    at hreverse
  rw [takeWhile_append_eq (by simpa using hback) (noneAhead_cons.mpr hu),
    takeWhile_append_eq (by simpa using hback') (noneAhead_cons.mpr hu), List.reverse_inj]
    at hreverse
  subst hreverse
  exact ⟨List.append_cancel_right h, rfl⟩

/-- A numeral at the end is told by the whole, if no numeral unit stands in front of it. -/
theorem append_numeral_inj {front front' : List CodeUnit} {u : CodeUnit} {i j : Int}
    (hu : isNumeral u = false) (h : front ++ u :: numeral i = front' ++ u :: numeral j) :
    front = front' ∧ i = j := by
  obtain ⟨hfront, hnumeral⟩ :=
    append_cons_inj hu (fun _ => isNumeral_of_mem) (fun _ => isNumeral_of_mem) h
  exact ⟨hfront, numeral_injective hnumeral⟩

theorem toList_toString (n : Nat) : (Text.ofString (toString n)).toList = numeral n := by
  rw [numeral, Int.toString_eq_repr, Int.repr_eq_if, if_pos (Int.natCast_nonneg n),
    Int.toNat_natCast, Nat.toString_eq_repr]

end CodeUnit

end TagMarkup
