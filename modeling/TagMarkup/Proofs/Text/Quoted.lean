import TagMarkup.Text.Quoted

/-!
# What JSON strings denote

Between the quotation marks of a JSON string stand units as they are and escapes, and together they
denote a sequence of units. `Quoted.Denotes` says which, apart from any procedure. What is written
for a sequence of units denotes it, and what denotes a sequence of units is read as that sequence.
Nothing written is longer than six units for each unit that it denotes, and nothing is ill formed or
holds a control character, whatever the units are that it is written for.
-/

namespace TagMarkup

namespace CodeUnit

/-- One half of a surrogate pair. -/
def isSurrogate (u : CodeUnit) : Bool :=
  u.isHighSurrogate || u.isLowSurrogate

theorem isSurrogate_of_lt {u : CodeUnit} (h : u < 0x80) : isSurrogate u = false := by
  simp only [isSurrogate, isHighSurrogate, isLowSurrogate, Bool.or_eq_false_iff,
    Bool.and_eq_false_iff, decide_eq_false_iff_not, UInt16.lt_iff_toNat_lt,
    UInt16.le_iff_toNat_le, UInt16.reduceToNat] at h ⊢
  omega

theorem lt_of_isSurrogate {u : CodeUnit} (h : isSurrogate u = true) : 0x5C < u := by
  simp only [isSurrogate, isHighSurrogate, isLowSurrogate, Bool.or_eq_true, Bool.and_eq_true,
    decide_eq_true_eq, UInt16.lt_iff_toNat_lt, UInt16.le_iff_toNat_le, UInt16.reduceToNat] at h ⊢
  omega

/-- A unit within ASCII that is no control character below the space. -/
def isGraphic (u : CodeUnit) : Bool :=
  0x20 ≤ u && u < 0x80

theorem isGraphic_iff {u : CodeUnit} : isGraphic u = true ↔ 0x20 ≤ u ∧ u < 0x80 := by
  simp [isGraphic]

theorem le_of_isGraphic {u : CodeUnit} (h : isGraphic u = true) : 0x20 ≤ u :=
  (isGraphic_iff.mp h).1

theorem isSurrogate_of_isGraphic {u : CodeUnit} (h : isGraphic u = true) : isSurrogate u = false :=
  isSurrogate_of_lt (isGraphic_iff.mp h).2

section WellFormed

variable {u : CodeUnit} {us vs : List CodeUnit}

/-- A unit that is no surrogate makes no difference to those behind it. -/
theorem wellFormed_cons (plain : isSurrogate u = false) :
    wellFormed (u :: us) = wellFormed us := by
  obtain ⟨high, low⟩ := Bool.or_eq_false_iff.mp plain
  cases us with
  | nil => simp [wellFormed, high, low]
  | cons v rest => simp [wellFormed, high, low]

theorem wellFormed_append_of_plain (plain : ∀ u ∈ us, isSurrogate u = false) :
    wellFormed (us ++ vs) = wellFormed vs := by
  induction us with
  | nil => rfl
  | cons u us ih =>
      obtain ⟨hu, hus⟩ := List.forall_mem_cons.mp plain
      rw [List.cons_append, wellFormed_cons hu, ih hus]

/-- No pair has its halves on both sides of a unit that is no surrogate. -/
theorem wellFormed_append_cons (plain : isSurrogate u = false) :
    wellFormed (us ++ u :: vs) = (wellFormed us && wellFormed vs) := by
  obtain ⟨high, low⟩ := Bool.or_eq_false_iff.mp plain
  fun_induction wellFormed us with
  | case1 => rw [List.nil_append, wellFormed_cons plain, Bool.true_and]
  | case2 v =>
      rw [List.singleton_append, wellFormed, wellFormed_cons plain, low]
      cases v.isHighSurrogate <;> simp
  | case3 v w rest hv ih =>
      rw [List.cons_append, List.cons_append, wellFormed, if_pos hv, ih, Bool.and_assoc]
  | case4 v w rest hv ih =>
      rw [List.cons_append] at ih
      rw [List.cons_append, List.cons_append, wellFormed, if_neg hv, ih, Bool.and_assoc]

end WellFormed

end CodeUnit

namespace Quoted

open CodeUnit

/-- The letters that name a unit behind a backslash, with the units that they name. -/
def namedUnits : List (CodeUnit × CodeUnit) :=
  [(0x22, 0x22), (0x5C, 0x5C), (0x2F, 0x2F), (0x62, 0x08), (0x66, 0x0C), (0x6E, 0x0A),
    (0x72, 0x0D), (0x74, 0x09)]

/-- The unit is the hexadecimal digit of the number, in letters of either case. -/
def IsHexDigit (n : Nat) (u : CodeUnit) : Prop :=
  (Text.ofString "0123456789abcdef").toList[n]? = some u ∨
    (Text.ofString "0123456789ABCDEF").toList[n]? = some u

/-- What stands between the quotation marks of a JSON string denotes the units. -/
inductive Denotes : List CodeUnit → List CodeUnit → Prop where
  /-- Nothing denotes no units. -/
  | nil : Denotes [] []
  /-- A unit denotes itself, unless it is a control character, a quotation mark or a backslash. -/
  | plain {u : CodeUnit} {body us : List CodeUnit} (notControl : 0x20 ≤ u) (notQuote : u ≠ 0x22)
      (notBackslash : u ≠ 0x5C) (others : Denotes body us) : Denotes (u :: body) (u :: us)
  /-- A letter behind a backslash denotes the unit that it names. -/
  | named {letter u : CodeUnit} {body us : List CodeUnit} (named : (letter, u) ∈ namedUnits)
      (others : Denotes body us) : Denotes (0x5C :: letter :: body) (u :: us)
  /-- Four hexadecimal digits behind a backslash and a `u` denote the unit of that number. -/
  | numbered {i j k l : Nat} {a b c d : CodeUnit} {body us : List CodeUnit}
      (first : IsHexDigit i a) (second : IsHexDigit j b) (third : IsHexDigit k c)
      (fourth : IsHexDigit l d) (others : Denotes body us) :
      Denotes (0x5C :: 0x75 :: a :: b :: c :: d :: body)
        (UInt16.ofNat (16 * (16 * (16 * i + j) + k) + l) :: us)

section Digits

theorem hexValue?_of_isHexDigit {n : Nat} {u : CodeUnit} (h : IsHexDigit n u) :
    n < 16 ∧ hexValue? u = some (UInt16.ofNat n) := by
  have lower : ∀ n < 16, (Text.ofString "0123456789abcdef").toList[n]?.bind hexValue? =
      some (UInt16.ofNat n) := by decide
  have upper : ∀ n < 16, (Text.ofString "0123456789ABCDEF").toList[n]?.bind hexValue? =
      some (UInt16.ofNat n) := by decide
  obtain h | h := h
  · have hn : n < 16 := (List.getElem?_eq_some_iff.mp h).1
    have hvalue := lower n hn
    rw [h] at hvalue
    exact ⟨hn, hvalue⟩
  · have hn : n < 16 := (List.getElem?_eq_some_iff.mp h).1
    have hvalue := upper n hn
    rw [h] at hvalue
    exact ⟨hn, hvalue⟩

theorem isHexDigit_hexDigit {u : CodeUnit} (h : u.toNat < 16) :
    IsHexDigit u.toNat (hexDigit u) := by
  have lower : ∀ n < 16, (Text.ofString "0123456789abcdef").toList[n]? =
      some (hexDigit (UInt16.ofNat n)) := by decide
  have hu := lower u.toNat h
  rw [UInt16.ofNat_toNat] at hu
  exact .inl hu

theorem longValue?_of_isHexDigit {i j k l : Nat} {a b c d : CodeUnit} (first : IsHexDigit i a)
    (second : IsHexDigit j b) (third : IsHexDigit k c) (fourth : IsHexDigit l d) :
    longValue? a b c d = some (UInt16.ofNat (16 * (16 * (16 * i + j) + k) + l)) := by
  obtain ⟨hi, ha⟩ := hexValue?_of_isHexDigit first
  obtain ⟨hj, hb⟩ := hexValue?_of_isHexDigit second
  obtain ⟨hk, hc⟩ := hexValue?_of_isHexDigit third
  obtain ⟨hl, hd⟩ := hexValue?_of_isHexDigit fourth
  simp only [longValue?, ha, hb, hc, hd, Option.bind_eq_bind, Option.bind_some, Option.pure_def,
    Option.some.injEq, ← UInt16.toNat_inj, UInt16.toNat_add, UInt16.toNat_shiftLeft,
    UInt16.toNat_ofNat', UInt16.reduceToNat, Nat.shiftLeft_eq, Nat.reduceMod, Nat.reducePow]
  omega

/-- The number of a unit is that of its four digits. -/
theorem ofNat_digits (u : CodeUnit) :
    UInt16.ofNat (16 * (16 * (16 * (u >>> 12).toNat + (u >>> 8 &&& 0xF).toNat) +
      (u >>> 4 &&& 0xF).toNat) + (u &&& 0xF).toNat) = u := by
  have hlow (n : Nat) : n &&& 15 = n % 16 := Nat.and_two_pow_sub_one_eq_mod n 4
  have hu := u.toNat_lt
  simp only [← UInt16.toNat_inj, UInt16.toNat_ofNat', UInt16.toNat_shiftRight, UInt16.toNat_and,
    UInt16.reduceToNat, Nat.shiftRight_eq_div_pow, hlow, Nat.reduceMod, Nat.reducePow]
  omega

theorem toNat_and_lt (u : CodeUnit) : (u &&& 0xF).toNat < 16 := by
  rw [UInt16.toNat_and]
  exact Nat.lt_of_le_of_lt Nat.and_le_right (by decide)

theorem toNat_shiftRight_lt (u : CodeUnit) : (u >>> 12).toNat < 16 := by
  have hu := u.toNat_lt
  simp only [UInt16.toNat_shiftRight, UInt16.reduceToNat, Nat.shiftRight_eq_div_pow,
    Nat.reduceMod, Nat.reducePow]
  omega

end Digits

section Written

/-- What stands one behind the other denotes units one behind the other. -/
theorem Denotes.append {body body' us us' : List CodeUnit} (h : Denotes body us)
    (h' : Denotes body' us') : Denotes (body ++ body') (us ++ us') := by
  induction h with
  | nil => exact h'
  | plain notControl notQuote notBackslash _ ih =>
      exact .plain notControl notQuote notBackslash ih
  | named named _ ih => exact .named named ih
  | numbered first second third fourth _ ih => exact .numbered first second third fourth ih

/-- A unit beyond the backslash denotes itself. -/
theorem Denotes.beyond {u : CodeUnit} (h : 0x5C < u) {body us : List CodeUnit}
    (others : Denotes body us) : Denotes (u :: body) (u :: us) := by
  refine .plain ?_ ?_ ?_ others
  · simp only [UInt16.lt_iff_toNat_lt, UInt16.le_iff_toNat_le, UInt16.reduceToNat] at h ⊢
    omega
  · rintro rfl
    exact absurd h (by decide)
  · rintro rfl
    exact absurd h (by decide)

theorem denotes_longEscape (u : CodeUnit) : Denotes (longEscape u) [u] := by
  have h : Denotes (longEscape u) [UInt16.ofNat _] :=
    .numbered (isHexDigit_hexDigit (toNat_shiftRight_lt u))
      (isHexDigit_hexDigit (toNat_and_lt (u >>> 8))) (isHexDigit_hexDigit (toNat_and_lt (u >>> 4)))
      (isHexDigit_hexDigit (toNat_and_lt u)) .nil
  rwa [ofNat_digits] at h

/-- What a unit has a short escape for, the letter of the escape names. -/
theorem mem_namedUnits_of_lookup {u letter : CodeUnit}
    (h : shortEscapes.lookup u = some letter) : (letter, u) ∈ namedUnits := by
  obtain ⟨before, behind, hsplit, -⟩ := List.lookup_eq_some_iff.mp h
  have hmem : (u, letter) ∈ shortEscapes := by
    rw [hsplit]
    exact List.mem_append_right _ List.mem_cons_self
  have swapped : ∀ entry ∈ shortEscapes, (entry.2, entry.1) ∈ namedUnits := by
    simp [shortEscapes, namedUnits]
  exact swapped _ hmem

/-- A unit without a short escape is neither a quotation mark nor a backslash. -/
theorem denotes_encodeUnit (u : CodeUnit) : Denotes (encodeUnit u) [u] := by
  rw [encodeUnit]
  split
  · next letter h => exact .named (mem_namedUnits_of_lookup h) .nil
  · next h =>
    split
    · exact denotes_longEscape u
    · next hplain =>
      simp only [Bool.or_eq_true, decide_eq_true_eq, not_or] at hplain
      refine .plain (UInt16.not_lt.mp hplain.1.1) ?_ ?_ .nil
      · rintro rfl
        exact absurd h (by decide)
      · rintro rfl
        exact absurd h (by decide)

/-- What is written for units denotes them. -/
theorem denotes_encode (us : List CodeUnit) : Denotes (encode us) us := by
  fun_induction encode us with
  | case1 => exact .nil
  | case2 u => exact denotes_encodeUnit u
  | case3 u v rest paired ih =>
      obtain ⟨hu, hv⟩ := Bool.and_eq_true_iff.mp paired
      have first : isSurrogate u = true := Bool.or_eq_true_iff.mpr (.inl hu)
      have second : isSurrogate v = true := Bool.or_eq_true_iff.mpr (.inr hv)
      exact .beyond (lt_of_isSurrogate first) (.beyond (lt_of_isSurrogate second) ih)
  | case4 u v rest paired ih => exact (denotes_encodeUnit u).append ih

end Written

section Read

variable {body us : List CodeUnit}

/-- What denotes units is read as these units. -/
theorem decodeOnto?_of_denotes (h : Denotes body us) (read : Array CodeUnit) :
    decodeOnto? read body = some (read ++ us.toArray) := by
  induction h generalizing read with
  | nil => simp [decodeOnto?]
  | @plain u body us notControl notQuote notBackslash others ih =>
      have hplain : ¬ (decide (u < 0x20) || decide (u = 0x22)) = true := by
        simp [UInt16.not_lt.mpr notControl, notQuote]
      rw [decodeOnto?.eq_def]
      simp only [if_neg notBackslash, if_neg hplain]
      rw [ih]
      simp
  | @named letter u body us named others ih =>
      have hvalue : ∀ entry ∈ namedUnits, entry.1 ≠ 0x75 ∧
          shortValue? entry.1 = some entry.2 := by
        simp [namedUnits, shortValue?, shortEscapes]
      obtain ⟨hletter, hu⟩ := hvalue _ named
      rw [decodeOnto?.eq_def]
      simp only [if_true, if_neg hletter, hu]
      rw [ih]
      simp
  | numbered first second third fourth others ih =>
      rw [decodeOnto?.eq_def]
      simp only [if_true, longValue?_of_isHexDigit first second third fourth]
      rw [ih]
      simp

end Read

section Bounds

variable {body us : List CodeUnit}

/-- At most six units stand for one. -/
theorem Denotes.length_le (h : Denotes body us) : body.length ≤ 6 * us.length := by
  induction h with
  | nil => exact Nat.le_refl 0
  | plain _ _ _ _ ih =>
      simp only [List.length_cons]
      omega
  | named _ _ ih =>
      simp only [List.length_cons]
      omega
  | numbered _ _ _ _ _ ih =>
      simp only [List.length_cons]
      omega

theorem IsHexDigit.isGraphic {n : Nat} {u : CodeUnit} (h : IsHexDigit n u) :
    isGraphic u = true := by
  have lower : (Text.ofString "0123456789abcdef").toList.all CodeUnit.isGraphic = true := by decide
  have upper : (Text.ofString "0123456789ABCDEF").toList.all CodeUnit.isGraphic = true := by decide
  obtain h | h := h
  · exact List.all_eq_true.mp lower u (List.mem_of_getElem? h)
  · exact List.all_eq_true.mp upper u (List.mem_of_getElem? h)

theorem isGraphic_of_mem_namedUnits {letter u : CodeUnit} (h : (letter, u) ∈ namedUnits) :
    isGraphic letter = true := by
  have graphic : namedUnits.all (fun entry => isGraphic entry.1) = true := by decide
  exact List.all_eq_true.mp graphic _ h

/-- No control character stands between the quotation marks. -/
theorem Denotes.le_of_mem (h : Denotes body us) : ∀ u ∈ body, 0x20 ≤ u := by
  have hbackslash : (0x20 : CodeUnit) ≤ 0x5C := by decide
  have hu : (0x20 : CodeUnit) ≤ 0x75 := by decide
  induction h with
  | nil => exact nofun
  | plain notControl _ _ _ ih => exact List.forall_mem_cons.mpr ⟨notControl, ih⟩
  | named named _ ih =>
      have hletter := le_of_isGraphic (isGraphic_of_mem_namedUnits named)
      exact List.forall_mem_cons.mpr ⟨hbackslash, List.forall_mem_cons.mpr ⟨hletter, ih⟩⟩
  | numbered first second third fourth _ ih =>
      simp only [List.forall_mem_cons]
      exact ⟨hbackslash, hu, le_of_isGraphic first.isGraphic, le_of_isGraphic second.isGraphic,
        le_of_isGraphic third.isGraphic, le_of_isGraphic fourth.isGraphic, ih⟩

theorem isSurrogate_hexDigit {u : CodeUnit} (h : u.toNat < 16) :
    isSurrogate (hexDigit u) = false :=
  isSurrogate_of_isGraphic (isHexDigit_hexDigit h).isGraphic

/-- No surrogate is written for a unit that is no half of a pair. -/
theorem isSurrogate_of_mem_encodeUnit {u v : CodeUnit} (h : v ∈ encodeUnit u) :
    isSurrogate v = false := by
  rw [encodeUnit] at h
  split at h
  · next letter hletter =>
    simp only [List.mem_cons, List.not_mem_nil, or_false] at h
    rcases h with rfl | rfl
    · decide
    · apply isSurrogate_of_isGraphic
      exact isGraphic_of_mem_namedUnits (mem_namedUnits_of_lookup hletter)
  · split at h
    · simp only [longEscape, List.mem_cons, List.not_mem_nil, or_false] at h
      rcases h with rfl | rfl | rfl | rfl | rfl | rfl
      · decide
      · decide
      · exact isSurrogate_hexDigit (toNat_shiftRight_lt u)
      · exact isSurrogate_hexDigit (toNat_and_lt _)
      · exact isSurrogate_hexDigit (toNat_and_lt _)
      · exact isSurrogate_hexDigit (toNat_and_lt u)
    · next hplain =>
      cases List.mem_singleton.mp h
      simp only [Bool.or_eq_true, not_or] at hplain
      exact Bool.or_eq_false_iff.mpr
        ⟨Bool.eq_false_iff.mpr hplain.1.2, Bool.eq_false_iff.mpr hplain.2⟩

/-- What is written is well formed, also for units that are not. -/
theorem wellFormed_encode (us : List CodeUnit) : wellFormed (encode us) = true := by
  fun_induction encode us with
  | case1 => rfl
  | case2 u =>
      rw [← List.append_nil (encodeUnit u)]
      exact wellFormed_append_of_plain fun _ => isSurrogate_of_mem_encodeUnit
  | case3 u v rest paired ih =>
      obtain ⟨hu, hv⟩ := Bool.and_eq_true_iff.mp paired
      rw [wellFormed, if_pos hu, hv, ih, Bool.true_and]
  | case4 u v rest paired ih =>
      rw [wellFormed_append_of_plain fun _ => isSurrogate_of_mem_encodeUnit, ih]

end Bounds

end Quoted

end TagMarkup
