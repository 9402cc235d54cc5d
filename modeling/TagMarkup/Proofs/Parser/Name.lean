import TagMarkup.Proofs.Parser.Skip

/-!
# Names read unit by unit and character by character

A name can be put together from the readers of single characters: a letter, then as many letters,
digits and hyphens as there are. This comes to what reading the name at one stroke comes to, in the
same value and at the same offset, from every offset of every text.

Either way a name begins with a letter at the start and goes up to the first offset behind it at
which none of its units stands, so that it is never cut short.

## Implementation notes

Letters, digits and hyphens are no surrogates. A pair of surrogates is therefore one character for
the one reader and two units for the other, and ends the name for both of them.
-/

namespace TagMarkup

open CodeUnit

namespace Text

/-- A unit inside a text and the run of units behind it, cut out of the text. -/
theorem slice_runEnd_succ (cls : CodeUnit → Bool) {t : Text} {start : Nat}
    (h : start < t.units.size) :
    t.slice start (t.runEnd cls (start + 1)) =
      .ofList (t.units[start] :: (t.toList.drop (start + 1)).takeWhile cls) := by
  have hdrop := drop_eq_cons h
  have left : t.units[start] :: t.toList.drop (start + 1) <:+ t.toList := by
    rw [← hdrop]
    exact List.drop_suffix start t.toList
  have hstart : t.size - (t.units[start] :: t.toList.drop (start + 1)).length = start := by
    rw [← hdrop, List.length_drop, length_toList]
    have inside : start < t.size := h
    omega
  have hslice := slice_runEnd left cls
  rwa [hstart] at hslice

end Text

namespace Parser

variable {R : Type} {ρ : R → Type}

/-- Reads a name character by character: a letter, then as many letters, digits and hyphens as there
are. -/
def nameByCharacters : Parser ρ Text :=
  ((character.satisfying (Text.isOne isLetter)).seq
    (character.satisfying (Text.isOne isNameUnit)).many).map fun (c, cs) => c ++ Text.join cs

end Parser

namespace Grammar

open TagMarkup.Parser

variable {R : Type} {ρ : R → Type} (g : Grammar ρ) (limit : Nat)

section NoLetter

variable {text : Text} {p : Int} (noLetter : text.NoneAt isLetter p)
include noLetter

theorem run_name_of_noneAt : g.run limit .name text p = .ok (.failure p) := by
  rw [run, run_name, readName]
  cases hu : text.at? p with
  | none => rfl
  | some u => simp [noLetter u hu]

theorem run_nameByCharacters_of_noneAt :
    g.run limit nameByCharacters text p = .ok (.failure p) := by
  rw [run, nameByCharacters, run_map, run_seq, run_isOne_of_noneAt _ noLetter]
  rfl

end NoLetter

section Letter

variable {text : Text} {start : Nat} (h : start < text.units.size)
  (letter : isLetter text.units[start] = true)
include letter

theorem run_name_natCast :
    g.run limit .name text start =
      .ok (.success (text.slice start (text.runEnd isNameUnit (start + 1)))
        (text.runEnd isNameUnit (start + 1))) := by
  simp only [run, run_name, readName, Text.at?_of_lt h, if_pos letter, Int.toNat_natCast]

theorem run_nameByCharacters_natCast :
    g.run limit nameByCharacters text start =
      .ok (.success (text.slice start (text.runEnd isNameUnit (start + 1)))
        (text.runEnd isNameUnit (start + 1))) := by
  have hfirst : (character.satisfying (Text.isOne isLetter)).run (g.call text limit) text start =
      .ok (.success (.singleton text.units[start]) (start + 1 : Nat)) :=
    run_isOne_of_at? _ (fun _ hu => isHighSurrogate_of_isNameUnit (isNameUnit_of_isLetter hu))
      (Text.at?_of_lt h) letter
  have hmore : (character.satisfying (Text.isOne isNameUnit)).many.run (g.call text limit) text
      (start + 1 : Nat) =
        .ok (.success (((text.toList.drop (start + 1)).takeWhile isNameUnit).map .singleton)
          (text.runEnd isNameUnit (start + 1))) :=
    g.many_isOne_natCast (fun _ => isHighSurrogate_of_isNameUnit) limit text (start + 1)
  have hvalue : Text.singleton text.units[start] ++ Text.join
      (((text.toList.drop (start + 1)).takeWhile isNameUnit).map .singleton) =
        text.slice start (text.runEnd isNameUnit (start + 1)) := by
    rw [Text.slice_runEnd_succ isNameUnit h, ← Text.toList_inj, Text.toList_append,
      Text.toList_join, Text.toList_ofList]
    simp [List.flatMap_map]
  rw [run, nameByCharacters, run_map, run_seq, hfirst, Outcome.andThen_success, hmore]
  exact congrArg (fun n => Except.ok (Result.success n _)) hvalue

end Letter

/-- What reading a name from an offset comes to, at one stroke and character by character. -/
structure ReadsLongestName (g : Grammar ρ) (limit : Nat) (text : Text) (start : Int) : Prop where
  /-- The two ways of reading a name come to the same. -/
  eq_byCharacters : g.run limit .name text start = g.run limit nameByCharacters text start
  /-- A name is read where a letter stands. It is cut out of the text up to the first offset behind
  the letter that lies outside the text or holds a unit that cannot go on with it. -/
  eq_success_iff (n : Text) (q : Int) : g.run limit .name text start = .ok (.success n q) ↔
    (∃ u, text.at? start = some u ∧ isLetter u = true) ∧
      IsLeast {q : Int | start < q ∧ text.NoneAt isNameUnit q} q ∧
        n = text.slice start.toNat q.toNat
  /-- Where no letter stands it fails, and that at its start. -/
  eq_failure_iff (q : Int) : g.run limit .name text start = .ok (.failure q) ↔
    text.NoneAt isLetter start ∧ q = start

section Longest

variable (text : Text) (start : Int)

theorem run_name_eq_byCharacters :
    g.run limit .name text start = g.run limit nameByCharacters text start := by
  obtain noLetter | ⟨start, h, rfl, letter⟩ := text.noneAt_or_exists isLetter start
  · rw [run_name_of_noneAt g limit noLetter, run_nameByCharacters_of_noneAt g limit noLetter]
  · rw [run_name_natCast g limit h letter, run_nameByCharacters_natCast g limit h letter]

theorem run_name_eq_success_iff (n : Text) (q : Int) :
    g.run limit .name text start = .ok (.success n q) ↔
      (∃ u, text.at? start = some u ∧ isLetter u = true) ∧
        IsLeast {q : Int | start < q ∧ text.NoneAt isNameUnit q} q ∧
          n = text.slice start.toNat q.toNat := by
  obtain noLetter | ⟨start, h, rfl, letter⟩ := text.noneAt_or_exists isLetter start
  · rw [run_name_of_noneAt g limit noLetter]
    constructor
    · exact nofun
    · rintro ⟨⟨u, hu, letter⟩, -⟩
      rw [noLetter u hu] at letter
      cases letter
  · have least : IsLeast {q : Int | start < q ∧ text.NoneAt isNameUnit q}
        (text.runEnd isNameUnit (start + 1)) := text.isLeast_runEnd isNameUnit (start + 1)
    rw [run_name_natCast g limit h letter]
    constructor
    · rintro ⟨⟩
      exact ⟨⟨_, Text.at?_of_lt h, letter⟩, least, rfl⟩
    · rintro ⟨-, hq, rfl⟩
      rw [hq.unique least]
      rfl

theorem run_name_eq_failure_iff (q : Int) :
    g.run limit .name text start = .ok (.failure q) ↔ text.NoneAt isLetter start ∧ q = start := by
  obtain noLetter | ⟨start, h, rfl, letter⟩ := text.noneAt_or_exists isLetter start
  · rw [run_name_of_noneAt g limit noLetter, and_iff_right noLetter, Except.ok.injEq,
      Result.failure.injEq, eq_comm]
  · rw [run_name_natCast g limit h letter]
    constructor
    · exact nofun
    · rintro ⟨noLetter, -⟩
      rw [noLetter _ (Text.at?_of_lt h)] at letter
      cases letter

end Longest

/-- The longest name is read, whatever the text and the start are, and it is what the readers of
single characters put together. -/
theorem readsLongestName (g : Grammar ρ) (limit : Nat) (text : Text) (start : Int) :
    g.ReadsLongestName limit text start where
  eq_byCharacters := g.run_name_eq_byCharacters limit text start
  eq_success_iff := g.run_name_eq_success_iff limit text start
  eq_failure_iff := g.run_name_eq_failure_iff limit text start

end Grammar

end TagMarkup
