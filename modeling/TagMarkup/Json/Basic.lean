import TagMarkup.Number.Basic
import TagMarkup.Text.Basic

/-!
# JSON values

The values that settings are written in.

## Implementation notes

The members of an object keep the order in which their keys first appeared. `Members.insert`
replaces the value of a key that is already there, so a key occurs once in every object that is
built with it.
-/

namespace TagMarkup

/-- A JSON value. -/
inductive Json where
  /-- The null value. -/
  | null
  /-- A truth value. -/
  | bool (b : Bool)
  /-- A number. -/
  | number (x : Number)
  /-- A string. -/
  | string (t : Text)
  /-- An array of values. -/
  | array (items : List Json)
  /-- An object with its members. -/
  | object (members : List (Text × Json))
deriving Inhabited

namespace Json

/-- The members of an object. -/
abbrev Members := List (Text × Json)

namespace Members

/-- The value of a key. -/
def get? (ms : Members) (key : Text) : Option Json :=
  ms.lookup key

/-- Gives a key a value, in the place of the value it had. -/
def insert : Members → Text → Json → Members
  | [], key, value => [(key, value)]
  | (k, v) :: rest, key, value =>
    if k = key then (key, value) :: rest else (k, v) :: insert rest key value

/-- Gives each key its value in turn, so that the last value of a key stays. -/
def ofList (entries : List (Text × Json)) : Members :=
  entries.foldl (fun ms entry => insert ms entry.1 entry.2) []

@[simp] theorem get?_nil (key : Text) : get? [] key = none := rfl

theorem get?_cons (k other : Text) (v : Json) (rest : Members) :
    get? ((k, v) :: rest) other = if other = k then some v else get? rest other := by
  rw [get?, List.lookup_cons]
  by_cases h : other = k
  · simp [h]
  · have hb : (other == k) = false := by simpa using h
    simp [h, hb, get?]

theorem get?_insert (ms : Members) (key other : Text) (value : Json) :
    (ms.insert key value).get? other = if other = key then some value else ms.get? other := by
  induction ms with
  | nil => rw [insert, get?_cons]
  | cons entry rest ih =>
    obtain ⟨k, v⟩ := entry
    by_cases hk : k = key
    · subst hk
      simp only [insert, if_pos, get?_cons]
      split <;> rfl
    · simp only [insert, if_neg hk, get?_cons, ih]
      by_cases h : other = k
      · simp [h, hk]
      · simp [h]

end Members

/-- The members of an object; any other value has none. -/
def members : Json → Members
  | object ms => ms
  | _ => []

/-- The value of a key in an object. -/
def get? (j : Json) (key : Text) : Option Json :=
  j.members.get? key

end Json

end TagMarkup
