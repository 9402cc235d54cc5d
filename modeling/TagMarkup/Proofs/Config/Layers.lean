import Mathlib.Data.List.Basic
import Mathlib.Data.List.Induction
import TagMarkup.Config.Host

/-!
# Each setting has the value of the last layer that supplies it

Putting layers on top of one another is described setting by setting: the value is that of the last
layer that supplies one, and the default if there is none. What a layer supplies for one setting
depends on no other setting.

## Implementation notes

`Json.SuppliesDebug` and its like say what it is to supply a setting without reference to
`Layer.ofJson`. `Json.LastSupplied` does so for the last of several layers, and is compared with
putting one layer after the other on top.
-/

namespace TagMarkup

namespace Json

/-- The value is an object that has the given value at the key. -/
def Has (j : Json) (key : Text) (value : Json) : Prop :=
  ∃ ms, j = .object ms ∧ Members.get? ms key = some value

theorem get?_eq_some_iff {j : Json} {key : Text} {value : Json} :
    j.get? key = some value ↔ j.Has key value := by
  cases j with
  | object ms => simp [Has, get?, members]
  | null | bool | number | string | array => simp [Has, get?, members]

theorem get?_bind_eq_some_iff {α : Type} {j : Json} {key : Text} {pick : Json → Option α} {a : α} :
    (j.get? key).bind pick = some a ↔ ∃ value, j.Has key value ∧ pick value = some a := by
  rw [Option.bind_eq_some_iff]
  simp only [get?_eq_some_iff]

/-- The settings in a value are those of its member `default`, if that is an object, and otherwise
the value itself. -/
def Unwraps (j settings : Json) : Prop :=
  (∃ ms, j.Has "default" (.object ms) ∧ settings = .object ms) ∨
    (∀ ms, ¬ j.Has "default" (.object ms)) ∧ settings = j

/-- The value of a file is unwrapped once. -/
theorem unwraps_unwrapped (j : Json) : j.Unwraps j.unwrapped := by
  unfold unwrapped
  split
  · next ms h => exact .inl ⟨ms, get?_eq_some_iff.mp h, rfl⟩
  · next h =>
      right
      refine ⟨?_, rfl⟩
      intro ms has
      exact h ms (get?_eq_some_iff.mpr has)

/-- A value supplies whether to log. -/
def SuppliesDebug (j : Json) (b : Bool) : Prop :=
  j.Has "debug" (.bool b)

/-- A value supplies how much a rejection quotes: a whole number that is not negative. -/
def SuppliesSnippet (j : Json) (n : Nat) : Prop :=
  ∃ diagnostics x, j.Has "diagnostics" diagnostics ∧ diagnostics.Has "snippet" (.number x) ∧
    x.toInt? = some (n : Int)

/-- A value supplies what becomes of trailing input. -/
def SuppliesTrailing (j : Json) (policy : TrailingPolicy) : Prop :=
  ∃ document, j.Has "document" document ∧ document.Has "trailing" (.string policy.name)

/-- The value is the one that the last of the layers supplies that supplies any, or the default if
none does. -/
def LastSupplied {α : Type} (supplies : Json → α → Prop) (layers : List Json) (default value : α) :
    Prop :=
  (∃ below layer above, layers = below ++ layer :: above ∧ supplies layer value ∧
      ∀ other ∈ above, ∀ a, ¬ supplies other a) ∨
    (∀ layer ∈ layers, ∀ a, ¬ supplies layer a) ∧ value = default

section LastSupplied

variable {α : Type} {supplies : Json → α → Prop}

theorem lastSupplied_nil {default value : α} :
    LastSupplied supplies [] default value ↔ value = default := by
  simp [LastSupplied]

/-- With one more layer on top, its value counts, and the others only if it supplies none. -/
theorem lastSupplied_concat {layers : List Json} {top : Json} {default value : α} :
    LastSupplied supplies (layers ++ [top]) default value ↔
      supplies top value ∨
        (∀ a, ¬ supplies top a) ∧ LastSupplied supplies layers default value := by
  constructor
  · rintro (⟨below, layer, above, split, supplied, others⟩ | ⟨others, rfl⟩)
    · rcases above.eq_nil_or_concat' with rfl | ⟨above, last, rfl⟩
      · obtain ⟨-, ⟨⟩⟩ := List.append_inj' split rfl
        exact .inl supplied
      · rw [← List.cons_append, ← List.append_assoc] at split
        obtain ⟨rfl, ⟨⟩⟩ := List.append_inj' split rfl
        obtain ⟨others, nothing⟩ := List.forall_mem_append.mp others
        right
        exact ⟨nothing top List.mem_cons_self, .inl ⟨below, layer, above, rfl, supplied, others⟩⟩
    · obtain ⟨others, nothing⟩ := List.forall_mem_append.mp others
      exact .inr ⟨nothing top List.mem_cons_self, .inr ⟨others, rfl⟩⟩
  · rintro (supplied | ⟨nothing, ⟨below, layer, above, rfl, supplied, others⟩ | ⟨others, rfl⟩⟩)
    · exact .inl ⟨layers, top, [], rfl, supplied, nofun⟩
    · left
      refine ⟨below, layer, above ++ [top], List.append_assoc _ _ _, supplied, ?_⟩
      exact List.forall_mem_append.mpr ⟨others, List.forall_mem_singleton.mpr nothing⟩
    · right
      refine ⟨?_, rfl⟩
      exact List.forall_mem_append.mpr ⟨others, List.forall_mem_singleton.mpr nothing⟩

/-- Replacing a value by what each layer in turn supplies ends with the value supplied last, and
there is no other. -/
theorem lastSupplied_iff_eq_foldl {pick : Json → Option α}
    (h : ∀ j a, pick j = some a ↔ supplies j a) {layers : List Json} {default value : α} :
    LastSupplied supplies layers default value ↔
      value = layers.foldl (fun a layer => (pick layer).getD a) default := by
  induction layers using List.reverseRecOn with
  | nil => exact lastSupplied_nil
  | append_singleton layers top ih =>
      rw [lastSupplied_concat, ih, List.foldl_append, List.foldl_cons, List.foldl_nil]
      simp only [← h]
      cases pick top with
      | some a => simp [eq_comm]
      | none => simp

end LastSupplied

end Json

theorem TrailingPolicy.ofName?_eq_some_iff {t : Text} {policy : TrailingPolicy} :
    ofName? t = some policy ↔ t = policy.name := by
  have different : (allow.name : Text) ≠ error.name := by decide
  constructor
  · intro h
    rw [ofName?] at h
    split at h
    · next hname =>
        cases h
        exact hname
    · split at h
      · next hname =>
          cases h
          exact hname
      · cases h
  · rintro rfl
    cases policy with
    | error => rfl
    | allow => rw [ofName?, if_neg different, if_pos rfl]

namespace Layer

theorem debug?_eq_some_iff {j : Json} {b : Bool} : debug? j = some b ↔ j = .bool b := by
  cases j with
  | bool b' => simp [debug?]
  | null | number | string | array | object => simp [debug?]

theorem snippet?_eq_some_iff {j : Json} {n : Nat} :
    snippet? j = some n ↔ ∃ x, j = .number x ∧ x.toInt? = some (n : Int) := by
  cases j with
  | number x =>
      simp only [snippet?, Number.toNat?, Json.number.injEq, exists_eq_left']
      rcases x.toInt? with _ | (m | m)
      · simp
      · rw [Option.some.injEq, Option.some.injEq]
        exact Int.ofNat_inj.symm
      · simp
  | null | bool | string | array | object => simp [snippet?]

theorem trailing?_eq_some_iff {j : Json} {policy : TrailingPolicy} :
    trailing? j = some policy ↔ j = .string policy.name := by
  cases j with
  | string t =>
      rw [trailing?, TrailingPolicy.ofName?_eq_some_iff, Json.string.injEq]
  | null | bool | number | array | object => simp [trailing?]

/-- What is read off a value is what the value supplies. -/
theorem debug_ofJson_eq_some_iff (j : Json) (b : Bool) :
    (ofJson j).debug = some b ↔ j.SuppliesDebug b := by
  change (j.get? "debug").bind debug? = some b ↔ _
  rw [Json.get?_bind_eq_some_iff, Json.SuppliesDebug]
  simp only [debug?_eq_some_iff, exists_eq_right]

theorem snippet_ofJson_eq_some_iff (j : Json) (n : Nat) :
    (ofJson j).snippet = some n ↔ j.SuppliesSnippet n := by
  change ((j.get? "diagnostics").bind (·.get? "snippet")).bind snippet? = some n ↔ _
  rw [Option.bind_assoc, Json.get?_bind_eq_some_iff, Json.SuppliesSnippet]
  simp only [Json.get?_bind_eq_some_iff, snippet?_eq_some_iff]
  constructor
  · rintro ⟨diagnostics, has, _, hasNumber, x, rfl, whole⟩
    exact ⟨diagnostics, x, has, hasNumber, whole⟩
  · rintro ⟨diagnostics, x, has, hasNumber, whole⟩
    exact ⟨diagnostics, has, _, hasNumber, x, rfl, whole⟩

theorem trailing_ofJson_eq_some_iff (j : Json) (policy : TrailingPolicy) :
    (ofJson j).trailing = some policy ↔ j.SuppliesTrailing policy := by
  change ((j.get? "document").bind (·.get? "trailing")).bind trailing? = some policy ↔ _
  rw [Option.bind_assoc, Json.get?_bind_eq_some_iff, Json.SuppliesTrailing]
  simp only [Json.get?_bind_eq_some_iff, trailing?_eq_some_iff, exists_eq_right]

/-- A value that is not an object supplies nothing. -/
theorem ofJson_eq_empty {j : Json} (h : ∀ ms, j ≠ .object ms) : ofJson j = .empty := by
  cases j with
  | object ms => exact absurd rfl (h ms)
  | null | bool | number | string | array => rfl

end Layer

namespace Config

/-- Each setting has the value of the last layer that supplies it, and its default if none does. -/
structure Layered (layers : List Json) (c : Config) : Prop where
  /-- Whether to log. -/
  debug : Json.LastSupplied Json.SuppliesDebug layers defaults.debug c.debug
  /-- How much a rejection quotes. -/
  snippet : Json.LastSupplied Json.SuppliesSnippet layers defaults.snippet c.snippet
  /-- What becomes of trailing input. -/
  trailing : Json.LastSupplied Json.SuppliesTrailing layers defaults.trailing c.trailing

/-- The defaults with layers put on top, one after the other. -/
def ofLayers (layers : List Json) : Config :=
  layers.foldl (fun c layer => c.overlay (.ofJson layer)) defaults

theorem ofLayers_concat (layers : List Json) (top : Json) :
    ofLayers (layers ++ [top]) = (ofLayers layers).overlay (.ofJson top) := by
  rw [ofLayers, ofLayers, List.foldl_append, List.foldl_cons, List.foldl_nil]

theorem debug_ofLayers (layers : List Json) :
    (ofLayers layers).debug =
      layers.foldl (fun b layer => (Layer.ofJson layer).debug.getD b) defaults.debug :=
  (List.foldl_hom Config.debug fun _ _ => rfl).symm

theorem snippet_ofLayers (layers : List Json) :
    (ofLayers layers).snippet =
      layers.foldl (fun n layer => (Layer.ofJson layer).snippet.getD n) defaults.snippet :=
  (List.foldl_hom Config.snippet fun _ _ => rfl).symm

theorem trailing_ofLayers (layers : List Json) :
    (ofLayers layers).trailing =
      layers.foldl (fun p layer => (Layer.ofJson layer).trailing.getD p) defaults.trailing :=
  (List.foldl_hom Config.trailing fun _ _ => rfl).symm

/-- Putting layers on top of one another is the same as looking, for each setting, for the last
layer that supplies it. -/
theorem layered_iff {layers : List Json} {c : Config} : Layered layers c ↔ c = ofLayers layers := by
  constructor
  · rintro ⟨debug, snippet, trailing⟩
    ext1
    · rw [debug_ofLayers]
      exact (Json.lastSupplied_iff_eq_foldl Layer.debug_ofJson_eq_some_iff).mp debug
    · rw [snippet_ofLayers]
      exact (Json.lastSupplied_iff_eq_foldl Layer.snippet_ofJson_eq_some_iff).mp snippet
    · rw [trailing_ofLayers]
      exact (Json.lastSupplied_iff_eq_foldl Layer.trailing_ofJson_eq_some_iff).mp trailing
  · rintro rfl
    constructor
    · rw [Json.lastSupplied_iff_eq_foldl Layer.debug_ofJson_eq_some_iff]
      exact debug_ofLayers layers
    · rw [Json.lastSupplied_iff_eq_foldl Layer.snippet_ofJson_eq_some_iff]
      exact snippet_ofLayers layers
    · rw [Json.lastSupplied_iff_eq_foldl Layer.trailing_ofJson_eq_some_iff]
      exact trailing_ofLayers layers

end Config

end TagMarkup
