import Mathlib.Data.List.Nodup
import TagMarkup.Config.Store
import TagMarkup.Proofs.Config.Layers

/-!
# What the environment contributes to each setting

The variables build up one object, and a later variable may put an object where an earlier one has
put a value, or a value where there was an object. What comes of that for one setting is told by one
variable alone: the last one whose path is that of the setting, leads to it or leads beyond it. If
its path is that of the setting, its value counts; otherwise it has covered what was there before.
So neither the order of variables whose paths do not meet nor a variable whose path meets that of no
setting makes a difference.

## Implementation notes

`Json.at?` looks a value up along a path, and `Json.placed` is setting the value at a path for any
value, not only for an object. What one variable more makes of a setting is
`Variables.pick_at?_concat`; the closed form is `Variables.pick_at?_settings_eq_some_iff`, by
induction from the last variable to the first.
-/

namespace TagMarkup

namespace Json

/-- The value at a path. -/
def at? (j : Json) : List Text → Option Json
  | [] => some j
  | key :: rest => (j.get? key).bind (·.at? rest)

/-- Beyond a value without members there is nothing. -/
theorem at?_eq_none {j : Json} {path : List Text} (h : j.members = []) (beyond : path ≠ []) :
    j.at? path = none := by
  cases path with
  | nil => exact absurd rfl beyond
  | cons key rest => rw [at?, get?, h, Members.get?_nil, Option.bind_none]

/-- The value with another one put at a path, and objects on the way to it. -/
def placed (j : Json) (path : List Text) (value : Json) : Json :=
  match path with
  | [] => value
  | _ :: _ => .object (Variables.setAt j.members path value)

section Placed

variable {j value : Json} {path field : List Text}

/-- Only the value of the first key changes. -/
theorem get?_placed (key other : Text) (rest : List Text) :
    (j.placed (key :: rest) value).get? other =
      if other = key then some (((j.get? key).getD .null).placed rest value)
      else j.get? other := by
  cases rest with
  | nil => exact Members.get?_insert ..
  | cons next rest => exact Members.get?_insert ..

theorem at?_placed_cons (key : Text) (rest more : List Text) :
    (j.placed (key :: rest) value).at? (key :: more) =
      (((j.get? key).getD .null).placed rest value).at? more := by
  rw [at?, get?_placed, if_pos rfl, Option.bind_some]

/-- At the path and beyond it, there is what is put there. -/
theorem at?_placed_append (more : List Text) :
    (j.placed path value).at? (path ++ more) = value.at? more := by
  induction path generalizing j with
  | nil => rfl
  | cons key rest ih => rw [List.cons_append, at?_placed_cons, ih]

/-- On the way to the path there is an object. -/
theorem exists_at?_placed (j value : Json) (field : List Text) (next : Text) (rest : List Text) :
    ∃ ms, (j.placed (field ++ next :: rest) value).at? field = some (.object ms) := by
  induction field generalizing j with
  | nil => exact ⟨_, rfl⟩
  | cons key field ih =>
      rw [List.cons_append, at?_placed_cons]
      exact ih _

/-- Where the paths part, nothing changes. -/
theorem at?_placed_of_apart (before : ¬ path <+: field) (beyond : ¬ field <+: path) :
    (j.placed path value).at? field = j.at? field := by
  induction path generalizing j field with
  | nil => exact absurd List.nil_prefix before
  | cons key path ih =>
      cases field with
      | nil => exact absurd List.nil_prefix beyond
      | cons first field =>
          by_cases hkey : first = key
          · subst hkey
            have before' : ¬ path <+: field := fun h => before (List.cons_prefix_cons.mpr ⟨rfl, h⟩)
            have beyond' : ¬ field <+: path := fun h => beyond (List.cons_prefix_cons.mpr ⟨rfl, h⟩)
            have inside : field ≠ [] := by
              rintro rfl
              exact beyond' List.nil_prefix
            rw [at?_placed_cons, ih before' beyond', at?]
            cases j.get? first with
            | some inner => rfl
            | none => exact at?_eq_none rfl inside
          · rw [at?, at?, get?_placed, if_neg hkey]

end Placed

end Json

theorem CodeUnit.splitAt_ne_nil (separator : CodeUnit) (us : List CodeUnit) :
    splitAt separator us ≠ [] := by
  fun_induction splitAt separator us with
  | case1 => exact nofun
  | case2 => exact nofun
  | case3 => exact nofun
  | case4 => exact nofun

namespace Variables

open Json (Members)

theorem ne_nil_of_path? {name : Text} {path : List Text} (h : path? name = some path) :
    path ≠ [] := by
  unfold path? at h
  split at h
  · cases h
    exact List.map_eq_nil_iff.not.mpr (CodeUnit.splitAt_ne_nil _ _)
  · cases h

/-- A variable gives no objects. -/
theorem members_valueAt (path : List Text) (value : Text) : (valueAt path value).members = [] := by
  simp only [valueAt]
  split_ifs
  all_goals rfl

/-- The name is that of a variable whose path is that of the field, leads to it or leads beyond
it. -/
def Touches (field : List Text) (name : Text) : Prop :=
  ∃ path, path? name = some path ∧ (path <+: field ∨ field <+: path)

/-- The variable is the last one that touches the field. -/
def LastTouching (vs : Variables) (field : List Text) (v : Text × Text) : Prop :=
  ∃ before after, vs = before ++ v :: after ∧ Touches field v.1 ∧ ∀ e ∈ after, ¬ Touches field e.1

section Field

variable {vs vs' : Variables} {field : List Text} {v e : Text × Text}

theorem not_lastTouching_nil : ¬ LastTouching [] field v := by
  rintro ⟨before, after, split, -⟩
  exact List.append_ne_nil_of_right_ne_nil before (List.cons_ne_nil v after) split.symm

/-- One variable more is the last one that touches the field, or does not touch it. -/
theorem lastTouching_concat :
    LastTouching (vs ++ [e]) field v ↔
      Touches field e.1 ∧ v = e ∨ ¬ Touches field e.1 ∧ LastTouching vs field v := by
  constructor
  · rintro ⟨before, after, split, touches, others⟩
    rcases after.eq_nil_or_concat' with rfl | ⟨after, last, rfl⟩
    · obtain ⟨-, ⟨⟩⟩ := List.append_inj' split rfl
      exact .inl ⟨touches, rfl⟩
    · rw [← List.cons_append, ← List.append_assoc] at split
      obtain ⟨rfl, ⟨⟩⟩ := List.append_inj' split rfl
      obtain ⟨others, untouched⟩ := List.forall_mem_append.mp others
      exact .inr ⟨untouched e List.mem_cons_self, before, after, rfl, touches, others⟩
  · rintro (⟨touches, rfl⟩ | ⟨untouched, before, after, rfl, touches, others⟩)
    · exact ⟨vs, [], rfl, touches, nofun⟩
    · refine ⟨before, after ++ [e], List.append_assoc _ _ _, touches, ?_⟩
      exact List.forall_mem_append.mpr ⟨others, List.forall_mem_singleton.mpr untouched⟩

theorem settings_concat_of_path? {path : List Text} (h : path? e.1 = some path) :
    Json.object (settings (vs ++ [e])) =
      (Json.object vs.settings).placed path (valueAt path e.2) := by
  have hsettings : settings (vs ++ [e]) = setAt vs.settings path (valueAt path e.2) := by
    rw [settings, List.foldl_append, List.foldl_cons, List.foldl_nil, h]
    rfl
  rw [hsettings]
  cases path with
  | nil => exact absurd rfl (ne_nil_of_path? h)
  | cons key rest => rfl

theorem settings_concat_of_path?_eq_none (h : path? e.1 = none) :
    settings (vs ++ [e]) = vs.settings := by
  rw [settings, List.foldl_append, List.foldl_cons, List.foldl_nil, h]
  rfl

variable {α : Type} {pick : Json → Option α} {a : α}

/-- What is picked at a field after one variable more: its value, if its path is that of the field,
and otherwise what was picked before, if it does not touch the field. -/
theorem pick_at?_concat (flat : ∀ ms, pick (.object ms) = none) :
    ((Json.object (settings (vs ++ [e]))).at? field).bind pick = some a ↔
      path? e.1 = some field ∧ pick (valueAt field e.2) = some a ∨
        ¬ Touches field e.1 ∧ ((Json.object vs.settings).at? field).bind pick = some a := by
  cases hpath : path? e.1 with
  | none =>
      have untouched : ¬ Touches field e.1 := by
        rintro ⟨path, h, -⟩
        cases hpath.symm.trans h
      rw [settings_concat_of_path?_eq_none hpath]
      simp [untouched]
  | some path =>
      have touches_iff : Touches field e.1 ↔ path <+: field ∨ field <+: path := by
        simp [Touches, hpath]
      rw [settings_concat_of_path? hpath, touches_iff, Option.some_inj]
      by_cases before : path <+: field
      · obtain ⟨more, rfl⟩ := before
        rw [Json.at?_placed_append]
        cases more with
        | nil => simp [Json.at?]
        | cons key rest =>
            rw [Json.at?_eq_none (members_valueAt _ _) (List.cons_ne_nil key rest)]
            simp
      · by_cases beyond : field <+: path
        · obtain ⟨more, rfl⟩ := beyond
          cases more with
          | nil => simp at before
          | cons key rest =>
              obtain ⟨ms, h⟩ := Json.exists_at?_placed (.object vs.settings)
                (valueAt (field ++ key :: rest) e.2) field key rest
              rw [h, Option.bind_some, flat]
              simp
        · have different : path ≠ field := by
            rintro rfl
            exact before List.prefix_rfl
          rw [Json.at?_placed_of_apart before beyond]
          simp [before, beyond, different]

/-- What is picked at a field is the value of the last variable that touches the field, if its path
is that of the field. -/
theorem pick_at?_settings_eq_some_iff (flat : ∀ ms, pick (.object ms) = none) :
    ((Json.object vs.settings).at? field).bind pick = some a ↔
      ∃ v, LastTouching vs field v ∧ path? v.1 = some field ∧
        pick (valueAt field v.2) = some a := by
  induction vs using List.reverseRecOn with
  | nil =>
      have nothing : ((Json.object (settings [])).at? field).bind pick = none := by
        cases field with
        | nil => exact flat []
        | cons key rest => rfl
      simp [nothing, not_lastTouching_nil]
  | append_singleton vs e ih =>
      rw [pick_at?_concat flat, ih]
      constructor
      · rintro (⟨hpath, hpick⟩ | ⟨untouched, v, last, hpath, hpick⟩)
        · have touches : Touches field e.1 := ⟨field, hpath, .inl List.prefix_rfl⟩
          exact ⟨e, lastTouching_concat.mpr (.inl ⟨touches, rfl⟩), hpath, hpick⟩
        · exact ⟨v, lastTouching_concat.mpr (.inr ⟨untouched, last⟩), hpath, hpick⟩
      · rintro ⟨v, last, hpath, hpick⟩
        rcases lastTouching_concat.mp last with ⟨-, rfl⟩ | ⟨untouched, last⟩
        · exact .inl ⟨hpath, hpick⟩
        · exact .inr ⟨untouched, v, last, hpath, hpick⟩

/-- The value of a setting under the variables is that of the last variable that touches the field,
if its path is that of the field and its value is valid there. In all other cases the value below
stays. -/
def Settles (vs : Variables) (field : List Text) (pick : Json → Option α) (below value : α) :
    Prop :=
  (∃ v, LastTouching vs field v ∧ path? v.1 = some field ∧ pick (valueAt field v.2) = some value) ∨
    (∀ v, LastTouching vs field v → path? v.1 = some field → pick (valueAt field v.2) = none) ∧
      value = below

theorem settles_iff (flat : ∀ ms, pick (.object ms) = none) {below value : α} :
    Settles vs field pick below value ↔
      value = (((Json.object vs.settings).at? field).bind pick).getD below := by
  cases hpick : ((Json.object vs.settings).at? field).bind pick with
  | some a =>
      obtain ⟨v, last, hpath, hvalue⟩ := (pick_at?_settings_eq_some_iff flat).mp hpick
      rw [Option.getD_some]
      constructor
      · rintro (found | ⟨invalid, -⟩)
        · have hvalue' := (pick_at?_settings_eq_some_iff flat).mpr found
          exact Option.some.inj (hvalue'.symm.trans hpick)
        · cases (invalid v last hpath).symm.trans hvalue
      · rintro rfl
        exact .inl ⟨v, last, hpath, hvalue⟩
  | none =>
      have invalid (v : Text × Text) (last : LastTouching vs field v)
          (hpath : path? v.1 = some field) : pick (valueAt field v.2) = none := by
        apply Option.eq_none_iff_forall_ne_some.mpr
        intro a hvalue
        cases hpick.symm.trans ((pick_at?_settings_eq_some_iff flat).mpr ⟨v, last, hpath, hvalue⟩)
      rw [Option.getD_none]
      constructor
      · rintro (⟨v, last, hpath, hvalue⟩ | ⟨-, stays⟩)
        · cases (invalid v last hpath).symm.trans hvalue
        · exact stays
      · intro stays
        exact .inr ⟨invalid, stays⟩

end Field

section Layer

/-- The path of the setting whether to log. -/
def debugField : List Text := ["debug"]

/-- The path of the setting what becomes of trailing input. -/
def trailingField : List Text := ["document", "trailing"]

/-- The paths of the settings. -/
def fields : List (List Text) := [debugField, numericPath, trailingField]

theorem debug_layer (vs : Variables) :
    vs.layer.debug = ((Json.object vs.settings).at? debugField).bind Layer.debug? := by
  simp [layer, Layer.ofJson, Json.at?, debugField]

theorem snippet_layer (vs : Variables) :
    vs.layer.snippet = ((Json.object vs.settings).at? numericPath).bind Layer.snippet? := by
  simp [layer, Layer.ofJson, Json.at?, numericPath]

theorem trailing_layer (vs : Variables) :
    vs.layer.trailing = ((Json.object vs.settings).at? trailingField).bind Layer.trailing? := by
  simp [layer, Layer.ofJson, Json.at?, trailingField]

/-- The settings are those of the variables where these settle them, and those below elsewhere. -/
structure Overlays (vs : Variables) (below result : Config) : Prop where
  /-- Whether to log. -/
  debug : Settles vs debugField Layer.debug? below.debug result.debug
  /-- How much a rejection quotes. -/
  snippet : Settles vs numericPath Layer.snippet? below.snippet result.snippet
  /-- What becomes of trailing input. -/
  trailing : Settles vs trailingField Layer.trailing? below.trailing result.trailing

/-- Putting the layer of the environment on top of settings is settling each of them by the last
variable that touches it. -/
theorem overlays_iff {vs : Variables} {below result : Config} :
    vs.Overlays below result ↔ result = below.overlay vs.layer := by
  have flatDebug (ms : Members) : Layer.debug? (.object ms) = none := rfl
  have flatSnippet (ms : Members) : Layer.snippet? (.object ms) = none := rfl
  have flatTrailing (ms : Members) : Layer.trailing? (.object ms) = none := rfl
  constructor
  · rintro ⟨debug, snippet, trailing⟩
    ext1
    · rw [Config.overlay, debug_layer]
      exact (settles_iff flatDebug).mp debug
    · rw [Config.overlay, snippet_layer]
      exact (settles_iff flatSnippet).mp snippet
    · rw [Config.overlay, trailing_layer]
      exact (settles_iff flatTrailing).mp trailing
  · rintro rfl
    constructor
    · rw [settles_iff flatDebug, ← debug_layer]
      rfl
    · rw [settles_iff flatSnippet, ← snippet_layer]
      rfl
    · rw [settles_iff flatTrailing, ← trailing_layer]
      rfl

/-- Variables with the same last ones at the settings make the same layer. -/
theorem layer_congr {vs vs' : Variables}
    (same : ∀ field ∈ fields, ∀ v, path? v.1 = some field →
      (LastTouching vs field v ↔ LastTouching vs' field v)) :
    vs.layer = vs'.layer := by
  have pick_congr {α : Type} {pick : Json → Option α} (flat : ∀ ms, pick (.object ms) = none)
      {field : List Text} (hfield : field ∈ fields) :
      ((Json.object vs.settings).at? field).bind pick =
        ((Json.object vs'.settings).at? field).bind pick := by
    apply Option.ext
    intro a
    rw [pick_at?_settings_eq_some_iff flat, pick_at?_settings_eq_some_iff flat]
    apply exists_congr
    intro v
    exact and_congr_left fun picked => same field hfield v picked.1
  ext1
  · rw [debug_layer, debug_layer]
    exact pick_congr (fun _ => rfl) (by simp [fields])
  · rw [snippet_layer, snippet_layer]
    exact pick_congr (fun _ => rfl) (by simp [fields])
  · rw [trailing_layer, trailing_layer]
    exact pick_congr (fun _ => rfl) (by simp [fields])

end Layer

section Order

variable {vs vs' : Variables} {field : List Text} {v e other : Text × Text}

/-- Of two entries one comes before the other. -/
theorem sublist_or_sublist (he : e ∈ vs) (hother : other ∈ vs) (different : e ≠ other) :
    [e, other].Sublist vs ∨ [other, e].Sublist vs := by
  obtain ⟨before, after, rfl⟩ := List.append_of_mem he
  rcases List.mem_append.mp hother with hbefore | hafter
  · right
    exact (List.singleton_sublist.mpr hbefore).append
      (List.singleton_sublist.mpr List.mem_cons_self)
  · left
    have hafter : other ∈ after := List.mem_of_ne_of_mem different.symm hafter
    exact (List.Sublist.cons_cons e (List.singleton_sublist.mpr hafter)).trans
      (List.sublist_append_right before _)

/-- If no entry occurs twice, none of two comes both before and after the other. -/
theorem not_sublist_of_sublist (distinct : vs.Nodup) (h : [e, other].Sublist vs) :
    ¬ [other, e].Sublist vs := by
  intro h'
  induction vs with
  | nil => cases h
  | cons first vs ih =>
      obtain ⟨new, distinct⟩ := List.nodup_cons.mp distinct
      cases h with
      | cons _ h =>
          cases h' with
          | cons _ h' => exact ih distinct h h'
          | cons_cons _ h' => exact new (h.subset (by simp))
      | cons_cons _ h =>
          cases h' with
          | cons _ h' => exact new (h'.subset (by simp))
          | cons_cons _ h' => exact new (h.subset (by simp))

/-- Two entries stand in the order that they have among others, if the turned order would be kept
there. -/
theorem sublist_of_sublist (distinct : vs'.Nodup) (he : e ∈ vs) (hother : other ∈ vs)
    (h : [e, other].Sublist vs') (stays : [other, e].Sublist vs → [other, e].Sublist vs') :
    [e, other].Sublist vs := by
  have different : e ≠ other := by
    rintro rfl
    exact List.nodup_iff_sublist.mp distinct e h
  rcases sublist_or_sublist he hother different with same | turned
  · exact same
  · exact absurd (stays turned) (not_sublist_of_sublist distinct h)

/-- The last variable that touches a field is so also among other variables, if all that touch the
field there come from the first ones, and those before it stay before it. -/
theorem LastTouching.transfer (last : LastTouching vs field v) (distinct : vs'.Nodup)
    (mem : v ∈ vs')
    (from_vs : ∀ e ∈ vs', Touches field e.1 → e ∈ vs ∧ ([e, v].Sublist vs → [e, v].Sublist vs')) :
    LastTouching vs' field v := by
  obtain ⟨before, after, rfl, touches, others⟩ := last
  obtain ⟨before', after', rfl⟩ := List.append_of_mem mem
  refine ⟨before', after', rfl, touches, ?_⟩
  intro e hafter touchesE
  have later : [v, e].Sublist (before' ++ v :: after') :=
    (List.Sublist.cons_cons v (List.singleton_sublist.mpr hafter)).trans
      (List.sublist_append_right before' _)
  obtain ⟨he, stays⟩ := from_vs e (later.subset (by simp)) touchesE
  rcases List.mem_append.mp he with hbefore | hrest
  · have earlier : [e, v].Sublist (before ++ v :: after) :=
      (List.singleton_sublist.mpr hbefore).append (List.singleton_sublist.mpr List.mem_cons_self)
    exact not_sublist_of_sublist distinct later (stays earlier)
  · rcases List.mem_cons.mp hrest with rfl | hafter
    · exact List.nodup_iff_sublist.mp distinct e later
    · exact others e hafter touchesE

/-- The paths of two variables are comparable. -/
def Comparable (name other : Text) : Prop :=
  ∃ path, path? name = some path ∧ Touches path other

theorem Comparable.symm {name other : Text} (h : Comparable name other) :
    Comparable other name := by
  obtain ⟨path, hpath, path', hpath', meet⟩ := h
  exact ⟨path', hpath', path, hpath, meet.symm⟩

/-- The variables are the same in an order in which those with comparable paths stay as they are. -/
structure Reordered (vs vs' : Variables) : Prop where
  /-- The variables are the same. -/
  perm : vs.Perm vs'
  /-- Of two whose paths are comparable, the one that comes first stays first. -/
  sublist (e other : Text × Text) : Comparable e.1 other.1 → [e, other].Sublist vs →
    [e, other].Sublist vs'

/-- There may be further variables, with names or paths that have to do with no setting. -/
structure Extended (vs vs' : Variables) : Prop where
  /-- The variables are still there, in the same order. -/
  sublist : vs.Sublist vs'
  /-- The others touch no setting. -/
  untouched (e : Text × Text) : e ∈ vs' → e ∉ vs → ∀ field ∈ fields, ¬ Touches field e.1

theorem Reordered.symm (h : Reordered vs vs') (distinct : vs.Nodup) : Reordered vs' vs where
  perm := h.perm.symm
  sublist e other comparable hsublist := by
    have distinct' : vs'.Nodup := h.perm.nodup_iff.mp distinct
    have he : e ∈ vs := h.perm.mem_iff.mpr (hsublist.subset (by simp))
    have hother : other ∈ vs := h.perm.mem_iff.mpr (hsublist.subset (by simp))
    exact sublist_of_sublist distinct' he hother hsublist (h.sublist other e comparable.symm)

theorem Reordered.lastTouching (h : Reordered vs vs') (distinct : vs.Nodup)
    (hpath : path? v.1 = some field) (last : LastTouching vs field v) :
    LastTouching vs' field v := by
  have mem : v ∈ vs' := by
    obtain ⟨before, after, rfl, -⟩ := last
    exact h.perm.mem_iff.mp (by simp)
  apply last.transfer (h.perm.nodup_iff.mp distinct) mem
  intro e he touches
  have comparable : Comparable v.1 e.1 := ⟨field, hpath, touches⟩
  exact ⟨h.perm.mem_iff.mpr he, h.sublist e v comparable.symm⟩

/-- Variables whose paths are comparable with none of those that they are moved across can be
moved. -/
theorem Reordered.layer_eq (h : Reordered vs vs') (distinct : vs.Nodup) : vs.layer = vs'.layer := by
  apply layer_congr
  intro field _ v hpath
  have distinct' : vs'.Nodup := h.perm.nodup_iff.mp distinct
  exact ⟨h.lastTouching distinct hpath, (h.symm distinct).lastTouching distinct' hpath⟩

/-- Variables that have to do with no setting can be added. -/
theorem Extended.layer_eq (h : Extended vs vs') (distinct' : vs'.Nodup) : vs.layer = vs'.layer := by
  apply layer_congr
  intro field hfield v _
  have distinct : vs.Nodup := h.sublist.nodup distinct'
  have mem_of_touches {e : Text × Text} (he : e ∈ vs') (touches : Touches field e.1) : e ∈ vs := by
    by_contra new
    exact h.untouched e he new field hfield touches
  constructor
  · intro last
    have mem : v ∈ vs := by
      obtain ⟨before, after, rfl, -⟩ := last
      simp
    apply last.transfer distinct' (h.sublist.subset mem)
    intro e he touches
    exact ⟨mem_of_touches he touches, fun earlier => earlier.trans h.sublist⟩
  · intro last
    have mem : v ∈ vs := by
      obtain ⟨before, after, rfl, touches, -⟩ := last
      exact mem_of_touches (by simp) touches
    apply last.transfer distinct mem
    intro e he _
    refine ⟨h.sublist.subset he, ?_⟩
    intro earlier
    exact sublist_of_sublist distinct' he mem earlier fun turned => turned.trans h.sublist

end Order

/-- What the environment comes to: a variable at a time for each setting, whatever the order of
those whose paths do not meet, and whatever else there is. -/
structure Meaning (vs : Variables) : Prop where
  /-- The settings with the layer of the environment on top are those that it settles, and those
  below elsewhere. -/
  overlay_iff (below result : Config) :
    result = below.overlay vs.layer ↔ vs.Overlays below result
  /-- In another order of variables whose paths are not comparable, they make the same
  configuration. -/
  need_reordered (vs' : Variables) (host : Host) (files : Files) (s : Store) : Reordered vs vs' →
    s.need host ⟨files, vs'⟩ = s.need host ⟨files, vs⟩
  /-- With further variables that touch no setting, they make the same configuration. -/
  need_extended (vs' : Variables) (host : Host) (files : Files) (s : Store) : Extended vs vs' →
    (vs'.map Prod.fst).Nodup → s.need host ⟨files, vs'⟩ = s.need host ⟨files, vs⟩

/-- A need reads no more of the variables than their layer. -/
theorem need_congr {vs vs' : Variables} (h : vs.layer = vs'.layer) (host : Host) (files : Files)
    (s : Store) : s.need host ⟨files, vs'⟩ = s.need host ⟨files, vs⟩ := by
  simp only [Store.need, h]

/-- A length of quotations that is covered by a value above it, and a policy in another spelling of
its path. -/
def covered : Variables :=
  [("TAGWEAVE_DIAGNOSTICS_SNIPPET", "7"), ("TAGWEAVE_document__TRAILING", "allow"),
    ("TAGWEAVE_DIAGNOSTICS", "7")]

end Variables

end TagMarkup
