import TagMarkup.Proofs.Document.EntryPoints
import TagMarkup.Proofs.Document.Fragments
import TagMarkup.Session

/-!
# Which steps need the configuration

A step of a session either needs the configuration or has nothing to do with it. A step that needs
it does so first; it then fails if the configuration cannot be computed, and otherwise leaves it
stored. A step that does not need it leaves the store alone, unless it is the one that forgets what
is stored.

## Implementation notes

The store that a step faces is the one it finds, or the forgotten one if the step begins by
forgetting; so a load is a reset that names a directory, followed by a need. `Step.onTop` tells what
the step itself adds to the configuration.
-/

namespace TagMarkup

namespace Store

variable {host : Host} {around : Surroundings} {s : Store} {l : Layer} {config : Config}
  {e : ConfigError}

theorem set_of_ok (h : (s.need host around).1 = .ok config) :
    s.set host around l =
      (.ok (), { (s.need host around).2 with config := some (config.overlay l) }) := by
  rw [set]
  rcases hneed : s.need host around with ⟨_, after⟩
  rw [hneed] at h
  cases h
  rfl

theorem set_of_error (h : (s.need host around).1 = .error e) :
    s.set host around l = (.error e, (s.need host around).2) := by
  rw [set]
  rcases hneed : s.need host around with ⟨_, after⟩
  rw [hneed] at h
  cases h
  rfl

end Store

namespace Session

/-- The session with a configuration stored in place of the one that was. -/
def keeping (s : Session) (config : Config) : Session :=
  { s with store := { s.store with config := some config } }

/-- A need that succeeds has stored the configuration. -/
theorem keeping_afterNeed {host : Host} {s : Session} {config : Config}
    (h : s.inForce host = .ok config) : (s.afterNeed host).keeping config = s.afterNeed host := by
  have stored : (s.afterNeed host).store.config = some config := Store.config_need_of_ok h
  rw [keeping, ← stored]

end Session

theorem OnlyRejects.ne_unusable {α : Type} {outcome : Except Failure α} (h : OnlyRejects outcome)
    (e : ConfigError) : outcome ≠ .error (.unusable e) := by
  intro he
  obtain ⟨r, ⟨⟩⟩ := h _ he

namespace Reading

variable {α β : Type} {host : Host}

/-- A computation that needs the configuration and keeps it as it is. -/
structure UsesConfig (host : Host) (x : Reading α) : Prop where
  /-- It begins by needing the configuration. -/
  needs : Needs host x
  /-- Where the configuration can be computed, it leaves in the store what the need leaves there. -/
  store_after {s : Session} {config : Config} : s.inForce host = .ok config →
    (x.after s).store = (s.afterNeed host).store
  /-- There it does not touch the files and variables. -/
  around_after {s : Session} {config : Config} : s.inForce host = .ok config →
    (x.after s).around = s.around
  /-- There it fails with nothing but rejections. -/
  onlyRejects {s : Session} {config : Config} : s.inForce host = .ok config →
    OnlyRejects (x.outcome s)

theorem usesConfig_need : UsesConfig host (need host) where
  needs := needs_need
  store_after computed := by rw [after, run_need]
  around_after computed := by rw [after, run_need, Session.around_afterNeed]
  onlyRejects computed := by
    rw [outcome_need, computed]
    rintro failure ⟨⟩

/-- Asking for the file is needing the configuration and looking into the cell for the file. -/
theorem run_onStore_path (s : Session) :
    (onStore (Store.path host)).run s =
      (((s.inForce host).map fun _ => (s.afterNeed host).store.file).mapError .unusable,
        s.afterNeed host) := by
  rw [run_onStore, Session.inForce, Session.afterNeed, Store.path]
  rcases s.store.need host s.around with ⟨_ | config, after⟩
  · rfl
  · rfl

theorem usesConfig_path : UsesConfig host (onStore (Store.path host)) where
  needs := by
    apply ext_run
    intro s
    cases h : s.inForce host with
    | ok config =>
        rw [run_need_bind_of_ok h, run_onStore_path, run_onStore_path, Session.inForce_afterNeed,
          Session.afterNeed_afterNeed]
    | error e =>
        rw [run_need_bind_of_error h, run_onStore_path, h]
        rfl
  store_after computed := by rw [after, run_onStore_path]
  around_after computed := by rw [after, run_onStore_path, Session.around_afterNeed]
  onlyRejects computed := by
    rw [outcome, run_onStore_path, computed]
    rintro failure ⟨⟩

theorem usesConfig_reject (text : Text) (offset : Int) (reason : Reason) :
    UsesConfig host (reject host text offset reason : Reading α) where
  needs := needs_reject text offset reason
  store_after computed := by rw [after, run_reject_of_ok computed, Session.store_logged]
  around_after computed := by
    rw [after, run_reject_of_ok computed, Session.around_logged, Session.around_afterNeed]
  onlyRejects computed := by
    rw [outcome, run_reject_of_ok computed]
    rintro failure ⟨⟩
    exact ⟨_, rfl⟩

theorem usesConfig_document (text : Text) (trailing : Option TrailingPolicy) :
    UsesConfig host (document host text trailing) where
  needs := needs_document text trailing
  store_after computed := by rw [after, run_document_of_ok computed, Session.store_logged]
  around_after computed := by
    rw [after, run_document_of_ok computed, Session.around_logged, Session.around_afterNeed]
  onlyRejects computed := by
    rw [outcome_document_of_ok computed]
    exact Verdict.onlyRejects_value _

theorem after_map (x : Reading α) (f : α → β) (s : Session) :
    (do return f (← x) : Reading β).after s = x.after s := by
  rw [after, run_bind, after]
  rcases x.run s with ⟨_ | _, _⟩
  · rfl
  · rfl

theorem outcome_map (x : Reading α) (f : α → β) (s : Session) :
    (do return f (← x) : Reading β).outcome s = (x.outcome s).map f := by
  rw [outcome_bind]
  cases x.outcome s with
  | error failure => rfl
  | ok a => rfl

/-- A function applied to what is returned makes no difference to the configuration. -/
theorem UsesConfig.map {x : Reading α} (h : UsesConfig host x) (f : α → β) :
    UsesConfig host (do return f (← x)) where
  needs := h.needs.bind _
  store_after computed := by rw [after_map, h.store_after computed]
  around_after computed := by rw [after_map, h.around_after computed]
  onlyRejects {s _} computed := by
    rw [outcome_map]
    have honly := h.onlyRejects computed
    cases hout : x.outcome s with
    | ok a => rintro failure ⟨⟩
    | error failure =>
        rintro _ ⟨⟩
        exact honly failure hout

section Fragments

open TagMarkup.Parser (scanRepeat)
open TagMarkup.Element (scanRead)

variable {text : Text}

/-- If the repetition of the rule for elements is exhausted, taking fragments ends in the rejection
of what is left then. -/
theorem fragmentsFrom_of_error {us : List CodeUnit} {fault : Fault} (read : List Element)
    (h : scanRepeat (scanRead host.limit) us = .error fault) :
    ∃ rest, fragmentsFrom host read (.ofList us) = reject host rest 0 .recursionLimit := by
  fun_induction scanRepeat (scanRead host.limit) us generalizing read with
  | case1 us fault' hitem =>
      have hread : Element.read host.limit (.ofList us) 0 = .error fault' :=
        Element.read_zero_eq_error_iff.mpr hitem
      refine ⟨.ofList us, ?_⟩
      rw [fragmentsFrom, fragment_of_error hread, reject_bind]
  | case2 us vs hitem => cases h
  | case3 us e mid hitem shorter ih =>
      have hmore : scanRepeat (scanRead host.limit) mid = .error fault := by
        cases hmid : scanRepeat (scanRead host.limit) mid using Scanned.cases with
        | error fault' =>
            rw [hmid] at h
            exact h
        | success es rest =>
            rw [hmid] at h
            cases h
        | failure rest =>
            rw [hmid] at h
            cases h
      obtain ⟨rest, hfragments⟩ := ih (e :: read) hmore
      refine ⟨rest, ?_⟩
      have hfragment : fragment host (.ofList us) = pure (some ⟨e, .ofList mid⟩) :=
        ext_run fun s => run_fragment_eq_some_iff.mpr ⟨rfl, hitem⟩
      have hless : (Text.ofList mid).size < (Text.ofList us).size := by
        simpa only [← Text.length_toList, Text.toList_ofList] using shorter
      rw [fragmentsFrom, hfragment, pure_bind]
      simp only [dif_pos hless]
      exact hfragments
  | case4 us e mid hitem shorter => cases h

end Fragments

end Reading

namespace Step

variable {host : Host}

/-- The step asks for the configuration in force. Documents do so always, fragments only if they
are nested too deeply for the host. -/
def NeedsConfig (host : Host) : Step → Prop
  | get | set _ | load _ | path | document _ _ => True
  | fragment text => Element.read host.limit text 0 = .error .exhausted
  | fragments text => Element.grammar.run host.limit Element.root.many text 0 = .error .exhausted
  | setVariable _ _ | unsetVariable _ | writeFile _ _ | makeDirectory _ | removeFile _ | reset
  | define _ => False

/-- The directory whose settings count from this step on, if the step forgets what is stored. -/
def forgets? : Step → Option Path
  | reset => some []
  | load directory => some directory
  | _ => none

/-- What the step makes of the configuration in force, by values on top of it. -/
def onTop : Step → Config → Config
  | set values, config => config.overlay (.ofJson values)
  | _, config => config

/-- The session in which the step comes to its need: what is stored has been forgotten, if the step
forgets it. -/
def facing (st : Step) (s : Session) : Session :=
  match st.forgets? with
  | some directory => { s with store := ⟨none, none, directory⟩ }
  | none => s

theorem facing_of_forgets {st : Step} (h : st.forgets? = none) (s : Session) : st.facing s = s := by
  rw [facing, h]

/-- The step stores the configuration that it finds, with its own values on top, or fails where
there is none. -/
structure Uses (host : Host) (st : Step) : Prop where
  /-- Where the configuration can be computed, it is stored where the need has stored it. -/
  store_after {s : Session} {config : Config} : (st.facing s).inForce host = .ok config →
    ((st.perform host).after s).store =
      (((st.facing s).afterNeed host).keeping (st.onTop config)).store
  /-- There the files and variables stay as they are. -/
  around_after {s : Session} {config : Config} : (st.facing s).inForce host = .ok config →
    ((st.perform host).after s).around = s.around
  /-- There the step fails with nothing but rejections. -/
  onlyRejects {s : Session} {config : Config} : (st.facing s).inForce host = .ok config →
    OnlyRejects ((st.perform host).outcome s)
  /-- Elsewhere it fails with the error that keeps the configuration from being computed. -/
  run_of_error {s : Session} {e : ConfigError} : (st.facing s).inForce host = .error e →
    (st.perform host).run s = (.error (.unusable e), (st.facing s).afterNeed host)

section Uses

open Reading

/-- A computation that keeps the configuration makes a step of this kind, if the step itself does
nothing to it. -/
theorem uses_of_usesConfig {st : Step} (h : UsesConfig host (st.perform host))
    (keeps : st.forgets? = none) (nothing : ∀ config, st.onTop config = config) : st.Uses host where
  store_after {s config} computed := by
    rw [facing_of_forgets keeps] at computed ⊢
    rw [nothing, h.store_after computed, Session.keeping_afterNeed computed]
  around_after {s config} computed := by
    rw [facing_of_forgets keeps] at computed
    exact h.around_after computed
  onlyRejects {s config} computed := by
    rw [facing_of_forgets keeps] at computed
    exact h.onlyRejects computed
  run_of_error {s e} failed := by
    rw [facing_of_forgets keeps] at failed ⊢
    exact h.needs.run_of_error failed

theorem uses_get : get.Uses host :=
  uses_of_usesConfig (usesConfig_need.map _) rfl fun _ => rfl

/-- Loading is asking for the configuration after the stored one has been forgotten. -/
theorem run_perform_load (directory : Path) (s : Session) :
    ((load directory).perform host).run s =
      (get.perform host).run ((load directory).facing s) := by
  have hload : (onStore fun around _ => Store.load host around directory).run s =
      (need host).run ((load directory).facing s) := by
    rw [need, run_onStore, run_onStore]
    rfl
  rw [perform, perform, run_bind, run_bind, hload]

theorem uses_load (directory : Path) : (load directory).Uses host where
  store_after computed := by
    rw [after, run_perform_load]
    exact uses_get.store_after computed
  around_after {s _} computed := by
    rw [after, run_perform_load]
    exact uses_get.around_after computed
  onlyRejects computed := by
    rw [outcome, run_perform_load]
    exact uses_get.onlyRejects computed
  run_of_error failed := by
    rw [run_perform_load]
    exact uses_get.run_of_error failed

theorem run_perform_set_of_ok {s : Session} {config : Config} (h : s.inForce host = .ok config)
    (values : Json) :
    ((set values).perform host).run s =
      (.ok .done, (s.afterNeed host).keeping ((set values).onTop config)) := by
  rw [perform, run_bind, run_onStore, Store.set_of_ok h]
  rfl

theorem run_perform_set_of_error {s : Session} {e : ConfigError} (h : s.inForce host = .error e)
    (values : Json) :
    ((set values).perform host).run s = (.error (.unusable e), s.afterNeed host) := by
  rw [perform, run_bind, run_onStore, Store.set_of_error h]
  rfl

theorem uses_set (values : Json) : (set values).Uses host where
  store_after {s config} computed := by
    rw [facing_of_forgets rfl] at computed ⊢
    rw [after, run_perform_set_of_ok computed]
  around_after {s config} computed := by
    rw [facing_of_forgets rfl] at computed
    rw [after, run_perform_set_of_ok computed]
    rfl
  onlyRejects {s config} computed := by
    rw [facing_of_forgets rfl] at computed
    rw [outcome, run_perform_set_of_ok computed]
    rintro failure ⟨⟩
  run_of_error {s e} failed := run_perform_set_of_error failed values

theorem perform_fragment_of_exhausted {text : Text}
    (h : Element.read host.limit text 0 = .error .exhausted) :
    (fragment text).perform host = reject host text 0 .recursionLimit := by
  rw [perform, fragment_of_error h, reject_bind]

theorem perform_fragments_of_exhausted {text : Text}
    (h : Element.grammar.run host.limit Element.root.many text 0 = .error .exhausted) :
    ∃ rest, (fragments text).perform host = reject host rest 0 .recursionLimit := by
  obtain ⟨rest, hfragments⟩ := fragmentsFrom_of_error [] (Element.run_many_eq_error_iff.mp h)
  refine ⟨rest, ?_⟩
  rw [perform, Reading.fragments, ← Text.ofList_toList text, hfragments, reject_bind]

/-- A step that needs the configuration, does not forget it and sets no values keeps it. -/
theorem usesConfig_of_needsConfig {st : Step} (needs : st.NeedsConfig host)
    (keeps : st.forgets? = none) (setsNone : ∀ values, st ≠ set values) :
    UsesConfig host (st.perform host) := by
  cases st with
  | get => exact usesConfig_need.map _
  | path => exact usesConfig_path.map _
  | document text trailing => exact (usesConfig_document text trailing).map _
  | fragment text =>
      rw [perform_fragment_of_exhausted needs]
      exact usesConfig_reject _ _ _
  | fragments text =>
      obtain ⟨rest, hreject⟩ := perform_fragments_of_exhausted needs
      rw [hreject]
      exact usesConfig_reject _ _ _
  | set values => exact absurd rfl (setsNone values)
  | load directory => cases keeps
  | setVariable | unsetVariable | writeFile | makeDirectory | removeFile | reset | define =>
      exact needs.elim

/-- Setting values begins with a need. -/
theorem needs_perform_set (values : Json) : Needs host ((set values).perform host) := by
  apply ext_run
  intro s
  cases h : s.inForce host with
  | ok config =>
      have hagain : (s.afterNeed host).inForce host = .ok config := by
        rw [Session.inForce_afterNeed, h]
      rw [run_need_bind_of_ok h, run_perform_set_of_ok h, run_perform_set_of_ok hagain,
        Session.afterNeed_afterNeed]
  | error e => rw [run_need_bind_of_error h, run_perform_set_of_error h]

/-- A step that needs the configuration begins with the need, unless it forgets what is stored. -/
theorem needs_perform {st : Step} (needs : st.NeedsConfig host) (keeps : st.forgets? = none) :
    Needs host (st.perform host) := by
  cases st with
  | set values => exact needs_perform_set values
  | load directory => cases keeps
  | reset => exact needs.elim
  | _ => exact (usesConfig_of_needsConfig needs rfl nofun).needs

/-- Every step that needs the configuration stores it or fails. -/
theorem uses_of_needsConfig {st : Step} (needs : st.NeedsConfig host) : st.Uses host := by
  cases st with
  | set values => exact uses_set values
  | load directory => exact uses_load directory
  | reset => exact needs.elim
  | _ => exact uses_of_usesConfig (usesConfig_of_needsConfig needs rfl nofun) rfl fun _ => rfl

/-- A step that does not need the configuration stores nothing. -/
theorem store_after_of_not_needsConfig {st : Step} (h : ¬ st.NeedsConfig host) (s : Session) :
    ((st.perform host).after s).store = (st.facing s).store := by
  cases st with
  | get | set | load | path | document => exact absurd trivial h
  | fragment text =>
      cases hread : Element.read host.limit text 0 with
      | error fault =>
          cases Element.eq_exhausted_of_read hread
          exact absurd hread h
      | ok result =>
          rw [perform, after_map, after, run_fragment_of_read hread, facing_of_forgets rfl]
  | fragments text =>
      obtain ⟨fs, last, taken⟩ := exists_takes s h
      have hrun : (Reading.fragments host text).run s = _ := taken.run_fragmentsFrom []
      rw [perform, after, run_bind, hrun, facing_of_forgets rfl]
      rfl
  | reset => rfl
  | setVariable | unsetVariable | writeFile | makeDirectory | removeFile | define => rfl

end Uses

end Step

end TagMarkup
