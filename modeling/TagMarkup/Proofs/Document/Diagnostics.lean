import TagMarkup.Proofs.Document.EntryPoints

/-!
# Diagnostics make no difference to reading

Two readings of a document under one policy on trailing input come to the same element, or to
rejections that differ in nothing but the number of units their messages quote, whatever else the
two configurations say. Both have the same line to log, and each logs it exactly if its
configuration asks for that. Reading a fragment has nothing to do with the configuration, unless
the text is nested too deeply.

## Implementation notes

Both readings are the one verdict on the text: `Reading.run_document_of_ok` tells where the
configuration comes in.
-/

namespace TagMarkup

/-- Both outcomes are the same value, or they are rejections that agree but for their messages. -/
def SameButMessage {α : Type} (x y : Except Failure α) : Prop :=
  (∃ a, x = .ok a ∧ y = .ok a) ∨
    ∃ r r' : Rejection, x = .error (.fault (.rejected r)) ∧ y = .error (.fault (.rejected r')) ∧
      r.reason = r'.reason ∧ r.offset = r'.offset ∧ r.remaining = r'.remaining

/-- A verdict fixes all but how much the message of a rejection quotes. -/
theorem Verdict.sameButMessage_value (v : Verdict) (text : Text) (snippet snippet' : Int) :
    SameButMessage ((v.value text snippet).mapError Failure.fault)
      ((v.value text snippet').mapError Failure.fault) := by
  cases v with
  | accepted e q => exact .inl ⟨e, rfl, rfl⟩
  | rejected reason q => exact .inr ⟨_, _, rfl, rfl, rfl, rfl, rfl⟩

namespace Reading

/-- What a document comes to in one session and what it comes to in another, given the
configurations in force there. -/
structure DocumentAlike (host : Host) (text : Text) (trailing : Option TrailingPolicy)
    (s s' : Session) (config config' : Config) : Prop where
  /-- The same element is returned, or the text is rejected for the same reason, at the same offset
  and with the same text left. -/
  sameButMessage : SameButMessage ((document host text trailing).outcome s)
    ((document host text trailing).outcome s')
  /-- The messages are the same, too, if the same number of units is quoted. -/
  outcome_eq : config.snippet = config'.snippet →
    (document host text trailing).outcome s = (document host text trailing).outcome s'
  /-- There is one line for both sessions, logged in each if its configuration asks for it. -/
  log_eq : ∃ line,
    ((document host text trailing).after s).log =
      s.log ++ (if config.debug then [line] else []) ∧
    ((document host text trailing).after s').log =
      s'.log ++ (if config'.debug then [line] else [])
  /-- Each session keeps its files and variables. -/
  around_eq : ((document host text trailing).after s).around = s.around ∧
    ((document host text trailing).after s').around = s'.around
  /-- Each session stores its configuration, as any other need does. -/
  store_eq : ((document host text trailing).after s).store = (s.afterNeed host).store ∧
    ((document host text trailing).after s').store = (s'.afterNeed host).store ∧
    (s.afterNeed host).store.config = some config ∧ (s'.afterNeed host).store.config = some config'

section Document

variable {host : Host} (text : Text) (trailing : Option TrailingPolicy) {s s' : Session}
  {config config' : Config}

/-- The line that the verdict on a document gives to log, in the configuration's own words. -/
theorem log_after_document (computed : s.inForce host = .ok config) :
    ((document host text trailing).after s).log =
      s.log ++ if config.debug then
        [(logMark : Text) ++
          (Verdict.onDocument host.limit text (trailing.getD config.trailing)).line text]
      else [] := by
  rw [after, run_document_of_ok computed, Session.log_logged]
  rfl

theorem around_after_document (computed : s.inForce host = .ok config) :
    ((document host text trailing).after s).around = s.around := by
  rw [after, run_document_of_ok computed, Session.around_logged, Session.around_afterNeed]

theorem store_after_document (computed : s.inForce host = .ok config) :
    ((document host text trailing).after s).store = (s.afterNeed host).store := by
  rw [after, run_document_of_ok computed, Session.store_logged]

variable {text : Text} {trailing : Option TrailingPolicy}

/-- The policies that count in two sessions are the same if one is given, or if the configurations
agree on it. -/
theorem policy_eq (agree : trailing = none → config.trailing = config'.trailing) :
    trailing.getD config.trailing = trailing.getD config'.trailing := by
  cases trailing with
  | some policy => rfl
  | none => exact agree rfl

theorem documentAlike (computed : s.inForce host = .ok config)
    (computed' : s'.inForce host = .ok config')
    (agree : trailing = none → config.trailing = config'.trailing) :
    DocumentAlike host text trailing s s' config config' where
  sameButMessage := by
    rw [outcome_document_of_ok computed, outcome_document_of_ok computed', policy_eq agree]
    exact Verdict.sameButMessage_value _ _ _ _
  outcome_eq same := by
    rw [outcome_document_of_ok computed, outcome_document_of_ok computed', policy_eq agree, same]
  log_eq := by
    have hlog := log_after_document text trailing computed
    rw [policy_eq agree] at hlog
    exact ⟨_, hlog, log_after_document text trailing computed'⟩
  around_eq :=
    ⟨around_after_document text trailing computed, around_after_document text trailing computed'⟩
  store_eq :=
    ⟨store_after_document text trailing computed, store_after_document text trailing computed',
      Store.config_need_of_ok computed, Store.config_need_of_ok computed'⟩

end Document

/-- A fragment that is not nested too deeply is read alike in every session, also where the
configuration cannot be computed, and leaves the session as it is. -/
theorem exists_run_fragment {host : Host} {text : Text}
    (enough : Element.read host.limit text 0 ≠ .error .exhausted) :
    ∃ found, ∀ s, (fragment host text).run s = (.ok found, s) := by
  cases hread : Element.read host.limit text 0 with
  | error fault =>
      cases Element.eq_exhausted_of_read hread
      exact absurd hread enough
  | ok result => exact ⟨fragmentOf text result, run_fragment_of_read hread⟩

/-- What the configuration says about diagnostics makes no difference to what is read. -/
theorem document_and_fragment_independent (host : Host) (text : Text) :
    (∀ (trailing : Option TrailingPolicy) (s s' : Session) (config config' : Config),
      s.inForce host = .ok config → s'.inForce host = .ok config' →
      (trailing = none → config.trailing = config'.trailing) →
        DocumentAlike host text trailing s s' config config') ∧
    (Element.read host.limit text 0 ≠ .error .exhausted →
      ∃ found, ∀ s, (fragment host text).run s = (.ok found, s)) := by
  constructor
  · intro trailing s s' config config' computed computed' agree
    exact documentAlike computed computed' agree
  · intro enough
    exact exists_run_fragment enough

/-- A session in which lines are logged and rejections quote nothing. -/
def terse : Session :=
  { Session.start with store := ⟨some ⟨true, 0, .error⟩, none, []⟩ }

/-- A session with a file that is not JSON. -/
def unreadable : Session :=
  { Session.start with around := ⟨[([".tagweaverc.json"], "\x7b")], []⟩ }

/-- A text with trailing input is rejected alike in two sessions, in one of them without a quotation
and with a line logged; the fragment in it is read also where the configuration cannot be
computed. -/
theorem document_and_fragment_independent_terse :
    Session.start.inForce (JsonFiles.host 9) = .ok .defaults ∧
      terse.inForce (JsonFiles.host 9) = .ok ⟨true, 0, .error⟩ ∧
      DocumentAlike (JsonFiles.host 9) "<a/>b" none .start terse .defaults ⟨true, 0, .error⟩ ∧
    unreadable.inForce (JsonFiles.host 9) = .error JsonFiles.notJson ∧
      Element.read 9 "<a/>b" 0 ≠ .error .exhausted ∧
      ∃ found, (fragment (JsonFiles.host 9) "<a/>b").run .start = (.ok found, .start) ∧
        (fragment (JsonFiles.host 9) "<a/>b").run unreadable = (.ok found, unreadable) := by
  have computed : Session.start.inForce (JsonFiles.host 9) = .ok .defaults := rfl
  have computed' : terse.inForce (JsonFiles.host 9) = .ok ⟨true, 0, .error⟩ := rfl
  have unusable : unreadable.inForce (JsonFiles.host 9) = .error JsonFiles.notJson := by
    decide +kernel
  have isName : Text.IsName "a" := ⟨0x61, [], by decide, by decide, nofun⟩
  have noSpaces : Element.IsSpaces [] := nofun
  have spelled : Element.Spells (Text.slice "<a/>b" 0 4).toList (.node "a" [] []) :=
    Element.Spells.single noSpaces noSpaces isName .nil
  have enough : Element.read 9 "<a/>b" 0 ≠ .error .exhausted := by
    have hread : Element.read 9 "<a/>b" 0 = .ok (.success _ _) :=
      Element.read_of_spells (by decide) (by decide) spelled (by decide)
    rw [hread]
    nofun
  obtain ⟨alike, independent⟩ := document_and_fragment_independent (JsonFiles.host 9) "<a/>b"
  obtain ⟨found, hfound⟩ := independent enough
  exact ⟨computed, computed', alike none _ _ _ _ computed computed' fun _ => rfl, unusable, enough,
    found, hfound _, hfound _⟩

end Reading

end TagMarkup
