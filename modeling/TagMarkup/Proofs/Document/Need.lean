import TagMarkup.Proofs.Config.Store
import TagMarkup.Proofs.Document

/-!
# Needing the configuration

A computation that begins by needing the configuration fails where the configuration cannot be
computed, and does nothing but to need it. Elsewhere it does what it does in the session in which
the configuration has been stored before.

## Implementation notes

`Session.inForce` is what a need finds in a session, and `Session.afterNeed` the session that it
leaves. `Reading.Needs` says of a computation that one more need in front of it makes no difference;
since needs are idempotent, this is how the computations that begin with a need are told from the
others.
-/

namespace TagMarkup

namespace Session

/-- The configuration that a need finds in a session, whether stored or computed for it. -/
def inForce (host : Host) (s : Session) : Except ConfigError Config :=
  (s.store.need host s.around).1

/-- The session that a need leaves. -/
def afterNeed (host : Host) (s : Session) : Session :=
  { s with store := (s.store.need host s.around).2 }

/-- The session with a line logged, if the configuration asks for it. -/
def logged (s : Session) (config : Config) (line : Text) : Session :=
  if config.debug then { s with log := s.log ++ [(Reading.logMark : Text) ++ line] } else s

variable (host : Host) (s : Session) (config : Config) (line : Text)

@[simp] theorem inForce_afterNeed : (s.afterNeed host).inForce host = s.inForce host :=
  congrArg Prod.fst (s.store.need_need host s.around)

@[simp] theorem afterNeed_afterNeed : (s.afterNeed host).afterNeed host = s.afterNeed host :=
  congrArg (fun store => ({ s with store } : Session))
    (congrArg Prod.snd (s.store.need_need host s.around))

@[simp] theorem around_afterNeed : (s.afterNeed host).around = s.around := rfl

@[simp] theorem around_logged : (s.logged config line).around = s.around := by
  unfold logged
  split <;> rfl

@[simp] theorem store_logged : (s.logged config line).store = s.store := by
  unfold logged
  split <;> rfl

@[simp] theorem inForce_logged : (s.logged config line).inForce host = s.inForce host := by
  simp [inForce]

theorem afterNeed_logged :
    (s.logged config line).afterNeed host = (s.afterNeed host).logged config line := by
  unfold logged
  split <;> rfl

theorem log_logged : (s.logged config line).log =
    s.log ++ if config.debug then [(Reading.logMark : Text) ++ line] else [] := by
  unfold logged
  split
  · rfl
  · exact (List.append_nil _).symm

end Session

namespace Reading

variable {α β : Type} {host : Host}

section Need

variable {s : Session} {config : Config} {e : ConfigError}

theorem run_onStore (change : Surroundings → Store → Except ConfigError α × Store) (s : Session) :
    (onStore change).run s =
      ((change s.around s.store).1.mapError .unusable,
        { s with store := (change s.around s.store).2 }) := by
  have hget : (get : Reading Session).run s = (.ok s, s) := rfl
  have hset (s' : Session) : (set s' : Reading PUnit).run s = (.ok ⟨⟩, s') := rfl
  rw [onStore, run_bind, hget]
  dsimp only
  rw [run_bind, hset]
  dsimp only
  cases (change s.around s.store).1 with
  | ok a => rfl
  | error e => rfl

theorem run_need (s : Session) :
    (need host).run s = ((s.inForce host).mapError .unusable, s.afterNeed host) := by
  rw [need, run_onStore]
  rfl

theorem outcome_need (s : Session) :
    (need host).outcome s = (s.inForce host).mapError .unusable := by
  rw [outcome, run_need]

/-- What a sequence that begins with a need does where the configuration can be computed. -/
theorem run_need_bind_of_ok (h : s.inForce host = .ok config) (next : Config → Reading β) :
    (need host >>= next).run s = (next config).run (s.afterNeed host) := by
  rw [run_bind, run_need, h]
  rfl

theorem run_need_bind_of_error (h : s.inForce host = .error e) (next : Config → Reading β) :
    (need host >>= next).run s = (.error (.unusable e), s.afterNeed host) := by
  rw [run_bind, run_need, h]
  rfl

end Need

/-- One more need in front of the computation makes no difference. -/
def Needs (host : Host) (x : Reading α) : Prop :=
  (do let _ ← need host; x) = x

section Needs

variable {x : Reading α} {s : Session}

theorem ext_run {y : Reading α} (h : ∀ s, x.run s = y.run s) : x = y :=
  funext h

theorem needs_need : Needs host (need host) := by
  apply ext_run
  intro s
  cases h : s.inForce host with
  | ok config => rw [run_need_bind_of_ok h, run_need, run_need, Session.inForce_afterNeed,
      Session.afterNeed_afterNeed]
  | error e =>
      rw [run_need_bind_of_error h, run_need, h]
      rfl

theorem Needs.bind (h : Needs host x) (next : α → Reading β) : Needs host (x >>= next) := by
  rw [Needs, ← bind_assoc, h]

theorem Needs.run_of_ok (h : Needs host x) {config : Config} (hs : s.inForce host = .ok config) :
    x.run s = x.run (s.afterNeed host) := by
  rw [← run_need_bind_of_ok hs fun _ => x, h]

theorem Needs.run_of_error (h : Needs host x) {e : ConfigError} (hs : s.inForce host = .error e) :
    x.run s = (.error (.unusable e), s.afterNeed host) := by
  rw [← run_need_bind_of_error hs fun _ => x, h]

/-- Asked after a need, such a computation does what it does without. -/
theorem Needs.run_afterNeed (h : Needs host x) (s : Session) :
    x.run (s.afterNeed host) = x.run s := by
  cases hs : s.inForce host with
  | ok config => exact (h.run_of_ok hs).symm
  | error e =>
      have hagain : (s.afterNeed host).inForce host = .error e := by
        rw [Session.inForce_afterNeed, hs]
      rw [h.run_of_error hs, h.run_of_error hagain, Session.afterNeed_afterNeed]

theorem needs_debugLine (line : Text) : Needs host (debugLine host line) :=
  needs_need.bind _

theorem needs_reject (text : Text) (offset : Int) (reason : Reason) :
    Needs host (reject host text offset reason : Reading α) :=
  (needs_debugLine _).bind _

end Needs

end Reading

end TagMarkup
