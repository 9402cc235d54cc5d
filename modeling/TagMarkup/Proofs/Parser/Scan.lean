import TagMarkup.Parser.Equations

/-!
# Reading from a list of units

What a parser does inside a text is a function of the units that are left. `Parser.scan` is that
function: it takes and leaves lists of units where `Parser.run` takes and leaves offsets. The two
are compared in `TagMarkup.Proofs.Parser.Position`.

## Implementation notes

A repetition that does not raise a fault always succeeds, so `scanRepeat` is the reading of `many`
as it stands; `many1` puts its first value in front of it.
-/

namespace TagMarkup

/-- What a reading that is not ended by a fault comes to. -/
inductive Scan (α : Type) where
  /-- A value, and the units left after it. -/
  | success (value : α) (rest : List CodeUnit)
  /-- The units left where reading stopped. -/
  | failure (rest : List CodeUnit)

namespace Scan

variable {α : Type}

/-- The units left by a success or a failure. -/
def rest : Scan α → List CodeUnit
  | success _ us => us
  | failure us => us

@[simp] theorem rest_success (a : α) (us : List CodeUnit) : (success a us).rest = us := rfl

@[simp] theorem rest_failure (us : List CodeUnit) : (failure us : Scan α).rest = us := rfl

end Scan

/-- What reading a list of units comes to: a scan, unless there is a fault. -/
abbrev Scanned (α : Type) := Except Fault (Scan α)

namespace Scanned

variable {α β : Type}

/-- Goes on after a success, and passes failures and faults on. -/
def andThen (x : Scanned α) (next : α → List CodeUnit → Scanned β) : Scanned β :=
  match x with
  | .error fault => .error fault
  | .ok (.failure us) => .ok (.failure us)
  | .ok (.success a us) => next a us

/-- Goes on after a failure, and passes successes and faults on. -/
def orElse (x : Scanned α) (next : List CodeUnit → Scanned α) : Scanned α :=
  match x with
  | .error fault => .error fault
  | .ok (.failure us) => next us
  | .ok (.success a us) => .ok (.success a us)

@[simp] theorem andThen_error (fault : Fault) (next : α → List CodeUnit → Scanned β) :
    andThen (.error fault) next = .error fault := rfl

@[simp] theorem andThen_failure (us : List CodeUnit) (next : α → List CodeUnit → Scanned β) :
    andThen (.ok (.failure us)) next = .ok (.failure us) := rfl

@[simp] theorem andThen_success (a : α) (us : List CodeUnit)
    (next : α → List CodeUnit → Scanned β) :
    andThen (.ok (.success a us)) next = next a us := rfl

@[simp] theorem orElse_error (fault : Fault) (next : List CodeUnit → Scanned α) :
    orElse (.error fault) next = .error fault := rfl

@[simp] theorem orElse_failure (us : List CodeUnit) (next : List CodeUnit → Scanned α) :
    orElse (.ok (.failure us)) next = next us := rfl

@[simp] theorem orElse_success (a : α) (us : List CodeUnit) (next : List CodeUnit → Scanned α) :
    orElse (.ok (.success a us)) next = .ok (.success a us) := rfl

/-- A scan is ended by a fault, succeeds, or fails. -/
@[elab_as_elim]
theorem cases {motive : Scanned α → Prop} (x : Scanned α)
    (error : ∀ fault, motive (.error fault))
    (success : ∀ a us, motive (.ok (.success a us)))
    (failure : ∀ us, motive (.ok (.failure us))) : motive x :=
  match x with
  | .error fault => error fault
  | .ok (.success a us) => success a us
  | .ok (.failure us) => failure us

/-- A sequence succeeds when both of its parts do. -/
theorem andThen_eq_success {x : Scanned α} {next : α → List CodeUnit → Scanned β} {b : β}
    {rest : List CodeUnit} :
    andThen x next = .ok (.success b rest) ↔
      ∃ a us, x = .ok (.success a us) ∧ next a us = .ok (.success b rest) := by
  cases x using cases with
  | error fault => simp
  | success a us =>
      constructor
      · intro h
        exact ⟨a, us, rfl, h⟩
      · rintro ⟨_, _, ⟨⟩, h⟩
        exact h
  | failure us => simp

/-- An alternative succeeds when the first part does, or when the second does after it failed. -/
theorem orElse_eq_success {x : Scanned α} {next : List CodeUnit → Scanned α} {a : α}
    {rest : List CodeUnit} :
    orElse x next = .ok (.success a rest) ↔
      x = .ok (.success a rest) ∨
        ∃ us, x = .ok (.failure us) ∧ next us = .ok (.success a rest) := by
  cases x using cases with
  | error fault => simp
  | success a us => simp
  | failure us => simp

end Scanned

namespace Parser

section Primitives

/-- Reads a fixed text. -/
def scanLiteral (expected : Text) (us : List CodeUnit) : Scan Unit :=
  if expected.toList <+: us then .success () (us.drop expected.size) else .failure us

/-- Reads one character. -/
def scanCharacter : List CodeUnit → Scan Text
  | [] => .failure []
  | [u] => .success (.singleton u) []
  | u :: v :: us =>
    if u.isHighSurrogate && v.isLowSurrogate then .success ⟨#[u, v]⟩ us
    else .success (.singleton u) (v :: us)

/-- Reads the longest name. -/
def scanName : List CodeUnit → Scan Text
  | [] => .failure []
  | u :: us =>
    if u.isLetter then
      .success (.ofList (u :: us.takeWhile CodeUnit.isNameUnit)) (us.dropWhile CodeUnit.isNameUnit)
    else .failure (u :: us)

end Primitives

variable {R : Type} {ρ : R → Type} {α β : Type}

/-- Reads items until one fails or consumes nothing. -/
def scanRepeat (item : List CodeUnit → Scanned α) (us : List CodeUnit) : Scanned (List α) :=
  match item us with
  | .error fault => .error fault
  | .ok (.failure _) => .ok (.success [] us)
  | .ok (.success a rest) =>
    if rest.length < us.length then
      Scanned.andThen (scanRepeat item rest) fun as left => .ok (.success (a :: as) left)
    else .ok (.success [] us)
termination_by us.length

/-- Reads a list of units, given the meaning of the rules. -/
def scan (call : (r : R) → List CodeUnit → Scanned (ρ r)) {α : Type} (parser : Parser ρ α)
    (us : List CodeUnit) : Scanned α :=
  match parser with
  | literal expected => .ok (scanLiteral expected us)
  | character => .ok (scanCharacter us)
  | name => .ok (scanName us)
  | raise fault => .error fault
  | rule r => call r us
  | transform f inner =>
    Scanned.andThen (inner.scan call us) fun a rest =>
      match f a with
      | .ok b => .ok (.success b rest)
      | .error fault => .error fault
  | filter test inner =>
    Scanned.andThen (inner.scan call us) fun a rest =>
      match test a with
      | .ok true => .ok (.success a rest)
      | .ok false => .ok (.failure us)
      | .error fault => .error fault
  | attempt inner => Scanned.orElse (inner.scan call us) fun _ => .ok (.failure us)
  | seq first second =>
    Scanned.andThen (first.scan call us) fun a rest =>
      Scanned.andThen (second.scan call rest) fun b left => .ok (.success (a, b) left)
  | .bind first next =>
    Scanned.andThen (first.scan call us) fun a rest => (next a).scan call rest
  | orElse first second =>
    Scanned.orElse (first.scan call us) fun _ => second.scan call us
  | many item => scanRepeat (item.scan call) us
  | many1 item =>
    Scanned.andThen (Scanned.orElse (item.scan call us) fun _ => .ok (.failure us)) fun a rest =>
      Scanned.andThen (scanRepeat (item.scan call) rest) fun as left =>
        .ok (.success (a :: as) left)

end Parser

namespace Grammar

variable {R : Type} {ρ : R → Type}

/-- What a rule reads from a list of units when at most `limit` rules may be active at once. -/
def scanCall (g : Grammar ρ) : (limit : Nat) → (r : R) → List CodeUnit → Scanned (ρ r)
  | 0, _, _ => .error .exhausted
  | limit + 1, r, us => (g r).scan (scanCall g limit) us

/-- Reads a list of units with the rules of a grammar. -/
def scan {α : Type} (g : Grammar ρ) (limit : Nat) (parser : Parser ρ α) (us : List CodeUnit) :
    Scanned α :=
  parser.scan (g.scanCall limit) us

end Grammar

namespace Parser

variable {R : Type} {ρ : R → Type} {α β : Type}
variable (call : (r : R) → List CodeUnit → Scanned (ρ r))

theorem scan_name (us : List CodeUnit) :
    (name : Parser ρ Text).scan call us = .ok (scanName us) := rfl

theorem scan_attempt (inner : Parser ρ α) (us : List CodeUnit) :
    inner.attempt.scan call us =
      Scanned.orElse (inner.scan call us) fun _ => .ok (.failure us) := rfl

theorem scan_seq (first : Parser ρ α) (second : Parser ρ β) (us : List CodeUnit) :
    (first.seq second).scan call us =
      Scanned.andThen (first.scan call us) fun a rest =>
        Scanned.andThen (second.scan call rest) fun b left => .ok (.success (a, b) left) := rfl

theorem scan_bind (first : Parser ρ α) (next : α → Parser ρ β) (us : List CodeUnit) :
    (first.bind next).scan call us =
      Scanned.andThen (first.scan call us) fun a rest => (next a).scan call rest := rfl

theorem scan_orElse (first second : Parser ρ α) (us : List CodeUnit) :
    (first.orElse second).scan call us =
      Scanned.orElse (first.scan call us) fun _ => second.scan call us := rfl

theorem scan_many (item : Parser ρ α) (us : List CodeUnit) :
    item.many.scan call us = scanRepeat (item.scan call) us := rfl

theorem scan_map (f : α → β) (inner : Parser ρ α) (us : List CodeUnit) :
    (inner.map f).scan call us =
      Scanned.andThen (inner.scan call us) fun a rest => .ok (.success (f a) rest) := rfl

theorem scan_satisfying (inner : Parser ρ α) (cls : α → Bool) (us : List CodeUnit) :
    (inner.satisfying cls).scan call us =
      Scanned.andThen (inner.scan call us) fun a rest =>
        if cls a then .ok (.success a rest) else .ok (.failure us) := by
  rw [satisfying, scan]
  congr 1
  funext a rest
  cases cls a <;> rfl

theorem scan_seqLeft (first : Parser ρ α) (second : Parser ρ β) (us : List CodeUnit) :
    (first.seqLeft second).scan call us =
      Scanned.andThen (first.scan call us) fun a rest =>
        Scanned.andThen (second.scan call rest) fun _ left => .ok (.success a left) := by
  rw [seqLeft, scan_map, scan]
  cases first.scan call us using Scanned.cases with
  | error fault => rfl
  | failure left => rfl
  | success a rest =>
      simp only [Scanned.andThen_success]
      cases second.scan call rest using Scanned.cases <;> rfl

theorem scan_seqRight (first : Parser ρ α) (second : Parser ρ β) (us : List CodeUnit) :
    (first.seqRight second).scan call us =
      Scanned.andThen (first.scan call us) fun _ rest => second.scan call rest := by
  rw [seqRight, scan_map, scan]
  cases first.scan call us using Scanned.cases with
  | error fault => rfl
  | failure left => rfl
  | success a rest =>
      simp only [Scanned.andThen_success]
      cases second.scan call rest using Scanned.cases <;> rfl

theorem scan_literal_append (expected : Text) (us : List CodeUnit) :
    (literal expected : Parser ρ Unit).scan call (expected.toList ++ us) =
      .ok (.success () us) := by
  rw [scan, scanLiteral, if_pos (List.prefix_append _ _), ← Text.length_toList,
    List.drop_left]

theorem scan_literal_of_absent {expected : Text} {us : List CodeUnit}
    (h : ¬ expected.toList <+: us) :
    (literal expected : Parser ρ Unit).scan call us = .ok (.failure us) := by
  rw [scan, scanLiteral, if_neg h]

/-- A fixed text is read when it stands in front. -/
theorem scan_literal_eq_success {expected : Text} {us rest : List CodeUnit} {a : Unit} :
    (literal expected : Parser ρ Unit).scan call us = .ok (.success a rest) ↔
      us = expected.toList ++ rest := by
  constructor
  · intro h
    by_cases hfront : expected.toList <+: us
    · obtain ⟨more, rfl⟩ := hfront
      rw [scan_literal_append] at h
      cases h
      rfl
    · rw [scan_literal_of_absent call hfront] at h
      cases h
  · rintro rfl
    exact scan_literal_append call expected rest

section Repeat

variable {item : List CodeUnit → Scanned α}

theorem scanRepeat_of_failure {us vs : List CodeUnit} (h : item us = .ok (.failure vs)) :
    scanRepeat item us = .ok (.success [] us) := by
  rw [scanRepeat, h]

theorem scanRepeat_of_success {us rest : List CodeUnit} {a : α}
    (h : item us = .ok (.success a rest)) (shorter : rest.length < us.length) :
    scanRepeat item us =
      Scanned.andThen (scanRepeat item rest) fun as left => .ok (.success (a :: as) left) := by
  rw [scanRepeat, h]
  simp only [if_pos shorter]

/-- Items read one after the other, each of which consumed something. -/
inductive Chain (item : List CodeUnit → Scanned α) :
    List CodeUnit → List α → List CodeUnit → Prop where
  /-- No items. -/
  | nil (us : List CodeUnit) : Chain item us [] us
  /-- An item, then further items. -/
  | cons {us mid rest : List CodeUnit} {a : α} {as : List α}
      (first : item us = .ok (.success a mid)) (shorter : mid.length < us.length)
      (others : Chain item mid as rest) : Chain item us (a :: as) rest

theorem Chain.of_scanRepeat {us rest : List CodeUnit} {as : List α}
    (h : scanRepeat item us = .ok (.success as rest)) : Chain item us as rest := by
  fun_induction scanRepeat item us generalizing as rest with
  | case1 us fault hi => cases h
  | case2 us vs hi =>
      cases h
      exact .nil us
  | case3 us a mid hi shorter ih =>
      obtain ⟨as', rest', hmore, heq⟩ := Scanned.andThen_eq_success.mp h
      cases heq
      exact .cons hi shorter (ih hmore)
  | case4 us a mid hi shorter =>
      cases h
      exact .nil us

/-- A chain that ends where the next item fails is what a repetition reads. -/
theorem Chain.scanRepeat_eq {us rest vs : List CodeUnit} {as : List α}
    (chain : Chain item us as rest) (stop : item rest = .ok (.failure vs)) :
    scanRepeat item us = .ok (.success as rest) := by
  induction chain with
  | nil us => exact scanRepeat_of_failure stop
  | cons first shorter others ih =>
      rw [scanRepeat_of_success first shorter, ih stop]
      rfl

end Repeat

end Parser

end TagMarkup
