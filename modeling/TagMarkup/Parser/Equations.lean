import TagMarkup.Parser.Run

/-!
# Equations of running

What each way to build a parser does, as one equation for the plain meaning of rules, in which the
effect is `Except Fault`. After these nothing needs to unfold `Parser.run`.
-/

namespace TagMarkup

/-- What a run comes to: a result, unless there is a fault. -/
abbrev Outcome (α : Type) := Except Fault (Result α)

namespace Outcome

variable {α β : Type}

/-- Goes on after a success, and passes failures and faults on. -/
def andThen (x : Outcome α) (next : α → Int → Outcome β) : Outcome β :=
  match x with
  | .error fault => .error fault
  | .ok (.failure q) => .ok (.failure q)
  | .ok (.success a q) => next a q

/-- Goes on after a failure, and passes successes and faults on. -/
def orElse (x : Outcome α) (next : Int → Outcome α) : Outcome α :=
  match x with
  | .error fault => .error fault
  | .ok (.failure q) => next q
  | .ok (.success a q) => .ok (.success a q)

@[simp] theorem andThen_error (fault : Fault) (next : α → Int → Outcome β) :
    andThen (.error fault) next = .error fault := rfl

@[simp] theorem andThen_failure (q : Int) (next : α → Int → Outcome β) :
    andThen (.ok (.failure q)) next = .ok (.failure q) := rfl

@[simp] theorem andThen_success (a : α) (q : Int) (next : α → Int → Outcome β) :
    andThen (.ok (.success a q)) next = next a q := rfl

@[simp] theorem orElse_error (fault : Fault) (next : Int → Outcome α) :
    orElse (.error fault) next = .error fault := rfl

@[simp] theorem orElse_failure (q : Int) (next : Int → Outcome α) :
    orElse (.ok (.failure q)) next = next q := rfl

@[simp] theorem orElse_success (a : α) (q : Int) (next : Int → Outcome α) :
    orElse (.ok (.success a q)) next = .ok (.success a q) := rfl

end Outcome

namespace Parser

variable {R : Type} {ρ : R → Type} {α β : Type}
variable (call : (r : R) → Int → Outcome (ρ r)) (text : Text)

theorem run_literal (expected : Text) (p : Int) :
    (literal expected).run call text p = .ok (readLiteral text expected p) := rfl

theorem run_character (p : Int) :
    character.run call text p = .ok (readCharacter text p) := rfl

theorem run_name (p : Int) : name.run call text p = .ok (readName text p) := rfl

theorem run_raise (fault : Fault) (p : Int) :
    (raise fault : Parser ρ α).run call text p = .error fault := rfl

theorem run_rule (r : R) (p : Int) : (rule r).run call text p = call r p := rfl

theorem run_transform (f : α → Except Fault β) (inner : Parser ρ α) (p : Int) :
    (inner.transform f).run call text p =
      (Outcome.andThen (inner.run call text p) fun a q =>
        match f a with
        | .ok b => .ok (.success b q)
        | .error fault => .error fault) := by
  simp only [run, Bind.bind, Except.bind]
  rcases inner.run call text p with _ | ⟨_ | _⟩ <;> rfl

theorem run_filter (test : α → Except Fault Bool) (inner : Parser ρ α) (p : Int) :
    (inner.filter test).run call text p =
      (Outcome.andThen (inner.run call text p) fun a q =>
        match test a with
        | .ok true => .ok (.success a q)
        | .ok false => .ok (.failure p)
        | .error fault => .error fault) := by
  simp only [run, Bind.bind, Except.bind]
  rcases inner.run call text p with _ | ⟨_ | _⟩ <;> rfl

theorem run_attempt (inner : Parser ρ α) (p : Int) :
    inner.attempt.run call text p =
      Outcome.orElse (inner.run call text p) fun _ => .ok (.failure p) := by
  simp only [run, Bind.bind, Except.bind]
  rcases inner.run call text p with _ | ⟨_ | _⟩ <;> rfl

theorem run_bind (first : Parser ρ α) (next : α → Parser ρ β) (p : Int) :
    (first.bind next).run call text p =
      Outcome.andThen (first.run call text p) fun a q => (next a).run call text q := by
  simp only [run, Bind.bind, Except.bind]
  rcases first.run call text p with _ | ⟨_ | _⟩ <;> rfl

theorem run_seq (first : Parser ρ α) (second : Parser ρ β) (p : Int) :
    (first.seq second).run call text p =
      (Outcome.andThen (first.run call text p) fun a q =>
        Outcome.andThen (second.run call text q) fun b q' => .ok (.success (a, b) q')) := by
  simp only [run, Bind.bind, Except.bind]
  rcases first.run call text p with _ | ⟨a, q⟩ | _
  · rfl
  · simp only [Outcome.andThen_success]
    rcases second.run call text q with _ | ⟨_ | _⟩ <;> rfl
  · rfl

theorem run_orElse (first second : Parser ρ α) (p : Int) :
    (first.orElse second).run call text p =
      Outcome.orElse (first.run call text p) fun _ => second.run call text p := by
  simp only [run, Bind.bind, Except.bind]
  rcases first.run call text p with _ | ⟨_ | _⟩ <;> rfl

theorem run_many (item : Parser ρ α) (p : Int) :
    item.many.run call text p =
      repeatFrom (m := Except Fault) (item.run call text) (bound text p) [] p := rfl

theorem run_many1 (item : Parser ρ α) (p : Int) :
    item.many1.run call text p =
      (Outcome.andThen (Outcome.orElse (item.run call text p) fun _ => .ok (.failure p)) fun a q =>
        repeatFrom (m := Except Fault) (item.run call text) (bound text q) [a] q) := by
  simp only [run, Bind.bind, Except.bind]
  rcases item.run call text p with _ | ⟨_ | _⟩ <;> rfl

/-- One round of a repetition. -/
theorem repeatFrom_eq (item : Int → Outcome α) (last : Int) (read : List α) (cur : Int) :
    repeatFrom (m := Except Fault) item last read cur =
      match item cur with
      | .error fault => .error fault
      | .ok (.failure _) => .ok (.success read.reverse cur)
      | .ok (.success a next) =>
        if cur < next ∧ next ≤ last then repeatFrom (m := Except Fault) item last (a :: read) next
        else .ok (.success read.reverse cur) := by
  rw [repeatFrom]
  simp only [Bind.bind, Except.bind]
  rcases item cur with _ | ⟨_ | _⟩ <;> rfl

theorem run_map (f : α → β) (inner : Parser ρ α) (p : Int) :
    (inner.map f).run call text p =
      Outcome.andThen (inner.run call text p) fun a q => .ok (.success (f a) q) := by
  rw [Parser.map, run_transform]

theorem run_satisfying (inner : Parser ρ α) (cls : α → Bool) (p : Int) :
    (inner.satisfying cls).run call text p =
      (Outcome.andThen (inner.run call text p) fun a q =>
        if cls a then .ok (.success a q) else .ok (.failure p)) := by
  rw [satisfying, run_filter]
  congr 1
  funext a q
  cases cls a <;> rfl

theorem run_seqLeft (first : Parser ρ α) (second : Parser ρ β) (p : Int) :
    (first.seqLeft second).run call text p =
      (Outcome.andThen (first.run call text p) fun a q =>
        Outcome.andThen (second.run call text q) fun _ q' => .ok (.success a q')) := by
  rw [seqLeft, run_map, run_seq]
  rcases first.run call text p with _ | ⟨a, q⟩ | _
  · rfl
  · simp only [Outcome.andThen_success]
    rcases second.run call text q with _ | ⟨_ | _⟩ <;> rfl
  · rfl

theorem run_seqRight (first : Parser ρ α) (second : Parser ρ β) (p : Int) :
    (first.seqRight second).run call text p =
      Outcome.andThen (first.run call text p) fun _ q => second.run call text q := by
  rw [seqRight, run_map, run_seq]
  rcases first.run call text p with _ | ⟨a, q⟩ | _
  · rfl
  · simp only [Outcome.andThen_success]
    rcases second.run call text q with _ | ⟨_ | _⟩ <;> rfl
  · rfl

end Parser

end TagMarkup
