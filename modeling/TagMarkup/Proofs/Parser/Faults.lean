import Mathlib.Logic.Relation
import TagMarkup.Parser.Equations

/-!
# Where faults come from and where they go

A fault in any part of a run is a fault of the whole run: no alternative, repetition, test or
attempt holds it back (`Grammar.Performs.fault`). In the other direction, a run in which no function
raises a fault has exhaustion as its only one (`Grammar.atMostExhausted_run`).

## Implementation notes

`Grammar.Invokes` has one case for each run that the run of a parser may call on at once, with the
condition under which it comes to that run. `Grammar.Performs` is its reflexive transitive closure.
-/

namespace TagMarkup

namespace Parser

variable {R : Type} {ρ : R → Type} {α : Type}

/-- Where a repetition looks for an item: where it starts, and after each item that moved it on. -/
inductive Reaches (item : Int → Outcome α) (last : Int) : Int → Int → Prop where
  /-- The first item is looked for at the start. -/
  | start (p : Int) : Reaches item last p p
  /-- The next item is looked for where an item ended that consumed something. -/
  | next {p mid q : Int} {a : α} (first : item p = .ok (.success a mid)) (grows : p < mid)
      (inside : mid ≤ last) (others : Reaches item last mid q) : Reaches item last p q

/-- A repetition does not get past a fault of an item. -/
theorem Reaches.repeatFrom_eq_error {item : Int → Outcome α} {last p q : Int} {fault : Fault}
    (reached : Reaches item last p q) (h : item q = .error fault) (read : List α) :
    repeatFrom (m := Except Fault) item last read p = .error fault := by
  induction reached generalizing read with
  | start p => rw [repeatFrom_eq, h]
  | next first grows inside others ih =>
      rw [repeatFrom_eq, first]
      simp only [if_pos (And.intro grows inside)]
      exact ih h _

end Parser

namespace Grammar

variable {R : Type} {ρ : R → Type}

/-- A parser that is run from an offset while so many rules may still become active. -/
structure Invocation (ρ : R → Type) : Type 1 where
  /-- The type of the values. -/
  {Value : Type}
  /-- How many rules may become active. -/
  limit : Nat
  /-- The parser. -/
  parser : Parser ρ Value
  /-- Where it starts. -/
  offset : Int

/-- What an invocation comes to in a text. -/
def Invocation.outcome (g : Grammar ρ) (text : Text) (x : Invocation ρ) : Outcome x.Value :=
  g.run x.limit x.parser text x.offset

/-- The run of one parser calls at some point for the run of another. -/
inductive Invokes (g : Grammar ρ) (text : Text) : Invocation ρ → Invocation ρ → Prop where
  /-- A rule is read as what it stands for, which uses up an activation. -/
  | rule (limit : Nat) (r : R) (p : Int) : Invokes g text ⟨limit + 1, .rule r, p⟩ ⟨limit, g r, p⟩
  /-- A function is applied to what is read. -/
  | transform {α β : Type} (limit : Nat) (f : α → Except Fault β) (inner : Parser ρ α) (p : Int) :
      Invokes g text ⟨limit, inner.transform f, p⟩ ⟨limit, inner, p⟩
  /-- A test is made of what is read. -/
  | filter {α : Type} (limit : Nat) (test : α → Except Fault Bool) (inner : Parser ρ α) (p : Int) :
      Invokes g text ⟨limit, inner.filter test, p⟩ ⟨limit, inner, p⟩
  /-- An attempt is made. -/
  | attempt {α : Type} (limit : Nat) (inner : Parser ρ α) (p : Int) :
      Invokes g text ⟨limit, inner.attempt, p⟩ ⟨limit, inner, p⟩
  /-- The first part of a sequence is read. -/
  | seqFirst {α β : Type} (limit : Nat) (first : Parser ρ α) (second : Parser ρ β) (p : Int) :
      Invokes g text ⟨limit, first.seq second, p⟩ ⟨limit, first, p⟩
  /-- The second part of a sequence is read behind the first. -/
  | seqSecond {α β : Type} {limit : Nat} {first : Parser ρ α} {p q : Int} {a : α}
      (h : g.run limit first text p = .ok (.success a q)) (second : Parser ρ β) :
      Invokes g text ⟨limit, first.seq second, p⟩ ⟨limit, second, q⟩
  /-- What decides on the next parser is read. -/
  | bindFirst {α β : Type} (limit : Nat) (first : Parser ρ α) (next : α → Parser ρ β) (p : Int) :
      Invokes g text ⟨limit, first.bind next, p⟩ ⟨limit, first, p⟩
  /-- What the value asks for is read behind it. -/
  | bindNext {α β : Type} {limit : Nat} {first : Parser ρ α} {p q : Int} {a : α}
      (h : g.run limit first text p = .ok (.success a q)) (next : α → Parser ρ β) :
      Invokes g text ⟨limit, first.bind next, p⟩ ⟨limit, next a, q⟩
  /-- The first alternative is tried. -/
  | orElseFirst {α : Type} (limit : Nat) (first second : Parser ρ α) (p : Int) :
      Invokes g text ⟨limit, first.orElse second, p⟩ ⟨limit, first, p⟩
  /-- The second alternative is tried after the first has failed. -/
  | orElseSecond {α : Type} {limit : Nat} {first : Parser ρ α} {p q : Int}
      (h : g.run limit first text p = .ok (.failure q)) (second : Parser ρ α) :
      Invokes g text ⟨limit, first.orElse second, p⟩ ⟨limit, second, p⟩
  /-- An item of a repetition is looked for. -/
  | manyItem {α : Type} {limit : Nat} {item : Parser ρ α} {p q : Int}
      (h : Parser.Reaches (g.run limit item text) (Parser.bound text p) p q) :
      Invokes g text ⟨limit, item.many, p⟩ ⟨limit, item, q⟩
  /-- The first item of a repetition that must have one is looked for. -/
  | many1First {α : Type} (limit : Nat) (item : Parser ρ α) (p : Int) :
      Invokes g text ⟨limit, item.many1, p⟩ ⟨limit, item, p⟩
  /-- A further item is looked for behind the first. -/
  | many1Item {α : Type} {limit : Nat} {item : Parser ρ α} {p mid q : Int} {a : α}
      (first : g.run limit item text p = .ok (.success a mid))
      (h : Parser.Reaches (g.run limit item text) (Parser.bound text mid) mid q) :
      Invokes g text ⟨limit, item.many1, p⟩ ⟨limit, item, q⟩

/-- The run of one parser contains the run of another, or is that run. -/
abbrev Performs (g : Grammar ρ) (text : Text) : Invocation ρ → Invocation ρ → Prop :=
  Relation.ReflTransGen (g.Invokes text)

variable {g : Grammar ρ} {text : Text} {x y : Invocation ρ} {f : Fault}

theorem Invocation.outcome_mk {α : Type} (limit : Nat) (parser : Parser ρ α) (p : Int) :
    (Invocation.mk limit parser p).outcome g text = parser.run (g.call text limit) text p := rfl

/-- A fault of a run that is called for is a fault of the run that calls for it. -/
theorem Invokes.fault (called : g.Invokes text x y) (h : y.outcome g text = .error f) :
    x.outcome g text = .error f := by
  cases called with
  | rule limit r p => exact h
  | transform limit _ inner p =>
      rw [Invocation.outcome_mk] at h ⊢
      rw [Parser.run_transform, h, Outcome.andThen_error]
  | filter limit test inner p =>
      rw [Invocation.outcome_mk] at h ⊢
      rw [Parser.run_filter, h, Outcome.andThen_error]
  | attempt limit inner p =>
      rw [Invocation.outcome_mk] at h ⊢
      rw [Parser.run_attempt, h, Outcome.orElse_error]
  | seqFirst limit first second p =>
      rw [Invocation.outcome_mk] at h ⊢
      rw [Parser.run_seq, h, Outcome.andThen_error]
  | seqSecond hfirst second =>
      rw [Invocation.outcome_mk] at h ⊢
      rw [run] at hfirst
      rw [Parser.run_seq, hfirst, Outcome.andThen_success, h, Outcome.andThen_error]
  | bindFirst limit first next p =>
      rw [Invocation.outcome_mk] at h ⊢
      rw [Parser.run_bind, h, Outcome.andThen_error]
  | bindNext hfirst next =>
      rw [Invocation.outcome_mk] at h ⊢
      rw [run] at hfirst
      rw [Parser.run_bind, hfirst, Outcome.andThen_success, h]
  | orElseFirst limit first second p =>
      rw [Invocation.outcome_mk] at h ⊢
      rw [Parser.run_orElse, h, Outcome.orElse_error]
  | orElseSecond hfirst second =>
      rw [Invocation.outcome_mk] at h ⊢
      rw [run] at hfirst
      rw [Parser.run_orElse, hfirst, Outcome.orElse_failure, h]
  | manyItem reached =>
      rw [Invocation.outcome_mk, Parser.run_many]
      exact reached.repeatFrom_eq_error h []
  | many1First limit item p =>
      rw [Invocation.outcome_mk] at h ⊢
      rw [Parser.run_many1, h, Outcome.orElse_error, Outcome.andThen_error]
  | many1Item hfirst reached =>
      rw [run] at hfirst
      rw [Invocation.outcome_mk, Parser.run_many1, hfirst, Outcome.orElse_success,
        Outcome.andThen_success]
      exact reached.repeatFrom_eq_error h _

/-- A fault anywhere in a run is a fault of the run. -/
theorem Performs.fault (contained : g.Performs text x y) (h : y.outcome g text = .error f) :
    x.outcome g text = .error f := by
  induction contained with
  | refl => exact h
  | tail before called ih =>
      apply ih
      exact called.fault h

end Grammar

namespace Outcome

variable {α β : Type}

/-- Only exhaustion may end the run in a fault. -/
def AtMostExhausted (x : Outcome α) : Prop :=
  ∀ f, x = .error f → f = .exhausted

theorem atMostExhausted_ok (result : Result α) : AtMostExhausted (.ok result) := by
  intro f h
  cases h

theorem AtMostExhausted.andThen {x : Outcome α} {next : α → Int → Outcome β}
    (hx : AtMostExhausted x) (hnext : ∀ a q, AtMostExhausted (next a q)) :
    AtMostExhausted (Outcome.andThen x next) := by
  rcases x with f | ⟨a, q⟩ | q
  · intro f' h
    cases h
    exact hx f rfl
  · exact hnext a q
  · exact atMostExhausted_ok _

theorem AtMostExhausted.orElse {x : Outcome α} {next : Int → Outcome α}
    (hx : AtMostExhausted x) (hnext : ∀ q, AtMostExhausted (next q)) :
    AtMostExhausted (Outcome.orElse x next) := by
  rcases x with f | ⟨a, q⟩ | q
  · exact hx
  · exact atMostExhausted_ok _
  · exact hnext q

end Outcome

namespace Parser

variable {R : Type} {ρ : R → Type} {α : Type}

/-- No function in the parser raises a fault. -/
def FaultFree : {α : Type} → Parser ρ α → Prop
  | _, literal _ | _, character | _, name | _, rule _ => True
  | _, raise _ => False
  | _, transform f inner => (∀ a, ∃ b, f a = .ok b) ∧ inner.FaultFree
  | _, filter test inner => (∀ a, ∃ accepted, test a = .ok accepted) ∧ inner.FaultFree
  | _, attempt inner | _, many inner | _, many1 inner => inner.FaultFree
  | _, seq first second | _, orElse first second => first.FaultFree ∧ second.FaultFree
  | _, .bind first next => first.FaultFree ∧ ∀ a, (next a).FaultFree

theorem atMostExhausted_repeatFrom {item : Int → Outcome α}
    (h : ∀ p, Outcome.AtMostExhausted (item p)) (last : Int) (read : List α) (cur : Int) :
    Outcome.AtMostExhausted (repeatFrom (m := Except Fault) item last read cur) := by
  rw [repeatFrom_eq]
  rcases hitem : item cur with f | ⟨a, next⟩ | q
  · intro f' hf
    cases hf
    exact h cur f hitem
  · simp only
    split
    · exact atMostExhausted_repeatFrom h last (a :: read) next
    · exact Outcome.atMostExhausted_ok _
  · exact Outcome.atMostExhausted_ok _
termination_by (last - cur).toNat
decreasing_by omega

/-- If no function raises a fault, only a rule can be the reason for one. -/
theorem FaultFree.atMostExhausted_run {call : (r : R) → Int → Outcome (ρ r)}
    (hcall : ∀ r p, Outcome.AtMostExhausted (call r p)) {parser : Parser ρ α}
    (faultFree : parser.FaultFree) (text : Text) (p : Int) :
    Outcome.AtMostExhausted (parser.run call text p) := by
  induction parser generalizing p with
  | literal expected => exact Outcome.atMostExhausted_ok _
  | character => exact Outcome.atMostExhausted_ok _
  | name => exact Outcome.atMostExhausted_ok _
  | raise f => exact faultFree.elim
  | rule r => exact hcall r p
  | transform f inner ih =>
      obtain ⟨total, hinner⟩ := faultFree
      rw [run_transform]
      apply (ih hinner p).andThen
      intro a q
      obtain ⟨b, hb⟩ := total a
      rw [hb]
      exact Outcome.atMostExhausted_ok _
  | filter test inner ih =>
      obtain ⟨total, hinner⟩ := faultFree
      rw [run_filter]
      apply (ih hinner p).andThen
      intro a q
      obtain ⟨accepted, haccepted⟩ := total a
      rw [haccepted]
      cases accepted <;> exact Outcome.atMostExhausted_ok _
  | attempt inner ih =>
      rw [run_attempt]
      exact (ih faultFree p).orElse fun _ => Outcome.atMostExhausted_ok _
  | seq first second ih₁ ih₂ =>
      obtain ⟨hfirst, hsecond⟩ := faultFree
      rw [run_seq]
      apply (ih₁ hfirst p).andThen
      intro a q
      exact (ih₂ hsecond q).andThen fun b q' => Outcome.atMostExhausted_ok _
  | bind first next ih₁ ih₂ =>
      obtain ⟨hfirst, hnext⟩ := faultFree
      rw [run_bind]
      apply (ih₁ hfirst p).andThen
      intro a q
      exact ih₂ a (hnext a) q
  | orElse first second ih₁ ih₂ =>
      obtain ⟨hfirst, hsecond⟩ := faultFree
      rw [run_orElse]
      exact (ih₁ hfirst p).orElse fun _ => ih₂ hsecond p
  | many item ih =>
      rw [run_many]
      exact atMostExhausted_repeatFrom (ih faultFree) _ _ _
  | many1 item ih =>
      rw [run_many1]
      apply ((ih faultFree p).orElse fun _ => Outcome.atMostExhausted_ok _).andThen
      intro a q
      exact atMostExhausted_repeatFrom (ih faultFree) _ _ _

end Parser

namespace Grammar

variable {R : Type} {ρ : R → Type} {α : Type} {g : Grammar ρ}

theorem atMostExhausted_call (faultFree : ∀ r, (g r).FaultFree) (text : Text) (limit : Nat)
    (r : R) (p : Int) : Outcome.AtMostExhausted (g.call text limit r p) := by
  induction limit generalizing r p with
  | zero =>
      intro f h
      cases h
      rfl
  | succ limit ih => exact (faultFree r).atMostExhausted_run ih text p

/-- With rules and a parser in which no function raises a fault, a run can only be exhausted. -/
theorem atMostExhausted_run (faultFree : ∀ r, (g r).FaultFree) (limit : Nat)
    {parser : Parser ρ α} (h : parser.FaultFree) (text : Text) (p : Int) :
    Outcome.AtMostExhausted (g.run limit parser text p) :=
  h.atMostExhausted_run (atMostExhausted_call faultFree text limit) text p

end Grammar

end TagMarkup
