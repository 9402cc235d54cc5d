import TagMarkup.Proofs.Parser.Faults

/-!
# Active rules

While a parser is run, rules are active inside one another. How many there are is told by the limit:
it is the number that may still become active, and so what a run has used up of it. This module says
how one activation leads to the next. Between two of them there is a parser that calls for a rule at
an offset (`Grammar.Performs.calls`); each run lies in some innermost activation
(`Grammar.Performs.exists_activation`); and a run that is exhausted contains the call for a rule for
which no activation is left (`Grammar.exists_performs_of_error`).

## Implementation notes

`Parser.Calls` goes along the parser, so that it can be unfolded for a given one. `Grammar.Invokes`
does not have this use, because the type of a value does not tell how it was put together.
-/

namespace TagMarkup

namespace Outcome

variable {α β : Type} {fault : Fault}

/-- A sequence ends in a fault when one of its parts does. -/
theorem andThen_eq_error {x : Outcome α} {next : α → Int → Outcome β}
    (h : Outcome.andThen x next = .error fault) :
    x = .error fault ∨ ∃ a q, x = .ok (.success a q) ∧ next a q = .error fault := by
  rcases x with fault' | ⟨a, q⟩ | q
  · cases h
    exact .inl rfl
  · exact .inr ⟨a, q, rfl, h⟩
  · cases h

/-- An alternative ends in a fault when its first part does, or the second after it has failed. -/
theorem orElse_eq_error {x : Outcome α} {next : Int → Outcome α}
    (h : Outcome.orElse x next = .error fault) :
    x = .error fault ∨ ∃ q, x = .ok (.failure q) ∧ next q = .error fault := by
  rcases x with fault' | ⟨a, q⟩ | q
  · cases h
    exact .inl rfl
  · cases h
  · exact .inr ⟨q, rfl, h⟩

/-- An alternative reads what its first part does, or what the second does after it has failed. -/
theorem orElse_eq_success {x : Outcome α} {next : Int → Outcome α} {a : α} {q : Int}
    (h : Outcome.orElse x next = .ok (.success a q)) :
    x = .ok (.success a q) ∨ ∃ q', x = .ok (.failure q') ∧ next q' = .ok (.success a q) := by
  rcases x with fault | ⟨b, q'⟩ | q'
  · cases h
  · exact .inl h
  · exact .inr ⟨q', rfl, h⟩

end Outcome

namespace Parser

variable {R : Type} {ρ : R → Type} {α : Type}

/-- The run of a parser from the first offset calls for a rule at the second, with no other rule
active in between. -/
def Calls (call : (r : R) → Int → Outcome (ρ r)) (text : Text) :
    {α : Type} → Parser ρ α → Int → R → Int → Prop
  | _, literal _, _, _, _ | _, character, _, _, _ | _, name, _, _, _ | _, raise _, _, _, _ => False
  | _, rule s, p, r, q => s = r ∧ p = q
  | _, transform _ inner, p, r, q | _, filter _ inner, p, r, q | _, attempt inner, p, r, q =>
    inner.Calls call text p r q
  | _, seq first second, p, r, q =>
    first.Calls call text p r q ∨
      ∃ a mid, first.run call text p = .ok (.success a mid) ∧ second.Calls call text mid r q
  | _, .bind first next, p, r, q =>
    first.Calls call text p r q ∨
      ∃ a mid, first.run call text p = .ok (.success a mid) ∧ (next a).Calls call text mid r q
  | _, orElse first second, p, r, q =>
    first.Calls call text p r q ∨
      ∃ mid, first.run call text p = .ok (.failure mid) ∧ second.Calls call text p r q
  | _, many item, p, r, q =>
    ∃ mid, Reaches (item.run call text) (bound text p) p mid ∧ item.Calls call text mid r q
  | _, many1 item, p, r, q =>
    item.Calls call text p r q ∨
      ∃ a mid stop, item.run call text p = .ok (.success a mid) ∧
        Reaches (item.run call text) (bound text mid) mid stop ∧ item.Calls call text stop r q

/-- A repetition that ends in a fault has come to an item that does. -/
theorem exists_reaches_of_error {item : Int → Outcome α} {fault : Fault} {last cur : Int}
    {read : List α} (h : repeatFrom (m := Except Fault) item last read cur = .error fault) :
    ∃ q, Reaches item last cur q ∧ item q = .error fault := by
  rw [repeatFrom_eq] at h
  rcases hitem : item cur with fault' | ⟨a, next⟩ | q
  · rw [hitem] at h
    cases h
    exact ⟨cur, .start cur, hitem⟩
  · rw [hitem] at h
    by_cases grows : cur < next ∧ next ≤ last
    · simp only [if_pos grows] at h
      obtain ⟨q, reached, hq⟩ := exists_reaches_of_error h
      exact ⟨q, .next hitem grows.1 grows.2 reached, hq⟩
    · simp only [if_neg grows] at h
      cases h
  · rw [hitem] at h
    cases h
termination_by (last - cur).toNat
decreasing_by omega

end Parser

namespace Grammar

open TagMarkup.Parser (Reaches)

variable {R : Type} {ρ : R → Type} {α : Type} {g : Grammar ρ} {text : Text}

/-- The run that is invoked calls for a rule at an offset. -/
def Invocation.Calls (g : Grammar ρ) (text : Text) (x : Invocation ρ) (r : R) (q : Int) : Prop :=
  x.parser.Calls (g.call text x.limit) text x.offset r q

/-- A run calls for the rules that its parts call for, unless the part is what a rule stands for. -/
theorem Invokes.calls {x y : Invocation ρ} (called : g.Invokes text x y) :
    (∃ limit r p, x = ⟨limit + 1, .rule r, p⟩ ∧ y = ⟨limit, g r, p⟩) ∨
      (y.limit = x.limit ∧ ∀ r q, y.Calls g text r q → x.Calls g text r q) := by
  cases called with
  | rule limit r p => exact .inl ⟨limit, r, p, rfl, rfl⟩
  | transform limit f inner p => exact .inr ⟨rfl, fun _ _ h => h⟩
  | filter limit test inner p => exact .inr ⟨rfl, fun _ _ h => h⟩
  | attempt limit inner p => exact .inr ⟨rfl, fun _ _ h => h⟩
  | seqFirst limit first second p => exact .inr ⟨rfl, fun _ _ h => .inl h⟩
  | seqSecond hfirst second => exact .inr ⟨rfl, fun _ _ h => .inr ⟨_, _, hfirst, h⟩⟩
  | bindFirst limit first next p => exact .inr ⟨rfl, fun _ _ h => .inl h⟩
  | bindNext hfirst next => exact .inr ⟨rfl, fun _ _ h => .inr ⟨_, _, hfirst, h⟩⟩
  | orElseFirst limit first second p => exact .inr ⟨rfl, fun _ _ h => .inl h⟩
  | orElseSecond hfirst second => exact .inr ⟨rfl, fun _ _ h => .inr ⟨_, hfirst, h⟩⟩
  | manyItem reached => exact .inr ⟨rfl, fun _ _ h => ⟨_, reached, h⟩⟩
  | many1First limit item p => exact .inr ⟨rfl, fun _ _ h => .inl h⟩
  | many1Item hfirst reached => exact .inr ⟨rfl, fun _ _ h => .inr ⟨_, _, _, hfirst, reached, h⟩⟩

/-- A run that contains the call for a rule calls for that rule itself, or for one of which the run
contains the call. -/
theorem Performs.calls {x : Invocation ρ} {limit : Nat} {r : R} {q : Int}
    (contained : g.Performs text x ⟨limit, .rule r, q⟩) :
    (x.limit = limit ∧ x.Calls g text r q) ∨
      ∃ l s p, x.limit = l + 1 ∧ x.Calls g text s p ∧
        g.Performs text ⟨l, g s, p⟩ ⟨limit, .rule r, q⟩ := by
  induction contained using Relation.ReflTransGen.head_induction_on with
  | refl => exact .inl ⟨rfl, rfl, rfl⟩
  | @head x y called rest ih =>
      rcases called.calls with ⟨l, s, p, rfl, rfl⟩ | ⟨hlimit, hcalls⟩
      · exact .inr ⟨l, s, p, rfl, ⟨rfl, rfl⟩, rest⟩
      · rw [hlimit] at ih
        rcases ih with ⟨hsame, h⟩ | ⟨l, s, p, hless, h, inner⟩
        · exact .inl ⟨hsame, hcalls r q h⟩
        · exact .inr ⟨l, s, p, hless, hcalls s p h, inner⟩

/-- A run that contains the call for a rule calls for a rule of which the reading contains that
call. -/
theorem Performs.exists_calls {x : Invocation ρ} {limit : Nat} {r : R} {q : Int}
    (contained : g.Performs text x ⟨limit, .rule r, q⟩) :
    ∃ s p, x.Calls g text s p ∧ g.Performs text ⟨x.limit, .rule s, p⟩ ⟨limit, .rule r, q⟩ := by
  rcases contained.calls with ⟨hlimit, h⟩ | ⟨l, s, p, hlimit, h, inner⟩
  · rw [hlimit]
    exact ⟨r, q, h, .refl⟩
  · rw [hlimit]
    exact ⟨s, p, h, .head (.rule l s p) inner⟩

/-- Whatever run is contained in another uses up no activation, or lies in an innermost one. -/
theorem Performs.exists_activation {x y : Invocation ρ} (contained : g.Performs text x y) :
    y.limit = x.limit ∨ ∃ r q, g.Performs text x ⟨y.limit + 1, .rule r, q⟩ := by
  induction contained with
  | refl => exact .inl rfl
  | @tail y z before called ih =>
      rcases called.calls with ⟨l, r, p, rfl, rfl⟩ | ⟨hlimit, -⟩
      · exact .inr ⟨r, p, before⟩
      · rwa [hlimit]

/-- If no function raises a fault, a run that ends in one contains the call for a rule for which no
activation is left, provided that the calls for rules that end in a fault do. -/
theorem exists_performs_of_run_eq_error {limit : Nat} {fault : Fault}
    (hcall : ∀ r p, g.call text limit r p = .error fault →
      ∃ s q, g.Performs text ⟨limit, .rule r, p⟩ ⟨0, .rule s, q⟩)
    {parser : Parser ρ α} (faultFree : parser.FaultFree) {p : Int}
    (h : parser.run (g.call text limit) text p = .error fault) :
    ∃ s q, g.Performs text ⟨limit, parser, p⟩ ⟨0, .rule s, q⟩ := by
  have inside {x y : Invocation ρ} (called : g.Invokes text x y)
      (hy : ∃ s q, g.Performs text y ⟨0, .rule s, q⟩) :
      ∃ s q, g.Performs text x ⟨0, .rule s, q⟩ := by
    obtain ⟨s, q, contained⟩ := hy
    exact ⟨s, q, .head called contained⟩
  induction parser generalizing p with
  | literal expected => cases h
  | character => cases h
  | name => cases h
  | raise fault' => exact faultFree.elim
  | rule r => exact hcall r p h
  | transform f inner ih =>
      obtain ⟨total, hinner⟩ := faultFree
      rw [Parser.run_transform] at h
      rcases Outcome.andThen_eq_error h with hfirst | ⟨a, q, -, hnext⟩
      · exact inside (.transform limit f inner p) (ih hinner hfirst)
      · obtain ⟨b, hb⟩ := total a
        rw [hb] at hnext
        cases hnext
  | filter test inner ih =>
      obtain ⟨total, hinner⟩ := faultFree
      rw [Parser.run_filter] at h
      rcases Outcome.andThen_eq_error h with hfirst | ⟨a, q, -, hnext⟩
      · exact inside (.filter limit test inner p) (ih hinner hfirst)
      · obtain ⟨accepted, haccepted⟩ := total a
        rw [haccepted] at hnext
        cases accepted <;> cases hnext
  | attempt inner ih =>
      rw [Parser.run_attempt] at h
      rcases Outcome.orElse_eq_error h with hfirst | ⟨q, -, hnext⟩
      · exact inside (.attempt limit inner p) (ih faultFree hfirst)
      · cases hnext
  | seq first second ih₁ ih₂ =>
      obtain ⟨hfree₁, hfree₂⟩ := faultFree
      rw [Parser.run_seq] at h
      rcases Outcome.andThen_eq_error h with hfirst | ⟨a, q, hfirst, hnext⟩
      · exact inside (.seqFirst limit first second p) (ih₁ hfree₁ hfirst)
      · rcases Outcome.andThen_eq_error hnext with hsecond | ⟨b, q', -, hpair⟩
        · exact inside (.seqSecond hfirst second) (ih₂ hfree₂ hsecond)
        · cases hpair
  | bind first next ih₁ ih₂ =>
      obtain ⟨hfree₁, hfree₂⟩ := faultFree
      rw [Parser.run_bind] at h
      rcases Outcome.andThen_eq_error h with hfirst | ⟨a, q, hfirst, hnext⟩
      · exact inside (.bindFirst limit first next p) (ih₁ hfree₁ hfirst)
      · exact inside (.bindNext hfirst next) (ih₂ a (hfree₂ a) hnext)
  | orElse first second ih₁ ih₂ =>
      obtain ⟨hfree₁, hfree₂⟩ := faultFree
      rw [Parser.run_orElse] at h
      rcases Outcome.orElse_eq_error h with hfirst | ⟨q, hfirst, hnext⟩
      · exact inside (.orElseFirst limit first second p) (ih₁ hfree₁ hfirst)
      · exact inside (.orElseSecond hfirst second) (ih₂ hfree₂ hnext)
  | many item ih =>
      rw [Parser.run_many] at h
      obtain ⟨q, reached, hitem⟩ := Parser.exists_reaches_of_error h
      exact inside (.manyItem reached) (ih faultFree hitem)
  | many1 item ih =>
      rw [Parser.run_many1] at h
      rcases Outcome.andThen_eq_error h with hfirst | ⟨a, q, hfirst, hmore⟩
      · rcases Outcome.orElse_eq_error hfirst with hitem | ⟨q, -, hnext⟩
        · exact inside (.many1First limit item p) (ih faultFree hitem)
        · cases hnext
      · obtain ⟨stop, reached, hitem⟩ := Parser.exists_reaches_of_error hmore
        obtain hread | ⟨_, -, ⟨⟩⟩ := Outcome.orElse_eq_success hfirst
        exact inside (.many1Item hread reached) (ih faultFree hitem)

/-- A run that ends in a fault contains the call for a rule for which no activation is left, if no
function raises a fault. -/
theorem exists_performs_of_error (faultFree : ∀ r, (g r).FaultFree) {limit : Nat}
    {parser : Parser ρ α} (h : parser.FaultFree) {p : Int} {fault : Fault}
    (hrun : g.run limit parser text p = .error fault) :
    ∃ s q, g.Performs text ⟨limit, parser, p⟩ ⟨0, .rule s, q⟩ := by
  have hcall (limit : Nat) (r : R) (p : Int) (hr : g.call text limit r p = .error fault) :
      ∃ s q, g.Performs text ⟨limit, .rule r, p⟩ ⟨0, .rule s, q⟩ := by
    induction limit generalizing r p with
    | zero => exact ⟨r, p, .refl⟩
    | succ limit ih =>
        obtain ⟨s, q, contained⟩ := exists_performs_of_run_eq_error ih (faultFree r) hr
        exact ⟨s, q, .head (.rule limit r p) contained⟩
  exact exists_performs_of_run_eq_error (hcall limit) h hrun

end Grammar

end TagMarkup
