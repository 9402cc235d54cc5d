import TagMarkup.Parser.Equations

/-!
# One parser under two effects

`Parser.run` does no more with the effect of the rules than to sequence computations and to raise
faults. A relation between two effects that respects these respects every run, so that runs under
two effects are compared by comparing the calls of rules alone.

The first use is the limit on active rules: raising it changes nothing but exhaustion.
-/

namespace TagMarkup

universe u v

/-- A relation between the computations of two effects that is kept by sequencing and faults. -/
structure Simulation (m : Type → Type u) (n : Type → Type v) [Monad m] [MonadExceptOf Fault m]
    [Monad n] [MonadExceptOf Fault n] where
  /-- Which computations are related. -/
  Rel {α : Type} : m α → n α → Prop
  /-- A value is related to itself. -/
  rel_pure {α : Type} (a : α) : Rel (pure a) (pure a)
  /-- A fault is related to itself. -/
  rel_throw {α : Type} (fault : Fault) : Rel (throw fault : m α) (throw fault)
  /-- Going on in related ways from related computations gives related computations. -/
  rel_bind {α β : Type} {x : m α} {y : n α} {f : α → m β} {g : α → n β} :
    Rel x y → (∀ a, Rel (f a) (g a)) → Rel (x >>= f) (y >>= g)

namespace Simulation

variable {m : Type → Type u} {n : Type → Type v} [Monad m] [MonadExceptOf Fault m]
  [Monad n] [MonadExceptOf Fault n]
variable {R : Type} {ρ : R → Type} {α : Type}

theorem rel_repeatFrom (S : Simulation m n) {item : Int → m (Result α)}
    {item' : Int → n (Result α)} (h : ∀ p, S.Rel (item p) (item' p)) (last : Int)
    (read : List α) (cur : Int) :
    S.Rel (Parser.repeatFrom item last read cur) (Parser.repeatFrom item' last read cur) := by
  rw [Parser.repeatFrom, Parser.repeatFrom]
  apply S.rel_bind (h cur)
  intro result
  cases result with
  | failure q => exact S.rel_pure _
  | success a next =>
      by_cases hgrow : cur < next ∧ next ≤ last
      · simp only [dif_pos hgrow]
        exact S.rel_repeatFrom h last (a :: read) next
      · simp only [dif_neg hgrow]
        exact S.rel_pure _
termination_by (last - cur).toNat
decreasing_by omega

/-- Runs are related as soon as the calls of rules are. -/
theorem rel_run (S : Simulation m n) {call : (r : R) → Int → m (Result (ρ r))}
    {call' : (r : R) → Int → n (Result (ρ r))} (h : ∀ r p, S.Rel (call r p) (call' r p))
    (text : Text) (parser : Parser ρ α) (p : Int) :
    S.Rel (parser.run call text p) (parser.run call' text p) := by
  induction parser generalizing p with
  | literal expected => exact S.rel_pure _
  | character => exact S.rel_pure _
  | name => exact S.rel_pure _
  | raise fault => exact S.rel_throw fault
  | rule r => exact h r p
  | transform f inner ih =>
      apply S.rel_bind (ih p)
      intro result
      cases result with
      | failure q => exact S.rel_pure _
      | success a q =>
          cases hf : f a with
          | ok b => simpa only [hf] using S.rel_pure _
          | error fault => simpa only [hf] using S.rel_throw fault
  | filter test inner ih =>
      apply S.rel_bind (ih p)
      intro result
      cases result with
      | failure q => exact S.rel_pure _
      | success a q =>
          cases ht : test a with
          | ok accepted => cases accepted <;> simpa only [ht] using S.rel_pure _
          | error fault => simpa only [ht] using S.rel_throw fault
  | attempt inner ih =>
      apply S.rel_bind (ih p)
      intro result
      cases result with
      | failure q => exact S.rel_pure _
      | success a q => exact S.rel_pure _
  | seq first second ih₁ ih₂ =>
      apply S.rel_bind (ih₁ p)
      intro result
      cases result with
      | failure q => exact S.rel_pure _
      | success a q =>
          apply S.rel_bind (ih₂ q)
          intro result'
          cases result' with
          | failure q' => exact S.rel_pure _
          | success b q' => exact S.rel_pure _
  | bind first next ih₁ ih₂ =>
      rw [Parser.run, Parser.run]
      apply S.rel_bind (ih₁ p)
      intro result
      cases result with
      | failure q => exact S.rel_pure _
      | success a q => exact ih₂ a q
  | orElse first second ih₁ ih₂ =>
      apply S.rel_bind (ih₁ p)
      intro result
      cases result with
      | failure q => exact ih₂ p
      | success a q => exact S.rel_pure _
  | many item ih => exact S.rel_repeatFrom ih _ _ _
  | many1 item ih =>
      apply S.rel_bind (ih p)
      intro result
      cases result with
      | failure q => exact S.rel_pure _
      | success a q => exact S.rel_repeatFrom ih _ _ _

/-- The first computation is exhausted, or both are the same. -/
def exhaustedOrEqual : Simulation (Except Fault) (Except Fault) where
  Rel x y := x = .error .exhausted ∨ x = y
  rel_pure _ := .inr rfl
  rel_throw _ := .inr rfl
  rel_bind := by
    rintro α β x y f g (rfl | rfl) h
    · exact .inl rfl
    · cases x with
      | error fault => exact .inr rfl
      | ok a => exact h a

end Simulation

namespace Grammar

variable {R : Type} {ρ : R → Type} {α : Type}

theorem call_limit_le (g : Grammar ρ) (text : Text) {limit limit' : Nat} (le : limit ≤ limit')
    (r : R) (p : Int) :
    Simulation.exhaustedOrEqual.Rel (g.call text limit r p) (g.call text limit' r p) := by
  induction limit generalizing limit' r p with
  | zero => exact .inl rfl
  | succ limit ih =>
      cases limit' with
      | zero => omega
      | succ limit' =>
          have hle : limit ≤ limit' := Nat.le_of_succ_le_succ le
          exact Simulation.exhaustedOrEqual.rel_run (fun r p => ih hle r p) text (g r) p

/-- Allowing more rules to be active changes a run in no other way than that it may no longer be
exhausted. -/
theorem run_limit_le (g : Grammar ρ) (parser : Parser ρ α) (text : Text) {limit limit' : Nat}
    (le : limit ≤ limit') (p : Int) :
    g.run limit parser text p = .error .exhausted ∨
      g.run limit parser text p = g.run limit' parser text p :=
  Simulation.exhaustedOrEqual.rel_run (fun r p => g.call_limit_le text le r p) text parser p

end Grammar

end TagMarkup
