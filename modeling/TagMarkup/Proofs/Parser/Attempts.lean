import TagMarkup.Proofs.Parser.Offsets

/-!
# What an attempt changes

An attempt moves the offset of a failure and does nothing else. This holds wherever in a parser or
in a rule it is made: the offset of a failure is never looked at, neither to go on from there nor to
compute a value, so all that comes of it is that the whole may report its own failure earlier.
Where the offset of a failure is dropped anyway, the attempt does not show at all.

## Implementation notes

`Parser.MoreAttempts` compares two parsers part by part and is what the induction is on. A place in
a parser is a `Parser.Context`, which may have any number of holes, below functions of values too.
-/

namespace TagMarkup

namespace Parser

variable {R : Type} {ρ : R → Type} {α β η : Type}

/-- The second parser is the first with attempts made of some of its parts. -/
inductive MoreAttempts : {α : Type} → Parser ρ α → Parser ρ α → Prop where
  /-- A fixed text has no parts. -/
  | literal (expected : Text) : MoreAttempts (literal expected) (literal expected)
  /-- A character has no parts. -/
  | character : MoreAttempts character character
  /-- A name has no parts. -/
  | name : MoreAttempts name name
  /-- A fault has no parts. -/
  | raise {α : Type} (fault : Fault) : MoreAttempts (raise (α := α) fault) (raise fault)
  /-- The parts of a rule are compared where the rule is. -/
  | rule (r : R) : MoreAttempts (rule r) (rule r)
  /-- The whole may be attempted. -/
  | around {α : Type} {p p' : Parser ρ α} (h : MoreAttempts p p') : MoreAttempts p p'.attempt
  /-- Attempts are made below a function of the value. -/
  | transform {α β : Type} (f : α → Except Fault β) {p p' : Parser ρ α} (h : MoreAttempts p p') :
      MoreAttempts (p.transform f) (p'.transform f)
  /-- Attempts are made below a test of the value. -/
  | filter {α : Type} (test : α → Except Fault Bool) {p p' : Parser ρ α} (h : MoreAttempts p p') :
      MoreAttempts (p.filter test) (p'.filter test)
  /-- Attempts are made below an attempt. -/
  | attempt {α : Type} {p p' : Parser ρ α} (h : MoreAttempts p p') :
      MoreAttempts p.attempt p'.attempt
  /-- Attempts are made in a sequence. -/
  | seq {α β : Type} {p p' : Parser ρ α} {q q' : Parser ρ β} (first : MoreAttempts p p')
      (second : MoreAttempts q q') : MoreAttempts (p.seq q) (p'.seq q')
  /-- Attempts are made in a sequence whose second part depends on the value of the first. -/
  | bind {α β : Type} {p p' : Parser ρ α} {next next' : α → Parser ρ β} (first : MoreAttempts p p')
      (others : ∀ a, MoreAttempts (next a) (next' a)) : MoreAttempts (p.bind next) (p'.bind next')
  /-- Attempts are made in an alternative. -/
  | orElse {α : Type} {p p' q q' : Parser ρ α} (first : MoreAttempts p p')
      (second : MoreAttempts q q') : MoreAttempts (p.orElse q) (p'.orElse q')
  /-- Attempts are made in what is repeated. -/
  | many {α : Type} {p p' : Parser ρ α} (h : MoreAttempts p p') : MoreAttempts p.many p'.many
  /-- Attempts are made in what is repeated at least once. -/
  | many1 {α : Type} {p p' : Parser ρ α} (h : MoreAttempts p p') : MoreAttempts p.many1 p'.many1

/-- No attempts need be added. -/
theorem MoreAttempts.refl (p : Parser ρ α) : MoreAttempts p p := by
  induction p with
  | literal expected => exact .literal expected
  | character => exact .character
  | name => exact .name
  | raise fault => exact .raise fault
  | rule r => exact .rule r
  | transform f inner ih => exact .transform f ih
  | filter test inner ih => exact .filter test ih
  | attempt inner ih => exact .attempt ih
  | seq first second ih₁ ih₂ => exact .seq ih₁ ih₂
  | bind first next ih₁ ih₂ => exact .bind ih₁ ih₂
  | orElse first second ih₁ ih₂ => exact .orElse ih₁ ih₂
  | many item ih => exact .many ih
  | many1 item ih => exact .many1 ih

/-- A parser with holes for a parser whose values are of type `η`. -/
inductive Context (ρ : R → Type) (η : Type) : Type → Type 1 where
  /-- A hole. -/
  | hole : Context ρ η η
  /-- A part without holes. -/
  | whole {α : Type} (p : Parser ρ α) : Context ρ η α
  /-- Holes below a function of the value. -/
  | transform {α β : Type} (f : α → Except Fault β) (inner : Context ρ η α) : Context ρ η β
  /-- Holes below a test of the value. -/
  | filter {α : Type} (test : α → Except Fault Bool) (inner : Context ρ η α) : Context ρ η α
  /-- Holes below an attempt. -/
  | attempt {α : Type} (inner : Context ρ η α) : Context ρ η α
  /-- Holes in a sequence. -/
  | seq {α β : Type} (first : Context ρ η α) (second : Context ρ η β) : Context ρ η (α × β)
  /-- Holes in a sequence whose second part depends on the value of the first. -/
  | protected bind {α β : Type} (first : Context ρ η α) (next : α → Context ρ η β) : Context ρ η β
  /-- Holes in an alternative. -/
  | orElse {α : Type} (first second : Context ρ η α) : Context ρ η α
  /-- Holes in what is repeated. -/
  | many {α : Type} (item : Context ρ η α) : Context ρ η (List α)
  /-- Holes in what is repeated at least once. -/
  | many1 {α : Type} (item : Context ρ η α) : Context ρ η (List α)

/-- The context with a parser in its holes. -/
def Context.plug {α : Type} (p : Parser ρ η) : Context ρ η α → Parser ρ α
  | hole => p
  | whole q => q
  | transform f inner => (inner.plug p).transform f
  | filter test inner => (inner.plug p).filter test
  | attempt inner => (inner.plug p).attempt
  | seq first second => (first.plug p).seq (second.plug p)
  | .bind first next => (first.plug p).bind fun a => (next a).plug p
  | orElse first second => (first.plug p).orElse (second.plug p)
  | many item => (item.plug p).many
  | many1 item => (item.plug p).many1

/-- Attempts of what stands in the holes are attempts of parts. -/
theorem MoreAttempts.plug {p p' : Parser ρ η} (h : MoreAttempts p p') (c : Context ρ η α) :
    MoreAttempts (c.plug p) (c.plug p') := by
  induction c with
  | hole => exact h
  | whole q => exact .refl q
  | transform f inner ih => exact .transform f ih
  | filter test inner ih => exact .filter test ih
  | attempt inner ih => exact .attempt ih
  | seq first second ih₁ ih₂ => exact .seq ih₁ ih₂
  | bind first next ih₁ ih₂ => exact .bind ih₁ ih₂
  | orElse first second ih₁ ih₂ => exact .orElse ih₁ ih₂
  | many item ih => exact .many ih
  | many1 item ih => exact .many1 ih

end Parser

namespace Outcome

variable {α β : Type}

/-- The second run comes to the same as the first, or fails as that does, and no later. -/
inductive MovedBack : Outcome α → Outcome α → Prop where
  /-- The same result or the same fault. -/
  | same (x : Outcome α) : MovedBack x x
  /-- A failure that is reported no later. -/
  | failure {q q' : Int} (le : q' ≤ q) : MovedBack (.ok (.failure q)) (.ok (.failure q'))

namespace MovedBack

variable {x y z z' : Outcome α}

theorem andThen (h : MovedBack x y) {next next' : α → Int → Outcome β}
    (hnext : ∀ a q, MovedBack (next a q) (next' a q)) :
    MovedBack (Outcome.andThen x next) (Outcome.andThen y next') := by
  cases h with
  | same x =>
      rcases x with fault | ⟨a, q⟩ | q
      · exact .same _
      · exact hnext a q
      · exact .same _
  | failure le => exact .failure le

theorem orElse (h : MovedBack x y) (hz : MovedBack z z') :
    MovedBack (Outcome.orElse x fun _ => z) (Outcome.orElse y fun _ => z') := by
  cases h with
  | same x =>
      rcases x with fault | ⟨a, q⟩ | q
      · exact .same _
      · exact .same _
      · exact hz
  | failure le => exact hz

/-- An alternative does not tell where its first part has failed. -/
theorem orElse_eq (h : MovedBack x y) (z : Outcome α) :
    Outcome.orElse x (fun _ => z) = Outcome.orElse y fun _ => z := by
  cases h with
  | same x => rfl
  | failure le => rfl

/-- A run that does not go back behind its start fails there at the earliest. -/
theorem orElse_start (h : MovedBack x y) {text : Text} {p : Int} (ahead : Ahead text p x) :
    MovedBack x (Outcome.orElse y fun _ => .ok (.failure p)) := by
  cases h with
  | same x =>
      rcases x with fault | ⟨a, q⟩ | q
      · exact .same _
      · exact .same _
      · exact .failure (ahead _ rfl).1
  | failure le => exact .failure (ahead _ rfl).1

end MovedBack

end Outcome

namespace Parser

open Outcome (MovedBack Ahead)

variable {R : Type} {ρ : R → Type} {α : Type}

/-- A repetition does not tell where its last item has failed. -/
theorem repeatFrom_eq_of_movedBack {item item' : Int → Outcome α}
    (h : ∀ p, MovedBack (item p) (item' p)) (last : Int) (read : List α) (cur : Int) :
    repeatFrom (m := Except Fault) item last read cur =
      repeatFrom (m := Except Fault) item' last read cur := by
  rw [repeatFrom_eq, repeatFrom_eq]
  have hitem := h cur
  generalize item cur = x at hitem
  generalize item' cur = y at hitem
  cases hitem with
  | same x =>
      rcases x with fault | ⟨a, next⟩ | q
      · rfl
      · by_cases grows : cur < next ∧ next ≤ last
        · simp only [if_pos grows]
          exact repeatFrom_eq_of_movedBack h last (a :: read) next
        · simp only [if_neg grows]
      · rfl
  | failure le => rfl
termination_by (last - cur).toNat
decreasing_by omega

/-- With more attempts in a parser and in the rules, a run comes to the same or fails no later. -/
theorem MoreAttempts.movedBack {call call' : (r : R) → Int → Outcome (ρ r)} {text : Text}
    (ahead : ∀ r p, Ahead text p (call r p)) (hcall : ∀ r p, MovedBack (call r p) (call' r p))
    {p p' : Parser ρ α} (h : MoreAttempts p p') (start : Int) :
    MovedBack (p.run call text start) (p'.run call' text start) := by
  induction h generalizing start with
  | literal expected => exact .same _
  | character => exact .same _
  | name => exact .same _
  | raise fault => exact .same _
  | rule r => exact hcall r start
  | @around _ p p' _ ih =>
      rw [run_attempt]
      exact (ih start).orElse_start (ahead_run ahead p start)
  | transform f _ ih =>
      rw [run_transform, run_transform]
      exact (ih start).andThen fun a q => .same _
  | filter test _ ih =>
      rw [run_filter, run_filter]
      exact (ih start).andThen fun a q => .same _
  | attempt _ ih =>
      rw [run_attempt, run_attempt]
      exact (ih start).orElse (.same _)
  | seq _ _ ih₁ ih₂ =>
      rw [run_seq, run_seq]
      exact (ih₁ start).andThen fun a q => (ih₂ q).andThen fun b q' => .same _
  | bind _ _ ih₁ ih₂ =>
      rw [run_bind, run_bind]
      exact (ih₁ start).andThen fun a q => ih₂ a q
  | orElse _ _ ih₁ ih₂ =>
      rw [run_orElse, run_orElse]
      exact (ih₁ start).orElse (ih₂ start)
  | many _ ih =>
      rw [run_many, run_many, repeatFrom_eq_of_movedBack ih]
      exact .same _
  | many1 _ ih =>
      rw [run_many1, run_many1, (ih start).orElse_eq]
      apply MovedBack.andThen (.same _)
      intro a q
      rw [repeatFrom_eq_of_movedBack ih]
      exact .same _

end Parser

namespace Grammar

open Outcome (MovedBack)
open TagMarkup.Parser (MoreAttempts Context)

variable {R : Type} {ρ : R → Type} {α η : Type}

theorem movedBack_call {g g' : Grammar ρ} (hrules : ∀ r, MoreAttempts (g r) (g' r)) (text : Text)
    (limit : Nat) (r : R) (p : Int) :
    MovedBack (g.call text limit r p) (g'.call text limit r p) := by
  induction limit generalizing r p with
  | zero => exact .same _
  | succ limit ih => exact (hrules r).movedBack (g.ahead_call text limit) ih p

theorem movedBack_run {g g' : Grammar ρ} (hrules : ∀ r, MoreAttempts (g r) (g' r)) (limit : Nat)
    {p p' : Parser ρ α} (h : MoreAttempts p p') (text : Text) (start : Int) :
    MovedBack (g.run limit p text start) (g'.run limit p' text start) :=
  h.movedBack (g.ahead_call text limit) (movedBack_call hrules text limit) start

/-- The second run does what the first does, save that it may fail at an earlier offset. -/
structure FailsNoLater (x y : Outcome α) : Prop where
  /-- It succeeds when the first does, with the same value at the same offset. -/
  success_iff (a : α) (q : Int) : y = .ok (.success a q) ↔ x = .ok (.success a q)
  /-- It ends in a fault when the first does, and in the same. -/
  fault_iff (fault : Fault) : y = .error fault ↔ x = .error fault
  /-- It fails no later. -/
  offset_le (q q' : Int) : x = .ok (.failure q) → y = .ok (.failure q') → q' ≤ q

theorem failsNoLater_of_movedBack {x y : Outcome α} (h : MovedBack x y) : FailsNoLater x y := by
  cases h with
  | same x =>
      refine ⟨fun _ _ => Iff.rfl, fun _ => Iff.rfl, ?_⟩
      rintro q q' rfl h
      cases h
      exact Int.le_refl q
  | failure le =>
      refine ⟨fun _ _ => iff_of_false nofun nofun, fun _ => iff_of_false nofun nofun, ?_⟩
      rintro _ _ ⟨⟩ ⟨⟩
      exact le

/-- The two parsers cannot be told apart where the offset of a failure is dropped. -/
structure AlikeBesideOffset (g : Grammar ρ) (limit : Nat) (text : Text) (start : Int)
    (p p' : Parser ρ α) : Prop where
  /-- Before another alternative. -/
  orElse (other : Parser ρ α) :
    g.run limit (p'.orElse other) text start = g.run limit (p.orElse other) text start
  /-- Repeated. -/
  many : g.run limit p'.many text start = g.run limit p.many text start
  /-- Repeated at least once. -/
  many1 : g.run limit p'.many1 text start = g.run limit p.many1 text start
  /-- Attempted. -/
  attempt : g.run limit p'.attempt text start = g.run limit p.attempt text start

theorem alikeBesideOffset_of_moreAttempts (g : Grammar ρ) (limit : Nat) {p p' : Parser ρ α}
    (h : MoreAttempts p p') (text : Text) (start : Int) :
    g.AlikeBesideOffset limit text start p p' := by
  have hrun (q : Int) : MovedBack (g.run limit p text q) (g.run limit p' text q) :=
    movedBack_run (fun r => .refl (g r)) limit h text q
  simp only [run] at hrun
  constructor
  · intro other
    rw [run, run, Parser.run_orElse, Parser.run_orElse, (hrun start).orElse_eq]
  · rw [run, run, Parser.run_many, Parser.run_many, Parser.repeatFrom_eq_of_movedBack hrun]
  · rw [run, run, Parser.run_many1, Parser.run_many1, (hrun start).orElse_eq]
    congr 1
    funext a q
    rw [Parser.repeatFrom_eq_of_movedBack hrun]
  · rw [run, run, Parser.run_attempt, Parser.run_attempt, (hrun start).orElse_eq]

/-- To attempt a part, wherever it stands in a parser and in its rules, changes nothing but that the
whole may fail at an earlier offset; and where the whole is an alternative, repeated or attempted
itself, it changes nothing. -/
theorem attempt_moves_failures_only (rules : (r : R) → Context ρ η (ρ r)) (c : Context ρ η α)
    (p : Parser ρ η) (limit : Nat) (text : Text) (start : Int) :
    FailsNoLater (run (fun r => (rules r).plug p) limit (c.plug p) text start)
      (run (fun r => (rules r).plug p.attempt) limit (c.plug p.attempt) text start) ∧
    ∀ g : Grammar ρ, g.AlikeBesideOffset limit text start (c.plug p) (c.plug p.attempt) := by
  have attempted : MoreAttempts p p.attempt := .around (.refl p)
  constructor
  · apply failsNoLater_of_movedBack
    exact movedBack_run (fun r => attempted.plug (rules r)) limit (attempted.plug c) text start
  · intro g
    exact alikeBesideOffset_of_moreAttempts g limit (attempted.plug c) text start

end Grammar

end TagMarkup
