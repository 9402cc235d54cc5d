import TagMarkup.Element.OnePass
import TagMarkup.Parser.Equations

/-!
# Elements read in one pass

Two alternatives that begin with the same parser can be read as that parser with the alternatives
behind it. What they begin with comes to the same both times, and an alternative does not tell where
its first part failed, so nothing is lost: neither a value nor the offset of a failure.

The rule for elements is such an alternative. It therefore reads what the rule reads that goes over
the start of each tag only once, with elements inside one another at every depth.
-/

namespace TagMarkup

namespace Outcome

variable {α β : Type}

/-- What two alternatives begin with can be drawn out in front of them. -/
theorem orElse_andThen (x : Outcome α) (next other : α → Int → Outcome β) :
    Outcome.orElse (Outcome.andThen x next) (fun _ => Outcome.andThen x other) =
      Outcome.andThen x fun a q => Outcome.orElse (next a q) fun _ => other a q := by
  rcases x with _ | _ | _
  · rfl
  · rfl
  · rfl

/-- The values may be changed after an alternative or in both of its parts. -/
theorem andThen_orElse (x y : Outcome α) (f : α → β) :
    Outcome.orElse (Outcome.andThen x fun a q => .ok (.success (f a) q))
        (fun _ => Outcome.andThen y fun a q => .ok (.success (f a) q)) =
      Outcome.andThen (Outcome.orElse x fun _ => y) fun a q => .ok (.success (f a) q) := by
  rcases x with _ | _ | _
  · rfl
  · rfl
  · rfl

end Outcome

namespace Parser

variable {R : Type} {ρ : R → Type} {α β : Type}
variable (call : (r : R) → Int → Outcome (ρ r)) (text : Text)

/-- Two sequences with the same first part, as alternatives, are the sequence of that part and the
alternative of the others. -/
theorem run_orElse_seq (a : Parser ρ α) (b c : Parser ρ β) (p : Int) :
    ((a.seq b).orElse (a.seq c)).run call text p = (a.seq (b.orElse c)).run call text p := by
  rw [run_orElse, run_seq, run_seq, Outcome.orElse_andThen, run_seq]
  congr 1
  funext v q
  rw [run_orElse]
  exact Outcome.andThen_orElse _ _ (Prod.mk v)

/-- The same where the value of the first part decides what is read behind it. -/
theorem run_orElse_bind (a : Parser ρ α) (next other : α → Parser ρ β) (p : Int) :
    ((a.bind next).orElse (a.bind other)).run call text p =
      (a.bind fun v => (next v).orElse (other v)).run call text p := by
  rw [run_orElse, run_bind, run_bind, Outcome.orElse_andThen, run_bind]
  congr 1
  funext v q
  rw [run_orElse]

end Parser

namespace Element

section Rule

variable {R : Type} {ρ : R → Type} (call : (r : R) → Int → Outcome (ρ r)) (text : Text)

/-- An element of one tag is the start of the tag with its end behind it. -/
theorem run_singleElement (p : Int) :
    (singleElement : Parser ρ Element).run call text p =
      (tagStart.bind fun start =>
        (Parser.literal "/>").map fun _ => ofTagStart start).run call text p := by
  rw [singleElement, Parser.run_map, Parser.run_seqLeft, Parser.run_bind]
  simp only [Parser.run_map]
  rcases tagStart.run call text p with _ | ⟨start, q⟩ | _
  · rfl
  · simp only [Outcome.andThen_success]
    rcases (Parser.literal "/>" : Parser ρ Unit).run call text q with _ | _ | _
    all_goals rfl
  · rfl

/-- A parent element is the start of its opening tag with all the rest behind it. -/
theorem run_parentElement (self : Parser ρ Element) (p : Int) :
    (parentElement self).run call text p =
      (tagStart.bind fun start =>
        ((Parser.literal ">").seqRight (self.many.seqLeft (closeTag start.1))).map
          (ofTagStart start).withChildren).run call text p := by
  rw [parentElement, Parser.run_bind, openTag, Parser.run_map, Parser.run_seqLeft,
    Parser.run_bind]
  simp only [Parser.run_map, Parser.run_seqRight]
  rcases tagStart.run call text p with _ | ⟨start, q⟩ | _
  · rfl
  · simp only [Outcome.andThen_success]
    rcases (Parser.literal ">" : Parser ρ Unit).run call text q with _ | _ | _
    all_goals rfl
  · rfl

/-- Whatever the rule for child elements reads, an element is read alike with the start of its tag
read twice and with it read once. -/
theorem run_element_eq_onePass (self : Parser ρ Element) (p : Int) :
    (element self).run call text p = (elementOnePass self).run call text p := by
  have hcore (q : Int) : (singleElement.orElse (parentElement self)).run call text q =
      (tagStart.bind (afterTagStart self)).run call text q := by
    calc (singleElement.orElse (parentElement self)).run call text q
        _ = ((tagStart.bind fun start =>
              (Parser.literal "/>").map fun _ => ofTagStart start).orElse
            (tagStart.bind fun start =>
              ((Parser.literal ">").seqRight (self.many.seqLeft (closeTag start.1))).map
                (ofTagStart start).withChildren)).run call text q := by
          rw [Parser.run_orElse, run_singleElement, run_parentElement, Parser.run_orElse]
        _ = (tagStart.bind (afterTagStart self)).run call text q :=
          Parser.run_orElse_bind call text _ _ _ q
  simp only [element, elementOnePass, Parser.spaced, Parser.run_seqRight, Parser.run_seqLeft, hcore]

end Rule

/-- The two rules read alike under every limit, since each of them calls for itself where the other
does. -/
theorem call_eq_onePass_call (text : Text) (limit : Nat) :
    grammar.call text limit = onePassGrammar.call text limit := by
  induction limit with
  | zero => rfl
  | succ limit ih =>
      funext r p
      calc grammar.call text (limit + 1) r p
          _ = (element (.rule ())).run (grammar.call text limit) text p := rfl
          _ = (element (.rule ())).run (onePassGrammar.call text limit) text p := by rw [ih]
          _ = (elementOnePass (.rule ())).run (onePassGrammar.call text limit) text p :=
            run_element_eq_onePass _ text _ p
          _ = onePassGrammar.call text (limit + 1) r p := rfl

/-- Alternatives that begin alike can be read in one pass, whatever they are, and elements are: the
rule that reads the start of each tag once comes to the same value, the same offset, of a success as
of a failure, and the same fault. -/
theorem factored_and_read_eq_onePass {R : Type} {ρ : R → Type} (g : Grammar ρ) (limit : Nat)
    (text : Text) (p : Int) :
    (∀ {α β : Type} (a : Parser ρ α) (b c : Parser ρ β),
      g.run limit ((a.seq b).orElse (a.seq c)) text p = g.run limit (a.seq (b.orElse c)) text p) ∧
    read limit text p = onePassGrammar.run limit root text p := by
  constructor
  · intro α β a b c
    exact Parser.run_orElse_seq (g.call text limit) text a b c p
  · have hcall := call_eq_onePass_call text limit
    rw [read, Grammar.run, Grammar.run, hcall]

end Element

end TagMarkup
