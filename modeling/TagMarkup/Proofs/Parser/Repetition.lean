import TagMarkup.Proofs.Parser.Offsets
import TagMarkup.Proofs.Parser.Sharing

/-!
# How far a repetition goes

A repetition reads items one after the other for as long as there is one that consumes something,
and stops where there is none. It never fails, and only an item can end it in a fault. Whatever the
item and wherever the repetition is started, it is over after at most one round for each offset
between its start and the end of the text, and one more.

A repetition that needs an item is a sequence of the item and a repetition of it, attempted as a
whole.

## Implementation notes

`Parser.Advances` is the loop as a relation, without the bound that `Parser.repeatFrom` carries.
That items stop ahead of their start (`Outcome.Ahead`) keeps every chain of them within that bound.
The rounds are counted by running the loop itself under the effect `Traced`, which notes the offsets
where an item is looked for.
-/

namespace TagMarkup

namespace Parser

open Outcome (Ahead)

variable {α : Type}

/-- From the first offset to the second, items with the given values are read one after the other,
and each of them consumes something. -/
inductive Advances (item : Int → Outcome α) : Int → List α → Int → Prop where
  /-- No items. -/
  | stay (p : Int) : Advances item p [] p
  /-- An item, then further items. -/
  | step {p mid stop : Int} {a : α} {as : List α} (first : item p = .ok (.success a mid))
      (grows : p < mid) (others : Advances item mid as stop) : Advances item p (a :: as) stop

/-- At the offset there is no item, or one that consumes nothing. -/
def Rests (item : Int → Outcome α) (p : Int) : Prop :=
  (∃ q, item p = .ok (.failure q)) ∨ ∃ a, item p = .ok (.success a p)

/-- Looks for an item and notes the offset. -/
def noting (item : Int → Outcome α) (p : Int) : Traced Int (Result α) :=
  (item p, [p])

/-- The offsets at which a repetition in a text looks for an item, one for each round. -/
def rounds (item : Int → Outcome α) (text : Text) (start : Int) : List Int :=
  (repeatFrom (m := Traced Int) (noting item) (bound text start) [] start).2

/-- Noting the offsets does not change what a repetition comes to. -/
theorem repeatFrom_noting_fst (item : Int → Outcome α) (last : Int) (read : List α) (cur : Int) :
    (repeatFrom (m := Traced Int) (noting item) last read cur).1 =
      repeatFrom (m := Except Fault) item last read cur :=
  Simulation.forgetRules.rel_repeatFrom (fun _ => rfl) last read cur

section Rounds

variable {item : Int → Outcome α} {last cur next : Int} {a : α} {fault : Fault}

theorem repeatFrom_noting_of_success (h : item cur = .ok (.success a next)) (grows : cur < next)
    (inside : next ≤ last) (read : List α) :
    repeatFrom (m := Traced Int) (noting item) last read cur =
      ((repeatFrom (m := Traced Int) (noting item) last (a :: read) next).1,
        cur :: (repeatFrom (m := Traced Int) (noting item) last (a :: read) next).2) := by
  rw [repeatFrom]
  simp only [Bind.bind, Traced.bind, noting, h, dif_pos (And.intro grows inside)]
  rfl

theorem repeatFrom_noting_of_rests (h : Rests item cur) (read : List α) :
    repeatFrom (m := Traced Int) (noting item) last read cur =
      (.ok (.success read.reverse cur), [cur]) := by
  rw [repeatFrom]
  obtain ⟨q, hitem⟩ | ⟨a, hitem⟩ := h
  · simp only [Bind.bind, Traced.bind, noting, hitem]
    rfl
  · have stays : ¬ (cur < cur ∧ cur ≤ last) := by omega
    simp only [Bind.bind, Traced.bind, noting, hitem, dif_neg stays]
    rfl

theorem repeatFrom_noting_of_error (h : item cur = .error fault) (read : List α) :
    repeatFrom (m := Traced Int) (noting item) last read cur = (.error fault, [cur]) := by
  rw [repeatFrom]
  simp only [Bind.bind, Traced.bind, noting, h]
  rfl

end Rounds

section Chains

variable {item : Int → Outcome α} {text : Text} {p q last : Int} {as : List α} {fault : Fault}

/-- Every item of a chain takes up at least one offset. -/
theorem Advances.add_length_le (chain : Advances item p as q) : p + as.length ≤ q := by
  induction chain with
  | stay p => simp
  | step first grows others ih =>
      rw [List.length_cons]
      omega

variable (ahead : ∀ p, Ahead text p (item p))
include ahead

/-- A chain stays inside the text, as every item does. -/
theorem Advances.le_bound (chain : Advances item p as q) : q ≤ bound text p := by
  induction chain with
  | stay p => exact Outcome.le_bound text p
  | step first grows others ih =>
      exact Int.le_trans ih (Outcome.bound_le_bound (ahead _ _ first).2)

/-- From every offset there is a chain that cannot go on. -/
theorem exists_advances (p : Int) : ∃ as q, Advances item p as q ∧
    (Rests item q ∨ ∃ fault, item q = .error fault) := by
  rcases hitem : item p with fault | ⟨a, mid⟩ | q
  · exact ⟨[], p, .stay p, .inr ⟨fault, hitem⟩⟩
  · obtain ⟨hle, hmid⟩ : p ≤ mid ∧ mid ≤ bound text p := ahead p _ hitem
    by_cases stays : mid = p
    · subst stays
      exact ⟨[], mid, .stay mid, .inl (.inr ⟨a, hitem⟩)⟩
    · have grows : p < mid := by omega
      have closer : bound text mid ≤ bound text p := Outcome.bound_le_bound hmid
      obtain ⟨as, q, chain, stop⟩ := exists_advances mid
      exact ⟨a :: as, q, .step hitem grows chain, stop⟩
  · exact ⟨[], p, .stay p, .inl (.inl ⟨q, hitem⟩)⟩
termination_by (bound text p - p).toNat
decreasing_by omega

/-- A repetition follows a chain, with one round for each item. -/
theorem Advances.repeatFrom_noting (chain : Advances item p as q) (inside : bound text p ≤ last)
    (read : List α) :
    (repeatFrom (m := Traced Int) (noting item) last read p).1 =
        (repeatFrom (m := Traced Int) (noting item) last (as.reverse ++ read) q).1 ∧
      (repeatFrom (m := Traced Int) (noting item) last read p).2.length = as.length +
        (repeatFrom (m := Traced Int) (noting item) last (as.reverse ++ read) q).2.length := by
  induction chain generalizing read with
  | stay p => simp
  | @step p mid stop a as first grows others ih =>
      have hmid : mid ≤ bound text p := (ahead p _ first).2
      obtain ⟨houtcome, hlength⟩ :=
        ih (Int.le_trans (Outcome.bound_le_bound hmid) inside) (a :: read)
      rw [repeatFrom_noting_of_success first grows (Int.le_trans hmid inside),
        List.reverse_cons, List.append_assoc, List.singleton_append]
      refine ⟨houtcome, ?_⟩
      rw [List.length_cons, List.length_cons, hlength]
      omega

/-- Where a chain comes to rest, the repetition stops with its values. -/
theorem Advances.repeatFrom_of_rests (chain : Advances item p as q) (rests : Rests item q)
    (inside : bound text p ≤ last) (read : List α) :
    repeatFrom (m := Except Fault) item last read p =
      .ok (.success (read.reverse ++ as) q) := by
  rw [← repeatFrom_noting_fst, (chain.repeatFrom_noting ahead inside read).1,
    repeatFrom_noting_of_rests rests, List.reverse_append, List.reverse_reverse]

/-- Where an item behind a chain ends in a fault, so does the repetition. -/
theorem Advances.repeatFrom_of_error (chain : Advances item p as q) (h : item q = .error fault)
    (inside : bound text p ≤ last) (read : List α) :
    repeatFrom (m := Except Fault) item last read p = .error fault := by
  rw [← repeatFrom_noting_fst, (chain.repeatFrom_noting ahead inside read).1,
    repeatFrom_noting_of_error h]

/-- There is one round for each item of a chain that cannot go on, and one more. -/
theorem Advances.length_rounds (chain : Advances item p as q)
    (stop : Rests item q ∨ ∃ fault, item q = .error fault) :
    (rounds item text p).length = as.length + 1 := by
  rw [rounds, (chain.repeatFrom_noting ahead (Int.le_refl _) []).2]
  obtain rests | ⟨fault, h⟩ := stop
  · rw [repeatFrom_noting_of_rests rests, List.length_singleton]
  · rw [repeatFrom_noting_of_error h, List.length_singleton]

theorem length_rounds_le (p : Int) :
    (rounds item text p).length ≤ bound text p - p + 1 := by
  obtain ⟨as, q, chain, stop⟩ := exists_advances ahead p
  have hlength := chain.length_rounds ahead stop
  have hchain := chain.add_length_le
  have hbound := chain.le_bound ahead
  omega

end Chains

end Parser

namespace Grammar

open Outcome (Ahead)
open TagMarkup.Parser (Advances Rests rounds)

variable {R : Type} {ρ : R → Type} {α : Type}

/-- What the repetitions of an item in a text come to from an offset on. -/
structure RepeatsAlongChain (g : Grammar ρ) (limit : Nat) (item : Parser ρ α) (text : Text)
    (start : Int) : Prop where
  /-- The values and the offset are those of a chain of items that consume something, taken as far
  as there is one. An item at its end that consumes nothing is dropped. -/
  many_eq_success_iff (as : List α) (stop : Int) :
    g.run limit item.many text start = .ok (.success as stop) ↔
      Advances (g.run limit item text) start as stop ∧ Rests (g.run limit item text) stop
  /-- If no item ends in a fault, the repetition succeeds. -/
  exists_many_eq_success : (∀ p fault, g.run limit item text p ≠ .error fault) →
    ∃ as stop, g.run limit item.many text start = .ok (.success as stop)
  /-- It ends in a fault where an item behind a chain does. -/
  many_eq_error_iff (fault : Fault) : g.run limit item.many text start = .error fault ↔
    ∃ as stop, Advances (g.run limit item text) start as stop ∧
      g.run limit item text stop = .error fault
  /-- It does not fail. -/
  many_ne_failure (stop : Int) : g.run limit item.many text start ≠ .ok (.failure stop)
  /-- There are no more rounds than offsets up to the end of the text, and one more. -/
  length_rounds_le :
    (rounds (g.run limit item text) text start).length ≤ max start text.size - start + 1
  /-- To read at least one item is to attempt the sequence of an item and a repetition. -/
  many1_eq : g.run limit item.many1 text start =
    g.run limit ((item.seq item.many).map fun pair => pair.1 :: pair.2).attempt text start
  /-- It fails at its own start, and that where the first item fails. -/
  many1_eq_failure_iff (stop : Int) : g.run limit item.many1 text start = .ok (.failure stop) ↔
    stop = start ∧ ∃ q, g.run limit item text start = .ok (.failure q)
  /-- A first item that consumes nothing is kept, once. -/
  many1_of_nothing (a : α) : g.run limit item text start = .ok (.success a start) →
    g.run limit item.many1 text start = .ok (.success [a] start)

section Repetition

variable (g : Grammar ρ) (limit : Nat) (item : Parser ρ α) (text : Text)

/-- A repetition succeeds at the rest of a chain or ends in the fault behind one. -/
theorem exists_chain_of_many (start : Int) :
    ∃ as stop, Advances (g.run limit item text) start as stop ∧
      ((Rests (g.run limit item text) stop ∧
          g.run limit item.many text start = .ok (.success as stop)) ∨
        ∃ fault, g.run limit item text stop = .error fault ∧
          g.run limit item.many text start = .error fault) := by
  have ahead (p : Int) : Ahead text p (g.run limit item text p) := g.ahead_run limit item text p
  obtain ⟨as, stop, chain, rests | ⟨fault, h⟩⟩ := Parser.exists_advances ahead start
  · refine ⟨as, stop, chain, .inl ⟨rests, ?_⟩⟩
    rw [run, Parser.run_many]
    exact chain.repeatFrom_of_rests ahead rests (Int.le_refl _) []
  · refine ⟨as, stop, chain, .inr ⟨fault, h, ?_⟩⟩
    rw [run, Parser.run_many]
    exact chain.repeatFrom_of_error ahead h (Int.le_refl _) []

/-- A chain that comes to rest is what the repetition reads. -/
theorem many_eq_success_iff (start : Int) (as : List α) (stop : Int) :
    g.run limit item.many text start = .ok (.success as stop) ↔
      Advances (g.run limit item text) start as stop ∧ Rests (g.run limit item text) stop := by
  constructor
  · intro h
    obtain ⟨as', stop', chain, ⟨rests, hmany⟩ | ⟨fault, -, hmany⟩⟩ :=
      g.exists_chain_of_many limit item text start
    · cases hmany.symm.trans h
      exact ⟨chain, rests⟩
    · cases hmany.symm.trans h
  · rintro ⟨chain, rests⟩
    rw [run, Parser.run_many]
    exact chain.repeatFrom_of_rests (g.ahead_run limit item text) rests (Int.le_refl _) []

theorem many_eq_error_iff (start : Int) (fault : Fault) :
    g.run limit item.many text start = .error fault ↔
      ∃ as stop, Advances (g.run limit item text) start as stop ∧
        g.run limit item text stop = .error fault := by
  constructor
  · intro h
    obtain ⟨as, stop, chain, ⟨-, hmany⟩ | ⟨fault', hitem, hmany⟩⟩ :=
      g.exists_chain_of_many limit item text start
    · cases hmany.symm.trans h
    · cases hmany.symm.trans h
      exact ⟨as, stop, chain, hitem⟩
  · rintro ⟨as, stop, chain, hitem⟩
    rw [run, Parser.run_many]
    exact chain.repeatFrom_of_error (g.ahead_run limit item text) hitem (Int.le_refl _) []

theorem many_ne_failure (start stop : Int) :
    g.run limit item.many text start ≠ .ok (.failure stop) := by
  intro h
  obtain ⟨as, stop', -, ⟨-, hmany⟩ | ⟨fault, -, hmany⟩⟩ :=
    g.exists_chain_of_many limit item text start
  · cases hmany.symm.trans h
  · cases hmany.symm.trans h

theorem exists_many_eq_success (start : Int)
    (quiet : ∀ p fault, g.run limit item text p ≠ .error fault) :
    ∃ as stop, g.run limit item.many text start = .ok (.success as stop) := by
  obtain ⟨as, stop, -, ⟨-, hmany⟩ | ⟨fault, hitem, -⟩⟩ :=
    g.exists_chain_of_many limit item text start
  · exact ⟨as, stop, hmany⟩
  · exact absurd hitem (quiet stop fault)

variable {g limit item text}

/-- Behind its first item, a repetition that needs one goes on like any other. -/
theorem many1_of_success {start mid : Int} {a : α}
    (first : g.run limit item text start = .ok (.success a mid)) :
    g.run limit item.many1 text start =
      Outcome.andThen (g.run limit item.many text mid) fun as stop =>
        .ok (.success (a :: as) stop) := by
  have ahead (p : Int) : Ahead text p (g.run limit item text p) := g.ahead_run limit item text p
  have hmany1 : g.run limit item.many1 text start =
      Parser.repeatFrom (m := Except Fault) (g.run limit item text) (Parser.bound text mid) [a]
        mid := by
    rw [run] at first
    rw [run, Parser.run_many1, first]
    rfl
  obtain ⟨as, stop, chain, ⟨rests, hmany⟩ | ⟨fault, hitem, hmany⟩⟩ :=
    g.exists_chain_of_many limit item text mid
  · rw [hmany1, hmany]
    exact chain.repeatFrom_of_rests ahead rests (Int.le_refl _) [a]
  · rw [hmany1, hmany]
    exact chain.repeatFrom_of_error ahead hitem (Int.le_refl _) [a]

theorem many1_of_failure {start q : Int}
    (first : g.run limit item text start = .ok (.failure q)) :
    g.run limit item.many1 text start = .ok (.failure start) := by
  rw [run] at first
  rw [run, Parser.run_many1, first]
  rfl

theorem many1_of_error {start : Int} {fault : Fault}
    (first : g.run limit item text start = .error fault) :
    g.run limit item.many1 text start = .error fault := by
  rw [run] at first
  rw [run, Parser.run_many1, first]
  rfl

variable (g limit item text)

/-- An item and a repetition of it, attempted as a whole, is a repetition that needs an item. -/
theorem many1_eq_attempt (start : Int) :
    g.run limit item.many1 text start =
      g.run limit ((item.seq item.many).map fun pair => pair.1 :: pair.2).attempt text start := by
  have hattempt : g.run limit ((item.seq item.many).map fun pair => pair.1 :: pair.2).attempt
      text start = Outcome.orElse (Outcome.andThen (Outcome.andThen (g.run limit item text start)
        fun a mid => Outcome.andThen (g.run limit item.many text mid) fun as stop =>
          .ok (.success (a, as) stop)) fun pair stop => .ok (.success (pair.1 :: pair.2) stop))
        fun _ => .ok (.failure start) := by
    rw [run, Parser.run_attempt, Parser.run_map, Parser.run_seq]
    rfl
  rw [hattempt]
  rcases first : g.run limit item text start with fault | ⟨a, mid⟩ | q
  · exact many1_of_error first
  · rw [many1_of_success first, Outcome.andThen_success]
    rcases hmany : g.run limit item.many text mid with fault | ⟨as, stop⟩ | q
    · rfl
    · rfl
    · exact absurd hmany (g.many_ne_failure limit item text mid q)
  · exact many1_of_failure first

theorem many1_eq_failure_iff (start stop : Int) :
    g.run limit item.many1 text start = .ok (.failure stop) ↔
      stop = start ∧ ∃ q, g.run limit item text start = .ok (.failure q) := by
  rcases first : g.run limit item text start with fault | ⟨a, mid⟩ | q
  · rw [many1_of_error first]
    simp
  · rw [many1_of_success first]
    rcases hmany : g.run limit item.many text mid with fault | ⟨as, stop'⟩ | q
    · simp
    · simp
    · exact absurd hmany (g.many_ne_failure limit item text mid q)
  · rw [many1_of_failure first]
    simp [eq_comm]

/-- An item that consumes nothing is not read again. -/
theorem many1_of_nothing (start : Int) (a : α)
    (first : g.run limit item text start = .ok (.success a start)) :
    g.run limit item.many1 text start = .ok (.success [a] start) := by
  have hmany : g.run limit item.many text start = .ok (.success [] start) :=
    (g.many_eq_success_iff limit item text start [] start).mpr ⟨.stay start, .inr ⟨a, first⟩⟩
  rw [many1_of_success first, hmany]
  rfl

end Repetition

/-- Repetition goes along the longest chain of items that consume something, whatever the item, the
text and the start are, and is over after a bounded number of rounds. -/
theorem repeatsAlongChain (g : Grammar ρ) (limit : Nat) (item : Parser ρ α) (text : Text)
    (start : Int) : g.RepeatsAlongChain limit item text start where
  many_eq_success_iff := g.many_eq_success_iff limit item text start
  exists_many_eq_success := g.exists_many_eq_success limit item text start
  many_eq_error_iff := g.many_eq_error_iff limit item text start
  many_ne_failure := g.many_ne_failure limit item text start
  length_rounds_le := Parser.length_rounds_le (g.ahead_run limit item text) start
  many1_eq := g.many1_eq_attempt limit item text start
  many1_eq_failure_iff := g.many1_eq_failure_iff limit item text start
  many1_of_nothing := g.many1_of_nothing limit item text start

/-- Reads the letter `a`, or else nothing. -/
def letterOrNothing : Parser Element.Values Text :=
  ((Parser.literal "a").map fun _ => ("a" : Text)).orElse (.pure "nothing")

/-- Two units before the beginning of a text, its first letter is found three times; the letters are
repeated up to where nothing is read, which is dropped, but kept where an item is needed. -/
theorem repeatsAlongChain_letterOrNothing :
    (∀ p fault, Element.grammar.run 1 letterOrNothing "aab" p ≠ .error fault) ∧
      (∃ as stop, Element.grammar.run 1 letterOrNothing.many "aab" (-2) =
        .ok (.success as stop)) ∧
      Element.grammar.run 1 letterOrNothing.many "aab" (-2) =
        .ok (.success ["a", "a", "a", "a"] 2) ∧
      (rounds (Element.grammar.run 1 letterOrNothing "aab") "aab" (-2)).length ≤
        max (-2) (3 : Int) - (-2) + 1 ∧
      Element.grammar.run 1 letterOrNothing.many1 "aab" 2 = .ok (.success ["nothing"] 2) := by
  have quiet (p : Int) (fault : Fault) :
      Element.grammar.run 1 letterOrNothing "aab" p ≠ .error fault := by
    rw [run, letterOrNothing, Parser.pure, Parser.run_orElse, Parser.run_map, Parser.run_map,
      Parser.run_literal, Parser.run_literal]
    rcases Parser.readLiteral "aab" "a" p with _ | _
    · exact nofun
    · rcases Parser.readLiteral "aab" .empty p with _ | _
      · exact nofun
      · exact nofun
  have nothing : Element.grammar.run 1 letterOrNothing "aab" 2 = .ok (.success "nothing" 2) := rfl
  have letter (p q : Int) (matched : Text.matchesAt "aab" "a" p = true) (hq : p + 1 = q) :
      Element.grammar.run 1 letterOrNothing "aab" p = .ok (.success "a" q) := by
    rw [run, letterOrNothing, Parser.run_orElse, Parser.run_map, Parser.run_literal,
      Parser.readLiteral, if_pos matched, ← hq]
    rfl
  have chain : Advances (Element.grammar.run 1 letterOrNothing "aab") (-2)
      ["a", "a", "a", "a"] 2 :=
    .step (letter (-2) (-1) (by decide) rfl) (by decide) <|
      .step (letter (-1) 0 (by decide) rfl) (by decide) <|
        .step (letter 0 1 (by decide) rfl) (by decide) <|
          .step (letter 1 2 (by decide) rfl) (by decide) <| .stay 2
  have repeats := repeatsAlongChain Element.grammar 1 letterOrNothing "aab" (-2)
  exact ⟨quiet, repeats.exists_many_eq_success quiet,
    (repeats.many_eq_success_iff _ _).mpr ⟨chain, .inr ⟨"nothing", nothing⟩⟩,
    repeats.length_rounds_le,
    (repeatsAlongChain Element.grammar 1 letterOrNothing "aab" 2).many1_of_nothing _ nothing⟩

end Grammar

end TagMarkup
