import TagMarkup.Element.Parser
import TagMarkup.Parser.RuleCache
import TagMarkup.Proofs.Parser.Simulation

/-!
# Sharing a parser between calls

A parser whose rules are built on first use keeps the built rules from call to call. This module
shows that nobody can tell: every request is answered as if the parser had never been used, and a
rule has been built once if some request so far ran it, and not at all otherwise.

## Implementation notes

`Traced` runs a parser without any cache and lists the rules that it runs. The cache after some
requests is determined by the rules run so far, in the sense of `RuleCache.Holds`; this is the
invariant that every step of a run keeps, whether the run succeeds, fails or ends in a fault.
-/

namespace TagMarkup

/-- What a computation comes to, and the rules that it runs in order. -/
def Traced (R α : Type) : Type :=
  Except Fault α × List R

namespace Traced

variable {R α β : Type}

/-- Runs no rule. -/
protected def pure (a : α) : Traced R α :=
  (.ok a, [])

/-- Goes on with the value, unless there was a fault. -/
protected def bind (x : Traced R α) (f : α → Traced R β) : Traced R β :=
  match x with
  | (.ok a, rules) => ((f a).1, rules ++ (f a).2)
  | (.error fault, rules) => (.error fault, rules)

/-- Ends in a fault. -/
protected def throw (fault : Fault) : Traced R α :=
  (.error fault, [])

/-- Goes on after a fault. -/
protected def tryCatch (x : Traced R α) (handler : Fault → Traced R α) : Traced R α :=
  match x with
  | (.ok a, rules) => (.ok a, rules)
  | (.error fault, rules) => ((handler fault).1, rules ++ (handler fault).2)

instance : Monad (Traced R) where
  pure := Traced.pure
  bind := Traced.bind

instance : MonadExceptOf Fault (Traced R) where
  throw := Traced.throw
  tryCatch := Traced.tryCatch

end Traced

namespace Grammar

variable {R : Type} {ρ : R → Type} {α : Type}

/-- What a rule reads when at most `limit` rules may be active at once, and the rules it runs, the
rule itself among them. -/
def callTraced (g : Grammar ρ) (text : Text) :
    (limit : Nat) → (r : R) → Int → Traced R (Result (ρ r))
  | 0, _, _ => Traced.throw .exhausted
  | limit + 1, r, p =>
    let (outcome, rules) := (g r).run (callTraced g text limit) text p
    (outcome, r :: rules)

/-- Reads a text from an offset and lists the rules that are run. -/
def runTraced (g : Grammar ρ) (limit : Nat) (parser : Parser ρ α) (text : Text) (p : Int) :
    Traced R (Result α) :=
  parser.run (g.callTraced text limit) text p

end Grammar

namespace Simulation

variable {R : Type}

/-- Listing the rules does not change what a computation comes to. -/
def forgetRules : Simulation (Traced R) (Except Fault) where
  Rel x y := x.1 = y
  rel_pure _ := rfl
  rel_throw _ := rfl
  rel_bind := by
    rintro α β ⟨x | a, rules⟩ y f g rfl h
    · rfl
    · exact h a

end Simulation

namespace Grammar

variable {R : Type} {ρ : R → Type} {α : Type}

theorem callTraced_fst (g : Grammar ρ) (text : Text) (limit : Nat) (r : R) (p : Int) :
    (g.callTraced text limit r p).1 = g.call text limit r p := by
  induction limit generalizing r p with
  | zero => rfl
  | succ limit ih => exact Simulation.forgetRules.rel_run ih text (g r) p

theorem runTraced_fst (g : Grammar ρ) (limit : Nat) (parser : Parser ρ α) (text : Text)
    (p : Int) : (g.runTraced limit parser text p).1 = g.run limit parser text p :=
  Simulation.forgetRules.rel_run (g.callTraced_fst text limit) text parser p

end Grammar

namespace RuleCache

variable {R : Type} {ρ : R → Type} [DecidableEq R]

/-- The cache holds the given rules and no others, each of them built once. -/
structure Holds (g : Grammar ρ) (cache : RuleCache ρ) (rules : List R) : Prop where
  /-- The rules that are kept. -/
  built (r : R) : cache.built r = if r ∈ rules then some (g r) else none
  /-- The count of each rule. -/
  builds (r : R) : cache.builds r = if r ∈ rules then 1 else 0

theorem holds_empty (g : Grammar ρ) : Holds g (empty : RuleCache ρ) [] where
  built _ := rfl
  builds _ := rfl

/-- Fetching a rule gives that rule, and the cache then holds it besides those it held before. -/
theorem Holds.fetch {g : Grammar ρ} {cache : RuleCache ρ} {rules : List R}
    (h : cache.Holds g rules) (r : R) :
    (g.fetch r cache).1 = g r ∧ (g.fetch r cache).2.Holds g (rules ++ [r]) := by
  have hr := h.built r
  by_cases known : r ∈ rules
  · rw [if_pos known] at hr
    simp only [Grammar.fetch, hr]
    have same : ∀ s, s ∈ rules ++ [r] ↔ s ∈ rules := by
      intro s
      simp only [List.mem_append, List.mem_singleton]
      constructor
      · rintro (hs | rfl)
        · exact hs
        · exact known
      · exact .inl
    refine ⟨trivial, ⟨fun s => ?_, fun s => ?_⟩⟩
    · simp only [same, h.built s]
    · simp only [same, h.builds s]
  · rw [if_neg known] at hr
    simp only [Grammar.fetch, hr]
    refine ⟨trivial, ⟨fun s => ?_, fun s => ?_⟩⟩
    · by_cases hs : r = s
      · subst hs
        simp
      · rw [built_insert_of_ne cache hs, h.built s]
        simp [Ne.symm hs]
    · rw [builds_insert, h.builds s]
      by_cases hs : r = s
      · subst hs
        simp [known]
      · simp [hs, Ne.symm hs]

end RuleCache

namespace Simulation

variable {R : Type} {ρ : R → Type} [DecidableEq R]

/-- From a cache that holds the rules run earlier, the computation with a cache comes to what the
one without comes to, and then the cache holds the rules run since as well. -/
def ignoreCache (g : Grammar ρ) : Simulation (Cached ρ) (Traced R) where
  Rel x y := ∀ cache earlier, cache.Holds g earlier →
    (x cache).1 = y.1 ∧ (x cache).2.Holds g (earlier ++ y.2)
  rel_pure a := by
    intro cache earlier h
    exact ⟨rfl, (List.append_nil earlier).symm ▸ h⟩
  rel_throw fault := by
    intro cache earlier h
    exact ⟨rfl, (List.append_nil earlier).symm ▸ h⟩
  rel_bind := by
    rintro α β x ⟨outcome, rules⟩ f f' hx hf cache earlier h
    obtain ⟨hfirst, hholds⟩ := hx cache earlier h
    rcases hrun : x cache with ⟨first, left⟩
    simp only [hrun] at hfirst hholds
    subst hfirst
    simp only [Bind.bind, Cached.bind, Traced.bind, hrun]
    cases first with
    | error fault => exact ⟨rfl, hholds⟩
    | ok a =>
        obtain ⟨hnext, hafter⟩ := hf a left (earlier ++ rules) hholds
        exact ⟨hnext, List.append_assoc earlier rules _ ▸ hafter⟩

end Simulation

namespace Grammar

variable {R : Type} {ρ : R → Type} {α : Type} [DecidableEq R]

theorem callCached_rel (g : Grammar ρ) (text : Text) (limit : Nat) (r : R) (p : Int) :
    (Simulation.ignoreCache g).Rel (g.callCached text limit r p) (g.callTraced text limit r p) := by
  induction limit generalizing r p with
  | zero => exact (Simulation.ignoreCache g).rel_throw .exhausted
  | succ limit ih =>
      intro cache earlier h
      obtain ⟨hrule, hfetched⟩ := h.fetch r
      have hrun := (Simulation.ignoreCache g).rel_run ih text (g r) p _ _ hfetched
      simp only [callCached, callTraced, hrule]
      rw [List.append_assoc] at hrun
      exact hrun

/-- A run with a cache comes to what the run without one comes to, whatever the cache holds; and
the cache then holds the rules that the run ran besides those it held before. -/
theorem runCached_eq (g : Grammar ρ) (limit : Nat) (parser : Parser ρ α) (text : Text) (p : Int)
    {cache : RuleCache ρ} {earlier : List R} (h : cache.Holds g earlier) :
    (g.runCached limit parser text p cache).1 = g.run limit parser text p ∧
      (g.runCached limit parser text p cache).2.Holds g
        (earlier ++ (g.runTraced limit parser text p).2) := by
  have hrel := (Simulation.ignoreCache g).rel_run (g.callCached_rel text limit) text parser p
  obtain ⟨hout, hholds⟩ := hrel cache earlier h
  exact ⟨hout.trans (g.runTraced_fst limit parser text p), hholds⟩

end Grammar

/-- A request to a parser that is shared between requests. -/
inductive Request where
  /-- To read a text from an offset. -/
  | run (text : Text) (p : Int)
  /-- To read a whole text. -/
  | runWhole (text : Text)

namespace Request

variable {R : Type} {ρ : R → Type} {α : Type}

/-- The answer to a request when no rule is kept: a result, or the value of a whole text, unless
there is a fault. -/
def answer (g : Grammar ρ) (limit : Nat) (parser : Parser ρ α) :
    Request → Except Fault (Result α ⊕ α)
  | run text p => (g.run limit parser text p).map .inl
  | runWhole text => (g.runWhole limit parser text).map .inr

/-- The answer to a request when rules are built on first use and kept. -/
def answerCached [DecidableEq R] (g : Grammar ρ) (limit : Nat) (parser : Parser ρ α) :
    Request → Cached ρ (Result α ⊕ α)
  | run text p => fun cache =>
    let (outcome, cache) := g.runCached limit parser text p cache
    (outcome.map .inl, cache)
  | runWhole text => fun cache =>
    let (outcome, cache) := g.runWholeCached limit parser text cache
    (outcome.map .inr, cache)

/-- The rules that are run to answer a request. -/
def rulesRun (g : Grammar ρ) (limit : Nat) (parser : Parser ρ α) : Request → List R
  | run text p => (g.runTraced limit parser text p).2
  | runWhole text => (g.runTraced limit parser text 0).2

theorem answerCached_eq [DecidableEq R] (g : Grammar ρ) (limit : Nat) (parser : Parser ρ α)
    (q : Request) {cache : RuleCache ρ} {earlier : List R} (h : cache.Holds g earlier) :
    (q.answerCached g limit parser cache).1 = q.answer g limit parser ∧
      (q.answerCached g limit parser cache).2.Holds g (earlier ++ q.rulesRun g limit parser) := by
  cases q with
  | run text p =>
      obtain ⟨hout, hholds⟩ := g.runCached_eq limit parser text p h
      exact ⟨congrArg (Except.map Sum.inl) hout, hholds⟩
  | runWhole text =>
      obtain ⟨hout, hholds⟩ := g.runCached_eq limit parser text 0 h
      exact ⟨congrArg (fun x => (wholeValue text x).map Sum.inr) hout, hholds⟩

end Request

namespace Grammar

variable {R : Type} {ρ : R → Type} {α : Type} [DecidableEq R]

/-- The answers to requests made one after the other to the same parser, each with the counts of
built rules after it. -/
def serve (g : Grammar ρ) (limit : Nat) (parser : Parser ρ α) :
    List Request → RuleCache ρ → List (Except Fault (Result α ⊕ α) × (R → Nat))
  | [], _ => []
  | q :: qs, cache =>
    let (answer, cache) := q.answerCached g limit parser cache
    (answer, cache.builds) :: serve g limit parser qs cache

/-- Every request is answered as if there were no cache, and a rule has been built once if it was
run earlier or by a request so far, and not at all otherwise. -/
theorem serve_getElem? (g : Grammar ρ) (limit : Nat) (parser : Parser ρ α) (qs : List Request)
    {cache : RuleCache ρ} {earlier : List R} (h : cache.Holds g earlier) (i : Nat) :
    (g.serve limit parser qs cache)[i]? = qs[i]?.map fun q =>
      (q.answer g limit parser, fun r =>
        if r ∈ earlier ++ (qs.take (i + 1)).flatMap (·.rulesRun g limit parser) then 1 else 0) := by
  induction qs generalizing cache earlier i with
  | nil => rfl
  | cons q qs ih =>
      obtain ⟨hout, hholds⟩ := q.answerCached_eq g limit parser h
      cases i with
      | zero =>
          have hbuilds := funext hholds.builds
          simp [serve, hout, hbuilds]
      | succ i =>
          simp only [serve, List.getElem?_cons_succ, ih hholds i, List.take_succ_cons,
            List.flatMap_cons, List.append_assoc]

/-- Requests made to one shared parser, in any number and order, are each answered as a parser
answers that has not been used before, which is how one without a cache answers; and after each of
them a rule has been built once if one of the requests so far ran it, and not at all otherwise. -/
def CacheUnobservable (g : Grammar ρ) (limit : Nat) (parser : Parser ρ α) : Prop :=
  ∀ (qs : List Request) (i : Nat) (q : Request), qs[i]? = some q →
    ∃ builds, (g.serve limit parser qs .empty)[i]? =
        some ((q.answerCached g limit parser .empty).1, builds) ∧
      (q.answerCached g limit parser .empty).1 = q.answer g limit parser ∧
      ∀ r, builds r ≤ 1 ∧
        (builds r = 1 ↔ ∃ q' ∈ qs.take (i + 1), r ∈ q'.rulesRun g limit parser)

theorem cacheUnobservable (g : Grammar ρ) (limit : Nat) (parser : Parser ρ α) :
    g.CacheUnobservable limit parser := by
  intro qs i q hq
  obtain ⟨hfresh, -⟩ := q.answerCached_eq g limit parser (RuleCache.holds_empty g)
  have hserve := g.serve_getElem? limit parser qs (RuleCache.holds_empty g) i
  rw [hq, Option.map_some, ← hfresh] at hserve
  refine ⟨_, hserve, hfresh, fun r => ?_⟩
  rw [List.nil_append, ← List.mem_flatMap]
  split
  · next ran => exact ⟨Nat.le_refl 1, iff_of_true rfl ran⟩
  · next idle => exact ⟨Nat.zero_le 1, iff_of_false Nat.zero_ne_one idle⟩

end Grammar

namespace Element

variable {R R' : Type} {ρ : R → Type} {ρ' : R' → Type}

/-- Elements whose children have a rule of their own at every depth, built when an element at that
depth is first looked for. -/
def nestedGrammar : Grammar fun _ : Nat => Element :=
  fun depth => element (.rule (depth + 1))

/-- Reads an element, the children in it by the rules for the depths below. -/
def nestedRoot : Parser (fun _ : Nat => Element) Element :=
  element (.rule 0)

/-- The reading of an element depends on the rule for child elements alone. -/
theorem element_run_congr {call : (r : R) → Int → Outcome (ρ r)}
    {call' : (r : R') → Int → Outcome (ρ' r)} {text : Text} {self : Parser ρ Element}
    {self' : Parser ρ' Element} (h : self.run call text = self'.run call' text) (p : Int) :
    (element self).run call text p = (element self').run call' text p := by
  simp only [element, parentElement, Parser.spaced, Parser.run_seqRight, Parser.run_seqLeft,
    Parser.run_orElse, Parser.run_bind, Parser.run_map, Parser.run_many, h]
  rfl

theorem nestedGrammar_call (text : Text) (limit depth : Nat) (p : Int) :
    nestedGrammar.call text limit depth p = grammar.call text limit () p := by
  induction limit generalizing depth p with
  | zero => rfl
  | succ limit ih =>
      have h : (Parser.rule (depth + 1) : Parser (fun _ : Nat => Element) Element).run
          (nestedGrammar.call text limit) text =
          (Parser.rule () : Parser Values Element).run (grammar.call text limit) text :=
        funext fun q => ih (depth + 1) q
      exact element_run_congr h p

/-- One rule for elements at all depths reads what a rule for each depth reads. -/
theorem nestedGrammar_run (limit : Nat) (text : Text) (p : Int) :
    nestedGrammar.run limit nestedRoot text p = read (limit + 1) text p := by
  have h : (Parser.rule 0 : Parser (fun _ : Nat => Element) Element).run
      (nestedGrammar.call text limit) text =
      (Parser.rule () : Parser Values Element).run (grammar.call text limit) text :=
    funext fun q => nestedGrammar_call text limit 0 q
  exact element_run_congr h p

end Element

namespace Grammar

variable {R : Type} {ρ : R → Type} {α : Type} [DecidableEq R]

/-- Rules built on first use and kept from request to request are unobservable, for every grammar
and parser as well as for the element parser, whose rules are built depth by depth and which
answers as if it had one rule. -/
theorem cache_unobservable_and_elements (g : Grammar ρ) (limit : Nat) (parser : Parser ρ α) :
    g.CacheUnobservable limit parser ∧
      ∀ opened : Nat, Element.nestedGrammar.CacheUnobservable opened Element.nestedRoot ∧
        ∀ q : Request, (q.answerCached Element.nestedGrammar opened Element.nestedRoot .empty).1 =
          q.answer Element.grammar (opened + 1) Element.root := by
  refine ⟨g.cacheUnobservable limit parser, fun opened => ⟨?_, fun q => ?_⟩⟩
  · exact Element.nestedGrammar.cacheUnobservable opened Element.nestedRoot
  · obtain ⟨hfresh, -⟩ := q.answerCached_eq Element.nestedGrammar opened Element.nestedRoot
      (RuleCache.holds_empty Element.nestedGrammar)
    rw [hfresh]
    cases q with
    | run text p => exact congrArg (Except.map Sum.inl) (Element.nestedGrammar_run opened text p)
    | runWhole text =>
        exact congrArg (fun x => (wholeValue text x).map Sum.inr)
          (Element.nestedGrammar_run opened text 0)

/-- The third of three requests, after one that was exhausted and one that failed. -/
theorem cache_unobservable_third_request :
    ([.run "<a><b><c/></b></a>" 0, .runWhole "<a>", .run "<a><b/></a>" 0] : List Request)[2]? =
        some (.run "<a><b/></a>" 0) ∧
      ∃ builds, (Element.nestedGrammar.serve 1 Element.nestedRoot
          [.run "<a><b><c/></b></a>" 0, .runWhole "<a>", .run "<a><b/></a>" 0] .empty)[2]? =
          some (((Request.run "<a><b/></a>" 0).answerCached Element.nestedGrammar 1
            Element.nestedRoot .empty).1, builds) ∧
        ((Request.run "<a><b/></a>" 0).answerCached Element.nestedGrammar 1
            Element.nestedRoot .empty).1 =
          (Request.run "<a><b/></a>" 0).answer Element.nestedGrammar 1 Element.nestedRoot ∧
        ∀ depth, builds depth ≤ 1 ∧
          (builds depth = 1 ↔
            ∃ q' ∈ List.take 3 [.run "<a><b><c/></b></a>" 0, .runWhole "<a>",
              .run "<a><b/></a>" 0], depth ∈
                Request.rulesRun Element.nestedGrammar 1 Element.nestedRoot q') :=
  ⟨rfl, (cache_unobservable_and_elements Element.nestedGrammar 1 Element.nestedRoot).1 _ 2 _ rfl⟩

end Grammar

end TagMarkup
