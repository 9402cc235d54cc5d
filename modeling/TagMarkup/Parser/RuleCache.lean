import TagMarkup.Parser.Run

/-!
# Rules built on first use

A grammar may be large, so a rule is built only when it is first called and then kept. The cache
holds the rules built so far and counts how often each was built; it outlives a single reading,
also one that fails or ends in a fault.

## Implementation notes

`Cached` is a state monad whose state survives faults. It is a definition of its own because the
cache holds parsers and so lives one universe above the values.
-/

namespace TagMarkup

/-- The rules built so far. -/
structure RuleCache {R : Type} (ρ : R → Type) : Type 1 where
  /-- The parser of a rule, if the rule has been built. -/
  built : (r : R) → Option (Parser ρ (ρ r))
  /-- How often a rule has been built. -/
  builds : R → Nat

/-- A computation that reads and fills a cache and may end in a fault, keeping the cache. -/
def Cached {R : Type} (ρ : R → Type) (α : Type) : Type 1 :=
  RuleCache ρ → Except Fault α × RuleCache ρ

namespace RuleCache

variable {R : Type} {ρ : R → Type}

/-- The cache before any rule has been called. -/
def empty : RuleCache ρ where
  built _ := none
  builds _ := 0

/-- The cache after a rule has been built. -/
def insert [DecidableEq R] (cache : RuleCache ρ) (r : R) (parser : Parser ρ (ρ r)) :
    RuleCache ρ where
  built s := if h : r = s then some (h ▸ parser) else cache.built s
  builds s := if r = s then cache.builds s + 1 else cache.builds s

@[simp] theorem built_empty (r : R) : (empty : RuleCache ρ).built r = none := rfl

@[simp] theorem builds_empty (r : R) : (empty : RuleCache ρ).builds r = 0 := rfl

@[simp] theorem built_insert_self [DecidableEq R] (cache : RuleCache ρ) (r : R)
    (parser : Parser ρ (ρ r)) : (cache.insert r parser).built r = some parser := by
  simp [insert]

theorem built_insert_of_ne [DecidableEq R] (cache : RuleCache ρ) {r s : R} (h : r ≠ s)
    (parser : Parser ρ (ρ r)) : (cache.insert r parser).built s = cache.built s := by
  simp [insert, h]

theorem builds_insert [DecidableEq R] (cache : RuleCache ρ) (r s : R)
    (parser : Parser ρ (ρ r)) :
    (cache.insert r parser).builds s = if r = s then cache.builds s + 1 else cache.builds s :=
  rfl

end RuleCache

namespace Cached

variable {R : Type} {ρ : R → Type} {α β : Type}

/-- Leaves the cache as it is. -/
@[inline] protected def pure (a : α) : Cached ρ α :=
  fun cache => (.ok a, cache)

/-- Goes on with the value, unless there was a fault. -/
@[inline] protected def bind (x : Cached ρ α) (f : α → Cached ρ β) : Cached ρ β :=
  fun cache =>
    match x cache with
    | (.ok a, cache) => f a cache
    | (.error fault, cache) => (.error fault, cache)

/-- Ends in a fault and keeps the cache. -/
@[inline] protected def throw (fault : Fault) : Cached ρ α :=
  fun cache => (.error fault, cache)

/-- Goes on after a fault with the cache it left. -/
@[inline] protected def tryCatch (x : Cached ρ α) (handler : Fault → Cached ρ α) : Cached ρ α :=
  fun cache =>
    match x cache with
    | (.ok a, cache) => (.ok a, cache)
    | (.error fault, cache) => handler fault cache

@[always_inline]
instance : Monad (Cached ρ) where
  pure := Cached.pure
  bind := Cached.bind

@[always_inline]
instance : MonadExceptOf Fault (Cached ρ) where
  throw := Cached.throw
  tryCatch := Cached.tryCatch

end Cached

namespace Grammar

variable {R : Type} {ρ : R → Type}

/-- The parser of a rule, built and counted if it is called for the first time. -/
def fetch [DecidableEq R] (g : Grammar ρ) (r : R) (cache : RuleCache ρ) :
    Parser ρ (ρ r) × RuleCache ρ :=
  match cache.built r with
  | some parser => (parser, cache)
  | none => (g r, cache.insert r (g r))

/-- What a rule reads when at most `limit` rules may be active at once, with the rules built on
first use. -/
def callCached [DecidableEq R] (g : Grammar ρ) (text : Text) :
    (limit : Nat) → (r : R) → Int → Cached ρ (Result (ρ r))
  | 0, _, _ => Cached.throw .exhausted
  | limit + 1, r, p => fun cache =>
    let (parser, cache) := g.fetch r cache
    parser.run (callCached g text limit) text p cache

/-- Reads a text from an offset with the rules of a grammar, built on first use. -/
def runCached [DecidableEq R] {α : Type} (g : Grammar ρ) (limit : Nat) (parser : Parser ρ α)
    (text : Text) (p : Int) : Cached ρ (Result α) :=
  parser.run (g.callCached text limit) text p

/-- Reads a whole text with the rules of a grammar, built on first use. -/
def runWholeCached [DecidableEq R] {α : Type} (g : Grammar ρ) (limit : Nat) (parser : Parser ρ α)
    (text : Text) : Cached ρ α := fun cache =>
  let (outcome, cache) := g.runCached limit parser text 0 cache
  (wholeValue text outcome, cache)

end Grammar

end TagMarkup
