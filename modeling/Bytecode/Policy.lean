import Bytecode.Program

/-!
# Inlining policies

A policy decides whether a method may be inlined.  Its answer may depend on the
program as it stands and on how often it has been asked, so it may be one that
keeps a state, and asking twice can give two answers.  A `Memo` remembers the
decisions on the methods asked about most recently.  It keeps them in a `Cache`,
of which nothing is known but how it takes in entries and gives them up.
-/

namespace Bytecode

/-- Whether a method may be inlined; there is an answer for no method, too.  The
number says how many answers have been given before. -/
abbrev Policy := Nat → Program → Option MethodId → Bool

namespace Policy

/-- Declines every method. -/
def never : Policy := fun _ _ _ => false

/-- Accepts every method. -/
def always : Policy := fun _ _ _ => true

/-- Limits of the baseline policy.  A limit that is not positive does not
apply. -/
structure Limits where
  maxInstructions : Int := 0
  maxLocals : Int := 0
  /-- Full names of methods that are never inlined. -/
  exclude : List String := []

/-- Accepts methods that are static, not virtual, implemented here, without
parameters, without result, not excluded and within the limits. -/
def baseline (limits : Limits) : Policy := fun _ p m =>
  match m with
  | none => false
  | some m =>
    let x := p.method m
    match x.body with
    | none => false
    | some b =>
      let body := p.body b
      x.isStatic && !x.isVirtual && !x.isAbstract && !x.isExtern &&
      x.params.isEmpty && x.returnsVoid &&
      !limits.exclude.contains x.fullName &&
      !(limits.maxInstructions > 0 && p.size b > limits.maxInstructions) &&
      !(limits.maxLocals > 0 && body.locals.size > limits.maxLocals)

end Policy

/-! ### Caches

A cache has room for so many decisions.  Looking one up and adding one make it
the one used last; where there is no room for a new one, the one that was used
longest ago is given up.
-/

/-- Caches of decisions. -/
class Cache (C : Type) where
  /-- An empty cache with room for so many entries. -/
  empty : Nat → C
  /-- The decision on a method, if there is an entry for it. -/
  get : C → Option MethodId → Option Bool × C
  /-- Enters a decision. -/
  add : C → Option MethodId → Bool → C
  capacity : C → Nat
  /-- Methods and decisions, the entry used last in front. -/
  entries : C → List (Option MethodId × Bool)
  capacity_empty : ∀ n, capacity (empty n) = n
  entries_empty : ∀ n, entries (empty n) = []
  capacity_get : ∀ c m, capacity (get c m).2 = capacity c
  get_fst : ∀ c m, (get c m).1 = (entries c).lookup m
  entries_get : ∀ c m, entries (get c m).2 = match (entries c).lookup m with
    | some yes => (m, yes) :: (entries c).filter fun e => e.1 ≠ m
    | none => entries c
  capacity_add : ∀ c m yes, capacity (add c m yes) = capacity c
  entries_add : ∀ c m yes, entries (add c m yes) =
    ((m, yes) :: (entries c).filter fun e => e.1 ≠ m).take (capacity c)

/-- The entries of a cache as a list, the one used last in front. -/
structure Recent where
  capacity : Nat := 1
  entries : List (Option MethodId × Bool) := []

namespace Recent

/-- The list with the entry for a method moved to the front. -/
def get (c : Recent) (m : Option MethodId) : Option Bool × Recent :=
  match c.entries.lookup m with
  | some yes =>
    (some yes,
      { c with entries := (m, yes) :: c.entries.filter fun e => e.1 ≠ m })
  | none => (none, c)

/-- The list with an entry in front, as far as there is room. -/
def add (c : Recent) (m : Option MethodId) (yes : Bool) : Recent :=
  let others := c.entries.filter fun e => e.1 ≠ m
  { c with entries := ((m, yes) :: others).take c.capacity }

instance : Cache Recent where
  empty n := { capacity := n }
  get := get
  add := add
  capacity := capacity
  entries := entries
  capacity_empty _ := rfl
  entries_empty _ := rfl
  capacity_get c m := by
    rw [get]
    cases c.entries.lookup m <;> rfl
  get_fst c m := by
    rw [get]
    cases c.entries.lookup m <;> rfl
  entries_get c m := by
    rw [get]
    cases c.entries.lookup m <;> rfl
  capacity_add _ _ _ := rfl
  entries_add _ _ _ := rfl

end Recent

/-! ### Memos -/

/-- The latest decisions of a policy, in a cache. -/
structure Memo (C : Type) where
  cache : C
  /-- How often the policy itself was asked. -/
  consulted : Nat := 0

namespace Memo

variable {C : Type} [Cache C]

/-- An empty memo.  It remembers one decision at least. -/
def ofCapacity (n : Int) : Memo C := { cache := Cache.empty (max n.toNat 1) }

/-- How many decisions are remembered. -/
def capacity (memo : Memo C) : Nat := Cache.capacity memo.cache

/-- Methods and decisions, the most recently asked first. -/
def recent (memo : Memo C) : List (Option MethodId × Bool) :=
  Cache.entries memo.cache

/-- The decision on `m`, remembered or made now by `policy`. -/
def ask (memo : Memo C) (policy : Policy) (p : Program) (m : Option MethodId) :
    Bool × Memo C :=
  match Cache.get memo.cache m with
  | (some yes, cache) => (yes, { memo with cache })
  | (none, cache) =>
    let yes := policy memo.consulted p m
    (yes, { cache := Cache.add cache m yes, consulted := memo.consulted + 1 })

end Memo

end Bytecode
