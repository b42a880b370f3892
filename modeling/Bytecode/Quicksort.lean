/-!
# Sorting around pivots

A sequence is put into order in its own place: a pivot is chosen, what comes
before it goes to its left, and both sides are sorted in turn.  Short parts are
sorted by insertion, and after too many bad pivots a heap is used.  Everything
is determined by the comparisons, also the order of things of which none comes
before the other; a comparison need not make sense for that.
-/

namespace Bytecode.Quicksort

variable {α : Type} [Inhabited α]

/-- Things in their places, and a comparison that says which comes first. -/
structure Bench (α : Type) where
  items : Array α
  less : α → α → Bool

namespace Bench

/-- Whether the thing at a place comes before that at another. -/
def before (d : Bench α) (i j : Nat) : Bool :=
  d.less (d.items.getD i default) (d.items.getD j default)

/-- Exchanges two things. -/
def swap (d : Bench α) (i j : Nat) : Bench α :=
  { d with items := d.items.swapIfInBounds i j }

/-- Moves a thing to the left as long as it comes before its neighbour, but not
further than a place. -/
def shiftLeft (d : Bench α) (first : Nat) : Nat → Bench α
  | 0 => d
  | j + 1 =>
    if first < j + 1 && d.before
               (j + 1) j then (d.swap (j + 1) j).shiftLeft first j else d

/-- Moves a thing to the right as long as its neighbour comes before it; so many
steps are left. -/
def shiftRight (d : Bench α) : Nat → Nat → Bench α
  | 0, _ => d
  | steps + 1, j =>
      if d.before j (j - 1) then (d.swap j (j - 1)).shiftRight steps (j + 1)
      else d

/-- Sorts a part by insertion. -/
def insertion (d : Bench α) (a b : Nat) : Bench α :=
  (List.range (b - a)).foldl (fun d k => d.shiftLeft a (a + k)) d

/-- Lets the thing at a place of a heap sink, where the heap has so many
places. -/
def sink (d : Bench α) (first size : Nat) : Nat → Nat → Bench α
  | 0, _ => d
  | fuel + 1, root =>
    let child := 2 * root + 1
    if size ≤ child then d
    else
      let child := if child + 1 < size && d.before (first + child)
            (first + child + 1) then child + 1 else child
      if d.before (first + root) (first + child) then
        (d.swap (first + root) (first + child)).sink first size fuel child
      else d

/-- Sorts a part by a heap. -/
def heap (d : Bench α) (a b : Nat) : Bench α :=
  let size := b - a
  let built := (List.range ((size - 1) / 2 + 1)).reverse.foldl
    (fun d i => d.sink a size size i) d
  (List.range size).reverse.foldl
    (fun d i => (d.swap a (a + i)).sink a i size 0) built

/-- The first place from one on, up to another, that does not satisfy a
condition. -/
def upward (p : Nat → Bool) : Nat → Nat → Nat
  | 0, i => i
  | steps + 1, i => if p i then upward p steps (i + 1) else i

/-- How many places in front of one satisfy a condition in a row, counted in so
many steps. -/
def downward (p : Nat → Bool) : Nat → Nat → Nat
  | 0, stop => stop
  | steps + 1, stop =>
      if p (stop - 1) then downward p steps (stop - 1) else stop

/-- Exchanges things between two places until those that satisfy a condition
stand on the left; `left` and `right` say so of places.  The result is the first
place on the right, and whether nothing had to be exchanged. -/
def divide (left right : Bench α → Nat → Bool) :
    Nat → Bool → Bench α → Nat → Nat → Bench α × Nat × Bool
  | 0, isDone, d, i, _ => (d, i, isDone)
  | fuel + 1, isDone, d, i, stop =>
    let i := upward (left d) (stop - i) i
    let stop := downward (right d) (stop - i) stop
    if stop ≤ i then (d, i, isDone)
    else divide left right fuel false (d.swap i (stop - 1)) (i + 1) (stop - 1)

/-- Puts what comes before the pivot to its left.  The result has the place of
the pivot, and tells whether all stood where it should. -/
def partitioned (d : Bench α) (a b pivot : Nat) : Bench α × Nat × Bool :=
  let d := d.swap a pivot
  let (d, i, isDone) := divide (fun d i => d.before i a)
    (fun d j => !d.before j a) (b - a) true d (a + 1) b
  (d.swap (i - 1) a, i - 1, isDone)

/-- Puts what is like the pivot to the left of what comes behind it. -/
def separated (d : Bench α) (a b pivot : Nat) : Bench α × Nat :=
  let d := d.swap a pivot
  let (d, i, _) := divide (fun d i => !d.before a i) (fun d j => d.before a j)
    (b - a) true d (a + 1) b
  (d, i)

/-- Sorts a part that is nearly in order, with so many corrections at most; the
result tells whether it is in order. -/
def repaired (d : Bench α) (a b : Nat) : Nat → Nat → Bench α × Bool
  | 0, _ => (d, false)
  | tries + 1, i =>
    let i := upward (fun i => !d.before i (i - 1)) (b - i) i
    if i = b then (d, true)
    else if b - a < 50 then (d, false)
    else
      let d := d.swap i (i - 1)
      let d := if 2 ≤ i - a then d.shiftLeft 0 (i - 1) else d
      let d := if 2 ≤ b - i then d.shiftRight (b - (i + 1)) (i + 1) else d
      repaired d a b tries i

/-- The next number of a sequence that looks like chance. -/
def scramble (r : UInt64) : UInt64 :=
  let r := r ^^^ (r <<< 13)
  let r := r ^^^ (r >>> 7)
  r ^^^ (r <<< 17)

/-- Exchanges three things in the middle with others, so that a pattern that
leads to bad pivots is broken. -/
def scattered (d : Bench α) (a b : Nat) : Bench α :=
  let length := b - a
  if length < 8 then d
  else
    let modulus := Nat.pow 2 (Nat.log2 length + 1)
    let middle := a + length / 4 * 2 - 1
    let go (state : Bench α × UInt64) (i : Nat) : Bench α × UInt64 :=
      let r := scramble state.2
      let other := r.toNat % modulus
      let other := if length ≤ other then other - length else other
      (state.1.swap (middle - 1 + i) (a + other), r)
    ((List.range 3).foldl go (d, UInt64.ofNat length)).1

/-- Two places in order, and how often they have been exchanged. -/
def ordered (d : Bench α) (a b swaps : Nat) : Nat × Nat × Nat :=
  if d.before b a then (b, a, swaps + 1) else (a, b, swaps)

/-- The place of the middle one of three things. -/
def median (d : Bench α) (a b c swaps : Nat) : Nat × Nat :=
  let (a, b, swaps) := d.ordered a b swaps
  let (b, _, swaps) := d.ordered b c swaps
  let (_, b, swaps) := d.ordered a b swaps
  (b, swaps)

/-- Chooses a pivot, and tells how often things had to be exchanged for that. -/
def pivot (d : Bench α) (a b : Nat) : Nat × Nat :=
  let length := b - a
  let i := a + length / 4
  let j := a + length / 4 * 2
  let k := a + length / 4 * 3
  if length < 8 then (j, 0)
  else if length < 50 then d.median i j k 0
  else
    let (i, swaps) := d.median (i - 1) i (i + 1) 0
    let (j, swaps) := d.median (j - 1) j (j + 1) swaps
    let (k, swaps) := d.median (k - 1) k (k + 1) swaps
    d.median i j k swaps

/-- Turns a part around. -/
def reversed (d : Bench α) (a b : Nat) : Bench α :=
  (List.range ((b - a) / 2)).foldl (fun d k => d.swap (a + k) (b - 1 - k)) d

/-- Sorts a part.  So many bad pivots are allowed; the last two arguments tell
whether the pivot before was a good one, and whether it left everything in its
place. -/
def sort : Nat → Bench α → Nat → Nat → Nat → Bool → Bool → Bench α
  | 0, d, _, _, _, _, _ => d
  | fuel + 1, d, a, b, limit, isBalanced, isQuiet =>
    let length := b - a
    if length ≤ 12 then d.insertion a b
    else if limit = 0 then d.heap a b
    else
      let limit := if isBalanced then limit else limit - 1
      let d := if isBalanced then d else d.scattered a b
      let (p, swaps) := d.pivot a b
      let isFalling : Bool := swaps = 12
      let d := if isFalling then d.reversed a b else d
      let p := if isFalling then b - 1 - (p - a) else p
      let isRising : Bool := isFalling || swaps = 0
      let (d, isSorted) :=
        if isBalanced && isQuiet && isRising then d.repaired a b 5 (a + 1)
        else (d, false)
      if isSorted then d
      else if 0 < a && !d.before (a - 1) p then
        let (d, middle) := d.separated a b p
        sort fuel d middle b limit isBalanced isQuiet
      else
        let (d, middle, isQuiet) := d.partitioned a b p
        if middle - a < b - middle then
          let d := sort fuel d a middle limit true true
          sort fuel d (middle + 1) b limit (length / 8 ≤ middle - a) isQuiet
        else
          let d := sort fuel d (middle + 1) b limit true true
          sort fuel d a middle limit (length / 8 ≤ b - middle) isQuiet

end Bench

/-- Things in order. -/
def sorted (less : α → α → Bool) (items : List α) : List α :=
  let n := items.length
  let d : Bench α := { items := items.toArray, less }
  (d.sort (n + 1) 0 n (Nat.log2 n + 1) true true).items.toList

end Bytecode.Quicksort
