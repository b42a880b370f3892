import Bytecode.Database.Expr
import Bytecode.Database.Meaning

/-!
# Windows

A window shows a row others beside it: those that agree with it in some values,
in an order, and of these a frame around the row.  A function of a window
computes a value for each row from the rows that it sees.
-/

namespace Bytecode.Database

/-! ### What windows look like

Windows that look alike show rows in one order, so functions of them are
computed together.  Only the expressions that are common in windows have a look
of their own; two others are never alike.
-/

namespace Expr

/-- What an expression of a depth looks like, if that can be said. -/
def shape? : Nat → Expr → Option String
  | 0, _ => none
  | depth + 1, e =>
    let all (es : List Expr) : Option String := do
      return String.intercalate "," (← es.mapM (shape? depth))
    match e with
    | .literal v => some (reprStr v)
    | .number text => some text
    | .name database table column _ =>
      some (String.intercalate "."
        ([database.getD "", table.getD "", column].map Token.lowered))
    | .unary op a => do return reprStr op ++ "(" ++ (← shape? depth a) ++ ")"
    | .binary op a b => do return reprStr op ++ "(" ++ (← all [a, b]) ++ ")"
    | .isNull isNot
        a => do return reprStr isNot ++ "null(" ++ (← shape? depth a) ++ ")"
    | .cast a
        type => do return "cast(" ++ (← shape? depth a) ++ "," ++ type ++ ")"
    | .collate
        a way => do return "collate(" ++ (← shape?
          depth a) ++ "," ++ Token.lowered way ++ ")"
    | .call c =>
      if c.isDistinct || c.filter.isSome || c.window.isSome ||
          !c.order.isEmpty then none
      else do return Token.lowered c.name ++ (if c.isStar then "(*" else
          "(") ++ (← all c.args) ++ ")"
    | _ => none

/-- How deep expressions are looked into. -/
def shapeDepth : Nat := 64

end Expr

namespace FrameBound

/-- What an end of a frame looks like. -/
def shape? : FrameBound → Option String
  | .unboundedPreceding => some "first"
  | .preceding n => do return "-" ++ (← n.shape? Expr.shapeDepth)
  | .current => some "here"
  | .following n => do return "+" ++ (← n.shape? Expr.shapeDepth)
  | .unboundedFollowing => some "last"

end FrameBound

namespace Frame

/-- What a frame looks like. -/
def shape? (f : Frame) : Option String := do
  return String.intercalate " " [reprStr f.unit, ← f.start.shape?,
    ← f.stop.shape?, reprStr f.exclude]

/-- The frame of a window of which nothing is said. -/
def usual : Frame := { start := .unboundedPreceding, stop := .current }

/-- The frame that a function has in any case. -/
def ofFunction? (name : String) : Option Frame :=
  match name with
  | "row_number" | "lag" =>
      some { unit := .rows, start := .unboundedPreceding, stop := .current }
  | "rank" | "dense_rank" => some usual
  | "percent_rank" =>
      some { unit := .groups, start := .current, stop := .unboundedFollowing }
  | "cume_dist" =>
      some { unit := .groups, start := .following (.number "1"),
             stop := .unboundedFollowing }
  | "ntile" =>
      some { unit := .rows, start := .current, stop := .unboundedFollowing }
  | "lead" =>
      some { unit := .rows, start := .unboundedPreceding,
             stop := .unboundedFollowing }
  | _ => none

end Frame

namespace Window

/-- What a window looks like to a function. -/
def shape? (w : Window) (function : String) : Option String := do
  let order ← w.order.mapM fun o => do
    return (← o.value.shape? Expr.shapeDepth) ++ reprStr o.isDescending ++
      reprStr o.nullsFirst
  let partition ← w.partition.mapM (·.shape? Expr.shapeDepth)
  let frame ← ((Frame.ofFunction? function).getD (w.frame.getD .usual)).shape?
  return String.intercalate ";" [String.intercalate "," partition,
    String.intercalate "," order, frame]

end Window

/-! ### Rows in groups

Rows are ordered by values with a collation and a direction for each, and put
into groups of those that agree.  An order never changes the places of rows that
are equal in it.
-/

/-- How one of the values of rows counts in an order. -/
structure SortKey where
  collation : Collation := .binary
  isDescending : Bool := false
  /-- Whether null comes before everything else; it does if nothing is said and
  the order ascends. -/
  nullsFirst : Bool := true
  deriving Inhabited

namespace SortKey

/-- Compares two values. -/
def order (e : Encoding) (k : SortKey) (a b : Value) : Ordering :=
  match a, b with
  | .null, .null => .eq
  | .null, _ => if k.nullsFirst then .lt else .gt
  | _, .null => if k.nullsFirst then .gt else .lt
  | a, b => if k.isDescending then b.order e k.collation a else
      a.order e k.collation b

/-- Compares rows of values. -/
def orderAll (e : Encoding) : List SortKey → List Value → List Value → Ordering
  | k :: ks, a :: as, b :: bs => (k.order e a b).then (orderAll e ks as bs)
  | _, _, _ => .eq

/-- Things with their values in order. -/
def sort {α : Type} (e : Encoding) (keys : List SortKey)
    (items : Array (List Value × α)) : Array (List Value × α) :=
  (items.toList.mergeSort fun a b => orderAll e keys a.1 b.1 ≠ .gt).toArray

/-- The key of an expression in an order. -/
def ofItem (m : Meaning) (o : OrderItem) : SortKey :=
  { collation := m.collation.getD .binary, isDescending := o.isDescending
    nullsFirst := o.nullsFirst.getD (!o.isDescending) }

/-- The key of an expression that only tells values apart. -/
def ofMeaning (m : Meaning) : SortKey :=
  { collation := m.collation.getD .binary }

end SortKey

/-- Things in groups of neighbours that agree. -/
def grouped {α : Type} (agree : α → α → Bool) (items : Array α) :
    Array (Array α) :=
  items.foldl (fun groups x =>
    match groups.back? with
    | some g =>
      if g[0]?.any (agree x) then groups.modify (groups.size - 1) (·.push x)
      else groups.push #[x]
    | none => #[#[x]]) #[]

/-- Things without those that agree with one in front. -/
def distinct {α : Type} (agree : α → α → Bool) (items : Array α) : Array α :=
  items.foldl (fun kept x => if kept.any (agree x) then kept else
      kept.push x) #[]

/-- Fails if it is not known how texts are to be compared. -/
def checkCollation (c : Collation) : Build Unit :=
  match c with
  | .unknown name => throw (.noCollation name)
  | _ => return

/-! ### Rows in windows -/

/-- A row in its window. -/
structure Seat where
  env : Env
  /-- The place of the row among all rows. -/
  index : Nat
  /-- The values that the window is ordered by. -/
  key : List Value

/-- A window with the meanings in it. -/
structure WindowPlan where
  partition : List Meaning := []
  order : List (Meaning × OrderItem) := []
  unit : FrameUnit := .range
  start : FrameBound := .unboundedPreceding
  stop : FrameBound := .current
  startAmount : Option Meaning := none
  stopAmount : Option Meaning := none
  exclude : Exclusion := .nothing

namespace WindowPlan

/-- The keys that a window is ordered by. -/
def keys (w : WindowPlan) : List SortKey :=
  w.order.map fun (m, o) => SortKey.ofItem m o

/-- The rows of all windows, each in its order. -/
def partitions (w : WindowPlan) (envs : Array Env) :
    Except Stop (Array (Array Seat)) := do
  let e := (envs[0]?.map (·.encoding)).getD .utf8
  let seats ← envs.zipIdx.mapM fun (env, index) => do
    let part ← w.partition.mapM (·.eval env)
    let key ← w.order.mapM fun (m, _) => m.eval env
    return (part ++ key, (part, ({ env, index, key } : Seat)))
  let parts := w.partition.map SortKey.ofMeaning
  let sorted := SortKey.sort e (parts ++ w.keys) seats
  let groups :=
    grouped (fun a b => SortKey.orderAll e parts a.2.1 b.2.1 = .eq) sorted
  return groups.map fun g => g.map (·.2.2)

/-- Whether two rows stand in the same place of the order. -/
def arePeers (w : WindowPlan) (e : Encoding) (a b : Seat) : Bool :=
  SortKey.orderAll e w.keys a.key b.key = .eq

/-- The number of the group of peers of each row. -/
def peerGroups (w : WindowPlan) (e : Encoding) (seats : Array Seat) :
    Array Nat :=
  (seats.foldl (fun (out, last, n) s =>
    match last with
    | some l => if w.arePeers e l s then (out.push n, some s, n) else
        (out.push (n + 1), some s, n + 1)
    | none =>
        (out.push n, some s, n)) ((#[] : Array Nat), (none : Option Seat), 0)).1

/-- The amount of a bound, which must not be negative, and a whole number unless
it is a distance. -/
def amount (unit : FrameUnit) (m : Option Meaning) (isStart : Bool)
    (env : Env) : Except Stop Value := do
  match m with
  | none => return .integer 0
  | some m =>
    let v ← if m.uses.isEmpty && !m.hasQuery then m.eval env else pure .null
    let n := Affinity.numeric.apply v
    let isFine : Bool := match unit, n with
      | _, .integer k => 0 ≤ k
      | .range, .real _ => 0 ≤ n.toFloat
      | _, _ => false
    if !isFine then
      throw (.said ("frame " ++ (if isStart then "starting" else "ending") ++
        " offset must be a non-negative " ++ if unit = .range then "number" else
            "integer"))
    return n

/-- The places of the rows in the frame of a row, and of all rows up to its
end. -/
def frame (w : WindowPlan) (seats : Array Seat) (groups : Array Nat)
    (place : Nat) : Except Stop (List Nat × List Nat) := do
  match seats[place]? with
  | none => return ([], [])
  | some here =>
    let e := here.env.encoding
    let low ← amount w.unit w.startAmount true here.env
    let high ← amount w.unit w.stopAmount false here.env
    let lowCount := low.toWhole e
    let highCount := high.toWhole e
    let group (k : Nat) : Int := (groups.getD k 0 : Nat)
    let own := group place
    let sortKey := w.keys.headD {}
    let isDescending := sortKey.isDescending
    -- the distance of a row in the order, in the direction of the order; only
    -- numbers have one
    let reaches (k : Nat) (isStart : Bool) (b : FrameBound) : Bool :=
      let key := ((seats[k]?).map (·.key.headD .null)).getD .null
      let mine := here.key.headD .null
      if !key.isNumber || !mine.isNumber then
        sortKey.order e key mine ≠ (if isStart then .lt else .gt)
      else
        let difference := if isDescending then mine.toFloat - key.toFloat else
            key.toFloat - mine.toFloat
        match b with
        | .preceding _ => if isStart then -low.toFloat ≤ difference else
            difference ≤ -high.toFloat
        | .following _ => if isStart then low.toFloat ≤ difference else
            difference ≤ high.toFloat
        | _ => true
    let isAfterStart (k : Nat) : Bool :=
      match w.start, w.unit with
      | .unboundedPreceding, _ => true
      | .unboundedFollowing, _ => false
      | .current, .rows => place ≤ k
      | .current, _ => own ≤ group k
      | .preceding _, .rows => (place : Int) - lowCount ≤ k
      | .following _, .rows => (place : Int) + lowCount ≤ k
      | .preceding _, .groups => own - lowCount ≤ group k
      | .following _, .groups => own + lowCount ≤ group k
      | b, .range => reaches k true b
    let isBeforeStop (k : Nat) : Bool :=
      match w.stop, w.unit with
      | .unboundedFollowing, _ => true
      | .unboundedPreceding, _ => false
      | .current, .rows => k ≤ place
      | .current, _ => group k ≤ own
      | .preceding _, .rows => (k : Int) ≤ (place : Int) - highCount
      | .following _, .rows => (k : Int) ≤ (place : Int) + highCount
      | .preceding _, .groups => group k ≤ own - highCount
      | .following _, .groups => group k ≤ own + highCount
      | b, .range => reaches k false b
    let isKept (k : Nat) : Bool :=
      match w.exclude with
      | .nothing => true
      | .current => k ≠ place
      | .group => group k ≠ own
      | .ties => k = place || group k ≠ own
    let reached := (List.range seats.size).filter isBeforeStop
    return (reached.filter fun k => isAfterStart k && isKept k, reached)

end WindowPlan

/-- The functions that only windows have, with how many values they take. -/
def windowFunctions : List (String × Nat × Nat) :=
  [("row_number", 0, 0), ("rank", 0, 0), ("dense_rank", 0, 0),
    ("percent_rank", 0, 0), ("cume_dist", 0, 0), ("ntile", 1, 1), ("lag", 1, 3),
    ("lead", 1, 3), ("first_value", 1, 1), ("last_value", 1, 1),
    ("nth_value", 2, 2)]

namespace WindowPlan

/-- The value of a function that only windows have, for a row of a partition. -/
def rankValue (w : WindowPlan) (name : String) (args : List Meaning)
    (seats : Array Seat) (groups : Array Nat) (place : Nat) :
    Except Stop Value := do
  let size := seats.size
  let own := groups.getD place 0
  let env := ((seats[place]?).map (·.env)).getD { world := {}, start := {} }
  let e := env.encoding
  let firstPeer := (List.range size).findIdx fun k => groups.getD k 0 = own
  let lastPeer := size - 1 -
    ((List.range size).reverse.findIdx fun k => groups.getD k 0 = own)
  let at? (k : Int) : Option Env :=
    if k < 0 then none else (seats[k.toNat]?).map (·.env)
  let first := args.headD (.constant .null)
  match name with
  | "row_number" => return .integer (place + 1 : Nat)
  | "rank" => return .integer (firstPeer + 1 : Nat)
  | "dense_rank" => return .integer (own + 1 : Nat)
  | "percent_rank" =>
    return .ofFloat (if size ≤ 1 then 0.0 else
        Float.ofNat firstPeer / Float.ofNat (size - 1))
  | "cume_dist" =>
      return .ofFloat (Float.ofNat (lastPeer + 1) / Float.ofNat size)
  | "ntile" =>
    let n := (← first.eval env).toWhole e
    if n ≤ 0 then throw (.said "argument of ntile must be a positive integer")
    let count := n.toNat
    let small := size / count
    let larger := size - small * count
    let bucket := if place < larger * (small + 1) then place / (small + 1)
      else larger + (place - larger * (small + 1)) / (max 1 small)
    return .integer (bucket + 1 : Nat)
  | "lag" | "lead" =>
    let distance ← match args[1]? with
      | some m => pure ((← m.eval env).toWhole e)
      | none => pure 1
    let target : Int := if name = "lag" then (place : Int) - distance else
        (place : Int) + distance
    match at? target with
    | some there => first.eval there
    | none =>
      match args[2]? with
      | some m => m.eval env
      | none => return .null
  | "nth_value" =>
    let second : Meaning := (args[1]?).getD (.constant .null)
    let k : Int := match Affinity.numeric.apply (← second.eval env) with
      | .integer n => n
      | _ => 0
    if k ≤ 0 then
      throw (.said "second argument to nth_value must be a positive integer")
    let (rows, _) ← w.frame seats groups place
    match (rows[k.toNat - 1]?).bind fun (i : Nat) => at? i with
    | some there => first.eval there
    | none => return .null
  | "first_value" =>
    match ((← w.frame seats groups place).1.head?).bind fun i => at? i with
    | some there => first.eval there
    | none => return .null
  | _ =>
    match ((← w.frame seats groups place).1.getLast?).bind fun i => at? i with
    | some there => first.eval there
    | none => return .null

/-- A function of a window that looks so: its value for each row, from a value
for a place of a partition. -/
def spread (w : WindowPlan) (shape : String)
    (value : Array Seat → Array Nat → Nat → Except Stop Value) : Spread where
  shape
  places envs := do
    return ((← w.partitions envs).map fun seats => seats.map (·.index)).flatten
  apply envs := do
    let e := (envs[0]?.map (·.encoding)).getD .utf8
    let parts ← w.partitions envs
    let found ← parts.mapM fun seats => do
      let groups := w.peerGroups e seats
      seats.zipIdx.mapM fun (s, place) =>
        return (s.index, ← value seats groups place)
    let blank := Array.replicate envs.size Value.null
    return found.foldl (fun out part => part.foldl
      (fun out (i, v) => out.setIfInBounds i v) out) blank

end WindowPlan

end Bytecode.Database
