import Bytecode.Database.Meaning.Window

/-!
# The use of functions

Most functions compute a value from the values of one row.  Aggregates compute
one from many rows, and functions of windows from the rows around a row: their
values are found before the expression that uses them, and noted with the query
they belong to.
-/

namespace Bytecode.Database

namespace Meaning

/-- One value, and not several together. -/
def scalar (m : Meaning) : Build Meaning :=
  if m.parts.isEmpty then return m
  else if m.hasQuery then
    Build.refuse ("sub-select returns " ++ Text.decimal 1 m.parts.length ++
      " columns - expected 1")
  else Build.refuse "row value misused"

/-- What several meanings look at. -/
def usesOf (ms : List Meaning) : List (Nat × Nat) :=
  (ms.flatMap (·.uses)).eraseDups

/-- A meaning that is computed from others. -/
def combining (ms : List Meaning) (eval : Env → Except Stop Value) :
    Meaning where
  eval
  uses := usesOf ms
  isAggregate := ms.any (·.isAggregate)
  function := ((ms.find? (·.isAggregate)).map (·.function)).getD ""
  isWindow := ms.any (·.isWindow)
  hasQuery := ms.any (·.hasQuery)

/-- The values of expressions in order. -/
def evalAll (ms : List Meaning) (env : Env) : Except Stop (List Value) :=
  ms.mapM (·.eval env)

end Meaning

namespace Call

/-- A failure of a function as a reason to stop. -/
def stopping (r : Except Failure Value) : Except Stop Value :=
  r.mapError .ofFailure

/-- The first value that is not null; those behind it are not looked at. -/
def coalesce : List Meaning → Env → Except Stop Value
  | [], _ => .ok .null
  | m :: rest, env => do
    let v ← m.eval env
    if v = .null then coalesce rest env else return v

/-- The value behind the first question that is answered with yes, or else the
last one. -/
def choose : List Meaning → Env → Except Stop Value
  | question :: yes :: rest, env => do
    if ← question.holds env then yes.eval env else choose rest env
  | [otherwise], env => otherwise.eval env
  | [], _ => .ok .null

/-- The functions that do not look at all their values, with how many they
take. -/
def lazy? (name : String) (count : Nat) :
    Option (List Meaning → Env → Except Stop Value) :=
  match name with
  | "coalesce" => if 2 ≤ count then some coalesce else none
  | "ifnull" => if count = 2 then some coalesce else none
  | "iif" | "if" => if 2 ≤ count then some choose else none
  | _ => none

/-- The names of functions that do not look at all their values. -/
def lazyNames : List String := ["coalesce", "ifnull", "iif", "if"]

/-- A function was given too few values or too many. -/
def wrongCount {α : Type} (name : String) : Build α :=
  Build.refuse ("wrong number of arguments to function " ++ name ++ "()")

/-- Fails if something is said where it may not be. -/
def prohibit (cx : Context) (what : String) (grounds : List Ground) :
    Build Unit :=
  if grounds.contains cx.scope.ground then
    Build.refuse (what ++ " prohibited in " ++ cx.scope.ground.name)
  else return

/-- The names of functions of what a search has found. -/
def findingNames : List String := ["bm25", "highlight", "snippet"]

/-- The value of a function of what a search has found in a row, from its other
values. -/
def ofFinding (s : SearchForm) (name : String) (e : Encoding) (row : Row)
    (values : List Value) : Except Stop Value := do
  let f := row.found.getD {}
  let text (n : Nat) : String := (values.getD n .null).shown e
  let wrong {α : Type} : Except Stop α :=
    .error (.said ("wrong number of arguments to function " ++ name ++ "()"))
  match name with
  | "bm25" => return .real (f.rank (values.map (·.double? e))).toBits
  | "highlight" =>
    if values.length ≠ 3 then wrong
    let n := (values.getD 0 .null).toWhole e
    if n < 0 || (s.columns.length : Int) ≤ n then return .text ""
    let v ← row.value n.toNat
    let hits := f.hits.filter fun h => (h.column : Int) = n
    return .text (s.marked v hits (text 1) (text 2))
  | _ =>
    if values.length ≠ 5 then wrong
    let n := (values.getD 0 .null).toWhole e
    let all ← row.all
    let count := ((values.getD 4 .null).toWhole e).toNat
    return .text (s.excerpt all.toList (if n < 0 then none else
        some n.toNat) f.hits (text 1) (text 2) (text 3) count)

/-- The meaning of a function of what a search has found.  Its first value must
be the column that stands for all columns of a table of texts. -/
def finding (cx : Context) (name : String) (args : List Meaning) : Meaning :=
  let searched : Option (Spot × SearchForm) := do
    let spot ← (← args.head?).spot
    let s ← ((← cx.scopes[spot.depth]?).sources[spot.source]?).bind (·.search)
    if spot.column = some s.columns.length then some (spot, s) else none
  Meaning.combining args fun env => do
    match searched with
    | none => throw (.said
        ("unable to use function " ++ name ++ " in the requested context"))
    | some (spot, s) =>
      ofFinding s name env.encoding (env.row spot.depth spot.source)
        (← Meaning.evalAll args.tail env)

/-- The meaning of a function of the values of a row. -/
def plain (cx : Context) (c : Call) (args : List Meaning) : Build Meaning := do
  let name := Token.lowered c.name
  if c.filter.isSome then
    Build.refuse ("FILTER may not be used with non-aggregate " ++
      c.name ++ "()")
  if !c.order.isEmpty then
    Build.refuse ("ORDER BY may not be used with non-aggregate " ++
      c.name ++ "()")
  match lazy? name args.length, Function.ofName? name with
  | some f, _ => return { Meaning.combining args (f args) with
      affinity := none, nature := .common (args.map (·.nature)) }
  | none, some f =>
    if !f.accepts args.length then wrongCount c.name
    if !f.isFixed then
      prohibit cx "non-deterministic functions" [.index, .partialIndex,
        .computed]
    if name = "likelihood" then checkLikelihood (c.args.getD 1 (.literal .null))
    let collation := (args.findSome? (·.collation)).getD .binary
    if ["min", "max", "nullif"].contains name then checkCollation collation
    let natures := args.map (·.nature)
    return { Meaning.combining args (fun env => do
        let values ← Meaning.evalAll args env
        stopping (f.apply { env.world.setting collation with
          place := cx.scope.ground.place?, natures } values)) with
      nature := f.nature natures }
  | none, none =>
    if findingNames.contains name then return finding cx name args
    if name = "match" then
      Build.refuse "unable to use function MATCH in the requested context"
    if lazyNames.contains name || (Aggregate.ofName? name).isSome then
      wrongCount c.name
    Build.refuse ("no such function: " ++ c.name)
where
  /-- The likelihood of an answer is written as a number between zero and
  one. -/
  checkLikelihood (e : Expr) : Build Unit :=
    let isFine : Bool := match e with
      | .number text =>
        match Value.literal? text.toList with
        | some (.real bits) =>
            0.0 ≤ Float.ofBits bits && Float.ofBits bits ≤ 1.0
        | _ => false
      | _ => false
    if isFine then return
    else
      Build.refuse
        "second argument to likelihood() must be a constant between 0.0 and 1.0"

/-- The rows that an aggregate looks at, with the values of its arguments. -/
def argumentRows (c : Call) (args : List Meaning) (filter : Option Meaning)
    (order : List (Meaning × OrderItem)) (envs : Array Env) :
    Except Stop (Array (List Value)) := do
  let e := (envs[0]?.map (·.encoding)).getD .utf8
  let kept ← match filter with
    | some f => envs.filterM f.holds
    | none => pure envs
  let rows ← kept.mapM fun env => do
    return (← Meaning.evalAll (order.map (·.1)) env, ← Meaning.evalAll args env)
  let rows := if c.isDistinct then
      let keys := (args.take 1).map SortKey.ofMeaning
      distinct (fun a b => SortKey.orderAll e keys a.2 b.2 = .eq) rows
    else rows
  let rows := if order.isEmpty then rows
    else SortKey.sort e (order.map fun (m, o) => SortKey.ofItem m o) rows
  return rows.map (·.2)

/-- The row that a least or greatest value comes from: the last one that changed
it, where nothing but null changes nothing. -/
def picked (isGreatest : Bool) (setting : Setting) (values : Array Value) :
    Option Nat :=
  (values.toList.zipIdx.foldl (fun (best, row) (v, n) =>
    if v = .null then if best = Value.null then (best, some n) else (best, row)
    else if best = .null then (v, some n)
    else if v.order setting.encoding setting.collation best = (if
          isGreatest then .gt else .lt) then (v, some n)
    else (best, row)) (Value.null, (none : Option Nat))).2

/-- The query that an aggregate belongs to: its own, unless it only speaks of
others outside. -/
def depthOf (uses : List (Nat × Nat)) : Nat :=
  let depths := uses.map (·.1)
  if depths.isEmpty then 0 else depths.foldl min (depths.headD 0)

/-- The meaning of an aggregate. -/
def aggregate (mk : Maker) (cx : Context) (c : Call) (a : Aggregate) :
    Build Meaning := do
  let inner := cx.withScope fun s =>
    { s with
      allowsAggregates := false, isGathering := false, allowsWindows := false }
  let args ← c.args.mapM fun x => do (← mk.expr inner x).scalar
  let filter ← c.filter.mapM (mk.expr inner)
  let order ← c.order.mapM fun o => do return ((← mk.expr inner o.value), o)
  if !cx.scope.allowsAggregates then
    if cx.scope.isGathering then
      Build.refuse ("misuse of aggregate: " ++ c.name ++ "()")
    else Build.refuse ("misuse of aggregate function " ++ c.name ++ "()")
  if c.isDistinct && args.length ≠ 1 then
    Build.refuse "DISTINCT aggregates must have exactly one argument"
  let collation := (args.findSome? (·.collation)).getD .binary
  if a.isExtreme then checkCollation collation
  let natures := args.map (·.nature)
  let depth := depthOf (Meaning.usesOf (args ++ filter.toList))
  let outer (env : Env) : Env :=
    { env with levels := List.replicate depth {} ++ env.levels }
  let scope := (cx.scopes[depth]?).getD {}
  if depth ≠ 0 && !scope.allowsAggregates then
    Build.refuse ("misuse of aggregate: " ++ c.name ++ "()")
  let tally : Tally :=
    { apply := fun envs => do
        let rows ← argumentRows c args filter order (envs.map outer)
        let setting := (((envs[0]?).map Env.world).getD {}).setting collation
        stopping (a.apply { setting with natures } rows.toList)
      pick := if a.isExtreme then some fun envs => do
          let rows ← argumentRows { c with isDistinct := false } args none []
            (envs.map outer)
          let setting := (((envs[0]?).map Env.world).getD {}).setting collation
          return picked (Token.lowered c.name = "max") setting
            (rows.map (·.headD .null))
        else none }
  let notes ← get
  let n := ((notes[depth]?).getD {}).tallies.size
  set (notes.modify depth fun x => { x with tallies := x.tallies.push tally })
  Build.use depth
  return { eval := fun env => ((env.levels[depth]?).bind
             fun l => l.aggregates[n]?).getD (.ok .null), uses := [(depth, 0)],
           isAggregate := true, function := c.name, nature := a.nature natures }

/-- A window with what it takes over from the one it is based on. -/
def basedOn (cx : Context) (w : Window) : Build Window :=
  match w.base with
  | none => return w
  | some name =>
    match cx.scope.windows.find? fun (n, _) => isSame n name with
    | none => Build.refuse ("no such window: " ++ name)
    | some (_, base) =>
      if !w.partition.isEmpty then
        Build.refuse ("cannot override PARTITION clause of window: " ++ name)
      else if !base.order.isEmpty && !w.order.isEmpty then
        Build.refuse ("cannot override ORDER BY clause of window: " ++ name)
      else return { partition := base.partition
                    order := if w.order.isEmpty then base.order else w.order
                    frame := w.frame.or base.frame }

/-- The amount in a bound of a frame. -/
def boundAmount (mk : Maker) (cx : Context) :
    FrameBound → Build (Option Meaning)
  | .preceding n | .following n => some <$> mk.expr cx n
  | _ => return none

/-- Whether a frame is bounded by a distance in the order of its window. -/
def isDistance (f : Frame) : Bool :=
  let isAmount (b : FrameBound) : Bool := match b with
    | .preceding _ | .following _ => true
    | _ => false
  f.unit = .range && (isAmount f.start || isAmount f.stop)

/-- The meaning of a window. -/
def windowPlan (mk : Maker) (cx : Context) (w : Window) : Build WindowPlan := do
  let inner := cx.withScope fun s => { s with allowsWindows := false }
  let parts ← w.partition.mapM (mk.expr inner)
  let order ← w.order.mapM fun o => do return ((← mk.expr inner o.value), o)
  match w.frame with
  | none =>
    return { partition := parts, order
             stop := if order.isEmpty then .unboundedFollowing else .current }
  | some f =>
    return { partition := parts, order, unit := f.unit, start := f.start,
             stop := f.stop, startAmount := ← boundAmount mk inner f.start,
             stopAmount := ← boundAmount mk inner f.stop, exclude := f.exclude }

/-- Whether a sum that has gone through rows has met anything but whole
numbers. -/
def hasOthers (rows : Array (List Value)) : Bool :=
  rows.any fun row => match (row.headD .null).addend .utf8 with
    | .null | .integer _ => false
    | _ => true

/-- The meaning of a function of a window. -/
def windowed (mk : Maker) (cx : Context) (c : Call) (w : Window) :
    Build Meaning := do
  let name := Token.lowered c.name
  let inner := cx.withScope fun s => { s with allowsWindows := false }
  let args ← c.args.mapM fun x => do (← mk.expr inner x).scalar
  let filter ← c.filter.mapM (mk.expr inner)
  let aggregate := (Aggregate.ofName? name).filter fun a =>
    a.least ≤ args.length && args.length ≤ a.most
  let ranking := windowFunctions.find? fun (n, least, most) =>
    n = name && least ≤ args.length && args.length ≤ most
  if aggregate.isNone && ranking.isNone then
    if (windowFunctions.lookup name).isSome ||
        (Aggregate.ofName? name).isSome then wrongCount c.name
    if (Function.ofName? name).isSome || lazyNames.contains name then
      Build.refuse (c.name ++ "() may not be used as a window function")
    Build.refuse ("no such function: " ++ c.name)
  if !cx.scope.allowsWindows then
    Build.refuse ("misuse of window function " ++ c.name ++ "()")
  if c.isDistinct then
    Build.refuse "DISTINCT is not supported for window functions"
  let w ← basedOn cx w
  if w.frame.any isDistance && w.order.length ≠ 1 then
    Build.refuse
      "RANGE with offset PRECEDING/FOLLOWING requires one ORDER BY expression"
  if filter.isSome && aggregate.isNone then
    Build.refuse
      "FILTER clause may only be used with aggregate window functions"
  let plan ← windowPlan mk cx w
  let collation := (args.findSome? (·.collation)).getD .binary
  let value (seats : Array Seat) (groups : Array Nat) (place : Nat) :
    Except Stop Value :=
    match aggregate with
    | some a => do
      let (frame, reached) ← plan.frame seats groups place
      let rowsAt (places : List Nat) : Except Stop (Array (List Value)) :=
        argumentRows c args filter []
          (places.filterMap fun k => (seats[k]?).map (·.env)).toArray
      let rows ← rowsAt frame
      let setting := (((seats[place]?).map fun (s : Seat) => s.env.world).getD
        {}).setting collation
      let v ← stopping
        (a.apply { setting with natures := args.map (·.nature) } rows.toList)
      match v with
      | .integer n =>
        if name = "sum" && plan.exclude = .nothing &&
            hasOthers (← rowsAt reached) then
          return .real (Value.wholeDouble n)
        return v
      | v => return v
    | none => plan.rankValue name args seats groups place
  let notes ← get
  let n := (notes.headD {}).spreads.size
  let shape := (w.shape? name).getD ("?" ++ Text.decimal 1 n)
  set (notes.modify 0
    fun x => { x with spreads := x.spreads.push (plan.spread shape value) })
  return { eval := fun env => ((env.levels[0]?).bind
             fun l => l.windows[n]?).getD (.ok .null), uses := [(0, 0)],
           isWindow := true, isAggregate := args.any (·.isAggregate) }

/-- The meaning of the use of a function. -/
def meaning (mk : Maker) (cx : Context) (c : Call) : Build Meaning := do
  match c.window with
  | some w => windowed mk cx c w
  | none =>
    let name := Token.lowered c.name
    let count := c.args.length
    match (Aggregate.ofName? name).filter fun a => a.least ≤ count &&
      count ≤ a.most with
    | some a => aggregate mk cx c a
    | none =>
      let args ← c.args.mapM fun x => do (← mk.expr cx x).scalar
      match windowFunctions.lookup name with
      | some (least, most) =>
        if count < least || most < count then wrongCount c.name
        else Build.refuse ("misuse of window function " ++ c.name ++ "()")
      | none => plain cx c args

end Call

end Bytecode.Database
