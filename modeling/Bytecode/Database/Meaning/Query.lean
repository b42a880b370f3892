import Bytecode.Database.Meaning.From

/-!
# The meanings of queries

A query is put together from others, the first two first: their rows stand one
behind the other, or are brought together as sets.  Sets come in order of their
values.  All rows are then put into the order that is asked for, and some of
them are shown.
-/

namespace Bytecode.Database

/-! ### What is shown of rows

A query brings the rows of its sources together, keeps those that satisfy its
condition, perhaps puts them into groups, and shows values of what is left.  A
group is seen as one of its rows: the one that a least or greatest value comes
from, or else its first row.
-/

/-- Something that is shown. -/
structure Shown where
  meaning : Meaning
  name : String
  /-- Whether names can stand for it. -/
  isNamed : Bool := true
  deriving Inhabited

namespace Shown

/-- The column that it becomes. -/
def column (s : Shown) : ResultColumn :=
  { name := s.name, affinity := s.meaning.affinity, collation :=
      s.meaning.collation, type := s.meaning.type, nature := s.meaning.nature }

end Shown

/-- The meaning of a query that is not put together from others: rows with the
values they are ordered by. -/
structure CorePlan where
  columns : List ResultColumn
  keys : List SortKey := []
  run : Env → Flow (List Value × Array Value)
  /-- The column that a name outside stands for. -/
  place : Expr → Option Nat := fun _ => none
  /-- Whether it looks at rows together, or through windows. -/
  isGathering : Bool := false
  isWindowed : Bool := false
  deriving Inhabited

namespace Select

/-- All columns of the sources that are meant. -/
def starColumns (s : Scope) (isMeant : ScopeSource → Bool) (isAll : Bool) :
    List Shown :=
  s.sources.toList.zipIdx.flatMap fun (source, i) =>
    if !isMeant source || source.isMarked then []
    else source.columns.toList.zipIdx.filterMap fun (c, j) =>
      if c.isHidden ||
          (isAll && source.shared.contains (Token.lowered c.name)) then none
      else
        let isShared := isAll && s.sources.toList.zipIdx.any fun (x, k) =>
          i < k && x.shared.contains (Token.lowered c.name)
        let m := if isShared then (Lookup.merged? s 0 c.name
          (s.matching none none c.name)).getD (Lookup.column s 0 i j)
          else Lookup.column s 0 i j
        some { meaning := m, name := c.name }

/-- The name of something that is shown without one. -/
def ownName (s : Scope) (m : Meaning) (e : Expr) (text : String) : String :=
  let rec bare : Expr → Expr
    | .collate a _ => bare a
    | a => a
  match bare e, m.spot with
  | .name _ _ column _, some spot =>
    if spot.depth = 0 then
      match spot.column with
      | some n =>
          ((s.sources.getD spot.source default).columns.getD n default).name
      | none => "rowid"
    else column
  | .name _ _ column _, none => if m.truth.isSome then text else column
  | _, _ => text

/-- What is shown. -/
def shownItems (mk : Maker) (cx : Context) (all : List Item) :
    Build (List Shown) := do
  let scope := cx.scope
  let shown ← all.mapM fun item => do
    match item with
    | .all =>
      if scope.sources.isEmpty then throw (.refused .noTables)
      return starColumns scope (fun _ => true) true
    | .allOf table =>
      if !scope.sources.any fun s => s.label.any (isSame table) then
        throw (.refused (.noSuchTable table))
      return starColumns scope (fun s => s.label.any (isSame table)) false
    | .value e name text =>
      let m ← (← mk.expr cx e).scalar
      return [{ meaning := m, name := name.getD (ownName scope m e text),
                isNamed := name.isSome }]
  return shown.flatten

/-- A number with the ending that makes it a place in an order. -/
def ordinal (n : Nat) : String :=
  let ending := if n % 100 / 10 = 1 then "th"
    else match n % 10 with
      | 1 => "st"
      | 2 => "nd"
      | 3 => "rd"
      | _ => "th"
  Text.decimal 1 n ++ ending

/-- The whole number that an expression is, if it is one. -/
def wholeNumber? : Expr → Option Int
  | .number text =>
    match text.toList with
    | '0' :: x :: digits =>
      if x = 'x' || x = 'X' then
        small (digits.foldl (fun n c => 16 * n + (Text.hexDigit? c).getD 0) 0)
      else plain text
    | _ => plain text
  | .unary .negate a => (wholeNumber? a).map (- ·)
  | .unary .affirm a => wholeNumber? a
  | _ => none
where
  /-- The number that digits spell. -/
  plain (text : String) : Option Int :=
    match Value.literal? text.toList with
    | some (.integer n) => small n
    | _ => none
  /-- A number, unless it is too large to be a place. -/
  small (n : Int) : Option Int := if n < 0x80000000 then some n else none

/-- An expression without the collation that is asked for. -/
def withoutCollation : Expr → Expr × Option String
  | .collate a name => ((withoutCollation a).1, some name)
  | e => (e, none)

/-- A meaning with a collation that is asked for. -/
def collated (m : Meaning) (name : Option String) : Meaning :=
  match name with
  | some n =>
      { m with collation := some (Collation.named n), isCollated := true }
  | none => m

/-- What a number in an order stands for. -/
def byPlace (kind : String) (index : Nat) (shown : List Shown) (n : Int) :
    Build Meaning :=
  match if 1 ≤ n then shown[n.toNat - 1]? else none with
  | some s => return s.meaning
  | none =>
    Build.refuse (ordinal (index + 1) ++
      " " ++ kind ++ " BY term out of range - should be between 1 and " ++
      Text.decimal 1 shown.length)

/-- What rows are ordered by. -/
def orderBy (mk : Maker) (cx : Context) (shown : List Shown)
    (order : List OrderItem) : Build (List (Meaning × SortKey)) :=
  order.zipIdx.mapM fun (o, index) => do
    let (e, collation) := withoutCollation o.value
    let byName : Option Shown := match e with
      | .name none none column _ =>
          shown.find? fun s => s.isNamed && isSame s.name column
      | _ => none
    let m ← match byName, wholeNumber? e with
      | some s, _ => pure s.meaning
      | none, some n => byPlace "ORDER" index shown n
      | none, none => mk.expr cx e
    let m ← (collated m collation).scalar
    checkCollation (m.collation.getD .binary)
    return (m, SortKey.ofItem m o)

/-- The place among what is shown that a name outside stands for: the name that
is given to something counts first, then the column that it is. -/
def placeOf (scope : Scope) (shown : List Shown) : Expr → Option Nat
  | .name database table column _ =>
    let byName :=
      if table.isNone then
        shown.findIdx? fun s => s.isNamed && isSame s.name column
      else none
    byName.or <| match Lookup.inScope { scope with
      results := [] } 0 database table column with
      | .found m =>
          if m.spot.isSome then shown.findIdx? fun s => s.meaning.spot = m.spot
          else none
      | _ => none
  | _ => none

/-- What rows are put into groups by. -/
def groupBy (mk : Maker) (cx : Context) (shown : List Shown)
    (group : List Expr) : Build (List Meaning) :=
  group.zipIdx.mapM fun (e, index) => do
    let (e, collation) := withoutCollation e
    let m ← match wholeNumber? e with
      | some n => byPlace "GROUP" index shown n
      | none => mk.expr cx e
    if m.isAggregate then
      Build.refuse "aggregate functions are not allowed in the GROUP BY clause"
    let m ← (collated m collation).scalar
    checkCollation (m.collation.getD .binary)
    return m

/-- The environment of a group of rows, seen as one of them. -/
def groupEnv (outer : Env) (blank : Array Row) (tallies : Array Tally)
    (envs : Array Env) : Except Stop Env := do
  let picks := tallies.filterMap (·.pick)
  let place ← match picks.back? with
    | some pick => pick envs
    | none => pure (if envs.isEmpty then none else some 0)
  let rows := ((place.bind fun (n : Nat) => envs[n]?).bind
    fun (env : Env) => env.levels.head?.map (·.rows)).getD blank
  return outer.push { rows, aggregates := tallies.map fun t => t.apply envs }

/-- The rows of groups. -/
def gather (outer : Env) (blank : Array Row) (tallies : Array Tally)
    (group : List Meaning) (envs : Array Env) : Except Stop (Array Env) := do
  if group.isEmpty then return #[← groupEnv outer blank tallies envs]
  let e := outer.encoding
  let keys := group.map SortKey.ofMeaning
  let rows ← envs.mapM fun env => do return (← Meaning.evalAll group env, env)
  let sorted := SortKey.sort e keys rows
  (grouped (fun a b => SortKey.orderAll e keys a.1 b.1 = .eq) sorted).mapM
    fun g =>
    groupEnv outer blank tallies (g.map (·.2))

/-- Puts rows in the order of a window, and finds what the functions of windows
that look alike give for them. -/
def lookThrough (spreads : Array Spread) (shape : String)
    (rows : Array (Env × Array Value)) :
    Except Stop (Array (Env × Array Value)) := do
  let alike := spreads.toList.zipIdx.filter fun (s, _) => s.shape = shape
  let rows ← match alike.head? with
    | some (s, _) => do pure ((← s.places (rows.map (·.1))).filterMap
        fun n => rows[n]?)
    | none => pure rows
  let envs := rows.map (·.1)
  alike.foldlM (fun rows (s, n) => do
    let values ← s.apply envs
    return rows.mapIdx fun k (env, found) =>
      (env, found.setIfInBounds n (values.getD k .null))) rows

/-- Rows with what functions of windows give for them.  Windows are looked
through one after the other, the first one last: rows stay in its order. -/
def withWindows (spreads : Array Spread) (envs : Array Env) :
    Except Stop (Array Env) := do
  let shapes := (spreads.toList.map (·.shape)).eraseDups
  let blank := Array.replicate spreads.size Value.null
  let rows ← shapes.reverse.foldlM (fun rows shape =>
    lookThrough spreads shape rows) (envs.map fun env => (env, blank))
  return rows.map fun (env, found) =>
    match env.levels with
    | l :: rest =>
        { env with levels := { l with windows := found.map Except.ok } :: rest }
    | [] => env

/-- The meaning of what is shown of rows, in an order. -/
def meaning (mk : Maker) (cx : Context) (s : Select) (order : List OrderItem) :
    Build CorePlan := do
  let us ← From.units mk cx 100 s.sources
  let ((scope, shown, asked, join, orderKeys, having, group), notes) ←
    Build.inside do
    let ps ← From.placed us s.sources
    let scope := { From.scopeOf ps with windows := s.windows }
    let showing :=
      cx.push { scope with allowsAggregates := true, allowsWindows := true }
    let shown ← shownItems mk showing s.items
    let isAggregate := !s.group.isEmpty || !((← get).headD {}).tallies.isEmpty
    let results := (shown.filter (·.isNamed)).map fun x => (x.name, x.meaning)
    let known := { scope with results }
    if s.having.isSome && !isAggregate then
      Build.refuse "HAVING clause on a non-aggregate query"
    let having ← s.having.mapM fun e => do
      (← mk.expr (cx.push { known with allowsAggregates := true }) e).scalar
    let inner := cx.push { known with isGathering := isAggregate }
    let asked ← match s.condition with
      | some e => (Term.split e).mapM fun x => do (← mk.expr inner x).scalar
      | none => pure []
    let join ← From.conditions mk
      (cx.push { scope with isGathering := isAggregate }) ps
    let ordering := cx.push { known with
      allowsAggregates := isAggregate, isGathering := true,
      allowsWindows := true }
    let orderKeys ← orderBy mk ordering shown order
    let group ← groupBy mk
      (cx.push { known with allowsAggregates := true }) shown s.group
    return (scope, shown, asked.map Term.ofMeaning, join, orderKeys,
      having, group)
  From.checkArguments us s.sources
  let isAggregate := !group.isEmpty || !notes.tallies.isEmpty
  let collations := shown.map fun x => x.meaning.collation.getD .binary
  let keys := collations.map fun collation => ({ collation } : SortKey)
  if s.isDistinct then collations.forM checkCollation
  let blank := join.blank
  let run (outer : Env) : Flow (List Value × Array Value) :=
    let joined := join.run asked outer
    let envs : Flow Env :=
      { items := joined.items.map fun rows => outer.push { rows },
        stop := joined.stop }
    let envs := if isAggregate then
        envs.whole fun all => .ofExcept do
          return { items := ← gather outer blank notes.tallies group all }
      else envs
    let envs := match having with
      | some h => envs.filter h.holds
      | none => envs
    let envs := if notes.spreads.isEmpty then envs
      else envs.whole fun all => .ofExcept do
             return { items := ← withWindows notes.spreads all }
    let rows := envs.mapExcept fun env => do
      let row ← shown.mapM fun x => x.meaning.eval env
      let key ← orderKeys.mapM fun (m, _) => m.eval env
      return (key, row.toArray)
    if s.isDistinct then
      let agree (a b : List Value × Array Value) : Bool :=
        SortKey.orderAll outer.encoding keys a.2.toList b.2.toList = .eq
      { rows with items := distinct agree rows.items }
    else rows
  return { columns := shown.map Shown.column, keys := orderKeys.map (·.2), run,
           place := placeOf scope shown,
           isGathering := isAggregate, isWindowed := !notes.spreads.isEmpty }

end Select

/-! ### Queries that are put together -/

namespace Core

/-- The columns of rows that are written down. -/
def columnsOf (count : Nat) : List ResultColumn :=
  (List.range count).map fun n => { name := "column" ++ Text.decimal 1 (n + 1) }

/-- The meaning of rows that are written down. -/
def written (mk : Maker) (cx : Context) (rows : List (List Expr)) :
    Build CorePlan := do
  let count := (rows.headD []).length
  if rows.any fun r => r.length ≠ count then throw (.refused .unevenRows)
  let (meanings, _) ← Build.inside (rows.mapM fun r => r.mapM fun e => do
    (← mk.expr (cx.push {}) e).scalar)
  let run (env : Env) : Flow (List Value × Array Value) :=
    let inner := env.push {}
    let all : Flow (List Meaning) := { items := meanings.toArray }
    all.mapExcept fun r => do return ([], (← Meaning.evalAll r inner).toArray)
  let columns := (columnsOf count).zipIdx.map fun (c, n) =>
    match meanings with
    | [row] =>
        { c with affinity := (row[n]?).bind (·.affinity),
                 collation := (row[n]?).bind (·.collation) }
    | _ => c
  return { columns, run }

/-- Whether rows are written down. -/
def isWritten : Core → Bool
  | .values _ => true
  | .select _ => false

/-- The meaning of a query that is not put together from others. -/
def meaning (mk : Maker) (cx : Context) (order : List OrderItem) :
    Core → Build CorePlan
  | .values rows => written mk cx rows
  | .select s => s.meaning mk cx order

end Core

namespace Compound

/-- The words for a way to bring rows together. -/
def words : Compound → String
  | .union => "UNION"
  | .unionAll => "UNION ALL"
  | .intersect => "INTERSECT"
  | .except => "EXCEPT"

/-- Rows without repetitions in order; the last of those that agree stays. -/
def asSet (e : Encoding) (keys : List SortKey) (rows : Array (Array Value)) :
    Array (Array Value) :=
  let sorted := SortKey.sort e keys (rows.map fun r => (r.toList, r))
  let groups :=
    grouped (fun a b => SortKey.orderAll e keys a.1 b.1 = .eq) sorted
  groups.filterMap fun g => g.back?.map (·.2)

/-- Brings rows together. -/
def apply (op : Compound) (e : Encoding) (keys : List SortKey)
    (a b : Array (Array Value)) : Array (Array Value) :=
  let isIn (rows : Array (Array Value)) (r : Array Value) : Bool :=
    rows.any fun x => SortKey.orderAll e keys x.toList r.toList = .eq
  match op with
  | .unionAll => a ++ b
  | .union => asSet e keys (a ++ b)
  | .intersect => (asSet e keys a).filter (isIn b)
  | .except => (asSet e keys a).filter fun r => !isIn b r

end Compound

namespace Query

/-- The number of rows that a limit or an offset asks for. -/
def amount (m : Meaning) (env : Env) : Except Stop Int := do
  match Affinity.numeric.apply (← m.eval env) with
  | .integer n => return n
  | _ => throw (.ofFailure .mismatch)

/-- Cuts out the rows that a query shows.  If none are asked for, nothing is
looked at. -/
def cut (limit offset : Option Meaning) (env : Env)
    (run : Unit → Flow (Array Value)) : Flow (Array Value) :=
  .ofExcept do
    let most ← limit.mapM (amount · env)
    if most = some 0 then return {}
    let first ← offset.mapM (amount · env)
    return (run ()).slice (first.getD 0).toNat
      ((most.filter (0 ≤ ·)).map Int.toNat)

/-- The columns of several queries together: the first one that has a property
counts. -/
def mergedColumns : List ResultColumn → List ResultColumn → List ResultColumn
  | a :: as, b :: bs =>
    { a with affinity := a.affinity.or b.affinity,
             collation := a.collation.or b.collation,
             nature := .common [a.nature, b.nature] } :: mergedColumns as bs
  | as, _ => as

/-- The place of a column that rows of several queries are ordered by. -/
def placeAmong (arms : List CorePlan) (index : Nat) (e : Expr) : Build Nat := do
  let count := (arms.headD default).columns.length
  match Select.wholeNumber? e with
  | some n =>
    if 1 ≤ n && n ≤ count then return n.toNat - 1
    Build.refuse (Select.ordinal (index + 1) ++
      " ORDER BY term out of range - should be between 1 and " ++
      Text.decimal 1 count)
  | none =>
    match arms.findSome? fun a => a.place e with
    | some n => return n
    | none =>
      Build.refuse (Select.ordinal (index + 1) ++
        " ORDER BY term does not match any column in the result set")

/-- The meaning of several queries together, in an order. -/
def compound (mk : Maker) (cx : Context) (q : Query) : Build Plan := do
  let first ← q.first.meaning mk cx []
  let others ← q.rest.mapM fun (op, core) => do
    return (op, ← core.meaning mk cx [])
  let arms := first :: others.map (·.2)
  let order ← q.order.zipIdx.mapM fun (o, index) => do
    let (e, collation) := Select.withoutCollation o.value
    return (← placeAmong arms index e, collation, o)
  (q.rest.zip others).forM fun ((_, core), (op, arm)) => do
    if arm.columns.length ≠ first.columns.length then
      if core.isWritten then throw (.refused .unevenRows)
      Build.refuse ("SELECTs to the left and right of " ++ op.words ++
        " do not have the same number of result columns")
  let columns :=
    others.foldl (fun cs (_, arm) => mergedColumns cs arm.columns) first.columns
  let columns :=
    if q.order.isEmpty && others.all fun (op, _) => op = .unionAll then columns
    else columns.map fun c => { c with nature := .never }
  let keys :=
    columns.map fun c => ({ collation := c.collation.getD .binary } : SortKey)
  if others.any fun (op, _) => op ≠ .unionAll then
    keys.forM fun k => checkCollation k.collation
  let orderKeys ← order.mapM fun (n, collation, o) => do
    let own := ((columns[n]?).bind (·.collation)).getD .binary
    let c := (collation.map Collation.named).getD own
    checkCollation c
    return (n,
      ({ collation := c, isDescending := o.isDescending,
         nullsFirst := o.nullsFirst.getD (!o.isDescending) } : SortKey))
  let run (env : Env) : Flow (Array Value) :=
    let rowsOf (p : CorePlan) : Flow (Array Value) :=
      let found := p.run env
      { items := found.items.map (·.2), stop := found.stop }
    let all := others.foldl (fun (front : Flow (Array Value)) (op, p) =>
      if op = .unionAll then front.append (rowsOf p)
      else front.whole fun a => (rowsOf p).whole fun b =>
             { items := op.apply env.encoding keys a b })
      (rowsOf first)
    if orderKeys.isEmpty then all
    else all.whole fun rows =>
      let keyed :=
        rows.map fun r => (orderKeys.map fun (n, _) => r.getD n .null, r)
      { items :=
          (SortKey.sort env.encoding (orderKeys.map (·.2)) keyed).map (·.2) }
  return { columns, run }

/-- The meaning of a query by itself, in an order. -/
def single (mk : Maker) (cx : Context) (q : Query) : Build Plan := do
  let p ← q.first.meaning mk cx q.order
  let run (env : Env) : Flow (Array Value) :=
    let found := p.run env
    if q.order.isEmpty then
      { items := found.items.map (·.2), stop := found.stop }
    else found.whole fun rows =>
           { items := (SortKey.sort env.encoding p.keys rows).map (·.2) }
  return { columns := if q.order.isEmpty then p.columns else
               p.columns.map fun c => { c with nature := .never },
           run, isGathering := p.isGathering, isWindowed := p.isWindowed }

/-- The names of the queries that have one. -/
def frame (q : Query) : Build (List (String × Named)) := do
  let names := q.named.map (·.name)
  match names.zipIdx.find? fun (n, k) => (names.take k).any (isSame n) with
  | some (n, _) => Build.refuse ("duplicate WITH table name: " ++ n)
  | none => return q.named.map fun n => (n.name, .query n)

/-- The meaning of a query. -/
def meaning (mk : Maker) (cx : Context) (q : Query) : Build Plan := do
  let cx ← if q.named.isEmpty then pure cx
    else do pure { cx with named := (← q.frame) :: cx.named }
  let alone : Context := { world := cx.world, args := cx.args }
  let amountOf (e : Expr) : Build Meaning := do
    let (m, _) ← Build.inside (mk.expr (alone.push {}) e)
    m.scalar
  let limit ← q.limit.mapM amountOf
  let offset ← q.offset.mapM amountOf
  let p ← if q.rest.isEmpty then q.single mk cx else q.compound mk cx
  return { p with run := fun env => cut limit offset env fun _ => p.run env }

end Query

/-- Makers of meanings for what is nested so deep. -/
def maker : Nat → Maker
  | 0 =>
    let deep {α : Type} : Build α :=
      Build.refuse "Expression tree is too large (maximum depth 1000)"
    { expr := fun _ _ => deep, query := fun _ _ => deep }
  | n + 1 =>
    { expr := fun cx e => e.meaning (maker n) cx
      query := fun cx q => q.meaning (maker n) cx }

/-- How deep expressions and queries can be nested in each other. -/
def maxNesting : Nat := 1001

/-- Makers of meanings. -/
def meanings : Maker := maker maxNesting

namespace Build

/-- Makes something that stands in no query. -/
def alone {α : Type} (b : Build α) : Except Failure α := (b.run []).map (·.1)

end Build

end Bytecode.Database
