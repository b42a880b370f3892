import Bytecode.Database.Document.Walk
import Bytecode.Database.Meaning.Access
import Bytecode.Database.Meaning.Source
import Bytecode.Database.Report

/-!
# Where rows come from

The sources of a query are looked up by name: queries that have a name come
first, then tables and views.  A view is a query of its own, which sees nothing
of the query that it is used in.
-/

namespace Bytecode.Database

/-! ### Rows that are computed

Some names stand for rows that no table holds: what is met on a walk through a
document, and what reports show.
-/

namespace Generator

/-- Something met on a walk as a row. -/
def visited (isDeep : Bool) (v : Document.Visit) : Row :=
  let value : Except Stop Value := match v.document.value? with
    | some x => .ok x
    | none => .error (.said "malformed JSON")
  let parent : Value :=
    if isDeep then (v.parent.map fun n => Value.integer n).getD .null else .null
  { values := #[.ok v.key, value, .ok (.text v.document.kindName),
      if v.document.isContainer then .ok .null
      else value, .ok (.integer v.place), .ok parent, .ok (.text v.fullPath),
      .ok (.text v.path)] }

/-- The walk through a document, from what a path leads to. -/
def walking (isDeep : Bool) : Generator where
  name := if isDeep then "json_tree" else "json_each"
  columns := #["key", "value", "type", "atom", "id", "parent", "fullkey",
    "path"].map fun name =>
    { name, affinity := some .plain,
      nature := if name = "value" then .containers else .never }
  arguments := [("json", .null), ("root", .text "$")]
  rows w values := do
    let v := values.getD 0 .null
    if v = .null then return #[]
    let d ← DocumentFunction.document w.encoding v
    match values.getD 1 .null with
    | .null => return #[]
    | path =>
      let path := path.seen w.encoding
      match ← DocumentFunction.found d path with
      | none => return #[]
      | some f => return ((d.walk isDeep path f).map (visited isDeep)).toArray

/-- A report as rows. -/
def reporting (name : String) (form : ReportForm)
    (insight : World → Insight) : Generator where
  name := "pragma_" ++ name
  columns := (form.columns.map
    fun name => ({ name, affinity := some .plain } : ScopeColumn)).toArray
  arguments := (if form.takesName then [("arg", .null)] else []) ++
    if form.takesStore then [("schema", .null)] else []
  first := 1
  rows w values := do
    let text (n : Nat) : Option String :=
      match values.getD n .null with
      | .null => none
      | v => some (v.seen w.encoding)
    let asked := if form.takesName then text 0 else none
    let database :=
      if form.takesStore then text (if form.takesName then 1 else 0) else none
    let q : Inquiry :=
      { world := w, name := asked, database, insight := insight w }
    return ((← q.rows name).map fun r => Row.ofValues .null r).toArray

/-- The rows that a name stands for, if they are computed. -/
def ofName? (insight : World → Insight) (name : String) : Option Generator :=
  let key := Token.lowered name
  if key = "json_each" then some (walking false)
  else if key = "json_tree" then some (walking true)
  else if "pragma_".toList.isPrefixOf key.toList then
    let report := String.ofList (key.toList.drop 7)
    (Report.form? report).map fun form => reporting report form insight
  else none

end Generator

/-! ### Sources -/

namespace ScopeColumn

/-- A column of what a query shows as names see it. -/
def ofResult (c : ResultColumn) : ScopeColumn :=
  { name := c.name, affinity := c.affinity, collation := c.collation,
    type := c.type }

end ScopeColumn

namespace From

/-- Names that all differ: one that has occurred gets a number behind it. -/
def differing (names : List String) : List String :=
  (names.foldl (fun (out : List String) name =>
    let isTaken (n : String) : Bool := out.any (isSame n)
    if isTaken name then
      let k := ((List.range (out.length + 1)).find?
        fun k => !isTaken (name ++ ":" ++ Text.decimal 1 (k + 1))).getD 0
      out ++ [name ++ ":" ++ Text.decimal 1 (k + 1)]
    else out ++ [name]) [])

/-- What a query shows, under other names. -/
def renamed (columns : List ResultColumn) (names : List String) :
    List ResultColumn :=
  let all := if names.isEmpty then differing (columns.map (·.name)) else names
  (columns.zip all).map fun (c, name) => { c with name }

/-- The rows of a query as those of a source. -/
def ofPlan (p : Plan) (columns : List ResultColumn) (label : Option String) :
    UnitPlan where
  sources := #[{ label, columns := (columns.map ScopeColumn.ofResult).toArray }]
  rows env :=
    let found := p.run env
    { items := found.items.map fun r => #[Row.ofValues .null r],
      stop := found.stop }

/-- The rows that a query about itself has found last, as those of a source. -/
def ofFeed (columns : List ResultColumn) (id : Nat) (label : String) :
    UnitPlan where
  sources := #[{ label := some label,
                 columns := (columns.map ScopeColumn.ofResult).toArray }]
  rows env := { items := ((env.feeds.lookup id).toList.map
                  fun r => #[Row.ofValues .null r]).toArray }

/-- A table as a source. -/
def ofTable (world : World) (p : TablePlan) (label : Option String) :
    UnitPlan where
  sources := #[{ TablePlan.scopeOf p.table with
    label := some (label.getD p.table.name)
    database := some (world.store p.table.store).name }]
  rows env :=
    let found := p.rows env
    { items := found.items.map fun r => #[r], stop := found.stop }
  table := some p

/-- What a view shows. -/
def viewPlan (mk : Maker) (cx : Context) (v : View) :
    Build (Plan × List ResultColumn) := do
  let id := Text.decimal 1 v.store ++ "." ++ Token.lowered v.name
  if cx.views.contains id then
    Build.refuse ("view " ++ v.name ++ " is circularly defined")
  let inner : Context :=
    { world := cx.world, views := id :: cx.views,
      home := if v.store = 1 then none else some v.store }
  let (p, _) ← Build.inside (mk.query inner v.query)
  if !v.columns.isEmpty && v.columns.length ≠ p.columns.length then
    Build.refuse ("expected " ++
      Text.decimal 1 v.columns.length ++ " columns for \x27" ++ v.name ++
      "\x27 but got " ++ Text.decimal 1 p.columns.length)
  let alone : Plan :=
    { p with run := fun env => p.run { env with levels := [], feeds := [] } }
  return (alone, renamed p.columns v.columns)

/-- The names and types of the columns that a view shows. -/
def shownBy (mk : Maker) (w : World) (v : View) :
    Except Failure (List (String × String)) := do
  let ((_, columns), _) ← (viewPlan mk { world := w } v).run []
  return columns.map fun c => (c.name, c.type)

/-- What reports see. -/
def insight (mk : Maker) (w : World) : Insight where
  shownBy := shownBy mk w
  strays := Inspection.strays mk w
  faults := Inspection.faults mk w

/-- Rows that are computed as a source. -/
def ofGenerator (g : Generator) (label : Option String) : UnitPlan where
  sources := #[g.scope label]
  rows env := g.run [] [] env
  generator := some g

/-- The query with a name, and the names that it can use itself. -/
def named? (name : String) :
    List (List (String × Named)) → Option (Named × List (List (String × Named)))
  | [] => none
  | frame :: rest =>
    match frame.find? fun (n, _) => isSame n name with
    | some (_, found) => some (found, frame :: rest)
    | none => named? name rest

/-- The same names with something else for one of them. -/
def rebind (name : String) (new : Named) :
    List (List (String × Named)) → List (List (String × Named))
  | [] => []
  | frame :: rest => (frame.map
      fun (n, old) => if isSame n name then (n, new) else (n, old)) :: rest

/-- How often a part of a query takes rows from what has a name. -/
def mentions (name : String) : Core → Nat
  | .values _ => 0
  | .select s => (s.sources.filter fun source =>
    match source.content with
    | .table t => t.database.isNone && isSame t.name name
    | _ => false).length

/-- The last parts of a query with a name that take rows from what it has found
itself. -/
def ownArms (n : NamedQuery) : List (Compound × Core) :=
  match n.query.rest.getLast? with
  | some (last, _) =>
    if last = .union || last = .unionAll then
      (n.query.rest.reverse.takeWhile fun (op, core) => op = last &&
        0 < mentions n.name core).reverse
    else []
  | none => []

/-- How often a query about itself finds rows before nobody waits for it any
longer. -/
def patience : Nat := 100000

/-- Takes rows from a queue one by one; each is shown, and brings about
others. -/
def unfold (brings : Array Value → Except Stop (Array (Array Value)))
    (isNew : Array (Array Value) → Array Value → Bool)
    (sorted : List (Array Value) → List (Array Value)) (limit : Option Nat) :
    Nat → List (Array Value) → Array (Array Value) → Array (Array Value) →
    Flow (Array Value)
  | 0, _, _, shown => { items := shown }
  | fuel + 1, queue, seen, shown =>
    if limit.any (· ≤ shown.size) then { items := shown }
    else match queue with
      | [] => { items := shown }
      | row :: rest =>
        match brings row with
        | .error s => { items := shown.push row, stop := some s }
        | .ok found =>
          let (fresh, seen) := found.foldl (fun (fresh, seen) r =>
            if isNew seen r then (fresh ++ [r], seen.push r)
            else (fresh, seen)) (([] : List (Array Value)), seen)
          unfold brings isNew sorted limit fuel (sorted (rest ++ fresh)) seen
            (shown.push row)

/-- The rows of a query that speaks of itself. -/
def recursive (mk : Maker) (cx : Context) (n : NamedQuery) (count : Nat) :
    Build (Plan × List ResultColumn) := do
  let q := n.query
  let later := ownArms n
  let first := q.rest.take (q.rest.length - later.length)
  if later.any fun (_, core) => 1 < mentions n.name core then
    Build.refuse ("multiple references to recursive table: " ++ n.name)
  let banned : Named := .banned ("circular reference: " ++ n.name)
  let base ← mk.query { cx with named := rebind n.name banned cx.named }
    { named := q.named, isRecursive := q.isRecursive, first := q.first,
      rest := first }
  if !n.columns.isEmpty && n.columns.length ≠ base.columns.length then
    Build.refuse ("table " ++ n.name ++
      " has " ++ Text.decimal 1 base.columns.length ++ " values for " ++
      Text.decimal 1 n.columns.length ++ " columns")
  let columns := renamed base.columns n.columns
  let inner := { cx with
    named := rebind n.name (.feed columns count) cx.named, feeds := count + 1 }
  let steps ← later.mapM fun (_, core) => mk.query inner
    { named := q.named, isRecursive := q.isRecursive, first := core }
  if steps.any fun p => p.columns.length ≠ base.columns.length then
    Build.refuse ("SELECTs to the left and right of UNION" ++
      (if later.any fun (op, _) => op = .unionAll then " ALL" else "") ++
      " do not have the same number of result columns")
  if steps.getLast?.any (·.isWindowed) then
    Build.refuse "cannot use window functions in recursive queries"
  if steps.any (·.isGathering) then
    Build.refuse "recursive aggregate queries not supported"
  let limit ← q.limit.mapM (mk.expr { world := cx.world, args := cx.args })
  let offset ← q.offset.mapM (mk.expr { world := cx.world, args := cx.args })
  let order := q.order.map fun o =>
    let place : Nat := match o.value with
      | .number text => ((Value.literal? text.toList).getD
          (.integer 1)).toWhole .utf8 |>.toNat |> (· - 1)
      | .name _ _ column _ =>
          (columns.findIdx? fun c => isSame c.name column).getD 0
      | _ => 0
    (place,
      ({ isDescending := o.isDescending,
         nullsFirst := o.nullsFirst.getD (!o.isDescending),
         collation := ((columns[place]?).bind (·.collation)).getD .binary } :
        SortKey))
  let isDistinct := later.any fun (op, _) => op ≠ .unionAll
  let keys :=
    columns.map fun c => ({ collation := c.collation.getD .binary } : SortKey)
  let run (env : Env) : Flow (Array Value) := .ofExcept do
    let e := env.encoding
    let whole (m : Meaning) : Except Stop Int := do
      match Affinity.numeric.apply (← m.eval env) with
      | .integer n => return n
      | _ => throw (.ofFailure .mismatch)
    let most ← limit.mapM whole
    let skipped := ((← offset.mapM whole).getD 0).toNat
    let bound := (most.filter (0 ≤ ·)).map fun n => n.toNat + skipped
    let agree (a b : Array Value) : Bool :=
      SortKey.orderAll e keys a.toList b.toList = .eq
    let start ← (base.run env).all
    let start := if isDistinct then distinct agree start else start
    let brings (row : Array Value) : Except Stop (Array (Array Value)) := do
      let inside := { env with feeds := (count, row) :: env.feeds }
      let found ← steps.mapM fun p => (p.run inside).all
      return found.foldl (· ++ ·) #[]
    let isNew (seen : Array (Array Value)) (r : Array Value) : Bool :=
      !isDistinct || !seen.any (agree r)
    let sorted (queue : List (Array Value)) : List (Array Value) :=
      if order.isEmpty then queue
      else
        queue.mergeSort fun a b => SortKey.orderAll e (order.map
          (·.2)) (order.map fun (n, _) => a.getD n .null) (order.map
            fun (n, _) => b.getD n .null) ≠ .gt
    let found := unfold brings isNew sorted bound patience (sorted start.toList)
      (if isDistinct then start else #[]) #[]
    return found.slice skipped none
  return ({ columns, run }, columns)

/-- The rows of a query that has a name. -/
def namedUnit (mk : Maker) (cx : Context) (name : String)
    (label : Option String) (found : Named)
    (frames : List (List (String × Named))) : Build UnitPlan := do
  let shown := some (label.getD name)
  let inner := { cx with named := frames }
  match found with
  | .feed columns id => return ofFeed columns id (label.getD name)
  | .banned reason => Build.refuse reason
  | .query n =>
    if !(ownArms n).isEmpty then
      let (p, columns) ← recursive mk inner n cx.feeds
      return ofPlan p columns shown
    let banned : Named := .banned ("circular reference: " ++ n.name)
    let p ← mk.query { inner with named := rebind n.name banned frames } n.query
    if !n.columns.isEmpty && n.columns.length ≠ p.columns.length then
      Build.refuse ("table " ++ n.name ++
        " has " ++ Text.decimal 1 p.columns.length ++ " values for " ++
        Text.decimal 1 n.columns.length ++ " columns")
    return ofPlan p (renamed p.columns n.columns) shown

/-- A source with a name. -/
def tableUnit (mk : Maker) (cx : Context) (name : TableName)
    (label : Option String) : Build UnitPlan := do
  match if name.database.isNone then named? name.name cx.named else none with
  | some (found, frames) => namedUnit mk cx name.name label found frames
  | none =>
    let name := cx.located name
    match cx.world.relation? name with
    | some (.inl t) =>
        return ofTable cx.world (← Access.plan mk cx.world t) label
    | some (.inr v) =>
      let (p, columns) ← viewPlan mk cx v
      return ofPlan p columns (some (label.getD v.name))
    | none =>
      match Generator.ofName? (insight mk) name.name with
      | some g => return ofGenerator g label
      | none => throw (.refused (.noSuchTable name.text))

/-- Sources that stand between parentheses. -/
def group (j : JoinPlan) (label : Option String) : UnitPlan :=
  let rows (env : Env) : Flow (Array Row) := j.run [] env
  match label with
  | none => { sources := j.sources, rows }
  | some _ =>
    { sources :=
        #[{ label,
            columns := j.sources.foldl (fun all s => all ++ s.columns) #[] }]
      rows := fun env =>
        let found := rows env
        { items := found.items.map fun rs =>
            #[{ values := rs.foldl (fun (all : Array (Except Stop Value)) r =>
                  all ++ r.values) #[] }]
          stop := found.stop } }

/-- The names of columns that a source shares with those in front. -/
def sharedNames (front own : Array ScopeSource) (s : Source) :
    Build (List String) := do
  if s.isNatural then
    if s.condition.isSome || !s.shared.isEmpty then
      Build.refuse "a NATURAL join may not have an ON or USING clause"
    let left := front.toList.flatMap fun x => x.columns.toList.map fun c =>
      Token.lowered c.name
    return ((own.toList.flatMap fun x => x.columns.toList.map (·.name)).filter
      fun n =>
      left.contains (Token.lowered n))
  else return s.shared

/-- A column is not on both sides. -/
def missing {α : Type} (name : String) : Build α :=
  Build.refuse ("cannot join using column " ++ name ++
    " - column not present in both tables")

/-- A unit with its source, the columns it shares with those in front, and how
many sources there are in front. -/
structure Placed where
  unit : UnitPlan
  source : Source
  shared : List String
  first : Nat

/-- Units in their places. -/
def placed (us : List UnitPlan) (sources : List Source) :
    Build (List Placed) := do
  let (done, _) ← (us.zip sources).foldlM (fun (done, front) (u, s) => do
    let names ← sharedNames front u.sources s
    let own := u.sources.map fun x =>
      { x with shared := names.map Token.lowered, kind := u.kind }
    return (done ++
      [({ unit := { u with sources := own }, source := s, shared :=
            names, first := front.size })], front ++ own))
    (([] : List Placed), (#[] : Array ScopeSource))
  return done

/-- The sources of units as names see them. -/
def scopeOf (ps : List Placed) : Scope :=
  { sources := ps.foldl (fun all p => all ++ p.unit.sources) #[] }

/-- The questions whether columns that are shared have the same values. -/
def sharing (ps : List Placed) (p : Placed) : Build (List Meaning) :=
  let scope := scopeOf ps
  p.shared.mapM fun name => do
    let right := (scope.matching none none name).filter fun (i, _) =>
      p.first ≤ i && i < p.first + p.unit.sources.size
    let left := (scope.matching none none name).filter fun (i, _) => i < p.first
    match Lookup.merged? { scope with
      sources := scope.sources.extract 0 p.first } 0 name left, right with
    | some l, (i, j) :: _ =>
        Meaning.compare .equal l (Lookup.column scope 0 i j)
    | none, _ :: _ =>
      if left.isEmpty then missing name
      else Build.refuse ("ambiguous reference to " ++ name ++ " in USING()")
    | _, [] => missing name

/-- Sources with what is asked when they are brought together. -/
def conditions (mk : Maker) (inner : Context) (ps : List Placed) :
    Build JoinPlan := do
  let units ← ps.mapM fun p => do
    let pairs ← sharing ps p
    let asked ← match p.source.condition with
      | some e => (Term.split e).mapM fun x => do (← mk.expr inner x).scalar
      | none => pure []
    let arguments ← match p.source.content with
      | .function _ args => args.mapM fun x => do (← mk.expr inner x).scalar
      | _ => pure []
    return { p.unit with
      conditions := (pairs ++ asked).map Term.ofMeaning, arguments }
  return { units }

/-- Fails if an index that rows are to be found by is not there. -/
def checkIndex (u : UnitPlan) (index : Option String) : Build Unit :=
  match index with
  | none => return
  | some name =>
    if (u.table.map (·.table.indexes)).getD []
        |>.any fun i => isSame i.name name then return
    else Build.refuse ("no such index: " ++ name)

/-- Fails if rows that are computed are to come from more values than they
can. -/
def checkArguments (us : List UnitPlan) (sources : List Source) : Build Unit :=
  (us.zip sources).forM fun (u, s) =>
    match u.generator, s.content with
    | some g, .function name args =>
      if g.arguments.length < args.length then
        Build.refuse ("too many arguments on " ++ name.name ++ "() - max " ++
          Text.decimal 1 g.arguments.length)
      else pure ()
    | _, _ => pure ()

/-- The units of sources, without what is asked about them; groups of sources
can be nested so deep. -/
def units (mk : Maker) (cx : Context) :
    Nat → List Source → Build (List UnitPlan)
  | 0, _ => throw .tooBig
  | fuel + 1, sources => sources.mapM fun s => do
    let unit ← match s.content with
      | .table name => tableUnit mk cx name s.label
      | .query q =>
        let p ← mk.query cx.nested q
        pure (ofPlan p (renamed p.columns []) s.label)
      | .function name _ =>
        match cx.world.relation? (cx.located name),
          Generator.ofName? (insight mk) name.name with
        | some (.inl { form := .texts _, .. }), _ =>
            tableUnit mk cx name s.label
        | some _, _ =>
            Build.refuse ("\x27" ++ name.name ++ "\x27 is not a function")
        | none, none => throw (.refused (.noSuchTable (cx.located name).text))
        | none, some g => pure (ofGenerator g s.label)
      | .sources inner =>
        let us ← units mk cx fuel inner
        let ps ← placed us inner
        let (j, _) ← Build.inside (conditions mk (cx.push (scopeOf ps)) ps)
        checkArguments us inner
        pure (group j s.label)
    checkIndex unit s.index
    return { unit with kind := s.kind }

end From

end Bytecode.Database
