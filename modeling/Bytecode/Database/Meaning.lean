import Bytecode.Database.Operator
import Bytecode.Database.World

/-!
# Meanings

The meaning of an expression is a function from the rows around it to a value.
Names are looked up when the meaning is made, so a name that stands for nothing
is found before any row is looked at.  Queries stand inside each other; the rows
around an expression are those of its own query, then those of the query outside
it, and so on.
-/

namespace Bytecode.Database

/-- What an expression sees of one query. -/
structure Level where
  /-- A row of each source. -/
  rows : Array Row := #[]
  /-- What has been computed from many rows. -/
  aggregates : Array (Except Stop Value) := #[]
  /-- What has been computed from the rows of a window. -/
  windows : Array (Except Stop Value) := #[]
  deriving Inhabited

/-- What an expression sees. -/
structure Env where
  /-- The queries around it, the innermost first. -/
  levels : List Level := []
  /-- The databases as they are. -/
  world : World
  /-- The databases when the statement began. -/
  start : World
  /-- The rows that queries about themselves have found last, by their depth. -/
  feeds : List (Nat × Array Value) := []

namespace Env

/-- The databases as a statement finds them. -/
def ofWorld (w : World) : Env := { world := w, start := w }

/-- What is seen with another query around. -/
def push (env : Env) (l : Level) : Env := { env with levels := l :: env.levels }

/-- A row of a source. -/
def row (env : Env) (depth source : Nat) : Row :=
  ((env.levels[depth]?).bind fun l => l.rows[source]?).getD {}

/-- The encoding of texts. -/
def encoding (env : Env) : Encoding := env.world.encoding

end Env

/-- The place of a column: how far outside its query is, the source, and the
column, or nothing for the number of the row. -/
structure Spot where
  depth : Nat
  source : Nat
  column : Option Nat
  deriving DecidableEq, Repr

/-- The meaning of an expression. -/
structure Meaning where
  eval : Env → Except Stop Value
  affinity : Option Affinity := none
  collation : Option Collation := none
  /-- Whether the collation is asked for. -/
  isCollated : Bool := false
  /-- The values that stand together, unless it is only one. -/
  parts : List Meaning := []
  /-- The column that it is, if it is one. -/
  spot : Option Spot := none
  /-- The sources that it looks at. -/
  uses : List (Nat × Nat) := []
  /-- The declared type of the column that it is. -/
  type : String := ""
  /-- The truth that it is, if a word says so. -/
  truth : Option Bool := none
  /-- Whether it needs rows of its own query together. -/
  isAggregate : Bool := false
  /-- The name of the function for which it does. -/
  function : String := ""
  /-- Whether it needs a window. -/
  isWindow : Bool := false
  /-- The sides of the question whether two values are equal. -/
  sides : Option (Meaning × Meaning) := none
  /-- The column in which it asks to search, and what for. -/
  search : Option (Spot × Meaning) := none
  /-- Whether a query is in it. -/
  hasQuery : Bool := false
  /-- Which of its values are marked as documents. -/
  nature : Nature := .never

instance : Inhabited Meaning := ⟨{ eval := fun _ => .ok .null }⟩

namespace Meaning

/-- How many values it is. -/
def width (m : Meaning) : Nat := if m.parts.isEmpty then 1 else m.parts.length

/-- A value that is always the same. -/
def constant (v : Value) : Meaning := { eval := fun _ => .ok v }

/-- Each of the values that stand together. -/
def all (m : Meaning) : List Meaning := if m.parts.isEmpty then [m] else m.parts

/-- The same from a place inside so many more queries. -/
def lifted (m : Meaning) (count : Nat) : Meaning :=
  if count = 0 then m
  else
    { eval := fun env => m.eval { env with levels := env.levels.drop count }
      affinity := m.affinity
      collation := m.collation
      isCollated := m.isCollated
      uses := m.uses.map fun (d, s) => (d + count, s)
      spot := m.spot.map fun s => { s with depth := s.depth + count }
      type := m.type
      truth := m.truth
      isAggregate := m.isAggregate
      function := m.function
      isWindow := m.isWindow
      hasQuery := m.hasQuery
      nature := m.nature }

/-- The collation of a comparison: one that is asked for counts more, and the
first more than the second. -/
def commonCollation (a b : Meaning) : Collation :=
  if a.isCollated then a.collation.getD .binary
  else if b.isCollated then b.collation.getD .binary
  else (a.collation.or b.collation).getD .binary

/-- The answer to a question; there is none for null. -/
def answer (m : Meaning) (env : Env) : Except Stop (Option Bool) :=
  (m.eval env).map (·.truth env.encoding)

/-- Whether the answer to a question is yes. -/
def holds (m : Meaning) (env : Env) : Except Stop Bool :=
  (m.answer env).map (· = some true)

end Meaning

/-- A column of a source as names see it. -/
structure ScopeColumn where
  name : String
  affinity : Option Affinity := none
  collation : Option Collation := none
  type : String := ""
  /-- Whether it is left out when all columns are asked for. -/
  isHidden : Bool := false
  /-- Which of its values are marked as documents. -/
  nature : Nature := .never
  deriving Inhabited

/-- A source as names see it. -/
structure ScopeSource where
  /-- The name in front of its columns. -/
  label : Option String := none
  /-- The database that it is in, if it is a table. -/
  database : Option String := none
  columns : Array ScopeColumn := #[]
  /-- Whether rows have numbers. -/
  hasNumber : Bool := false
  /-- The column that is the number of the row. -/
  numberColumn : Option Nat := none
  /-- Whether its columns are only seen behind its name. -/
  isMarked : Bool := false
  /-- Columns that are one with columns in front, in lower case. -/
  shared : List String := []
  kind : JoinKind := .inner
  /-- How it can be searched, if it can. -/
  search : Option SearchForm := none
  deriving Inhabited

/-- Where an expression stands that not everything may be said in. -/
inductive Ground where
  | free
  | check
  | computed
  | index
  | partialIndex
  deriving DecidableEq, Repr

/-- What is spoken of where an expression stands. -/
def Ground.name : Ground → String
  | .free => ""
  | .check => "CHECK constraints"
  | .computed => "generated columns"
  | .index => "index expressions"
  | .partialIndex => "partial index WHERE clauses"

/-- Where an expression stands that has to give the same every time. -/
def Ground.place? : Ground → Option String
  | .free => none
  | .check => some "a CHECK constraint"
  | .computed => some "a generated column"
  | .index | .partialIndex => some "an index"

/-- What names stand for in one query. -/
structure Scope where
  sources : Array ScopeSource := #[]
  /-- What is shown, by the names it is given. -/
  results : List (String × Meaning) := []
  allowsAggregates : Bool := false
  /-- Whether rows are looked at together, though not here. -/
  isGathering : Bool := false
  allowsWindows : Bool := false
  ground : Ground := .free
  /-- The windows that have names. -/
  windows : List (String × Window) := []
  deriving Inhabited

/-- A use of an aggregate. -/
structure Tally where
  /-- The value for the rows of a group, each as an expression sees it. -/
  apply : Array Env → Except Stop Value
  /-- The place of the row that it picks, if it picks one: where it changed its
  mind last. -/
  pick : Option (Array Env → Except Stop (Option Nat)) := none

/-- A use of a function of a window. -/
structure Spread where
  /-- What the window looks like.  Functions of windows that look alike see rows
  in one order. -/
  shape : String
  /-- The places of rows in the order of the window. -/
  places : Array Env → Except Stop (Array Nat)
  /-- The value for each row. -/
  apply : Array Env → Except Stop (Array Value)

/-- What has been found out about a query while meanings are made. -/
structure Notes where
  /-- Whether an expression inside speaks of it. -/
  isUsed : Bool := false
  tallies : Array Tally := #[]
  spreads : Array Spread := #[]

/-- Makes something and finds out about the queries around it, the innermost
first. -/
abbrev Build := StateT (List Notes) (Except Failure)

/-- A column of what a query shows. -/
structure ResultColumn where
  name : String
  affinity : Option Affinity := none
  collation : Option Collation := none
  type : String := ""
  /-- Which of its values are marked as documents, if they are taken as they are
  found. -/
  nature : Nature := .never
  deriving Inhabited

/-- The meaning of a query. -/
structure Plan where
  columns : List ResultColumn
  run : Env → Flow (Array Value)
  /-- Whether it speaks of queries around it. -/
  isBound : Bool := false
  /-- Whether it looks at rows together, or through windows. -/
  isGathering : Bool := false
  isWindowed : Bool := false
  deriving Inhabited

/-- A query with a name, as it can be spoken of. -/
inductive Named where
  | query (q : NamedQuery)
  /-- The rows that a query about itself has found last. -/
  | feed (columns : List ResultColumn) (id : Nat)
  /-- Something that cannot be spoken of here. -/
  | banned (reason : String)

/-- Where an expression or a query stands. -/
structure Context where
  world : World
  /-- The queries around, the innermost first. -/
  scopes : List Scope := []
  /-- Queries that have names, the innermost first; those of one query
  together. -/
  named : List (List (String × Named)) := []
  /-- The values that are put into places. -/
  args : List Value := []
  /-- How many queries about themselves are around. -/
  feeds : Nat := 0
  /-- The views around, by their names. -/
  views : List String := []
  /-- Whether this is a rule. -/
  inRule : Bool := false
  /-- The database that names without one are looked up in. -/
  home : Option Nat := none

/-- Makers of meanings for what is nested. -/
structure Maker where
  expr : Context → Expr → Build Meaning
  query : Context → Query → Build Plan

instance : Inhabited Maker :=
  ⟨fun _ _ => throw .tooBig, fun _ _ => throw .tooBig⟩

namespace Build

/-- Refuses with words. -/
def refuse {α : Type} (text : String) : Build α := throw (.refused (.said text))

/-- Notes that a query is spoken of. -/
def use (depth : Nat) : Build Unit :=
  modify fun notes => notes.modify depth fun n => { n with isUsed := true }

/-- Makes something inside another query, and gives what was found out about
that. -/
def inside {α : Type} (b : Build α) : Build (α × Notes) := do
  modify fun notes => {} :: notes
  let x ← b
  let notes ← get
  set notes.tail
  return (x, notes.headD {})

/-- Makes something and tells whether it speaks of the queries around it. -/
def watched {α : Type} (b : Build α) : Build (α × Bool) := do
  let before ← get
  set (before.map fun n => { n with isUsed := false })
  let x ← b
  let after ← get
  let isBound := after.any (·.isUsed)
  set ((before.zip after).map fun (old, new) => { new with
    isUsed := old.isUsed || new.isUsed })
  return (x, isBound)

end Build

namespace Context

/-- The query that an expression stands in. -/
def scope (cx : Context) : Scope := cx.scopes.headD {}

/-- The same with something else known of the query. -/
def withScope (cx : Context) (f : Scope → Scope) : Context :=
  match cx.scopes with
  | s :: rest => { cx with scopes := f s :: rest }
  | [] => { cx with scopes := [f {}] }

/-- The same for a query that is nested: it cannot take rows from what a query
about itself has found. -/
def nested (cx : Context) : Context :=
  { cx with named := cx.named.map fun frame => frame.map fun (name, found) =>
      match found with
      | .feed _ _ => (name, .banned ("multiple recursive references: " ++ name))
      | found => (name, found) }

/-- The same inside another query. -/
def push (cx : Context) (s : Scope) : Context :=
  { cx with scopes := s :: cx.scopes }

/-- The name of the list of a database, seen from where something stands. -/
def located (cx : Context) (name : TableName) : TableName :=
  match name.database, cx.home with
  | none, some n => { name with database := some (cx.world.store n).name }
  | _, _ => name

end Context

namespace Scope

/-- Whether a name stands for the number of a row. -/
def isNumberName (name : String) : Bool :=
  ["rowid", "oid", "_rowid_"].contains (Token.lowered name)

/-- Whether a source is meant by what stands in front of a name. -/
def isMeant (s : ScopeSource) (database table : Option String) : Bool :=
  match table with
  | none => !s.isMarked
  | some t =>
    s.label.any (isSame t) && database.all fun d => s.database.any (isSame d)

/-- The columns that a name stands for, and how they are one. -/
def matching (s : Scope) (database table : Option String) (name : String) :
    List (Nat × Nat) :=
  s.sources.toList.zipIdx.flatMap fun (source, i) =>
    if isMeant source database table then
      match source.columns.toList.findIdx? fun c => isSame c.name name with
      | some j => [(i, j)]
      | none => []
    else []

/-- The sources whose rows have a number that a name can stand for. -/
def numbered (s : Scope) (database table : Option String) : List Nat :=
  s.sources.toList.zipIdx.filterMap fun (source, i) =>
    if isMeant source database table && source.hasNumber then some i else none

end Scope

namespace Lookup

/-- The meaning of a column of a source. -/
def column (s : Scope) (depth source column : Nat) : Meaning :=
  let c := (s.sources.getD source default).columns.getD column default
  { eval := fun env => (env.row depth source).value column
    affinity := c.affinity
    collation := c.collation
    spot := some { depth, source, column := some column }
    uses := [(depth, source)]
    type := c.type
    nature := c.nature }

/-- The meaning of the number of a row. -/
def number (depth source : Nat) : Meaning where
  eval := fun env => .ok (env.row depth source).number
  affinity := some .integer
  spot := some { depth, source, column := none }
  uses := [(depth, source)]
  type := "INTEGER"

/-- The first value that is not null. -/
def coalesced (a b : Meaning) : Meaning where
  eval := fun env => do
    let v ← a.eval env
    if v = .null then b.eval env else return v
  affinity := a.affinity
  collation := a.collation
  uses := a.uses ++ b.uses
  type := a.type
  nature := .common [a.nature, b.nature]

/-- The meaning of columns that may be one: those of sources that are brought
together by a column of this name count as one. -/
def merged? (s : Scope) (depth : Nat) (name : String) :
    List (Nat × Nat) → Option Meaning
  | [] => none
  | (i, j) :: rest => rest.foldlM (fun m (k, l) =>
      let source := s.sources.getD k default
      if source.shared.contains (Token.lowered name) then
        match source.kind with
        | .inner | .left => some m
        | .right => some (column s depth k l)
        | .full => some (coalesced m (column s depth k l))
      else none) (column s depth i j)

/-- The meaning that a name has in a query. -/
inductive Result where
  | found (m : Meaning)
  | ambiguous
  | nothing

/-- Looks a name up in a query. -/
def inScope (s : Scope) (depth : Nat) (database table : Option String)
    (name : String) : Result :=
  match s.matching database table name with
  | [] =>
    let isAllowed := s.ground ≠ .index && s.ground ≠ .computed
    match if Scope.isNumberName name && isAllowed then s.numbered database table
      else [] with
    | [i] =>
      .found (match (s.sources.getD i default).numberColumn with
        | some j => column s depth i j
        | none => number depth i)
    | _ :: _ :: _ => .ambiguous
    | [] =>
      match if table.isNone then s.results.find? fun (n, _) => isSame n name
        else none with
      | some (_, m) => .found (m.lifted depth)
      | none => .nothing
  | found =>
    match merged? s depth name found with
    | some m => .found m
    | none => .ambiguous

/-- Looks a name up from the inside to the outside. -/
def outward (database table : Option String) (name : String) :
    Nat → List Scope → Result
  | _, [] => .nothing
  | depth, s :: rest =>
    match inScope s depth database table name with
    | .nothing => outward database table name (depth + 1) rest
    | r => r

/-- A name with what stands in front of it. -/
def shown (database table : Option String) (name : String) : String :=
  (database.elim "" (· ++ ".")) ++ (table.elim "" (· ++ ".")) ++ name

end Lookup

/-- The meaning of a name. -/
def Context.name (cx : Context) (database table : Option String)
    (column : String) (isQuoted : Bool) : Build Meaning := do
  match Lookup.outward database table column 0 cx.scopes with
  | .found m =>
    m.uses.forM fun (depth, _) => Build.use depth
    if m.isAggregate && !cx.scope.allowsAggregates then
      if cx.scope.isGathering then
        Build.refuse ("misuse of aggregate: " ++ m.function ++ "()")
      else Build.refuse ("misuse of aliased aggregate " ++ column)
    if m.isWindow && !cx.scope.allowsWindows then
      Build.refuse ("misuse of aliased window function " ++ column)
    return m
  | .ambiguous => Build.refuse ("ambiguous column name: " ++
      Lookup.shown database table column)
  | .nothing =>
    if isQuoted && table.isNone then return .constant (.text column)
    else if table.isNone && isSame column "true" then
      return { Meaning.constant (.integer 1) with truth := some true }
    else if table.isNone && isSame column "false" then
      return { Meaning.constant (.integer 0) with truth := some false }
    else throw (.refused (.noSuchColumn (Lookup.shown database table column)))

end Bytecode.Database
