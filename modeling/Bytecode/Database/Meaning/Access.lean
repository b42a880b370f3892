import Bytecode.Database.Link
import Bytecode.Database.Meaning.Expr
import Bytecode.Database.Shadow

/-!
# Reading tables

The rows of a table are read from its tree, or found by an index.  A row that
ends before a column has the value that the column has for want of another;
columns that are computed and not written down get their values from the others.

The rows of a table may break its own rules, if these did not count when the
rows were written, or depend on rows that are not there: an inspection looks for
such rows.
-/

namespace Bytecode.Database

namespace IndexPart

/-- How a part counts in the order of its index. -/
def key (p : IndexPart) : SortKey :=
  { collation := p.collation, isDescending := p.isDescending,
    nullsFirst := !p.isDescending }

end IndexPart

/-- Where an entry of an index stands, seen from values for its first parts. -/
def positionOf (e : Encoding) (keys : List SortKey) (wanted : List Value)
    (entry : Entry) : Except Failure Ordering := do
  let fields := Record.fields e entry.payload
  let found ← (List.range (min keys.length wanted.length)).mapM fun n =>
    fields.get n .null
  return SortKey.orderAll e keys found wanted

namespace Link

/-- Whether values that a row of the child has are the key of a row of the
parent; what is null is not looked for. -/
def isKey (l : Link) (world : World) (values : List Value) :
    Except Failure Bool := do
  let pages := (world.store l.parent.store).pages
  if values.contains .null then return true
  if pages.isBlank then return false
  let fitted : List Value := (l.pairs.zip values).map fun ((_, p), v) =>
    (l.parent.column p).affinity.apply v
  match l.index with
  | none =>
    match fitted with
    | [.integer n] => return (← Tree.find? pages l.parent.root n).isSome
    | _ => return false
  | some i =>
    let isRows : Bool := !l.parent.isNumbered && i.origin = .primary
    let keys := i.parts.map IndexPart.key
    let walk := Tree.walk pages .index (if isRows then l.parent.root else
        i.root) (some (positionOf world.encoding keys fitted))
    match walk.entries[0]?, walk.failure with
    | some _, _ => return true
    | none, none => return false
    | none, some f => throw f

end Link

/-- A table as it can be read. -/
structure TablePlan where
  table : Table
  /-- The values of columns that rows may lack. -/
  fallbacks : Array Value := #[]
  /-- Columns that are computed when they are read. -/
  computed : List (Nat × Meaning) := []
  deriving Inhabited

namespace TablePlan

/-- How a table looks to names. -/
def scopeOf (t : Table) : ScopeSource where
  label := some t.name
  columns := t.columns.map fun c =>
    { name := c.name, affinity := some c.affinity,
      collation := some c.collation, type := c.type, isHidden := c.isHidden }
  hasNumber := t.isNumbered
  numberColumn := t.numberColumn
  search := match t.form with
    | .texts s => some s
    | _ => none

/-- A row with its computed columns; they may speak of each other, so they are
computed as often as there are columns of this kind. -/
def complete (p : TablePlan) (env : Env) (r : Row) : Row :=
  let step (r : Row) : Row := p.computed.foldl (fun (r : Row) (n, m) =>
    let affinity := (p.table.column n).affinity
    let v :=
      (m.eval { env with levels := [{ rows := #[r] }] }).map affinity.apply
    { r with values := r.values.setIfInBounds n v }) r
  if p.computed.isEmpty then r
  else (List.range p.computed.length).foldl (fun r _ => step r) r

/-- A value as a column shows it: a column of doubles shows whole numbers as
doubles. -/
def shownAs (c : Column) (v : Value) : Value :=
  match c.affinity, v with
  | .real, .integer _ => c.affinity.apply v
  | _, v => v

/-- The row with a number whose written values are given by their places. -/
def assemble (p : TablePlan) (env : Env) (number : Value)
    (written : Nat → Option (Except Stop Value)) : Row :=
  let t := p.table
  let order := t.written
  let values := t.columns.mapIdx fun n c =>
    if t.numberColumn = some n then .ok number
    else
      match (order.findIdx? (· = n)).bind written with
      | some v => v.map (shownAs c)
      | none => .ok .null
  p.complete env { number, values }

/-- The row in an entry of the tree of a table. -/
def row (p : TablePlan) (env : Env) (entry : Entry) : Row :=
  let t := p.table
  let order := t.written.toArray
  let fields := Record.fields env.encoding entry.payload
  p.assemble env (if t.isNumbered then .integer entry.number else
      .null) fun k =>
    let fallback := p.fallbacks.getD (order.getD k 0) .null
    some ((fields.get k fallback).mapError .ofFailure)

/-- The kind of the tree of a table. -/
def kind (t : Table) : TreeKind := if t.isNumbered then .table else .index

/-- The pages that a table is on. -/
def pages (p : TablePlan) (env : Env) : Pages :=
  (env.world.store p.table.store).pages

/-- A walk through a tree as a flow. -/
def flowOf (w : Tree.Walk) : Flow Entry :=
  { items := w.entries, stop := w.failure.map .ofFailure }

/-- A row that is kept in other tables. -/
def shadowRow (number : Int) (values : List Value) : Row :=
  Row.ofValues (.integer number) values.toArray

/-- All rows of a table. -/
def rows (p : TablePlan) (env : Env) : Flow Row :=
  let pages := p.pages env
  if pages.isBlank then {}
  else if p.table.isVirtual then .ofExcept do
    let found ← (Shadow.rows env.world p.table).mapError Stop.ofFailure
    return { items := (found.map fun (n, vs) => shadowRow n vs).toArray }
  else
    let entries := flowOf (Tree.walk pages (kind p.table) p.table.root none)
    { items := entries.items.map (p.row env), stop := entries.stop }

/-- The row with a number. -/
def byNumber (p : TablePlan) (env : Env) (number : Int) :
    Except Stop (Option Row) :=
  let pages := p.pages env
  if pages.isBlank then .ok none
  else if p.table.isVirtual then do
    let found ← (Shadow.row? env.world p.table number).mapError Stop.ofFailure
    return found.map (shadowRow number)
  else ((Tree.find? pages p.table.root number).map
    (·.map (p.row env))).mapError .ofFailure

/-- How the tree of a table without numbers is ordered. -/
def primaryKeys (t : Table) : List SortKey :=
  ((t.primaryIndex?.map (·.parts)).getD []).map IndexPart.key

/-- The rows with given values in the primary key, for a table without
numbers. -/
def byPrimary (p : TablePlan) (env : Env) (wanted : List Value) : Flow Row :=
  let keys := primaryKeys p.table
  let entries := flowOf (Tree.walk (p.pages env) .index p.table.root
    (some (positionOf env.encoding keys wanted)))
  { items := entries.items.map (p.row env), stop := entries.stop }

/-- The row that an entry of an index leads to.  Columns that the index has are
taken from there; the others are missing if the row is. -/
def rowBehind (p : TablePlan) (env : Env) (i : Index) (entry : Entry) :
    Except Stop Row := do
  let t := p.table
  let fields := Record.fields env.encoding entry.payload
  let parts := t.keyParts i
  let inIndex : List (Nat × Nat) :=
    parts.zipIdx.filterMap fun (part, k) => part.column.map (·, k)
  let get (k : Nat) : Except Stop Value :=
    (fields.get k .null).mapError .ofFailure
  let missing : Row :=
    { values := Array.replicate t.columns.size
        (.error (.ofFailure .malformed)) }
  let found ←
    if t.isNumbered then
      match ← get i.parts.length with
      | .integer n =>
        let row := match p.byNumber env n with
          | .ok (some r) => r
          | .ok none => missing
          | .error s => { missing with
              values := Array.replicate t.columns.size (.error s) }
        pure { row with number := .integer n }
      | _ => throw (.ofFailure .malformed)
    else
      let wanted ← t.primary.mapM fun n =>
        match inIndex.lookup n with
        | some k => get k
        | none => .error (.ofFailure .malformed)
      pure (((p.byPrimary env wanted).items[0]?).getD missing)
  let values := found.values.mapIdx fun n v =>
    match inIndex.lookup n with
    | some k => if t.numberColumn = some n then v else
        (get k).map (shownAs (t.column n))
    | none => if t.numberColumn = some n then .ok found.number else v
  return { found with values }

/-- The rows that an index has for values of its first parts. -/
def byIndex (p : TablePlan) (env : Env) (i : Index) (wanted : List Value) :
    Flow Row :=
  let keys := (p.table.keyParts i).map IndexPart.key
  let entries := flowOf (Tree.walk (p.pages env) .index i.root
    (some (positionOf env.encoding keys wanted)))
  entries.mapExcept (p.rowBehind env i)

end TablePlan

namespace Access

/-- The scope of what is said about the rows of a table itself. -/
def own (world : World) (t : Table) (ground : Ground) : Context :=
  { world, scopes := [{ sources := #[TablePlan.scopeOf t], ground }],
    home := some t.store }

/-- The value that a column has if no other is given. -/
def fallback (mk : Maker) (world : World) (c : Column) : Build Meaning := do
  match c.fallback with
  | none => return .constant .null
  | some x => mk.expr { world } x

/-- How a table is read. -/
def plan (mk : Maker) (world : World) (t : Table) : Build TablePlan := do
  let env : Env := .ofWorld world
  let fallbacks ← t.columns.mapM fun c => do
    let (m, _) ← Build.inside (fallback mk world c)
    return match m.eval env with
      | .ok v => c.affinity.apply v
      | .error _ => .null
  let computed ← (t.places.filter fun n => !(t.column n).isStored).mapM
    fun n => do
    let (m, _) ← Build.inside (mk.expr (own world t .computed)
      ((t.column n).computed.getD (.literal .null)))
    return (n, m)
  return { table := t, fallbacks, computed }

end Access

/-! ### Looking for what is wrong -/

namespace Inspection

/-- The failure behind what stopped. -/
def cause : Stop → Failure
  | .skip => .malformed
  | .failed f _ => f

/-- The rows of a table with their values. -/
def rows (p : TablePlan) (env : Env) :
    Except Failure (List (Row × Array Value)) := do
  let found ← (p.rows env).all.mapError cause
  found.toList.mapM fun r => do return (r, ← r.all.mapError cause)

/-- The rows of a table that do not find what they depend on: their numbers,
with the places of the dependences. -/
def strays (mk : Maker) (w : World) (t : Table) :
    Except Failure (List (Value × Nat)) := do
  if t.dependences.isEmpty then return []
  let (p, _) ← (Access.plan mk w t).run []
  let links ← t.dependences.mapM (Link.ofChild? w t)
  let found ← (← rows p (.ofWorld w)).mapM fun (r, values) =>
    (t.dependences.zip links).zipIdx.filterMapM fun ((d, l?), place) => do
      let get (n : Nat) : Value := values.getD n .null
      let isFound ← match l? with
        | some l => l.isKey w (l.pairs.map fun (c, _) => get c)
        | none => pure ((d.columns.map get).contains .null)
      return if isFound then none else some (r.number, place)
  return found.flatten

/-- Whether a value is of a kind that a column would not have kept. -/
def isMisplaced (c : Column) (v : Value) : Bool :=
  match c.affinity, v with
  | .text, .integer _ | .text, .real _ => true
  | .plain, _ | .text, _ => false
  | a, .text s => a.apply (.text s) ≠ .text s
  | _, _ => false

/-- What is wrong with a value of a column. -/
def faultOf (t : Table) (n : Nat) (v : Value) : Option String :=
  let c := t.column n
  let place := t.fullName n
  if v = .null then
    if c.required.isSome then some ("NULL value in " ++ place) else none
  else if t.isStrict then none
  else if isMisplaced c v then
    some ((if c.affinity = .text then "NUMERIC value in " else
        "TEXT value in ") ++ place)
  else none

/-- What is wrong with the rows of a table. -/
def faults (mk : Maker) (w : World) (t : Table) :
    Except Failure (List String) := do
  if t.isVirtual then return []
  let (p, _) ← (Access.plan mk w t).run []
  let checks ← if w.switches.ignoresChecks then pure [] else
      t.checks.mapM fun c => do
    let (m, _) ← (mk.expr (Access.own w t .check) c.question).run []
    return m
  let env : Env := .ofWorld w
  let found ← (← rows p env).mapM fun (r, values) => do
    let own := t.places.filterMap fun n =>
      if t.numberColumn = some n then none
      else faultOf t n (values.getD n .null)
    let answers ← checks.mapM fun m =>
      (m.answer { env with levels := [{ rows := #[r] }] }).mapError cause
    return own ++ if answers.contains
          (some false) then ["CHECK constraint failed in " ++ t.name] else []
  return found.flatten

end Inspection

end Bytecode.Database
