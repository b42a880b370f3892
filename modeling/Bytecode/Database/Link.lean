import Bytecode.Database.Operator
import Bytecode.Database.World

/-!
# Tables that depend on others

Columns of a table may repeat the key of another one: the number of its rows, or
the parts of an index in which no two rows agree.  A dependence makes sense only
if the other table has such a key.
-/

namespace Bytecode.Database

/-- A dependence with the key that it leads to. -/
structure Link where
  child : Table
  dependence : Dependence
  parent : Table
  /-- The columns of the two tables that have the same values. -/
  pairs : List (Nat × Nat)
  /-- The index of the key; it is the number of the row if there is none. -/
  index : Option Index := none

namespace Link

/-- The key of a table that columns of another depend on: with their own columns
the index of the key, if it is one. -/
def key? (parent : Table) (d : Dependence) :
    Option (List (Nat × Nat) × Option Index) :=
  let isNumber : Option Nat := do
    let n ← parent.numberColumn
    if d.columns.length = 1 && d.targets.all fun name =>
        isSame name (parent.column n).name then some n else none
  match isNumber with
  | some n => some (d.columns.map fun c => (c, n), none)
  | none => parent.indexes.findSome? fun i =>
    if i.parts.length ≠ d.columns.length || !i.isUnique ||
        i.condition.isSome then none
    else if d.targets.isEmpty then
      if i.origin = .primary then
        some (d.columns.zip (i.parts.map fun p => p.column.getD 0), some i)
      else none
    else
      let pairs := i.parts.filterMap fun p => do
        let n ← p.column
        if p.collation ≠ (parent.column n).collation then none
        let (_, c) ← (d.targets.zip d.columns).find? fun (name, _) =>
          isSame name (parent.column n).name
        return (c, n)
      if pairs.length = i.parts.length then some (pairs, some i) else none

/-- A dependence of a table, with a table that it leads to. -/
def between (child parent : Table) (d : Dependence) : Except Failure Link :=
  match key? parent d with
  | some (pairs, index) => .ok { child, dependence := d, parent, pairs, index }
  | none => .error (.refused (.noKeyThere child.name d.table))

/-- What a table depends on, if it is there; a view has no key. -/
def ofChild? (world : World) (child : Table) (d : Dependence) :
    Except Failure (Option Link) :=
  let schema := (world.store child.store).schema
  match schema.table? d.table, schema.view? d.table with
  | some parent, _ => (between child parent d).map some
  | none, some _ => .error (.refused (.noKeyThere child.name d.table))
  | none, none => .ok none

/-- What a table depends on. -/
def ofChild (world : World) (child : Table) (d : Dependence) :
    Except Failure Link := do
  match ← ofChild? world child d with
  | some l => return l
  | none => throw (.refused
      (.noSuchTable ((world.store child.store).name ++ "." ++ d.table)))

/-- The dependences on a table, with the tables that have them. -/
def onTable (world : World) (parent : Table) : List (Table × Dependence) :=
  (world.store parent.store).schema.tables.flatMap fun child =>
    (child.dependences.filter fun d => isSame d.table parent.name).map
      (child, ·)

/-- The columns of a table that a dependence on it is about. -/
def meantBy (parent : Table) (d : Dependence) : List Nat :=
  if d.targets.isEmpty then parent.primary
  else d.targets.filterMap parent.column?

/-- Whether a key of the parent and values of the child are the same. -/
def agree (l : Link) (e : Encoding) (key repeated : List Value) : Bool :=
  ((l.pairs.zip key).zip repeated).all fun (((c, p), x), y) =>
    let parent := l.parent.column p
    let affinity :=
      Operator.common (some parent.affinity) (some (l.child.column c).affinity)
    Operator.compared e parent.collation affinity .equal x y = some true

/-- Whether two tables are one. -/
def isOneTable (a b : Table) : Bool := a.store = b.store && isSame a.name b.name

/-- Fails if a table depends on one that is there and has no such key. -/
def checkAll (world : World) (child : Table) : Except Failure Unit :=
  child.dependences.forM fun d => (ofChild? world child d).map fun _ => ()

end Link

end Bytecode.Database
