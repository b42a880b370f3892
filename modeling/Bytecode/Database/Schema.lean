import Bytecode.Database.Box
import Bytecode.Database.Search
import Bytecode.Database.Statement

/-!
# What is in a database

Tables with their columns, keys and indexes, views, and rules that are carried
out when rows change.  All of it is kept by name; where a tree of rows begins is
known by a page.
-/

namespace Bytecode.Database

/-- Whether two names are one, in either case. -/
def isSame (a b : String) : Bool := Token.lowered a = Token.lowered b

/-- A column of a table. -/
structure Column where
  name : String
  /-- The type as it is written. -/
  type : String := ""
  affinity : Affinity := .plain
  collation : Collation := .binary
  /-- What is done with null, if it is no value of the column. -/
  required : Option Policy := none
  /-- The value of a row that does not say any. -/
  fallback : Option Expr := none
  /-- The text of that. -/
  fallbackText : Option String := none
  /-- How the value comes from the others, if it does. -/
  computed : Option Expr := none
  /-- Whether values are written down. -/
  isStored : Bool := true
  /-- Whether it is left out when all columns are asked for. -/
  isHidden : Bool := false
  deriving Inhabited

/-- A part of what rows can be found by. -/
structure IndexPart where
  /-- The column that it is, if it is one. -/
  column : Option Nat := none
  value : Expr
  collation : Collation := .binary
  isDescending : Bool := false
  deriving Inhabited

/-- What an index was made for. -/
inductive IndexOrigin where
  | statement
  | unique
  | primary
  deriving DecidableEq, Repr, Inhabited

/-- What rows can be found by. -/
structure Index where
  name : String
  root : Nat := 0
  parts : List IndexPart
  isUnique : Bool := false
  onConflict : Option Policy := none
  /-- Which rows are in the index. -/
  condition : Option Expr := none
  origin : IndexOrigin := .statement
  deriving Inhabited

/-- A question that no row may answer with no. -/
structure Check where
  /-- The name of the clause, or its text. -/
  label : String
  question : Expr
  deriving Inhabited

/-- Columns whose values together must occur in another table. -/
structure Dependence where
  columns : List Nat
  table : String
  /-- The columns there; none stands for the primary key. -/
  targets : List String := []
  onDelete : Following := .nothing
  onUpdate : Following := .nothing
  /-- Whether that is looked at only when a transaction ends. -/
  isDeferred : Bool := false
  deriving DecidableEq, Inhabited

/-- How the rows of a table are kept. -/
inductive TableForm where
  /-- In a tree of its own. -/
  | rows
  /-- As texts that can be searched, in tables beside it. -/
  | texts (s : SearchForm)
  /-- As boxes, in tables beside it. -/
  | boxes (b : BoxForm)
  deriving DecidableEq, Repr

instance : Inhabited TableForm := ⟨.rows⟩

/-- A table. -/
structure Table where
  name : String
  /-- The place of its database among those of the connection. -/
  store : Nat := 0
  root : Nat := 0
  columns : Array Column := #[]
  /-- The indexes, in the order in which they are looked at. -/
  indexes : List Index := []
  /-- The column that is the number of the row. -/
  numberColumn : Option Nat := none
  /-- What is done with a row whose number is taken. -/
  onNumber : Option Policy := none
  /-- Whether rows are numbered. -/
  isNumbered : Bool := true
  /-- Whether columns hold values of their types only. -/
  isStrict : Bool := false
  /-- Whether numbers are never used again. -/
  isCounting : Bool := false
  /-- The columns of the primary key. -/
  primary : List Nat := []
  checks : List Check := []
  dependences : List Dependence := []
  form : TableForm := .rows
  deriving Inhabited

/-- A query with a name. -/
structure View where
  name : String
  store : Nat := 0
  columns : List String := []
  query : Query
  deriving Inhabited

/-- Something that is done when rows change. -/
structure Rule where
  name : String
  store : Nat := 0
  text : RuleText

/-- What is in a database. -/
structure Schema where
  tables : List Table := []
  views : List View := []
  rules : List Rule := []
  deriving Inhabited

namespace Schema

/-- The table with a name. -/
def table? (s : Schema) (name : String) : Option Table :=
  s.tables.find? fun t => isSame t.name name

/-- The view with a name. -/
def view? (s : Schema) (name : String) : Option View :=
  s.views.find? fun v => isSame v.name name

/-- The rule with a name. -/
def rule? (s : Schema) (name : String) : Option Rule :=
  s.rules.find? fun r => isSame r.name name

/-- The index with a name, and its table. -/
def index? (s : Schema) (name : String) : Option (Table × Index) :=
  s.tables.findSome? fun t =>
    (t.indexes.find? fun i => isSame i.name name).map (t, ·)

/-- A schema with another table in place of the one with its name. -/
def replace (s : Schema) (t : Table) : Schema :=
  { s with
    tables := s.tables.map fun x => if isSame x.name t.name then t else x }

end Schema

namespace Table

/-- The place of the column with a name. -/
def column? (t : Table) (name : String) : Option Nat :=
  t.columns.toList.findIdx? fun c => isSame c.name name

/-- A column. -/
def column (t : Table) (n : Nat) : Column := t.columns.getD n default

/-- The name of a column behind that of the table. -/
def fullName (t : Table) (n : Nat) : String :=
  t.name ++ "." ++ (t.column n).name

/-- The places of all columns. -/
def places (t : Table) : List Nat := List.range t.columns.size

/-- The columns that are not computed. -/
def given (t : Table) : List Nat :=
  t.places.filter fun n => (t.column n).computed.isNone

/-- Whether the rows are kept in tables beside it. -/
def isVirtual (t : Table) : Bool := t.form ≠ .rows

/-- The columns that are not left out when all are asked for. -/
def shown (t : Table) : List Nat :=
  t.places.filter fun n => !(t.column n).isHidden

/-- The columns in the order in which they are written down. -/
def written (t : Table) : List Nat :=
  let stored := t.places.filter fun n => (t.column n).isStored
  if t.isNumbered then stored
  else t.primary ++ stored.filter fun n => !t.primary.contains n

/-- The index of the primary key. -/
def primaryIndex? (t : Table) : Option Index :=
  t.indexes.find? fun i => i.origin = .primary

/-- The indexes that have trees of their own beside the tree of the rows. -/
def ownIndexes (t : Table) : List Index :=
  if t.isNumbered then t.indexes
  else t.indexes.filter fun i => i.origin ≠ .primary

/-- The parts that make rows of an index differ: its own, and what finds the row
of the table. -/
def keyParts (t : Table) (i : Index) : List IndexPart :=
  if t.isNumbered then i.parts
  else
    let primary := ((t.primaryIndex?.map (·.parts)).getD [])
    i.parts ++ primary.filter fun p =>
      !i.parts.any fun q => q.column.isSome && q.column = p.column &&
        q.collation = p.collation

end Table

namespace Index

/-- Orders for indexes: the newest one stands first, but those that replace rows
stand last. -/
def arrange (new : Index) (old : List Index) : List Index :=
  let all := new :: old
  all.filter (fun i => i.onConflict ≠ some .replace) ++ all.filter fun i =>
    i.onConflict = some .replace

end Index

end Bytecode.Database
