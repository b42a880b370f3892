import Bytecode.Database.Value

/-!
# Expressions and queries

An expression computes a value from literals, from columns and from queries; a
query makes rows from tables, from other queries and from expressions.  Both are
kept as they are written: names are looked up later, where it is known what
stands around them.
-/

namespace Bytecode.Database

/-- The name of a table, perhaps behind the name of a database. -/
structure TableName where
  database : Option String := none
  name : String
  deriving DecidableEq, Repr, Inhabited

/-- The name as it is shown. -/
def TableName.text (t : TableName) : String :=
  match t.database with
  | some d => d ++ "." ++ t.name
  | none => t.name

/-- An operator in front of a value. -/
inductive Unary where
  | negate
  | affirm
  | complement
  | not
  deriving DecidableEq, Repr

/-- An operator between two values. -/
inductive Binary where
  | or
  | and
  | equal
  | different
  | less
  | lessOrEqual
  | greater
  | greaterOrEqual
  /-- The same, null being the same as null. -/
  | same
  | distinct
  | bitAnd
  | bitOr
  | shiftLeft
  | shiftRight
  | add
  | subtract
  | multiply
  | divide
  | remainder
  /-- Texts one behind the other. -/
  | join
  /-- A part of a document. -/
  | part
  /-- The value of a part of a document. -/
  | partValue
  deriving DecidableEq, Repr

/-- Ways to ask whether a text has a form. -/
inductive Pattern where
  | like
  | glob
  | regexp
  | search
  deriving DecidableEq, Repr

/-- What happens when a rule refuses a change. -/
inductive Refusing where
  /-- The change is left out. -/
  | ignore
  /-- The statement is undone. -/
  | abort
  /-- The statement ends, and what it has done stays. -/
  | fail
  /-- The transaction is undone. -/
  | rollback
  deriving DecidableEq, Repr

/-- How rows of two tables are brought together. -/
inductive JoinKind where
  | inner
  | left
  | right
  | full
  deriving DecidableEq, Repr

/-- How rows of two queries are brought together. -/
inductive Compound where
  | union
  | unionAll
  | intersect
  | except
  deriving DecidableEq, Repr

/-- What the bounds of a frame count. -/
inductive FrameUnit where
  | rows
  | range
  | groups
  deriving DecidableEq, Repr

/-- What is left out of a frame. -/
inductive Exclusion where
  | nothing
  | current
  | group
  | ties
  deriving DecidableEq, Repr

mutual

/-- An expression. -/
inductive Expr where
  | literal (v : Value)
  /-- A number as it is written. -/
  | number (text : String)
  /-- A column.  One between double quotes may also be a text. -/
  | name (database table : Option String) (column : String) (isQuoted : Bool)
  /-- A place that a value is put into. -/
  | place (text : String)
  | unary (op : Unary) (a : Expr)
  | binary (op : Binary) (a b : Expr)
  /-- Whether a value is null, or is not. -/
  | isNull (isNot : Bool) (a : Expr)
  | between (isNot : Bool) (a low high : Expr)
  | amongValues (isNot : Bool) (a : Expr) (items : List Expr)
  | amongRows (isNot : Bool) (a : Expr) (q : Query)
  | amongTable (isNot : Bool) (a : Expr) (table : TableName)
  | pattern (op : Pattern) (isNot : Bool) (a b : Expr) (escape : Option Expr)
  | exists (q : Query)
  /-- The first row of a query. -/
  | row (q : Query)
  | choice (subject : Option Expr) (cases : List (Expr × Expr))
    (otherwise : Option Expr)
  | call (c : Call)
  | cast (a : Expr) (type : String)
  | collate (a : Expr) (name : String)
  /-- Several values together. -/
  | list (items : List Expr)
  | raise (action : Refusing) (message : Option Expr)

/-- The use of a function. -/
structure Call where
  name : String
  args : List Expr := []
  /-- Whether the function is used on whole rows. -/
  isStar : Bool := false
  isDistinct : Bool := false
  order : List OrderItem := []
  filter : Option Expr := none
  window : Option Window := none

/-- Something that rows are ordered by. -/
structure OrderItem where
  value : Expr
  isDescending : Bool := false
  /-- Whether null comes first, if that is said. -/
  nullsFirst : Option Bool := none

/-- The rows that a function looks at beside its own. -/
structure Window where
  base : Option String := none
  partition : List Expr := []
  order : List OrderItem := []
  frame : Option Frame := none

/-- The part of a window that a row sees. -/
structure Frame where
  unit : FrameUnit := .range
  start : FrameBound
  stop : FrameBound
  exclude : Exclusion := .nothing

/-- An end of a frame. -/
inductive FrameBound where
  | unboundedPreceding
  | preceding (n : Expr)
  | current
  | following (n : Expr)
  | unboundedFollowing

/-- A query. -/
structure Query where
  /-- Queries that have names in this one. -/
  named : List NamedQuery := []
  isRecursive : Bool := false
  first : Core
  rest : List (Compound × Core) := []
  order : List OrderItem := []
  limit : Option Expr := none
  offset : Option Expr := none

/-- A query with a name. -/
structure NamedQuery where
  name : String
  columns : List String := []
  query : Query

/-- A query that is not put together from others. -/
inductive Core where
  | select (s : Select)
  | values (rows : List (List Expr))

/-- What a query makes of rows. -/
structure Select where
  isDistinct : Bool := false
  items : List Item
  sources : List Source := []
  condition : Option Expr := none
  group : List Expr := []
  having : Option Expr := none
  windows : List (String × Window) := []

/-- Something that a query shows. -/
inductive Item where
  | all
  | allOf (table : String)
  /-- An expression with the name it is given and the text it is written as. -/
  | value (e : Expr) (name : Option String) (text : String)

/-- Where rows come from. -/
structure Source where
  content : SourceContent
  /-- The name that is given to it. -/
  label : Option String := none
  /-- How the rows are brought together with those in front. -/
  kind : JoinKind := .inner
  isNatural : Bool := false
  /-- Whether the order of the tables is meant. -/
  isCross : Bool := false
  condition : Option Expr := none
  /-- Columns that are one with columns in front. -/
  shared : List String := []
  /-- The index that rows are to be found by. -/
  index : Option String := none

/-- What rows come from. -/
inductive SourceContent where
  | table (name : TableName)
  | function (name : TableName) (args : List Expr)
  | query (q : Query)
  | sources (s : List Source)

end

instance : Inhabited Expr := ⟨.literal .null⟩

instance : Inhabited Query := ⟨{ first := .values [] }⟩

end Bytecode.Database
