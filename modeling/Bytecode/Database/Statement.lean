import Bytecode.Database.Expr
import Bytecode.Database.Failure

/-!
# Statements

A statement sets a switch, makes, changes or drops something in a database,
changes the rows of a table or looks at them, or opens and closes a transaction.
-/

namespace Bytecode.Database

/-- What is done with a row that cannot stand where it should. -/
inductive Policy where
  | rollback
  | abort
  | fail
  /-- The row is left out. -/
  | ignore
  /-- The row takes the place of those it cannot stand beside. -/
  | replace
  deriving DecidableEq, Repr

/-- How a transaction begins. -/
inductive Begin where
  | deferred
  | immediate
  | exclusive
  deriving DecidableEq, Repr

/-- A directive: a name, perhaps behind the name of a database, and perhaps a
value. -/
structure Directive where
  /-- The database, as it is written. -/
  database : Option Token := none
  name : String
  value : Option String := none
  deriving DecidableEq, Repr

/-- What happens to rows that depend on a row which goes or changes. -/
inductive Following where
  | nothing
  | restrict
  | setNull
  | setDefault
  | cascade
  deriving DecidableEq, Repr

/-- What columns depend on. -/
structure Reference where
  table : String
  columns : List String := []
  onDelete : Following := .nothing
  onUpdate : Following := .nothing
  isDeferred : Bool := false
  deriving DecidableEq, Repr

/-- A clause about a column. -/
inductive ColumnClause where
  | label (name : String)
  /-- The value of a row that does not say any. -/
  | fallback (text : String) (e : Expr)
  | nullable
  | required (onConflict : Option Policy)
  | primary (isDescending : Bool) (onConflict : Option Policy)
    (isCounting : Bool)
  | unique (onConflict : Option Policy)
  | check (text : String) (e : Expr)
  | references (r : Reference)
  | deferral (isDeferred : Bool)
  | collation (name : String)
  /-- How the value comes from others, and whether it is written down; nothing
  stands for a word that does not say so. -/
  | computed (e : Expr) (isStored : Option Bool)

/-- A column as it is written. -/
structure ColumnText where
  name : String
  type : String
  clauses : List ColumnClause

/-- A part of what rows can be found by. -/
structure PartText where
  value : Expr
  isDescending : Bool := false
  /-- Whether it is said where null comes. -/
  saysNulls : Option Bool := none

/-- A clause about a table. -/
inductive TableClause where
  | label (name : String)
  | primary (parts : List PartText) (isCounting : Bool)
    (onConflict : Option Policy)
  | unique (parts : List PartText) (onConflict : Option Policy)
  | check (text : String) (e : Expr)
  | references (columns : List String) (r : Reference)

/-- A word about a table as a whole. -/
inductive TableOption where
  /-- Rows are not numbered. -/
  | unnumbered
  | strict
  | unknown (name : String)
  deriving DecidableEq

/-- A table as it is written. -/
structure TableText where
  columns : List ColumnText
  clauses : List TableClause
  options : List TableOption := []

/-- What an insertion puts in. -/
inductive Inserted where
  | rows (q : Query)
  | defaults

/-- Columns and their new value. -/
structure Assignment where
  columns : List String
  value : Expr
  /-- Whether several columns stand between parentheses. -/
  isList : Bool := false

/-- What is done with a row that is there already. -/
structure Upsert where
  target : List PartText := []
  targetCondition : Option Expr := none
  /-- The new values; there are none if nothing is done. -/
  changes : Option (List Assignment) := none
  condition : Option Expr := none

/-- An insertion. -/
structure Insert where
  named : List NamedQuery := []
  isRecursive : Bool := false
  policy : Option Policy := none
  table : TableName
  label : Option String := none
  columns : Option (List String) := none
  content : Inserted
  upserts : List Upsert := []
  returning : List Item := []

/-- A change of rows. -/
structure Update where
  named : List NamedQuery := []
  isRecursive : Bool := false
  policy : Option Policy := none
  table : TableName
  label : Option String := none
  /-- The index that rows are to be found by. -/
  index : Option String := none
  changes : List Assignment
  sources : List Source := []
  condition : Option Expr := none
  returning : List Item := []

/-- A removal of rows. -/
structure Delete where
  named : List NamedQuery := []
  isRecursive : Bool := false
  table : TableName
  label : Option String := none
  /-- The index that rows are to be found by. -/
  index : Option String := none
  condition : Option Expr := none
  returning : List Item := []

/-- When a rule is carried out. -/
inductive RuleTime where
  | before
  | after
  | instead
  deriving DecidableEq, Repr

/-- What a rule is about. -/
inductive RuleEvent where
  | insert
  | delete
  /-- A change of some columns, or of any if none are named. -/
  | update (columns : Option (List String))
  deriving DecidableEq, Repr

/-- What a rule does. -/
inductive RuleStep where
  | insert (s : Insert)
  | update (s : Update)
  | delete (s : Delete)
  | select (q : Query)

/-- A rule as it is written. -/
structure RuleText where
  time : RuleTime := .before
  event : RuleEvent
  table : TableName
  condition : Option Expr := none
  steps : List RuleStep

/-- An index as it is written. -/
structure IndexText where
  table : String
  parts : List PartText
  isUnique : Bool := false
  condition : Option Expr := none

/-- What stands in a database. -/
inductive PartKind where
  | table
  | index
  | view
  | trigger
  deriving DecidableEq, Repr

/-- The name of a kind of parts. -/
def PartKind.name : PartKind → String
  | .table => "table"
  | .index => "index"
  | .view => "view"
  | .trigger => "trigger"

/-- What is changed about a table. -/
inductive Alteration where
  | rename (name : String)
  | renameColumn (old new : String)
  | addColumn (column : ColumnText) (text : String)
  | dropColumn (name : String)

/-- A table that is not a tree of its own: how it is kept, and what is said
about that. -/
structure VirtualText where
  method : String
  arguments : List String := []
  deriving DecidableEq, Repr, Inhabited

/-- The beginning of a statement that is checked before the rest of it is
read. -/
inductive Beginning where
  | table (isTemporary ifMissing : Bool) (name : TableName)
  | virtual (ifMissing : Bool) (name : TableName)
  /-- A rule up to what it does. -/
  | rule (isTemporary ifMissing : Bool) (name : TableName) (rule : RuleText)
  /-- A column that is to be added. -/
  | column (table : TableName)

/-- A statement.  What makes something also has its text, from the name on. -/
inductive Statement where
  | directive (d : Directive)
  | createTable (isTemporary ifMissing : Bool) (name : TableName)
    (table : TableText) (text : String)
  /-- A statement of which only the beginning can be read. -/
  | broken (start : Beginning) (r : Refusal)
  | createTableAs (isTemporary ifMissing : Bool) (name : TableName) (q : Query)
  | createIndex (ifMissing : Bool) (name : TableName) (index : IndexText)
    (text : String)
  | createView (isTemporary ifMissing : Bool) (name : TableName)
    (columns : List String) (q : Query) (text : String)
  | createRule (isTemporary ifMissing : Bool) (name : TableName)
    (rule : RuleText) (text : String)
  | createVirtual (ifMissing : Bool) (name : TableName) (table : VirtualText)
    (text : String)
  | drop (kind : PartKind) (ifThere : Bool) (name : TableName)
  | alter (table : TableName) (a : Alteration)
  | insert (s : Insert)
  | update (s : Update)
  | delete (s : Delete)
  | select (q : Query)
  | begin (b : Begin)
  | commit
  | rollback
  | savepoint (name : String)
  | release (name : String)
  | rollbackTo (name : String)
  | vacuum (database : Option String) (target : Option Expr)
  | attach (file name : Expr)
  | detach (name : Expr)
  /-- Counts rows for later. -/
  | analyze (name : Option TableName)
  /-- Makes indexes anew. -/
  | reindex (name : Option TableName)
  /-- Tells what would be done. -/
  | explain (isPlan : Bool) (s : Statement)

/-- The beginning of a statement, if that is checked first. -/
def Statement.beginning? : Statement → Option Beginning
  | .createTable isTemporary ifMissing name _ _
      | .createTableAs isTemporary ifMissing name _ =>
    some (.table isTemporary ifMissing name)
  | .createVirtual ifMissing name _ _ => some (.virtual ifMissing name)
  | .createRule isTemporary ifMissing name rule _ =>
      some (.rule isTemporary ifMissing name rule)
  | .alter table (.addColumn _ _) => some (.column table)
  | _ => none

end Bytecode.Database
