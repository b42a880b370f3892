import Bytecode.Fault
import Bytecode.Text.Digits
import Bytecode.Text.Quoted
import Bytecode.Text.Stray

/-!
# Why a database refuses

A statement is refused for what it says, or it fails for what it finds.  Every
failure has a code, and the codes have wordings of their own.
-/

namespace Bytecode.Database

/-- What is wrong with a statement. -/
inductive Refusal where
  | incomplete
  /-- A piece stands where it may not. -/
  | misplaced (text : String)
  | unrecognized (text : String)
  | unknownDatabase (name : String)
  | unknownEncoding (name : String)
  | noSuchTable (name : String)
  | noSuchColumn (name : String)
  | noColumnNamed (table column : String)
  | wrongCount (table : String) (columns values : Nat)
  | uneven (values columns : Nat)
  | taken (kind name : String)
  | reservedName (name : String)
  | internalTable (action name : String)
  | columnTwice (name : String)
  | twoPrimaryKeys (table : String)
  | unevenRows
  | unknownOption (name : String)
  | noPrimaryKey (table : String)
  | unknownFormat
  /-- A column needs a type. -/
  | noType (column : String)
  | unknownType (column type : String)
  | modifiedView (name : String)
  | noSuchPart (kind name : String)
  /-- Something is of this kind, and not of the one that was asked for. -/
  | otherKind (kind name : String)
  | indexNamed (name : String)
  | tableNamed (name : String)
  /-- Rows depend on columns that are no key. -/
  | noKeyThere (table parent : String)
  | noSavepoint (name : String)
  | notInTransaction
  | safetyInTransaction
  /-- Logging begins or ends within a transaction. -/
  | logInTransaction (begins : Bool)
  | notDetachable (name : String)
  | noSuchDatabase (name : String)
  /-- All columns of no table are asked for. -/
  | noTables
  | notADirectory
  | transactionOpen
  | noTransaction (action : String)
  | tooLarge
  /-- What is wrong is said in words. -/
  | said (text : String)
  deriving DecidableEq, Repr

/-- The wording of a refusal. -/
def Refusal.message : Refusal → String
  | .incomplete => "incomplete input"
  | .misplaced text => "near \"" ++ text ++ "\": syntax error"
  | .unrecognized text => "unrecognized token: \"" ++ text ++ "\""
  | .unknownDatabase name => "unknown database " ++ name
  | .unknownEncoding name => "unsupported encoding: " ++ name
  | .noSuchTable name => "no such table: " ++ name
  | .noSuchColumn name => "no such column: " ++ name
  | .noColumnNamed table column =>
      "table " ++ table ++ " has no column named " ++ column
  | .wrongCount table columns values =>
    "table " ++ table ++ " has " ++ Text.decimal 1 columns ++ " columns but " ++
      Text.decimal 1 values ++ " values were supplied"
  | .uneven values columns =>
    Text.decimal 1 values ++ " values for " ++ Text.decimal 1 columns ++
      " columns"
  | .taken kind name => kind ++ " " ++ name ++ " already exists"
  | .reservedName name => "object name reserved for internal use: " ++ name
  | .internalTable action name => "table " ++ name ++ " may not be " ++ action
  | .columnTwice name => "duplicate column name: " ++ name
  | .twoPrimaryKeys table =>
      "table \"" ++ table ++ "\" has more than one primary key"
  | .unevenRows => "all VALUES must have the same number of terms"
  | .unknownOption name => "unknown table option: " ++ name
  | .noPrimaryKey table => "PRIMARY KEY missing on table " ++ table
  | .unknownFormat => "unsupported file format"
  | .noType column => "missing datatype for " ++ column
  | .unknownType column type =>
      "unknown datatype for " ++ column ++ ": \"" ++ type ++ "\""
  | .modifiedView name => "cannot modify " ++ name ++ " because it is a view"
  | .noSuchPart kind name => "no such " ++ kind ++ ": " ++ name
  | .otherKind kind name =>
    "use DROP " ++ String.ofList (kind.toList.map Char.toUpper) ++
      " to delete " ++ kind ++ " " ++ name
  | .indexNamed name => "there is already an index named " ++ name
  | .tableNamed name => "there is already a table named " ++ name
  | .noKeyThere table parent =>
    "foreign key mismatch - \"" ++ table ++ "\" referencing \"" ++
      parent ++ "\""
  | .noSavepoint name => "no such savepoint: " ++ name
  | .notInTransaction => "cannot VACUUM from within a transaction"
  | .safetyInTransaction =>
      "Safety level may not be changed inside a transaction"
  | .logInTransaction begins =>
    "cannot change " ++ (if begins then "into" else "out of") ++
      " wal mode from within a transaction"
  | .notDetachable name => "cannot detach database " ++ name
  | .noSuchDatabase name => "no such database: " ++ name
  | .noTables => "no tables specified"
  | .notADirectory => "not a writable directory"
  | .transactionOpen => "cannot start a transaction within a transaction"
  | .noTransaction action =>
      "cannot " ++ action ++ " - no transaction is active"
  | .tooLarge => "integer overflow"
  | .said text => text

/-- Why a statement fails. -/
inductive Failure where
  | refused (r : Refusal)
  | notWritable
  /-- Something has to be undone first, and that cannot be written. -/
  | cannotUndo
  | unreadable
  | undeletable
  | unopened
  | malformed
  /-- An index lacks a row that it should have. -/
  | malformedIndex
  | notADatabase
  | full
  | mismatch
  /-- Values of these columns together are there already. -/
  | notUnique (isPrimary : Bool) (columns : List String)
  | missing (column : String)
  /-- A row answers a question of its table with no. -/
  | unchecked (label : String)
  /-- A value is not of the type of its column. -/
  | wrongType (value type column : String)
  | dangling
  /-- A part of a database is not what it is said to be. -/
  | badPart (name reason : String)
  /-- A rule of a database refuses a change. -/
  | raised (message : String)
  /-- Texts are to be compared in a way that nobody knows. -/
  | noCollation (name : String)
  /-- Two rows have one number. -/
  | numberTaken (column : String)
  /-- A row is not one of its table, for a reason that may be told. -/
  | disordered (reason : String)
  | tooBig
  /-- A file cannot be opened beside the others. -/
  | unattached (path : String)
  /-- There is no value for the first place, which may have a name. -/
  | missingValue (name : Option String)
  deriving DecidableEq, Repr, Inhabited

namespace Failure

/-- The code of a failure. -/
def code : Failure → Nat
  | .refused _ => 1
  | .notWritable => 8
  | .cannotUndo => 776
  | .unreadable => 266
  | .undeletable => 2570
  | .unopened => 14
  | .malformed | .badPart _ _ => 11
  | .malformedIndex => 779
  | .notADatabase => 26
  | .full => 13
  | .mismatch => 20
  | .notUnique isPrimary _ => if isPrimary then 1555 else 2067
  | .missing _ => 1299
  | .unchecked _ => 275
  | .wrongType _ _ _ => 3091
  | .dangling => 787
  | .raised _ => 1811
  | .noCollation _ => 257
  | .numberTaken _ => 2579
  | .disordered _ => 19
  | .tooBig => 18
  | .unattached _ => 14
  | .missingValue _ => 0

/-- The wording of a failure, without its code. -/
def wording : Failure → String
  | .refused r => if r.message = "" then "SQL logic error" else
      "SQL logic error: " ++ r.message
  | .notWritable | .cannotUndo => "attempt to write a readonly database"
  | .unreadable | .undeletable => "disk I/O error"
  | .unopened => "unable to open database file"
  | .malformed | .malformedIndex => "database disk image is malformed"
  | .notADatabase => "file is not a database"
  | .full => "database or disk is full"
  | .mismatch => "datatype mismatch"
  | .notUnique _ columns =>
    "constraint failed: UNIQUE constraint failed: " ++
      String.intercalate ", " columns
  | .missing column =>
      "constraint failed: NOT NULL constraint failed: " ++ column
  | .unchecked label => "constraint failed: CHECK constraint failed: " ++ label
  | .wrongType value type column =>
    "constraint failed: cannot store " ++ value ++ " value in " ++ type ++
      " column " ++ column
  | .dangling => "constraint failed: FOREIGN KEY constraint failed"
  | .badPart name reason =>
    "database disk image is malformed: malformed database schema (" ++ name ++
      ")" ++ if reason = "" then "" else " - " ++ reason
  | .raised message => if message = "constraint failed" then message else
      "constraint failed: " ++ message
  | .noCollation name => "SQL logic error: no such collation sequence: " ++ name
  | .numberTaken column =>
      "constraint failed: UNIQUE constraint failed: " ++ column
  | .disordered reason => if reason = "" then "constraint failed" else
      "constraint failed: " ++ reason
  | .tooBig => "string or blob too big"
  | .unattached path =>
      "unable to open database file: unable to open database: " ++ path
  | .missingValue none => "missing argument with index 1"
  | .missingValue (some name) =>
      "missing named argument " ++ Text.quotedBytes (Text.encode name)

/-- The cause that a failure is: its wording up to a NUL and its code, unless it
has none. -/
def cause (f : Failure) : Cause :=
  let wording :=
    Text.shown (String.ofList (f.wording.toList.takeWhile (· ≠ Char.ofNat 0)))
  .other (if f.code = 0 then wording else
      wording ++ " (" ++ Text.decimal 1 f.code ++ ")")

/-- The fault of a task that fails. -/
def during (task : String) (f : Failure) : Fault := .failed [task] f.cause

end Failure

end Bytecode.Database
