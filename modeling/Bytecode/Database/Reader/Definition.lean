import Bytecode.Database.Reader.Expr

/-!
# Reading definitions of tables

A table is written as its columns, each with clauses about it, then clauses
about the table, and words about it as a whole.
-/

namespace Bytecode.Database.Reader

/-- Takes an expression between parentheses with its text. -/
def checked (g : Grammar) : Reader (Expr × String) :=
  parenthesized (spelled g.expr)

/-- Takes what happens to rows that depend on others. -/
def following : Reader Following := do
  if ← acceptWord "set" then
    if ← acceptWord "null" then return .setNull
    word "default"
    return .setDefault
  else if ← acceptWord "cascade" then return .cascade
  else if ← acceptWord "restrict" then return .restrict
  else
    word "no"
    word "action"
    return .nothing

/-- Takes the table that columns depend on, from behind the word in front of
it. -/
def reference : Reader Reference := do
  let table ← name
  let columns ← names
  let clauses ← many do
    if ← acceptWord "on" then
      if ← acceptWord "delete" then
        let f ← following
        return some fun r : Reference => { r with onDelete := f }
      else if ← acceptWord "update" then
        let f ← following
        return some fun r : Reference => { r with onUpdate := f }
      else
        word "insert"
        let _ ← following
        return some id
    else if ← acceptWord "match" then
      let _ ← name
      return some id
    else return none
  return clauses.foldl (fun r f => f r) { table, columns }

/-- Takes when a dependence is looked at, from behind the word that says so. -/
def deferral : Reader Bool := do
  if ← acceptWord "initially" then
    if ← acceptWord "deferred" then return true
    word "immediate"
  return false

/-- Takes a computed column, from behind the word `as`. -/
def computed (g : Grammar) : Reader ColumnClause := do
  let e ← parenthesized g.expr
  if ← ahead isLabel then
    let kind ← name
    if Token.lowered kind = "stored" then return .computed e (some true)
    else if Token.lowered kind = "virtual" then return .computed e (some false)
    else return .computed e none
  return .computed e (some false)

/-- Whether a piece is a word for the present time. -/
def isPresent (t : Token) : Bool :=
  ["current_date", "current_time", "current_timestamp"].any t.isWord

/-- Takes a default value that does not stand between parentheses. -/
def plainFallback (g : Grammar) : Reader Expr := do
  if ← acceptMark "-" then return .unary .negate (← term)
  else if ← acceptMark "+" then term
  else
    match ← peek with
    | some t =>
      if (t.kind = .word && isName t && !isPresent t) ||
          t.kind = .name then
        modify List.tail
        return if t.isWord "true" then .literal (.integer 1)
          else if t.isWord "false" then .literal (.integer 0)
          else .literal (.text (nameOf t))
      else term
    | none => refuse
where
  /-- Takes a literal. -/
  term : Reader Expr := do
    match ← peek with
    | some t =>
      if isNumber t || t.kind = .text || t.kind = .bytes || t.isWord "null" ||
          ["current_date", "current_time",
            "current_timestamp"].any t.isWord then operand g
      else refuse
    | none => refuse

/-- Takes a default value with its text. -/
def fallback (g : Grammar) : Reader (Expr × String) := do
  if ← ahead (·.isMark "(") then checked g else spelled (plainFallback g)

/-- Takes a clause about a column. -/
def columnClause (g : Grammar) : Reader (Option ColumnClause) := do
  if ← acceptWord "constraint" then return some (.label (← name))
  else if ← acceptWord "default" then
    let (e, text) ← fallback g
    return some (.fallback text e)
  else if ← acceptWord "null" then
    let _ ← onConflict
    return some .nullable
  else if ← acceptWord "not" then
    if ← acceptWord "deferrable" then
      let _ ← deferral
      return some (.deferral false)
    word "null"
    return some (.required (← onConflict))
  else if ← acceptWords "primary" ["key"] then
    let isDescending ← direction
    let policy ← onConflict
    return some (.primary isDescending policy (← acceptWord "autoincrement"))
  else if ← acceptWord "unique" then return some (.unique (← onConflict))
  else if ← acceptWord "check" then
    let (e, text) ← checked g
    return some (.check text e)
  else if ← acceptWord "references" then return some (.references (← reference))
  else if ← acceptWord "deferrable" then return some (.deferral (← deferral))
  else if ← acceptWord "collate" then return some (.collation (← name))
  else if ← acceptWords "generated" ["always", "as"] then some <$> computed g
  else if ← acceptWord "as" then some <$> computed g
  else return none

/-- Takes a column. -/
def columnText (g : Grammar) : Reader ColumnText := do
  let name ← name
  let type ← type
  return { name, type, clauses := ← many (columnClause g) }

/-- Takes a part of what rows can be found by. -/
def partText (g : Grammar) : Reader PartText := do
  let o ← orderItem g
  return { value := o.value, isDescending := o.isDescending,
           saysNulls := o.nullsFirst }

/-- Takes a clause about a table, if there is one. -/
def tableClause (g : Grammar) : Reader (Option TableClause) := do
  if ← acceptWord "constraint" then return some (.label (← name))
  else if ← acceptWords "primary" ["key"] then
    mark "("
    let parts ← list (partText g)
    let isCounting ← acceptWord "autoincrement"
    mark ")"
    return some (.primary parts isCounting (← onConflict))
  else if ← acceptWord "unique" then
    let parts ← parenthesized (list (partText g))
    return some (.unique parts (← onConflict))
  else if ← acceptWord "check" then
    let (e, text) ← checked g
    let _ ← onConflict
    return some (.check text e)
  else if ← acceptWords "foreign" ["key"] then
    let columns ← parenthesized (list name)
    word "references"
    let r ← reference
    let isDeferred ← do
      if ← acceptWord "not" then
        word "deferrable"
        let _ ← deferral
        pure false
      else if ← acceptWord "deferrable" then deferral
      else pure false
    return some (.references columns { r with isDeferred })
  else return none

/-- Whether a clause about a table stands at the head. -/
def isTableClause (t : Token) : Bool :=
  ["constraint", "primary", "unique", "check", "foreign"].any t.isWord

/-- Takes the clauses about a table, with or without commas between them.  A
comma ends the reach of a name. -/
def tableClauses (g : Grammar) : Reader (List TableClause) := do
  let first ← tableClause g
  let others ← many do
    if ← acceptMark "," then
      match ← tableClause g with
      | some c => return some [.label "", c]
      | none => refuse
    else return (← tableClause g).map ([·])
  return first.toList ++ others.flatten

/-- Takes the columns behind the first one, and the clauses about the table. -/
def definitionRest (g : Grammar) :
    Nat → Reader (List ColumnText × List TableClause)
  | 0 => return ([], [])
  | fuel + 1 => do
    if ← acceptMark "," then
      if ← ahead isTableClause then return ([], ← tableClauses g)
      let c ← columnText g
      let (columns, clauses) ← definitionRest g fuel
      return (c :: columns, clauses)
    else return ([], [])

/-- Takes a word about a table as a whole. -/
def tableOption : Reader TableOption := do
  if ← acceptWord "without" then
    let t ← take isName
    return if Token.lowered (nameOf t) = "rowid" then .unnumbered else
        .unknown (nameOf t)
  else
    let t ← take isName
    return if Token.lowered (nameOf t) = "strict" then .strict else
        .unknown (nameOf t)

/-- Takes the definition of a table, from its opening parenthesis on. -/
def tableText (g : Grammar) : Reader TableText := do
  mark "("
  let first ← columnText g
  let (columns, clauses) ← definitionRest g (← get).length
  mark ")"
  let hasOptions ← ahead isName
  let options ← if hasOptions then list tableOption else pure []
  return { columns := first :: columns, clauses, options }

end Bytecode.Database.Reader
