import Bytecode.Database.Reader.Definition

/-!
# Reading scripts

A script is a text of statements with semicolons between them.  `Statement.next`
reads the first one and leaves the rest unread, because what it does may decide
what the others mean; so what is wrong with one shows only after those in front
of it.
-/

namespace Bytecode.Database

namespace Reader

/-- Takes the value of a directive: a number, perhaps with a sign, or a name. -/
def setting : Reader String := do
  let isPlain (t : Token) : Bool := t.kind = .number
  if ← acceptMark "+" then return (← take isPlain).text
  else if ← acceptMark "-" then return "-" ++ (← take isPlain).text
  else
    match ← peek with
    | some t =>
      if isPlain t || (t.kind = .word &&
        reservedValues.contains (Token.lowered t.text)) then
        modify List.tail
        return t.text
      else name
    | none => refuse

/-- Takes a directive, from behind the word that begins it. -/
def directive : Reader Directive := do
  let first ← take isName
  let (database, name) ← do
    if ← acceptMark "." then pure (some first, ← name)
    else pure (none, nameOf first)
  let value ← do
    if ← acceptMark "(" then
      let value ← setting
      mark ")"
      pure (some value)
    else if ← accept fun t => t.isMark "=" || t.isMark "==" then
      some <$> setting
    else pure none
  return { database, name, value }

/-- Takes the name of something new, and what is read behind it, with the text
of both from the name of the thing on. -/
def defined {α : Type} (rest : TableName → Reader α) :
    Reader (TableName × α × String) := do
  let start ← get
  let name ← tableName
  let start := if name.database.isSome then start.drop 2 else start
  let x ← rest name
  return (name, x, Token.spell (start.take (start.length - (← get).length)))

/-- Takes the words that ask for something only if it is missing. -/
def ifMissing : Reader Bool := acceptWords "if" ["not", "exists"]

/-- Takes the rest of a statement whose beginning is checked first, whatever the
rest is. -/
def committed (start : Beginning) (rest : Reader Statement) :
    Reader Statement := fun ts =>
  match rest ts with
  | .ok found => .ok found
  | .error r => .ok (.broken start r, [])

/-- Takes the making of a table, from behind the word for it. -/
def tableCreation (g : Grammar) (isTemporary : Bool) : Reader Statement := do
  let ifMissing ← ifMissing
  let start ← get
  let name ← tableName
  let start := if name.database.isSome then start.drop 2 else start
  let isMore ← ahead fun t => t.isMark "(" || t.isWord "as"
  if !isMore then refuse
  committed (.table isTemporary ifMissing name) do
    if ← acceptWord "as" then
      return .createTableAs isTemporary ifMissing name (← g.query)
    let table ← tableText g
    let text := Token.spell (start.take (start.length - (← get).length))
    return .createTable isTemporary ifMissing name table text

/-- Takes columns and their new value. -/
def assignment (g : Grammar) : Reader Assignment := do
  if ← ahead (·.isMark "(") then
    let columns ← parenthesized (list name)
    mark "="
    return { columns, value := ← g.expr, isList := true }
  else
    let column ← name
    mark "="
    return { columns := [column], value := ← g.expr }

/-- Takes what a change shows of the rows, if that is said. -/
def returning (g : Grammar) : Reader (List Item) := do
  if ← acceptWord "returning" then list (item g) else return []

/-- Takes what is done with rows that are there already. -/
def upserts (g : Grammar) : Nat → Reader (List Upsert)
  | 0 => return []
  | fuel + 1 => do
    if ← acceptWords "on" ["conflict"] then
      let hasTarget ← ahead (·.isMark "(")
      let target ←
        if hasTarget then parenthesized (list (partText g)) else pure []
      let targetCondition ← if hasTarget then behind "where" g.expr else
          pure none
      word "do"
      let one ← do
        if ← acceptWord "nothing" then
          pure ({ target, targetCondition } : Upsert)
        else
          word "update"
          word "set"
          let changes ← list (assignment g)
          pure { target, targetCondition, changes := some changes,
                 condition := ← behind "where" g.expr }
      -- one that is about all keys is the last
      if hasTarget then return one :: (← upserts g fuel) else return [one]
    else return []

/-- Takes the name of a table that is changed, and the name it is given. -/
def target (isRule : Bool) : Reader (TableName × Option String) := do
  let table ← tableName
  if isRule then
    if table.database.isSome then
      objection
        ("qualified table names are not allowed on INSERT, UPDATE, and DELETE statements " ++
          "within triggers")
    return (table, none)
  return (table, ← behind "as" name)

/-- Takes the name of an index that is to be used, which rules may not say. -/
def targetIndex (isRule : Bool) : Reader (Option String) := do
  let isBy ← ahead (·.isWord "indexed")
  let isNot ← aheadWords "not" "indexed"
  if isRule && (isBy || isNot) then
    objection ("the " ++ (if isBy then "INDEXED BY" else "NOT INDEXED") ++
      " clause is not allowed on UPDATE or DELETE statements within triggers")
  indexChoice

/-- Takes an insertion, from behind the words that begin it. -/
def insertion (g : Grammar) (isRule : Bool) (named : List NamedQuery)
    (isRecursive : Bool) (policy : Option Policy) : Reader Insert := do
  word "into"
  let (table, label) ← target isRule
  let columns ←
    if ← ahead (·.isMark "(") then some <$> parenthesized (list name)
    else pure none
  -- a rule names all values
  let isDefault ← if isRule then pure false else
      acceptWords "default" ["values"]
  if isDefault then
    let returning ← returning g
    return { named, isRecursive, policy, table, label, columns,
             content := .defaults, returning }
  let content := Inserted.rows (← g.query)
  let upserts ← upserts g ((← get).length + 1)
  let returning ← returning g
  if isRule && !returning.isEmpty then
    objection "cannot use RETURNING in a trigger"
  return { named, isRecursive, policy, table, label, columns, content, upserts,
           returning }

/-- Takes a change of rows, from behind the word that begins it. -/
def updating (g : Grammar) (isRule : Bool) (named : List NamedQuery)
    (isRecursive : Bool) : Reader Update := do
  let policy ← behind "or" policy
  let (table, label) ← target isRule
  let index ← targetIndex isRule
  word "set"
  let changes ← list (assignment g)
  let sources ←
    if ← acceptWord "from" then sources g ((← get).length + 1) else pure []
  let condition ← behind "where" g.expr
  let returning ← if isRule then pure [] else returning g
  return { named, isRecursive, policy, table, label, index, changes, sources,
           condition, returning }

/-- Takes a removal of rows, from behind the word that begins it. -/
def deletion (g : Grammar) (isRule : Bool) (named : List NamedQuery)
    (isRecursive : Bool) : Reader Delete := do
  word "from"
  let (table, label) ← target isRule
  let index ← targetIndex isRule
  let condition ← behind "where" g.expr
  let returning ← if isRule then pure [] else returning g
  return { named, isRecursive, table, label, index, condition, returning }

/-- Takes what an insertion does with rows that cannot be put in, from behind
its first word, if it is one. -/
def inserting : Reader (Option (Option Policy)) := do
  if ← acceptWord "insert" then return some (← behind "or" policy)
  else if ← acceptWord "replace" then return some (some .replace)
  else return none

/-- Takes something that a rule does. -/
def ruleStep (g : Grammar) : Reader RuleStep := do
  let step ← do
    if ← acceptWord "update" then RuleStep.update <$> updating g true [] false
    else if ← acceptWord "delete" then
      RuleStep.delete <$> deletion g true [] false
    else match ← inserting with
      | some policy => RuleStep.insert <$> insertion g true [] false policy
      | none => if ← aheadQuery then RuleStep.select <$> g.query else refuse
  mark ";"
  return step

/-- Takes what a rule does, up to its end, in so many steps at most. -/
def ruleSteps (g : Grammar) : Nat → Reader (List RuleStep)
  | 0 => refuse
  | fuel + 1 => do
    let step ← ruleStep g
    if ← acceptWord "end" then return [step]
    else return step :: (← ruleSteps g fuel)

/-- Takes a rule, from behind its name, up to what it does. -/
def rule (g : Grammar) : Reader RuleText := do
  let time ← do
    if ← acceptWord "before" then pure RuleTime.before
    else if ← acceptWord "after" then pure .after
    else if ← acceptWords "instead" ["of"] then pure .instead
    else pure .before
  let event ← do
    if ← acceptWord "delete" then pure RuleEvent.delete
    else if ← acceptWord "insert" then pure .insert
    else
      word "update"
      pure (.update (← behind "of" (list name)))
  word "on"
  let table ← tableName
  let _ ← acceptWords "for" ["each", "row"]
  let condition ← behind "when" g.expr
  word "begin"
  return { time, event, table, condition, steps := [] }

/-- Takes the making of a rule, from behind the word for it. -/
def ruleCreation (g : Grammar) (isTemporary : Bool) : Reader Statement := do
  let ifMissing ← ifMissing
  let start ← get
  let name ← tableName
  let start := if name.database.isSome then start.drop 2 else start
  let head ← rule g
  committed (.rule isTemporary ifMissing name head) do
    let steps ← ruleSteps g ((← get).length + 1)
    let text := Token.spell (start.take (start.length - (← get).length))
    return .createRule isTemporary ifMissing name { head with steps } text

/-- Takes the making of something, from behind the word that begins it. -/
def creation (g : Grammar) : Reader Statement := do
  let isTemporary ← accept fun t => t.isWord "temp" || t.isWord "temporary"
  if ← acceptWord "table" then tableCreation g isTemporary
  else if ← acceptWord "view" then
    let ifMissing ← ifMissing
    let (name, (columns, q), text) ← defined fun _ => do
      let columns ← names
      word "as"
      return (columns, ← g.query)
    return .createView isTemporary ifMissing name columns q text
  else if ← acceptWord "trigger" then ruleCreation g isTemporary
  else if isTemporary then refuse
  else if ← acceptWord "virtual" then
    word "table"
    let ifMissing ← ifMissing
    let start ← get
    let name ← tableName
    let start := if name.database.isSome then start.drop 2 else start
    word "using"
    let method ← Reader.name
    let rest : Reader Statement := do
      let arguments ← if ← acceptMark "(" then arguments else pure []
      let text := Token.spell (start.take (start.length - (← get).length))
      return .createVirtual ifMissing name { method, arguments } text
    if ← ahead (·.isMark "(") then committed (.virtual ifMissing name) rest
    else rest
  else
    let isUnique ← acceptWord "unique"
    word "index"
    let ifMissing ← ifMissing
    let (name, index, text) ← defined fun _ => do
      word "on"
      let table ← Reader.name
      let parts ← parenthesized (list (partText g))
      return ({ table, parts, isUnique, condition := ← behind "where" g.expr } :
        IndexText)
    return .createIndex ifMissing name index text
where
  /-- Takes what stands between commas, from behind a parenthesis to behind the
  closing one; nothing is not taken. -/
  arguments : Reader (List String) := fun ts =>
    (go 0 [] ts).map fun (found, rest) =>
      ((found.filter (!·.isEmpty)).map Token.spell, rest)
  /-- The same on pieces; `own` are those since the last comma. -/
  go (depth : Nat) (own : List Token) : List Token →
    Except Refusal (List (List Token) × List Token)
    | [] => .error .incomplete
    | t :: rest =>
      if t.kind = .stray then .error (.unrecognized t.text)
      else if t.isMark "(" then go (depth + 1) (own ++ [t]) rest
      else if t.isMark ")" then
        if depth = 0 then .ok ([own], rest)
        else go (depth - 1) (own ++ [t]) rest
      else if t.isMark "," && depth = 0 then
        (go 0 [] rest).map fun (found, rest) => (own :: found, rest)
      else go depth (own ++ [t]) rest

/-- Takes the dropping of something, from behind the word that begins it. -/
def dropping : Reader Statement := do
  let kind ← do
    if ← acceptWord "index" then pure PartKind.index
    else if ← acceptWord "view" then pure .view
    else if ← acceptWord "trigger" then pure .trigger
    else
      word "table"
      pure .table
  let ifThere ← acceptWords "if" ["exists"]
  return .drop kind ifThere (← tableName)

/-- Takes a change of a table, from behind the word that begins it. -/
def altering (g : Grammar) : Reader Statement := do
  word "table"
  let table ← tableName
  if ← acceptWord "rename" then
    if ← acceptWord "to" then return .alter table (.rename (← name))
    let _ ← acceptWord "column"
    let old ← name
    word "to"
    return .alter table (.renameColumn old (← name))
  else if ← acceptWord "add" then
    committed (.column table) do
      let _ ← acceptWord "column"
      let (column, text) ← spelled (columnText g)
      return .alter table (.addColumn column text)
  else
    word "drop"
    let _ ← acceptWord "column"
    return .alter table (.dropColumn (← name))

/-- Takes the word that may follow the beginning or the end of a transaction,
and its name. -/
def transactionName : Reader Unit := do
  if ← acceptWord "transaction" then
    let _ ← accept isName

/-- Takes the beginning of a transaction, from behind the word that begins
it. -/
def beginning : Reader Statement := do
  let b ← do
    if ← acceptWord "immediate" then pure Begin.immediate
    else if ← acceptWord "exclusive" then pure .exclusive
    else
      let _ ← acceptWord "deferred"
      pure .deferred
  transactionName
  return .begin b

/-- Takes the end of a transaction that undoes it, from behind the word that
begins it. -/
def undoing : Reader Statement := do
  transactionName
  if ← acceptWord "to" then
    let _ ← acceptWord "savepoint"
    return .rollbackTo (← name)
  return .rollback

/-- Takes a name, perhaps behind a word. -/
def nameBehind (first : String) : Reader String := do
  let isNamed ← beyond isName
  if isNamed then
    let _ ← acceptWord first
  name

/-- Takes the cleaning of a database, from behind the word that begins it. -/
def cleaning (g : Grammar) : Reader Statement := do
  let isNamed ← ahead isName
  let database ← if isNamed then some <$> name else pure none
  return .vacuum database (← behind "into" g.expr)

/-- Takes a statement with the queries that have names in it. -/
def changing (g : Grammar) : Reader Statement := do
  let (named, isRecursive) ← namedQueries g
  if ← acceptWord "update" then .update <$> updating g false named isRecursive
  else if ← acceptWord "delete" then
    .delete <$> deletion g false named isRecursive
  else match ← inserting with
    | some policy => .insert <$> insertion g false named isRecursive policy
    | none => .select <$> queryBehind g named isRecursive

/-- Takes a statement that is carried out, without the semicolon behind it. -/
def plainStatement (g : Grammar) : Reader Statement := do
  if ← acceptWord "pragma" then .directive <$> directive
  else if ← acceptWord "create" then creation g
  else if ← acceptWord "drop" then dropping
  else if ← acceptWord "alter" then altering g
  else if ← acceptWord "begin" then beginning
  else if ← accept fun t => t.isWord "commit" || t.isWord "end" then
    transactionName
    return .commit
  else if ← acceptWord "rollback" then undoing
  else if ← acceptWord "savepoint" then return .savepoint (← name)
  else if ← acceptWord "release" then return .release (← nameBehind "savepoint")
  else if ← acceptWord "vacuum" then cleaning g
  else if ← acceptWord "attach" then
    let _ ← acceptDatabase
    let file ← g.expr
    word "as"
    let name ← g.expr
    if ← acceptWord "key" then
      let _ ← g.expr
    return .attach file name
  else if ← acceptWord "detach" then
    let _ ← acceptDatabase
    return .detach (← g.expr)
  else if ← acceptWord "analyze" then return .analyze (← optionalName)
  else if ← acceptWord "reindex" then return .reindex (← optionalName)
  else if ← ahead fun t => ["select", "values", "with", "insert", "replace",
    "update", "delete"].any t.isWord then
    changing g
  else refuse
where
  /-- Takes the word for a database, unless it stands for itself. -/
  acceptDatabase : Reader Bool := do
    let isWord ← ahead (·.isWord "database")
    let isMore ← beyond fun t => !t.isWord "as" && !t.isMark ";"
    if isWord && isMore then acceptWord "database" else return false

/-- Takes a statement without the semicolon behind it. -/
def statement : Reader Statement := do
  let g ← whole
  if ← acceptWord "explain" then
    let isPlan ← acceptWords "query" ["plan"]
    return .explain isPlan (← plainStatement g)
  else plainStatement g

end Reader

namespace Statement

/-- The first statement and what follows it; there is none if only semicolons
are left. -/
def next (ts : List Token) :
    Except Refusal (Option (Statement × List Token)) := do
  match ts.dropWhile (·.isMark ";") with
  | [] => return none
  | ts =>
    let (s, rest) ← Reader.statement ts
    match rest with
    | [] => return some (s, [])
    | t :: rest =>
      if t.isMark ";" then return some (s, rest)
      else
        let r := if t.kind = .stray then Refusal.unrecognized t.text else
            .misplaced t.text
        match s.beginning? with
        | some start => return some (.broken start r, [])
        | none => throw r

/-- The statement that a whole text is. -/
def ofText (text : String) : Except Refusal Statement := do
  match ← next (Token.all text) with
  | some (s, _) => return s
  | none => throw .incomplete

end Statement

end Bytecode.Database
