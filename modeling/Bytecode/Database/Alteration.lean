import Bytecode.Database.Reader.Statement
import Bytecode.Database.Removal

/-!
# Altering tables

A table gets another name, or a column gets one, or comes, or goes.  Definitions
that speak of it follow: they get the new name, too, and keep everything else of
their text. Before and after that everything else must make sense.
-/

namespace Bytecode.Database

/-! ### Names in definitions -/

namespace Renaming

/-- A piece with what stands around it. -/
structure Spot where
  /-- The pieces in front, the nearest first. -/
  front : List Token
  token : Token
  behind : List Token

/-- The pieces of a text with what stands around them. -/
def spots (front : List Token) : List Token → List Spot
  | [] => []
  | t :: rest =>
      { front, token := t, behind := rest } :: spots (t :: front) rest

/-- Whether a piece is a name, perhaps between quotes. -/
def isNamed (t : Token) (name : String) : Bool :=
  ((t.kind = .word && Reader.isName t) || t.kind = .name) &&
    Token.lowered (Reader.nameOf t) = Token.lowered name

/-- A name between quotes. -/
def quoted (name : String) : String :=
  "\"" ++ String.join (name.toList.map fun c => if c = '"' then "\"\"" else
      String.singleton c) ++ "\""

/-- The text with some pieces replaced. -/
def edited (text : String) (f : Spot → Option String) : String :=
  Token.spell ((spots [] (Token.all text)).map fun s =>
    match f s with
    | some new => { s.token with text := new }
    | none => s.token)

/-- Words behind which the name of a table stands. -/
def tableWords : List String :=
  ["table", "references", "from", "join", "into", "update"]

/-- Words that end the list of the tables of a query. -/
def listEnds : List String :=
  ["from", "where", "group", "order", "having", "limit", "union", "except",
    "intersect", "select", "set", "values",
    "begin", "end", "when", "returning", "window"]

/-- Whether a comma in front stands between the tables of a query; the pieces
are those in front of the comma, the nearest first. -/
def isListed : Nat → List Token → Bool
  | _, [] => false
  | depth, t :: rest =>
    if t.isMark ")" then isListed (depth + 1) rest
    else if t.isMark "(" then
      if depth = 0 then false else isListed (depth - 1) rest
    else if depth = 0 && t.kind = .word && listEnds.contains (Token.lowered
      t.text) then t.isWord "from"
    else isListed depth rest

/-- Whether the only piece of its kind stands in front: the first word that says
what an index or a rule is about. -/
def isSubject (s : Spot) : Bool :=
  match s.front with
  | t :: rest =>
      t.isWord "on" && !rest.any (·.isWord "on") &&
        !rest.any (·.isWord "begin") && (rest.any (·.isWord "index") ||
          rest.any (·.isWord "trigger"))
  | [] => false

/-- Whether a piece stands where a table is named. -/
def isTablePlace (s : Spot) : Bool :=
  match s.front with
  | [] => false
  | t :: rest =>
    let isQualifier : Bool := s.behind.head?.any (·.isMark ".") && !t.isMark "."
    let isQualified : Bool := t.isMark "." &&
      rest.head?.any fun d => ["main", "temp"].contains (Token.lowered d.text)
    (t.kind = .word && tableWords.contains (Token.lowered t.text)) ||
      isSubject s || isQualifier || isQualified ||
      (t.isMark "," && isListed 0 rest)

/-- The definition with another name for a table. -/
def table (old new text : String) : String :=
  edited text fun s =>
    if isNamed s.token old && isTablePlace s then some (quoted new) else none

/-- The definition of a table with another name behind the words that begin
it. -/
def partTable (new text : String) : String :=
  edited text fun s => if s.front.length = 2 then some (quoted new) else none

/-- Whether a piece stands in the list of columns behind the name of a table
that others depend on. -/
def referenced? : List Token → Option String
  | [] => none
  | t :: rest =>
    if t.isMark "(" then
      match rest with
      | name :: word :: _ =>
          if word.isWord "references" then some (Reader.nameOf name) else none
      | _ => none
    else if t.isMark "," || t.kind = .word || t.kind = .name then
      referenced? rest
    else none

/-- The definition with another name for a column of a table. -/
def column (table old new : String) (isQuoted isOwn : Bool) (text : String) :
    String :=
  let shown := if isQuoted then quoted new else new
  edited text fun s =>
    let isName : Bool := isNamed s.token old && !isTablePlace s &&
      !s.behind.head?.any (·.isMark "(")
    let elsewhere := referenced? s.front
    let isMeant : Bool := match elsewhere with
      | some t => Token.lowered t = Token.lowered table
      | none => isOwn
    -- the word in front says what else is named
    let isOther : Bool := s.front.head?.any fun t =>
      ["table", "index", "trigger", "view", "references", "collate",
        "constraint"].any t.isWord
    if isName && isMeant && !isOther then
      some (if s.token.kind = .name then quoted new else shown)
    else none

/-- The pieces of a definition of a table, up to its opening parenthesis, then
those of each column and clause, and what follows. -/
def split (ts : List Token) : List Token × List (List Token) × List Token :=
  let front := ts.takeWhile fun t => !t.isMark "("
  match ts.drop front.length with
  | [] => (front, [], [])
  | bracket :: rest => (front ++ [bracket], items 0 [] rest)
where
  /-- The pieces between commas, and what follows the closing parenthesis with
  it. -/
  items (depth : Nat) (own : List Token) : List Token →
    List (List Token) × List Token
    | [] => ([own], [])
    | t :: rest =>
      if t.isMark "(" then items (depth + 1) (own ++ [t]) rest
      else if t.isMark ")" then
        if depth = 0 then ([own], t :: rest)
        else items (depth - 1) (own ++ [t]) rest
      else if t.isMark "," && depth = 0 then
        let (others, behind) := items 0 [] rest
        (own :: others, behind)
      else items depth (own ++ [t]) rest

/-- The text of a definition of a table, from its pieces. -/
def joined (front : List Token) (items : List (List Token))
    (behind : List Token) : String :=
  let comma : Token := { kind := .mark, text := "," }
  let inner := match items with
    | [] => []
    | first :: rest => first ++ rest.flatMap (comma :: ·)
  Token.spell (front ++ inner ++ behind)

/-- Whether pieces are those of a clause about a table. -/
def isClause (ts : List Token) : Bool := ts.head?.any Reader.isTableClause

/-- The definition with another column, behind all others. -/
def addColumn (column text : String) : String :=
  let (front, items, behind) := split (Token.all text)
  let columns := items.takeWhile (!isClause ·)
  let new : Token := { kind := .stray, text := column, before := " " }
  joined front (columns ++ [[new]] ++ items.drop columns.length) behind

/-- The definition without a column. -/
def dropColumn (place : Nat) (text : String) : String :=
  let (front, items, behind) := split (Token.all text)
  let columns := items.takeWhile (!isClause ·)
  let rest := items.drop columns.length
  let kept := columns.eraseIdx place
  -- the next column takes the blanks in front
  let kept := match columns[place]?, kept[place]? with
    | some (t :: _), some (u :: us) =>
        kept.set place ({ u with before := t.before } :: us)
    | _, _ => kept
  joined front (kept ++ rest) behind

end Renaming

/-! ### Alterations -/

namespace Alteration

/-- Refuses in words. -/
def refuse {α : Type} (text : String) : Except Failure α :=
  .error (.refused (.said text))

/-- The words for a failure. -/
def words : Failure → String
  | .refused r => r.message
  | .noCollation name => "no such collation sequence: " ++ name
  | .badPart _ reason => reason
  | f => f.wording

/-- Whether a failure comes of a name that stands for nothing. -/
def isUnresolved : Failure → Bool
  | .refused (.noSuchTable _) | .refused (.noSuchColumn _) => true
  | .refused (.said text) =>
      (text.startsWith "ambiguous column name") || (text.startsWith "no such")
  | _ => false

/-- Fails if a view or a rule of a database does not make sense. -/
def test (w : World) (n : Nat) (time : String) : Except Failure Unit := do
  let schema := (w.store n).schema
  let behind := if time = "" then "" else " " ++ time
  schema.views.forM fun v =>
    match Build.alone (From.viewPlan meanings { world := w } v) with
    | .ok _ => .ok ()
    | .error f =>
        refuse ("error in view " ++ v.name ++ behind ++ ": " ++ words f)
  schema.rules.forM fun r => do
    let site? : Option Site := match w.relation? { r.text.table with
      database := some (w.store n).name } with
      | some (.inl t) => some (.ofTable t)
      | some (.inr v) =>
        match Build.alone (From.viewPlan meanings { world := w } v) with
        | .ok (_, columns) => some (.ofView v columns)
        | .error _ => none
      | none => none
    match site? with
    | none => return
    | some site =>
      let h : Happening := match r.text.event with
        | .insert => .insert
        | .delete => .delete
        | .update columns => .update (columns.getD [])
      match Prospect.next w ⟨r, site, h⟩ with
      | .ok _ => return
      | .error f =>
        if isUnresolved f then
          refuse ("error in trigger " ++ r.name ++ behind ++ ": " ++ words f)

/-- Reads the list again after definitions have changed. -/
def finish (n : Nat) (time : String) : Work Unit := do
  Work.editPages n fun p =>
    .ok (p.setHeader Catalogue.cookiePosition
      ((p.header Catalogue.cookiePosition + 1) % Word.size32))
  let w ← get
  match w.reload n with
  | .error (.badPart name reason) =>
    let kind := ((← Catalogue.rows n).find?
      fun (_, x) => x.name = some name).map (·.2.kind)
    throw (.said ("error in " ++ kind.getD "table" ++ " " ++ name ++ " " ++
      time ++ ": " ++ reason))
  | .error f => Work.fail f
  | .ok w =>
    set w
    Work.ofFailing (test w n time)

/-- The table that is altered; `action` says what is to be done. -/
def subject (w : World) (name : TableName) (ofView : String → String) :
    Except Failure Table := do
  match w.relation? name with
  | none => throw (.refused (.noSuchTable name.text))
  | some (.inl t) =>
    if Creation.isReserved t.name then
      throw (.refused (.internalTable "altered" t.name))
    return t
  | some (.inr v) => refuse (ofView v.name)

/-- Gives a table another name. -/
def namingAnew (w : World) (name : TableName) (new : String) :
    Except Failure (Work Unit) := do
  match w.relation? name with
  | none => throw (.refused (.noSuchTable name.text))
  | some r =>
    let n := match r with
      | .inl t => t.store
      | .inr v => v.store
    let schema := (w.store n).schema
    if (schema.table? new).isSome || (schema.view? new).isSome ||
        (schema.index? new).isSome then
      refuse ("there is already another table or index with this name: " ++ new)
    let t ← subject w name fun v => "view " ++ v ++ " may not be altered"
    Creation.checkName w new
    test w n ""
    let old := t.name
    let ownFront := "sqlite_autoindex_" ++ old
    let change (x : Listing) : Option Listing :=
      let isLittle : Bool :=
        w.switches.renamesLittle && (x.kind = "view" || x.kind = "trigger")
      let text := if isLittle && !isSame x.table old then x.text else
          x.text.map (Renaming.table old new)
      if isSame x.table old &&
          ["table", "index", "trigger"].contains x.kind then
        let renamed := x.name.map fun own =>
          if x.kind = "table" then new
          else if x.kind = "index" && ownFront.toList.isPrefixOf own.toList then
            "sqlite_autoindex_" ++ new ++
              String.ofList (own.toList.drop ownFront.length)
          else own
        some { x with name := renamed, table := new, text }
      else if text ≠ x.text then some { x with text }
      else none
    return do
      Catalogue.revise n change
      (Virtual.partsToDrop t).forM fun part => Catalogue.revise n fun x =>
        let old := Virtual.partName t part
        let new := Virtual.partName { t with name := new } part
        if x.kind = "table" && isSame x.table old then
          some { x with name := some new, table := new,
                        text := x.text.map (Renaming.partTable new) }
        else none
      if t.isCounting then
        match (w.store n).schema.table? "sqlite_sequence" with
        | none => pure ()
        | some s =>
          let writer ← Work.ofFailing (Build.alone (Writer.ofTable w s))
          let rows ← Work.ofExcept (writer.plan.rows (.ofWorld (← get))).all
          rows.toList.forM fun row => do
            let whole ← Work.ofExcept (WholeRow.ofRow row)
            if whole.value 0 = .text old then
              writer.putRow { whole with
                values := whole.values.setIfInBounds 0 (.text new) }
      finish n "after rename"
      if n ≠ 1 && !((← get).store 1).pages.isBlank then
        Catalogue.revise 1 fun x =>
          let text := x.text.map (Renaming.table old new)
          if text = x.text then none
          else some { x with
            text, table := if x.kind = "trigger" && isSame x.table old then new
              else x.table }
        Catalogue.finish 1

/-- Gives a column another name. -/
def namingColumnAnew (w : World) (name : TableName) (old new : String) :
    Except Failure (Work Unit) := do
  let t ← subject w name fun v =>
    "cannot rename columns of view \"" ++ v ++ "\""
  if t.isVirtual then
    refuse ("cannot rename columns of virtual table \"" ++ t.name ++ "\"")
  match t.column? old with
  | none => refuse ("no such column: \"" ++ old ++ "\"")
  | some _ =>
    let n := t.store
    test w n ""
    let isQuoted : Bool := Creation.quoted new ≠ new
    let change (x : Listing) : Option Listing :=
      let isOwn : Bool :=
        isSame x.table t.name || x.kind = "view" || x.kind = "trigger"
      let text := x.text.map (Renaming.column t.name old new isQuoted isOwn)
      if text = x.text then none else some { x with text }
    return do
      Catalogue.revise n change
      finish n "after rename"

/-- Whether a table has rows. -/
def hasRows (t : Table) : Work Bool := do
  let w ← get
  let p ← Work.ofFailing (Build.alone (Access.plan meanings w t))
  let rows ← Work.ofExcept (p.rows (.ofWorld w)).first
  return rows.isSome

/-- Fails if a table has rows. -/
def onlyEmpty (t : Table) (text : String) : Work Unit := do
  if ← hasRows t then throw (.said text)

/-- Whether the value of a column that rows lack can be told without looking at
anything. -/
def isPlain : Expr → Bool
  | .literal _ | .number _ => true
  | .unary _ a => isPlain a
  | .cast a _ => isPlain a
  | .name _ _ _ _ => true
  | _ => false

/-- The table that a column is added to. -/
def extended (w : World) (name : TableName) : Except Failure Table := do
  let t ← subject w name fun _ => "Cannot add a column to a view"
  if t.isVirtual then refuse "virtual tables may not be altered"
  return t

/-- Adds a column. -/
def addingColumn (w : World) (name : TableName) (c : ColumnText)
    (text : String) : Except Failure (Work Unit) := do
  let t ← extended w name
  let d := Creation.definition w t.store
  let start : Draft := { table := t, hasPrimary := true }
  let isPrimary : Bool :=
    c.clauses.any fun | .primary _ _ _ => true | _ => false
  let isUnique : Bool := c.clauses.any fun | .unique _ => true | _ => false
  let x ← d.addColumn { start with hasPrimary := false } c
  if isPrimary then refuse "Cannot add a PRIMARY KEY column"
  if isUnique then refuse "Cannot add a UNIQUE column"
  let new := x.table.column (x.table.columns.size - 1)
  let value : Option Expr := match new.fallback with
    | some (.literal .null) => none
    | e => e
  let hasReference : Bool :=
    c.clauses.any fun | .references _ => true | _ => false
  let checksRows : Bool := t.checks.length < x.table.checks.length ||
    (new.required.isSome && new.computed.isSome)
  let n := t.store
  return do
    if new.computed.isNone then
      if w.switches.checksDependences && hasReference && value.isSome then
        onlyEmpty t "Cannot add a REFERENCES column with non-NULL default value"
      if new.required.isSome && value.isNone then
        onlyEmpty t "Cannot add a NOT NULL column with default value NULL"
      if value.any (!isPlain ·) then
        onlyEmpty t "Cannot add a column with non-constant default"
    else if new.isStored then onlyEmpty t "cannot add a STORED column"
    Catalogue.revise n fun x =>
      if x.kind = "table" && isSame x.table t.name then
        some { x with text := x.text.map (Renaming.addColumn text) }
      else none
    finish n "after add column"
    if checksRows then
      let w ← get
      match (w.store n).schema.table? t.name with
      | none => return
      | some t =>
        let writer ← Work.ofFailing (Build.alone (Writer.ofTable w t))
        let rows ← Work.ofExcept (writer.plan.rows (.ofWorld w)).all
        rows.toList.forM fun row => do
          let whole ← Work.ofExcept (WholeRow.ofRow row)
          writer.checks.forM fun (_, m) => do
            if (← Work.ofExcept (m.answer (Writer.env w whole))) =
                some false then
              throw (.said "CHECK constraint failed")
          t.places.forM fun k => do
            if (t.column k).required.isSome && t.numberColumn ≠ some k &&
                whole.value k = .null then
              throw (.said "NOT NULL constraint failed")

/-- Drops a column. -/
def droppingColumn (w : World) (name : TableName) (column : String) :
    Except Failure (Work Unit) := do
  let t ← subject w name fun v => "cannot drop column from view \"" ++ v ++ "\""
  if t.isVirtual then
    refuse ("cannot drop column from virtual table \"" ++ t.name ++ "\"")
  match t.column? column with
  | none => refuse ("no such column: \"" ++ column ++ "\"")
  | some k =>
    let isPrimary := t.primary.contains k
    let isUnique : Bool := t.indexes.any fun i =>
      i.origin = .unique && i.parts.length = 1 &&
        i.parts.all fun p => p.column = some k
    if isPrimary then
      refuse ("cannot drop PRIMARY KEY column: \"" ++ (t.column k).name ++ "\"")
    if isUnique && hasOwnClause w t k then
      refuse ("cannot drop UNIQUE column: \"" ++ (t.column k).name ++ "\"")
    if t.columns.size = 1 then refuse ("cannot drop column \"" ++
      (t.column k).name ++ "\": no other columns exist")
    let n := t.store
    test w n ""
    return do
      let w ← get
      let writer ← Work.ofFailing (Build.alone (Writer.ofTable w t))
      let rows ← Work.ofExcept (writer.plan.rows (.ofWorld w)).all
      let whole ← Work.ofExcept (rows.toList.mapM WholeRow.ofRow)
      Catalogue.revise n fun x =>
        if x.kind = "table" && isSame x.table t.name then
          some { x with text := x.text.map (Renaming.dropColumn k) }
        else none
      finish n "after drop column"
      let w ← get
      match (w.store n).schema.table? t.name with
      | none => return
      | some t =>
        let writer ← Work.ofFailing (Build.alone (Writer.ofTable w t))
        whole.forM fun r =>
          writer.putRow { r with values := r.values.eraseIdxIfInBounds k }
where
  /-- Whether the definition of a column says itself that its values are
  unique. -/
  hasOwnClause (w : World) (t : Table) (k : Nat) : Bool :=
    match (w.listing t.store).1 with
    | .error _ => false
    | .ok rows => rows.any fun (_, x) =>
      x.kind = "table" && isSame x.table t.name && x.text.any fun text =>
        match Statement.next (Token.all text) with
        | .ok (some (.createTable _ _ _ table _, _)) =>
          (table.columns[k]?).any fun c =>
            c.clauses.any fun | .unique _ => true | _ => false
        | _ => false

/-- Alters a table. -/
def plan (w : World) (name : TableName) :
    Alteration → Except Failure (Work Unit)
  | .rename new => namingAnew w name new
  | .renameColumn old new => namingColumnAnew w name old new
  | .addColumn c text => addingColumn w name c text
  | .dropColumn column => droppingColumn w name column

end Alteration

end Bytecode.Database
