import Bytecode.Database.Reader

/-!
# Reading expressions

Operators bind in the order of the definitions below, the weakest first.  What
is nested is read by a grammar that can nest one level less, so reading comes to
an end.
-/

namespace Bytecode.Database.Reader

/-- Readers for what can be nested. -/
structure Grammar where
  expr : Reader Expr
  /-- An expression that binds as strongly as what follows a negation. -/
  question : Reader Expr
  query : Reader Query

/-- Takes operands with operators of one rank between them. -/
def chain {α : Type} (operator : Token → Option α)
    (build : α → Expr → Expr → Expr) (operand : Reader Expr) : Reader Expr := do
  let first ← operand
  let others ← many do
    match (← peek).bind operator with
    | some op =>
      modify List.tail
      return some (op, ← operand)
    | none => return none
  return others.foldl (fun a (op, b) => build op a b) first

/-- The operator that a mark is, among some. -/
def operatorOf (among : List (String × Binary)) (t : Token) : Option Binary :=
  if t.kind = .mark then among.lookup t.text else none

/-- Whether a query is at the head. -/
def aheadQuery : Reader Bool :=
  ahead fun t => t.isWord "select" || t.isWord "values" || t.isWord "with"

/-- Takes what rows are ordered by. -/
def orderItem (g : Grammar) : Reader OrderItem := do
  let value ← g.expr
  let isDescending ← direction
  let nullsFirst ← do
    if ← acceptWord "nulls" then
      if ← acceptWord "first" then pure (some true)
      else
        word "last"
        pure (some false)
    else pure none
  return { value, isDescending, nullsFirst }

/-- Takes an order, if there is one. -/
def order (g : Grammar) : Reader (List OrderItem) := do
  if ← acceptWords "order" ["by"] then list (orderItem g) else return []

/-- Takes an end of a frame; the first one can be the beginning of the window,
and the other one its end. -/
def frameBound (g : Grammar) (isFirst : Bool) : Reader FrameBound := do
  if ← acceptWord "unbounded" then
    word (if isFirst then "preceding" else "following")
    return if isFirst then .unboundedPreceding else .unboundedFollowing
  else if ← acceptWords "current" ["row"] then return .current
  else
    let n ← g.expr
    if ← acceptWord "preceding" then return .preceding n
    word "following"
    return .following n

/-- Takes what is left out of a frame. -/
def exclusion : Reader Exclusion := do
  if ← acceptWord "exclude" then
    if ← acceptWords "no" ["others"] then return .nothing
    else if ← acceptWords "current" ["row"] then return .current
    else if ← acceptWord "group" then return .group
    else
      word "ties"
      return .ties
  else return .nothing

/-- Refuses a frame that ends before it begins. -/
def checkBounds (start stop : FrameBound) : Reader Unit :=
  match start, stop with
  | .current, .preceding _ | .following _, .preceding _
      | .following _, .current =>
    objection "unsupported frame specification"
  | _, _ => return

/-- Takes a frame, if there is one. -/
def frame (g : Grammar) : Reader (Option Frame) := do
  let unit ← do
    if ← acceptWord "rows" then pure (some FrameUnit.rows)
    else if ← acceptWord "range" then pure (some .range)
    else if ← acceptWord "groups" then pure (some .groups)
    else pure none
  match unit with
  | none => return none
  | some unit =>
    if ← acceptWord "between" then
      let start ← frameBound g true
      word "and"
      let stop ← frameBound g false
      let exclude ← exclusion
      checkBounds start stop
      return some { unit, start, stop, exclude }
    else
      let start ← frameBound g true
      checkBounds start .current
      return some { unit, start, stop := .current, exclude := ← exclusion }

/-- Takes a window between parentheses. -/
def window (g : Grammar) : Reader Window := parenthesized do
  let isClause (t : Token) : Bool :=
    ["partition", "order", "rows", "range", "groups"].any t.isWord
  let named ← do
    let isName ← ahead isName
    let isClause ← ahead isClause
    pure (isName && !isClause)
  let base ← if named then some <$> name else pure none
  let parts ← if ← acceptWords "partition" ["by"] then list g.expr else pure []
  let order ← order g
  return { base, partition := parts, order, frame := ← frame g }

/-- Takes the use of a function, from behind its name. -/
def called (g : Grammar) (function : String) : Reader Expr := do
  mark "("
  let c ← do
    if ← acceptMark "*" then pure ({ name := function, isStar := true } : Call)
    else
      let isDistinct ← acceptWord "distinct"
      let _ ← if isDistinct then pure false else acceptWord "all"
      let args ← if ← ahead (·.isMark ")") then pure [] else list g.expr
      pure { name := function, args, isDistinct, order := ← order g }
  mark ")"
  let isFilter ← ahead (·.isWord "filter")
  let filter ← if isFilter && (← beyond (·.isMark "(")) then do
      word "filter"
      some <$> parenthesized (do word "where"; g.expr)
    else pure none
  let isOver ← ahead (·.isWord "over")
  let window ← if isOver && (← beyond fun t => t.isMark "(" || isName t) then do
      word "over"
      if ← ahead (·.isMark "(") then some <$> window g
      else pure (some { base := some (← name) })
    else pure none
  return .call { c with filter, window }

/-- Takes a choice, from behind the word that begins it. -/
def choice (g : Grammar) : Reader Expr := do
  let subject ← if ← ahead (·.isWord "when") then pure none else some <$> g.expr
  let case : Reader (Expr × Expr) := do
    word "when"
    let q ← g.expr
    word "then"
    return (q, ← g.expr)
  let first ← case
  let others ← many do
    if ← ahead (·.isWord "when") then some <$> case else return none
  let otherwise ← behind "else" g.expr
  word "end"
  return .choice subject (first :: others) otherwise

/-- Takes a refusal of a rule, from behind the word that begins it. -/
def raising (g : Grammar) : Reader Expr := parenthesized do
  if ← acceptWord "ignore" then return .raise .ignore none
  let action ← do
    if ← acceptWord "rollback" then pure Refusing.rollback
    else if ← acceptWord "abort" then pure .abort
    else
      word "fail"
      pure .fail
  mark ","
  return .raise action (some (← g.expr))

/-- Takes what stands between parentheses. -/
def nested (g : Grammar) : Reader Expr := parenthesized do
  if ← aheadQuery then return .row (← g.query)
  match ← list g.expr with
  | [e] => return e
  | es => return .list es

/-- Takes a column, from behind its first name, or what is computed by a
function. -/
def named (g : Grammar) (t : Token) : Reader Expr := do
  let isCall ← ahead (·.isMark "(")
  if t.kind = .word &&
      ["current_date", "current_time", "current_timestamp"].any t.isWord then
    return .call { name := t.text }
  else if isCall && t.kind ≠ .text then called g (nameOf t)
  else if ← acceptMark "." then
    let second ← name
    if ← acceptMark "." then
      return .name (some (nameOf t)) (some second) (← name) false
    return .name none (some (nameOf t)) second false
  else if t.kind = .text then return .literal (.text t.unquoted)
  else return .name none none (nameOf t) (t.text.startsWith "\"")

/-- The greatest number of a place for a value. -/
def maxPlace : Nat := 32766

/-- Takes a value: a literal, a column, what a function computes, or what stands
between parentheses. -/
def operand (g : Grammar) : Reader Expr := do
  if ← ahead (·.isMark "(") then nested g
  else if ← acceptWord "not" then return .unary .not (← g.question)
  else if ← acceptWord "null" then return .literal .null
  else if ← acceptWord "case" then choice g
  else if ← acceptWord "exists" then return .exists (← parenthesized g.query)
  else if ← acceptWord "cast" then parenthesized do
    let e ← g.expr
    word "as"
    return .cast e (← type)
  else if ← acceptWord "raise" then raising g
  else if ← ahead isNumber then return .number (← number)
  else
    match ← peek with
    | some t =>
      if t.kind = .place then
        modify List.tail
        match t.text.toList with
        | '?' :: c :: rest =>
          let n := Nat.ofDigitChars 10 (c :: rest) 0
          if n = 0 || maxPlace < n then
            objection ("variable number must be between ?1 and ?" ++
              Text.decimal 1 maxPlace)
        | _ => pure ()
        return .place t.text
      else if t.kind = .bytes then
        modify List.tail
        let digits := String.ofList (t.text.toList.drop 2).dropLast
        return .literal (.blob ((Text.ofHexBytes? digits).getD []))
      else if isName t then
        modify List.tail
        named g t
      else refuse
    | none => refuse

/-- Takes a value that may have a sign. -/
def signed (g : Grammar) : Reader Expr := do
  let signs ← many do
    match (← peek).bind
      (operatorOf [("-", .subtract), ("+", .add), ("~", .different)]) with
    | some op =>
      modify List.tail
      return some op
    | none => return none
  let e ← operand g
  let apply (op : Binary) : Unary :=
    if op = .subtract then .negate
    else if op = .add then .affirm else .complement
  return signs.reverse.foldl (fun e op => match e, apply op with
    | .unary .affirm inner, .negate => .unary .negate inner
    | .unary .affirm inner, .affirm => .unary .affirm inner
    | e, sign => .unary sign e) e

/-- Takes a value that may have a collation. -/
def collated (g : Grammar) : Reader Expr := do
  let e ← signed g
  let names ← many (behind "collate" name)
  return names.foldl .collate e

/-- Takes texts one behind the other, or parts of documents. -/
def joined (g : Grammar) : Reader Expr :=
  chain (operatorOf [("||", .join), ("->", .part), ("->>", .partValue)]) .binary
    (collated g)

/-- Takes a product. -/
def product (g : Grammar) : Reader Expr :=
  chain (operatorOf [("*", .multiply), ("/", .divide), ("%", .remainder)])
    .binary (joined g)

/-- Takes a sum. -/
def sum (g : Grammar) : Reader Expr :=
  chain (operatorOf [("+", .add), ("-", .subtract)]) .binary (product g)

/-- Takes a computation with bits. -/
def bits (g : Grammar) : Reader Expr :=
  chain (operatorOf [("&", .bitAnd), ("|", .bitOr), ("<<", .shiftLeft),
    (">>", .shiftRight)]) .binary (sum g)

/-- Takes a comparison by order. -/
def relation (g : Grammar) : Reader Expr :=
  chain (operatorOf [("<", .less), ("<=", .lessOrEqual), (">", .greater),
    (">=", .greaterOrEqual)]) .binary (bits g)

/-- Takes what a value is to be among, from behind the word in front of it. -/
def among (g : Grammar) (isNot : Bool) : Reader (Expr → Expr) := do
  if ← ahead (·.isMark "(") then
    parenthesized do
      if ← aheadQuery then
        let q ← g.query
        return fun a => .amongRows isNot a q
      let items ← if ← ahead (·.isMark ")") then pure [] else list g.expr
      return fun a => .amongValues isNot a items
  else
    let table ← tableName
    if ← ahead (·.isMark "(") then
      let args ← parenthesized (if ← ahead (·.isMark ")") then pure [] else
          list g.expr)
      let source : Source := { content := .function table args }
      return fun a => .amongRows isNot a
        { first := .select { items := [.all], sources := [source] } }
    return fun a => .amongTable isNot a table

/-- The way to ask for a form that a word names. -/
def patternOf? (t : Token) : Option Pattern :=
  if t.isWord "like" then some .like
  else if t.isWord "glob" then some .glob
  else if t.isWord "regexp" then some .regexp
  else if t.isWord "match" then some .search
  else none

/-- Takes what is asked about a value, which may be negated. -/
def negatable (g : Grammar) (isNot : Bool) : Reader (Option (Expr → Expr)) := do
  if ← acceptWord "in" then some <$> among g isNot
  else if ← acceptWord "between" then
    let low ← g.question
    -- what stands behind this word takes the other limit with it
    if ← acceptWord "or" then
      let _ ← g.expr
      refuse
    word "and"
    let high ← relation g
    return some fun a => .between isNot a low high
  else
    match (← peek).bind patternOf? with
    | some op =>
      modify List.tail
      let b ← relation g
      let escape ← behind "escape" (relation g)
      return some fun a => .pattern op isNot a b escape
    | none => return none

/-- Takes what is asked about a value. -/
def asked (g : Grammar) : Reader (Option (Expr → Expr)) := do
  match (← peek).bind (operatorOf [("=", .equal), ("==", .equal),
    ("<>", .different), ("!=", .different)]) with
  | some op =>
    modify List.tail
    let b ← relation g
    return some (.binary op · b)
  | none =>
    if ← acceptWord "is" then
      let isNot ← acceptWord "not"
      let isDistinct ← acceptWords "distinct" ["from"]
      let b ← relation g
      return some (.binary (if isNot ≠ isDistinct then .distinct else
          .same) · b)
    else if ← acceptWord "isnull" then return some (.isNull false)
    else if ← acceptWord "notnull" then return some (.isNull true)
    else if ← ahead (·.isWord "not") then
      word "not"
      if ← acceptWord "null" then return some (.isNull true)
      match ← negatable g true with
      | some build => return some build
      | none => refuse
    else negatable g false

/-- Takes a question about one value or several. -/
def equality (g : Grammar) : Reader Expr := do
  let first ← relation g
  let others ← many (asked g)
  return others.foldl (fun a build => build a) first

/-- Takes questions that are all to be answered with yes. -/
def conjunction (g : Grammar) : Reader Expr :=
  chain (fun t => if t.isWord "and" then some () else none)
    (fun _ => .binary .and) (equality g)

/-- Takes questions one of which is to be answered with yes. -/
def disjunction (g : Grammar) : Reader Expr :=
  chain (fun t => if t.isWord "or" then some () else none)
    (fun _ => .binary .or) (conjunction g)

/-- The kinds of joins that words mean: whether they say so by themselves, and
what they say. -/
def joinOf? (words : List String) : Option (JoinKind × Bool × Bool) :=
  let has (w : String) : Bool := words.contains w
  let isLeft := has "left" || has "full"
  let isRight := has "right" || has "full"
  let isOuter := isLeft || isRight || has "outer"
  let isInner := has "inner" || has "cross"
  if !words.all joinWords.contains || (isInner && isOuter) ||
      (isOuter && !isLeft && !isRight) then none
  else
    let kind : JoinKind :=
      if isLeft && isRight then .full else if isLeft then .left
      else if isRight then .right else .inner
    some (kind, has "natural", has "cross")

/-- Takes what brings a table together with those in front. -/
def join : Reader (Option (JoinKind × Bool × Bool)) := do
  if ← acceptMark "," then return some (.inner, false, false)
  else if ← acceptWord "join" then return some (.inner, false, false)
  else if ← ahead fun t => t.kind = .word && joinWords.contains (Token.lowered
    t.text) then
    let first ← name
    let others ← many do if ← ahead isName then some <$> name else return none
    if 2 < others.length then refuse
    word "join"
    match joinOf? ((first :: others).map Token.lowered) with
    | some j => return some j
    | none => objection ("unknown join type: " ++
        String.intercalate " " (first :: others))
  else return none

/-- Takes a name that is given to something, if there is one. -/
def label : Reader (Option String) := do
  if ← acceptWord "as" then some <$> name
  else
    let rest := (← get).drop 1
    let isWindow :=
      rest.head?.any isName && (rest.drop 1).head?.any (·.isWord "as")
    if ← ahead fun t => isLabel t && !t.isWord "indexed" &&
        !(t.isWord "window" && isWindow) then
      some <$> name
    else return none

/-- Takes the name of the index that is to be used, if there is one. -/
def indexChoice : Reader (Option String) := do
  if ← acceptWords "indexed" ["by"] then some <$> name
  else if ← aheadWords "not" "indexed" then
    word "not"
    word "indexed"
    return none
  else return none

/-- Takes what a source is, the name it is given, and the index that is to be
used. -/
def sourceContent (g : Grammar) (sources : Reader (List Source)) :
    Reader (SourceContent × Option String × Option String) := do
  if ← ahead (·.isMark "(") then
    let content ← parenthesized do
      if ← aheadQuery then return SourceContent.query (← g.query)
      else return .sources (← sources)
    return (content, ← label, none)
  else
    let table ← tableName
    let content ← if ← ahead (·.isMark "(") then
        SourceContent.function table <$> parenthesized
          (do if ← ahead (·.isMark ")") then pure [] else list g.expr)
      else pure (.table table)
    let label ← label
    return (content, label, ← indexChoice)

/-- Takes sources, which can be nested so deep. -/
def sources (g : Grammar) : Nat → Reader (List Source)
  | 0 => refuse
  | fuel + 1 => do
    let one (kind : JoinKind) (isNatural isCross : Bool) : Reader Source := do
      let (content, label, index) ← sourceContent g (sources g fuel)
      let condition ← behind "on" g.expr
      let shared ← if condition.isSome then pure []
        else if ← acceptWord "using" then parenthesized (list name)
        else pure []
      return { content, label, kind, isNatural, isCross, condition,
               shared, index }
    let first ← one .inner false false
    let others ← many do
      match ← join with
      | some (kind, isNatural, isCross) => some <$> one kind isNatural isCross
      | none => return none
    return first :: others

/-- Takes something that is shown. -/
def item (g : Grammar) : Reader Item := do
  if ← acceptMark "*" then return .all
  match ← get with
  | t :: dot :: star :: rest =>
    if isName t && dot.isMark "." && star.isMark "*" then
      set rest
      return .allOf (nameOf t)
    else expression
  | _ => expression
where
  /-- Takes an expression with its name. -/
  expression : Reader Item := do
    let (e, text) ← spelled g.expr
    return .value e (← label) text

/-- Takes what is shown of rows, from behind the word that begins it. -/
def select (g : Grammar) : Reader Select := do
  let isDistinct ← acceptWord "distinct"
  let _ ← if isDistinct then pure false else acceptWord "all"
  let items ← list (item g)
  let sources ←
    if ← acceptWord "from" then sources g ((← get).length + 1) else pure []
  let condition ← behind "where" g.expr
  let group ← if ← acceptWords "group" ["by"] then list g.expr else pure []
  let having ← behind "having" g.expr
  let windows ← if ← acceptWord "window" then list do
      let name ← name
      word "as"
      return (name, ← window g)
    else pure []
  return { isDistinct, items, sources, condition, group, having, windows }

/-- A part of a query with the order and the bounds that stand behind it. -/
structure Arm where
  core : Core
  order : List OrderItem := []
  limit : Option Expr := none
  offset : Option Expr := none

/-- Takes a part of a query. -/
def arm (g : Grammar) : Reader Arm := do
  if ← acceptWord "values" then
    return { core := .values (← list (parenthesized (list g.expr))) }
  word "select"
  let core := Core.select (← select g)
  let order ← order g
  if ← acceptWord "limit" then
    let first ← g.expr
    if ← acceptWord "offset" then
      return { core, order, limit := some first, offset := some (← g.expr) }
    else if ← acceptMark "," then
      return { core, order, limit := some (← g.expr), offset := some first }
    else return { core, order, limit := some first }
  else return { core, order }

/-- The name of a way to bring queries together. -/
def compoundName : Compound → String
  | .union => "UNION"
  | .unionAll => "UNION ALL"
  | .intersect => "INTERSECT"
  | .except => "EXCEPT"

/-- Takes a way to bring queries together. -/
def compound : Reader (Option Compound) := do
  if ← acceptWord "union" then
    return some (if ← acceptWord "all" then .unionAll else .union)
  else if ← acceptWord "intersect" then return some .intersect
  else if ← acceptWord "except" then return some .except
  else return none

/-- Takes queries with names, if there are any; the flag tells whether they may
speak of themselves. -/
def namedQueries (g : Grammar) : Reader (List NamedQuery × Bool) := do
  if ← acceptWord "with" then
    let isRecursive ← do
      let isWord ← ahead (·.isWord "recursive")
      let isNamed ← beyond isName
      if isWord && isNamed then acceptWord "recursive" else pure false
    let named ← list do
      let name ← name
      let columns ← names
      word "as"
      if ← acceptWord "not" then word "materialized"
      else
        let _ ← acceptWord "materialized"
      return ({ name, columns, query := ← parenthesized g.query } : NamedQuery)
    return (named, isRecursive)
  else return ([], false)

/-- Takes a query behind the queries that have names in it. -/
def queryBehind (g : Grammar) (named : List NamedQuery) (isRecursive : Bool) :
    Reader Query := do
  let first ← arm g
  let others ← many do
    match ← compound with
    | some op => return some (op, ← arm g)
    | none => return none
  let all := first :: others.map (·.2)
  -- only the last part may be followed by an order
  match (all.zip (others.map (·.1))).reverse.find? fun (a, _) =>
    !a.order.isEmpty || a.limit.isSome with
  | some (a, op) =>
    objection ((if a.order.isEmpty then "LIMIT" else "ORDER BY") ++
      " clause should come after " ++ compoundName op ++ " not before")
  | none =>
    let last := all.getLast?.getD first
    return { named, isRecursive, first := first.core
             rest := others.map fun (op, a) => (op, a.core)
             order := last.order, limit := last.limit, offset := last.offset }

/-- Takes a query. -/
def wholeQuery (g : Grammar) : Reader Query := do
  let (named, isRecursive) ← namedQueries g
  queryBehind g named isRecursive

/-- The grammar of what is nested so deep. -/
def grammar : Nat → Grammar
  | 0 => { expr := refuse, question := refuse, query := refuse }
  | depth + 1 =>
    let g := grammar depth
    { expr := disjunction g, question := equality g, query := wholeQuery g }

/-- The grammar for what is left. -/
def whole : Reader Grammar := return grammar ((← get).length + 1)

/-- Takes an expression. -/
def expr : Reader Expr := do (← whole).expr

/-- Takes a query. -/
def query : Reader Query := do (← whole).query

end Bytecode.Database.Reader
