import Bytecode.Database.Meaning.Call

/-!
# The meanings of expressions

A value that comes straight from a column brings the affinity and the collation
of the column into comparisons.  Several values that stand together are compared
one after the other.  A query in an expression is its first value, its first
row, or the set of its rows.
-/

namespace Bytecode.Database

/-- The number that a text spells, perhaps behind a minus sign. -/
def numberOf (isNegative : Bool) (text : String) : Build Value :=
  let signed (v : Value) : Value := match v with
    | .integer n => .integer (if isNegative then -n else n)
    | .real bits =>
        .real (if isNegative then bits ^^^ 0x8000000000000000 else bits)
    | v => v
  match text.toList with
  | '0' :: x :: rest =>
    if x = 'x' || x = 'X' then
      let digits := rest.dropWhile (· = '0')
      let n := digits.foldl (fun n c => 16 * n + (Text.hexDigit? c).getD 0) 0
      if 16 < digits.length || (isNegative && n = 0x8000000000000000) then
        Build.refuse
          ("hex literal too big: " ++ (if isNegative then "-" else "") ++ text)
      else
        return .integer (Int.bmod (if isNegative then -(Int.bmod n Word.size64)
          else (n : Int)) Word.size64)
    else return plain ('0' :: x :: rest) signed
  | cs => return plain cs signed
where
  /-- The number that decimal digits spell; the least whole number is one only
  with its sign. -/
  plain (cs : List Char) (signed : Value → Value) : Value :=
    if isNegative then (Value.literal? ('-' :: cs)).getD .null
    else signed ((Value.literal? cs).getD .null)

namespace Meaning

/-- The environment of a query that stands in an expression.  One that does not
speak of what is around it sees the databases as the statement found them. -/
def inner (p : Plan) (env : Env) : Env :=
  if p.isBound then env else { env with world := env.start }

/-- The first row of a query. -/
def firstRow (p : Plan) (env : Env) : Except Stop (Option (Array Value)) :=
  (p.run (inner p env)).first

/-- A column of the first row of a query; null if there is none. -/
def ofPlan (p : Plan) (uses : List (Nat × Nat)) : Meaning :=
  let column (n : Nat) : Meaning :=
    let c := (p.columns[n]?).getD default
    { eval := fun env => do
      return (((← firstRow p env).bind fun r => r[n]?).getD .null),
      affinity := c.affinity, collation := c.collation, uses, hasQuery := true,
      nature := c.nature }
  if p.columns.length = 1 then column 0
  else { column 0 with parts := (List.range p.columns.length).map column }

/-- The answer to a comparison of single values. -/
def compareOne (op : Binary) (a b : Meaning) : Build Meaning := do
  let collation := commonCollation a b
  checkCollation collation
  let affinity := Operator.common a.affinity b.affinity
  return { combining [a, b] (fun env => do
      let x ← a.eval env
      let y ← b.eval env
      return .ofTruth
        (Operator.compared env.encoding collation affinity op x y)) with
    sides := if op = .equal || op = .same then some (a, b) else none }

/-- The answer to a comparison of several values in order: the first two that
differ decide. -/
def lexical (op : Binary) :
    List (Meaning × Meaning) → Env → Except Stop (Option Bool)
  | [], _ => .ok (some (op = .lessOrEqual || op = .greaterOrEqual))
  | (a, b) :: rest, env => do
    let x ← a.eval env
    let y ← b.eval env
    match Operator.order? env.encoding (commonCollation a b)
      (Operator.common a.affinity b.affinity) x y with
    | none => return none
    | some .eq => lexical op rest env
    | some o => return some (Operator.answer op o)

/-- The answer to the question whether several values are the same. -/
def together (isNullSame : Bool) :
    List (Meaning × Meaning) → Env → Except Stop (Option Bool)
  | [], _ => .ok (some true)
  | (a, b) :: rest, env => do
    let x ← a.eval env
    let y ← b.eval env
    let affinity := Operator.common a.affinity b.affinity
    let here := Operator.compared env.encoding (commonCollation a b) affinity
      (if isNullSame then .same else .equal) x y
    if here = some false then return some false
    return Operator.both here (← together isNullSame rest env)

/-- The answer to a comparison. -/
def compare (op : Binary) (a b : Meaning) : Build Meaning := do
  if a.parts.isEmpty && b.parts.isEmpty then compareOne op a b
  else if a.width ≠ b.width then
    if a.parts.isEmpty then
      let _ ← b.scalar
    else if b.parts.isEmpty && a.hasQuery then
      let _ ← a.scalar
    Build.refuse "row value misused"
  else
    let pairs := a.all.zip b.all
    pairs.forM fun (x, y) => checkCollation (commonCollation x y)
    let not (r : Except Stop (Option Bool)) : Except Stop (Option Bool) :=
      r.map (·.map (!·))
    return combining [a, b] fun env => Value.ofTruth <$>
      match op with
      | .equal => together false pairs env
      | .same => together true pairs env
      | .different => not (together false pairs env)
      | .distinct => not (together true pairs env)
      | op => lexical op pairs env

/-- Whether a value is among others, where null leaves the answer open. -/
def amongAnswer (found hasNull : Bool) (isEmpty : Bool) (subject : Value) :
    Option Bool :=
  if isEmpty then some false
  else if subject = .null then none
  else if found then some true
  else if hasNull then none
  else some false

/-- The answer with its opposite if that is asked for. -/
def negated (isNot : Bool) (answer : Option Bool) : Value :=
  .ofTruth (if isNot then answer.map (!·) else answer)

/-- Whether a value is among those of expressions. -/
def amongList (isNot : Bool) (a : Meaning) (items : List Meaning) :
    Build Meaning := do
  let collation := a.collation.getD .binary
  if !items.isEmpty then checkCollation collation
  let affinity : Affinity := match a.affinity with
    | some x => if x.isNumeric then .numeric else x
    | none => .plain
  return combining (a :: items) fun env => do
    let x ← a.eval env
    let values ← evalAll items env
    let found := values.any fun y =>
      Operator.compared env.encoding collation affinity .equal x y = some true
    return negated isNot
      (amongAnswer found (values.contains .null) values.isEmpty x)

/-- Whether values are among the rows of a query. -/
def amongRows (isNot : Bool) (a : Meaning) (p : Plan)
    (uses : List (Nat × Nat)) : Build Meaning := do
  if a.width ≠ p.columns.length then
    if a.parts.isEmpty then
      Build.refuse ("sub-select returns " ++ Text.decimal 1 p.columns.length ++
        " columns - expected 1")
    else
      Build.refuse ("sub-select returns " ++ Text.decimal 1 p.columns.length ++
        " columns - expected " ++ Text.decimal 1 a.width)
  let pairs := a.all.zip p.columns
  let keys := pairs.map fun (m, c) =>
    let other : Meaning :=
      { constant .null with affinity := c.affinity, collation := c.collation }
    (commonCollation m other, Operator.common m.affinity c.affinity)
  keys.forM fun (c, _) => checkCollation c
  return { combining [a] (fun env => do
      let xs ← evalAll a.all env
      let rows ← (p.run (inner p env)).all
      let answers := rows.map fun row =>
        ((keys.zip xs).zip row.toList).foldl (fun answer (((c, aff), x), y) =>
          Operator.both answer
            (Operator.compared env.encoding c aff .equal x y)) (some true)
      let found := answers.contains (some true)
      let isOpen := answers.contains none
      let subject :=
        if xs.contains .null && a.width = 1 then Value.null else .integer 0
      return negated isNot (amongAnswer found isOpen rows.isEmpty subject)) with
    uses := (a.uses ++ uses).eraseDups, hasQuery := true }

/-- The value of a choice without a subject. -/
def chosen (cases : List (Meaning × Meaning)) (otherwise : Option Meaning)
    (env : Env) : Except Stop Value :=
  match cases with
  | (question, value) :: rest => do
    if ← question.holds env then value.eval env else chosen rest otherwise env
  | [] => (otherwise.map (·.eval env)).getD (.ok .null)

end Meaning

namespace Expr

/-- The meaning of a query in an expression, with what it looks at. -/
def nested (mk : Maker) (cx : Context) (q : Query) :
    Build (Plan × List (Nat × Nat)) := do
  Call.prohibit cx "subqueries" [.check, .index, .partialIndex, .computed]
  let (p, isBound) ← Build.watched (mk.query cx.nested q)
  -- which sources it looks at is not known, so it waits for all of them
  let uses :=
    if isBound then (List.range (cx.scope.sources.size)).map ((0, ·)) else []
  return ({ p with isBound }, uses)

/-- The meaning of an operator between two expressions. -/
def binaryMeaning (mk : Maker) (cx : Context) (op : Binary) (a b : Expr) :
    Build Meaning := do
  let x ← mk.expr cx a
  let y ← mk.expr cx b
  match op with
  | .equal | .different | .less | .lessOrEqual | .greater | .greaterOrEqual =>
      Meaning.compare op x y
  | .same | .distinct =>
    match y.truth with
    | some t =>
      let x ← x.scalar
      return .combining [x] fun env => do
        return .ofBool (((← x.answer env) = some t) = (op = .same))
    | none => Meaning.compare op x y
  | .and =>
    let x ← x.scalar
    let y ← y.scalar
    return .combining [x, y] fun env => do
      let p ← x.answer env
      if p = some false then return .integer 0
      return .ofTruth (Operator.both p (← y.answer env))
  | .or =>
    let x ← x.scalar
    let y ← y.scalar
    return .combining [x, y] fun env => do
      let p ← x.answer env
      if p = some true then return .integer 1
      return .ofTruth (Operator.either p (← y.answer env))
  | .part | .partValue =>
    let x ← x.scalar
    let y ← y.scalar
    Call.plain cx { name := if op = .part then "->" else "->>" } [x, y]
  | .join =>
    let x ← x.scalar
    let y ← y.scalar
    return .combining [x, y] fun env => do
      return Operator.joined env.encoding (← x.eval env) (← y.eval env)
  | .bitAnd | .bitOr | .shiftLeft | .shiftRight =>
    let x ← x.scalar
    let y ← y.scalar
    return .combining [x, y] fun env => do
      return Operator.bits env.encoding op (← x.eval env) (← y.eval env)
  | .add | .subtract | .multiply | .divide | .remainder =>
    let x ← x.scalar
    let y ← y.scalar
    return .combining [x, y] fun env => do
      return Operator.arithmetic env.encoding op (← x.eval env) (← y.eval env)

/-- The meaning of an operator in front of an expression. -/
def unaryMeaning (mk : Maker) (cx : Context) (op : Unary) (a : Expr) :
    Build Meaning := do
  match op, a with
  | .negate, .number text => return .constant (← numberOf true text)
  | op, a =>
    let x ← (← mk.expr cx a).scalar
    let m := Meaning.combining [x] fun env => do
      return Operator.unary env.encoding op (← x.eval env)
    return if op = .affirm then
        { m with collation := x.collation, isCollated := x.isCollated,
                 nature := x.nature }
      else m

/-- The meaning of a choice with a subject: it is compared until it is found. -/
def choiceMeaning (mk : Maker) (cx : Context) (subject : Option Expr)
    (cases : List (Expr × Expr)) (otherwise : Option Expr) : Build Meaning := do
  let subject ← subject.mapM (mk.expr cx)
  let cases ← cases.mapM fun (question, value) => do
    let q ← mk.expr cx question
    let q ← match subject with
      | some s => Meaning.compare .equal s q
      | none => q.scalar
    return (q, ← (← mk.expr cx value).scalar)
  let otherwise ← otherwise.mapM fun x => do (← mk.expr cx x).scalar
  let all := cases.flatMap (fun (q, v) => [q, v]) ++ otherwise.toList
  return { Meaning.combining all (Meaning.chosen cases otherwise) with
    nature := .common
      (cases.map (fun (_, v) => v.nature) ++ otherwise.toList.map (·.nature)) }

/-- The meaning of a refusal. -/
def raiseMeaning (mk : Maker) (cx : Context) (action : Refusing)
    (message : Option Expr) : Build Meaning := do
  let message ← message.mapM (mk.expr cx)
  if !cx.inRule then
    Build.refuse "RAISE() may only be used within a trigger-program"
  return .combining message.toList fun env => do
    match message with
    | none => throw .skip
    | some m =>
      let v ← m.eval env
      throw (.failed (.raised (v.shown env.encoding)) action)

/-- The meaning of a search in a column.  It is answered where rows are found,
and nowhere else. -/
def searchMeaning (mk : Maker) (cx : Context) (a b : Expr) : Build Meaning := do
  let x ← (← mk.expr cx a).scalar
  let y ← (← mk.expr cx b).scalar
  return { Meaning.combining [x, y] (fun env =>
      match x.spot.bind fun s => (env.row s.depth s.source).found with
      | some _ => .ok (.integer 1)
      | none => .error (.said
          "unable to use function MATCH in the requested context")) with
    search := x.spot.map (·, y) }

/-- The affinity of a type that a value is made into. -/
def castAffinity (type : String) : Affinity :=
  if type = "" then .numeric else .ofType type

/-- The query that shows all of a table. -/
def wholeTable (table : TableName) : Query :=
  { first :=
      .select { items := [.all], sources := [{ content := .table table }] } }

/-- The meaning of an expression. -/
def meaning (mk : Maker) (cx : Context) : Expr → Build Meaning
  | .literal v => return .constant v
  | .number text => return .constant (← numberOf false text)
  | .name database table column isQuoted => do
    if table.isSome then Call.prohibit cx "the \".\" operator" [.index]
    cx.name database table column isQuoted
  | .place text => do
    Call.prohibit cx "parameters" [.check, .index, .partialIndex, .computed]
    let n :=
      ((Value.literal? (text.toList.drop 1)).map (·.toWhole .utf8)).getD 1
    return .constant (cx.args.getD (n.toNat - 1) .null)
  | .unary op a => unaryMeaning mk cx op a
  | .binary op a b => binaryMeaning mk cx op a b
  | .isNull isNot a => do
    let x ← (← mk.expr cx a).scalar
    return .combining [x] fun env => do
      return .ofBool (((← x.eval env) = .null) ≠ isNot)
  | .between isNot a low high => do
    let x ← mk.expr cx a
    let l ← mk.expr cx low
    let h ← mk.expr cx high
    let above ← Meaning.compare .greaterOrEqual x l
    let below ← Meaning.compare .lessOrEqual x h
    return .combining [above, below] fun env => do
      let p ← above.answer env
      let answer ← if p = some false then pure (some false)
        else do pure (Operator.both p (← below.answer env))
      return Meaning.negated isNot answer
  -- nothing is among no values, whatever it is
  | .amongValues isNot _ [] =>
      return { Meaning.constant (.ofBool isNot) with truth := some isNot }
  | .amongValues isNot a items => do
    let x ← mk.expr cx a
    let ms ← items.mapM (mk.expr cx)
    match x.parts, ms with
    | [], ms =>
      let ms ← ms.mapM Meaning.scalar
      Meaning.amongList isNot x ms
    | _ :: _, _ =>
      let cases ← ms.mapM fun m => do
        if m.width ≠ x.width then
          Build.refuse ("IN(...) element has " ++ Text.decimal 1 m.width ++
            " term" ++ (if m.width = 1 then "" else "s") ++ " - expected " ++
            Text.decimal 1 x.width)
        Meaning.compare .equal x m
      return .combining (x :: ms) fun env => do
        let answers ← cases.mapM (·.answer env)
        return Meaning.negated isNot
          (answers.foldl Operator.either (some false))
  | .amongRows isNot a q => do
    let x ← mk.expr cx a
    let (p, uses) ← nested mk cx q
    Meaning.amongRows isNot x p uses
  | .amongTable isNot a table => do
    let x ← mk.expr cx a
    let (p, uses) ← nested mk cx (wholeTable table)
    Meaning.amongRows isNot x p uses
  | .pattern .search false a b none => searchMeaning mk cx a b
  | .pattern op isNot a b escape => do
    let function := match op with
      | .like => "like"
      | .glob => "glob"
      | .regexp => "regexp"
      | .search => "match"
    let m ← Call.meaning mk cx
      { name := function, args := b :: a :: escape.toList }
    return .combining [m] fun env => do
      return Meaning.negated isNot (← m.answer env)
  | .exists q => do
    let (p, uses) ← nested mk cx q
    return { Meaning.combining [] (fun env => do
      return .ofBool (← Meaning.firstRow p env).isSome) with
      uses, hasQuery := true }
  | .row q => do
    let (p, uses) ← nested mk cx q
    return Meaning.ofPlan p uses
  | .choice subject cases otherwise =>
      choiceMeaning mk cx subject cases otherwise
  | .call c => Call.meaning mk cx c
  | .cast a type => do
    let x ← (← mk.expr cx a).scalar
    let affinity := castAffinity type
    return { Meaning.combining [x] (fun env => do
      return (← x.eval env).cast env.encoding affinity) with
      affinity := some affinity, collation := x.collation, isCollated :=
        x.isCollated, nature := x.nature }
  | .collate a label => do
    let x ← mk.expr cx a
    let c := Collation.named label
    let set (m : Meaning) : Meaning :=
      { m with collation := some c, isCollated := true, spot := m.spot }
    return { set x with parts := x.parts.map set }
  | .list items => do
    let ms ← items.mapM fun x => do (← mk.expr cx x).scalar
    return { Meaning.combining ms (fun _ => .ok .null) with parts := ms }
  | .raise action message => raiseMeaning mk cx action message

end Expr

end Bytecode.Database
