import Bytecode.Database.Change.Writer

/-!
# Rows that depend on others

A row depends on a row of another table if its columns repeat the key of that
one.  It is counted how many rows do not find what they depend on: some of them
must find it before the statement ends, the others before the transaction does.
What else happens when a row goes or changes on which others depend is written
as steps of a rule.
-/

namespace Bytecode.Database

namespace Link

/-- The values that a row of the child repeats, in the order of the key. -/
def repeated (l : Link) (r : WholeRow) : List Value :=
  l.pairs.map fun (c, _) => r.value c

/-- The key of a row of the parent. -/
def keyOf (l : Link) (r : WholeRow) : List Value :=
  l.pairs.map fun (_, p) => r.value p

/-- Whether a row of the child finds what it depends on. -/
def isFound (l : Link) (r : WholeRow) :
    Work Bool := do Work.ofFailing (l.isKey (← get) (l.repeated r))

/-- The number of rows of the child that repeat a key, without the row
itself. -/
def dependents (l : Link) (r : WholeRow) (itself : Bool) : Work Nat := do
  let world ← get
  let key := l.keyOf r
  if key.contains .null then return 0
  let p ← Work.ofFailing (Build.alone (Access.plan meanings world l.child))
  let rows ← Work.ofExcept (p.rows (.ofWorld world)).all
  let isOther (x : WholeRow) : Bool :=
    itself || !isOneTable l.child l.parent ||
      (if l.child.isNumbered then x.number ≠ r.number
       else l.child.primary.map x.value ≠ l.child.primary.map r.value)
  let all ← Work.ofExcept (rows.mapM WholeRow.ofRow)
  return (all.filter fun x => l.agree world.encoding key (l.repeated x) &&
    isOther x).size

/-- Counts rows that do not find what they depend on; what has not been counted
is not taken back. -/
def count (l : Link) (n : Int) : Work Unit :=
  modify fun w =>
    if w.switches.defersDependences || l.dependence.isDeferred then
      if n < 0 && w.deferred = 0 then w
      else { w with deferred := w.deferred + n }
    else if n < 0 && w.pending = 0 then w
    else { w with pending := w.pending + n }

/-- Counts a row of the child that goes. -/
def leave (l : Link) (r : WholeRow) : Work Unit := do
  if !(← l.isFound r) then l.count (-1)

/-- Counts a row of the child that comes; it may depend on itself.  It is
refused at once if what it depends on must be there before. -/
def arrive (l : Link) (isAlone : Bool) (r : WholeRow) : Work Unit := do
  let isOwn : Bool := isOneTable l.child l.parent &&
    l.agree (← get).encoding (l.keyOf r) (l.repeated r)
  if !isOwn then
    if !(← l.isFound r) then
      let isDeferred :=
        (← get).switches.defersDependences || l.dependence.isDeferred
      if isAlone && !isDeferred then Work.fail .dangling else l.count 1

/-- Counts the rows that depended on a row of the parent that goes. -/
def abandon (l : Link) (r : WholeRow) : Work Unit := do
  let n ← l.dependents r false
  if n ≠ 0 then l.count n

/-- Counts the rows that find a row of the parent that comes. -/
def adopt (l : Link) (r : WholeRow) : Work Unit := do
  let n ← l.dependents r true
  if n ≠ 0 then l.count (-(n : Int))

/-- The name of a column behind the word for one of the two forms of a row. -/
def formerly (form column : String) : Expr :=
  .name none (some form) column false

/-- The condition that a row of the child repeats the key that a row of the
parent had. -/
def condition (l : Link) : Expr :=
  let parts := l.pairs.map fun (c, p) =>
    Expr.binary .equal (formerly "old" (l.parent.column p).name)
      (.name none none (l.child.column c).name false)
  match parts with
  | [] => .number "1"
  | x :: rest => rest.foldl (.binary .and) x

/-- The condition that the key of a row of the parent has changed. -/
def hasChanged (l : Link) : Expr :=
  let parts := l.pairs.map fun (_, p) =>
    let name := (l.parent.column p).name
    Expr.binary .same (formerly "old" name) (formerly "new" name)
  match parts with
  | [] => .number "1"
  | x :: rest => .unary .not (rest.foldl (.binary .and) x)

/-- What is done with the rows that depend on a row of the parent which goes, or
changes. -/
def step? (l : Link) (isUpdate : Bool) (f : Following) : Option RuleStep :=
  let table : TableName := { name := l.child.name }
  let set (value : Nat × Nat → Expr) : RuleStep :=
    let changes : List Assignment := l.pairs.map fun p =>
      { columns := [(l.child.column p.1).name], value := value p }
    .update { table, changes, condition := some l.condition }
  match f with
  | .nothing => none
  | .restrict => some (.select
      { first := .select
          { items := [.value (.raise .abort
              (some (.literal (.text "FOREIGN KEY constraint failed"))))
              none ""],
            sources := [{ content := .table table }],
            condition := some l.condition } })
  | .setNull => some (set fun _ => .literal .null)
  | .setDefault =>
      some (set fun (c, _) => (l.child.column c).fallback.getD (.literal .null))
  | .cascade =>
    if isUpdate then
      some (set fun (_, p) => formerly "new" (l.parent.column p).name)
    else some (.delete { table, condition := some l.condition })

/-- The rule that follows when a row of the parent goes, or changes. -/
def rule? (world : World) (l : Link) (isUpdate : Bool) : Option Rule :=
  let f := if isUpdate then l.dependence.onUpdate else l.dependence.onDelete
  if f = .restrict && world.switches.defersDependences then none
  else (l.step? isUpdate f).map fun step =>
    { name := "", store := l.parent.store, text :=
        { time := .after, event := if isUpdate then .update none else .delete,
          table := { name := l.parent.name }, condition :=
            if isUpdate then some l.hasChanged else none, steps := [step] } }

end Link

/-- What a table has to do with others. -/
structure Links where
  /-- What it depends on. -/
  above : List Link := []
  /-- What depends on it. -/
  below : List Link := []
  /-- Whether one row comes and nothing else happens, so what it depends on must
  be there before. -/
  isAlone : Bool := false
  deriving Inhabited

namespace Links

/-- Whether a change of some columns of a table can have to do with other
tables. -/
def concern (world : World) (t : Table) (changed : List Nat) : Bool :=
  world.switches.checksDependences && (t.dependences.any
    (fun d => d.columns.any changed.contains) || (Link.onTable world t).any
    fun (_, d) => (Link.meantBy t d).any changed.contains)

/-- What a new row of a table has to do with other tables.  One that comes alone
cannot be missed by rows that depend on it, unless these may have been waiting
for it since an earlier statement. -/
def ofNew (world : World) (t : Table) (isAlone : Bool) :
    Except Failure Links := do
  if !world.switches.checksDependences then return {}
  let isWaited (d : Dependence) : Bool :=
    !isAlone || d.isDeferred || world.switches.defersDependences
  let above ← t.dependences.mapM (Link.ofChild world t)
  let below ← ((Link.onTable world t).filter fun (_, d) => isWaited d).mapM
    fun (child, d) =>
    Link.between child t d
  return { above, below, isAlone }

/-- What a table has to do with others, as far as that makes sense. -/
def sensible (world : World) (t : Table) : Links :=
  { above := t.dependences.filterMap fun d => (Link.ofChild world t d).toOption,
    below := (Link.onTable world t).filterMap
      fun (child, d) => (Link.between child t d).toOption }

/-- What a change of some columns of a table has to do with other tables;
nothing stands for a change of all. -/
def ofTable (world : World) (t : Table) (changed : Option (List Nat)) :
    Except Failure Links := do
  if !world.switches.checksDependences then return {}
  let touches (columns : List Nat) : Bool :=
    changed.all fun cs => columns.any cs.contains
  let above ← (t.dependences.filter fun d => touches d.columns ||
    isSame d.table t.name).mapM (Link.ofChild world t)
  let below ← (Link.onTable world t).filterMapM fun (child, d) => do
    match Link.between child t d with
    | .ok l => return if touches (l.pairs.map (·.2)) then some l else none
    | .error f =>
      if touches (Link.meantBy t d) then throw f else return none
  return { above, below }

/-- Counts a row that goes. -/
def remove (ls : Links) (r : WholeRow) : Work Unit := do
  ls.above.forM (·.leave r)
  ls.below.forM (·.abandon r)

/-- Counts a row that comes. -/
def add (ls : Links) (r : WholeRow) : Work Unit := do
  ls.above.forM (·.arrive ls.isAlone r)
  ls.below.forM (·.adopt r)

/-- What follows when a row goes, or changes. -/
def rules (ls : Links) (world : World) (isUpdate : Bool) : List Rule :=
  ls.below.filterMap (Link.rule? world · isUpdate)

/-- Whether there is nothing to look at. -/
def isEmpty (ls : Links) : Bool := ls.above.isEmpty && ls.below.isEmpty

end Links

end Bytecode.Database
