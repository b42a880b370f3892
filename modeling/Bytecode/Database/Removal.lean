import Bytecode.Database.Creation

/-!
# Dropping

What is dropped goes with everything that belongs to it: a table with its
indexes and rules.  If rows of other tables depend on those of a table, these
are taken out first.
-/

namespace Bytecode.Database

namespace Removal

/-- The parts of the databases that a name can be looked up in. -/
def schemas (w : World) (name : TableName) : List (Nat × Schema) :=
  (w.candidates name.database).map fun n => (n, (w.store n).schema)

/-- Nothing of a kind has a name. -/
def missing (kind : PartKind) (ifThere : Bool) (name : TableName) :
    Except Failure (Option (Nat × Work Unit)) :=
  if ifThere then .ok none
  else .error (.refused (if kind = .table then .noSuchTable name.text else
      .noSuchPart kind.name name.text))

/-- Takes the trees that begin at given pages away, the last page first. -/
def destroy (n : Nat) (roots : List Nat) : Work Unit :=
  (roots.mergeSort fun a b => b ≤ a).forM fun root => Work.editPages n fun p =>
    Tree.destroy p root

/-- Takes the rows about something out of a table that only describes others, if
it is there. -/
def forget (n : Nat) (table : String) (isMeant : WholeRow → Bool) :
    Work Unit := do
  let w ← get
  match (w.store n).schema.table? table with
  | none => return
  | some t =>
    let writer ← Work.ofFailing (Build.alone (Writer.ofTable w t))
    let rows ← Work.ofExcept (writer.plan.rows (.ofWorld w)).all
    rows.toList.forM fun row => do
      let whole ← Work.ofExcept (WholeRow.ofRow row)
      if isMeant whole then writer.remove whole

/-- Takes the rows out of a table on which others depend. -/
def release (t : Table) : Work Unit := do
  let w ← get
  let hasDeferred : Bool :=
    t.dependences.any fun d => d.isDeferred || w.switches.defersDependences
  let isAsked : Bool :=
    !(Link.onTable w t).isEmpty || (hasDeferred && 0 < w.deferred)
  if w.switches.checksDependences && isAsked then
    let links := Links.sensible w t
    let writer ← Work.ofFailing (Build.alone (Writer.ofTable w t))
    let c : TableChange := { agent := agent (maxRuleDepth + 1), writer, links }
    let rows ← Work.ofExcept (writer.plan.rows (.ofWorld w)).all
    rows.toList.forM fun row => do
      let whole ← Work.ofExcept (WholeRow.ofRow row)
      let _ ← c.delete links false false none whole
    if !w.switches.defersDependences && 0 < (← get).pending then
      Work.fail .dangling

/-- Drops a table without what it may be kept in. -/
def dropAlone (n : Nat) (t : Table) : Work Unit := do
  ["sqlite_stat1", "sqlite_stat4"].forM fun s => forget n s fun r =>
    r.value 0 = .text t.name
  release t
  if t.isCounting then
    forget n "sqlite_sequence" fun r => r.value 0 = .text t.name
  Catalogue.remove n fun x => isSame x.table t.name
  if !t.isVirtual then destroy n (t.root :: t.ownIndexes.map (·.root))
  Catalogue.finish n
  -- temporary rules about it go, too
  if n ≠ 1 then
    let w ← get
    let orphans :=
      (w.store 1).schema.rules.filter fun r => (w.relation? r.text.table).isNone
    if !orphans.isEmpty then
      Catalogue.remove 1 fun x => orphans.any fun r => x.kind = "trigger" &&
        x.name = some r.name
      Catalogue.finish 1

/-- Drops a table. -/
def dropTable (n : Nat) (t : Table) : Work Unit := do
  (Virtual.partsToDrop t).forM fun part => do
    match ((← get).store n).schema.table? (Virtual.partName t part) with
    | some p => dropAlone n p
    | none => return
  dropAlone n t

/-- Drops a view. -/
def dropView (n : Nat) (v : View) : Work Unit := do
  Catalogue.remove n fun x => isSame x.table v.name
  Catalogue.finish n

/-- Drops a table or a view. -/
def relation (w : World) (kind : PartKind) (ifThere : Bool) (name : TableName) :
    Except Failure (Option (Nat × Work Unit)) := do
  if World.isCatalogue name.name then
    throw (.refused (.internalTable "dropped" "sqlite_master"))
  match w.relation? name with
  | none => missing kind ifThere name
  | some (.inl t) =>
    let isKept : Bool := Creation.isReserved t.name &&
      !"sqlite_stat".toList.isPrefixOf (Token.lowered t.name).toList
    if isKept then throw (.refused (.internalTable "dropped" t.name))
    if kind = .view then throw (.refused (.otherKind "table" t.name))
    return some (t.store, dropTable t.store t)
  | some (.inr v) =>
    if kind = .table then throw (.refused (.otherKind "view" v.name))
    return some (v.store, dropView v.store v)

/-- Drops an index. -/
def index (w : World) (ifThere : Bool) (name : TableName) :
    Except Failure (Option (Nat × Work Unit)) := do
  match (schemas w name).findSome? fun (n, s) =>
    (s.index? name.name).map (n, ·) with
  | none => missing .index ifThere name
  | some (n, _, i) =>
    if i.origin ≠ .statement then
      throw (.refused (.said
        "index associated with UNIQUE or PRIMARY KEY constraint cannot be dropped"))
    return some (n, do
      forget n "sqlite_stat1" fun r => r.value 1 = .text i.name
      Catalogue.remove n fun x => x.kind = "index" && x.name = some i.name
      destroy n [i.root]
      Catalogue.finish n)

/-- Drops a rule. -/
def rule (w : World) (ifThere : Bool) (name : TableName) :
    Except Failure (Option (Nat × Work Unit)) := do
  match (schemas w name).findSome? fun (n, s) =>
    (s.rule? name.name).map (n, ·) with
  | none => missing .trigger ifThere name
  | some (n, r) =>
    return some (n, do
      Catalogue.remove n fun x => x.kind = "trigger" && x.name = some r.name
      Catalogue.finish n)

/-- Drops something, unless there is nothing to do.  The result also tells which
database it is in. -/
def part (w : World) (kind : PartKind) (ifThere : Bool) (name : TableName) :
    Except Failure (Option (Nat × Work Unit)) :=
  match kind with
  | .table | .view => relation w kind ifThere name
  | .index => index w ifThere name
  | .trigger => rule w ifThere name

end Removal

end Bytecode.Database
