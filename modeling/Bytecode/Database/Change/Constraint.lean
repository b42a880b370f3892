import Bytecode.Database.Change.Dependence

/-!
# Rules, and what rows must satisfy

A rule is carried out when a row comes, goes or changes; it sees the row as it
was and as it will be.  The newest rule comes first.  Unless that is asked for,
a rule does not bring about itself.

A row that is to be written is asked one question after the other: whether
columns that need a value have one, whether it answers the questions of its
table, whether its number is free, and whether its keys are.  What is done with
a row that fails depends on what the statement says, or else on what the clause
does.
-/

namespace Bytecode.Database

/-! ### Carrying out rules -/

/-- The rules that are being carried out. -/
structure Ongoing where
  active : List (Nat × String) := []
  depth : Nat := 0

/-- Who carries out the steps of a rule: for what is known there, with what
stands around, and with what is done with rows that cannot stand where they
should. -/
structure Agent where
  step : Ongoing → Context → List Level → Option Policy → RuleStep → Work Unit

/-- How deep rules can bring about each other. -/
def maxRuleDepth : Nat := 1000

/-- Something that rows come to, go from or change in, as rules see it. -/
structure Site where
  store : Nat
  name : String
  /-- How its rows look. -/
  source : ScopeSource
  deriving Inhabited

namespace Site

/-- A table as rules see it. -/
def ofTable (t : Table) : Site :=
  { store := t.store, name := t.name, source := TablePlan.scopeOf t }

/-- A view as rules see it. -/
def ofView (v : View) (columns : List ResultColumn) : Site :=
  { store := v.store, name := v.name,
    source :=
      { columns := (columns.map fun c =>
          ({ name := c.name, affinity := c.affinity, type := c.type } :
            ScopeColumn)).toArray } }

end Site

/-- What happens to a row. -/
inductive Happening where
  | insert
  | delete
  /-- Some columns change. -/
  | update (columns : List String)
  deriving DecidableEq, Repr

namespace Happening

/-- Whether a rule is about what happens. -/
def isMeant (h : Happening) (e : RuleEvent) : Bool :=
  match h, e with
  | .insert, .insert | .delete, .delete => true
  | .update changed, .update columns =>
    columns.all fun cs => cs.any fun c => changed.any (isSame c)
  | _, _ => false

/-- Whether there is a row before it. -/
def hasOld : Happening → Bool
  | .insert => false
  | _ => true

/-- Whether there is a row after it. -/
def hasNew : Happening → Bool
  | .delete => false
  | _ => true

end Happening

namespace World

/-- The rules about something, the newest first; temporary ones come before the
others. -/
def rulesAt (w : World) (s : Site) : List Rule :=
  if w.switches.ignoresRules then []
  else
    let own := (w.store s.store).schema.rules.filter fun r =>
      isSame r.text.table.name s.name
    let isHere (r : Rule) : Bool :=
      match w.relation? r.text.table with
      | some (.inl t) => t.store = s.store && isSame t.name s.name
      | some (.inr v) => v.store = s.store && isSame v.name s.name
      | none => false
    let temporary :=
      if s.store = 1 then [] else (w.store 1).schema.rules.filter isHere
    temporary.reverse ++ own.reverse

/-- The rules that are carried out when something happens. -/
def rulesFor (w : World) (s : Site) (time : RuleTime) (h : Happening) :
    List Rule :=
  (w.rulesAt s).filter fun r => r.text.time = time && h.isMeant r.text.event

/-- Whether there are rules for something that happens, whenever they are
carried out. -/
def hasRules (w : World) (s : Site) (h : Happening) : Bool :=
  (w.rulesAt s).any fun r => h.isMeant r.text.event

end World

namespace Rule

/-- The names of a row as it was and as it will be. -/
def scope (s : Site) (h : Happening) : Scope :=
  let named (isThere : Bool) (label : String) : ScopeSource :=
    if isThere then
      { s.source with label := some label, database := none, isMarked := true }
    else { isMarked := true }
  { sources := #[named h.hasOld "old", named h.hasNew "new"] }

/-- What is known where a rule stands. -/
def context (world : World) (r : Rule) (s : Site) (h : Happening) : Context :=
  { world, scopes := [scope s h], inRule := true,
    home := if r.store = 1 then none else some r.store }

/-- What a rule calls itself by. -/
def id (r : Rule) : Nat × String := (r.store, Token.lowered r.name)

/-- Carries out a rule.  What it counts is its own: the numbers for the
statement that brought it about are the same behind it. -/
def run (ag : Agent) (fr : Ongoing) (r : Rule) (s : Site) (h : Happening)
    (old new : Option Row) (policy : Option Policy) : Work Unit := do
  let world ← get
  if r.name ≠ "" && !world.switches.recursesRules &&
      fr.active.contains r.id then return
  if maxRuleDepth ≤ fr.depth then
    throw (.said "too many levels of trigger recursion")
  let cx := r.context world s h
  let levels : List Level := [{ rows := #[old.getD {}, new.getD {}] }]
  let isMeant ← match r.text.condition with
    | none => pure true
    | some e =>
      let (m, _) ← Work.ofFailing
        (Build.alone (Build.inside (meanings.expr cx e)))
      Work.ofExcept (m.holds { Env.ofWorld world with levels })
  if isMeant then
    let inner : Ongoing :=
      { active := r.id :: fr.active, depth := fr.depth + 1 }
    modify fun w => { w with count := 0 }
    let leave (s : Option Stop) : Work Unit := do
      let isLost : Bool := match s with
        | some (.failed _ _) => true
        | _ => false
      modify fun w =>
        { w with lastRow := world.lastRow, changes := world.changes,
                 count := world.count, allChanges :=
                   if isLost then w.allChanges else w.allChanges + w.count }
      s.forM throw
    tryCatch (r.text.steps.forM (ag.step inner cx levels policy)) (leave ∘ some)
    leave none

/-- Carries out rules one after the other. -/
def runAll (ag : Agent) (fr : Ongoing) (rules : List Rule) (s : Site)
    (h : Happening) (old new : Option Row) (policy : Option Policy) :
    Work Unit :=
  rules.forM fun r => r.run ag fr s h old new policy

end Rule

/-! ### Questions to a row -/

namespace Policy

/-- What is undone when a row is refused. -/
def extent : Policy → Refusing
  | .rollback => .rollback
  | .fail => .fail
  | _ => .abort

end Policy

/-- A row that is to be written. -/
structure Candidate where
  /-- The row that it replaces. -/
  old : Option WholeRow := none
  new : WholeRow
  /-- The columns that change; nothing stands for all. -/
  changed : Option (List Nat) := none

namespace Candidate

/-- Whether some of the columns change. -/
def touches (c : Candidate) (columns : List Nat) : Bool :=
  c.changed.all fun cs => columns.any cs.contains

/-- Whether the number of the row changes. -/
def movesNumber (c : Candidate) : Bool :=
  c.old.all fun r => r.number ≠ c.new.number

end Candidate

/-- What becomes of a row. -/
inductive Verdict where
  | keep (r : WholeRow)
  | leave
  /-- A row that is there already is changed as a clause says. -/
  | change (clause : Nat) (r : WholeRow)

/-- What is done with a row that is there already, by the place of the
clause. -/
structure Clause where
  place : Nat
  /-- The index it is about, by its name; nothing stands for the number of the
  row. -/
  index : Option String
  /-- Whether it is about everything. -/
  isGeneral : Bool := false
  /-- Whether the row is changed, and not left. -/
  isChange : Bool := false

namespace Writer

/-- The names that an expression mentions; it may be nested so deep. -/
def mentioned : Nat → Expr → List String
  | 0, _ => []
  | depth + 1, e =>
    let all (es : List Expr) : List String := es.flatMap (mentioned depth)
    match e with
    | .name _ _ column _ => [column]
    | .unary _ a | .isNull _ a | .cast a _ | .collate a _ => mentioned depth a
    | .binary _ a b => all [a, b]
    | .between _ a low high => all [a, low, high]
    | .amongValues _ a items => all (a :: items)
    | .pattern _ _ a b escape => all (a :: b :: escape.toList)
    | .choice subject cases otherwise =>
      all (subject.toList ++ cases.flatMap (fun (q, v) => [q, v]) ++
        otherwise.toList)
    | .call c => all c.args
    | .list items => all items
    | _ => []

/-- Refuses a row. -/
def refuseRow {α : Type} (p : Policy) (f : Failure) : Work α :=
  throw (.failed f p.extent)

/-- Whether a column that needs a value gets the one it has for want of another,
where a row that lacks one is to be mended. -/
def isMended (w : Writer) (policy : Option Policy) (n : Nat) : Bool :=
  let column := w.table.column n
  column.required.any fun own =>
    policy.getD own = .replace && column.fallback.isSome &&
      column.computed.isNone

/-- Gives columns that need a value the one they have for want of another, where
a row that lacks one is to be mended. -/
def mended (w : Writer) (policy : Option Policy) (c : Candidate) :
    Work WholeRow := do
  let t := w.table
  let world ← get
  t.places.foldlM (fun (r : WholeRow) n => do
    if w.isMended policy n && c.touches [n] && t.numberColumn ≠ some n &&
        r.value n = .null then
      let v ← Work.ofExcept ((w.fallbacks.getD n default).eval (.ofWorld world))
      return { r with
        values := r.values.setIfInBounds n ((t.column n).affinity.apply v) }
    else return r) c.new

/-- Whether columns that need a value have one; a row may be left out for that.
Columns that have been mended or computed come last. -/
def checkRequired (w : Writer) (policy : Option Policy) (c : Candidate)
    (r : WholeRow) : Work Bool := do
  let t := w.table
  let asked (isLate : Bool) : List Nat := t.places.filter fun n =>
    let column := t.column n
    let isComputed := column.computed.isSome
    column.required.isSome && t.numberColumn ≠ some n && (isComputed ||
      w.isMended policy n) = isLate && (isComputed || c.touches [n])
  (asked false ++ asked true).foldlM (fun isKept n => do
    if isKept && r.value n = .null then
      let p := policy.getD (((t.column n).required).getD .abort)
      if p = .ignore then return false
      refuseRow p (.missing (t.fullName n))
    else return isKept) true

/-- Whether a row answers the questions of its table. -/
def checkQuestions (w : Writer) (policy : Option Policy) (c : Candidate)
    (r : WholeRow) : Work Bool := do
  let t := w.table
  let world ← get
  if world.switches.ignoresChecks then return true
  let isAsked (check : Check) : Bool :=
    c.changed.isNone || c.movesNumber ||
      (mentioned maxNesting check.question).any fun name =>
        (t.column? name).any fun n => c.touches [n] ||
          (t.column n).computed.isSome
  w.checks.foldlM (fun isKept (check, m) => do
    if !isKept || !isAsked check then return isKept
    match ← Work.ofExcept (m.answer (env world r)) with
    | some false =>
      let p := policy.getD .abort
      if p = .ignore then return false
      refuseRow p (.unchecked check.label)
    | _ => return true) true

/-- Whether the entry of an index for a row changes. -/
def isAffected (w : Writer) (c : Candidate) (k : KeyWriter) : Bool :=
  let t := w.table
  let moves : Bool :=
    if t.isNumbered then c.movesNumber else c.touches t.primary
  c.changed.isNone || moves || k.condition.isSome || k.index.parts.any fun p =>
    match p.column with
    | some n => c.touches [n] || (t.column n).computed.isSome
    | none => true

/-- The names of what an index must not have twice. -/
def keyNames (w : Writer) (i : Index) : List String :=
  if i.parts.any (·.column.isNone) then ["index \x27" ++ i.name ++ "\x27"]
  else i.parts.map fun p => w.table.fullName (p.column.getD 0)

end Writer

/-- What is to be done about a key that is taken. -/
structure Conflict where
  policy : Policy
  clause : Option Clause
  failure : Failure

/-- A key that must not be taken. -/
structure Unique where
  /-- The index, or nothing for the number of the row. -/
  key : Option KeyWriter
  conflict : Conflict

namespace Writer

/-- What must be unique, in the order in which it is looked at.  What a clause
of the statement is about comes first, and what replaces rows last. -/
def uniques (w : Writer) (policy : Option Policy) (clauses : List Clause)
    (c : Candidate) : List Unique :=
  let t := w.table
  let clauseFor (index : Option String) : Option Clause :=
    clauses.find? fun x => x.isGeneral || x.index = index
  let number : List Unique :=
    if !t.isNumbered || !c.movesNumber then []
    else
      let failure := match t.form, t.numberColumn with
        | .texts _, _ => Failure.disordered ""
        | .boxes _, _ =>
            .disordered ("UNIQUE constraint failed: " ++ t.fullName 0)
        | .rows, some n => .notUnique true [t.fullName n]
        | .rows, none => .numberTaken (t.name ++ ".rowid")
      [{ key := none,
         conflict :=
           { policy := (policy.or t.onNumber).getD .abort,
             clause := clauseFor none, failure } }]
  let keys := w.allKeys.filterMap fun k =>
    if k.index.isUnique && w.isAffected c k then
      some { key := some k, conflict :=
               { policy := (policy.or k.index.onConflict).getD .abort,
                 clause := clauseFor (some k.index.name), failure := .notUnique
                   (k.index.origin = .primary) (w.keyNames k.index) } : Unique }
    else none
  let isLast (u : Unique) : Bool :=
    u.key.isNone && policy.isNone && t.onNumber = some .replace &&
      !t.indexes.isEmpty && clauses.isEmpty
  let all := number.filter (!isLast ·) ++ keys ++ number.filter isLast
  let rankOf (u : Unique) : Nat :=
    (u.conflict.clause.map (·.place)).getD clauses.length
  if clauses.isEmpty || clauses.any (·.isGeneral) then all
  else all.mergeSort fun a b => rankOf a ≤ rankOf b

/-- Whether a change of some columns, and perhaps of the number, can take rows
away that have its keys. -/
def mayReplace (w : Writer) (policy : Option Policy) (changed : List Nat)
    (isNumberChanged : Bool) : Bool :=
  let t := w.table
  let moves : Bool :=
    if t.isNumbered then isNumberChanged else t.primary.any changed.contains
  let touches (names : List String) : Bool :=
    names.any fun name => (t.column? name).any fun n => changed.contains n ||
      (t.column n).computed.isSome
  let replaces (own : Option Policy) : Bool := policy.or own = some .replace
  (isNumberChanged && t.isNumbered && replaces t.onNumber) || w.allKeys.any
    fun k => k.index.isUnique && replaces k.index.onConflict && (moves ||
      k.index.condition.any (fun e => touches (mentioned maxNesting e)) ||
      k.index.parts.any fun p => match p.column with
          | some n => changed.contains n || (t.column n).computed.isSome
          | none => true)

/-- The row that has a key already. -/
def taken? (w : Writer) (u : Unique) (c : Candidate) :
    Work (Option WholeRow) := do
  let world ← get
  let found ← match u.key with
    | none => w.current? { number := c.new.number }
    | some k =>
      match ← Work.ofExcept (w.entry k world c.new) with
      | none => pure none
      | some values => w.holder? k values
  return found.filter fun r => !c.old.any fun old =>
    w.isSameRow world.encoding old r

/-- Asks whether keys are free.  Rows that have them already may be removed. -/
def checkUniques (w : Writer) (remove : WholeRow → Work Unit) (c : Candidate) :
    List Unique → Work Verdict
  | [] => return .keep c.new
  | u :: rest => do
    match ← w.taken? u c with
    | none => w.checkUniques remove c rest
    | some r =>
      match u.conflict.clause with
      | some x => if x.isChange then return .change x.place r else return .leave
      | none =>
        match u.conflict.policy with
        | .ignore => return .leave
        | .replace =>
          remove r
          w.checkUniques remove c rest
        | p => refuseRow p u.conflict.failure

/-- A row as a table of boxes holds it; one that is no box may be left out. -/
def boxed (w : Writer) (policy : Option Policy) (c : Candidate) :
    Work (Option Candidate) := do
  match w.table.form with
  | .boxes b =>
    match b.held (← get).encoding (c.new.values.toList.drop 1) with
    | .ok values =>
      return some { c with
        new := { c.new with
          values := (.integer c.new.number :: values).toArray } }
    | .error f => if policy = some .ignore then return none else
        refuseRow (policy.getD .abort) f
  | _ => return some c

/-- Asks a row everything. -/
def check (w : Writer) (policy : Option Policy) (clauses : List Clause)
    (remove : WholeRow → Work Unit) (c : Candidate) : Work Verdict := do
  let some c ← w.boxed policy c | return .leave
  let r ← w.mended policy c
  let r ← Work.ofExcept (w.completed (← get) r)
  if !(← w.checkRequired policy c r) then return .leave
  if !(← w.checkQuestions policy c r) then return .leave
  let c := { c with new := r }
  let us := w.uniques policy clauses c
  let (first, later) :=
    us.partition fun u => u.key.isNone && u.conflict.policy ≠ .replace
  match ← w.checkUniques remove c (if clauses.isEmpty then first else []) with
  | .keep _ =>
    Work.ofFailing (w.checkTypes r)
    w.checkUniques remove c (if clauses.isEmpty then later else us)
  | other => return other

end Writer

end Bytecode.Database
