import Bytecode.Database.Change.Dependence
import Bytecode.Database.Change.Row
import Bytecode.Database.Mention

/-!
# Statements that change rows

What a statement is about is looked up first, then everything it says; only
after that rows are looked at.  The rows that it changes or removes are found
before any of them is touched.
-/

namespace Bytecode.Database

/-! ### Rows that are taken over

All rows of a table that are put into an empty one which looks the same are
taken over as they stand.  Where rows are found by their numbers in indexes,
they keep these numbers.
-/

namespace Transfer

/-- What is done about a key that is taken, as an index was made. -/
def policyOf (i : Index) : Option Policy :=
  if i.isUnique && i.origin = .statement then some .abort else i.onConflict

/-- Whether two indexes hold the same entries for the same rows. -/
def isSameIndex (a b : Index) : Bool :=
  a.isUnique = b.isUnique &&
    policyOf a = policyOf b && a.condition.isNone && b.condition.isNone &&
    a.parts.length = b.parts.length && (a.parts.zip b.parts).all fun (p, q) =>
      p.column.isSome && p.column = q.column &&
        p.isDescending = q.isDescending && p.collation = q.collation

/-- Whether a column takes everything that another one has, as it stands. -/
def takes (place : Nat) (own other : Column) : Bool :=
  own.computed.isNone && other.computed.isNone &&
    own.affinity = other.affinity && own.collation = other.collation &&
    (own.required.isNone || other.required.isSome) &&
    (place = 0 || own.fallbackText = other.fallbackText)

/-- Whether the rows of a table can stand in another one with their numbers, if
that one is empty. -/
def keepsNumbers (w : World) (own other : Table) : Bool :=
  !own.isVirtual && !other.isVirtual && own.isNumbered && other.isNumbered &&
    own.numberColumn.isNone && other.numberColumn.isNone &&
    !own.indexes.isEmpty && !Link.isOneTable own other && (!own.isStrict ||
      other.isStrict) && own.columns.size = other.columns.size &&
    (own.columns.zip other.columns).zipIdx.all
    (fun ((a, b), n) => takes n a b) &&
    own.indexes.all (fun i => other.indexes.any (isSameIndex i)) &&
    (own.checks.isEmpty || own.checks.map (·.label) = other.checks.map
      (·.label)) && (own.dependences.isEmpty || !w.switches.checksDependences)

/-- The table whose rows a query shows all, and nothing else. -/
def wholeTable? (cx : Context) (q : Query) : Option Table :=
  let isPlain : Bool :=
    q.named.isEmpty && q.rest.isEmpty && q.order.isEmpty && q.limit.isNone &&
      q.offset.isNone
  match q.first with
  | .values _ => none
  | .select s =>
    let isWhole : Bool :=
      !s.isDistinct && s.condition.isNone && s.group.isEmpty && s.having.isNone
    match s.items, s.sources.map Source.content with
    | [.all], [.table name] =>
      match cx.world.relation? (cx.located name) with
      | some (.inl t) => if isPlain && isWhole then some t else none
      | _ => none
    | _, _ => none

/-- Whether there are no rows in a table. -/
def isEmpty (w : World) (t : Table) : Except Failure Bool := do
  let pages := (w.store t.store).pages
  if pages.isBlank then return true
  return (← Tree.last? pages .table t.root).isNone

end Transfer

/-! ### Plans -/

/-- What rows are put into, changed in or taken out of. -/
inductive Target where
  | table (w : Writer)
  | view (v : View) (plan : Plan) (columns : List ResultColumn)

namespace Target

/-- The target as rules see it. -/
def site : Target → Site
  | .table w => .ofTable w.table
  | .view v _ columns => .ofView v columns

/-- The names of the columns. -/
def columnNames : Target → List String
  | .table w => w.table.columns.toList.map (·.name)
  | .view _ _ columns => columns.map (·.name)

/-- The place of a column. -/
def column? (t : Target) (name : String) : Option Nat :=
  t.columnNames.findIdx? (isSame name)

/-- Whether a column is computed. -/
def isComputed (t : Target) (n : Nat) : Bool :=
  match t with
  | .table w => (w.table.column n).computed.isSome
  | .view _ _ _ => false

/-- Whether a column is left out when all are asked for. -/
def isHidden (t : Target) (n : Nat) : Bool :=
  match t with
  | .table w => (w.table.column n).isHidden
  | .view _ _ _ => false

/-- Whether the rows are kept in tables beside it. -/
def isVirtual : Target → Bool
  | .table w => w.table.isVirtual
  | .view _ _ _ => false

/-- Whether rows have numbers. -/
def isNumbered : Target → Bool
  | .table w => w.table.isNumbered
  | .view _ _ _ => false

/-- The column that is the number of the row. -/
def numberColumn : Target → Option Nat
  | .table w => w.table.numberColumn
  | .view _ _ _ => none

/-- The target as a source of rows. -/
def unit (world : World) (label : Option String) : Target → UnitPlan
  | .table w => From.ofTable world w.plan label
  | .view v p columns => From.ofPlan p columns (some (label.getD v.name))

/-- The target with a name, for something that is to happen to its rows. -/
def find (cx : Context) (name : TableName) (h : Happening) : Build Target := do
  let located := cx.located name
  match cx.world.relation? located with
  | none => throw (.refused (.noSuchTable located.text))
  | some (.inl t) =>
    if t.root = 1 && !cx.world.switches.opensCatalogue then
      throw (.refused (.internalTable "modified" t.name))
    match if h = .delete then none else t.unwritten? with
    | some column => Build.refuse (cycleWords column)
    | none => return .table (← Writer.ofTable cx.world t)
  | some (.inr v) =>
    let (plan, columns) ← From.viewPlan meanings cx v
    let target := Target.view v plan columns
    if !cx.world.hasRules target.site h then
      throw (.refused (.modifiedView v.name))
    return target

end Target

/-- What a statement gives back of the rows it has changed. -/
structure Returning where
  columns : List ResultColumn := []
  values : List Meaning := []
  deriving Inhabited

namespace Returning

/-- What a statement gives back. -/
def ofItems (cx : Context) (source : ScopeSource) (items : List Item) :
    Build Returning := do
  if items.isEmpty then return {}
  if items.any fun | .allOf _ => true | _ => false then
    Build.refuse "RETURNING may not use \"TABLE.*\" wildcards"
  let (shown, _) ← Build.inside
    (Select.shownItems meanings (cx.push { sources := #[source] }) items)
  return { columns := shown.map Shown.column, values := shown.map (·.meaning) }

/-- What is given back of a row. -/
def ofRow (r : Returning) (env : Env) (row : Row) :
    Work (List (Array Value)) := do
  if r.values.isEmpty then return []
  let values ← Work.ofExcept
    (Meaning.evalAll r.values (env.push { rows := #[row] }))
  return [values.toArray]

end Returning

/-- Columns that get a value; nothing stands for the number of the row. -/
structure Change where
  places : List (Option Nat)
  value : Meaning

namespace Change

/-- The meaning of columns and their new value. -/
def ofAssignment (cx : Context) (target : Target) (a : Assignment) :
    Build Change := do
  let m ← meanings.expr cx a.value
  if a.isList then
    if m.width ≠ a.columns.length then
      Build.refuse (Text.decimal 1 a.columns.length ++ " columns assigned " ++
        Text.decimal 1 m.width ++ " values")
  else
    let _ ← m.scalar
  let places ← a.columns.mapM fun name => do
    match target.column? name with
    | some n =>
      if target.isComputed n then
        Build.refuse ("cannot UPDATE generated column \"" ++ name ++ "\"")
      return some n
    | none =>
      if target.isNumbered && Scope.isNumberName name then return none
      throw (.refused (.noSuchColumn name))
  return { places, value := m }

/-- The columns that changes are about. -/
def columns (target : Target) (changes : List Change) : List Nat :=
  (changes.flatMap fun c => c.places.filterMap
    fun p => p.or target.numberColumn).eraseDups

/-- Whether changes are about the number of the row. -/
def isNumber (target : Target) (place : Option Nat) : Bool :=
  place.isNone || (place.isSome && place = target.numberColumn)

/-- The new values for a row, and its new number. -/
def values (target : Target) (changes : List Change) (env : Env) :
    Except Stop (List (Nat × Value) × Option Value) := do
  let all ← changes.mapM fun c => do
    return c.places.zip (← Meaning.evalAll c.value.all env)
  let pairs := all.flatten
  let number := (pairs.reverse.find? fun (p, _) => isNumber target p).map (·.2)
  return (pairs.filterMap fun (p, v) => if isNumber target p then none else
      p.map (·, v), number)

end Change

/-- A statement that changes rows. -/
structure ChangePlan where
  columns : List ResultColumn := []
  /-- Carries it out and tells what is given back. -/
  run : Agent → Ongoing → List Level → Option Policy →
    Work (Array (Array Value))
  /-- What may happen to rows. -/
  happenings : List (Site × Happening) := []
  /-- The rules that may follow for rows that depend on others. -/
  following : List (Site × Happening × Rule) := []

namespace ChangePlan

/-- The rules that follow for rows that depend on others. -/
def followingOf (world : World) (target : Target) (links : Links)
    (h : Happening) : List (Site × Happening × Rule) :=
  (links.rules world h.hasNew).map (target.site, h, ·)

/-- Does something for each thing, and puts together what comes of it. -/
def collect {α : Type} (items : List α) (f : α → Work (List (Array Value))) :
    Work (Array (Array Value)) :=
  items.foldlM (fun rows x => do
    let found ← tryCatch (f x) fun
      | .skip => pure []
      | s => throw s
    return rows ++ found.toArray) #[]

end ChangePlan

/-- What is done with a row that is there already. -/
structure UpsertPlan where
  clause : Clause
  changes : List Change := []
  names : List String := []
  condition : Option Meaning := none

namespace Upsert

/-- The index that the parts of a clause are about; nothing stands for the
number of the row. -/
def index? (t : Table) (parts : List Meaning) (hasCondition : Bool) :
    Option (Option Index) :=
  let isNumber (m : Meaning) : Bool :=
    m.spot.any fun s => s.column.isNone ||
      (t.numberColumn.isSome && s.column = t.numberColumn)
  if t.isNumbered && parts.length = 1 && parts.all isNumber then some none
  else (t.indexes.find? fun i => i.isUnique && i.parts.length = parts.length &&
      (i.condition.isNone || hasCondition) &&
      i.parts.all fun p => parts.any fun m =>
        match m.spot.bind (·.column), p.column with
        | some a, some b =>
            a = b && (!m.isCollated || m.collation = some p.collation)
        | none, none => true
        | _, _ => false).map some

/-- The meaning of a clause, by its place. -/
def plan (cx : Context) (target : Target) (t : Table) (label : Option String)
    (count place : Nat) (u : Upsert) : Build UpsertPlan := do
  let own : ScopeSource :=
    { TablePlan.scopeOf t with label := some (label.getD t.name) }
  let excluded : ScopeSource :=
    { TablePlan.scopeOf t with label := some "excluded", isMarked := true }
  let (result, _) ← Build.inside do
    let alone := cx.push { sources := #[own] }
    let both := cx.push { sources := #[own, excluded] }
    let parts ← u.target.mapM fun p =>
      meanings.expr alone (Definition.asName p.value)
    let _ ← u.targetCondition.mapM (meanings.expr alone)
    let clause : Clause ←
      if u.target.isEmpty then
        pure { place, index := none, isGeneral := true,
               isChange := u.changes.isSome }
      else match index? t parts u.targetCondition.isSome with
        | some i =>
            pure { place, index := i.map (·.name),
                   isChange := u.changes.isSome }
        | none =>
          let which :=
            if count = 1 then "" else Select.ordinal (place + 1) ++ " "
          Build.refuse (which ++
            "ON CONFLICT clause does not match any PRIMARY KEY or UNIQUE constraint")
    let assignments := u.changes.getD []
    let changes ← assignments.mapM (Change.ofAssignment both target)
    let condition ← u.condition.mapM fun e => do (← meanings.expr both e).scalar
    return { clause, changes, names := assignments.flatMap (·.columns),
             condition : UpsertPlan }
  return result

end Upsert

namespace Insert

/-- The columns that values are for; nothing stands for the number of the
row. -/
def places (s : Insert) (target : Target) (count : Option Nat) :
    Build (List (Option Nat)) := do
  let shown := s.table.text
  match s.columns with
  | none =>
    let all := (List.range target.columnNames.length).filter fun n =>
      !target.isComputed n && !target.isHidden n
    match count with
    | some k =>
        if k ≠ all.length then throw (.refused (.wrongCount shown all.length k))
    | none => pure ()
    return all.map some
  | some names => names.mapM fun name => do
    match target.column? name with
    | some n =>
      if target.isComputed n then
        Build.refuse ("cannot INSERT into generated column \"" ++ name ++ "\"")
      return some n
    | none =>
      if target.isNumbered && Scope.isNumberName name then return none
      throw (.refused (.noColumnNamed shown name))

/-- The row that is to come, from the values that are given. -/
def given (target : Target) (places : List (Option Nat)) (env : Env)
    (values : List Value) : Except Stop Given := do
  let pairs := places.zip values
  let number := (pairs.find? fun (p, _) => Change.isNumber target p).map (·.2)
  let all ← (List.range target.columnNames.length).mapM fun n => do
    match pairs.find? fun (p, _) => p = some n, target with
    | some (_, v), _ => return v
    | none, .table w =>
        (w.fallbacks.getD n default).eval { env with levels := [] }
    | none, .view _ _ _ => return .null
  return { number, values := all.toArray }

/-- Changes a row that is there already, as a clause says. -/
def resolve (c : TableChange) (target : Target) (u : UpsertPlan) (env : Env)
    (there wanted : WholeRow) : Work (Option WholeRow) := do
  match ← c.writer.current? there with
  | none => return none
  | some old =>
    let env :=
      { env with world := ← get }.push { rows := #[old.row, wanted.row] }
    let isMeant ← match u.condition with
      | some m => Work.ofExcept (m.holds env)
      | none => pure true
    if !isMeant then return none
    let (values, number) ← Work.ofExcept (Change.values target u.changes env)
    let columns := Change.columns target u.changes
    let links ← Work.ofFailing (Links.ofTable env.world c.table (some columns))
    { c with
      links, policy := some .abort }.update u.names columns old values number

/-- Puts a row into a table. -/
def insertRow (c : TableChange) (target : Target) (upserts : List UpsertPlan)
    (returning : Returning) (env : Env) (g : Given) :
    Work (List (Array Value)) := do
  let done (r : WholeRow) : Work (List (Array Value)) := do
    returning.ofRow { env with world := ← get } r.row
  match ← c.insert (upserts.map (·.clause)) g with
  | .done r => done r
  | .left => return []
  | .conflict place there wanted =>
    match upserts[place]? with
    | none => return []
    | some u =>
      match ← resolve c target u env there wanted with
      | some r => done r
      | none => return []

/-- Whether an insertion is about one row and nothing else. -/
def isAlone (s : Insert) (world : World) (target : Target) (t : Table)
    (upserts : List UpsertPlan) (places : List (Option Nat)) : Bool :=
  let isOne : Bool := match s.content with
    | .defaults => true
    | .rows q => q.named.isEmpty && q.rest.isEmpty && match q.first with
      | .values [_] => true
      | _ => false
  let hasClause (index : Option String) : Bool :=
    upserts.any fun u => u.clause.isGeneral || u.clause.index = index
  let replaces (own : Option Policy) (index : Option String) : Bool :=
    s.policy.or own = some .replace && !hasClause index
  isOne && s.returning.isEmpty && !world.hasRules target.site .insert &&
    !((places.any (Change.isNumber target)) && replaces t.onNumber none) &&
    !(t.indexes.any fun i => i.isUnique &&
      replaces i.onConflict (some i.name)) && !(upserts.any
        fun u => Links.concern world t (Change.columns target u.changes))

/-- The numbers that rows have already and keep. -/
def numbersOf (s : Insert) (cx : Context) (w : World) (target : Target) :
    Work (List Value) := do
  let whole : Option Table := match s.content with
    | .rows q => Transfer.wholeTable? cx q
    | .defaults => none
  match target, whole with
  | .table writer, some t =>
    let isPlain : Bool := s.columns.isNone && s.returning.isEmpty &&
      s.upserts.isEmpty && s.named.isEmpty &&
      !w.hasRules target.site .insert && Transfer.keepsNumbers w writer.table t
    if !isPlain then return []
    if !(← Work.ofFailing (Transfer.isEmpty w writer.table)) then return []
    let p ← Work.ofFailing (Build.alone (Access.plan meanings w t))
    return (← Work.ofExcept (p.rows (.ofWorld w)).all).toList.map (·.number)
  | _, _ => return []

end Insert

/-- The queries that a statement names, as they can be spoken of in it. -/
def Context.naming (cx : Context) (named : List NamedQuery) :
    Build Context := do
  if named.isEmpty then return cx
  return { cx with
    named := (← Query.frame { named, first := .values [] }) :: cx.named }

/-- An insertion of which everything that it says has been looked up. -/
structure InsertPlan where
  target : Target
  /-- The rows that are put in, unless there is one that is given nothing. -/
  source : Option Plan
  /-- The same rows one by one, if they are written so. -/
  single : List Plan
  places : List (Option Nat)
  upserts : List UpsertPlan
  links : Links
  returning : Returning

/-- A row that is to be put in. -/
inductive Coming where
  | known (values : Array Value)
  /-- It is computed when its turn has come. -/
  | computed (q : Plan)

/-- The values of a row that is to be put in.  What has been put in before shows
in the number of the last row only. -/
def Coming.values (env : Env) : Coming → Work (Array Value)
  | .known values => return values
  | .computed q => do
    let now := { env.world with lastRow := (← get).lastRow }
    return (← Work.ofExcept (q.run { env with world := now }).all).getD 0 #[]

namespace InsertPlan

/-- The rows that are to be put in.  Those that are written one by one are
computed so, unless rules look at them. -/
def rows (p : InsertPlan) (env : Env) : Work (List Coming) := do
  let isGradual : Bool :=
    !p.single.isEmpty && !env.world.hasRules p.target.site .insert
  match p.source with
  | none => return [.known #[]]
  | some q =>
    if isGradual then return p.single.map .computed
    else return (← Work.ofExcept (q.run env).all).toList.map .known

/-- Puts in the values of a row, which may have a number already. -/
def put (p : InsertPlan) (ag : Agent) (ongoing : Ongoing)
    (policy : Option Policy) (env : Env) (number : Option Value)
    (values : Array Value) : Work (List (Array Value)) := do
  let env := { env with world := ← get }
  let places := if p.source.isNone then [] else p.places
  let g ← Work.ofExcept (Insert.given p.target places env values.toList)
  let g := { g with number := number.or g.number }
  match p.target with
  | .table w =>
    let c : TableChange :=
      { agent := ag, ongoing, writer := w, links := p.links, policy }
    Insert.insertRow c p.target p.upserts p.returning env g
  | .view _ _ _ =>
    let row := Row.ofValues (.integer (-1)) g.values
    let rules := (← get).rulesFor p.target.site .instead .insert
    Rule.runAll ag ongoing rules p.target.site .insert none (some row) policy
    p.returning.ofRow env row

end InsertPlan

namespace Insert

/-- Looks up everything that an insertion says. -/
def meant (cx : Context) (s : Insert) : Build InsertPlan := do
  let target ← Target.find cx s.table .insert
  let _ ← if s.columns.isSome then s.places target none else pure []
  let source ← match s.content with
    | .rows q => some <$> meanings.query cx q
    | .defaults => pure none
  let single ← match s.content with
    | .rows { named := [], first := .values rows, rest := [], .. } =>
      if rows.length < 2 then pure []
      else rows.mapM fun row => meanings.query cx { first := .values [row] }
    | _ => pure []
  let count := (source.map (·.columns.length)).or (s.columns.map fun _ => 0)
  let places ← s.places target count
  match count with
  | some k =>
      if k ≠ places.length then throw (.refused (.uneven k places.length))
  | none => pure ()
  if target.isVirtual && !s.upserts.isEmpty then
    Build.refuse ("UPSERT not implemented for virtual table \"" ++
      target.site.name ++ "\"")
  let upserts ← match target with
    | .table w =>
      s.upserts.zipIdx.mapM fun (u, n) =>
        u.plan cx target w.table s.label s.upserts.length n
    | .view _ _ _ =>
      if s.upserts.isEmpty then pure [] else Build.refuse "cannot UPSERT a view"
  let links ← match target with
    | .table w => do
      let isAlone :=
        !cx.inRule && s.isAlone cx.world target w.table upserts places
      pure (← (Links.ofNew cx.world w.table isAlone : Except Failure Links))
    | .view _ _ _ => pure {}
  let shown : ScopeSource :=
    { (target.unit cx.world none).sources.getD 0 default with
    label := some (s.label.getD target.site.name) }
  let returning ← Returning.ofItems cx shown s.returning
  return { target, source, single, places, upserts, links, returning }

/-- Carries out an insertion. -/
def run (cx : Context) (s : Insert) (p : InsertPlan) (ag : Agent)
    (ongoing : Ongoing) (levels : List Level) (outer : Option Policy) :
    Work (Array (Array Value)) := do
  let world ← get
  let env : Env := { Env.ofWorld world with levels }
  let rows ← p.rows env
  let numbers ← s.numbersOf cx world p.target
  ChangePlan.collect rows.zipIdx fun (row, k) => do
    p.put ag ongoing (outer.or s.policy) env numbers[k]? (← row.values env)

/-- What may happen to rows by an insertion. -/
def happenings (cx : Context) (s : Insert) (p : InsertPlan) :
    List (Site × Happening) :=
  let site := p.target.site
  let changed := p.upserts.filter (·.clause.isChange)
  let replaces : Bool :=
    s.policy = some .replace && cx.world.switches.recursesRules
  [(site, .insert)] ++ changed.map (fun u => (site, .update u.names)) ++
    (if replaces then [(site, .delete)] else [])

/-- The meaning of an insertion. -/
def plan (cx : Context) (s : Insert) : Build ChangePlan := do
  let cx ← cx.naming s.named
  let p ← s.meant cx
  return { columns := p.returning.columns, run := s.run cx p,
           happenings := s.happenings cx p, following :=
             ChangePlan.followingOf cx.world p.target p.links .delete }

end Insert

/-- The rows that a statement is about. -/
structure Meant where
  join : JoinPlan
  asked : List Term

namespace Meant

/-- The rows of all sources together, those of the target first. -/
def rows (m : Meant) (env : Env) : Work (Array (Array Row)) :=
  Work.ofExcept (m.join.run m.asked env).all

end Meant

/-- A change of which everything that it says has been looked up. -/
structure UpdatePlan where
  target : Target
  changes : List Change
  meant : Meant
  links : Links
  returning : Returning

namespace Update

/-- The columns that are given values. -/
def names (s : Update) : List String := s.changes.flatMap (·.columns)

/-- What happens to the rows. -/
def happening (s : Update) : Happening := .update s.names

/-- The row of a view with other values in some columns. -/
def viewRow (changes : List Change) (env : Env) (old : Row) :
    Except Stop Row := do
  let all ← changes.mapM fun c => do
    return c.places.zip (← Meaning.evalAll c.value.all env)
  let values :=
    all.flatten.foldl (fun (vs : Array (Except Stop Value)) (p, v) =>
    match p with
    | some n => vs.setIfInBounds n (.ok v)
    | none => vs) old.values
  return { old with values }

/-- Looks up everything that a change says. -/
def meant (cx : Context) (s : Update) : Build UpdatePlan := do
  let target ← Target.find cx s.table s.happening
  let others ← From.units meanings cx 100 s.sources
  let ((changes, meant), _) ← Build.inside do
    let own : Source := { content := .table s.table, label := s.label }
    From.checkIndex (target.unit cx.world s.label) s.index
    let ps ← From.placed (target.unit cx.world s.label :: others)
      (own :: s.sources)
    let inner := cx.push (From.scopeOf ps)
    let changes ← s.changes.mapM (Change.ofAssignment inner target)
    let asked ← match s.condition with
      | some e =>
          (Term.split e).mapM fun x => do (← meanings.expr inner x).scalar
      | none => pure []
    let join ← From.conditions meanings inner ps
    return (changes, ({ join, asked := asked.map Term.ofMeaning } : Meant))
  From.checkArguments others s.sources
  let links ← match target with
    | .table w => do
      let columns := Change.columns target changes
      let isMoved := changes.any fun c => c.places.any (Change.isNumber target)
      if w.mayReplace s.policy columns isMoved then
        let _ ← (Links.ofTable cx.world w.table none : Except Failure Links)
      pure (←
        (Links.ofTable cx.world w.table (some columns) : Except Failure Links))
    | .view _ _ _ => pure {}
  let shown : ScopeSource :=
    (target.unit cx.world s.label).sources.getD 0 default
  let returning ← Returning.ofItems cx shown s.returning
  if target.isVirtual && !s.returning.isEmpty then
    Build.refuse "UPDATE RETURNING is not available on virtual tables"
  return { target, changes, meant, links, returning }

/-- Changes a row of a table that has been found, together with rows of other
sources. -/
def changeRow (s : Update) (p : UpdatePlan) (c : TableChange) (env : Env)
    (old : WholeRow) (rows : Array Row) : Work (List (Array Value)) := do
  match ← c.writer.current? old with
  | none => return []
  | some old =>
    let env := { env with world := ← get }
    let inner := env.push { rows := rows.setIfInBounds 0 old.row }
    let (values, number) ← Work.ofExcept
      (Change.values p.target p.changes inner)
    match ← c.update s.names
      (Change.columns p.target p.changes) old values number with
    | none => return []
    | some r => p.returning.ofRow { env with world := ← get } r.row

/-- Carries out a change. -/
def run (s : Update) (p : UpdatePlan) (ag : Agent) (ongoing : Ongoing)
    (levels : List Level) (outer : Option Policy) :
    Work (Array (Array Value)) := do
  let env : Env := { Env.ofWorld (← get) with levels }
  let found ← p.meant.rows env
  let policy := outer.or s.policy
  match p.target with
  | .table w =>
    let c : TableChange :=
      { agent := ag, ongoing, writer := w, links := p.links, policy }
    let whole ← Work.ofExcept (found.toList.mapM fun rows => do
      return (← WholeRow.ofRow (rows.getD 0 {}), rows))
    let e := env.encoding
    let single := if s.sources.isEmpty then whole
      else whole.foldl (fun kept x =>
        if kept.any fun y => w.isSameRow e y.1 x.1 then kept
        else kept ++ [x]) []
    ChangePlan.collect single fun (old, rows) => s.changeRow p c env old rows
  | .view _ _ _ =>
    ChangePlan.collect found.toList fun rows => do
      let env := { env with world := ← get }
      let old := rows.getD 0 {}
      let new ← Work.ofExcept (viewRow p.changes (env.push { rows }) old)
      let rules := env.world.rulesFor p.target.site .instead s.happening
      Rule.runAll ag ongoing rules p.target.site s.happening (some old)
        (some new) policy
      p.returning.ofRow env new

/-- The meaning of a change. -/
def plan (cx : Context) (s : Update) : Build ChangePlan := do
  let cx ← cx.naming s.named
  let p ← s.meant cx
  return { columns := p.returning.columns, run := s.run p,
           happenings := [(p.target.site, s.happening)], following :=
             ChangePlan.followingOf cx.world p.target p.links s.happening }

end Update

/-- A removal of which everything that it says has been looked up. -/
structure DeletePlan where
  target : Target
  meant : Meant
  links : Links
  returning : Returning
  /-- Whether all rows go, and nothing else happens. -/
  isWhole : Bool

namespace Delete

/-- Looks up everything that a removal says. -/
def meant (cx : Context) (s : Delete) : Build DeletePlan := do
  let target ← Target.find cx s.table .delete
  let (meant, _) ← Build.inside do
    let own : Source := { content := .table s.table, label := s.label }
    From.checkIndex (target.unit cx.world s.label) s.index
    let ps ← From.placed [target.unit cx.world s.label] [own]
    let inner := cx.push (From.scopeOf ps)
    let asked ← match s.condition with
      | some e =>
          (Term.split e).mapM fun x => do (← meanings.expr inner x).scalar
      | none => pure []
    let join ← From.conditions meanings inner ps
    return ({ join, asked := asked.map Term.ofMeaning } : Meant)
  let links ← match target with
    | .table w => do pure (←
        (Links.ofTable cx.world w.table none : Except Failure Links))
    | .view _ _ _ => pure {}
  let shown : ScopeSource :=
    (target.unit cx.world s.label).sources.getD 0 default
  let returning ← Returning.ofItems cx shown s.returning
  if target.isVirtual && !s.returning.isEmpty then
    Build.refuse "DELETE RETURNING is not available on virtual tables"
  let isWhole : Bool := s.condition.isNone && s.returning.isEmpty &&
    links.isEmpty && !cx.world.hasRules target.site .delete && !target.isVirtual
  return { target, meant, links, returning, isWhole }

end Delete

namespace DeletePlan

/-- Takes all rows out of a table, and counts them. -/
def clear (w : Writer) : Work Unit := do
  let pages := ((← get).store w.table.store).pages
  let rows := Tree.walk pages (TablePlan.kind w.table) w.table.root none
  modify fun world => { world with count := world.count + rows.entries.size }
  w.clear

/-- Carries out a removal. -/
def run (p : DeletePlan) (ag : Agent) (ongoing : Ongoing) (levels : List Level)
    (_ : Option Policy) : Work (Array (Array Value)) := do
  let env : Env := { Env.ofWorld (← get) with levels }
  match p.target with
  | .table w =>
    if p.isWhole then
      clear w
      return #[]
    let found ← p.meant.rows env
    let c : TableChange :=
      { agent := ag, ongoing, writer := w, links := p.links }
    let whole ← Work.ofExcept
      (found.toList.mapM fun rows => WholeRow.ofRow (rows.getD 0 {}))
    ChangePlan.collect whole fun r => do
      match ← c.delete p.links true true none r with
      | none => return []
      | some r => p.returning.ofRow { env with world := ← get } r.row
  | .view _ _ _ =>
    let found ← p.meant.rows env
    ChangePlan.collect found.toList fun rows => do
      let old := rows.getD 0 {}
      let rules := (← get).rulesFor p.target.site .instead .delete
      Rule.runAll ag ongoing rules p.target.site .delete (some old) none none
      p.returning.ofRow env old

end DeletePlan

/-- The meaning of a removal. -/
def Delete.plan (cx : Context) (s : Delete) : Build ChangePlan := do
  let cx ← cx.naming s.named
  let p ← s.meant cx
  return { columns := p.returning.columns, run := p.run,
           happenings := [(p.target.site, .delete)], following :=
             ChangePlan.followingOf cx.world p.target p.links .delete }

end Bytecode.Database
