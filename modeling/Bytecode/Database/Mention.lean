import Bytecode.Database.Schema

/-!
# What statements mention

Whether a statement looks at a database at all can be told from the tables that
it mentions, and whether values are missing from the places for them.

A computed column may speak of others, and they of it.  If it is only looked up,
a way that leads back to a column shows when that column is met on its own way.
If rows are written, a column is computed as soon as those it speaks of are
known, so some may never be.
-/

namespace Bytecode.Database

/-- What an expression or a query mentions. -/
structure Mention where
  tables : List TableName := []
  /-- The places for values, as they are written. -/
  places : List String := []
  columns : List String := []

namespace Mention

instance : Append Mention := ⟨fun a b =>
  { tables := a.tables ++ b.tables, places := a.places ++ b.places,
    columns := a.columns ++ b.columns }⟩

/-- What several things mention. -/
def all {α : Type} (f : α → Mention) (items : List α) : Mention :=
  items.foldl (fun m x => m ++ f x) {}

/-- What several things mention that may be nested in each other. -/
structure Finder where
  expr : Expr → Mention
  query : Query → Mention

namespace Finder

/-- What things in an order mention. -/
def order (f : Finder) (items : List OrderItem) : Mention :=
  all (fun o => f.expr o.value) items

/-- What a source mentions; sources can be nested so deep. -/
def source (f : Finder) : Nat → Source → Mention
  | 0, _ => {}
  | depth + 1, s =>
    let content := match s.content with
      | .table name => { tables := [name] }
      | .function name args => { tables := [name] } ++ all f.expr args
      | .query q => f.query q
      | .sources inner => all (f.source depth) inner
    content ++ all f.expr s.condition.toList

/-- What something that is shown mentions. -/
def item (f : Finder) : Item → Mention
  | .all | .allOf _ => {}
  | .value e _ _ => f.expr e

/-- What a query that is not put together from others mentions. -/
def core (f : Finder) : Core → Mention
  | .values rows => all f.expr rows.flatten
  | .select s =>
    all f.item s.items ++
      all (f.source 100) s.sources ++ all f.expr s.condition.toList ++
      all f.expr s.group ++ all f.expr s.having.toList

/-- What a query mentions. -/
def inQuery (f : Finder) (q : Query) : Mention :=
  all (fun n => f.query n.query) q.named ++
    f.core q.first ++ all (fun (_, c) => f.core c) q.rest ++
    f.order q.order ++ all f.expr (q.limit.toList ++ q.offset.toList)

/-- What an expression mentions. -/
def inExpr (f : Finder) : Expr → Mention
  | .literal _ | .number _ => {}
  | .name _ _ column _ => { columns := [column] }
  | .place text => { places := [text] }
  | .unary _ a | .isNull _ a | .cast a _ | .collate a _ => f.expr a
  | .binary _ a b => all f.expr [a, b]
  | .between _ a low high => all f.expr [a, low, high]
  | .amongValues _ a items => all f.expr (a :: items)
  | .amongRows _ a q => f.expr a ++ f.query q
  | .amongTable _ a table => f.expr a ++ { tables := [table] }
  | .pattern _ _ a b escape => all f.expr (a :: b :: escape.toList)
  | .exists q | .row q => f.query q
  | .choice subject cases otherwise =>
    all f.expr (subject.toList ++ cases.flatMap (fun (q, v) => [q, v]) ++
      otherwise.toList)
  | .call c =>
      all f.expr c.args ++ f.order c.order ++ all f.expr c.filter.toList
  | .list items => all f.expr items
  | .raise _ message => all f.expr message.toList

end Finder

/-- What things mention that are nested so deep. -/
def finder : Nat → Finder
  | 0 => { expr := fun _ => {}, query := fun _ => {} }
  | n + 1 => { expr := fun e => (finder n).inExpr e,
               query := fun q => (finder n).inQuery q }

/-- What expressions and queries mention. -/
def whole : Finder := finder 2000

/-- What assignments mention. -/
def assignments (as : List Assignment) : Mention :=
  all (fun a => whole.expr a.value) as

/-- What a statement mentions. -/
def ofStatement : Statement → Mention
  | .select q => whole.query q
  | .insert s =>
    let content := match s.content with
      | .rows q => whole.query q
      | .defaults => {}
    { tables := [s.table] } ++ all (fun n => whole.query n.query) s.named ++
      content ++ all (fun u => assignments (u.changes.getD []) ++
        all whole.expr u.condition.toList) s.upserts ++
      all whole.item s.returning
  | .update s =>
    { tables := [s.table] } ++ all (fun n => whole.query n.query) s.named ++
      assignments s.changes ++ all (whole.source 100) s.sources ++
      all whole.expr s.condition.toList ++ all whole.item s.returning
  | .delete s =>
    { tables := [s.table] } ++ all (fun n => whole.query n.query) s.named ++
      all whole.expr s.condition.toList ++ all whole.item s.returning
  | .attach file name => all whole.expr [file, name]
  | .detach name => whole.expr name
  | .vacuum _ target => all whole.expr target.toList
  | .createTableAs _ _ _ q => whole.query q
  | .explain _ s => ofStatement s
  | _ => {}

/-- What a rule mentions. -/
def ofRule (r : RuleText) : Mention :=
  all (fun step => ofStatement (match step with
    | .insert s => .insert s
    | .update s => .update s
    | .delete s => .delete s
    | .select q => .select q)) r.steps ++ all whole.expr r.condition.toList

/-- A database beside a given one of which something is mentioned. -/
def stranger? (m : Mention) (isOwn : String → Bool) : Option String :=
  (m.tables.filterMap (·.database)).find? fun d => !isOwn d

/-- The number of a place that is written with one. -/
def numberOf? (place : String) : Option Nat :=
  match place.toList with
  | '?' :: c :: rest => String.toNat? (String.ofList (c :: rest))
  | _ => none

/-- What is missing if no values are given: one for the first place, if there
are any.  The place has a name unless it is a plain question mark or never
occurs. -/
def missing? (m : Mention) : Option Failure :=
  let nameOf (place : String) : String := String.ofList (place.toList.drop 1)
  match m.places with
  | [] => none
  | first :: _ =>
    if first = "?" then some (.missingValue none)
    else if (numberOf? first).isNone then
      some (.missingValue (some (nameOf first)))
    else some (.missingValue
      ((m.places.find? fun p => numberOf? p = some 1).map nameOf))

end Mention

/-! ### Columns that are computed from themselves -/

namespace Table

/-- The columns that a computed column speaks of. -/
def sources (t : Table) (n : Nat) : List Nat :=
  match (t.column n).computed with
  | none => []
  | some e => (Mention.whole.expr e).columns.filterMap t.column?

/-- The columns that are met on their own way when one is looked up, the last
one last.  `way` are those that have been met; a column that is written down
ends it. -/
def metAgain (t : Table) : Nat → List Nat → Nat → List Nat
  | 0, _, _ => []
  | fuel + 1, way, n =>
    if (t.column n).computed.isNone || (t.column n).isStored then []
    else if way.contains n then [n]
    else (t.sources n).flatMap (t.metAgain fuel (n :: way))

/-- The name of a column that cannot be looked up. -/
def unseen? (t : Table) : Option String :=
  ((t.places.flatMap (t.metAgain (t.columns.size + 1) [])).getLast?).map
    fun n => (t.column n).name

/-- Columns that are still not known after those that can be computed are, with
so many rounds to go. -/
def unknownAfter (t : Table) : Nat → List Nat → List Nat
  | 0, unknown => unknown
  | fuel + 1, unknown =>
    let left := unknown.foldl (fun left n =>
      if (t.sources n).any left.contains then left
      else left.filter (· ≠ n)) unknown
    if left.length = unknown.length then left else t.unknownAfter fuel left

/-- The name of a column that cannot be computed when a row is written. -/
def unwritten? (t : Table) : Option String :=
  let computed := t.places.filter fun n => (t.column n).computed.isSome
  ((t.unknownAfter computed.length computed).getLast?).map fun n =>
    (t.column n).name

end Table

/-- The words for a column that is computed from itself. -/
def cycleWords (column : String) : String :=
  "generated column loop on \"" ++ column ++ "\""

end Bytecode.Database
