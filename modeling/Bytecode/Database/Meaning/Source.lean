import Bytecode.Database.Meaning.Access

/-!
# Sources

Rows come from tables, from views and from other queries.  Several sources are
brought together row by row, from left to right: what is asked about them is
asked as soon as all rows that it is about are there, and where it asks for the
value of a column that an index begins with, the rows are found by that.
-/

namespace Bytecode.Database

/-- Something that is asked about joined rows. -/
structure Term where
  meaning : Meaning
  /-- The sources of this query that it is about. -/
  sources : List Nat
  deriving Inhabited

namespace Term

/-- A question about joined rows. -/
def ofMeaning (m : Meaning) : Term where
  meaning := m
  sources := (m.uses.filter fun (d, _) => d = 0).map (·.2)

/-- The conditions that all must hold. -/
def split : Expr → List Expr
  | .binary .and a b => split a ++ split b
  | e => [e]

/-- Whether a question can be asked when so many sources have rows. -/
def isReady (t : Term) (count : Nat) : Bool := t.sources.all (· < count)

end Term

/-- Rows that are computed from values. -/
structure Generator where
  /-- The name that it is called by. -/
  name : String
  columns : Array ScopeColumn
  /-- The names of the values it takes, which are columns as well, and what is
  there for want of one. -/
  arguments : List (String × Value)
  /-- The rows for values, without those columns. -/
  rows : World → List Value → Except Failure (Array Row)
  /-- The number of the first row. -/
  first : Int := 0

instance : Inhabited Generator :=
  ⟨{ name := "", columns := #[], arguments := [], rows := fun _ _ => .ok #[] }⟩

namespace Generator

/-- A generator as names see it. -/
def scope (g : Generator) (label : Option String) : ScopeSource where
  label := some (label.getD g.name)
  columns := g.columns ++ (g.arguments.map fun (name, _) =>
    ({ name, affinity := some .plain, isHidden := true } : ScopeColumn)).toArray
  hasNumber := true

end Generator

/-- Sources that are read together: often only one. -/
structure UnitPlan where
  sources : Array ScopeSource
  kind : JoinKind := .inner
  /-- Rows for each source; the databases and the queries outside are known. -/
  rows : Env → Flow (Array Row)
  /-- The table, if it is one. -/
  table : Option TablePlan := none
  /-- How the rows come from values, if they do, and the values. -/
  generator : Option Generator := none
  arguments : List Meaning := []
  /-- What is asked when rows are brought together with those in front. -/
  conditions : List Term := []
  deriving Inhabited

namespace UnitPlan

/-- Rows of nothing but null. -/
def blank (u : UnitPlan) : Array Row :=
  u.sources.map fun s => Row.blank s.columns.size

end UnitPlan

/-- Values that are known of columns of a table. -/
structure Known where
  /-- The column, or nothing for the number of the row. -/
  column : Option Nat
  collation : Collation
  value : Meaning
  /-- The affinity with which values are compared. -/
  affinity : Affinity

namespace Known

/-- What a question tells of the columns of a source, from rows of those in
front. -/
def ofTerm (t : Term) (source : Nat) : List Known :=
  match t.meaning.sides with
  | none => []
  | some (a, b) =>
    let side (x y : Meaning) : List Known :=
      match x.spot with
      | some s =>
        if s.depth = 0 && s.source = source && y.uses.all fun (d, k) => d ≠ 0 ||
            k < source then
          [{ column := s.column, collation := Meaning.commonCollation a b,
             value := y, affinity := Operator.common a.affinity b.affinity }]
        else []
      | none => []
    side a b ++ side b a

/-- Whether values can be looked up in an index on a column. -/
def fits (k : Known) (c : Column) : Bool :=
  match k.affinity with
  | .plain => true
  | .text => c.affinity = .text
  | _ => c.affinity.isNumeric

/-- What is known of the first parts of an index. -/
def prefixOf (t : Table) (known : List Known) : List IndexPart → List Known
  | [] => []
  | p :: rest =>
    match known.find? fun k => p.column.isSome &&
      k.column = p.column && k.collation = p.collation &&
      p.column.any fun n => k.fits (t.column n) with
    | some k => k :: prefixOf t known rest
    | none => []

end Known

namespace Generator

/-- The rows of a generator for the values of expressions.  A value that is not
given may be known because it is asked for; none counts behind one that is not
known. -/
def run (g : Generator) (arguments : List Meaning) (known : List Known)
    (env : Env) : Flow (Array Row) :=
  .ofExcept do
    let meant := g.arguments.zipIdx.map fun (_, n) =>
      arguments[n]?.or ((known.find?
        fun k => k.column = some (g.columns.size + n)).map (·.value))
    let given := meant.takeWhile Option.isSome
    let values ← g.arguments.zipIdx.mapM fun ((_, otherwise), n) =>
      match given[n]?.join with
      | some m => m.eval env
      | none => .ok otherwise
    let found ← (g.rows env.world values).mapError Stop.ofFailure
    let given : Array (Except Stop Value) := (values.map Except.ok).toArray
    return { items := found.zipIdx.map fun (r, n) =>
      #[{ number := .integer (g.first + n), values := r.values ++ given }] }

end Generator

/-- How rows of a table are found. -/
inductive Way where
  | all
  | byNumber (k : Known)
  | byPrimary (ks : List Known)
  | byIndex (i : Index) (ks : List Known)

namespace Way

/-- The best way to the rows of a table of which something is known: its number,
then a whole unique index, then as many parts of an index as possible. -/
def choose (t : Table) (known : List Known) : Way :=
  let isNumber (k : Known) : Bool :=
    k.column.isNone || (t.numberColumn.isSome && k.column = t.numberColumn)
  match if t.isNumbered then known.find? isNumber else none with
  | some k => .byNumber k
  | none =>
    let usable := t.indexes.filter fun i => i.condition.isNone
    let candidates := usable.filterMap fun i =>
      let ks := Known.prefixOf t known i.parts
      if ks.isEmpty then none else some (i, ks)
    let isWhole (i : Index) (ks : List Known) : Bool :=
      i.isUnique && ks.length = i.parts.length
    let best := candidates.foldl (fun best (i, ks) =>
      match best with
      | none => some (i, ks)
      | some (j, ls) =>
        if isWhole j ls then best
        else if isWhole i ks || ls.length < ks.length then some (i, ks)
        else best) (none : Option (Index × List Known))
    match best with
    | none => .all
    | some (i, ks) => if !t.isNumbered && i.origin = .primary then .byPrimary ks
      else .byIndex i ks

/-- The values that are looked up, as the columns would hold them; nothing is
equal to null. -/
def wanted (t : Table) (ks : List Known) (env : Env) :
    Except Stop (Option (List Value)) := do
  let values ← ks.mapM fun k => do
    let v ← k.value.eval env
    return match k.column with
      | some n =>
          if k.affinity = .plain then v else (t.column n).affinity.apply v
      | none => v
  return if values.contains .null then none else some values

/-- The rows that a way leads to. -/
def rows (p : TablePlan) (w : Way) (env : Env) : Flow Row :=
  if (p.pages env).isBlank then {}
  else match w with
    | .all => p.rows env
    | .byNumber k => .ofExcept do
      let v ← k.value.eval env
      match Affinity.numeric.apply v with
      | .integer n =>
        match ← p.byNumber env n with
        | some r => return { items := #[r] }
        | none => return {}
      | _ => return {}
    | .byPrimary ks => .ofExcept do
      match ← wanted p.table ks env with
      | some vs => return p.byPrimary env vs
      | none => return {}
    | .byIndex i ks => .ofExcept do
      match ← wanted p.table ks env with
      | some vs => return p.byIndex env i vs
      | none => return {}

end Way

/-- Something that is searched for. -/
structure Wish where
  /-- The column, if it is one. -/
  column : Option Nat := none
  value : Meaning
  /-- Whether the column that stands for all of them shows what is searched
  for. -/
  isShown : Bool := false

namespace Wish

/-- What is searched for in a table of texts: what it is called with, and what
is asked. -/
def all (s : SearchForm) (arguments : List Meaning) (known : List Known)
    (terms : List Term) (source : Nat) : List Wish :=
  let count := s.columns.length
  (arguments.take 1).map (fun m => { value := m }) ++
    terms.filterMap (fun t => t.meaning.search.bind fun (spot, m) =>
      if spot.depth = 0 && spot.source = source &&
          m.uses.all fun (d, k) => d ≠ 0 || k < source then
        some { column := spot.column.filter (· < count), value := m }
      else none) ++
    known.filterMap fun k =>
      if k.column = some count then some { value := k.value, isShown := true }
      else none

/-- What several wishes ask for together. -/
def request? (s : SearchForm) (wishes : List Wish) (env : Env) :
    Except Stop (Option Request) :=
  wishes.foldlM (fun all w => do
    let text := (← w.value.eval env).shown env.encoding
    let r ← (Request.ofText s.seen text).mapError Stop.ofFailure
    let r := match w.column with
      | some n => r.within [n]
      | none => r
    return some (match all with
      | some a => .both a r
      | none => r)) none

/-- The rows of a table of texts in which all wishes are met, with what was
found. -/
def searched (p : TablePlan) (s : SearchForm) (wishes : List Wish) (env : Env)
    (rows : Flow Row) : Flow Row :=
  if wishes.isEmpty then rows
  else .ofExcept do
    match ← request? s wishes env with
    | none => return rows
    | some r =>
      let shown ← (wishes.find? (·.isShown)).mapM fun w => w.value.eval env
      let every ← ((p.rows env).mapExcept fun row => row.all).all
      let all := every.toList.map fun vs => s.row vs.toList
      let count := s.columns.length
      return rows.mapExcept (fun row => do
        let own := s.row (← row.all).toList
        match r.hits? 0 own with
        | none => return none
        | some hits =>
          let finding := SearchForm.finding r all own hits
          let values := row.values.setIfInBounds (count + 1)
            (.ok (.real (finding.rank []).toBits))
          return some { row with
            values := match shown with
              | some v => values.setIfInBounds count (.ok v)
              | none => values
            found := some finding }) |>.somes

end Wish

/-- Sources brought together. -/
structure JoinPlan where
  units : List UnitPlan := []
  deriving Inhabited

namespace JoinPlan

/-- All sources in order. -/
def sources (j : JoinPlan) : Array ScopeSource :=
  j.units.foldl (fun all u => all ++ u.sources) #[]

/-- Rows of nothing but null for all sources. -/
def blank (j : JoinPlan) : Array Row :=
  j.units.foldl (fun all u => all ++ u.blank) #[]

/-- Whether rows on the right side of a join can lack rows on the left. -/
def hasRight (j : JoinPlan) : Bool :=
  j.units.any fun u => u.kind = .right || u.kind = .full

/-- Asks all of some questions. -/
def holdAll (terms : List Term) (env : Env) : Except Stop Bool :=
  match terms with
  | [] => .ok true
  | t :: rest => do
    if ← t.meaning.holds env then holdAll rest env else return false

/-- The rows of sources that fit to rows in front. -/
def candidates (u : UnitPlan) (first : Nat) (terms : List Term)
    (outer env : Env) : Flow (Array Row) :=
  match u.table, u.generator with
  | some p, _ =>
    let known := terms.flatMap (Known.ofTerm · first)
    let found := Way.rows p (Way.choose p.table known) env
    let found := match p.table.form with
      | .texts s =>
          Wish.searched p s (Wish.all s u.arguments known terms first) env found
      | _ => found
    { items := found.items.map fun r => #[r], stop := found.stop }
  | none, some g => g.run u.arguments (terms.flatMap (Known.ofTerm · first)) env
  | none, none => u.rows outer

/-- Brings the rows of one more unit together with those in front.  `asked` are
questions about all of them that are not part of the join. -/
def step (outer : Env) (u : UnitPlan) (first : Nat) (asked : List Term)
    (front : Flow (Array Row)) : Flow (Array Row) :=
  let env (rows : Array Row) : Env := outer.push { rows }
  let inner := u.kind = .inner
  let terms := if inner then u.conditions ++ asked else u.conditions
  let joined (rows : Array Row) : Flow (Array Row × Nat) :=
    let found := candidates u first terms outer (env rows)
    let numbered : Flow (Array Row × Nat) :=
      { items := found.items.zipIdx.map fun (r, n) => (rows ++ r, n),
        stop := found.stop }
    numbered.filter fun (r, _) => holdAll terms (env r)
  let out : Flow (Array Row) :=
    match u.kind with
    | .inner => front.bind fun rows =>
      let f := joined rows
      { items := f.items.map (·.1), stop := f.stop }
    | .left => front.bind fun rows =>
      let f := joined rows
      if f.items.isEmpty && f.stop.isNone then { items := #[rows ++ u.blank] }
      else { items := f.items.map (·.1), stop := f.stop }
    | .right | .full => front.whole fun all =>
      let all' := match u.generator with
        | some g => g.run u.arguments [] (env #[])
        | none => u.rows outer
      all'.whole fun rights =>
        let pairs := all.map fun rows =>
          (rows, rights.zipIdx.map fun (r, n) => (rows ++ r, n))
        .ofExcept do
          let found ← pairs.mapM fun (rows, candidates) => do
            return (rows,
              ← candidates.filterM fun (r, _) => holdAll terms (env r))
          let used := found.foldl
            (fun (used : List Nat) (_, ms) => ms.toList.map (·.2) ++ used) []
          let nothing : Array Row := (all[0]?.map fun rows => rows.map
            fun r => Row.blank r.values.size).getD (Array.replicate first {})
          let lefts := found.foldl (fun (out : Array (Array Row)) (rows, ms) =>
            if ms.isEmpty then
              if u.kind = .full then out.push (rows ++ u.blank) else out
            else out ++ ms.map (·.1)) #[]
          let alone := (rights.zipIdx.filter fun (_, n) => !used.contains n).map
            fun (r, _) => nothing ++ r
          return { items := lefts ++ alone }
  if inner then out else out.filter fun rows => holdAll asked (env rows)

/-- All joined rows for which questions are answered with yes. -/
def run (j : JoinPlan) (asked : List Term) (outer : Env) : Flow (Array Row) :=
  let atEnd := j.hasRight
  let start : Flow (Array Row) := .ofExcept do
    let early := if atEnd then [] else asked.filter (·.isReady 0)
    if ← holdAll early (outer.push {}) then return { items := #[#[]] }
    else return {}
  let (rows, _) := j.units.foldl (fun (rows, first) u =>
    let next := first + u.sources.size
    let here := if atEnd then [] else
        asked.filter fun t => t.isReady next && !t.isReady first
    (step outer u first here rows, next)) (start, 0)
  if atEnd then rows.filter fun r => holdAll asked (outer.push { rows := r })
  else rows

end JoinPlan

end Bytecode.Database
