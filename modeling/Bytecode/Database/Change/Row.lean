import Bytecode.Database.Change.Constraint

/-!
# Rows that come, go and change

A row comes in this order: rules before it, its number, what it must satisfy,
the count of rows that depend on others, the row with its entries, and rules
after it.  A row goes or changes in the same way; in between, the rows that
depend on it follow.
-/

namespace Bytecode.Database

/-- How rows of a table are changed. -/
structure TableChange where
  agent : Agent
  ongoing : Ongoing := {}
  writer : Writer
  /-- What the change has to do with other tables. -/
  links : Links := {}
  /-- What the statement says is done with rows that cannot stand where they
  should. -/
  policy : Option Policy := none

/-- A row that is to come. -/
structure Given where
  /-- The number that is asked for. -/
  number : Option Value := none
  values : Array Value

/-- What becomes of a row that is to come. -/
inductive Outcome where
  | done (r : WholeRow)
  | left
  /-- A row is there already, and a clause says what is done with it. -/
  | conflict (clause : Nat) (there wanted : WholeRow)

namespace TableChange

/-- The table. -/
def table (c : TableChange) : Table := c.writer.table

/-- The table as rules see it. -/
def site (c : TableChange) : Site := .ofTable c.table

/-- Carries out the rules for something that happens. -/
def fire (c : TableChange) (time : RuleTime) (h : Happening)
    (old new : Option WholeRow) (policy : Option Policy) : Work Unit := do
  let rules := (← get).rulesFor c.site time h
  Rule.runAll c.agent c.ongoing rules c.site h (old.map WholeRow.row)
    (new.map WholeRow.row) policy

/-- Carries out what follows for rows that depend on one which goes, or
changes. -/
def follow (c : TableChange) (links : Links) (h : Happening)
    (old new : Option WholeRow) : Work Unit := do
  let rules := links.rules (← get) h.hasNew
  Rule.runAll c.agent c.ongoing rules c.site h (old.map WholeRow.row)
    (new.map WholeRow.row) (some .abort)

/-- Takes a row away; the rules about that may not be asked for, and the row may
not count as one that has changed. -/
def delete (c : TableChange) (links : Links) (hasRules isCounted : Bool)
    (policy : Option Policy) (r : WholeRow) : Work (Option WholeRow) := do
  match ← c.writer.current? r with
  | none => return none
  | some r =>
    let before := (← get).rulesFor c.site .before .delete
    if hasRules && !before.isEmpty then
      c.fire .before .delete (some r) none policy
    match ← if hasRules && !before.isEmpty then c.writer.current? r else
        pure (some r) with
    | none => return none
    | some r =>
      links.remove r
      c.writer.remove r
      if isCounted then modify World.counting
      c.follow links .delete (some r) none
      if hasRules then c.fire .after .delete (some r) none policy
      return some r

/-- Takes a row away that another replaces. -/
def displace (c : TableChange) (r : WholeRow) : Work Unit := do
  let world ← get
  let links ← Work.ofFailing (Links.ofTable world c.table none)
  let _ ← c.delete links world.switches.recursesRules false (some .replace) r

/-- The whole number that a value must be. -/
def wholeNumber (v : Value) : Work Int :=
  match Affinity.numeric.apply v with
  | .integer n => return n
  | _ => Work.fail .mismatch

/-- The number that a value asks for; boxes take any value for one. -/
def numberFrom (c : TableChange) (v : Value) : Work Int := do
  match c.table.form with
  | .boxes _ => return v.toWhole (← get).encoding
  | _ => wholeNumber v

/-- The table that keeps the largest numbers of other tables. -/
def counterTable (c : TableChange) : Work Writer := do
  let world ← get
  match (world.store c.table.store).schema.table? "sqlite_sequence" with
  | some t => Work.ofFailing (Build.alone (Writer.ofTable world t))
  | none => Work.fail .malformed

/-- The row of the table in which the largest number is kept. -/
def counter? (c : TableChange) (w : Writer) : Work (Option WholeRow) := do
  let rows ← Work.ofExcept (w.plan.rows (.ofWorld (← get))).all
  let all ← Work.ofExcept (rows.mapM WholeRow.ofRow)
  return all.find? fun r => r.value 0 = .text c.table.name

/-- The largest number that has been used, where numbers are never used
again. -/
def usedNumber (c : TableChange) : Work Int := do
  let w ← c.counterTable
  match ← c.counter? w with
  | some r => return (r.value 1).toWhole (← get).encoding
  | none => return 0

/-- Notes a number that is used. -/
def useNumber (c : TableChange) (n : Int) : Work Unit := do
  let w ← c.counterTable
  let r ← match ← c.counter? w with
    | some r => pure { r with
        values :=
          #[.text c.table.name, .integer (max n ((r.value 1).toWhole .utf8))] }
    | none => do
      let last := (← w.lastNumber).getD 0
      pure { number := last + 1,
             values := #[.text c.table.name, .integer (max n 0)] }
  w.putRow r

/-- A number that is not taken, of which nothing more can be said: it lies in
the lower half of the numbers there are.  So many are tried. -/
def anyNumber (c : TableChange) : Nat → Int → Work Int
  | 0, _ => Work.fail .full
  | tries + 1, seed => do
    let seed := (seed * 6364136223846793005 + 1442695040888963407) % Word.size64
    let n := seed / 4 + 1
    let found ← Work.ofExcept (c.writer.plan.byNumber (.ofWorld (← get)) n)
    if found.isSome then c.anyNumber tries seed else return n

/-- A number for a new row: the next one, unless the last one there is has been
taken. -/
def nextNumber (c : TableChange) : Work Int := do
  let last := (← c.writer.lastNumber).getD 0
  if c.table.isCounting then
    let n := max last (← c.usedNumber)
    if n = Word.maxSigned64 then Work.fail .full
    return n + 1
  else if last = Word.maxSigned64 then c.anyNumber 100 (← get).allChanges
  else return last + 1

/-- A row with its number in the column for that. -/
def numbered (c : TableChange) (r : WholeRow) : WholeRow :=
  match c.table.numberColumn with
  | some n => { r with values := r.values.setIfInBounds n (.integer r.number) }
  | none => r

/-- The row as rules before it see it. -/
def preview (c : TableChange) (g : Given) : Work WholeRow := do
  let number ← match g.number with
    | none | some .null => pure (-1)
    | some v => c.numberFrom v
  Work.ofExcept
    (c.writer.completed (← get) (c.numbered { number, values := g.values }))

/-- Orders that a table of texts is given, which change nothing that is seen. -/
def orders : List String :=
  ["automerge", "crisismerge", "deletemerge", "flush", "hashsize",
    "integrity-check", "merge", "optimize", "pgsz",
    "rank", "rebuild", "secure-delete", "usermerge"]

/-- Carries out an order that a table of texts is given in the column that
stands for all of them. -/
def obey (order : String) : Work Outcome := do
  let refuse (text : String) : Work Outcome := throw (.said text)
  if orders.any (isSame order) then
    modify World.counting
    return .left
  if isSame order "delete-all" then
    refuse
      "\x27delete-all\x27 may only be used with a contentless or external content fts5 table"
  else refuse ""

/-- The order that a row is, if it is none of a table of texts. -/
def order? (c : TableChange) (g : Given) : Option Value :=
  match c.table.form with
  | .texts s => (g.values[s.columns.length]?).filter (· ≠ .null)
  | _ => none

/-- Puts a row in. -/
def insert (c : TableChange) (clauses : List Clause) (g : Given) :
    Work Outcome := do
  match c.order? g with
  | some v => return ← obey (v.shown (← get).encoding)
  | none => pure ()
  let before := (← get).rulesFor c.site .before .insert
  if !before.isEmpty then
    c.fire .before .insert none (some (← c.preview g)) c.policy
  let number ← if !c.table.isNumbered then pure 0
    else match g.number with
      | none | some .null => c.nextNumber
      | some v => c.numberFrom v
  let new ← Work.ofExcept
    (c.writer.completed (← get) (c.numbered { number, values := g.values }))
  match ← c.writer.check c.policy clauses c.displace { new } with
  | .leave => return .left
  | .change place there => return .conflict place there new
  | .keep r =>
    c.links.add r
    c.writer.put (fun _ => true) r
    modify World.counting
    if c.table.isCounting then c.useNumber r.number
    if c.table.isNumbered then modify fun w => { w with lastRow := r.number }
    c.fire .after .insert none (some r) c.policy
    return .done r

/-- A row with other values in some columns. -/
def assigned (c : TableChange) (old : WholeRow) (values : List (Nat × Value))
    (number : Option Value) : Work WholeRow := do
  let number ← match number with
    | some v => c.numberFrom v
    | none => pure old.number
  let new := values.foldl
    (fun (all : Array Value) (n, v) => all.setIfInBounds n v) old.values
  Work.ofExcept
    (c.writer.completed (← get) (c.numbered { number, values := new }))

/-- Changes a row. -/
def update (c : TableChange) (names : List String) (changed : List Nat)
    (old : WholeRow) (values : List (Nat × Value)) (number : Option Value) :
    Work (Option WholeRow) := do
  let h := Happening.update names
  let new ← c.assigned old values number
  let before := (← get).rulesFor c.site .before h
  let current ← if before.isEmpty then pure (some (old, new))
    else do
      c.fire .before h (some old) (some new) c.policy
      match ← c.writer.current? old with
      | none => pure none
      | some old => pure (some (old, ← c.assigned old values number))
  match current with
  | none => return none
  | some (old, new) =>
    let candidate : Candidate :=
      { old := some old, new, changed := some changed }
    match ← c.writer.check c.policy [] c.displace candidate with
    | .leave | .change _ _ => return none
    | .keep r =>
      let isAffected := c.writer.isAffected candidate
      c.links.remove old
      (c.writer.keys.filter isAffected).forM fun k => c.writer.removeEntry k old
      let moves : Bool := if c.table.isNumbered then old.number ≠ r.number
        else changed.any c.table.primary.contains
      if moves then c.writer.removeRow old
      c.links.add r
      c.writer.put isAffected r
      modify World.counting
      c.follow c.links h (some old) (some r)
      c.fire .after h (some old) (some r) c.policy
      return some r

end TableChange

end Bytecode.Database
