import Bytecode.Database.Virtual
import Bytecode.Database.World

/-!
# Rows in other tables

The rows of a table that is kept in others are put together from theirs.  Texts
stand in one table, with the lengths of texts in another; boxes stand together
in nodes, with their other values beside them.
-/

namespace Bytecode.Database

namespace Shadow

/-- The page where a table begins in which rows of another are kept. -/
def root (w : World) (t : Table) (part : String) : Except Failure Nat :=
  let store := w.store t.store
  match store.schema.table? (Virtual.partName t part) with
  | some p => .ok p.root
  | none => .error (.refused
      (.noSuchTable (store.name ++ "." ++ Virtual.partName t part)))

/-- The values of an entry behind the first one, which is its number. -/
def valuesOf (w : World) (entry : Entry) : Except Failure (List Value) := do
  return (← (Record.fields w.encoding entry.payload).all).drop 1

/-- The rows of a part with their numbers. -/
def partRows (w : World) (t : Table) (part : String) :
    Except Failure (List (Int × List Value)) := do
  let walk := Tree.walk (w.store t.store).pages .table (← root w t part) none
  match walk.failure with
  | some f => throw f
  | none => walk.entries.toList.mapM fun entry => do return (entry.number,
      ← valuesOf w entry)

/-- The row of a part with a number. -/
def partRow? (w : World) (t : Table) (part : String) (number : Int) :
    Except Failure (Option (List Value)) := do
  match ← Tree.find? (w.store t.store).pages (← root w t part) number with
  | some entry => return some (← valuesOf w entry)
  | none => return none

/-- The databases with another row in a part. -/
def putPart (w : World) (t : Table) (part : String) (number : Int)
    (values : List Value) : Except Failure World := do
  let record := Record.encode w.encoding (.null :: values)
  let pages ← Tree.insertRow (w.store t.store).pages.begun
    (← root w t part) number record
  return w.setPages t.store pages

/-- The databases without a row of a part. -/
def removePart (w : World) (t : Table) (part : String) (number : Int) :
    Except Failure World := do
  let pages ← Tree.deleteRow (w.store t.store).pages.begun
    (← root w t part) number
  return w.setPages t.store pages

/-- So many values, null where there are none. -/
def padded (count : Nat) (values : List Value) : List Value :=
  values.take count ++ List.replicate (count - values.length) .null

/-- The node that boxes are kept in. -/
def nodeNumber : Int := 1

/-- The boxes of a table with their numbers, in the order in which they came. -/
def boxes (w : World) (t : Table) (b : BoxForm) :
    Except Failure (List (Int × List Value)) := do
  match ← partRow? w t "node" nodeNumber with
  | some [.blob bytes] => return b.boxes bytes
  | _ => return []

/-- The databases with other boxes. -/
def setBoxes (w : World) (t : Table) (b : BoxForm)
    (all : List (Int × List Value)) : Except Failure World :=
  let size := b.nodeSize (w.store t.store).pages.size
  putPart w t "node" nodeNumber [.blob (BoxForm.node size all)]

/-- The rows of a table with their numbers. -/
def rows (w : World) (t : Table) :
    Except Failure (List (Int × List Value)) := do
  if (w.store t.store).pages.isBlank then return []
  match t.form with
  | .rows => return []
  | .texts s => return (← partRows w t "content").map fun (n, vs) => (n,
      padded s.columns.length vs ++ [.integer 1, .null])
  | .boxes b =>
    (← boxes w t b).mapM fun (n, bounds) => do
      let others ← if b.others = 0 then pure [] else do
        pure (((← partRow? w t "rowid" n).getD []).drop 1)
      return (n, .integer n :: bounds ++ padded b.others others)

/-- The row of a table with a number. -/
def row? (w : World) (t : Table) (number : Int) :
    Except Failure (Option (List Value)) := do
  match t.form with
  | .texts s =>
    return (← partRow? w t "content" number).map fun vs =>
      padded s.columns.length vs ++ [.integer 1, .null]
  | _ => return ((← rows w t).find? fun (n, _) => n = number).map (·.2)

/-- The databases without a row of a table. -/
def remove (w : World) (t : Table) (number : Int) : Except Failure World := do
  match t.form with
  | .rows => return w
  | .texts _ =>
    let w ← removePart w t "content" number
    removePart w t "docsize" number
  | .boxes b =>
    let w ← setBoxes w t b ((← boxes w t b).filter fun (n, _) => n ≠ number)
    removePart w t "rowid" number

/-- The databases with a row of a table, which is the last one of its boxes. -/
def put (w : World) (t : Table) (number : Int) (values : List Value) :
    Except Failure World := do
  match t.form with
  | .rows => return w
  | .texts s =>
    let own := padded s.columns.length values
    let w ← putPart w t "content" number own
    putPart w t "docsize" number
      [.blob ((s.row own).flatMap fun words => varint words.length)]
  | .boxes b =>
    let behind := values.drop 1
    let kept := (← boxes w t b).filter fun (n, _) => n ≠ number
    let w ← setBoxes w t b (kept ++ [(number, behind.take b.bounds.length)])
    putPart w t "rowid" number
      (.integer nodeNumber :: padded b.others (behind.drop b.bounds.length))

/-- The largest number of a row. -/
def lastNumber (w : World) (t : Table) : Except Failure (Option Int) := do
  let part := match t.form with
    | .boxes _ => "rowid"
    | _ => "content"
  return (← Tree.last? (w.store t.store).pages .table (← root w t part)).map
    (·.number)

end Shadow

end Bytecode.Database
