import Bytecode.Database.Function

/-!
# Functions of many rows

An aggregate computes one value from the values of many rows, in their order.  A
sum of whole numbers is whole as long as it fits; a sum of doubles keeps what is
lost by rounding apart and adds it at the end.
-/

namespace Bytecode.Database

/-- A way to compute a value from many rows. -/
structure Aggregate where
  least : Nat := 1
  most : Nat := 1
  /-- Whether it picks one of the rows. -/
  isExtreme : Bool := false
  apply : Setting → List (List Value) → Except Failure Value
  /-- Whether its value is marked as a document. -/
  nature : List Nature → Nature := fun _ => .never

/-- A sum on the way. -/
structure Sum where
  /-- The sum of whole numbers, as long as there are no others. -/
  whole : Int := 0
  total : Float := 0
  /-- What has been lost by rounding. -/
  lost : Float := 0
  count : Nat := 0
  isDouble : Bool := false
  /-- Whether a sum of whole numbers alone did not fit. -/
  isTooLarge : Bool := false

namespace Sum

/-- Adds a double. -/
def addDouble (s : Sum) (x : Float) : Sum :=
  let t := s.total + x
  let lost :=
    if x.abs < s.total.abs then (s.total - t) + x else (x - t) + s.total
  { s with total := t, lost := s.lost + lost }

/-- The bound from which a whole number is added in two parts. -/
def bound : Int := 4503599627370496

/-- Adds a whole number to a sum of doubles. -/
def addLarge (s : Sum) (n : Int) : Sum :=
  if n ≤ -bound || bound ≤ n then
    let small := Int.tmod n 16384
    (s.addDouble (Float.ofInt (n - small))).addDouble (Float.ofInt small)
  else s.addDouble (Float.ofInt n)

/-- A sum of whole numbers as one of doubles. -/
def loosened (s : Sum) : Sum :=
  let n := s.whole
  if n ≤ -bound || bound ≤ n then
    let small := Int.tmod n 16384
    { s with isDouble := true, total := Float.ofInt (n - small),
             lost := Float.ofInt small }
  else { s with isDouble := true, total := Float.ofInt n, lost := 0 }

/-- Adds a value. -/
def add (e : Encoding) (s : Sum) (v : Value) : Sum :=
  match v.addend e with
  | .null => s
  | .integer n =>
    let s := { s with count := s.count + 1 }
    if s.isDouble then s.addLarge n
    else if Word.fitsSigned64 (s.whole + n) then { s with whole := s.whole + n }
    else { s.loosened with isTooLarge := true }.addLarge n
  | v =>
    let s := { s with count := s.count + 1 }
    if s.isDouble then { s with isTooLarge := false }.addDouble v.toFloat
    else s.loosened.addDouble v.toFloat

/-- A sum as a double. -/
def double (s : Sum) : Float :=
  if !s.isDouble then Float.ofInt s.whole
  else if s.lost.isNaN || s.lost.isInf then s.total
  else s.total + s.lost

/-- A sum as a value. -/
def value (s : Sum) : Except Failure Value :=
  if s.count = 0 then .ok .null
  else if !s.isDouble then .ok (.integer s.whole)
  else if s.isTooLarge then .error (.refused .tooLarge)
  else .ok (.ofFloat s.double)

end Sum

namespace Aggregate

/-- The first value of each row. -/
def firsts (rows : List (List Value)) : List Value := rows.map (·.headD .null)

/-- The sum of the first values of rows. -/
def sum (s : Setting) (rows : List (List Value)) : Sum :=
  (firsts rows).foldl (Sum.add s.encoding) {}

/-- The least or the greatest value, and the place of its row. -/
def best (s : Setting) (isGreatest : Bool) (values : List Value) :
    Option (Value × Nat) :=
  values.zipIdx.foldl (fun found (v, n) =>
    if v = .null then found
    else match found with
      | none => some (v, n)
      | some (b, _) =>
        if v.order s.encoding s.collation b =
            (if isGreatest then .gt else .lt) then some (v, n) else found) none

/-- The texts of rows one behind the other, with the mark of each row in front
of its text except for the first. -/
def joined (e : Encoding) (rows : List (List Value)) : Value :=
  let kept := rows.filter fun r => r.headD .null ≠ .null
  if kept.isEmpty then .null
  else .ofParts (String.join (kept.zipIdx.map fun (r, n) =>
    let mark := if n = 0 then "" else ((r[1]?.map (·.shown e)).getD ",")
    mark ++ (r.headD .null).shown e))

/-- An aggregate that never fails. -/
def plain (least most : Nat) (isExtreme : Bool)
    (f : Setting → List (List Value) → Value) : Aggregate where
  least
  most
  isExtreme
  apply s rows := .ok (f s rows)
  nature ns := if isExtreme then ns.headD .never else .never

/-- The aggregate with a name in lower case. -/
def ofName? (name : String) : Option Aggregate :=
  match name with
  | "count" => some (plain 0 1 false fun _ rows =>
      .integer (rows.filter fun r => r.headD (.integer 1) ≠ .null).length)
  | "sum" => some { apply := fun s rows => (sum s rows).value }
  | "total" => some (plain 1 1 false fun s rows => .ofFloat (sum s rows).double)
  | "avg" => some (plain 1 1 false fun s rows =>
      let t := sum s rows
      if t.count = 0 then .null else .ofFloat (t.double / Float.ofNat t.count))
  | "min" => some (plain 1 1 true
      fun s rows => ((best s false (firsts rows)).map (·.1)).getD .null)
  | "max" => some (plain 1 1 true
      fun s rows => ((best s true (firsts rows)).map (·.1)).getD .null)
  | "group_concat" =>
      some (plain 1 2 false fun s rows => joined s.encoding rows)
  | "string_agg" => some (plain 2 2 false fun s rows => joined s.encoding rows)
  | "json_group_array" =>
      some { apply := DocumentFunction.gatheredArray false,
             nature := fun _ => .always }
  | "jsonb_group_array" => some { apply := DocumentFunction.gatheredArray true }
  | "json_group_object" =>
      some { least := 2, most := 2,
             apply := DocumentFunction.gatheredObject false,
             nature := fun _ => .always }
  | "jsonb_group_object" =>
      some { least := 2, most := 2,
             apply := DocumentFunction.gatheredObject true }
  | _ => none

end Aggregate

end Bytecode.Database
