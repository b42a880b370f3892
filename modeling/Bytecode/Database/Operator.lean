import Bytecode.Database.Conversion
import Bytecode.Database.Expr

/-!
# Operators

What operators make of values.  Whole numbers stay whole as long as the result
fits; everything but a question about null itself gives null for null.
-/

namespace Bytecode.Database

namespace Operator

/-- The result for whole numbers, if it fits in 64 bits. -/
def whole? (op : Binary) (m n : Int) : Option Value :=
  let fitting (k : Int) : Option Value :=
    if Word.fitsSigned64 k then some (.integer k) else none
  match op with
  | .add => fitting (m + n)
  | .subtract => fitting (m - n)
  | .multiply => fitting (m * n)
  | .divide => if n = 0 then some .null else fitting (Int.tdiv m n)
  | _ => none

/-- The result for doubles. -/
def double (op : Binary) (x y : Float) : Value :=
  match op with
  | .add => .ofFloat (x + y)
  | .subtract => .ofFloat (x - y)
  | .multiply => .ofFloat (x * y)
  | .divide => if y == 0 then .null else .ofFloat (x / y)
  | _ => .null

/-- The result of a computation with numbers. -/
def arithmetic (e : Encoding) (op : Binary) (a b : Value) : Value :=
  if a = .null || b = .null then .null
  else
    let x := a.toNumber e
    let y := b.toNumber e
    match op, x, y with
    | .remainder, .integer m, .integer n =>
      if n = 0 then .null else .integer (Int.tmod m n)
    | .remainder, x, y =>
      let n := y.toWhole e
      if n = 0 then .null else .ofFloat (Float.ofInt (Int.tmod (x.toWhole e) n))
    | op, .integer m, .integer n =>
        (whole? op m n).getD (double op (Float.ofInt m) (Float.ofInt n))
    | op, x, y => double op x.toFloat y.toFloat

/-- A number shifted to the left, or to the right if the distance is
negative. -/
def shifted (n distance : Int) : Int :=
  let d := distance.natAbs
  if 0 ≤ distance then
    if 64 ≤ d then 0 else Int.bmod (n * (Nat.pow 2 d : Nat)) Word.size64
  else if 64 ≤ d then if n < 0 then -1 else 0
  else n.fdiv (Nat.pow 2 d : Nat)

/-- The result of a computation with bits. -/
def bits (e : Encoding) (op : Binary) (a b : Value) : Value :=
  if a = .null || b = .null then .null
  else
    let m := a.toWhole e
    let n := b.toWhole e
    let word (k : Int) : Nat := (k % Word.size64).toNat
    match op with
    | .bitAnd => .integer (Int.bmod (word m &&& word n : Nat) Word.size64)
    | .bitOr => .integer (Int.bmod (word m ||| word n : Nat) Word.size64)
    | .shiftLeft => .integer (shifted m n)
    | .shiftRight => .integer (shifted m (-n))
    | _ => .null

/-- Texts one behind the other. -/
def joined (e : Encoding) (a b : Value) : Value :=
  if a = .null || b = .null then .null else .ofParts (a.shown e ++ b.shown e)

/-- What two values are made into before they are compared. -/
def common (a b : Option Affinity) : Affinity :=
  match a, b with
  | some x, some y => if x.isNumeric || y.isNumeric then .numeric else .plain
  | some x, none | none, some x => if x.isNumeric then .numeric else x
  | none, none => .plain

/-- Compares values; there is no answer if one of them is null. -/
def order? (e : Encoding) (c : Collation) (a : Affinity) (x y : Value) :
    Option Ordering :=
  if x = .null || y = .null then none
  else some ((a.apply x).order e c (a.apply y))

/-- The answer of a comparison. -/
def answer (op : Binary) (o : Ordering) : Bool :=
  match op with
  | .equal | .same => o = .eq
  | .different | .distinct => o ≠ .eq
  | .less => o = .lt
  | .lessOrEqual => o ≠ .gt
  | .greater => o = .gt
  | .greaterOrEqual => o ≠ .lt
  | _ => false

/-- The answer of a comparison of values. -/
def compared (e : Encoding) (c : Collation) (a : Affinity) (op : Binary)
    (x y : Value) : Option Bool :=
  match op with
  | .same | .distinct =>
    let isEqual : Bool := match order? e c a x y with
      | some o => o = .eq
      | none => x = .null && y = .null
    some (if op = .same then isEqual else !isEqual)
  | op => (order? e c a x y).map (answer op)

/-- Both of two answers. -/
def both : Option Bool → Option Bool → Option Bool
  | some false, _ | _, some false => some false
  | some true, some true => some true
  | _, _ => none

/-- One of two answers. -/
def either : Option Bool → Option Bool → Option Bool
  | some true, _ | _, some true => some true
  | some false, some false => some false
  | _, _ => none

/-- The result of an operator in front of a value. -/
def unary (e : Encoding) (op : Unary) (v : Value) : Value :=
  match op with
  | .negate =>
      if v = .null then .null else arithmetic e .subtract (.integer 0) v
  | .affirm => v
  | .complement => if v = .null then .null else .integer (-1 - v.toWhole e)
  | .not => .ofTruth ((v.truth e).map (!·))

end Operator

end Bytecode.Database
