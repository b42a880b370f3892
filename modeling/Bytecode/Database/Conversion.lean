import Bytecode.Database.Value

/-!
# Values as others

Texts count as the numbers at their head, numbers as the texts that spell them,
and everything but null as true or false.  A conversion that is asked for goes
further than an affinity: it changes every value.
-/

namespace Bytecode.Database

namespace Value

/-- The number at the head of a text; zero if there is none. -/
def leading (s : String) : Value :=
  let body := s.toList.dropWhile isSpace
  let isPart (c : Char) : Bool :=
    Token.isDigit c || ['+', '-', '.', 'e', 'E'].contains c
  let front := body.takeWhile isPart
  ((List.range (front.length + 1)).reverse.findSome?
    fun n => literal? (front.take n)).getD (.integer 0)

/-- The whole number at the head of a text, as near as 64 bits allow. -/
def leadingWhole (s : String) : Int :=
  let (negative, body) := match s.toList.dropWhile isSpace with
    | '-' :: rest => (true, rest)
    | '+' :: rest => (false, rest)
    | cs => (false, cs)
  let n : Int := (body.takeWhile Token.isDigit).foldl
    (fun n c => 10 * n + (c.toNat - '0'.toNat)) 0
  max Word.minSigned64 (min Word.maxSigned64 (if negative then -n else n))

/-- The number that a value counts as. -/
def toNumber (e : Encoding) : Value → Value
  | .text s => leading s
  | .blob bytes => leading (e.text bytes)
  | v => v

/-- A value as text. -/
def shown (e : Encoding) : Value → String
  | .null => ""
  | .integer n => Text.integer n
  | .real bits => realText bits
  | .text s => s
  | .blob bytes => e.text bytes

/-- A number as a double. -/
def toFloat : Value → Float
  | .integer n => Float.ofInt n
  | .real bits => Float.ofBits bits
  | _ => 0

/-- A value as a double. -/
def double? (e : Encoding) (v : Value) : Float := (v.toNumber e).toFloat

/-- A double, or null if it is no number. -/
def ofFloat (x : Float) : Value := if x.isNaN then .null else .real x.toBits

/-- A double without its fraction, as near as 64 bits allow. -/
def truncated (bits : UInt64) : Int :=
  match number? (.real bits) with
  | none => 0
  | some (m, e) =>
    let n := if 0 ≤ e then if 64 < e then m * (Nat.pow 2 64 : Nat) else
        m * (Nat.pow 2 e.toNat : Nat)
      else Int.tdiv m (Nat.pow 2 (-e).toNat : Nat)
    max Word.minSigned64 (min Word.maxSigned64 n)

/-- A value as a whole number. -/
def toWhole (e : Encoding) : Value → Int
  | .null => 0
  | .integer n => n
  | .real bits => truncated bits
  | .text s => leadingWhole s
  | .blob bytes => leadingWhole (e.text bytes)

/-- A truth value; there is none for null. -/
def truth (e : Encoding) (v : Value) : Option Bool :=
  match v.toNumber e with
  | .null => none
  | .real bits => some (bits.toNat % 0x8000000000000000 ≠ 0)
  | n => some (n ≠ .integer 0)

/-- The value that a truth value is. -/
def ofTruth : Option Bool → Value
  | none => .null
  | some b => .integer (if b then 1 else 0)

/-- The value that an answer is. -/
def ofBool (b : Bool) : Value := ofTruth (some b)

/-- The name of the kind of a value. -/
def kindName : Value → String
  | .null => "null"
  | .integer _ => "integer"
  | .real _ => "real"
  | .text _ => "text"
  | .blob _ => "blob"

/-- Whether a value is a number. -/
def isNumber : Value → Bool
  | .integer _ | .real _ => true
  | _ => false

/-- A value as bytes. -/
def asBytes (e : Encoding) : Value → List UInt8
  | .blob bytes => bytes
  | v => e.bytes (v.shown e)

/-- A value as text, in the characters that are seen: a NUL ends it. -/
def seen (e : Encoding) (v : Value) : String :=
  String.ofList ((v.shown e).toList.takeWhile (· ≠ Char.ofNat 0))

/-- The text of given characters. -/
def ofPlain (s : String) : Value := .text (Text.ofPlain s)

/-- The text that parts make together. -/
def ofParts (s : String) : Value := .text (Text.settled s)

/-- A value made into one of a type. -/
def cast (e : Encoding) (a : Affinity) (v : Value) : Value :=
  match a, v with
  | _, .null => .null
  | .plain, v => .blob (v.asBytes e)
  | .text, v => .text (v.shown e)
  | .integer, v => .integer (v.toWhole e)
  | .real, v => .real (v.toNumber e).toFloat.toBits
  | .numeric, .integer n => .integer n
  | .numeric, .real bits => .real bits
  | .numeric, v =>
    match v.toNumber e with
    | .real bits => .ofDouble bits
    | n => n

/-- The number that a text or another value spells as a whole, or else the
number at its head, as a sum takes it. -/
def addend (e : Encoding) : Value → Value
  | .text s => (ofText? s).getD (.real (leading s).toFloat.toBits)
  | .blob bytes => .real (leading (e.text bytes)).toFloat.toBits
  | v => v

end Value

end Bytecode.Database
