/-!
# Numbers in text

Fixed-width digits: offsets are written with at least four decimal digits,
bytes with two hexadecimal ones.
-/

namespace Bytecode.Text

/-- `s` filled up on the left with `c` to at least `width` characters. -/
def padLeft (width : Nat) (c : Char) (s : String) : String :=
  String.ofList (List.replicate (width - s.length) c) ++ s

/-- `s` filled up on the right with blanks to at least `width` characters. -/
def padRight (width : Nat) (s : String) : String :=
  s ++ String.ofList (List.replicate (width - s.length) ' ')

/-- Lower-case hexadecimal digits, at least `width` of them. -/
def hex (width n : Nat) : String :=
  padLeft width '0' (String.ofList (Nat.toDigits 16 n))

/-- Decimal digits, at least `width` of them. -/
def decimal (width n : Nat) : String :=
  padLeft width '0' (String.ofList (Nat.toDigits 10 n))

/-- Decimal digits with a minus sign in front of a negative number. -/
def integer (n : Int) : String :=
  if n < 0 then "-" ++ decimal 1 n.natAbs else decimal 1 n.natAbs

/-- The two hexadecimal digits of each byte, one byte after the other. -/
def hexBytes (bytes : List UInt8) : String :=
  String.join (bytes.map fun b => hex 2 b.toNat)

/-- The value of a hexadecimal digit of either case. -/
def hexDigit? (c : Char) : Option Nat :=
  if '0' ≤ c && c ≤ '9' then some (c.toNat - '0'.toNat)
  else if 'a' ≤ c && c ≤ 'f' then some (c.toNat - 'a'.toNat + 10)
  else if 'A' ≤ c && c ≤ 'F' then some (c.toNat - 'A'.toNat + 10)
  else none

/-- The bytes that pairs of hexadecimal digits stand for. -/
def ofHexBytes? (s : String) : Option (List UInt8) :=
  go s.toList
where
  /-- The same for a list of digits. -/
  go : List Char → Option (List UInt8)
    | [] => some []
    | [_] => none
    | a :: b :: rest => do
      let high ← hexDigit? a
      let low ← hexDigit? b
      return UInt8.ofNat (16 * high + low) :: (← go rest)

end Bytecode.Text
