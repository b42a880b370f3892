import Bytecode.Text.Digits
import Bytecode.Text.Printable
import Bytecode.Text.Utf8

/-!
# Quoted text

Text between quotes.  The quote in use and the backslash take a backslash,
printable characters stand for themselves, seven control characters have a
letter, other characters below U+0080 are written `\x7f`, the rest `\u200b` or
`\U000e0001`.
-/

namespace Bytecode.Text

/-- How one character is written between two `quote` marks. -/
def escaped (quote c : Char) : String :=
  if c = quote || c = '\\' then String.ofList ['\\', c]
  else if isPrintable c then String.singleton c
  else
    let n := c.toNat
    if n = 7 then "\\a"
    else if n = 8 then "\\b"
    else if n = 12 then "\\f"
    else if n = 10 then "\\n"
    else if n = 13 then "\\r"
    else if n = 9 then "\\t"
    else if n = 11 then "\\v"
    else if n < 0x20 || n = 0x7f then "\\x" ++ hex 2 n
    else if n < 0x10000 then "\\u" ++ hex 4 n
    else "\\U" ++ hex 8 n

/-- A text in double quotes. -/
def quoted (s : String) : String :=
  "\"" ++ String.join (s.toList.map (escaped '"')) ++ "\""

/-- A byte string in double quotes; bytes that begin no character are written
`\xff`. -/
def quotedBytes (bytes : List UInt8) : String :=
  "\"" ++ String.join ((chunks bytes).map fun
    | .inl c => escaped '"' c
    | .inr b => "\\x" ++ hex 2 b.toNat) ++ "\""

/-- A code point in single quotes; a number that is no character is written as
the replacement character. -/
def quotedCodePoint (n : Int) : String :=
  let c := if 0 ≤ n ∧ n.toNat.isValidChar then Char.ofNat n.toNat else
      Char.ofNat 0xfffd
  "\x27" ++ escaped (Char.ofNat 0x27) c ++ "\x27"

end Bytecode.Text
