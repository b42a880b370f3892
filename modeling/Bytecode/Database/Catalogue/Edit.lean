import Bytecode.Database.Catalogue
import Bytecode.Database.Change

/-!
# Changing what is in a database

What is made is put at the end of the list, and what is dropped is taken out of
it.  After every change a number in the header grows, and the list is read
again.
-/

namespace Bytecode.Database

namespace Encoding

/-- The number of an encoding in the header. -/
def number : Encoding → Nat
  | .utf8 => 1
  | .utf16le => 2
  | .utf16be => 3

/-- The encoding with a number; other numbers stand for the first one. -/
def ofNumber (n : Nat) : Encoding :=
  if n % 4 = 2 then .utf16le else if n % 4 = 3 then .utf16be else .utf8

end Encoding

namespace Catalogue

/-- Where the header counts changes of the list. -/
def cookiePosition : Nat := 40

/-- Where the header has the form of the database. -/
def formPosition : Nat := 44

/-- Where the header has the encoding of texts. -/
def encodingPosition : Nat := 56

/-- Makes a database ready for something in it. -/
def start (n : Nat) : Work Unit := do
  let e := (← get).encoding
  Work.editPages n fun p =>
    .ok (if p.header formPosition = 0 then
      (p.setHeader formPosition World.newestForm).setHeader
        encodingPosition e.number
    else p)

/-- Writes a row of the list. -/
def put (n : Nat) (number : Int) (values : List Value) : Work Unit := do
  let e := (← get).encoding
  Work.editPages n fun p => Tree.insertRow p 1 number (Record.encode e values)

/-- Puts a row at the end of the list, and gives its number. -/
def append (n : Nat) (values : List Value) : Work Int := do
  let last ← Work.ofFailing (Tree.last? ((← get).store n).pages .table 1)
  let number := ((last.map (·.number)).getD 0) + 1
  put n number values
  return number

/-- The rows of the list. -/
def rows (n : Nat) : Work (List (Int × Listing)) := do
  let (rows, failure) := (← get).listing n
  match failure with
  | some f => Work.fail f
  | none => Work.ofFailing rows

/-- Takes rows out of the list. -/
def remove (n : Nat) (isMeant : Listing → Bool) : Work Unit := do
  (← rows n).forM fun (number, x) => do
    if isMeant x then Work.editPages n fun p => Tree.deleteRow p 1 number

/-- Changes rows of the list. -/
def revise (n : Nat) (f : Listing → Option Listing) : Work Unit := do
  (← rows n).forM fun (number, x) => do
    match f x with
    | some y => put n number y.values
    | none => return

/-- Ends a change of the list: it is read again. -/
def finish (n : Nat) : Work Unit := do
  Work.editPages n fun p => .ok (p.setHeader cookiePosition
    ((p.header cookiePosition + 1) % Word.size32))
  set (← Work.ofFailing ((← get).reload n))

/-- Makes a tree, and gives the page where it begins. -/
def tree (n : Nat) (kind : TreeKind) : Work Nat :=
  Work.onPages n fun p => Tree.create p kind

end Catalogue

end Bytecode.Database
