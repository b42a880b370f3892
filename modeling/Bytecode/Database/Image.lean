import Bytecode.Bytes
import Bytecode.Database.Page

/-!
# Reading and writing database files

The header says how large pages are and how many there are.  A page that is cut
off at the end of the file goes on with zeros, and pages behind the last one do
not count.  Whoever writes a file counts that in the header.
-/

namespace Bytecode.Database

namespace Pages

/-- How many bytes a file of one byte or less has: none. -/
def sizeOf (bytes : List UInt8) : Nat :=
  if bytes.length ≤ 1 then 0 else bytes.length

/-- The pages of a size in bytes, so many at most. -/
def cut (size : Nat) : Nat → ByteArray → Array Page
  | 0, _ => #[]
  | count + 1, bytes =>
    let front := cut size count bytes
    let found := bytes.extract (count * size) ((count + 1) * size)
    front.push (found ++ Page.blank (size - found.size))

/-- Where the header has the mark of a form that can be written. -/
def writePosition : Nat := 18

/-- Where the header has the mark of a form that can be read. -/
def readPosition : Nat := 19

/-- Whether changes go to a log beside the file first. -/
def isLogged (p : Pages) : Bool := !p.isBlank && p.first.byte readPosition = 2

/-- Whether the pages are written in a way that can only be read. -/
def isFrozen (p : Pages) : Bool := !p.isBlank && 2 < p.first.byte writePosition

/-- Pages whose changes go to a log, or not. -/
def setLogged (p : Pages) (isLogged : Bool) : Pages :=
  let mark : UInt8 := if isLogged then 2 else 1
  p.write 1 (p.first.put writePosition [mark, mark])

/-- The size of pages that the header of a file tells. -/
def statedSize (first : Page) : Nat :=
  let written := first.number16 16
  if written = 1 then 65536 else written

/-- The pages of a file, of which the first bytes are known and so many pages
are found.  The number of pages in the header counts if the header has been
written with the pages. -/
def ofPages (pages : Array Page) : Except Failure Pages := do
  let first := pages.getD 0 (Page.blank headerSize)
  if first.slice 0 16 ≠ signature then throw .notADatabase
  if 2 < first.byte readPosition then throw .notADatabase
  if first.slice 21 3 ≠ [64, 32, 32] then throw .notADatabase
  let size := statedSize first
  if !isPageSize size then throw .notADatabase
  let spare := first.byte 20
  let stated := first.number32 28
  let isCurrent : Bool := stated ≠ 0 && first.number32 24 = first.number32 92
  let count := if isCurrent then stated else pages.size
  if pages.size < count then throw .malformed
  if size - spare < 480 then throw .notADatabase
  return { size, spare, pages := pages.extract 0 count }

/-- The pages in the bytes of a file. -/
def ofBytes (bytes : List UInt8) : Except Failure Pages :=
  if sizeOf bytes = 0 then .ok {}
  else
    let all := bytes.toByteArray
    let stated := statedSize all
    let size := if isPageSize stated then stated else 4096
    ofPages (cut size ((all.size + size - 1) / size) all)

/-- Where the header counts how often something has been written. -/
def changePosition : Nat := 24

/-- The number that stands for who has written the file. -/
def writerNumber : Nat := 3049000

/-- Pages that are complete: the header says that they have been written. -/
def stamped (p : Pages) : Pages :=
  let n := (p.header changePosition + 1) % Word.size32
  let p :=
    ((p.setHeader changePosition n).setHeader 92 n).setHeader 96 writerNumber
  { p.setHeader 28 p.count with isTouched := false }

end Pages

end Bytecode.Database
