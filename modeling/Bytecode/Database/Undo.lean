import Bytecode.Database.Image

/-!
# Undoing what was not completed

Before pages are changed, they are put into a second file as they were.  If that
file is found later, the change has not come to its end, and the pages are put
back.  The file begins with a mark, the number of pages behind it, and how many
pages the database had; a part of it that makes no sense ends it.
-/

namespace Bytecode.Database

/-- How a change can be undone until it is complete. -/
inductive UndoMode where
  /-- What was there is put into a second file, which is deleted afterwards. -/
  | delete
  /-- The second file stays, marked as void. -/
  | persist
  | off
  /-- The second file stays, empty. -/
  | truncate
  | memory
  /-- Changes go to a log beside the file. -/
  | log
  deriving DecidableEq, Repr

namespace UndoMode

/-- The modes with their names. -/
def names : List (String × UndoMode) :=
  [("delete", .delete), ("persist", .persist), ("off", .off),
    ("truncate", .truncate), ("memory", .memory), ("wal", .log)]

/-- The first mode whose name begins with a text. -/
def ofText? (s : String) : Option UndoMode :=
  (names.find? fun (name, _) =>
    (String.ofList
      (s.toList.map Char.toLower)).toList.isPrefixOf name.toList).map (·.2)

/-- Whether a second file stays when a change is complete. -/
def leavesFile : UndoMode → Bool
  | .persist | .truncate => true
  | _ => false

/-- Whether a second file is needed. -/
def needsFile : UndoMode → Bool
  | .delete | .persist | .truncate => true
  | _ => false

end UndoMode

namespace Undo

/-- The mark in front of pages that are to be put back. -/
def mark : List UInt8 := [0xd9, 0xd5, 0x05, 0xf9, 0x20, 0xa1, 0x63, 0xd7]

/-- How pages stand in the second file. -/
structure Form where
  /-- How many bytes a mark with its numbers takes. -/
  sector : Nat := 512
  size : Nat

/-- Whether a number is a power of two between two others. -/
def isPower (low high n : Nat) : Bool :=
  low ≤ n && n ≤ high && (List.range 17).any fun k => n = Nat.pow 2 k

/-- The sum that tells whether a page has been written completely. -/
def checksum (start size : Nat) (bytes : ByteArray) (i : Nat) : Nat :=
  let places := (List.range (size / 200 + 1)).map fun (k : Nat) =>
    (size : Int) - 200 * ((k : Int) + 1)
  (places.foldl (fun n k => if 0 < k then n + Page.byte bytes (i + k.toNat) else
      n) start) % Word.size32

/-- Puts so many pages back that stand at a position.  The result also tells
whether to go on, and where. -/
def putBack (bytes : ByteArray) (form : Form) (start : Nat) :
    Nat → Nat → Array Page → Array Page × Option Nat
  | 0, i, pages => (pages, some i)
  | count + 1, i, pages =>
    if bytes.size < i + form.size + 8 then (pages, none)
    else
      let number := Page.number32 bytes i
      if number = 0 || checksum start form.size bytes (i + 4) ≠
          Page.number32 bytes (i + 4 + form.size) then
        (pages, none)
      else
        let pages := if number ≤ pages.size then
            pages.setIfInBounds (number - 1)
              (bytes.extract (i + 4) (i + 4 + form.size))
          else pages
        putBack bytes form start count (i + form.size + 8) pages

/-- Puts the pages back that stand behind the marks from a position on; there
are so many marks at most. -/
def parts (bytes : ByteArray) (form : Form) :
    Nat → Nat → Array Page → Array Page
  | 0, _, pages => pages
  | fuel + 1, i, pages =>
    let i := (i + form.sector - 1) / form.sector * form.sector
    if bytes.size < i + form.sector ||
        (bytes.extract i (i + 8)).toList ≠ mark then pages
    else
      let stated := Page.number32 bytes (i + 8)
      let count :=
        if stated = 0xffffffff then (bytes.size - form.sector) / (form.size + 8)
        else stated
      let (pages, next) := putBack bytes form (Page.number32 bytes (i + 12))
        (min count bytes.size) (i + form.sector) pages
      match next with
      | some next => parts bytes form fuel next pages
      | none => pages

/-- A file with the pages put back that stand in a second file. -/
def apply (undo file : List UInt8) : List UInt8 :=
  let bytes := undo.toByteArray
  if bytes.size < 512 || (bytes.extract 0 8).toList ≠ mark then file
  else
    let sector := Page.number32 bytes 20
    let stated := Page.number32 bytes 24
    let all := file.toByteArray
    let own := Pages.statedSize all
    let size :=
      if stated = 0 then (if isPageSize own then own else 4096) else stated
    if !isPower 512 65536 size || !isPower 32 65536 sector then file
    else
      let count := Page.number32 bytes 16
      let found := Pages.cut size (min count ((all.size + size - 1) / size)) all
      let start := found ++
        Array.replicate (min (count - found.size) bytes.size) (Page.blank size)
      let pages := parts bytes { sector, size } bytes.size 0 start
      pages.toList.flatMap ByteArray.toList

end Undo

end Bytecode.Database
