import Bytecode.Database.Image

/-!
# Logs

A log stands beside a database and holds pages that have been changed, one
behind the other.  A page counts if the checksum of everything up to it is
right, and if the transaction that wrote it has come to its end.
-/

namespace Bytecode.Database

/-- A page in a log. -/
structure LoggedPage where
  number : Nat
  /-- How many pages the database has then, if a transaction ends here. -/
  count : Nat
  page : Page

/-- What a log holds. -/
structure Log where
  size : Nat := 0
  pages : Array LoggedPage := #[]

namespace Log

/-- How many bytes a log begins with. -/
def frontSize : Nat := 32

/-- How many bytes stand in front of a page. -/
def markSize : Nat := 24

/-- The version of the form of logs. -/
def version : Nat := 3007000

/-- A checksum of two words. -/
structure Checksum where
  first : UInt32 := 0
  second : UInt32 := 0
  deriving DecidableEq

namespace Checksum

/-- The word of four bytes at a position. -/
def word (isBig : Bool) (bytes : ByteArray) (i : Nat) : UInt32 :=
  let byte (k : Nat) : UInt32 := UInt32.ofNat (Page.byte bytes (i + k))
  if isBig then byte 0 <<< 24 ||| byte 1 <<< 16 ||| byte 2 <<< 8 ||| byte 3
  else byte 3 <<< 24 ||| byte 2 <<< 16 ||| byte 1 <<< 8 ||| byte 0

/-- A checksum that goes on with so many pairs of words from a position. -/
def add (isBig : Bool) (bytes : ByteArray) : Nat → Nat → Checksum → Checksum
  | 0, _, c => c
  | pairs + 1, i, c =>
    let first := c.first + word isBig bytes i + c.second
    let second := c.second + word isBig bytes (i + 4) + first
    add isBig bytes pairs (i + 8) ⟨first, second⟩

/-- The checksum that is written at a position. -/
def written (bytes : ByteArray) (i : Nat) : Checksum :=
  ⟨word true bytes i, word true bytes (i + 4)⟩

end Checksum

/-- The pages from a position on, as long as they are right; there are so many
at most. -/
def frames (bytes : ByteArray) (isBig : Bool) (size : Nat) :
    Nat → Nat → Checksum → List LoggedPage
  | 0, _, _ => []
  | fuel + 1, i, c =>
    if bytes.size < i + markSize + size then []
    else
      let number := Page.number32 bytes i
      let isOwn : Bool :=
        (bytes.extract (i + 8) (i + 16)).toList = (bytes.extract 16 24).toList
      let c := Checksum.add isBig bytes 1 i c
      let c := Checksum.add isBig bytes (size / 8) (i + markSize) c
      if number = 0 || !isOwn || c ≠ Checksum.written bytes (i + 16) then []
      else
        { number, count := Page.number32 bytes (i + 4)
          page := bytes.extract (i + markSize) (i + markSize + size) } ::
          frames bytes isBig size fuel (i + markSize + size) c

/-- The pages up to the end of the last transaction. -/
def complete (pages : List LoggedPage) : List LoggedPage :=
  (pages.reverse.dropWhile fun f => f.count = 0).reverse

/-- The log in bytes; one that does not begin as it should holds nothing. -/
def ofBytes (data : List UInt8) : Except Failure Log := do
  let bytes := data.toByteArray
  if bytes.size ≤ frontSize then return {}
  let magic := Page.number32 bytes 0
  let size := Page.number32 bytes 8
  if magic / 2 * 2 ≠ 0x377f0682 || !isPageSize size then return {}
  let isBig : Bool := magic % 2 = 1
  let c := Checksum.add isBig bytes 3 0 {}
  if c ≠ Checksum.written bytes 24 then return {}
  if Page.number32 bytes 4 ≠ version then throw .unopened
  return { size, pages := (complete
             (frames bytes isBig size bytes.size frontSize c)).toArray }

/-- Pages with those of a log in their places. -/
def apply (log : Log) (size : Nat) (pages : Array Page) : Array Page :=
  match log.pages.back? with
  | none => pages
  | some last =>
    let count := last.count
    let start := pages.extract 0 count ++
      Array.replicate (count - pages.size) (Page.blank size)
    log.pages.foldl (fun all f => all.setIfInBounds (f.number - 1) f.page) start

end Log

/-- The pages in the bytes of a file with a log beside it. -/
def Pages.ofLogged (bytes : List UInt8) (log : Log) : Except Failure Pages :=
  if log.pages.isEmpty then ofBytes bytes
  else
    let all := bytes.toByteArray
    let size := log.size
    ofPages (log.apply size (cut size ((all.size + size - 1) / size) all))

end Bytecode.Database
