import Bytecode.Bytes
import Bytecode.Database.Failure

/-!
# Pages

A database is a sequence of pages of one size, numbered from one.  The first
page begins with a header that describes the whole.  Pages that are not needed
form a list: a trunk page names free pages and leads to the next trunk.
-/

namespace Bytecode.Database

/-- A page. -/
abbrev Page := ByteArray

namespace Page

/-- The byte at a position; there are zeros behind the end. -/
def byte (p : Page) (i : Nat) : Nat :=
  if h : i < p.size then (p.get i h).toNat else 0

/-- The number of two bytes at a position. -/
def number16 (p : Page) (i : Nat) : Nat := 256 * p.byte i + p.byte (i + 1)

/-- The number of four bytes at a position. -/
def number32 (p : Page) (i : Nat) : Nat :=
  65536 * p.number16 i + p.number16 (i + 2)

/-- The bytes from a position on, as many as there are. -/
def slice (p : Page) (start length : Nat) : List UInt8 :=
  (p.extract start (start + length)).toList

/-- A page with bytes put at a position. -/
def put (p : Page) (i : Nat) (bytes : List UInt8) : Page :=
  p.extract 0 i ++ bytes.toByteArray ++ p.extract (i + bytes.length) p.size

/-- A page of zeros. -/
def blank (size : Nat) : Page := (List.replicate size 0).toByteArray

end Page

/-- The first bytes of every database file. -/
def signature : List UInt8 :=
  [0x53, 0x51, 0x4c, 0x69, 0x74, 0x65, 0x20, 0x66, 0x6f, 0x72, 0x6d, 0x61, 0x74,
    0x20, 0x33, 0]

/-- How many bytes at the start of the first page describe the file. -/
def headerSize : Nat := 100

/-- The most pages a database can have. -/
def maxPages : Nat := 0xfffffffe

/-- Whether a number is a size that pages can have. -/
def isPageSize (n : Nat) : Bool :=
  [512, 1024, 2048, 4096, 8192, 16384, 32768, 65536].contains n

/-- The pages of a database. -/
structure Pages where
  /-- How many bytes a page has. -/
  size : Nat := 4096
  /-- How many bytes at the end of each page are left alone. -/
  spare : Nat := 0
  pages : Array Page := #[]
  /-- How many pages there may be. -/
  limit : Nat := maxPages
  /-- Whether something has been written that is not kept yet. -/
  isTouched : Bool := false
  /-- Whether what comes is in order, so that pages to the left stay as full as
  they are. -/
  isFilling : Bool := false
  deriving Inhabited

namespace Pages

/-- How many bytes of a page are used. -/
def usable (p : Pages) : Nat := p.size - p.spare

/-- How many pages there are. -/
def count (p : Pages) : Nat := p.pages.size

/-- Whether nothing has been written yet. -/
def isBlank (p : Pages) : Bool := p.pages.isEmpty

/-- The page with a number, which must be there. -/
def page (p : Pages) (n : Nat) : Except Failure Page :=
  match n with
  | 0 => .error .malformed
  | n + 1 =>
    match p.pages[n]? with
    | some page => .ok page
    | none => .error .malformed

/-- The first page, or zeros if there is none. -/
def first (p : Pages) : Page := p.pages[0]?.getD (Page.blank p.size)

/-- Pages with one of them written. -/
def write (p : Pages) (n : Nat) (page : Page) : Pages :=
  { p with pages := p.pages.setIfInBounds (n - 1) page, isTouched := true }

/-- A number of four bytes in the header. -/
def header (p : Pages) (position : Nat) : Nat := p.first.number32 position

/-- Pages with a number of four bytes in the header. -/
def setHeader (p : Pages) (position n : Nat) : Pages :=
  p.write 1 (p.first.put position (Bytes.big 4 n))

/-- Where the number of the first trunk page stands. -/
def trunkPosition : Nat := 32

/-- Where the number of free pages stands. -/
def freePosition : Nat := 36

/-- The first page of a database with nothing in it: the header, then a page of
rows without any. -/
def opening (size spare : Nat) : Page :=
  let front := signature ++ Bytes.big 2 (if size = 65536 then 1 else size) ++
    [1, 1, UInt8.ofNat spare, 64, 32, 32] ++ Bytes.big 4 0 ++ Bytes.big 4 1
  let tree :=
    [0x0d] ++ Bytes.big 4 0 ++ Bytes.big 2 ((size - spare) % 65536) ++ [0]
  ((Page.blank size).put 0 front).put headerSize tree

/-- Begins a database. -/
def begun (p : Pages) : Pages :=
  if p.isBlank then
    { p with pages := #[opening p.size p.spare], isTouched := true }
  else p

/-- Adds a page at the end. -/
def extend (p : Pages) : Except Failure (Nat × Pages) :=
  let n := p.count + 1
  if p.limit < n then .error .full
  else
    let q := { p with pages := p.pages.push (Page.blank p.size) }
    .ok (n, q.setHeader 28 n)

/-- The place of the number that is nearest to another. -/
def nearest (target : Nat) : List Nat → Nat
  | [] => 0
  | n :: rest => (go 0 (distance n) 1 rest)
where
  /-- How far numbers are from the target. -/
  distance (n : Nat) : Nat := (n - target) + (target - n)
  /-- The same, with the best place so far. -/
  go (best least : Nat) : Nat → List Nat → Nat
    | _, [] => best
    | k, n :: rest =>
      if distance n < least then go k (distance n) (k + 1) rest
      else go best least (k + 1) rest

/-- Takes a free page, one near to another if there is a choice, or adds one. -/
def allocate (p : Pages) (near : Nat) : Except Failure (Nat × Pages) := do
  let free := p.header freePosition
  if p.count ≤ free then throw .malformed
  if free = 0 then p.extend
  else
    let p := p.setHeader freePosition (free - 1)
    let trunk := p.header trunkPosition
    if p.count < trunk || trunk = 0 then throw .malformed
    let page ← p.page trunk
    let leaves := page.number32 4
    if leaves = 0 then
      return (trunk, p.setHeader trunkPosition (page.number32 0))
    if p.usable / 4 - 2 < leaves then throw .malformed
    let numbers := (List.range leaves).map fun k => page.number32 (8 + 4 * k)
    let k := if near = 0 then 0 else nearest near numbers
    let n := numbers.getD k 0
    if p.count < n || n < 2 then throw .malformed
    let last := page.number32 (4 + 4 * leaves)
    let page :=
      (page.put (8 + 4 * k) (Bytes.big 4 last)).put 4 (Bytes.big 4 (leaves - 1))
    return (n, p.write trunk page)

/-- Gives a page back. -/
def release (p : Pages) (n : Nat) : Except Failure Pages := do
  if n < 2 || p.count < n then throw .malformed
  let free := p.header freePosition
  let trunk := p.header trunkPosition
  let p := p.setHeader freePosition (free + 1)
  let leaves ← if free = 0 then pure (p.usable / 4)
    else do
      if p.count < trunk then throw .malformed
      pure ((← p.page trunk).number32 4)
  if free ≠ 0 && p.usable / 4 - 2 < leaves then throw .malformed
  if leaves < p.usable / 4 - 8 then
    let page ← p.page trunk
    return p.write trunk ((page.put (8 + 4 * leaves) (Bytes.big 4 n)).put 4
      (Bytes.big 4 (leaves + 1)))
  let page ← p.page n
  return (p.write n (page.put 0 (Bytes.big 4 (if free = 0 then 0 else trunk) ++
    Bytes.big 4 0))).setHeader trunkPosition n

/-- The bytes of all pages. -/
def bytes (p : Pages) : List UInt8 := p.pages.toList.flatMap ByteArray.toList

end Pages

end Bytecode.Database
