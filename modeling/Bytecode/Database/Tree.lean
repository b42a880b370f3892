import Bytecode.Database.Record

/-!
# Trees of pages

Rows are kept in trees of pages: leaves hold cells with rows, the pages above
them cells that lead to other pages.  In a tree of numbered rows all rows are in
leaves; in a tree of rows by value the pages above hold rows, too.  What is too
long for a cell goes on in a chain of pages of its own.  A page is looked at
only when the way leads over it, so damage shows where it is.
-/

namespace Bytecode.Database

/-- The two kinds of trees. -/
inductive TreeKind where
  /-- Rows by their numbers, all of them in leaves. -/
  | table
  /-- Rows by their values, also in the pages above the leaves. -/
  | index
  deriving DecidableEq, Repr, Inhabited

namespace TreeKind

/-- The first byte of a leaf. -/
def leafFlag : TreeKind → Nat
  | .table => 0x0d
  | .index => 0x0a

/-- The first byte of a page above the leaves. -/
def branchFlag : TreeKind → Nat
  | .table => 0x05
  | .index => 0x02

/-- The kind of a page with a given first byte, and whether it is a leaf. -/
def ofFlag? (flag : Nat) : Option (TreeKind × Bool) :=
  if flag = 0x0d then some (.table, true)
  else if flag = 0x0a then some (.index, true)
  else if flag = 0x05 then some (.table, false)
  else if flag = 0x02 then some (.index, false)
  else none

/-- The longest payload that stays in its cell, on pages with so many usable
bytes. -/
def maxLocal (usable : Nat) : TreeKind → Nat
  | .table => usable - 35
  | .index => (usable - 12) * 64 / 255 - 23

/-- How much of a payload stays in its cell. -/
def localSize (kind : TreeKind) (usable length : Nat) : Nat :=
  let most := kind.maxLocal usable
  let least := (usable - 12) * 32 / 255 - 23
  let fitting := least + (length - least) % (usable - 4)
  if length ≤ most then length else if fitting ≤ most then fitting else least

end TreeKind

/-- A cell of a page. -/
structure Cell where
  /-- The page to the left of the cell, above the leaves. -/
  child : Nat := 0
  /-- What follows the number of that page. -/
  body : ByteArray
  deriving Inhabited

namespace Cell

/-- How many bytes a cell takes of its page. -/
def size (isLeaf : Bool) (c : Cell) : Nat :=
  if isLeaf then max 4 c.body.size else 4 + c.body.size

/-- The bytes of a cell. -/
def bytes (isLeaf : Bool) (c : Cell) : List UInt8 :=
  let all := (if isLeaf then [] else Bytes.big 4 c.child) ++ c.body.toList
  all ++ List.replicate (4 - all.length) 0

end Cell

/-- A page of a tree. -/
structure Node where
  kind : TreeKind
  isLeaf : Bool := true
  cells : Array Cell := #[]
  /-- The page to the right of all cells, above the leaves. -/
  right : Nat := 0
  deriving Inhabited

/-- A row in a tree. -/
structure Entry where
  number : Int := 0
  payload : Payload
  deriving Inhabited

namespace Node

/-- Where the tree begins on a page. -/
def start (n : Nat) : Nat := if n = 1 then headerSize else 0

/-- How many bytes stand in front of the pointers to cells. -/
def frontSize (isLeaf : Bool) : Nat := if isLeaf then 8 else 12

/-- The page below with a given place. -/
def child (node : Node) (i : Nat) : Nat :=
  (node.cells[i]?.map (·.child)).getD node.right

/-- How many bytes the cells take, with the pointers to them. -/
def used (node : Node) : Nat :=
  node.cells.foldl (fun n c => n + 2 + c.size node.isLeaf) 0

/-- How many bytes there are for cells on a page. -/
def room (p : Pages) (n : Nat) (isLeaf : Bool) : Nat :=
  p.usable - start n - frontSize isLeaf

/-- How many bytes are left on a page; there may be too few. -/
def free (p : Pages) (n : Nat) (node : Node) : Int :=
  (room p n node.isLeaf : Int) - node.used

/-- How long the body of a cell at a position of a page is. -/
def bodyLength (p : Pages) (kind : TreeKind) (isLeaf : Bool) (page : Page)
    (i : Nat) : Nat :=
  let payload (i : Nat) : Nat × Nat :=
    let (length, next) := Record.varintAt page i
    (length % Word.size32, next)
  let stored (length : Nat) : Nat :=
    let size := kind.localSize p.usable length
    if size < length then size + 4 else size
  match kind, isLeaf with
  | .table, true =>
    let (length, next) := payload i
    let (_, next) := Record.varintAt page next
    next - i + stored length
  | .table, false => (Record.varintAt page i).2 - i
  | .index, _ =>
    let (length, next) := payload i
    next - i + stored length

/-- The page of a tree with a given number. -/
def read (p : Pages) (n : Nat) : Except Failure Node := do
  let page ← p.page n
  let start := start n
  match TreeKind.ofFlag? (page.byte start) with
  | none => throw .malformed
  | some (kind, isLeaf) =>
    let count := page.number16 (start + 3)
    if (p.size - 8) / 6 < count then throw .malformed
    let pointers := start + frontSize isLeaf
    let cell (k : Nat) : Cell :=
      let i := page.number16 (pointers + 2 * k) % p.size
      let front := if isLeaf then 0 else 4
      let length := bodyLength p kind isLeaf page (i + front)
      { child := if isLeaf then 0 else page.number32 i
        body := page.extract (i + front) (i + front + length) }
    return { kind, isLeaf, cells := ((List.range count).map cell).toArray
             right := if isLeaf then 0 else page.number32 (start + 8) }

/-- Where cells begin if they fill a page from its end. -/
def offsets : Nat → List (List UInt8) → List Nat
  | _, [] => []
  | top, c :: rest => (top - c.length) :: offsets (top - c.length) rest

/-- Writes a page of a tree. -/
def write (p : Pages) (n : Nat) (node : Node) : Except Failure Pages := do
  let page ← p.page n
  let start := start n
  let cells := node.cells.toList.map (·.bytes node.isLeaf)
  let offsets := offsets p.usable cells
  let top := offsets.getLast?.getD p.usable
  let flag := if node.isLeaf then node.kind.leafFlag else node.kind.branchFlag
  let front :=
    [UInt8.ofNat flag] ++ Bytes.big 2 0 ++ Bytes.big 2 cells.length ++
    Bytes.big 2 (top % 65536) ++ [0] ++ (if node.isLeaf then [] else
        Bytes.big 4 node.right) ++ offsets.flatMap (Bytes.big 2)
  let gap := List.replicate (top - start - front.length) 0
  return p.write n (page.put start (front ++ gap ++ cells.reverse.flatten))

end Node

namespace Pages

/-- So many bytes of a chain of pages, as far as they can be read. -/
def chain (p : Pages) : Nat → Nat → Nat → List ByteArray
  | 0, _, _ => []
  | _, _, 0 => []
  | fuel + 1, n, length + 1 =>
    match p.page n with
    | .error _ => []
    | .ok page =>
      let room := p.usable - 4
      page.extract 4 (4 + min room (length + 1)) :: p.chain fuel
        (page.number32 0) (length + 1 - room)

/-- The payload that begins at a position of the body of a cell. -/
def payload (p : Pages) (kind : TreeKind) (body : ByteArray) (length i : Nat) :
    Payload :=
  let size := kind.localSize p.usable length
  let front := body.extract i (i + size)
  if length ≤ size || body.size < i + size + 4 then { length, bytes := front }
  else
    let parts := p.chain p.count (Page.number32 body (i + size)) (length - size)
    { length, bytes := parts.foldl (· ++ ·) front }

/-- The numbers of the pages of a chain. -/
def chainPages (p : Pages) : Nat → Nat → Except Failure (List Nat)
  | 0, _ => .ok []
  | count + 1, n => do
    if n < 2 || p.count < n then throw .malformed
    let page ← p.page n
    return n :: (← p.chainPages count (page.number32 0))

end Pages

namespace Cell

/-- The number of a row in a tree of numbered rows. -/
def number (isLeaf : Bool) (c : Cell) : Int :=
  let start := if isLeaf then (Record.varintAt c.body 0).2 else 0
  Int.bmod (Record.varintAt c.body start).1 Word.size64

/-- The row in a cell. -/
def entry (p : Pages) (kind : TreeKind) (c : Cell) : Entry :=
  let (length, next) := Record.varintAt c.body 0
  let length := length % Word.size32
  match kind with
  | .table =>
    let (number, next) := Record.varintAt c.body next
    { number := Int.bmod number Word.size64,
      payload := p.payload kind c.body length next }
  | .index => { payload := p.payload kind c.body length next }

/-- The pages of the chain that a cell of a leaf, or of any page of a tree of
rows by value, leads to. -/
def chain (p : Pages) (kind : TreeKind) (c : Cell) :
    Except Failure (List Nat) :=
  let (length, next) := Record.varintAt c.body 0
  let length := length % Word.size32
  let next := if kind = .table then (Record.varintAt c.body next).2 else next
  let size := kind.localSize p.usable length
  if length ≤ size then .ok []
  else
    let count := (length - size + (p.usable - 4) - 1) / (p.usable - 4)
    p.chainPages count (Page.number32 c.body (next + size))

end Cell

/-- A page on the way through a tree, and the place there. -/
structure Step where
  page : Nat
  node : Node
  index : Nat
  deriving Inhabited

namespace Tree

/-- How deep a tree can be. -/
def maxDepth : Nat := 20

/-- The page at the top of a tree. -/
def root (p : Pages) (kind : TreeKind) (n : Nat) : Except Failure Node := do
  let node ← Node.read p n
  if node.kind ≠ kind || (node.cells.isEmpty && !node.isLeaf && n ≠ 1) then
    throw .malformed
  return node

/-- A page below another one. -/
def below (p : Pages) (kind : TreeKind) (n : Nat) : Except Failure Node := do
  let node ← Node.read p n
  if node.kind ≠ kind || node.cells.isEmpty then throw .malformed
  return node

/-- The first place between two that is not before what is looked for, and
whether it is the one. -/
def bound (test : Nat → Except Failure Ordering) (low high : Nat) :
    Except Failure (Nat × Bool) := do
  if low < high then
    let middle := (low + (high - 1)) / 2
    match ← test middle with
    | .lt => bound test (middle + 1) high
    | .gt => bound test low middle
    | .eq => return (middle, true)
  else return (low, false)
termination_by high - low
decreasing_by all_goals omega

/-- Goes down to the place of something; `test` says where a cell is.  The
result is the way there, its end first. -/
def seekBelow (p : Pages) (kind : TreeKind)
    (test : Node → Cell → Except Failure Ordering) :
    Nat → Nat → Node → List Step → Except Failure (List Step × Bool)
  | 0, _, _, _ => .error .malformed
  | depth + 1, n, node, above => do
    let look (i : Nat) : Except Failure Ordering :=
      match node.cells[i]? with
      | some c => test node c
      | none => .error .malformed
    let (i, found) ← bound look 0 node.cells.size
    let way := { page := n, node, index := i } :: above
    if node.isLeaf || (found && kind = .index) then return (way, found)
    let next := node.child i
    seekBelow p kind test depth next (← below p kind next) way

/-- Goes from the top of a tree to the place of something. -/
def seek (p : Pages) (kind : TreeKind) (top : Nat)
    (test : Node → Cell → Except Failure Ordering) :
    Except Failure (List Step × Bool) := do
  seekBelow p kind test maxDepth top (← root p kind top) []

/-- The way to the row with a number. -/
def seekNumber (p : Pages) (top : Nat) (number : Int) :
    Except Failure (List Step × Bool) :=
  seek p .table top fun node c => .ok (compare (c.number node.isLeaf) number)

/-- The row with a number. -/
def find? (p : Pages) (top : Nat) (number : Int) :
    Except Failure (Option Entry) := do
  let (way, found) ← seekNumber p top number
  match way with
  | step :: _ =>
    if found then return step.node.cells[step.index]?.map (·.entry p .table)
    else return none
  | [] => return none

/-- What has been seen on a walk through a tree. -/
structure Walk where
  entries : Array Entry := #[]
  /-- Whether nothing further is to be seen. -/
  isDone : Bool := false
  failure : Option Failure := none

/-- Sees a row; `position` says whether it is before what is looked for, among
it or behind it. -/
def Walk.see (w : Walk) (position : Entry → Except Failure Ordering)
    (e : Entry) : Walk :=
  match position e with
  | .error f => { w with isDone := true, failure := some f }
  | .ok .lt => w
  | .ok .eq => { w with entries := w.entries.push e }
  | .ok .gt => { w with isDone := true }

/-- Walks in order over the rows below a page.  A place where all is looked for
is not searched. -/
def walkBelow (p : Pages) (kind : TreeKind)
    (position : Option (Entry → Except Failure Ordering)) :
    Nat → Node → Walk → Walk
  | 0, _, w => { w with isDone := true, failure := some .malformed }
  | depth + 1, node, w =>
    let entryOf (c : Cell) : Entry :=
      if kind = .table && !node.isLeaf then
        { number := c.number false, payload := ⟨0, .empty⟩ }
      else c.entry p kind
    let first : Except Failure Nat := match position with
      | none => .ok 0
      | some position =>
        (bound (fun i =>
          (position (entryOf (node.cells.getD i default))).map fun o =>
          if o = .lt then .lt else .gt) 0 node.cells.size).map (·.1)
    match first with
    | .error f => { w with isDone := true, failure := some f }
    | .ok first =>
      let look := position.getD fun _ => .ok .eq
      let go (w : Walk) (i : Nat) : Walk :=
        if w.isDone || i < first then w
        else
          let w := if node.isLeaf then w
            else match below p kind (node.child i) with
              | .error f => { w with isDone := true, failure := some f }
              | .ok next => walkBelow p kind position depth next w
          if w.isDone || (kind = .table && !node.isLeaf) then w
          else match node.cells[i]? with
            | some c => w.see look (c.entry p kind)
            | none => w
      (List.range (node.cells.size + 1)).foldl go w

/-- Walks in order over the rows of a tree. -/
def walk (p : Pages) (kind : TreeKind) (top : Nat)
    (position : Option (Entry → Except Failure Ordering)) : Walk :=
  match root p kind top with
  | .error f => { isDone := true, failure := some f }
  | .ok node => walkBelow p kind position maxDepth node {}

/-- Goes down to the last row. -/
def lastBelow (p : Pages) (kind : TreeKind) :
    Nat → Node → Except Failure (Option Entry)
  | 0, _ => .error .malformed
  | depth + 1, node =>
    if node.isLeaf then .ok (node.cells.back?.map (·.entry p kind))
    else do lastBelow p kind depth (← below p kind node.right)

/-- The last row of a tree. -/
def last? (p : Pages) (kind : TreeKind) (top : Nat) :
    Except Failure (Option Entry) := do
  lastBelow p kind maxDepth (← root p kind top)

end Tree

end Bytecode.Database
