import Bytecode.Database.Tree

/-!
# Changing trees

A row is put into the leaf where it belongs, or taken out of it.  A page that
gets too full, or more than two thirds empty, shares its cells with its
neighbours: at most three pages are laid out anew, from left to right, and then
evened out from right to left.  The page above gets other cells by that and is
treated in the same way.
-/

namespace Bytecode.Database.Tree

/-- The state of a distribution of cells over pages. -/
structure Split where
  /-- How many bytes the cells on each page take. -/
  sizes : Array Int
  /-- Where the cells of each page end. -/
  ends : Array Nat
  /-- How many pages there are. -/
  count : Nat

namespace Split

/-- How many bytes are taken on a page. -/
def size (s : Split) (i : Nat) : Int := s.sizes.getD i 0

/-- Where the cells of a page end. -/
def stop (s : Split) (i : Nat) : Nat := s.ends.getD i 0

/-- A distribution with another size and another end of a page, and another size
of the page to its right. -/
def put (s : Split) (i : Nat) (size : Int) (stop : Nat) (next : Int) : Split :=
  { s with
    sizes := (s.sizes.setIfInBounds i size).setIfInBounds (i + 1) next
    ends := s.ends.setIfInBounds i stop }

/-- The most pages that cells of three pages are put on. -/
def most : Nat := 5

/-- Moves cells from a page that is too full to the right. -/
def shrink (cells : Array Nat) (isData : Bool) (room : Int) (i : Nat) :
    Nat → Split → Except Failure Split
  | 0, s => .ok s
  | fuel + 1, s => do
    if s.size i ≤ room then return s
    let s ← if i + 1 < s.count then pure s
      else if most < i + 2 then throw .malformed
      else
        pure { s with count := i + 2, sizes := s.sizes.setIfInBounds (i + 1) 0,
                      ends := s.ends.setIfInBounds (i + 1) cells.size }
    let taken : Int := 2 + cells.getD (s.stop i - 1) 0
    let given : Int := if isData then taken
      else if s.stop i < cells.size then 2 + cells.getD (s.stop i) 0 else 0
    shrink cells isData room i fuel
      (s.put i (s.size i - taken) (s.stop i - 1) (s.size (i + 1) + given))

/-- Moves cells from the right to a page that has room for them. -/
def grow (cells : Array Nat) (isData : Bool) (room : Int) (i : Nat) :
    Nat → Split → Split
  | 0, s => s
  | fuel + 1, s =>
    if s.stop i < cells.size then
      let given : Int := 2 + cells.getD (s.stop i) 0
      if room < s.size i + given then s
      else
        let stop := s.stop i + 1
        let taken : Int := if isData then given
          else if stop < cells.size then 2 + cells.getD stop 0 else 0
        grow cells isData room i fuel
          (s.put i (s.size i + given) stop (s.size (i + 1) - taken))
    else s

/-- Fills pages from left to right, from a given one on. -/
def fill (cells : Array Nat) (isData : Bool) (room : Int) :
    Nat → Nat → Split → Except Failure Split
  | 0, _, s => .ok s
  | fuel + 1, i, s => do
    if s.count ≤ i then return s
    let s ← shrink cells isData room i (cells.size + 1) s
    let s := grow cells isData room i (cells.size + 1) s
    if cells.size ≤ s.stop i then return { s with count := i + 1 }
    if s.stop i ≤ (if i = 0 then 0 else s.stop (i - 1)) then throw .malformed
    fill cells isData room fuel (i + 1) s

/-- Moves cells from a page to the one on its right, as long as that evens them
out, or only while there are none. -/
def lean (cells : Array Nat) (isData isFilling : Bool) (isLast : Bool)
    (i : Nat) : Nat → Split → Split
  | 0, s => s
  | fuel + 1, s =>
    match s.stop (i - 1) with
    | 0 => s
    | r + 1 =>
      let moved : Int := cells.getD r 0
      let joined : Int := cells.getD (if isData then r else r + 1) 0
      let left := s.size (i - 1)
      let right := s.size i
      let isEven : Bool :=
        left - (moved + if isLast then 0 else 2) < right + joined + 2
      if right ≠ 0 && (isFilling || isEven) then s
      else lean cells isData isFilling isLast i fuel
             (s.put (i - 1) (left - (moved + 2)) r (right + joined + 2))

/-- Evens pages out from right to left, from a given one on. -/
def even (cells : Array Nat) (isData isFilling : Bool) :
    Nat → Split → Except Failure Split
  | 0, s => .ok s
  | i + 1, s => do
    let s := lean cells isData isFilling (i + 2 = s.count) (i + 1) cells.size s
    if s.stop i ≤ (if i = 0 then 0 else s.stop (i - 1)) then throw .malformed
    even cells isData isFilling i s

end Split

/-- Where the cells of each page end if they are laid out anew; `before` has the
size and the end of the cells of each page as they are. -/
def distribute (cells : Array Nat) (isData isFilling : Bool) (room : Nat)
    (before : List (Nat × Nat)) : Except Failure (List Nat) := do
  let blank := List.replicate (Split.most + 1 - before.length) 0
  let start : Split :=
    { sizes := ((before.map (·.1) ++ blank).map Int.ofNat).toArray
      ends := (before.map (·.2) ++ blank).toArray
      count := before.length }
  let s ← Split.fill cells isData room (Split.most + 1) 0 start
  let s ← Split.even cells isData isFilling (s.count - 1) s
  return s.ends.toList.take s.count

/-- Pages for cells: those that there are, and others as they are needed. -/
def provide (p : Pages) (near : Nat) :
    Nat → List Nat → Except Failure (List Nat × Pages)
  | 0, _ => .ok ([], p)
  | count + 1, n :: rest => do
    let (numbers, p) ← provide p near count rest
    return (n :: numbers, p)
  | count + 1, [] => do
    let (n, p) ← p.allocate near
    let (numbers, p) ← provide p n count []
    return (n :: numbers, p)

/-- Gives pages back. -/
def releaseAll (p : Pages) (numbers : List Nat) : Except Failure Pages :=
  numbers.foldlM (fun p n => p.release n) p

/-- Neighbours that are laid out anew. -/
structure Siblings where
  /-- The place of the first one below the page above. -/
  first : Nat
  /-- The pages. -/
  nodes : List (Nat × Node)
  /-- The cells between them. -/
  dividers : List Cell

/-- The neighbours of a page, which has changed, with itself. -/
def siblings (p : Pages) (parent here : Step) : Except Failure Siblings := do
  let count := parent.node.cells.size
  let first := if count < 2 || parent.index = 0 then 0
    else if parent.index = count then count - 2 else parent.index - 1
  let extra := min count 2
  let nodes ← (List.range (extra + 1)).mapM fun k => do
    let n := parent.node.child (first + k)
    if n = here.page then return (n, here.node) else return (n, ← Node.read p n)
  if nodes.any fun (_, node) => node.kind ≠ here.node.kind ||
      node.isLeaf ≠ here.node.isLeaf then
    throw .malformed
  return { first, nodes, dividers :=
             (parent.node.cells.extract first (first + extra)).toList }

namespace Siblings

/-- All cells in order, the dividers among them unless they only repeat
numbers. -/
def cells (isData : Bool) : List (Nat × Node) → List Cell → List Cell
  | [], _ => []
  | (_, node) :: rest, [] => node.cells.toList ++ cells isData rest []
  | (_, node) :: rest, d :: dividers =>
    let between := if isData then [] else
        [{ d with child := if node.isLeaf then 0 else node.right }]
    node.cells.toList ++ between ++ cells isData rest dividers

/-- The size and the end of the cells of each page. -/
def extents (isData : Bool) : Nat → List (Nat × Node) → List (Nat × Nat)
  | _, [] => []
  | done, (_, node) :: rest =>
    let stop := done + node.cells.size
    (node.used, stop) :: extents isData (if isData then stop else stop + 1) rest

end Siblings

/-- The pages with cells that end in given places, and the dividers between
them. -/
def layOut (like : Node) (isData : Bool) (cells : Array Cell) (right : Nat) :
    Nat → List (Nat × Nat) → List (Nat × Node) × List Cell
  | _, [] => ([], [])
  | start, [(n, stop)] =>
      ([(n, { like with cells := cells.extract start stop, right })], [])
  | start, (n, stop) :: rest =>
    let own := cells.extract start stop
    let next := cells.getD stop default
    let divider : Cell := if isData then
        { child := n, body := (varint
            (word ((cells.getD (stop - 1) default).number true))).toByteArray }
      else { next with child := n }
    let node :=
      { like with cells := own, right := if like.isLeaf then 0 else next.child }
    let (nodes, dividers) :=
      layOut like isData cells right (if isData then stop else stop + 1) rest
    ((n, node) :: nodes, divider :: dividers)

/-- Lays the cells of a page and its neighbours out anew.  The result is the
page above. -/
def spread (p : Pages) (parent here : Step) (isTop : Bool) :
    Except Failure (Node × Pages) := do
  let s ← siblings p parent here
  let isData := here.node.isLeaf && here.node.kind = .table
  let cells := (Siblings.cells isData s.nodes s.dividers).toArray
  let numbers := s.nodes.map (·.1)
  let ends ← distribute (cells.map (·.size here.node.isLeaf)) isData p.isFilling
    (p.usable - Node.frontSize here.node.isLeaf)
    (Siblings.extents isData 0 s.nodes)
  let (new, p) ← provide p (numbers.headD 0) ends.length numbers
  let new := new.mergeSort
  let lastRight := (s.nodes.getLast?.map (·.2.right)).getD 0
  let (nodes, dividers) :=
    layOut here.node isData cells lastRight 0 (new.zip ends)
  let p ← nodes.foldlM (fun p (n, node) => Node.write p n node) p
  let p ← releaseAll p (numbers.drop ends.length)
  let lastPage := new.getLastD 0
  let behind := (parent.node.cells.extract
    (s.first + s.dividers.length) parent.node.cells.size).toList
  let above : Node := match behind with
    | [] => { parent.node with
        cells := ((parent.node.cells.extract 0 s.first).toList ++
          dividers).toArray, right := lastPage }
    | c :: rest => { parent.node with
        cells := ((parent.node.cells.extract 0 s.first).toList ++ dividers ++
          { c with child := lastPage } :: rest).toArray }
  match nodes with
  | [(n, only)] =>
    if isTop && above.cells.isEmpty &&
        (Node.start parent.page : Int) ≤ only.free p n then
      return (only, ← p.release n)
    else return (above, p)
  | _ => return (above, p)

/-- Puts the last cell of a page that is too full on a page of its own to the
right. The result is the page above. -/
def split (p : Pages) (parent here : Step) : Except Failure (Node × Pages) := do
  let (n, p) ← p.allocate 0
  let own := here.node.cells.pop
  let p ← Node.write p here.page { here.node with cells := own }
  let p ← Node.write p n { here.node with
    cells := #[here.node.cells.back?.getD default] }
  let number := ((own.back?.getD default).number true)
  let divider : Cell :=
    { child := here.page, body := (varint (word number)).toByteArray }
  return ({ parent.node with
    cells := parent.node.cells.push divider, right := n }, p)

/-- Writes a page that has changed, and evens out its neighbourhood if it is too
full or too empty.  The result has the way that is left above. -/
def balance :
    Nat → Pages → Step → List Step → Except Failure (Pages × List Step)
  | 0, _, _, _ => .error .malformed
  | fuel + 1, p, here, above => do
    let free := here.node.free p here.page
    let write : Except Failure (Pages × List Step) :=
      return (← Node.write p here.page here.node, above)
    if 0 ≤ free && free * 3 ≤ p.usable * 2 then write
    else match above with
      | [] =>
        if 0 ≤ free then write
        else
          let (n, p) ← p.allocate here.page
          let top : Node :=
            { kind := here.node.kind, isLeaf := false, right := n }
          let p ← Node.write p here.page top
          balance fuel p { here with
            page := n } [{ page := here.page, node := top, index := 0 }]
      | parent :: rest =>
        let isAppended := here.node.isLeaf && here.node.kind = .table &&
          free < 0 && here.index + 1 = here.node.cells.size && here.index ≠ 0
        let (node, p) ← if isAppended && parent.page ≠ 1 &&
              parent.index = parent.node.cells.size then
            split p parent here
          else spread p parent here rest.isEmpty
        balance fuel p { parent with node } rest

/-- How often balancing can go on. -/
def balanceFuel : Nat := 2 * maxDepth + 2

/-- A cell with a payload behind something, and the pages of its chain. -/
def makeCell (p : Pages) (kind : TreeKind) (front payload : List UInt8) :
    Except Failure (Cell × Pages) := do
  let size := kind.localSize p.usable payload.length
  let body := varint payload.length ++ front ++ payload.take size
  if payload.length ≤ size then return ({ body := body.toByteArray }, p)
  let (first, p) ← chain p 0 payload.length (payload.drop size)
  return ({ body := (body ++ Bytes.big 4 first).toByteArray }, p)
where
  /-- Writes bytes to a chain of new pages. -/
  chain (p : Pages) (near : Nat) : Nat → List UInt8 →
    Except Failure (Nat × Pages)
    | 0, _ => .ok (0, p)
    | fuel + 1, bytes => do
      if bytes.isEmpty then return (0, p)
      let (n, p) ← p.allocate near
      let room := p.usable - 4
      let (next, p) ← chain p n fuel (bytes.drop room)
      let page :=
        (Page.blank p.size).put 0 (Bytes.big 4 next ++ bytes.take room)
      return (n, p.write n page)

/-- Puts a cell in the place where a way ends, perhaps for the one that is
there. -/
def place (p : Pages) (kind : TreeKind) (way : List Step) (isThere : Bool)
    (cell : Cell) : Except Failure Pages := do
  match way with
  | [] => throw .malformed
  | here :: above =>
    let old := here.node.cells.getD here.index default
    let p ← if isThere then releaseAll p (← old.chain p kind) else pure p
    let cells :=
      if isThere then
        here.node.cells.setIfInBounds here.index
          { cell with child := old.child }
      else (here.node.cells.toList.insertIdx here.index cell).toArray
    let here := { here with node := { here.node with cells } }
    if 0 ≤ here.node.free p here.page then Node.write p here.page here.node
    else return (← balance balanceFuel p here above).1

/-- Puts a row into a tree of numbered rows, in place of the one with its
number. -/
def insertRow (p : Pages) (top : Nat) (number : Int) (payload : List UInt8) :
    Except Failure Pages := do
  let (way, found) ← seekNumber p top number
  let (cell, p) ← makeCell p .table (varint (word number)) payload
  place p .table way found cell

/-- Puts a row into a tree of rows by value. -/
def insertKey (p : Pages) (top : Nat)
    (position : Entry → Except Failure Ordering) (payload : List UInt8) :
    Except Failure Pages := do
  let (way, found) ← seek p .index top fun _ c => position (c.entry p .index)
  let (cell, p) ← makeCell p .index [] payload
  place p .index way found cell

/-- The way from a page to its last leaf. -/
def lastLeaf (p : Pages) (kind : TreeKind) :
    Nat → Nat → List Step → Except Failure (List Step)
  | 0, _, _ => .error .malformed
  | depth + 1, n, above => do
    let node ← below p kind n
    if node.isLeaf then
      return { page := n, node, index := node.cells.size - 1 } :: above
    lastLeaf p kind depth node.right
      ({ page := n, node, index := node.cells.size } :: above)

/-- Takes out the cell where a way ends. -/
def takeOut (p : Pages) (kind : TreeKind) (way : List Step) :
    Except Failure Pages := do
  match way with
  | [] => throw .malformed
  | here :: above =>
    let old := here.node.cells.getD here.index default
    let p ← releaseAll p (← old.chain p kind)
    let edited (s : Step) (cells : Array Cell) : Step :=
      { s with node := { s.node with cells } }
    if here.node.isLeaf then
      let here := edited here (here.node.cells.eraseIdxIfInBounds here.index)
      return (← balance balanceFuel p here above).1
    -- the last row to the left takes the place
    match ← lastLeaf p kind maxDepth old.child [] with
    | [] => throw .malformed
    | leaf :: between =>
      let moved := leaf.node.cells.back?.getD default
      let here := edited here (here.node.cells.setIfInBounds here.index
        { moved with child := old.child })
      let (p, left) ← balance balanceFuel p (edited leaf leaf.node.cells.pop)
        (between ++ here :: above)
      match left.dropWhile fun s => s.page ≠ here.page with
      | [] => return p
      | here :: above => return (← balance balanceFuel p here above).1

/-- Takes a row out of a tree of numbered rows. -/
def deleteRow (p : Pages) (top : Nat) (number : Int) :
    Except Failure Pages := do
  let (way, found) ← seekNumber p top number
  if found then takeOut p .table way else return p

/-- Takes a row out of a tree of rows by value, which must be there. -/
def deleteKey (p : Pages) (top : Nat)
    (position : Entry → Except Failure Ordering) : Except Failure Pages := do
  let (way, found) ← seek p .index top fun _ c => position (c.entry p .index)
  if found then takeOut p .index way else throw .malformedIndex

/-- The pages of a tree, each behind those below it, with their chains. -/
def pagesBelow (p : Pages) : Nat → Nat → Except Failure (List Nat)
  | 0, _ => .error .malformed
  | depth + 1, n => do
    let node ← Node.read p n
    let chainOf (c : Cell) : Except Failure (List Nat) :=
      if node.kind = .table && !node.isLeaf then .ok [] else c.chain p node.kind
    let cells ← node.cells.toList.mapM fun c => do
      let below ← if node.isLeaf then pure [] else pagesBelow p depth c.child
      return below ++ (← chainOf c)
    let last ← if node.isLeaf then pure [] else pagesBelow p depth node.right
    return cells.flatten ++ last ++ [n]

/-- Takes all rows out of a tree. -/
def clear (p : Pages) (top : Nat) : Except Failure Pages := do
  let node ← Node.read p top
  let p ← releaseAll p ((← pagesBelow p maxDepth top).filter (· ≠ top))
  Node.write p top { kind := node.kind }

/-- Takes a tree away. -/
def destroy (p : Pages) (top : Nat) : Except Failure Pages := do
  if p.count < top then throw .malformed
  releaseAll p (← pagesBelow p maxDepth top)

/-- Makes a tree without rows. -/
def create (p : Pages) (kind : TreeKind) : Except Failure (Nat × Pages) := do
  let (n, p) ← p.allocate 1
  return (n, ← Node.write (p.write n (Page.blank p.size)) n { kind })

end Bytecode.Database.Tree
