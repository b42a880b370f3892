import Bytecode.Database.Conversion
import Bytecode.Database.Search.Request

/-!
# Searching texts

The rows of a table that can be searched are texts in columns.  A row that a
request asks for gets a rank: the less common what is found is in the table, and
the more often it is found in the row, the lower.
-/

namespace Bytecode.Database

/-- What a search has found in a row. -/
structure Finding where
  hits : List Hit := []
  /-- How much each needle counts. -/
  weights : List Float := []
  /-- How many words the row has, and rows have on average. -/
  size : Float := 0.0
  average : Float := 1.0
  deriving Inhabited

namespace Finding

/-- The rank of a row, where columns may count more than others: the lower, the
better. -/
def rank (f : Finding) (columns : List Float) : Float :=
  let score := f.weights.zipIdx.foldl (fun (score : Float) (weight, k) =>
    let often := (f.hits.filter fun h => h.needle = k).foldl
      (fun (x : Float) h => x + columns.getD h.column 1.0) 0.0
    score + weight * ((often * (1.2 + 1.0)) /
      (often + 1.2 * (1 - 0.75 + 0.75 * f.size / f.average)))) 0.0
  score * (-1.0)

end Finding

/-- How a table can be searched. -/
structure SearchForm where
  /-- The names of the columns, and whether they are searched. -/
  columns : List (String × Bool) := []
  form : WordForm := .plain
  deriving DecidableEq, Repr, Inhabited

namespace SearchForm

/-- The columns as requests see them. -/
def seen (f : SearchForm) : Request.Columns :=
  { names := f.columns.map (·.1), form := f.form }

/-- The words of a value. -/
def wordsOf (f : SearchForm) (v : Value) : List Word :=
  if v = .null then [] else Word.all f.form (v.shown .utf8)

/-- What the words of the columns of a row are compared by. -/
def row (f : SearchForm) (values : List Value) : List (List String) :=
  (f.columns.zip values).map fun ((_, isSearched), v) =>
    if isSearched then (f.wordsOf v).map (·.key) else []

/-- The places that a request finds in a row, if it asks for it. -/
def hits? (f : SearchForm) (r : Request) (values : List Value) :
    Option (List Hit) := r.hits? 0 (f.row values)

/-- How much each needle of a request counts, by the rows of the table: less
common ones count more. -/
def weights (r : Request) (rows : List (List (List String))) : List Float :=
  let total := Float.ofNat rows.length
  r.needles.map fun (needle, columns) =>
    let alone : Request := .near { needles := [needle], columns }
    let found :=
      Float.ofNat (rows.filter fun row => (alone.hits? 0 row).isSome).length
    let weight := ((total - found + 0.5) / (found + 0.5)).log
    if weight ≤ 0.0 then 1e-6 else weight

/-- How many words a row has. -/
def size (row : List (List String)) : Nat :=
  row.foldl (fun n ws => n + ws.length) 0

/-- What a request finds in a row, with how it ranks among all rows of the
table. -/
def finding (r : Request) (rows : List (List (List String)))
    (row : List (List String)) (hits : List Hit) : Finding :=
  let total := rows.foldl (fun n row => n + size row) 0
  { hits, weights := weights r rows, size := Float.ofNat (size row)
    average := Float.ofNat total / Float.ofNat rows.length }

/-- Runs of words that hits cover, from the first word to behind the last. -/
def runs (hits : List Hit) : List (Nat × Nat) :=
  let sorted := hits.mergeSort fun a b => a.start ≤ b.start
  (sorted.foldl (fun (found : List (Nat × Nat)) h =>
    match found with
    | (start, stop) :: rest =>
      if h.start < stop then (start, max stop (h.start + h.length)) :: rest
      else (h.start, h.start + h.length) :: found
    | [] => [(h.start, h.start + h.length)]) []).reverse

/-- The text of a column with marks around what was found, from a word to
another one. -/
def markedBetween (f : SearchForm) (v : Value) (hits : List Hit)
    (opening closing : String) (first last : Nat) : String :=
  let cs := (v.shown .utf8).toList
  let words := (f.wordsOf v).toArray
  let begins :=
    if first = 0 then 0 else ((words[first]?).map (·.start)).getD cs.length
  let ends := if words.size ≤ last + 1 then cs.length else
      ((words[last]?).map (·.stop)).getD cs.length
  let cut (a b : Nat) : String := String.ofList ((cs.drop a).take (b - a))
  let seen := (runs hits).filterMap fun (a, b) =>
    if b ≤ first || last < a then none else some (max a first, min b (last + 1))
  let (pieces, done) := seen.foldl (fun (pieces, done) (a, b) =>
    let start := ((words[a]?).map (·.start)).getD done
    let stop := ((words[b - 1]?).map (·.stop)).getD start
    (pieces ++ [cut done start, opening, cut start stop, closing], stop))
      (([] : List String), begins)
  String.join pieces ++ cut done ends

/-- The text of a column with marks around what was found. -/
def marked (f : SearchForm) (v : Value) (hits : List Hit)
    (opening closing : String) : String :=
  f.markedBetween v hits opening closing 0 (f.wordsOf v).length

/-- How much is found in so many words from a place on: needles that are new
there count most.  Also the place of the first hit and the one behind the
last. -/
def density (hits : List Hit) (count start : Nat) : Nat × Nat × Nat :=
  let inside := hits.filter fun h => start ≤ h.start && h.start < start + count
  let (score, _) := inside.foldl (fun (score, seen) h =>
    if seen.contains h.needle then (score + 1, seen)
    else (score + 1000, h.needle :: seen)) (0, ([] : List Nat))
  (score, ((inside.head?).map (·.start)).getD 0,
    ((inside.getLast?).map fun h => h.start + h.length).getD 0)

/-- The words of a text that begin a sentence. -/
def beginnings (f : SearchForm) (v : Value) : List Nat :=
  let cs := (v.shown .utf8).toList
  (f.wordsOf v).zipIdx.filterMap fun (w, k) =>
    let front := (cs.take w.start).reverse
    let blanks := front.takeWhile fun c => [' ', '\t', '\n', '\r'].contains c
    let isNew : Bool := !blanks.isEmpty &&
      (front.drop blanks.length).head?.any fun c => c = '.' || c = ':'
    if k = 0 || isNew then some k else none

/-- The best places for an excerpt of a column of so many words, each with how
good it is. -/
def excerpts (f : SearchForm) (v : Value) (hits : List Hit) (count : Nat) :
    List (Nat × Nat) :=
  let size := (f.wordsOf v).length
  let sentences := f.beginnings v
  hits.flatMap fun h =>
    let (score, first, last) := density hits count h.start
    let middle : Int :=
      (first : Int) - ((count : Int) - ((last : Int) - first)).tdiv 2
    let middle :=
      if (size : Int) < middle + count then (size : Int) - count else middle
    let own := (score, middle.toNat)
    if size ≤ count then [own]
    else match (sentences.filter (· ≤ h.start)).getLast? with
      | some s =>
        if s < h.start then
          [own, ((density hits count s).1 + (if s = 0 then 120 else 100), s)]
        else [own]
      | none => [own]

/-- An excerpt of so many words, from the column where most is found. -/
def excerpt (f : SearchForm) (values : List Value) (column : Option Nat)
    (hits : List Hit) (opening closing gap : String) (count : Nat) : String :=
  let hitsIn (k : Nat) : List Hit :=
    (hits.filter fun h => h.column = k).mergeSort fun a b => a.start ≤ b.start
  let places := (List.range f.columns.length).filter fun k => column.all (· = k)
  let (_, best, start) := places.foldl (fun (score, best, start) k =>
    (f.excerpts (values.getD k .null) (hitsIn k) count).foldl
      (fun (score, best, start) (s, p) =>
      if score < s then (s, k, p)
      else (score, best, start)) (score, best, start)) (0, column.getD 0, 0)
  let v := values.getD best .null
  let last := start + count - 1
  (if 0 < start then gap else "") ++
    f.markedBetween v (hitsIn best) opening closing start last ++
    (if (f.wordsOf v).length ≤ last + 1 then "" else gap)

end SearchForm

end Bytecode.Database
