/-!
# Paths

A path is a text whose components stand between slashes.  `clean` gives the
shortest text with the same components: empty components and `.` are dropped,
and `..` takes back the component in front of it.  Paths are compared and joined
as texts; nothing here looks at a file system.

What stands between separators is said of lists at first.  Main statement:
`pieces_eq_singleton`, a list without the separator is one piece.
-/

/-! ### Pieces between separators -/

namespace Bytecode.Text

variable {α : Type} [DecidableEq α]

/-- The pieces of a list between separators; there is one at least. -/
def pieces (separator : α) : List α → List (List α)
  | [] => [[]]
  | c :: rest =>
    if c = separator then [] :: pieces separator rest
    else match pieces separator rest with
      | p :: more => (c :: p) :: more
      | [] => [[c]]

/-- What stands in front of the first separator and what follows it; nothing
follows in a list without one. -/
def cut (separator : α) (s : List α) : List α × List α :=
  (s.takeWhile (· ≠ separator), (s.dropWhile (· ≠ separator)).tail)

theorem pieces_eq_singleton {separator : α} {s : List α} (h : separator ∉ s) :
    pieces separator s = [s] := by
  induction s with
  | nil => rfl
  | cons c rest ih =>
      have hc : c ≠ separator := fun hc => h (hc ▸ List.mem_cons_self)
      have hrest : separator ∉ rest := fun hr => h (List.mem_cons_of_mem c hr)
      simp only [pieces, if_neg hc, ih hrest]

end Bytecode.Text

/-! ### Components of paths -/

namespace Bytecode.Path

/-- The components of a path as they stand. -/
def components (s : String) : List String :=
  (Text.pieces '/' s.toList).map String.ofList

/-- Whether a path starts at the root. -/
def isAbsolute (s : String) : Bool := s.toList.head? = some '/'

/-- Puts one more component on a stack of components, the innermost first.  At
the root there is nothing to take back, so `..` is dropped there. -/
def push (rooted : Bool) (stack : List String) (c : String) : List String :=
  if c = "" || c = "." then stack
  else if c = ".." then
    match stack with
    | [] => if rooted then [] else [".."]
    | top :: below => if top = ".." then ".." :: stack else below
  else c :: stack

/-- The components of a path that remain after cleaning. -/
def cleanComponents (s : String) : List String :=
  ((components s).foldl (push (isAbsolute s)) []).reverse

/-- The shortest path with the same components. -/
def clean (s : String) : String :=
  let body := String.intercalate "/" (cleanComponents s)
  if isAbsolute s then "/" ++ body
  else if body = "" then "."
  else body

/-- Everything up to and including the last slash. -/
def front (s : String) : String :=
  String.ofList (s.toList.reverse.dropWhile (· ≠ '/')).reverse

/-- The directory that a path names something in. -/
def dir (s : String) : String := clean (front s)

/-- The path that leads through all the given ones in turn; empty ones in front
do not count, and nothing but empty ones gives the empty path. -/
def join (parts : List String) : String :=
  match parts.dropWhile (· = "") with
  | [] => ""
  | ps => clean (String.intercalate "/" ps)

/-- The path as seen from the root, for someone in the directory `cwd`. -/
def absolute (cwd s : String) : String :=
  if isAbsolute s then clean s else join [cwd, s]

/-- A path from the root and the directories above it, innermost first. -/
def ancestors (s : String) : List String :=
  let cs := cleanComponents s
  (List.range (cs.length + 1)).reverse.map fun n =>
    "/" ++ String.intercalate "/" (cs.take n)

end Bytecode.Path
