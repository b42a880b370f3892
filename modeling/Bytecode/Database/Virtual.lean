import Bytecode.Database.Reader
import Bytecode.Database.Schema

/-!
# Tables kept in others

A table need not be a tree of its own.  What is said when it is made tells its
columns and how its rows are kept: as texts that can be searched, or as boxes.
-/

namespace Bytecode.Database

namespace Virtual

/-- Refuses a definition in words. -/
def refuse {α : Type} (text : String) : Except Failure α :=
  .error (.refused (.said text))

/-- The letters up to a closing quote, which stands for itself if it is doubled,
and what follows. -/
def unquoted (closing : Char) : List Char → List Char × List Char
  | [] => ([], [])
  | c :: rest =>
    if c = closing then
      match rest with
      | d :: more =>
        if d = closing then
          let (found, behind) := unquoted closing more
          (c :: found, behind)
        else ([], d :: more)
      | [] => ([], [])
    else
      let (found, behind) := unquoted closing rest
      (c :: found, behind)

/-- The word at the head of a text, whether it stands between quotes, and what
follows. -/
def word? (cs : List Char) : Option (String × Bool × List Char) :=
  match cs with
  | [] => none
  | c :: rest =>
    if ['"', '\x27', '\x60', '['].contains c then
      let (found, behind) := unquoted (if c = '[' then ']' else c) rest
      some (String.ofList found, true, behind)
    else
      let found := cs.takeWhile Request.Piece.isBare
      if found.isEmpty then none
      else some (String.ofList found, false, cs.drop found.length)

/-- A text without the blanks at its head. -/
def trimmed (cs : List Char) : List Char := cs.dropWhile (· = ' ')

/-- Something that is said about a table of texts: a column with what is said
about it, or a choice with its value. -/
inductive Saying where
  | column (name : String) (option : Option String)
  | choice (name value : String)

/-- What an argument says. -/
def saying (argument : String) : Except Failure Saying :=
  let second (cs : List Char) (k : Option String → Saying) : Option Saying :=
    match trimmed cs with
    | [] => some (k none)
    | cs =>
      match word? cs with
      | some (w, _, rest) => if rest.isEmpty then some (k (some w)) else none
      | none => none
  let found : Option Saying := do
    let (first, isQuoted, rest) ← word? argument.toList
    match trimmed rest with
    | '=' :: rest => if isQuoted then none else
        second rest fun v => .choice first (v.getD "")
    | rest => second rest (.column first)
  match found with
  | some s => .ok s
  | none => refuse ("parse error in \"" ++ argument ++ "\"")

/-- What counts as a word, by its name and what follows that. -/
def wordForm (value : String) : Except Failure WordForm :=
  let words := (value.toList.splitOn ' ').filter (!·.isEmpty)
  let name := match (words.head?).bind word? with
    | some (w, _, _) => w
    | none => ""
  match Token.lowered name with
  | "unicode61" => .ok .plain
  | "ascii" => .ok .simple
  | "porter" => .ok .stemmed
  | "trigram" => .ok .triples
  | _ => refuse (if name = "" then "parse error in tokenize directive" else
      "no such tokenizer: " ++ name)

/-- The choices that do not change what is found. -/
def choices : List String :=
  ["prefix", "content", "contentless_delete", "content_rowid", "columnsize",
    "detail", "tokendata"]

/-- A table of texts with one more thing that is said about it. -/
def saySearch (f : SearchForm) (s : Saying) : Except Failure SearchForm := do
  match s with
  | .column name option =>
    if isSame name "rank" || isSame name "rowid" then
      refuse ("reserved fts5 column name: " ++ name)
    match option with
    | none => return { f with columns := f.columns ++ [(name, true)] }
    | some o =>
      if isSame o "unindexed" then
        return { f with columns := f.columns ++ [(name, false)] }
      refuse ("unrecognized column option: " ++ o)
  | .choice name value =>
    if isSame name "tokenize" then return { f with form := ← wordForm value }
    if choices.any (isSame name) then return f
    refuse ("unrecognized option: \"" ++ name ++ "\"")

/-- Names that all differ. -/
def differ : List String → Bool
  | [] => true
  | a :: rest => !rest.any (isSame a) && differ rest

/-- A table of texts.  A column with its own name stands for all of them, and
another one for the rank of a row. -/
def texts (name : String) (arguments : List String) : Except Failure Table := do
  let f ← arguments.foldlM (fun f a => do
    saySearch f (← saying a)) ({} : SearchForm)
  let names := f.columns.map (·.1)
  if names.isEmpty || !differ (names ++ [name, "rank"]) then
    refuse ("vtable constructor failed: " ++ name)
  let columns := names.map (fun n => ({ name := n } : Column)) ++
    [{ name, isHidden := true }, { name := "rank", isHidden := true }]
  return { name, columns := columns.toArray, form := .texts f }

/-- The name that an argument begins with. -/
def nameIn (argument : String) : Except Failure String :=
  match Token.all argument with
  | [] => .ok ""
  | t :: _ => if Reader.isName t then .ok (Reader.nameOf t) else
      .error (.refused (.misplaced t.text))

/-- A table of boxes: their number, their bounds, and what else there is behind
plus signs. -/
def boxes (name : String) (isWhole : Bool) (arguments : List String) :
    Except Failure Table := do
  if arguments.length < 3 then refuse "Too few columns for an rtree table"
  let isOther (a : String) : Bool := a.toList.head? = some '+'
  let bounds := (arguments.drop 1).takeWhile (!isOther ·)
  let others := (arguments.drop 1).drop bounds.length
  if others.any (!isOther ·) then refuse "Auxiliary rtree columns must be last"
  let number ← nameIn (arguments.headD "")
  let boundNames ← bounds.mapM nameIn
  let otherNames ← others.mapM fun a => nameIn (String.ofList (a.toList.drop 1))
  let names := number :: boundNames ++ otherNames
  match names.zipIdx.find? fun (n, k) => (names.take k).any (isSame n) with
  | some (n, _) => throw (.refused (.columnTwice n))
  | none => pure ()
  if boundNames.length < 2 then refuse "Too few columns for an rtree table"
  if 10 < boundNames.length then refuse "Too many columns for an rtree table"
  if boundNames.length % 2 = 1 then
    refuse "Wrong number of columns for an rtree table"
  let type := if isWhole then "INT" else "REAL"
  let columns : List Column :=
    [{ name := number, type := "INT", affinity := .ofType "INT" }] ++
      boundNames.map (fun n => { name := n, type, affinity := .ofType type }) ++
      otherNames.map fun n => { name := n }
  return { name, columns := columns.toArray, numberColumn := some 0, form :=
             .boxes { table := name, isWhole, number, bounds := boundNames,
                      others := otherNames.length } }

/-- The table that a definition describes. -/
def table (name : String) (v : VirtualText) : Except Failure Table :=
  match Token.lowered v.method with
  | "fts5" => texts name v.arguments
  | "rtree" => boxes name false v.arguments
  | "rtree_i32" => boxes name true v.arguments
  | _ => refuse ("no such module: " ++ v.method)

/-- A name between quotes. -/
def quoted (quote : Char) (name : String) : String :=
  String.singleton quote ++ String.join (name.toList.map
    fun c => if c = quote then String.ofList [c, c] else String.singleton c) ++
    String.singleton quote

/-- The tables that rows of a table are kept in, by the ends of their names, in
the order in which they are made; each with its definition behind its name, and
its first rows. -/
def parts (t : Table) (pageSize : Nat) :
    List (String × String × List (Int × List Value)) :=
  match t.form with
  | .rows => []
  | .texts s =>
    let columns := String.join
      ((List.range s.columns.length).map fun k => ", c" ++ Text.decimal 1 k)
    [("data", "(id INTEGER PRIMARY KEY, block BLOB)", [(1, [.integer 1, .blob
      []]), (10, [.integer 10, .blob (List.replicate 7 0)])]),
      ("idx", "(segid, term, pgno, PRIMARY KEY(segid, term)) WITHOUT ROWID",
        []), ("content", "(id INTEGER PRIMARY KEY" ++ columns ++ ")", []),
      ("docsize", "(id INTEGER PRIMARY KEY, sz BLOB)", []),
      ("config", "(k PRIMARY KEY, v) WITHOUT ROWID",
        [(0, [.text "version", .integer 4])])]
  | .boxes b =>
    let others :=
      String.join ((List.range b.others).map fun k => ",a" ++ Text.decimal 1 k)
    [("rowid", "(rowid INTEGER PRIMARY KEY,nodeno" ++ others ++ ")", []),
      ("node", "(nodeno INTEGER PRIMARY KEY,data)",
        [(1, [.integer 1, .blob (BoxForm.node (b.nodeSize pageSize) [])])]),
      ("parent", "(nodeno INTEGER PRIMARY KEY,parentnode)", [])]

/-- The name of a table that rows of another are kept in. -/
def partName (t : Table) (part : String) : String := t.name ++ "_" ++ part

/-- The definition of a table that rows of another are kept in, from its name
on. -/
def partText (t : Table) (part definition : String) : String :=
  quoted (match t.form with
    | .texts _ => '\x27'
    | _ => '"') (partName t part) ++ definition

/-- The tables that rows of a table are kept in, in the order in which they
go. -/
def partsToDrop (t : Table) : List String :=
  match t.form with
  | .rows => []
  | .texts _ => ["data", "idx", "config", "docsize", "content"]
  | .boxes _ => ["node", "rowid", "parent"]

end Virtual

end Bytecode.Database
