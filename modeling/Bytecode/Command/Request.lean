import Bytecode.Bytes
import Bytecode.Fault
import Bytecode.Path
import Bytecode.Text.Digits
import Bytecode.Text.Quoted

/-!
# Requests

What the command line asks for: options for every command, then the name of a
command, its own options and its arguments.
-/

namespace Bytecode.Options

/-! ### Options on the command line

Options come in front of other arguments, with one dash or two; a value stands
behind an equals sign or is the next argument.  A lone `--` ends the options.
-/

/-- What kind of value an option takes. -/
inductive Form where
  | text
  | integer
  | switch
  /-- Texts between commas; the option adds to what it has. -/
  | texts
  deriving DecidableEq

/-- An option with its names, the long one first. -/
structure Spec where
  names : List String
  form : Form

/-- The value of an option as it was given. -/
inductive Value where
  | text (s : String)
  | integer (n : Int)
  | switch (b : Bool)
  | texts (items : List String)

/-- The options that were given, the latest first, by their long names. -/
abbrev Given := List (String × Value)

/-! ### Values -/

/-- The number that digits spell in a base.  An underscore may stand between
digits, and in front of the first if the base was named. -/
def digits? (base : Nat) (named : Bool) (s : List Char) : Option Nat :=
  if s.isEmpty then none else go 0 named s
where
  /-- The same after the number `n`, with an underscore allowed next or not. -/
  go (n : Nat) (mayPause : Bool) : List Char → Option Nat
    | [] => if mayPause then some n else none
    | c :: rest =>
      if c = '_' then if mayPause then go n false rest else none
      else do
        let d ← Text.hexDigit? c
        guard (d < base)
        go (n * base + d) true rest

/-- The number that a text without sign spells: decimal, or in the base that its
first characters name. -/
def natural? : List Char → Option Nat
  | '0' :: c :: rest =>
    if c = 'x' || c = 'X' then digits? 16 true rest
    else if c = 'o' || c = 'O' then digits? 8 true rest
    else if c = 'b' || c = 'B' then digits? 2 true rest
    else digits? 8 true (c :: rest)
  | s => digits? 10 false s

/-- The whole number of 64 bits that a text spells. -/
def integer? (s : String) : Option Int := do
  let n : Int ← match s.toList with
    | '-' :: rest => (natural? rest).map fun n => -(n : Int)
    | '+' :: rest => (natural? rest).map Int.ofNat
    | cs => (natural? cs).map Int.ofNat
  guard (Word.fitsSigned64 n)
  return n

/-- The truth value that a text spells. -/
def switch? (s : String) : Option Bool :=
  if ["1", "t", "T", "TRUE", "true", "True"].contains s then some true
  else if ["0", "f", "F", "FALSE", "false", "False"].contains s then some false
  else none

/-- White space of every script. -/
def isSpace (c : Char) : Bool :=
  let n := c.toNat
  (9 ≤ n && n ≤ 13) || n = 0x20 || n = 0x85 || n = 0xa0 || n = 0x1680 ||
    (0x2000 ≤ n && n ≤ 0x200a) || n = 0x2028 || n = 0x2029 || n = 0x202f ||
    n = 0x205f || n = 0x3000

/-- A text without white space at its ends. -/
def trimmed (s : List Char) : List Char :=
  ((s.dropWhile isSpace).reverse.dropWhile isSpace).reverse

/-- The value that a text spells. -/
def Form.value? (form : Form) (s : String) : Option Value :=
  match form with
  | .text => some (.text s)
  | .integer => (integer? s).map .integer
  | .switch => (switch? s).map .switch
  | .texts => some (.texts
      ((Text.pieces ',' s.toList).map fun p => String.ofList (trimmed p)))

/-! ### Arguments -/

/-- What an argument is. -/
inductive Argument where
  /-- An option with its name and perhaps a value. -/
  | option (name : String) (value : Option String)
  /-- The end of the options. -/
  | stop
  | plain

/-- An option without its dashes, cut at the first equals sign. -/
def cut (s : List Char) : String × Option String :=
  let (name, rest) := s.span (· ≠ '=')
  (String.ofList name,
    if rest.isEmpty then none else some (String.ofList rest.tail))

/-- What an argument is. -/
def Argument.ofString (s : String) : Argument :=
  match s.toList with
  | ['-', '-'] => .stop
  | '-' :: '-' :: rest => .option (cut rest).1 (cut rest).2
  | '-' :: c :: rest => .option (cut (c :: rest)).1 (cut (c :: rest)).2
  | _ => .plain

/-- Adds a value to the options given. -/
def add (given : Given) (name : String) (v : Value) : Given :=
  match v, List.lookup name given with
  | .texts items, some (.texts before) =>
      (name, .texts (before ++ items)) :: given
  | v, _ => (name, v) :: given

/-- The fault of an option that nobody knows. -/
def undefined (name : String) : Fault :=
  .text ("flag provided but not defined: -" ++ name)

/-- Reads options from the front of the arguments; what is left begins with the
first argument that is none. -/
def read (specs : List Spec) (given : Given) :
    List String → Except Fault (Given × List String)
  | [] => .ok (given, [])
  | arg :: rest =>
    match Argument.ofString arg with
    | .plain => .ok (given, arg :: rest)
    | .stop => .ok (given, rest)
    | .option name value =>
      match specs.find? fun o => o.names.contains name with
      | none => .error (undefined name)
      | some o =>
        let long := o.names.headD name
        let take (s : String) : Except Fault Value :=
          match o.form.value? s with
          | some v => .ok v
          | none => .error (.text ("invalid value " ++ Text.quoted s ++
              " for flag -" ++ name ++ ": parse error"))
        match value, o.form, rest with
        | some s, _, rest => do read specs (add given long (← take s)) rest
        | none, .switch, rest => read specs (add given long (.switch true)) rest
        | none, _, s :: rest => do read specs (add given long (← take s)) rest
        | none, _, [] => .error (.text ("flag needs an argument: -" ++ name))

namespace Given

/-- The text given for an option. -/
def text? (g : Given) (name : String) : Option String :=
  match List.lookup name g with
  | some (.text s) => some s
  | _ => none

/-- The number given for an option. -/
def integer? (g : Given) (name : String) : Option Int :=
  match List.lookup name g with
  | some (.integer n) => some n
  | _ => none

/-- Whether a switch was turned on. -/
def isOn (g : Given) (name : String) : Bool :=
  match List.lookup name g with
  | some (.switch b) => b
  | _ => false

/-- The texts given for an option. -/
def texts? (g : Given) (name : String) : Option (List String) :=
  match List.lookup name g with
  | some (.texts items) => some items
  | _ => none

end Given

end Bytecode.Options

namespace Bytecode

/-- Options for every command. -/
structure CommonOptions where
  /-- A configuration file to read; empty means the nearest one. -/
  config : String := ""
  /-- How much is logged; a negative number leaves that to the configuration. -/
  verbosity : Int := -1
  logFile : String := ""

/-- Options of the command that optimises. -/
structure OptimizeOptions where
  outDir : Option String := none
  suffix : Option String := none
  passes : Option (List String) := none
  /-- A negative number leaves the budget to the configuration. -/
  inlineBudget : Int := -1
  journal : Option String := none
  noJournal : Bool := false

/-- Options of the command that lists code. -/
structure DumpOptions where
  /-- A part of the names of the methods to list. -/
  method : String := ""
  noColor : Bool := false

/-- Options of the command that lists runs. -/
structure RunsOptions where
  journal : Option String := none
  limit : Int := 10
  totals : Bool := false

/-- What is to be done. -/
inductive Task where
  | optimize (options : OptimizeOptions) (inputs : List String)
  | dump (options : DumpOptions) (inputs : List String)
  | runs (options : RunsOptions)
  /-- Commands are to be explained. -/
  | explain

/-- What the command line asks for. -/
structure Request where
  common : CommonOptions
  task : Task

namespace Request

open Options

/-- The options for every command. -/
def commonSpecs : List Spec :=
  [⟨["config", "c"], .text⟩, ⟨["verbosity", "v"], .integer⟩,
    ⟨["log-file"], .text⟩]

/-- The options of the command that optimises. -/
def optimizeSpecs : List Spec :=
  [⟨["out-dir", "o"], .text⟩, ⟨["suffix"], .text⟩, ⟨["passes"], .texts⟩,
    ⟨["inline-budget"], .integer⟩, ⟨["journal", "j"], .text⟩,
    ⟨["no-journal"], .switch⟩]

/-- The options of the command that lists code. -/
def dumpSpecs : List Spec := [⟨["method", "m"], .text⟩, ⟨["no-color"], .switch⟩]

/-- The options of the command that lists runs. -/
def runsSpecs : List Spec :=
  [⟨["journal", "j"], .text⟩, ⟨["limit", "n"], .integer⟩, ⟨["totals"], .switch⟩]

/-- The options for every command, as given. -/
def commonOf (g : Given) : CommonOptions where
  config := (g.text? "config").getD ""
  verbosity := (g.integer? "verbosity").getD (-1)
  logFile := (g.text? "log-file").getD ""

/-- The options of the command that optimises, as given. -/
def optimizeOf (g : Given) : OptimizeOptions where
  outDir := g.text? "out-dir"
  suffix := g.text? "suffix"
  passes := g.texts? "passes"
  inlineBudget := (g.integer? "inline-budget").getD (-1)
  journal := g.text? "journal"
  noJournal := g.isOn "no-journal"

/-- The options of the command that lists code, as given. -/
def dumpOf (g : Given) : DumpOptions where
  method := (g.text? "method").getD ""
  noColor := g.isOn "no-color"

/-- The options of the command that lists runs, as given. -/
def runsOf (g : Given) : RunsOptions where
  journal := g.text? "journal"
  limit := (g.integer? "limit").getD 10
  totals := g.isOn "totals"

/-- The commands that can be explained. -/
def commandNames : List String := ["optimize", "dump", "runs"]

/-- The words that ask for an explanation. -/
def helpNames : List String := ["help", "h"]

/-- The explanation of a topic, which must be one of those there are. -/
def topicOf (topics : List String) (name : String) : Except Fault Task :=
  if name = "" || topics.contains name then .ok .explain
  else .error (.of (.exit 3 ("No help topic for \x27" ++ name ++ "\x27")))

/-- What is to be explained, by the arguments behind a word that asks for it.
Behind a second such word there are no topics. -/
def helpOf (topics : List String) : List String → Except Fault Task
  | [] | ["--"] => .ok .explain
  | "--" :: name :: rest =>
      if helpNames.contains name then helpOf [] rest else topicOf topics name
  | name :: rest =>
    match Argument.ofString name with
    | .option option _ => .error (undefined option)
    | _ =>
        if helpNames.contains name then helpOf [] rest else topicOf topics name

/-- The task of a command with given options and arguments; it can be asked for
an explanation instead. -/
def commandOf (specs : List Spec) (args : List String)
    (task : Given → List String → Task) : Except Fault Task := do
  let (g, inputs) ← read specs [] args
  match inputs with
  | name :: rest =>
      if helpNames.contains name then helpOf [] rest else return task g inputs
  | [] => return task g []

/-- The task that the arguments behind the common options name. -/
def taskOf : List String → Except Fault Task
  | [] => .error (.text "no command given: optimize, dump or runs")
  | name :: args =>
    if name = "optimize" then
      commandOf optimizeSpecs args fun g inputs =>
        .optimize (optimizeOf g) inputs
    else if name = "dump" then
      commandOf dumpSpecs args fun g inputs => .dump (dumpOf g) inputs
    else if name = "runs" then
      commandOf runsSpecs args fun g _ => .runs (runsOf g)
    else if helpNames.contains name then helpOf commandNames args
    else topicOf [] name

/-- What the arguments ask for. -/
def ofArguments (args : List String) : Except Fault Request := do
  let (g, rest) ← read commonSpecs [] args
  return { common := commonOf g, task := ← taskOf rest }

end Request

end Bytecode
