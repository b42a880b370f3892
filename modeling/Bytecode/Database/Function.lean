import Bytecode.Database.Function.Basic
import Bytecode.Database.Function.Document
import Bytecode.Database.Function.Elementary
import Bytecode.Database.Function.Moment.Reading
import Bytecode.Database.Function.Moment
import Bytecode.Database.Token

/-!
# Functions

All functions of the values of one row, by their names.  One of them tells what
the database can do: the choices that were made when it was built, by name, some
with a value.
-/

namespace Bytecode.Database

namespace Feature

/-- All choices in the order of their names. -/
def all : List String :=
  ["ATOMIC_INTRINSICS=0", "COMPILER=gcc-12.2.0", "DEFAULT_AUTOVACUUM",
    "DEFAULT_CACHE_SIZE=-2000",
    "DEFAULT_FILE_FORMAT=4", "DEFAULT_JOURNAL_SIZE_LIMIT=-1",
    "DEFAULT_MEMSTATUS=0", "DEFAULT_MMAP_SIZE=0", "DEFAULT_PAGE_SIZE=4096",
    "DEFAULT_PCACHE_INITSZ=20", "DEFAULT_RECURSIVE_TRIGGERS",
    "DEFAULT_SECTOR_SIZE=4096", "DEFAULT_SYNCHRONOUS=2",
    "DEFAULT_WAL_AUTOCHECKPOINT=1000", "DEFAULT_WAL_SYNCHRONOUS=2",
    "DEFAULT_WORKER_THREADS=0", "DIRECT_OVERFLOW_READ",
    "ENABLE_COLUMN_METADATA", "ENABLE_DBPAGE_VTAB", "ENABLE_DBSTAT_VTAB",
    "ENABLE_FTS5", "ENABLE_GEOPOLY", "ENABLE_MATH_FUNCTIONS",
    "ENABLE_MEMORY_MANAGEMENT", "ENABLE_OFFSET_SQL_FUNC",
    "ENABLE_PREUPDATE_HOOK", "ENABLE_RBU", "ENABLE_RTREE", "ENABLE_SESSION",
    "ENABLE_SNAPSHOT", "ENABLE_STAT4", "ENABLE_UNLOCK_NOTIFY",
    "LIKE_DOESNT_MATCH_BLOBS", "MALLOC_SOFT_LIMIT=1024", "MAX_ATTACHED=10",
    "MAX_COLUMN=2000", "MAX_COMPOUND_SELECT=500", "MAX_DEFAULT_PAGE_SIZE=8192",
    "MAX_EXPR_DEPTH=1000", "MAX_FUNCTION_ARG=1000", "MAX_LENGTH=1000000000",
    "MAX_LIKE_PATTERN_LENGTH=50000", "MAX_MMAP_SIZE=0x7fff0000",
    "MAX_PAGE_COUNT=0xfffffffe", "MAX_PAGE_SIZE=65536",
    "MAX_SQL_LENGTH=1000000000", "MAX_TRIGGER_DEPTH=1000",
    "MAX_VARIABLE_NUMBER=32766", "MAX_VDBE_OP=250000000",
    "MAX_WORKER_THREADS=8", "MUTEX_PTHREADS", "SOUNDEX",
    "SYSTEM_MALLOC", "TEMP_STORE=1", "THREADSAFE=1"]

/-- Whether a choice was made; its value need not be named. -/
def isThere (name : String) : Bool :=
  let word := (Token.lowered name).toList
  let start := "sqlite_".toList
  let word := if start.isPrefixOf word then word.drop start.length else word
  all.any fun f =>
    let f := (Token.lowered f).toList
    word.isPrefixOf f && !((f.drop word.length).head?.any
      fun c => c.isAlphanum || c = '_' || c = '$')

end Feature

namespace Function

/-- A function of a number that gives null for everything else. -/
def onNumber (f : Float → Float) : Function :=
  strict fun _ v =>
    match (match v with
      | .text s => (Value.ofText? s).getD .null
      | .blob _ => .null
      | v => v) with
    | .null => .null
    | n => .ofFloat (f n.toFloat)

/-- A function that rounds a number to a whole one. -/
def rounding (f : Float → Float) : Function :=
  strict fun _ v =>
    match (match v with
      | .text s => (Value.ofText? s).getD .null
      | .blob _ => .null
      | v => v) with
    | .integer n => .integer n
    | .real bits => .ofFloat (f (Float.ofBits bits))
    | _ => .null

/-- A function of two numbers. -/
def onNumbers (f : Float → Float → Float) : Function where
  least := 2
  most := some 2
  apply _ vs :=
    let number (v : Value) : Value := match v with
      | .text s => (Value.ofText? s).getD .null
      | .blob _ => .null
      | v => v
    .ok (match vs.map number with
      | [.null, _] | [_, .null] => .null
      | [a, b] => .ofFloat (f a.toFloat b.toFloat)
      | _ => .null)

/-- The remainder of two doubles, exactly. -/
def remainder (x y : Float) : Float :=
  if x.isInf then 0.0 / 0.0
  else if y.isInf then x
  else match Value.number? (.real x.toBits), Value.number? (.real y.toBits) with
  | some (m, e), some (n, f) =>
    if n = 0 then 0.0 / 0.0
    else
      let low := min e f
      let a : Int := m * (Nat.pow 2 (e - low).toNat : Nat)
      let b : Int := n * (Nat.pow 2 (f - low).toNat : Nat)
      let r := Int.tmod a b
      let scaled := Float.ofInt r
      if 0 ≤ low then scaled * Float.pow 2.0 (Float.ofInt low)
      else scaled / Float.pow 2.0 (Float.ofInt (-low))
  | _, _ => 0.0

/-- A number rounded to places behind the point. -/
def round (e : Encoding) (v places : Value) : Value :=
  if v = .null || places = .null then .null
  else
    let n := max 0 (min 30 (places.toWhole e))
    let x := v.double? e
    if x < -4503599627370496.0 || 4503599627370496.0 < x then .ofFloat x
    else if n = 0 then .ofFloat (Float.ofInt
      (Value.truncated (if x < 0 then x - 0.5 else x + 0.5).toBits))
    else
      let text := ({ isExact := true, precision := some n.toNat } :
        Place).double 'f' x.toBits
      .ofFloat ((Value.literal? text.toList).getD (.integer 0)).toFloat

/-- The greatest or the least of values; null if one of them is. -/
def extreme (isGreatest : Bool) : Function where
  least := 2
  most := none
  nature := .common
  apply s vs :=
    .ok (if vs.contains .null then .null
      else match vs with
        | [] => .null
        | first :: rest => rest.foldl (fun best v =>
          let o := v.order s.encoding s.collation best
          if o = (if isGreatest then .gt else .lt) then v else best) first)

/-- A function that takes characters off the ends of a text. -/
def trimming (fromLeft fromRight : Bool) : Function :=
  strictAll 1 (some 2) fun s vs =>
    let set := match vs with
      | [_, chars] => chars.seen s.encoding
      | _ => " "
    .text (TextFunction.trim fromLeft fromRight
      set ((vs.headD .null).shown s.encoding))

/-- The moment that values stand for, if they do; the name is that of the
function. -/
def moment? (name : String) (s : Setting) (vs : List Value) :
    Except Failure (Option Moment) :=
  match Moment.ofValues s.encoding (if s.place.isNone then some s.now else
      none) vs with
  | .ok m => .ok (some m)
  | .error .unknown => .ok none
  | .error .changing =>
    .error (.refused (.said ("non-deterministic use of " ++ name ++ "() in " ++
      s.place.getD "an index")))

/-- A function of a moment. -/
def onMoment (name : String) (f : Moment → Value) : Function where
  least := 0
  most := none
  apply s vs := do return ((← moment? name s vs).map f).getD .null

/-- The question whether a text is like a pattern. -/
def likeness (isGlobbing : Bool) : Function where
  least := 2
  most := some (if isGlobbing then 2 else 3)
  apply s vs := do
    let isBlob (v : Value) : Bool := match v with
      | .blob _ => true
      | _ => false
    match vs with
    | pattern :: text :: rest =>
      if isBlob pattern || isBlob text then return .integer 0
      if 50000 < Text.size (pattern.seen s.encoding) then
        failing "LIKE or GLOB pattern too complex"
      else
        let escape : Option Char ← match rest with
          | [] => pure none
          | .null :: _ => return .null
          | e :: _ =>
            match (Text.taken (e.seen s.encoding)).toList with
            | [c] => pure (some c)
            | _ => throw (.refused
                (.said "ESCAPE expression must be a single character"))
        if pattern = .null || text = .null then return .null
        let p := Text.taken (pattern.seen s.encoding)
        let t := Text.taken (text.seen s.encoding)
        return .ofBool (if isGlobbing then isGlob p t else
            isLike s.distinguishesCase escape p t)
    | _ => return .null

/-- Functions of texts and bytes. -/
def ofText? (name : String) : Option Function :=
  match name with
  | "length" => some (strict fun s v => match v with
      | .blob bytes => .integer bytes.length
      | v => .integer (Text.clusters (v.seen s.encoding).toList).length)
  | "octet_length" =>
      some (strict fun s v => .integer (v.asBytes s.encoding).length)
  | "lower" =>
      some (strict fun s v => .text (Token.lowered (v.shown s.encoding)))
  | "upper" => some (strict fun s v =>
      .text (String.ofList ((v.shown s.encoding).toList.map Char.toUpper)))
  | "substr" | "substring" => some (strictAll 2 (some 3) fun s vs =>
      TextFunction.part s.encoding (vs.headD .null)
        ((vs.getD 1 .null).toWhole s.encoding)
        (vs[2]?.map (·.toWhole s.encoding)))
  | "instr" => some (several 2 (some 2) fun s vs =>
      TextFunction.position s.encoding (vs.headD .null) (vs.getD 1 .null))
  | "trim" => some (trimming true true)
  | "ltrim" => some (trimming true false)
  | "rtrim" => some (trimming false true)
  | "replace" => some (strictAll 3 (some 3) fun s vs =>
      let text (n : Nat) : String := (vs.getD n .null).shown s.encoding
      if ((vs.getD 1 .null).seen s.encoding).isEmpty then
        match vs.headD .null with
        | .blob bytes => .text (s.encoding.text bytes)
        | v => v
      else .text (TextFunction.replaced (text 0) (text 1) (text 2)))
  | "hex" => some (one fun s v =>
      .text (if v = .null then "" else
        TextFunction.upperHex
          (v.asBytes (if v.isNumber then .utf8 else s.encoding))))
  | "unhex" => some (strictAll 1 (some 2) fun s vs =>
      let characters (s : String) : List Char := (Text.taken s).toList
      let ignored := characters ((vs[1]?.map (·.shown s.encoding)).getD "")
      ((TextFunction.ofHex? ignored
        (characters ((vs.headD .null).seen s.encoding))).map .blob).getD .null)
  | "unicode" => some (strict
      fun s v => match Text.clusters (v.seen s.encoding).toList with
      | cluster :: _ => .integer (Text.numberOf (cluster.flatMap Text.bytesOf))
      | [] => .null)
  | "char" => some (several 0 none fun s vs =>
      .text (Text.decode
        (vs.flatMap fun v => TextFunction.character (v.toWhole s.encoding))))
  | "quote" => some (one fun _ v => .text (TextFunction.quoted v))
  | "soundex" =>
      some (one fun s v => .text (TextFunction.sound (v.seen s.encoding)))
  | "printf" | "format" => some (several 0 none fun s vs => match vs with
      | [] | .null :: _ => .null
      | f :: args => ((Format.text? s.encoding
          (f.seen s.encoding) args).map Value.ofParts).getD .null)
  | "concat" => some (several 1 none
      fun s vs => .ofParts (String.join (vs.map (·.shown s.encoding))))
  | "concat_ws" => some (several 2 none fun s vs => match vs with
      | [] | .null :: _ => .null
      | mark :: rest => .ofParts (String.intercalate (mark.shown s.encoding)
          ((rest.filter (· ≠ .null)).map (·.shown s.encoding))))
  | "like" => some (likeness false)
  | "glob" => some (likeness true)
  | _ => none

/-- Functions of numbers. -/
def ofNumber? (name : String) : Option Function :=
  match name with
  | "abs" => some { apply := fun s vs => match vs.headD .null with
      | .null => .ok .null
      | .integer n => if n = Word.minSigned64 then .error (.refused .tooLarge)
        else .ok (.integer n.natAbs)
      | v => .ok (.ofFloat (v.double? s.encoding).abs) }
  | "round" => some (several 1 (some 2) fun s vs =>
      round s.encoding (vs.headD .null) (vs.getD 1 (.integer 0)))
  | "sign" => some (strict fun _ v => match (match v with
      | .text s => (Value.ofText? s).getD .null
      | .blob _ => .null
      | v => v) with
      | .null => .null
      | n => .integer (if n.toFloat < 0 then -1
        else if 0 < n.toFloat then 1 else 0))
  | "ceil" | "ceiling" => some (rounding Float.ceil)
  | "floor" => some (rounding Float.floor)
  | "trunc" => some (rounding fun x => if x < 0 then x.ceil else x.floor)
  | "sqrt" => some (onNumber Float.sqrt)
  | "exp" => some (onNumber Float.exp)
  | "ln" => some (onNumber fun x => if x ≤ 0 then 0.0 / 0.0 else x.log)
  | "log10" => some (onNumber fun x => if x ≤ 0 then 0.0 / 0.0 else
      Elementary.decimalLog x)
  | "log2" => some (onNumber fun x => if x ≤ 0 then 0.0 / 0.0 else x.log2)
  | "log" =>
    let ten : Float → Float :=
      fun x => if x ≤ 0 then 0.0 / 0.0 else Elementary.decimalLog x
    some { most := some 2, apply := fun s vs => match vs with
      | [base, v] =>
        let x := v.double? s.encoding
        (onNumber fun b => if b ≤ 0 || x ≤ 0 || b.log ≤ 0 then 0.0 / 0.0 else
            x.log / b.log).apply s [base]
      | vs => (onNumber ten).apply s vs }
  | "pow" | "power" => some (onNumbers Float.pow)
  | "mod" => some (onNumbers remainder)
  | "sin" => some (onNumber Elementary.sin)
  | "cos" => some (onNumber Elementary.cos)
  | "tan" => some (onNumber Elementary.tan)
  | "asin" => some (onNumber Elementary.asin)
  | "acos" => some (onNumber Elementary.acos)
  | "atan" => some (onNumber Elementary.atan)
  | "atan2" => some (onNumbers Elementary.angle)
  | "sinh" => some (onNumber Elementary.sinh)
  | "cosh" => some (onNumber Elementary.cosh)
  | "tanh" => some (onNumber Elementary.tanh)
  | "asinh" => some (onNumber Elementary.asinh)
  | "acosh" => some (onNumber Elementary.acosh)
  | "atanh" => some (onNumber Elementary.atanh)
  | "radians" => some (onNumber fun x => x * (3.141592653589793 / 180.0))
  | "degrees" => some (onNumber fun x => x * (180.0 / 3.141592653589793))
  | "pi" => some { least := 0, most := some 0,
                   apply := fun _ _ => .ok (.ofFloat 3.141592653589793) }
  | "min" => some (extreme false)
  | "max" => some (extreme true)
  | _ => none

/-- Functions of moments. -/
def ofMoment? (name : String) : Option Function :=
  let current (f : Moment → String) : Function :=
    { least := 0, most := some 0, isFixed := false
      apply := fun s _ => .ok (.text (f { time := some s.now })) }
  match name with
  | "date" => some (onMoment name fun m => .text m.dateText)
  | "time" => some (onMoment name fun m => .text m.timeText)
  | "datetime" =>
      some (onMoment name fun m => .text (m.dateText ++ " " ++ m.timeText))
  | "julianday" => some (onMoment name fun m => .ofFloat m.julianDay)
  | "unixepoch" => some (onMoment name fun m =>
      if m.isFine then .ofFloat m.fineSeconds else .integer m.seconds)
  | "strftime" =>
      some { least := 0, most := none, apply := fun s vs => match vs with
      | [] | .null :: _ => .ok .null
      | f :: rest => do
        return (((← moment? name s rest).bind
          fun m => m.format? (f.seen s.encoding).toList).map .text).getD .null }
  | "timediff" => some { least := 2, most := some 2, apply := fun s vs => do
      match ← moment? name s (vs.take 1), ← moment? name s (vs.drop 1) with
      | some a, some b => return .text (Moment.difference a b)
      | _, _ => return .null }
  | "current_date" => some (current Moment.dateText)
  | "current_time" => some (current Moment.timeText)
  | "current_timestamp" =>
      some (current fun m => m.dateText ++ " " ++ m.timeText)
  | _ => none

/-- Functions that look at something else. -/
def other? (name : String) : Option Function :=
  let alone (f : Setting → Value) : Function :=
    { least := 0, most := some 0, isFixed := false,
      apply := fun s _ => .ok (f s) }
  match name with
  | "typeof" => some (one fun _ v => .text v.kindName)
  | "zeroblob" => some (one
      fun s v => .blob (List.replicate (v.toWhole s.encoding).toNat 0))
  | "nullif" => some { several 2 (some 2) (fun s vs => match vs with
      | [a, b] =>
          if Value.order s.encoding s.collation a b = .eq then .null else a
      | _ => .null) with nature := fun ns => ns.headD .never }
  | "likely" | "unlikely" =>
      some { one (fun _ v => v) with nature := fun ns => ns.headD .never }
  | "likelihood" => some { several 2 (some 2) (fun _ vs => vs.headD .null) with
      nature := fun ns => ns.headD .never }
  | "random" => some (alone fun s => .integer
      (s.allChanges * 6364136223846793005 % 9223372036854775807))
  | "randomblob" => some
      { one (fun s v =>
          .blob (List.replicate (max 1 (v.toWhole s.encoding)).toNat 171)) with
        isFixed := false }
  | "last_insert_rowid" => some (alone fun s => .integer s.lastRow)
  | "changes" => some (alone fun s => .integer s.changes)
  | "total_changes" => some (alone fun s => .integer s.allChanges)
  | "sqlite_version" => some (alone fun _ => .text "3.49.0")
  | "sqlite_source_id" => some (alone fun _ =>
      .text
        "2025-02-06 11:55:18 4a7dd425dc2a0e5082a9049c9b4a9d4f199a71583d014c24b4cfe276c5a77cde")
  | "sqlite_compileoption_used" =>
      some (strict fun s v => .ofBool (Feature.isThere (v.seen s.encoding)))
  | "sqlite_compileoption_get" => some (one fun s v =>
      let n := v.toWhole s.encoding
      ((if n < 0 then none else Feature.all[n.toNat]?).map .text).getD .null)
  | _ => none

/-- The function with a name in lower case. -/
def ofName? (name : String) : Option Function :=
  (ofText? name).or ((ofNumber? name).or
    ((ofMoment? name).or ((other? name).or (DocumentFunction.ofName? name))))

end Function

end Bytecode.Database
