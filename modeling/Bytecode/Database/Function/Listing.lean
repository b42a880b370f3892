/-!
# The list of functions

What is told of a function: how many values it takes, whether it looks at one
row, at a group of rows or at a window, and what can be relied on.
-/

namespace Bytecode.Database

/-- What a function looks at. -/
inductive Reach where
  | row
  | group
  | window

namespace Reach

/-- The letter for what a function looks at. -/
def letter : Reach → String
  | .row => "s"
  | .group => "a"
  | .window => "w"

end Reach

/-- A function in the list. -/
structure FunctionEntry where
  name : String
  /-- How many values it takes: any number for -1, at least one for -3, and at
  least two for -4. -/
  counts : List Int
  reach : Reach := .row
  /-- Whether it gives the same for the same values. -/
  isSteady : Bool := false
  /-- Whether it does no harm. -/
  isHarmless : Bool := true
  /-- Whether it looks at more of a value than the value. -/
  isTyped : Bool := false
  /-- Whether only a statement itself may use it. -/
  isDirect : Bool := false

namespace FunctionEntry

/-- What can be relied on, as one number. -/
def flags (f : FunctionEntry) : Int :=
  (if f.isSteady then 0x800 else 0) + (if f.isDirect then 0x80000 else 0) +
    (if f.isTyped then 0x100000 else 0) + (if f.isHarmless then 0x200000 else 0)

/-- A function that gives the same for the same values. -/
def steady (name : String) (counts : List Int) : FunctionEntry :=
  { name, counts, isSteady := true }

/-- A function that may give something else each time. -/
def changing (name : String) (counts : List Int) : FunctionEntry :=
  { name, counts }

/-- A function that knows documents from texts. -/
def typed (name : String) (counts : List Int) : FunctionEntry :=
  { name, counts, isSteady := true, isTyped := true }

/-- A function of a window. -/
def window (name : String) (counts : List Int) : FunctionEntry :=
  { name, counts, reach := .window }

/-- A function of a window that knows documents from texts. -/
def typedWindow (name : String) (counts : List Int) : FunctionEntry :=
  { typed name counts with reach := .window }

/-- A function of a group. -/
def gathering (name : String) (counts : List Int) : FunctionEntry :=
  { steady name counts with reach := .group }

/-- A function that only a statement itself may use. -/
def direct (name : String) (counts : List Int) : FunctionEntry :=
  { name, counts, isHarmless := false, isDirect := true }

/-- A function of which nothing is known. -/
def bare (name : String) (counts : List Int) : FunctionEntry :=
  { name, counts, isHarmless := false }

/-- The functions that are always there. -/
def builtin : List FunctionEntry :=
  [steady "pow" [2], window "group_concat" [1, 2], steady "json_type" [1, 2],
    typed "jsonb_set" [-1], steady "julianday" [-1], window "ntile" [1],
    steady "nullif" [2], changing "sqlite_compileoption_get" [1],
    steady "json_valid" [1, 2], typed "json_quote" [1], steady "json_patch" [2],
    steady "->" [2], typed "json_array" [-1], changing "current_timestamp" [0],
    steady "power" [2], changing "sqlite_compileoption_used" [1],
    steady "json_remove" [-1], steady "json_pretty" [1, 2],
    steady "jsonb_patch" [2], typed "json_object" [-1], typed "json_insert"
    [-1], steady "->>" [2], typed "jsonb_array" [-1], steady "sin" [1],
    window "sum" [1], steady "quote" [1], steady "printf" [-1],
    steady "likelihood" [2], typed "json_replace" [-1], steady "jsonb_remove"
    [-1], typed "jsonb_object" [-1], typed "jsonb_insert" [-1],
    steady "json_extract" [-1], window "last_value" [1], window "rank" [0],
    steady "sign" [1], steady "sqrt" [1], steady "sinh" [1], steady "tan" [1],
    steady "round" [1, 2], steady "rtrim" [1, 2], typed "jsonb_replace" [-1],
    steady "jsonb_extract" [-1], window "nth_value" [2],
    steady "tanh" [1], changing "random" [0], steady "trim" [1, 2],
    steady "time" [-1], steady "radians" [1], steady "trunc" [1],
    window "total" [1], steady "substr" [2, 3], steady "replace" [3],
    steady "unhex" [1, 2], steady "upper" [1], steady "subtype" [1],
    steady "typeof" [1], direct "load_extension" [1, 2], steady "soundex" [1],
    typedWindow "json_group_array" [1], window "avg" [1], steady "abs" [1],
    steady "octet_length" [1], typedWindow "json_group_object" [2],
    typedWindow "jsonb_group_array" [1], steady "json_array_length" [1, 2],
    steady "strftime" [-1], steady "atan" [1], steady "asin" [1],
    steady "acos" [1], steady "substring" [2, 3], changing "randomblob" [1],
    steady "unicode" [1], typedWindow "jsonb_group_object" [2],
    steady "timediff" [2], window "percent_rank" [0], window "row_number" [0],
    steady "atanh" [1], steady "asinh" [1], steady "acosh" [1],
    steady "cos" [1], steady "atan2" [2], window "string_agg" [2],
    changing "last_insert_rowid" [0], steady "sqlite_log" [2],
    steady "unlikely" [1], steady "json_error_position" [1], steady "cosh" [1],
    steady "ceil" [1], steady "char" [-1],
    steady "unixepoch" [-1], steady "exp" [1], window "count" [0, 1],
    steady "date" [-1], steady "concat" [-3], steady "sqlite_offset" [1],
    steady "ceiling" [1], changing "total_changes" [0], changing "changes" [0],
    changing "sqlite_version" [0], steady "if" [-4], steady "coalesce" [-4],
    steady "degrees" [1], steady "floor" [1], steady "glob" [2],
    steady "zeroblob" [1], steady "hex" [1], steady "iif" [-4],
    changing "sqlite_source_id" [0], steady "concat_ws" [-4], steady "format"
    [-1], steady "datetime" [-1], window "cume_dist" [0], steady "ln" [1],
    steady "instr" [2], steady "json" [1], window "dense_rank" [0],
    steady "log" [1, 2], steady "ifnull" [2], steady "jsonb" [1],
    changing "current_date" [0], changing "current_time" [0], window "lag"
    [1, 3, 2], steady "mod" [2], steady "log2" [1], steady "like" [2, 3],
    steady "max" [-3], window "max" [1], steady "min" [-3], window "min" [1],
    window "lead" [1, 3, 2], steady "log10" [1], steady "lower" [1],
    steady "ltrim" [1, 2], window "first_value" [1], steady "pi" [0],
    steady "length" [1], steady "likely" [1], typed "json_set" [-1]]

/-- The functions that come with tables of texts and of boxes. -/
def added : List FunctionEntry :=
  [steady "geopoly_ccw" [1], steady "geopoly_bbox" [1],
    steady "geopoly_overlap" [2], steady "geopoly_contains_point" [3],
    steady "geopoly_regular" [4], steady "geopoly_json" [1],
    { changing "fts5_locale" [2] with isTyped := true }, bare "rtreecheck" [-1],
    bare "rtreenode" [2], steady "fts5_source_id" [0],
    direct "geopoly_debug" [1], steady "geopoly_blob" [1],
    steady "geopoly_area" [1], changing "fts5_insttoken" [1], bare "fts5" [1],
    bare "rtreedepth" [1], bare "fts5_get_locale" [-1],
    steady "geopoly_svg" [-1], bare "match" [2], gathering "geopoly_group_bbox"
    [1], bare "snippet" [-1], bare "highlight" [-1], steady "geopoly_xform" [7],
    steady "geopoly_within" [2], bare "bm25" [-1]]

end FunctionEntry

end Bytecode.Database
