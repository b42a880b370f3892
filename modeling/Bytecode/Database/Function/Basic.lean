import Bytecode.Database.Failure
import Bytecode.Database.Function.Moment

/-!
# What a function is

A function computes a value from others.  It says how many it takes; most give
null for null.  Some values are marked as documents on their way from one
function to another.
-/

namespace Bytecode.Database

/-- Which values of an expression are marked as documents. -/
inductive Nature where
  | never
  | always
  /-- Those that can hold others. -/
  | containers
  deriving DecidableEq, Repr, Inhabited

namespace Nature

/-- Whether a value is marked as a document. -/
def marks (n : Nature) (v : Value) : Bool :=
  match n, v with
  | .always, .text _ => true
  | .containers, .text s => (s.toList.head?).any fun c => c = '[' || c = '\x7b'
  | _, _ => false

/-- The nature of a value that is one of several. -/
def common (ns : List Nature) : Nature :=
  if ns.all (· = .never) then .never
  else if ns.all (· = .always) then .always else .containers

end Nature

/-- What functions look at beside their values. -/
structure Setting where
  encoding : Encoding := .utf8
  /-- How texts are compared. -/
  collation : Collation := .binary
  /-- The present moment. -/
  now : Int := Moment.epoch
  /-- The number of the row that was put in last. -/
  lastRow : Int := 0
  /-- How many rows the last statement changed. -/
  changes : Int := 0
  /-- How many rows have been changed in all. -/
  allChanges : Int := 0
  /-- Whether letters of either case differ in patterns. -/
  distinguishesCase : Bool := false
  /-- The place where the function is used, if it has to give the same there
  every time. -/
  place : Option String := none
  /-- Which of the values are marked as documents, by their places. -/
  natures : List Nature := []

/-- A way to compute a value. -/
structure Function where
  least : Nat := 1
  /-- The most values it takes, if there is a bound. -/
  most : Option Nat := some 1
  /-- Whether the same values always give the same. -/
  isFixed : Bool := true
  apply : Setting → List Value → Except Failure Value
  /-- Which of its values are marked as documents, by those of the values it
  takes. -/
  nature : List Nature → Nature := fun _ => .never

namespace Function

/-- Whether a function takes so many values. -/
def accepts (f : Function) (count : Nat) : Bool :=
  f.least ≤ count && f.most.all (count ≤ ·)

/-- A function of one value. -/
def one (f : Setting → Value → Value) : Function where
  apply s vs := .ok (f s (vs.headD .null))

/-- A function of one value that gives null for null. -/
def strict (f : Setting → Value → Value) : Function :=
  one fun s v => if v = .null then .null else f s v

/-- A function of several values. -/
def several (least : Nat) (most : Option Nat)
    (f : Setting → List Value → Value) : Function where
  least
  most
  apply s vs := .ok (f s vs)

/-- A function that gives null if one of its values is null. -/
def strictAll (least : Nat) (most : Option Nat)
    (f : Setting → List Value → Value) : Function where
  least
  most
  apply s vs := .ok (if vs.contains .null then .null else f s vs)

/-- A failure of a function. -/
def failing (text : String) : Except Failure Value :=
  .error (.refused (.said text))

end Function

end Bytecode.Database
