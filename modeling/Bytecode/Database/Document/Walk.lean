import Bytecode.Database.Document.Path

/-!
# Walks through documents

A walk shows what a document holds: only at its first level, or all of it, from
the outside to the inside.  Everything is shown with its number and with the
path that leads to it.
-/

namespace Bytecode.Database

namespace Document

/-- Something met on a walk. -/
structure Visit where
  /-- The label or the place in an array. -/
  key : Value := .null
  document : Document
  /-- Where it begins among the bytes of the whole, its label included. -/
  place : Nat
  /-- The number of what holds it. -/
  parent : Option Nat := none
  /-- The path to it, and the path to what holds it. -/
  fullPath : String
  path : String
  deriving Inhabited

namespace Visit

/-- The step of a path to a member. -/
def labelStep (p : Phrase) : String :=
  let isPlain : Bool :=
    !p.letters.isEmpty && p.letters.toList.all fun c => c.isAlphanum
  if isPlain then "." ++ p.letters else ".\"" ++ p.letters ++ "\""

/-- The step of a path to an item. -/
def itemStep (k : Nat) : String := "[" ++ Text.decimal 1 k ++ "]"

/-- What items are met from a place on; `k` of them are in front. -/
def ofItems (parent : Nat) (path : String) :
    Nat → Nat → List Document → List Visit
  | _, _, [] => []
  | k, place, d :: rest =>
    { key := .integer k, document := d, place, parent := some parent, path,
      fullPath := path ++ itemStep k } :: ofItems parent path (k + 1)
      (place + d.extent) rest

/-- What members are met from a place on. -/
def ofMembers (parent : Nat) (path : String) :
    Nat → List (Phrase × Document) → List Visit
  | _, [] => []
  | place, (label, d) :: rest =>
    { key := .text label.content, document := d, place, parent := some parent,
      path, fullPath := path ++ labelStep label } :: ofMembers parent path
      (place + labelExtent label + d.extent) rest

/-- What is met inside a document whose bytes begin at a place. -/
def inside (v : Visit) (start : Nat) : List Visit :=
  let first := start + headSize v.document.size
  match v.document with
  | .array items => ofItems v.place v.fullPath 0 first items
  | .object members => ofMembers v.place v.fullPath first members
  | _ => []

mutual

/-- What is met inside a document, and inside of that, and so on. -/
def below (place start : Nat) (path : String) : Document → List Visit
  | .array items =>
      belowItems place path 0 (start + headSize (itemSizes items)) items
  | .object members =>
      belowMembers place path (start + headSize (memberSizes members)) members
  | _ => []

/-- Items from a place on with all that they hold. -/
def belowItems (parent : Nat) (path : String) :
    Nat → Nat → List Document → List Visit
  | _, _, [] => []
  | k, place, d :: rest =>
    let fullPath := path ++ itemStep k
    { key := .integer k, document := d, place, parent := some parent, path,
      fullPath } :: (below place place fullPath d ++
        belowItems parent path (k + 1) (place + d.extent) rest)

/-- Members from a place on with all that they hold. -/
def belowMembers (parent : Nat) (path : String) :
    Nat → List (Phrase × Document) → List Visit
  | _, [] => []
  | place, (label, d) :: rest =>
    let fullPath := path ++ labelStep label
    let start := place + labelExtent label
    { key := .text label.content, document := d, place, parent := some parent,
      path, fullPath } :: (below place start fullPath d ++
        belowMembers parent path (start + d.extent) rest)

end

end Visit

/-- How many characters of the path to something lead to what holds it: a step
is taken off if that is the first thing there, and otherwise one more. -/
def outerLength (d : Document) (path : List Char) (place : Nat) : Nat → Nat
  | 0 => 0
  | n + 1 =>
    if n = 0 then 1
    else
      let c := path.getD n ' '
      let isHere : Bool := (c = '[' || c = '.') &&
        match d.find ((path.take n).drop 1) with
        | .ok f => f.place + headSize f.document.size = place
        | .error _ => false
      if isHere then n else outerLength d path place n

/-- The key that the end of a path spells. -/
def endKey (rest : List Char) : Value :=
  match rest with
  | [] => .null
  | '[' :: digits => .integer (digits.takeWhile Token.isDigit
      |>.foldl (fun n c => 10 * n + (c.toNat - '0'.toNat)) 0)
  | _ :: '"' :: letters => .text (String.ofList letters.dropLast)
  | _ :: letters => .text (String.ofList letters)

/-- The walk through what a path has led to, at its first level or through all
of it. -/
def walk (d : Document) (isDeep : Bool) (path : String) (f : Found) :
    List Visit :=
  let place := f.label.getD f.place
  let top : Visit := { document := f.document, place, fullPath := path, path }
  if isDeep then
    let signs := path.toList
    let n := if signs.length < 2 then signs.length else
        outerLength d signs place signs.length
    { top with
      key := if signs.length = 1 then .null else endKey (signs.drop n)
      path := String.ofList (signs.take n) } ::
        Visit.below place f.place path f.document
  else if f.document.isContainer then top.inside f.place
  else [top]

end Document

end Bytecode.Database
