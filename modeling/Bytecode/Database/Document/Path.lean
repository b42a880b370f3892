import Bytecode.Database.Document.Binary

/-!
# Paths into documents

A path leads from a document to one that it holds, by labels and by places in
arrays, which can be counted from the end.  It is read step by step, so what is
wrong with a path behind the first step that leads nowhere does not matter.
-/

namespace Bytecode.Database

namespace Document

/-- Why a path leads nowhere. -/
inductive Miss where
  /-- Nothing is there. -/
  | nothing
  /-- It is no path. -/
  | unreadable
  deriving DecidableEq, Repr

/-- What a path leads to. -/
structure Found where
  document : Document
  /-- Where it begins among the bytes of the whole. -/
  place : Nat
  /-- Where its label begins, if it has one. -/
  label : Option Nat := none

/-- What can be done to what a path leads to. -/
inductive Edit where
  | remove
  /-- Something else takes its place, if it is there. -/
  | replace (d : Document)
  /-- Something is put there, if nothing is. -/
  | insert (d : Document)
  /-- Something is there in any case. -/
  | set (d : Document)

namespace Path

/-- The letters up to the closing quote, with what follows it. -/
def quotedKey? : List Char → List Char → Option (List Char × List Char)
  | _, [] => none
  | front, '"' :: rest => some (front.reverse, rest)
  | front, '\\' :: c :: rest => quotedKey? (c :: '\\' :: front) rest
  | front, c :: rest => quotedKey? (c :: front) rest

/-- The label at the head of a path, with what follows. -/
def key? : List Char → Option (Phrase × List Char)
  | '"' :: rest => do
    let (letters, rest) ← quotedKey? [] rest
    return (⟨if letters.contains '\\' then .loose else
        .raw, String.ofList letters⟩, rest)
  | path =>
    let (letters, rest) := path.span fun c => c ≠ '.' && c ≠ '['
    if letters.isEmpty then none else some (⟨.raw, String.ofList letters⟩, rest)

/-- The number that digits stand for, in 32 bits. -/
def number (digits : List Char) : Nat :=
  digits.foldl (fun n c => (10 * n + (c.toNat - '0'.toNat)) % 0x100000000) 0

/-- The place in an array of a size at the head of a path, with what follows. -/
def index (size : Nat) (path : List Char) : Except Miss (Nat × List Char) :=
  let closed (k : Nat) (rest : List Char) : Except Miss (Nat × List Char) :=
    match rest with
    | ']' :: rest => .ok (k, rest)
    | _ => .error .unreadable
  match path with
  | '#' :: '-' :: rest =>
    let (digits, more) := rest.span Token.isDigit
    if digits.isEmpty then .error .unreadable
    else if size < number digits then .error .nothing
    else closed (size - number digits) more
  | '#' :: rest => closed size rest
  | path =>
    let (digits, rest) := path.span Token.isDigit
    if digits.isEmpty then .error .unreadable else closed (number digits) rest

/-- The member with a label among members that begin at a place. -/
def member? (key : Phrase) : Nat → List (Phrase × Document) → Option Found
  | _, [] => none
  | place, (label, d) :: rest =>
    if key.isSame label then
      some { document := d, place := place + labelExtent label,
             label := some place }
    else member? key (place + labelExtent label + d.extent) rest

/-- Follows a path from what has been found; each step takes a character at
least. -/
def follow : Nat → Found → List Char → Except Miss Found
  | _, found, [] => .ok found
  | 0, _, _ => .error .unreadable
  | fuel + 1, found, '.' :: path =>
    match key? path, found.document with
    | none, _ => .error .unreadable
    | some (key, rest), .object members =>
      match member? key
        (found.place + headSize found.document.size) members with
      | some inner => follow fuel inner rest
      | none => .error .nothing
    | some _, _ => .error .nothing
  | fuel + 1, found, '[' :: path =>
    match found.document with
    | .array items => do
      let (k, rest) ← index items.length path
      match items[k]? with
      | some d =>
        let place :=
          found.place + headSize found.document.size + itemSizes (items.take k)
        follow fuel { document := d, place } rest
      | none => .error .nothing
    | _ => .error .nothing
  | _, _, _ => .error .unreadable

/-- A document with something done to what a path leads to; nothing is left of
one that is removed. -/
def edited (e : Edit) :
    Nat → Document → List Char → Except Miss (Option Document)
  | _, d, [] =>
    .ok (match e with
      | .remove => none
      | .insert _ => some d
      | .replace new | .set new => some new)
  | 0, _, _ => .error .unreadable
  | fuel + 1, d, path =>
    -- what is put where nothing was, and what has to be there to hold it
    let fresh (rest : List Char) : Except Miss (Option Document) :=
      match e, rest with
      | .insert new, [] | .set new, [] => .ok (some new)
      | .insert _, '.' :: _ | .set _, '.' :: _ =>
          edited e fuel (.object []) rest
      | .insert _, _ | .set _, _ => edited e fuel (.array []) rest
      | _, _ => .error .nothing
    match path with
    | '.' :: path =>
      match key? path, d with
      | none, _ => .error .unreadable
      | some (key, rest), .object members =>
        match members.findIdx? fun (label, _) => key.isSame label with
        | some k => do
          let (label, old) := members.getD k (key, .null)
          match ← edited e fuel old rest with
          | some new => return some (.object (members.set k (label, new)))
          | none => return some (.object (members.eraseIdx k))
        | none => do
          return (← fresh rest).map fun new => .object (members ++ [(key, new)])
      | some _, _ => .error .nothing
    | '[' :: path =>
      match d with
      | .array items => do
        let (k, rest) ← index items.length path
        if k < items.length then
          match ← edited e fuel (items.getD k .null) rest with
          | some new => return some (.array (items.set k new))
          | none => return some (.array (items.eraseIdx k))
        else if k = items.length then
          return (← fresh rest).map fun new => .array (items ++ [new])
        else .error .nothing
      | _ => .error .nothing
    | _ => .error .unreadable

end Path

/-- What a path without its first sign leads to. -/
def find (d : Document) (path : List Char) : Except Miss Found :=
  Path.follow path.length { document := d, place := 0 } path

/-- A document with something done to what a path without its first sign leads
to. -/
def edit (d : Document) (e : Edit) (path : List Char) :
    Except Miss (Option Document) :=
  Path.edited e path.length d path

mutual

/-- A document with changes that another one tells: members of objects take the
place of those with the same label, and null takes them away. -/
def patched (d : Document) : Document → Document
  | .object changes =>
    .object (patchedMembers (match d with
      | .object members => members
      | _ => []) changes)
  | other => other

/-- Members with changes. -/
def patchedMembers (members : List (Phrase × Document)) :
    List (Phrase × Document) → List (Phrase × Document)
  | [] => members
  | (label, change) :: rest =>
    let isNull : Bool := match change with
      | .null => true
      | _ => false
    let changed := match members.findIdx? fun (l, _) => label.isSame l with
      | some k =>
        if isNull then members.eraseIdx k
        else
          let (l, old) := members.getD k (label, .null)
          members.set k (l, patched old change)
      | none =>
          if isNull then members else members ++ [(label, patched .null change)]
    patchedMembers changed rest

end

end Document

end Bytecode.Database
