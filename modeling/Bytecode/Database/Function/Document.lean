import Bytecode.Database.Document.Path
import Bytecode.Database.Document.Reader
import Bytecode.Database.Function.Basic

/-!
# Functions of documents

Documents are given as texts or as bytes.  What is put into one is a text of its
own, unless it is marked as a document.  Most functions come in two forms: one
gives a text, the other bytes.
-/

namespace Bytecode.Database

namespace DocumentFunction

/-- Something is no document. -/
def malformed {α : Type} : Except Failure α :=
  .error (.refused (.said "malformed JSON"))

/-- Something is no path. -/
def badPath {α : Type} (path : String) : Except Failure α :=
  .error (.refused
    (.said ("bad JSON path: " ++ TextFunction.quoted (.text path))))

/-- The document that a value is, and whether it is one only in the loose
notation. -/
def reading (e : Encoding) (v : Value) : Except Failure (Document × Bool) :=
  let ofText : Except Failure (Document × Bool) :=
    match Document.ofText (v.seen e) with
    | .ok d => .ok d
    | .error _ => malformed
  match v with
  | .blob bytes =>
    if Document.isBinary bytes then
      match Document.ofBytes? bytes with
      | some d => .ok (d, false)
      | none => malformed
    else ofText
  | _ => ofText

/-- The document that a value is. -/
def document (e : Encoding) (v : Value) : Except Failure Document :=
  (reading e v).map (·.1)

/-- A document as a value. -/
def given (isBinary : Bool) (d : Document) : Value :=
  if isBinary then .blob d.bytes else .text d.text

/-- The text of a document as a value. -/
def givenText (isBinary : Bool) (s : String) : Except Failure Value :=
  if isBinary then
    match Document.ofText s with
    | .ok (d, _) => .ok (.blob d.bytes)
    | .error _ => malformed
  else .ok (.text s)

/-- A document outside of documents as a value. -/
def outside (isBinary : Bool) (d : Document) : Except Failure Value :=
  if isBinary && d.isContainer then .ok (.blob d.bytes)
  else match d.value? with
    | some v => .ok v
    | none => malformed

/-- A value is something that no document holds. -/
def unholdable {α : Type} : Except Failure α :=
  .error (.refused (.said "JSON cannot hold BLOB values"))

/-- A value as it is written in a document. -/
def written (isDocument : Bool) (v : Value) : Except Failure String :=
  match v with
  | .null => .ok "null"
  | .integer n => .ok (Text.integer n)
  | .real bits =>
      .ok (({ isExact := true, hasZeros := true, precision := some 15 } :
        Place).double 'g' bits)
  | .text s => .ok (if isDocument then s else (⟨.raw, s⟩ : Phrase).text)
  | .blob bytes =>
    if Document.isBinary bytes then
      match Document.ofBytes? bytes with
      | some d => .ok d.text
      | none => malformed
    else unholdable

/-- A value as a part of a document. -/
def part (isDocument : Bool) (v : Value) : Except Failure Document :=
  match v with
  | .null => .ok .null
  | .integer n => .ok (.whole false (Text.integer n))
  | .real bits =>
    .ok (.real false (if isInfinite bits then
      if Float.ofBits bits < 0.0 then "-9e999"
      else "9e999" else Value.realText bits))
  | .text s =>
    if isDocument then
      match Document.ofText s with
      | .ok (d, _) => .ok d
      | .error _ => malformed
    else .ok (.phrase ⟨.raw, s⟩)
  | .blob bytes =>
    if Document.isBinary bytes then
      match Document.ofBytes? bytes with
      | some d => .ok d
      | none => malformed
    else unholdable

/-- Values with whether they are marked as documents. -/
def marked (s : Setting) (vs : List Value) : List (Bool × Value) :=
  vs.zipIdx.map fun (v, n) => ((s.natures.getD n .never).marks v, v)

/-- What a path leads to in a document, if it leads anywhere. -/
def found (d : Document) (path : String) :
    Except Failure (Option Document.Found) :=
  match path.toList with
  | '$' :: rest =>
    match d.find rest with
    | .ok f => .ok (some f)
    | .error .nothing => .ok none
    | .error .unreadable => badPath path
  | _ => badPath path

/-- The path that an operator is given in a short form. -/
def expanded (e : Encoding) (v : Value) : List Char :=
  let path := (v.seen e).toList
  match v, path with
  | _, '$' :: rest => rest
  | .integer _, '-' :: _ => "[#".toList ++ path ++ [']']
  | .integer _, _ => '[' :: path ++ [']']
  | _, path =>
    if path.all fun c => c.isAlphanum || c = '_' then '.' :: path
    else if path.head? = some '[' && 3 ≤ path.length &&
        path.getLast? = some ']' then
      path
    else ".\"".toList ++ path ++ ['"']

/-- The part of a document that an operator takes out, as a document or as a
value. -/
def operator (isValue : Bool) : Function where
  least := 2
  most := some 2
  nature _ := if isValue then .never else .always
  apply s vs := do
    match vs with
    | [.null, _] => return .null
    | [v, path] =>
      let d ← document s.encoding v
      if path = .null then return .null
      match d.find (expanded s.encoding path) with
      | .ok f => if isValue then outside false f.document else
          return .text f.document.text
      | .error .nothing => return .null
      | .error .unreadable => badPath (path.seen s.encoding)
    | _ => return .null

/-- Parts of a document: one as a value, several in an array. -/
def extract (isBinary : Bool) : Function where
  least := 0
  most := none
  nature ns :=
    if isBinary then .never else if ns.length = 2 then .containers else .always
  apply s vs := do
    match vs with
    | [] | [_] | .null :: _ => return .null
    | v :: paths =>
      let d ← document s.encoding v
      let mut texts : Array String := #[]
      for path in paths do
        if path = .null then return .null
        let f ← found d (path.seen s.encoding)
        match paths, f with
        | [_], none => return .null
        | [_], some f => return ← outside isBinary f.document
        | _, none => texts := texts.push "null"
        | _, some f => texts := texts.push f.document.text
      givenText isBinary ("[" ++ String.intercalate "," texts.toList ++ "]")

/-- A document without some of its parts. -/
def remove (isBinary : Bool) (least : Nat) (most : Option Nat) : Function where
  least
  most
  nature _ := if isBinary then .never else .always
  apply s vs := do
    match vs with
    | [] | .null :: _ => return .null
    | v :: paths =>
      let mut d ← document s.encoding v
      for path in paths do
        if path = .null then return .null
        let text := path.seen s.encoding
        match text.toList with
        | ['$'] => return .null
        | '$' :: rest =>
          match d.edit .remove rest with
          | .ok new => d := new.getD d
          | .error .nothing => pure ()
          | .error .unreadable => badPath text
        | _ => badPath text
      return given isBinary d

/-- A document with other values at some places. -/
def put (isBinary : Bool) (word : String) (edit : Document → Document.Edit) :
    Function where
  least := 0
  most := none
  nature _ := if isBinary then .never else .always
  apply s vs := do
    if vs.length ≠ 0 && vs.length % 2 = 0 then
      throw (.refused
        (.said ("json_" ++ word ++ "() needs an odd number of arguments")))
    match vs with
    | [] | .null :: _ => return .null
    | v :: rest =>
      let mut d ← document s.encoding v
      let marks := (marked s vs).drop 1
      for k in List.range (rest.length / 2) do
        let path := rest.getD (2 * k) .null
        let (isDocument, new) := marks.getD (2 * k + 1) (false, .null)
        if path ≠ .null then
          let text := path.seen s.encoding
          match text.toList with
          | '$' :: steps =>
            let new ← part isDocument new
            match d.edit (edit new) steps with
            | .ok changed => d := changed.getD d
            | .error .nothing => pure ()
            | .error .unreadable => badPath text
          | _ => badPath text
      return given isBinary d

/-- An array of values. -/
def array (isBinary : Bool) : Function where
  least := 0
  most := none
  nature _ := if isBinary then .never else .always
  apply s vs := do
    let texts ← (marked s vs).mapM fun (isDocument, v) => written isDocument v
    givenText isBinary ("[" ++ String.intercalate "," texts ++ "]")

/-- Labels and values in turn, as they are written in an object. -/
def writtenMembers : List (Bool × Value) → Except Failure (List String)
  | (_, .text label) :: (isDocument, v) :: rest => do
    let value ← written isDocument v
    return ((⟨.raw, label⟩ : Phrase).text ++ ":" ++ value) ::
      (← writtenMembers rest)
  | _ => return []

/-- An object of labels and values.  It matters more that labels are texts than
what the values are. -/
def object (isBinary : Bool) : Function where
  least := 0
  most := none
  nature _ := if isBinary then .never else .always
  apply s vs := do
    let isText (v : Value) : Bool := match v with
      | .text _ => true
      | _ => false
    if vs.length % 2 = 1 then
      throw (.refused
        (.said "json_object() requires an even number of arguments"))
    if vs.zipIdx.any fun (v, n) => n % 2 = 0 && !isText v then
      throw (.refused (.said "json_object() labels must be TEXT"))
    let texts ← writtenMembers (marked s vs)
    givenText isBinary ("\x7b" ++ String.intercalate "," texts ++ "\x7d")

/-- A function of a document or of what a path leads to in it. -/
def onPart (f : Document → Value) : Function where
  least := 1
  most := some 2
  apply s vs := do
    match vs with
    | .null :: _ => return .null
    | v :: rest =>
      let d ← document s.encoding v
      match rest with
      | .null :: _ => return .null
      | path :: _ => return (((← found d (path.seen s.encoding)).map
          fun x => f x.document)).getD .null
      | [] => return f d
    | [] => return .null

/-- Whether a value is a document in one of the ways that bits tell: strictly,
loosely, as bytes that look like one, or as bytes that are one. -/
def isValid (e : Encoding) (bits : Nat) (v : Value) : Bool :=
  let isText : Bool :=
    match reading e v with
    | .ok (_, isLoose) => bits / 2 % 2 = 1 || (bits % 2 = 1 && !isLoose)
    | .error _ => false
  match v with
  | .blob bytes =>
    if Document.isBinary bytes then
      bits / 4 % 2 = 1 || (bits / 8 % 2 = 1 && Document.fault bytes = 0)
    else isText
  | _ => isText

/-- The question whether a value is a document. -/
def valid : Function where
  least := 1
  most := some 2
  apply s vs := do
    let bits := (vs[1]?.map (·.toWhole s.encoding)).getD 1
    if bits < 1 || 15 < bits then
      throw (.refused
        (.said "FLAGS parameter to json_valid() must be between 1 and 15"))
    match vs.headD .null with
    | .null => return .null
    | v => return .ofBool (isValid s.encoding bits.toNat v)

/-- Where a value stops being a document, counted from one; zero if it is
one. -/
def errorPlace (e : Encoding) (v : Value) : Value :=
  let ofText : Value :=
    match Document.ofText (v.seen e) with
    | .ok _ => .integer 0
    | .error n => .integer (n + 1)
  match v with
  | .null => .null
  | .blob bytes =>
      if Document.isBinary bytes then .integer (Document.fault bytes)
      else ofText
  | _ => ofText

/-- A document with changes that another one tells. -/
def patch (isBinary : Bool) : Function where
  least := 2
  most := some 2
  nature _ := if isBinary then .never else .always
  apply s vs := do
    match vs with
    | [.null, _] => return .null
    | [v, changes] =>
      let d ← document s.encoding v
      if changes = .null then return .null
      return given isBinary (d.patched (← document s.encoding changes))
    | _ => return .null

/-- The text of a document with a line for every value. -/
def pretty : Function where
  least := 1
  most := some 2
  apply s vs := do
    match vs with
    | [] | .null :: _ => return .null
    | v :: rest =>
      let d ← document s.encoding v
      let indent := match rest with
        | [] | .null :: _ => "    "
        | i :: _ => i.seen s.encoding
      return .text (d.lines indent)

/-- The function of documents with a name in lower case. -/
def ofName? (name : String) : Option Function :=
  match name with
  | "json" => some (remove false 1 (some 1))
  | "jsonb" => some (remove true 1 (some 1))
  | "json_remove" => some (remove false 0 none)
  | "jsonb_remove" => some (remove true 0 none)
  | "json_extract" => some (extract false)
  | "jsonb_extract" => some (extract true)
  | "->" => some (operator false)
  | "->>" => some (operator true)
  | "json_array" => some (array false)
  | "jsonb_array" => some (array true)
  | "json_object" => some (object false)
  | "jsonb_object" => some (object true)
  | "json_set" => some (put false "set" .set)
  | "jsonb_set" => some (put true "set" .set)
  | "json_insert" => some (put false "insert" .insert)
  | "jsonb_insert" => some (put true "insert" .insert)
  | "json_replace" => some (put false "replace" .replace)
  | "jsonb_replace" => some (put true "replace" .replace)
  | "json_patch" => some (patch false)
  | "jsonb_patch" => some (patch true)
  | "json_pretty" => some pretty
  | "json_valid" => some valid
  | "json_error_position" =>
      some { apply := fun s vs => .ok (errorPlace s.encoding (vs.headD .null)) }
  | "json_type" => some (onPart fun d => .text d.kindName)
  | "json_array_length" => some (onPart fun d => match d with
      | .array items => .integer items.length
      | _ => .integer 0)
  | "json_quote" => some
      { nature := fun _ => .always
        apply := fun s vs => do
          match marked s vs with
          | (isDocument, v) :: _ => return .text (← written isDocument v)
          | [] => return .null }
  | "subtype" => some
      { apply := fun s vs => .ok (match marked s vs with
          | (true, _) :: _ => .integer 74
          | _ => .integer 0) }
  | _ => none

/-- The values of rows in an array. -/
def gatheredArray (isBinary : Bool) (s : Setting) (rows : List (List Value)) :
    Except Failure Value := do
  let texts ← rows.mapM fun r => do
    match marked s r with
    | (isDocument, v) :: _ => written isDocument v
    | [] => return "null"
  givenText isBinary ("[" ++ String.intercalate "," texts ++ "]")

/-- The labels and values of rows in an object; a row without a label adds
nothing. -/
def gatheredObject (isBinary : Bool) (s : Setting) (rows : List (List Value)) :
    Except Failure Value := do
  let texts ← rows.filterMapM fun r => do
    match marked s r with
    | [(_, label), (isDocument, v)] =>
      if label = .null then return none
      return some ((⟨.raw, label.seen s.encoding⟩ : Phrase).text ++ ":" ++
        (← written isDocument v))
    | _ => return none
  givenText isBinary ("\x7b" ++ String.intercalate "," texts ++ "\x7d")

end DocumentFunction

end Bytecode.Database
