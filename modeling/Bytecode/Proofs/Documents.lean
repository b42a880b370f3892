import Mathlib
import Bytecode.Bytes
import Bytecode.Cbor
import Bytecode.File

/-!
# Documents are read back

The reader of data items has limits: numbers of 64 bits, a depth of nesting, and
a number of elements.  `Item.fits` says that an item keeps to them, given how
many levels are left, and has one of the forms that documents are made of.  The
bytes of such an item are read as the item, `decode?_encode`.  The reader runs
on fuel that shrinks with every item of a list and with every level, so what has
to be shown on the way is that two units for each byte are enough.

A document is written as nested records, which leave out what is empty.  Reading
a record looks each field up under its number and takes what is missing for
empty, so every record reads back as itself.  Main statements: `ofItem?_toItem`,
and `readsBack_of_fits`, in which the bytes are put between.
-/

namespace Bytecode

/-! ### Items -/

namespace Bytes

/-- The first bytes are split off. -/
theorem split?_append {front : List UInt8} {width : Nat} (rest : List UInt8)
    (h : front.length = width) :
    split? width (front ++ rest) = some (front, rest) := by
  rw [split?, List.take_left' h, List.drop_left' h, if_neg (by omega)]

/-- A number has as many bytes as it is given. -/
@[simp] theorem length_big (width n : Nat) : (big width n).length = width := by
  rw [big, List.length_reverse, length_little]

/-- A number that fits its width reads back, most significant byte first. -/
theorem ofBig_big {width n : Nat} (h : n < capacity width) :
    ofBig (big width n) = n := by
  rw [ofBig, big, List.reverse_reverse, ofLittle_little h]

end Bytes

namespace Cbor

/-- Whether the reader accepts an item when so many levels are left.  Texts are
in one chunk, and there are neither tags nor fractions. -/
def Item.fits : Nat → Item → Bool
  | _, .unsigned n | _, .negative n => n < Word.size64
  | _, .bytes b => b.length < Word.size64
  | _, .text [chunk] => chunk.length < Word.size64
  | levels + 1, .array items =>
      items.length ≤ maxCount && items.all (fits levels)
  | levels + 1, .map items =>
    items.length % 2 = 0 && items.length / 2 ≤ maxCount &&
      items.all (fits levels)
  | _, .simple n => n < 24
  | _, _ => false

variable {major n fuel depth : Nat} {rest : List UInt8} {x : Item}
  {xs : List Item}

/-- A text fits in any depth, if it is written in one piece. -/
theorem Item.fits_text {levels : Nat} {chunks : List (List UInt8)} :
    (Item.text chunks).fits levels = true ↔
    ∃ c, chunks = [c] ∧ c.length < Word.size64 := by
  cases chunks with
  | nil => simp [fits]
  | cons c others =>
      cases others with
      | nil => simp [fits]
      | cons d others => simp [fits]

/-- The parts of a lead byte. -/
theorem lead_parts (major info : Nat) (hmajor : major < 8) (hinfo : info < 32) :
    (UInt8.ofNat (major * 32 + info)).toNat / 32 = major ∧
      (UInt8.ofNat (major * 32 + info)).toNat % 32 = info := by
  rw [UInt8.toNat_ofNat', Nat.mod_eq_of_lt (by omega)]
  omega

/-- A head with its argument behind the lead byte. -/
theorem readHead?_wide {info width : Nat} (hmajor : major < 7)
    (hwidth : (info, width) ∈ [(24, 1), (25, 2), (26, 4), (27, 8)])
    (hn : n < Bytes.capacity width) :
    readHead? (UInt8.ofNat (major * 32 + info) :: Bytes.big width n ++ rest) =
    some (⟨major, info, some n⟩, rest) := by
  have hinfo : 24 ≤ info ∧ info < 28 := by
    simp only [List.mem_cons, Prod.mk.injEq, List.not_mem_nil, or_false]
      at hwidth
    omega
  obtain ⟨h1, h2⟩ := lead_parts major info (by omega) (by omega)
  have hsplit := Bytes.split?_append rest (Bytes.length_big width n)
  have hback := Bytes.ofBig_big hn
  have h7 : major ≠ 7 := by omega
  simp only [List.mem_cons, Prod.mk.injEq, List.not_mem_nil, or_false] at hwidth
  rw [List.cons_append, readHead?]
  simp only [h1, h2]
  obtain ⟨rfl, rfl⟩ | ⟨rfl, rfl⟩ | ⟨rfl, rfl⟩ | ⟨rfl, rfl⟩ := hwidth
  · simp [hsplit, hback, h7]
  · simp [hsplit, hback]
  · simp [hsplit, hback]
  · simp [hsplit, hback]

/-- What is read at the front of bytes that start with a head. -/
theorem readHead?_head (major n : Nat) (rest : List UInt8) (hmajor : major < 8)
    (hn : n < Word.size64) (hsimple : major = 7 → n < 24) :
    ∃ info, readHead? (head major n ++ rest) =
      some (⟨major, info, some n⟩, rest) ∧ (major = 7 → info < 24) := by
  have hlt : ¬ n < 24 → major < 7 := by
    intro h
    by_contra h7
    exact h (hsimple (by omega))
  rw [head]
  split
  · next h =>
      obtain ⟨h1, h2⟩ := lead_parts major n hmajor (by omega)
      refine ⟨n, ?_, fun _ => h⟩
      simp only [List.singleton_append, readHead?, h1, h2, h, if_true]
  · next h =>
      have hwide : ∀ info width, (info, width) ∈ [(24, 1), (25, 2), (26, 4),
          (27, 8)] → n < Bytes.capacity width →
          ∃ k, readHead? (UInt8.ofNat (major * 32 + info) ::
            Bytes.big width n ++ rest) = some (⟨major, k, some n⟩, rest) ∧
          (major = 7 → k < 24) := fun info width hw hc =>
        ⟨info, readHead?_wide (hlt h) hw hc, fun h7 => absurd (hsimple h7) h⟩
      split
      · next h1 => exact hwide 24 1 (by decide) h1
      · split
        · next h2 => exact hwide 25 2 (by decide) h2
        · split
          · next h4 => exact hwide 26 4 (by decide) h4
          · exact hwide 27 8 (by decide) hn

theorem head_length_pos (major n : Nat) : 1 ≤ (head major n).length := by
  rw [head]
  split
  · simp
  · split
    · simp
    · split
      · simp
      · split
        · simp
        · simp

theorem encode_length_pos (x : Item) : 1 ≤ x.encode.length := by
  cases x with
  | float => simp [Item.encode]
  | unsigned n | negative n | simple n =>
      rw [Item.encode]
      exact head_length_pos _ _
  | bytes b | text b | array b | map b =>
      rw [Item.encode, List.length_append]
      exact (head_length_pos _ _).trans (Nat.le_add_right _ _)
  | tag n x =>
      rw [Item.encode, List.length_append]
      exact (head_length_pos _ _).trans (Nat.le_add_right _ _)

/-- The bytes of items one behind the other. -/
def encodeAll (xs : List Item) : List UInt8 := (xs.map Item.encode).flatten

@[simp] theorem encodeAll_cons (x : Item) (xs : List Item) :
    encodeAll (x :: xs) = x.encode ++ encodeAll xs := rfl

/-- Items that are read one by one are read together: one unit of fuel goes to
each step. -/
theorem readItems?_encodeAll (n : Nat) (done : List Item) (rest : List UInt8)
    (h : ∀ x ∈ xs, ∀ fuel rest, 2 * x.encode.length ≤ fuel →
      readItem? fuel depth (x.encode ++ rest) = some (x, rest))
    (hfuel : 2 * (encodeAll xs).length + 1 ≤ fuel) :
    readItems? fuel depth (some (n + xs.length)) (encodeAll xs ++ rest) n done =
      some (done.reverse ++ xs, rest) := by
  induction xs generalizing fuel n done with
  | nil =>
      obtain ⟨fuel, rfl⟩ : ∃ k, fuel = k + 1 := ⟨fuel - 1, by omega⟩
      simp [readItems?, encodeAll]
  | cons x xs ih =>
      obtain ⟨fuel, rfl⟩ : ∃ k, fuel = k + 1 := ⟨fuel - 1, by omega⟩
      have hpos := encode_length_pos x
      simp only [encodeAll_cons, List.length_append] at hfuel
      have hx := h x List.mem_cons_self fuel (encodeAll xs ++ rest) (by omega)
      have hlen : n + (x :: xs).length = n + 1 + xs.length := by
        rw [List.length_cons]
        omega
      have hne : (n == n + 1 + xs.length) = false := by simp; omega
      rw [readItems?, hlen]
      simp only [hne, Bool.false_eq_true, if_false, encodeAll_cons,
        List.append_assoc, hx]
      rw [ih _ _ (fun y hy => h y (List.mem_cons_of_mem _ hy)) (by omega)]
      simp

/-- Items without parts are read back. -/
theorem readItem?_scalar (h : x.fits 0 = true) :
    readItem? (fuel + 1) depth (x.encode ++ rest) = some (x, rest) := by
  cases x with
  | unsigned n =>
      obtain ⟨info, hhead, -⟩ := readHead?_head 0 n rest (by omega)
        (of_decide_eq_true h) (by omega)
      simp [Item.encode, readItem?, hhead]
  | negative n =>
      obtain ⟨info, hhead, -⟩ := readHead?_head 1 n rest (by omega)
        (of_decide_eq_true h) (by omega)
      simp [Item.encode, readItem?, hhead]
  | bytes b =>
      obtain ⟨info, hhead, -⟩ := readHead?_head 2 b.length (b ++ rest)
        (by omega) (of_decide_eq_true h) (by omega)
      simp [Item.encode, readItem?, hhead, Bytes.split?_append]
  | text chunks =>
      obtain ⟨chunk, rfl, hlen⟩ := Item.fits_text.mp h
      obtain ⟨info, hhead, -⟩ :=
        readHead?_head 3 chunk.length (chunk ++ rest) (by omega) hlen (by omega)
      simp [Item.encode, readItem?, hhead, Bytes.split?_append]
  | simple n =>
      have hn : n < 24 := of_decide_eq_true h
      obtain ⟨info, hhead, hinfo⟩ := readHead?_head 7 n rest (by omega)
        (by rw [Word.size64]; omega) (fun _ => hn)
      have := hinfo rfl
      have h25 : info ≠ 25 := by omega
      have h26 : info ≠ 26 := by omega
      have h27 : info ≠ 27 := by omega
      simp [Item.encode, readItem?, hhead, h25, h26, h27]
  | array | map | tag | float => cases h

/-- An item that fits is read back, whatever comes behind it. -/
theorem readItem?_encode {levels : Nat} (h : x.fits levels = true)
    (hdepth : depth + levels ≤ maxDepth) (hfuel : 2 * x.encode.length ≤ fuel) :
    readItem? fuel depth (x.encode ++ rest) = some (x, rest) := by
  have hpos := encode_length_pos x
  obtain ⟨fuel, rfl⟩ : ∃ k, fuel = k + 1 := ⟨fuel - 1, by omega⟩
  induction levels generalizing x depth fuel rest with
  | zero => exact readItem?_scalar h
  | succ levels ih =>
      -- The parts of an item have one level less, and enough fuel even without
      -- the head's share.
      have hparts : ∀ {xs : List Item}, (∀ y ∈ xs, y.fits levels = true) →
          2 * (encodeAll xs).length + 1 ≤ fuel → readItems? fuel (depth + 1)
          (some xs.length) (encodeAll xs ++ rest) 0 [] = some (xs, rest) := by
        intro xs hxs hfuel
        have hone : ∀ y ∈ xs, ∀ fuel rest, 2 * y.encode.length ≤ fuel →
            readItem? fuel (depth + 1) (y.encode ++ rest) = some (y, rest) := by
          intro y hy fuel rest hfuel
          have hpos := encode_length_pos y
          obtain ⟨fuel, rfl⟩ : ∃ k, fuel = k + 1 := ⟨fuel - 1, by omega⟩
          exact ih (hxs y hy) (by omega) hpos fuel hfuel
        simpa using readItems?_encodeAll 0 [] rest hone hfuel
      have hlevel : depth < maxDepth := by omega
      cases x with
      | array items =>
          simp only [Item.fits, Bool.and_eq_true, decide_eq_true_eq,
            List.all_eq_true] at h
          have hcount : items.length < Word.size64 :=
            Nat.lt_of_le_of_lt h.1 (by decide)
          obtain ⟨info, hhead, -⟩ := readHead?_head 4 items.length
            (encodeAll items ++ rest) (by omega) hcount (by omega)
          have hlen := head_length_pos 4 items.length
          have hencode : (Item.array items).encode = head 4 items.length ++
              encodeAll items := by
            rw [Item.encode, encodeAll]
          rw [hencode, List.length_append] at hfuel
          rw [hencode, List.append_assoc, readItem?, hhead]
          simp [hlevel, h.1, hparts h.2 (by omega)]
      | map items =>
          simp only [Item.fits, Bool.and_eq_true, decide_eq_true_eq,
            List.all_eq_true] at h
          have hcount : items.length / 2 < Word.size64 :=
            Nat.lt_of_le_of_lt h.1.2 (by decide)
          obtain ⟨info, hhead, -⟩ := readHead?_head 5 (items.length / 2)
            (encodeAll items ++ rest) (by omega) hcount (by omega)
          have hlen := head_length_pos 5 (items.length / 2)
          have heven : 2 * (items.length / 2) = items.length := by
            have := h.1.1
            omega
          have hencode : (Item.map items).encode = head 5 (items.length / 2) ++
              encodeAll items := by
            rw [Item.encode, encodeAll]
          rw [hencode, List.length_append] at hfuel
          rw [hencode, List.append_assoc, readItem?, hhead]
          simp [hlevel, h.1.2, heven, hparts h.2 (by omega)]
      | text chunks =>
          exact readItem?_scalar (Item.fits_text.mpr (Item.fits_text.mp h))
      | tag | float => cases h
      | _ => exact readItem?_scalar h

/-- **An item that fits is read back** from its bytes. -/
theorem decode?_encode (h : x.fits maxDepth = true) :
    Item.decode? x.encode = some x := by
  have hread : readItem? (2 * x.encode.length + 2) 0 (x.encode ++ []) =
      some (x, []) :=
    readItem?_encode h (Nat.zero_add _).le (by omega)
  rw [List.append_nil] at hread
  rw [Item.decode?, hread]

end Cbor

namespace File

open Cbor (Item)

/-- The bytes of the document are read as the document. -/
def Document.ReadsBack [Codec] (d : Document) : Prop :=
  Codec.unmarshal (Codec.marshal d) = some d

/-! ### Fields -/

/-- Elements that read back one by one read back as a list. -/
theorem mapM_map {α β : Type} {f : β → Option α} {g : α → β} {xs : List α}
    (h : ∀ x ∈ xs, f (g x) = some x) : (xs.map g).mapM f = some xs := by
  induction xs with
  | nil => rfl
  | cons x xs ih =>
      rw [List.map_cons, List.mapM_cons, h x List.mem_cons_self,
        ih fun y hy => h y (List.mem_cons_of_mem _ hy)]
      rfl

/-- A text reads back. -/
@[simp] theorem text?_ofString (s : String) :
    Read.text? (.ofString s) = some s := by
  simp [Read.text?, Item.ofString, Read.untag?, Read.chunkText?,
    Text.ofUtf8?_utf8]

/-- A text that may be left out reads back. -/
@[simp] theorem text?_optionalText (s : String) :
    Read.text? ((Write.optionalText s).getD .null) = some s := by
  rw [Write.optionalText]
  split
  · next h =>
      rw [h]
      rfl
  · exact text?_ofString s

/-- A list reads back. -/
theorem list?_array {α : Type} {f : Item → Option α} {g : α → Item}
    {xs : List α} (h : ∀ x ∈ xs, f (g x) = some x) :
    Read.list? f (.array (xs.map g)) = some xs := mapM_map h

/-- A list that may be left out reads back. -/
theorem list?_optionalList {α : Type} {f : Item → Option α} {g : α → Item}
    {xs : List α} (h : ∀ x ∈ xs, f (g x) = some x) :
    Read.list? f ((Write.optionalList g xs).getD .null) = some xs := by
  rw [Write.optionalList]
  split
  · next hxs =>
      rw [List.isEmpty_iff.mp hxs]
      rfl
  · exact list?_array h

/-- The fields of a record that are there. -/
def present (fields : List (Nat × Option Item)) : List (Nat × Item) :=
  fields.filterMap fun e => e.2.map (e.1, ·)

theorem present_none (k : Nat) (fields : List (Nat × Option Item)) :
    present ((k, none) :: fields) = present fields := rfl

theorem present_some (k : Nat) (x : Item) (fields : List (Nat × Option Item)) :
    present ((k, some x) :: fields) = (k, x) :: present fields := rfl

/-- The fields that are present read back. -/
theorem fields?_record (fields : List (Nat × Option Item)) :
    Read.fields? (Write.record fields) = some (present fields) := by
  rw [Write.record]
  change Read.entries? (List.flatMap _ fields) = _
  induction fields with
  | nil => rfl
  | cons e fields ih =>
      obtain ⟨k, _ | x⟩ := e
      · exact ih
      · rw [List.flatMap_cons, List.cons_append, List.cons_append,
          List.nil_append, Read.entries?, ih]
        rfl

/-- A field that is not written is not there. -/
theorem lookup_present_of_notMem {fields : List (Nat × Option Item)} {k : Nat}
    (h : k ∉ fields.map Prod.fst) : (present fields).lookup k = none := by
  induction fields with
  | nil => rfl
  | cons e fields ih =>
      rw [List.map_cons, List.mem_cons, not_or] at h
      obtain ⟨k', _ | x⟩ := e
      · exact ih h.2
      · rw [present_some, List.lookup_cons, beq_eq_false_iff_ne.mpr h.1]
        exact ih h.2

/-- A field of a record is found under its number. -/
theorem field_present {fields : List (Nat × Option Item)}
    (h : (fields.map Prod.fst).Nodup) (k : Nat) :
    Read.field (present fields) k = (fields.lookup k).join.getD .null := by
  rw [Read.field]
  congr 1
  induction fields with
  | nil => rfl
  | cons e fields ih =>
      rw [List.map_cons, List.nodup_cons] at h
      obtain ⟨k', x⟩ := e
      by_cases hk : k = k'
      · subst hk
        cases x with
        | none =>
            rw [present_none, lookup_present_of_notMem h.1]
            simp
        | some x =>
            rw [present_some]
            simp
      · have hne : (k == k') = false := beq_eq_false_iff_ne.mpr hk
        cases x with
        | none => simpa [present_none, List.lookup_cons, hne] using ih h.2
        | some x => simpa [present_some, List.lookup_cons, hne] using ih h.2

/-! ### Records -/

/-- A reference to a method reads back. -/
theorem methodRef?_methodRef (r : MethodRef) :
    Read.methodRef? (Write.methodRef r) = some r := by
  rw [Read.methodRef?, Write.methodRef, fields?_record]
  simp [field_present, List.lookup, list?_optionalList]

/-- A reference to a field reads back. -/
theorem fieldRef?_fieldRef (r : FieldRef) :
    Read.fieldRef? (Write.fieldRef r) = some r := by
  rw [Read.fieldRef?, Write.fieldRef, fields?_record]
  simp [field_present, List.lookup]

/-- A slot reads back. -/
theorem slot?_slot (l : String × String) :
    Read.slot? (Write.slot l) = some l := by
  rw [Read.slot?, Write.slot, fields?_record]
  simp [field_present, List.lookup]

/-- A parameter reads back. -/
theorem param?_param (x : Param) : Read.param? (Write.param x) = some x := by
  rw [Read.param?, Write.param, fields?_record]
  simp [field_present, List.lookup]

/-- A number of values that a record can hold is read back. -/
theorem bounded?_ofInt {low high n : Int} (h : low ≤ n ∧ n ≤ high) :
    Read.bounded? low high (.ofInt n) = some n := by
  have hint : Read.integer? (.ofInt n) = some n := by
    rw [Item.ofInt]
    split
    · simp [Read.integer?, Read.untag?]
      omega
    · simp [Read.integer?, Read.untag?]
      omega
  rw [Read.bounded?, hint]
  simp [Option.filter, h.1, h.2]

@[simp] theorem bool?_bool (b : Bool) : Read.bool? (.bool b) = some b := by
  cases b with
  | false => rfl
  | true => rfl

/-- A number below a limit reads back. -/
theorem below?_unsigned {n limit : Nat} (h : n < limit) :
    Read.below? limit (.unsigned n) = some n := by
  have : Read.integer? (.unsigned n) = some (n : Int) := rfl
  rw [Read.below?, Read.bounded?, this]
  have hn : (n : Int) ≤ limit - 1 := by omega
  simp [Option.filter, hn]

/-- The stack depth of a stored body is a signed word of 64 bits. -/
def StoredBody.Fits (s : StoredBody) : Prop :=
  Word.minSigned64 ≤ s.maxStack ∧ s.maxStack ≤ Word.maxSigned64

/-- A body reads back. -/
theorem body?_body {s : StoredBody} (h : s.Fits) :
    Read.body? (Write.body s) = some s := by
  have hcode : ∀ b, Read.code? (.bytes b) = some b := fun b => rfl
  rw [Read.body?, Write.body, fields?_record]
  simp [field_present, List.lookup, list?_optionalList, bounded?_ofInt h,
    slot?_slot, hcode]

/-- A body that may be missing reads back. -/
theorem optionalBody?_body {s : Option StoredBody} (h : ∀ x ∈ s, x.Fits) :
    Read.optionalBody? ((s.map Write.body).getD .null) = some s := by
  cases s with
  | none => rfl
  | some x =>
      have hnull : (Write.body x).isNull = false := rfl
      simp [Read.optionalBody?, hnull, body?_body (h x rfl)]

/-- A method reads back. -/
theorem method?_method {s : StoredMethod} (h : ∀ x ∈ s.body, x.Fits) :
    Read.method? (Write.method s) = some s := by
  have hattrs : Read.below? Word.size32 (.unsigned s.attrs.toNat) =
      some s.attrs.toNat :=
    below?_unsigned s.attrs.toNat_lt
  rw [Read.method?, Write.method, fields?_record]
  simp [field_present, List.lookup, list?_optionalList, param?_param,
    optionalBody?_body h, hattrs]

/-- A type reads back. -/
theorem type?_type {s : StoredType}
    (h : ∀ m ∈ s.methods, ∀ x ∈ m.body, x.Fits) :
    Read.type? (Write.type s) = some s := by
  rw [Read.type?, Write.type, fields?_record]
  simp [field_present, List.lookup,
    list?_optionalList fun m hm => method?_method (h m hm)]

/-- A module reads back. -/
theorem module?_module {s : StoredModule}
    (h : ∀ t ∈ s.types, ∀ m ∈ t.methods, ∀ x ∈ m.body, x.Fits) :
    Read.module? (Write.module s) = some s := by
  rw [Read.module?, Write.module, fields?_record]
  simp [field_present, List.lookup,
    list?_optionalList fun t ht => type?_type (h t ht)]

/-- A list that is left out if it is empty reads back. -/
theorem list?_null_or_array {α : Type} {f : Item → Option α} {g : α → Item}
    {xs : List α} (h : ∀ x ∈ xs, f (g x) = some x) :
    Read.list? f (if xs.isEmpty then .null else .array (xs.map g)) =
    some xs := by
  split
  · next hxs =>
      rw [List.isEmpty_iff.mp hxs]
      rfl
  · exact list?_array h

/-- The item of a document describes the document. -/
theorem ofItem?_toItem {d : Document} (h : ∀ y ∈ d.modules, ∀ t ∈ y.types,
      ∀ m ∈ t.methods, ∀ x ∈ m.body, x.Fits) :
    Document.ofItem? d.toItem = some d := by
  have hkind : Read.below? 256 (.unsigned d.kind.toNat) = some d.kind.toNat :=
    below?_unsigned d.kind.toNat_lt
  have hmodules := list?_null_or_array fun y hy => module?_module (h y hy)
  rw [Document.ofItem?, Document.toItem, fields?_record]
  simp [field_present, List.lookup, list?_optionalList, methodRef?_methodRef,
    fieldRef?_fieldRef, hkind, -List.isEmpty_iff, hmodules]

/-- A document that keeps to the limits of the reader: those on items, and words
of 64 bits for stack depths. -/
structure Document.Fits (d : Document) : Prop where
  item : d.toItem.fits Cbor.maxDepth = true
  bodies : ∀ y ∈ d.modules, ∀ t ∈ y.types, ∀ m ∈ t.methods, ∀ x ∈ m.body, x.Fits

/-- **A document that keeps to the limits is read back** from its bytes, if they
are those of its item. -/
theorem readsBack_of_fits {d : Document} (h : d.Fits) : d.ReadsBack := by
  change (Item.decode? d.toItem.encode).bind Document.ofItem? = some d
  rw [Cbor.decode?_encode h.item]
  exact ofItem?_toItem h.bodies

end File

end Bytecode
