import Mathlib
import Bytecode.Proofs.Loading

/-!
# The grammar of packed code

A `PackedInstr` is an assigned opcode with an operand of its shape, and its
bytes are the opcode and the operand, least significant byte first.  No two of
them start alike, so bytes are cut into instructions in one way only:
`flatMap_bytes_injective`.  Bytes that are no instruction end too early or start
with a byte that is no opcode, `PackedInstr.exists_or_malformed`, and
`unpackCode_error_iff` says which fault the first of them comes to.  Main
statement: `unpackBody_accepts_grammar`, a stored body is read exactly if its
code is made of instructions that stay inside their tables, as the body of these
instructions, and what is wrong otherwise.
-/

namespace Bytecode

namespace Bytes

/-- The bytes of a number that has been read from them. -/
theorem little_ofLittle (bytes : List UInt8) :
    little bytes.length (ofLittle bytes) = bytes := by
  induction bytes with
  | nil => rfl
  | cons b bytes ih =>
      have hb := b.toNat_lt
      have hmod : (b.toNat + 256 * ofLittle bytes) % 256 = b.toNat := by omega
      have hdiv : (b.toNat + 256 * ofLittle bytes) / 256 = ofLittle bytes := by
        omega
      rw [List.length_cons, ofLittle, little, hmod, hdiv, ih, UInt8.ofNat_toNat]

end Bytes

/-- Two steps fail if one of them does. -/
theorem bind_error_iff {α β : Type} {x : Except Fault α}
    {f : α → Except Fault β} {e : Fault} :
    x >>= f = .error e ↔ x = .error e ∨ ∃ a, x = .ok a ∧ f a = .error e := by
  cases x with
  | error e => simp [bind, Except.bind]
  | ok a => simp [bind, Except.bind]

namespace File

/-! ### Operands -/

/-- The operand of an instruction in packed code: the offset of a branch, an
index into a table, the number of a slot or a constant. -/
inductive PackedOperand where
  | none
  | target (n : UInt32)
  | method (n : UInt32)
  | field (n : UInt32)
  | text (n : UInt32)
  | slot (n : UInt16)
  | int32 (v : Int32)
  | int64 (v : Int64)
  deriving DecidableEq, Repr

namespace PackedOperand

/-- The shape of opcode it belongs to. -/
def shape : PackedOperand → Shape
  | none => .none
  | target _ => .target
  | method _ => .method
  | field _ => .field
  | text _ => .text
  | slot _ => .slot
  | int32 _ => .int32
  | int64 _ => .int64

/-- The number it is packed as. -/
def number : PackedOperand → Nat
  | none => 0
  | target n | method n | field n | text n => n.toNat
  | slot n => n.toNat
  | int32 v => v.toUInt32.toNat
  | int64 v => v.toUInt64.toNat

/-- The bytes of an operand: none, two for a slot, eight for a 64-bit number and
four for anything else. -/
def bytes (o : PackedOperand) : List UInt8 :=
  match o with
  | none => []
  | slot _ => Bytes.little 2 o.number
  | int64 _ => Bytes.little 8 o.number
  | target _ | method _ | field _ | text _ | int32 _ => Bytes.little 4 o.number

/-- The operand of the given shape that is packed as a number. -/
def ofNumber (n : Nat) : Shape → PackedOperand
  | .none => none
  | .target => target n.toUInt32
  | .method => method n.toUInt32
  | .field => field n.toUInt32
  | .text => text n.toUInt32
  | .slot => slot n.toUInt16
  | .int32 => int32 n.toUInt32.toInt32
  | .int64 => int64 n.toUInt64.toInt64

/-- The index is one of its table, or the number of one of so many slots. -/
def Found (d : Document) (slots : Nat) : PackedOperand → Prop
  | method n => n.toNat < d.methods.length
  | field n => n.toNat < d.fields.length
  | text n => n.toNat < d.strings.length
  | slot n => n.toNat < slots
  | none | target _ | int32 _ | int64 _ => True

/-- A branch leads to one of so many offsets. -/
def Inside (count : Nat) : PackedOperand → Prop
  | target n => n.toNat < count
  | _ => True

/-- What an index is called when there is nothing under it. -/
def called : PackedOperand → String
  | method _ => "method"
  | field _ => "field"
  | text _ => "string"
  | slot _ => "local"
  | none | target _ | int32 _ | int64 _ => ""

/-- What the operand stands for in a body that has the given slots and the given
code. -/
inductive Means (d : Document) (slots : Array Local) (code : List InstrId) :
    PackedOperand → Operand → Prop
  | none : Means d slots code none .absent
  | target {n : UInt32} {i : InstrId} : code[n.toNat]? = some i →
      Means d slots code (target n) (.target i)
  | method {n : UInt32} {r : MethodRef} : d.methods[n.toNat]? = some r →
      Means d slots code (method n) (.method r)
  | field {n : UInt32} {r : FieldRef} : d.fields[n.toNat]? = some r →
      Means d slots code (field n) (.field r)
  | text {n : UInt32} {s : String} : d.strings[n.toNat]? = some s →
      Means d slots code (text n) (.text s)
  | slot {n : UInt16} {l : Local} : slots[n.toNat]? = some l →
    Means d slots code (slot n) (.slot l)
  | int32 {v : Int32} : Means d slots code (int32 v) (.int32 v)
  | int64 {v : Int64} : Means d slots code (int64 v) (.int64 v)

/-- The bytes of an operand are those of its number. -/
theorem bytes_eq (o : PackedOperand) :
    o.bytes = Bytes.little (operandWidth o.shape) o.number := by
  cases o with
  | _ => rfl

/-- An operand has as many bytes as its shape says. -/
theorem length_bytes (o : PackedOperand) :
    o.bytes.length = operandWidth o.shape := by
  rw [bytes_eq, Bytes.length_little]

/-- A number is read in the shape that is asked for. -/
@[simp] theorem shape_ofNumber (n : Nat) (s : Shape) :
    (ofNumber n s).shape = s := by
  cases s with
  | _ => rfl

/-- The number of an operand fits its bytes. -/
theorem number_lt (o : PackedOperand) :
    o.number < Bytes.capacity (operandWidth o.shape) := by
  cases o with
  | none => exact Nat.zero_lt_one
  | target n | method n | field n | text n => exact n.toNat_lt
  | slot n => exact n.toNat_lt
  | int32 v => exact v.toUInt32.toNat_lt
  | int64 v => exact v.toUInt64.toNat_lt

/-- An operand is read from its number. -/
theorem ofNumber_number (o : PackedOperand) :
    ofNumber o.number o.shape = o := by
  cases o with
  | none => rfl
  | target n | method n | field n | text n => simp [number, shape, ofNumber]
  | slot n => simp [number, shape, ofNumber]
  | int32 v | int64 v => simp [number, shape, ofNumber]

/-- A number that fits is that of its operand. -/
theorem number_ofNumber {n : Nat} {s : Shape}
    (h : n < Bytes.capacity (operandWidth s)) : (ofNumber n s).number = n := by
  cases s with
  | none => exact (Nat.lt_one_iff.mp h).symm
  | target | method | field | text | slot | int32 | int64 =>
      simp only [operandWidth, Bytes.capacity] at h
      simp only [ofNumber, number, UInt32.toUInt32_toInt32,
        UInt64.toUInt64_toInt64]
      exact Nat.mod_eq_of_lt h

/-- A number is read from the bytes of its operand. -/
theorem ofLittle_bytes (o : PackedOperand) :
    Bytes.ofLittle o.bytes = o.number := by
  rw [bytes_eq, Bytes.ofLittle_little o.number_lt]

end PackedOperand

/-! ### Instructions -/

/-- An instruction in packed code. -/
structure PackedInstr where
  op : Opcode
  operand : PackedOperand
  valid : op.isValid = true
  shape_eq : operand.shape = op.shape

namespace PackedInstr

/-- The opcode and the operand. -/
def bytes (x : PackedInstr) : List UInt8 := x.op.byte :: x.operand.bytes

/-- The offset an instruction branches to. -/
def branch (x : PackedInstr) : Option Nat :=
  if x.op.shape = .target then some x.operand.number else none

/-- The unpacked instruction `u` is what `x` is read as, in a body with the
given slots. -/
structure ReadAs (d : Document) (slots : Array Local) (x : PackedInstr)
    (u : Unpacked) : Prop where
  op : u.op = x.op
  operand : operandOf? d slots x.operand.number x.op.shape = some u.operand
  branch : u.branch = x.branch

variable {x y : PackedInstr} {xs ys : List PackedInstr} {rest more : List UInt8}
  {d : Document} {slots : Array Local} {op : Opcode} {u : Unpacked}

/-- Packed instructions are told apart by opcode and operand. -/
theorem ext_iff : x = y ↔ x.op = y.op ∧ x.operand = y.operand := by
  obtain ⟨op, o, _, _⟩ := x
  obtain ⟨op', o', _, _⟩ := y
  simp

/-- The instruction of an opcode with the operand packed as a number. -/
def ofNumber (op : Opcode) (n : Nat) (h : op.isValid = true) : PackedInstr :=
  ⟨op, .ofNumber n op.shape, h, PackedOperand.shape_ofNumber n op.shape⟩

/-- An opcode and as many bytes as its operand takes are an instruction. -/
theorem bytes_ofNumber {front : List UInt8} (h : op.isValid = true)
    (hfront : front.length = operandWidth op.shape) :
    (ofNumber op (Bytes.ofLittle front) h).bytes = op.byte :: front := by
  have hn := ofLittle_lt_capacity hfront
  simp only [bytes, ofNumber, PackedOperand.bytes_eq,
    PackedOperand.shape_ofNumber, PackedOperand.number_ofNumber hn]
  rw [← hfront, Bytes.little_ofLittle]

/-- What follows an instruction is no part of it. -/
theorem bytes_append_inj (h : x.bytes ++ rest = y.bytes ++ more) :
    x = y ∧ rest = more := by
  obtain ⟨hop, h⟩ :=
    List.cons.inj (by simpa only [bytes, List.cons_append] using h)
  have hop : x.op = y.op := congrArg Opcode.mk hop
  have hshape : x.operand.shape = y.operand.shape := by
    rw [x.shape_eq, y.shape_eq, hop]
  obtain ⟨hbytes, hrest⟩ := List.append_inj h (by
    rw [PackedOperand.length_bytes, PackedOperand.length_bytes, hshape])
  have hnumber : x.operand.number = y.operand.number := by
    rw [← PackedOperand.ofLittle_bytes, hbytes, PackedOperand.ofLittle_bytes]
  refine ⟨ext_iff.mpr ⟨hop, ?_⟩, hrest⟩
  rw [← x.operand.ofNumber_number, hnumber, hshape, y.operand.ofNumber_number]

/-- **Bytes are cut into instructions in one way only.** -/
theorem flatMap_bytes_injective : Function.Injective (List.flatMap bytes) := by
  intro xs
  induction xs with
  | nil =>
      intro ys h
      cases ys with
      | nil => rfl
      | cons y ys => exact absurd h (by simp [bytes])
  | cons x xs ih =>
      intro ys h
      cases ys with
      | nil => exact absurd h (by simp [bytes])
      | cons y ys =>
          obtain ⟨rfl, hrest⟩ :=
            bytes_append_inj (by simpa only [List.flatMap_cons] using h)
          rw [ih hrest]

/-- Bytes start with an instruction, unless there is no opcode or something is
missing behind it. -/
theorem exists_or_malformed (byte : UInt8) (rest : List UInt8) :
    (⟨byte⟩ : Opcode).isValid = false ∨ ((⟨byte⟩ : Opcode).isValid = true ∧
      rest.length < operandWidth (⟨byte⟩ : Opcode).shape) ∨
    ∃ (x : PackedInstr) (more : List UInt8),
    byte :: rest = x.bytes ++ more := by
  cases hop : (⟨byte⟩ : Opcode).isValid with
  | false => exact .inl rfl
  | true =>
      refine .inr ?_
      generalize hwidth : operandWidth (⟨byte⟩ : Opcode).shape = width
      rcases Nat.lt_or_ge rest.length width with hlen | hlen
      · exact .inl ⟨rfl, hlen⟩
      · have hfront := (List.length_take_of_le hlen).trans hwidth.symm
        refine .inr ⟨ofNumber ⟨byte⟩ (Bytes.ofLittle (rest.take width)) hop,
          rest.drop width, ?_⟩
        rw [bytes_ofNumber hop hfront, List.cons_append, List.take_append_drop]

/-- The loop reads one instruction and goes on behind it. -/
theorem unpackCode_append (x : PackedInstr) (d : Document) (slots : Array Local)
    (start pc : Nat) (rest : List UInt8) :
    unpackCode d slots start pc (x.bytes ++ rest) = (do
      let o ← unpackOperand d slots x.op pc x.operand.number
      let others ← unpackCode d slots (start + x.bytes.length) (pc + 1) rest
      return ⟨x.op, o, x.branch⟩ :: others) := by
  have hlen : x.operand.bytes.length = operandWidth x.op.shape := by
    rw [PackedOperand.length_bytes, x.shape_eq]
  have hnext :
      start + x.bytes.length = start + 1 + operandWidth x.op.shape := by
    rw [bytes, List.length_cons, hlen]
    omega
  rw [hnext, bytes, List.cons_append, unpackCode]
  simp only [x.valid, Bool.not_true, Bool.false_eq_true, if_false,
    List.take_left' hlen, hlen,
    Nat.lt_irrefl, List.drop_left' hlen, PackedOperand.ofLittle_bytes]
  rfl

/-- An entry is missing if there is none. -/
private theorem entry_error_iff {α : Type} {a? : Option α} {g : α → Operand}
    {e f : Fault} : (match a? with
      | some a => .ok (g a)
      | none => .error e : Except Fault Operand) = .error f ↔
          a? = none ∧ f = e := by
  cases a? with
  | none => simp [eq_comm]
  | some a => simp

/-- An operand is refused exactly if it points outside its table. -/
theorem unpackOperand_error_iff {pc : Nat} {f : Fault} :
    unpackOperand d slots x.op pc x.operand.number = .error f ↔
    ¬ x.operand.Found d slots.size ∧
    f = .failed [x.operand.called ++ " " ++ Text.decimal 1 x.operand.number ++
      " at " ++ offsetLabel pc] .invalidIndex := by
  obtain ⟨op, o, hvalid, hs⟩ := x
  rw [unpackOperand]
  cases o with
  | none | target n | int32 v | int64 v =>
      rw [← hs]
      simp [PackedOperand.shape, PackedOperand.Found]
  | method n | field n | text n | slot n =>
      rw [← hs]
      refine entry_error_iff.trans (and_congr_left' ?_)
      simp [PackedOperand.Found, PackedOperand.number]

/-- What can be read has been found. -/
theorem readAs_found (h : ReadAs d slots x u) :
    x.operand.Found d slots.size := by
  by_contra hfound
  have hrefused : unpackOperand d slots x.op 0 x.operand.number = .error _ :=
    unpackOperand_error_iff.mpr ⟨hfound, rfl⟩
  rw [unpackOperand_ok_iff.mpr h.operand] at hrefused
  cases hrefused

/-- What has been found can be read. -/
theorem exists_readAs (h : x.operand.Found d slots.size) :
    ∃ u, ReadAs d slots x u := by
  cases ho : unpackOperand d slots x.op 0 x.operand.number with
  | error f => exact absurd h (unpackOperand_error_iff.mp ho).1
  | ok o => exact ⟨⟨x.op, o, x.branch⟩, rfl, unpackOperand_ok_iff.mp ho, rfl⟩

/-- What is read is what packed instructions are read as. -/
theorem reads_iff {bytes : List UInt8} {us : List Unpacked} :
    Reads d slots bytes us ↔ ∃ xs : List PackedInstr, bytes =
    xs.flatMap PackedInstr.bytes ∧ List.Forall₂ (ReadAs d slots) xs us := by
  constructor
  · intro h
    induction h with
    | nil => exact ⟨[], rfl, .nil⟩
    | @cons op o front rest us hop hlen ho _ ih =>
        obtain ⟨xs, rfl, hxs⟩ := ih
        have hn := ofLittle_lt_capacity hlen
        refine ⟨ofNumber op (Bytes.ofLittle front) hop :: xs, ?_,
          .cons ⟨rfl, ?_, ?_⟩ hxs⟩
        · rw [List.flatMap_cons, bytes_ofNumber hop hlen, List.cons_append]
        · rw [ofNumber, PackedOperand.number_ofNumber hn]
          exact ho
        · rw [branch, ofNumber, PackedOperand.number_ofNumber hn]
  · rintro ⟨xs, rfl, hxs⟩
    induction hxs with
    | nil => exact .nil
    | @cons x u xs us hx _ ih =>
        obtain ⟨op, o, branch⟩ := u
        obtain ⟨rfl, ho, rfl⟩ := hx
        rw [← x.operand.ofLittle_bytes] at ho
        have hlen : x.operand.bytes.length = operandWidth x.op.shape := by
          rw [PackedOperand.length_bytes, x.shape_eq]
        have hcons := Reads.cons x.valid hlen ho ih
        rw [x.operand.ofLittle_bytes] at hcons
        exact hcons

end PackedInstr

/-! ### What is wrong with code -/

/-- The fault `f` of bytes that do not start with an instruction that stays
inside its table, in a body with so many slots.  The first byte is byte `start`,
what it starts has offset `pc`. -/
inductive Malformed (d : Document) (slots start pc : Nat) :
    List UInt8 → Fault → Prop
  | opcode {byte : UInt8} {rest : List UInt8} :
    (⟨byte⟩ : Opcode).isValid = false → Malformed d slots start pc
    (byte :: rest) (.failed ["0x" ++ Text.hex 2 byte.toNat ++ " at byte " ++
      Text.decimal 1 start] .invalidOpcode)
  | cut {op : Opcode} {rest : List UInt8} : op.isValid = true →
    rest.length < operandWidth op.shape → Malformed d slots start pc
    (op.byte :: rest) (.failed [position op pc] .unexpectedEnd)
  | index {x : PackedInstr} {rest : List UInt8} : ¬ x.operand.Found d slots →
    Malformed d slots start pc (x.bytes ++ rest)
    (.failed [x.operand.called ++ " " ++ Text.decimal 1 x.operand.number ++
      " at " ++ offsetLabel pc] .invalidIndex)

variable {d : Document} {slots : Array Local} {start pc : Nat}
  {bytes : List UInt8} {f : Fault}

/-- Reading stops where nothing can be read. -/
theorem Malformed.unpackCode_eq (h : Malformed d slots.size start pc bytes f) :
    unpackCode d slots start pc bytes = .error f := by
  cases h with
  | opcode hop => simp only [unpackCode, hop, Bool.not_false, if_true]
  | @cut op rest hop hlen =>
      have hshort :
          (rest.take (operandWidth op.shape)).length < operandWidth op.shape :=
        Nat.lt_of_le_of_lt (List.length_take_le' _ rest) hlen
      rw [unpackCode]
      simp only [hop, Bool.not_true, Bool.false_eq_true, if_false,
        if_pos hshort]
  | @index x rest hfound =>
      rw [x.unpackCode_append]
      exact bind_error_iff.mpr
        (.inl (PackedInstr.unpackOperand_error_iff.mpr ⟨hfound, rfl⟩))

/-- What is not read has a first place where nothing can be read. -/
theorem malformed_of_error (h : unpackCode d slots start pc bytes = .error f) :
    ∃ (xs : List PackedInstr) (rest : List UInt8),
      bytes = xs.flatMap PackedInstr.bytes ++ rest ∧
      (∀ x ∈ xs, x.operand.Found d slots.size) ∧ Malformed d slots.size (start +
        (xs.flatMap PackedInstr.bytes).length) (pc + xs.length) rest f := by
  induction hlen : bytes.length using Nat.strong_induction_on
    generalizing bytes start pc with
  | _ n ih =>
      cases bytes with
      | nil =>
          rw [unpackCode] at h
          cases h
      | cons byte rest =>
          rcases PackedInstr.exists_or_malformed byte rest with hop
            | ⟨hop, hshort⟩ | ⟨x, more, hbytes⟩
          · have hbad : Malformed d slots.size start pc (byte :: rest) _ :=
              .opcode hop
            cases h.symm.trans hbad.unpackCode_eq
            exact ⟨[], _, rfl, List.forall_mem_nil _, hbad⟩
          · have hbad : Malformed d slots.size start pc (byte :: rest) _ :=
              .cut hop hshort
            cases h.symm.trans hbad.unpackCode_eq
            exact ⟨[], _, rfl, List.forall_mem_nil _, hbad⟩
          · rw [hbytes] at h hlen ⊢
            by_cases hfound : x.operand.Found d slots.size
            · rw [x.unpackCode_append] at h
              rcases bind_error_iff.mp h with h | ⟨o, -, h⟩
              · exact absurd hfound (PackedInstr.unpackOperand_error_iff.mp h).1
              · rcases bind_error_iff.mp h with h | ⟨others, -, h⟩
                · have hshorter : more.length < n := by
                    rw [← hlen, List.length_append, PackedInstr.bytes,
                      List.length_cons]
                    omega
                  obtain ⟨xs, rest, rfl, hxs, hbad⟩ := ih _ hshorter h rfl
                  refine ⟨x :: xs, rest, by simp,
                    List.forall_mem_cons.mpr ⟨hfound, hxs⟩, ?_⟩
                  rw [List.flatMap_cons, List.length_append, List.length_cons,
                    ← Nat.add_assoc, Nat.add_comm xs.length 1, ← Nat.add_assoc]
                  exact hbad
                · cases h
            · have hbad : Malformed d slots.size start pc (x.bytes ++ more) _ :=
                .index hfound
              cases h.symm.trans hbad.unpackCode_eq
              exact ⟨[], _, rfl, List.forall_mem_nil _, hbad⟩

/-- Code that is malformed behind some instructions is refused there. -/
theorem error_of_malformed {xs : List PackedInstr} {rest : List UInt8}
    (hxs : ∀ x ∈ xs, x.operand.Found d slots.size) (h : Malformed d slots.size
      (start + (xs.flatMap PackedInstr.bytes).length) (pc + xs.length) rest f) :
    unpackCode d slots start pc (xs.flatMap PackedInstr.bytes ++ rest) =
    .error f := by
  induction xs generalizing start pc with
  | nil => exact h.unpackCode_eq
  | cons x xs ih =>
      obtain ⟨hx, hxs⟩ := List.forall_mem_cons.mp hxs
      obtain ⟨u, hu⟩ := PackedInstr.exists_readAs hx
      rw [List.flatMap_cons, List.append_assoc, x.unpackCode_append]
      refine bind_error_iff.mpr
        (.inr ⟨u.operand, unpackOperand_ok_iff.mpr hu.operand, ?_⟩)
      refine bind_error_iff.mpr (.inl (ih hxs ?_))
      rw [List.flatMap_cons, List.length_append, List.length_cons,
        ← Nat.add_assoc, Nat.add_comm xs.length 1, ← Nat.add_assoc] at h
      exact h

/-- **The first thing that cannot be read decides** what reading comes to. -/
theorem unpackCode_error_iff : unpackCode d slots start pc bytes = .error f ↔
    ∃ (xs : List PackedInstr) (rest : List UInt8),
    bytes = xs.flatMap PackedInstr.bytes ++ rest ∧
    (∀ x ∈ xs, x.operand.Found d slots.size) ∧ Malformed d slots.size (start +
      (xs.flatMap PackedInstr.bytes).length) (pc + xs.length) rest f := by
  constructor
  · exact malformed_of_error
  · rintro ⟨xs, rest, rfl, hxs, h⟩
    exact error_of_malformed hxs h

/-- The first branch that leads outside is what is wrong with the branches. -/
theorem checkBranches_error_iff {us : List Unpacked} {count : Nat} :
    checkBranches count us = .error f ↔
    ∃ (vs : List Unpacked) (u : Unpacked) (ws : List Unpacked) (n : Nat),
    us = vs ++ u :: ws ∧ (∀ v ∈ vs, ∀ k ∈ v.branch, k < count) ∧
    u.branch = some n ∧ count ≤ n ∧
    f = .failed [u.op.name ++ " to " ++ offsetLabel n] .danglingBranch := by
  induction us with
  | nil => simp [checkBranches]
  | cons u us ih =>
      have hskip : (∀ k ∈ u.branch, k < count) →
          (checkBranches count us = .error f ↔ ∃ (vs : List Unpacked) (v :
            Unpacked) (ws : List Unpacked) (n : Nat), u :: us = vs ++ v :: ws ∧
            (∀ v ∈ vs, ∀ k ∈ v.branch, k < count) ∧ v.branch = some n ∧
            count ≤ n ∧ f = .failed [v.op.name ++ " to " ++
              offsetLabel n] .danglingBranch) := by
        intro hu
        rw [ih]
        constructor
        · rintro ⟨vs, v, ws, n, rfl, hvs, hv⟩
          exact ⟨u :: vs, v, ws, n, rfl, List.forall_mem_cons.mpr ⟨hu, hvs⟩, hv⟩
        · rintro ⟨vs, v, ws, n, hus, hvs, hv, hn, hf⟩
          cases vs with
          | nil =>
              obtain ⟨rfl, -⟩ := List.cons.inj hus
              exact absurd (hu n hv) (by omega)
          | cons v' vs =>
              obtain ⟨rfl, rfl⟩ := List.cons.inj hus
              exact ⟨vs, v, ws, n, rfl, (List.forall_mem_cons.mp hvs).2,
                hv, hn, hf⟩
      rw [checkBranches]
      split
      · next n hn =>
          split
          · next hlt => exact hskip (by simp [hn, hlt])
          · next hlt =>
              constructor
              · intro h
                cases h
                exact ⟨[], u, us, n, rfl, List.forall_mem_nil _, hn,
                  by omega, rfl⟩
              · rintro ⟨vs, v, ws, k, hus, hvs, hv, hk, rfl⟩
                cases vs with
                | nil =>
                    obtain ⟨rfl, -⟩ := List.cons.inj hus
                    obtain rfl := Option.some.inj (hn.symm.trans hv)
                    rfl
                | cons v' vs =>
                    obtain ⟨rfl, -⟩ := List.cons.inj hus
                    exact absurd ((List.forall_mem_cons.mp hvs).1 n hn) hlt
      · next hn => exact hskip (by simp [hn])

/-! ### Bodies -/

/-- The code of a stored body is made of the instructions `xs`, their indices
are in their tables and their branches lead to some of them. -/
structure Spells (d : Document) (s : StoredBody) (xs : List PackedInstr) :
    Prop where
  bytes : s.code = xs.flatMap PackedInstr.bytes
  found : ∀ x ∈ xs, x.operand.Found d s.locals.length
  inside : ∀ x ∈ xs, x.operand.Inside xs.length

/-- Instruction `i` of body `b` says what `x` does. -/
structure Says (d : Document) (q : Program) (b : BodyId) (x : PackedInstr)
    (i : InstrId) : Prop where
  op : (q.instr i).op = x.op
  operand :
    x.operand.Means d (q.body b).locals (q.body b).code (q.instr i).operand
  owner : (q.instr i).owner = some b

/-- Program `q` is `p` with a new body `b`, which consists of new instructions
that say one after the other what `xs` do, and has all else from the stored body
`s`. -/
structure Unpacks (d : Document) (p : Program) (s : StoredBody)
    (xs : List PackedInstr) (b : BodyId) (q : Program) : Prop where
  grows : p.Grows q
  methods : q.methods = p.methods
  fresh : b = ⟨p.bodies.size⟩
  instrs : List.Forall₂ (Says d q b) xs (q.body b).code
  nodup : (q.body b).code.Nodup
  new : ∀ i ∈ (q.body b).code, p.instrs.size ≤ i.index
  locals : (q.body b).locals = numbered s.locals
  maxStack : (q.body b).maxStack = s.maxStack
  initLocals : (q.body b).initLocals = s.initLocals
  method : (q.body b).method = none

/-- The fault `f` of a stored body: that of the first place of its code where
nothing can be read, or, if everything can be read, that of the first branch
that leads outside the code. -/
inductive Refused (d : Document) (s : StoredBody) : Fault → Prop
  | malformed {xs : List PackedInstr} {rest : List UInt8} {f : Fault} :
    s.code = xs.flatMap PackedInstr.bytes ++ rest →
    (∀ x ∈ xs, x.operand.Found d s.locals.length) → Malformed d s.locals.length
    (xs.flatMap PackedInstr.bytes).length xs.length rest f → Refused d s f
  | dangling {xs ys : List PackedInstr} {x : PackedInstr} {n : UInt32} :
    s.code = (xs ++ x :: ys).flatMap PackedInstr.bytes →
    (∀ y ∈ xs ++ x :: ys, y.operand.Found d s.locals.length) →
    (∀ y ∈ xs, y.operand.Inside (xs ++ x :: ys).length) →
    x.operand = .target n → (xs ++ x :: ys).length ≤ n.toNat → Refused d s
    (.failed [x.op.name ++ " to " ++ offsetLabel n.toNat] .danglingBranch)

variable {p q : Program} {s : StoredBody} {b : BodyId} {x : PackedInstr}
  {xs : List PackedInstr} {u : Unpacked} {us : List Unpacked} {count : Nat}

@[simp] theorem size_numbered (slots : List (String × String)) :
    (numbered slots).size = slots.length := by
  simp [numbered]

/-- An operand that is no branch means the same wherever it stands. -/
theorem operandOf?_means {o : PackedOperand} {a : Operand}
    (h : operandOf? d slots o.number o.shape = some a) (hs : o.shape ≠ .target)
    (code : List InstrId) : o.Means d slots code a := by
  cases o with
  | target n => exact absurd rfl hs
  | none =>
      cases h
      exact .none
  | method n | field n | text n | slot n =>
      obtain ⟨r, hr, rfl⟩ := Option.map_eq_some_iff.mp h
      constructor
      exact hr
  | int32 v | int64 v =>
      simp only [PackedOperand.number, PackedOperand.shape, operandOf?,
        UInt32.ofNat_toNat, UInt64.ofNat_toNat, Nat.toUInt32_eq,
        Nat.toUInt64_eq, Int32.toInt32_toUInt32,
        Int64.toInt64_toUInt64, Option.some.injEq] at h
      rw [← h]
      constructor

namespace PackedInstr

/-- The branch of an instruction is its target. -/
theorem branch_eq_some {n : Nat} :
    x.branch = some n ↔ ∃ k : UInt32, x.operand = .target k ∧ n = k.toNat := by
  obtain ⟨op, o, hvalid, hs⟩ := x
  cases o with
  | target k =>
      simp [branch, ← hs, PackedOperand.shape, PackedOperand.number, eq_comm]
  | none | method k | field k | text k | slot k | int32 v | int64 v =>
      simp [branch, ← hs, PackedOperand.shape]

/-- A target is inside if it is below the count. -/
theorem inside_iff : x.operand.Inside count ↔ ∀ n ∈ x.branch, n < count := by
  constructor
  · intro h n hn
    obtain ⟨k, hk, rfl⟩ := branch_eq_some.mp hn
    rw [hk] at h
    exact h
  · intro h
    cases ho : x.operand with
    | target k => exact h _ (branch_eq_some.mpr ⟨k, ho, rfl⟩)
    | none | method k | field k | text k | slot k | int32 v | int64 v => trivial

/-- What is read from an instruction means in its place what the operand
does. -/
theorem ReadAs.means (h : ReadAs d slots x u) (hin : x.operand.Inside count)
    (first : Nat) (b : BodyId) : x.operand.Means d slots ((List.range count).map
      fun n => ⟨first + n⟩) (u.placed first b).operand := by
  rw [Unpacked.placed, h.branch]
  by_cases hs : x.operand.shape = .target
  · cases ho : x.operand with
    | target n =>
        rw [branch_eq_some.mpr ⟨n, ho, rfl⟩]
        rw [ho] at hin
        have hn : n.toNat < count := hin
        exact .target (by simp [hn])
    | none | method n | field n | text n | slot n | int32 v | int64 v =>
        rw [ho] at hs
        cases hs
  · rw [PackedInstr.branch, if_neg (x.shape_eq ▸ hs)]
    exact operandOf?_means (x.shape_eq ▸ h.operand) hs _

end PackedInstr

section

variable (h : List.Forall₂ (PackedInstr.ReadAs d slots) xs us)
include h

/-- All operands of code that has been read have been found. -/
theorem found_of_readAs : ∀ x ∈ xs, x.operand.Found d slots.size := by
  induction h with
  | nil => exact nofun
  | cons hu _ ih =>
      exact List.forall_mem_cons.mpr ⟨PackedInstr.readAs_found hu, ih⟩

/-- The branches that are read lead inside exactly if those of the packed
instructions do. -/
theorem inside_iff_of_readAs : (∀ u ∈ us, ∀ n ∈ u.branch, n < count) ↔
    ∀ x ∈ xs, x.operand.Inside count := by
  induction h with
  | nil => simp
  | cons hu _ ih =>
      rw [List.forall_mem_cons, List.forall_mem_cons, ih,
        PackedInstr.inside_iff, hu.branch]

end

/-- Code whose operands have all been found can be read. -/
theorem exists_forall₂_readAs (slots : Array Local)
    (h : ∀ x ∈ xs, x.operand.Found d slots.size) :
    ∃ us, List.Forall₂ (PackedInstr.ReadAs d slots) xs us := by
  induction xs with
  | nil => exact ⟨[], .nil⟩
  | cons x xs ih =>
      obtain ⟨hx, hxs⟩ := List.forall_mem_cons.mp h
      obtain ⟨u, hu⟩ := PackedInstr.exists_readAs hx
      obtain ⟨us, hus⟩ := ih hxs
      exact ⟨u :: us, .cons hu hus⟩

/-- Bytes spell code if they are read as it. -/
theorem spells_iff : Spells d s xs ↔ s.code = xs.flatMap PackedInstr.bytes ∧
    ∃ us, List.Forall₂ (PackedInstr.ReadAs d (numbered s.locals)) xs us ∧
    Inside us := by
  constructor
  · intro h
    obtain ⟨us, hus⟩ :=
      exists_forall₂_readAs (numbered s.locals) (by simpa using h.found)
    refine ⟨h.bytes, us, hus, (inside_iff_of_readAs hus).mpr ?_⟩
    rw [← hus.length_eq]
    exact h.inside
  · rintro ⟨hbytes, us, hus, hin⟩
    refine ⟨hbytes, by simpa using found_of_readAs hus, ?_⟩
    rw [hus.length_eq]
    exact (inside_iff_of_readAs hus).mp hin

/-- A stored body can be read exactly if its code is made of instructions. -/
theorem loadable_iff : Loadable d s ↔ ∃ xs, Spells d s xs := by
  constructor
  · rintro ⟨us, hus, hin⟩
    obtain ⟨xs, hbytes, hxs⟩ := PackedInstr.reads_iff.mp hus
    exact ⟨xs, spells_iff.mpr ⟨hbytes, us, hxs, hin⟩⟩
  · rintro ⟨xs, h⟩
    obtain ⟨hbytes, us, hxs, hin⟩ := spells_iff.mp h
    exact ⟨us, PackedInstr.reads_iff.mpr ⟨xs, hbytes, hxs⟩, hin⟩

/-- Bytes spell one code only. -/
theorem Spells.unique {ys : List PackedInstr} (h : Spells d s xs)
    (h' : Spells d s ys) : ys = xs :=
  PackedInstr.flatMap_bytes_injective (h'.bytes.symm.trans h.bytes)

/-- What is read from instructions says in its place what they do. -/
theorem says_placed {first : Nat} {m : Option MethodId}
    (hus : List.Forall₂ (PackedInstr.ReadAs d (numbered s.locals)) xs us)
    (hin : Inside us) (hbody : q.body b = s.placed first m us)
    (hinstr : ∀ n (hn : n < us.length), q.instr ⟨first + n⟩ =
      us[n].placed first b) : List.Forall₂ (Says d q b) xs (q.body b).code := by
  have hinside := (inside_iff_of_readAs hus).mp hin
  refine List.forall₂_iff_get.mpr
    ⟨by simp [hbody, StoredBody.placed, hus.length_eq], fun n hn hn' => ?_⟩
  have hlt : n < us.length := hus.length_eq ▸ hn
  have hread := hus.get hn hlt
  have hget : (q.body b).code.get ⟨n, hn'⟩ = ⟨first + n⟩ := by
    simp [hbody, StoredBody.placed]
  rw [hget]
  refine ⟨?_, ?_, ?_⟩
  · rw [hinstr n hlt]
    exact hread.op
  · rw [hinstr n hlt, hbody]
    exact hread.means (hinside _ (List.get_mem xs ⟨n, hn⟩)) first b
  · rw [hinstr n hlt]
    rfl

/-- What a stored body is read as consists of the instructions its code is made
of. -/
theorem unpacks_of_ok (hxs : Spells d s xs)
    (h : unpackBody d p s = .ok (b, q)) : Unpacks d p s xs b q := by
  obtain ⟨us, hus, -, rfl, rfl⟩ := unpackBody_ok_iff.mp h
  obtain ⟨hbytes, vs, hvs, hin⟩ := spells_iff.mp hxs
  obtain rfl := hus.unique (PackedInstr.reads_iff.mpr ⟨xs, hbytes, hvs⟩)
  generalize hq : ({ p with
    instrs := p.instrs ++
      (vs.map (Unpacked.placed p.instrs.size ⟨p.bodies.size⟩)).toArray
    bodies := p.bodies.push (s.placed p.instrs.size none vs) } : Program) = q
  have hbody : q.body ⟨p.bodies.size⟩ = s.placed p.instrs.size none vs := by
    rw [← hq]
    simp [Program.body]
  have hinstr : ∀ n (hn : n < vs.length), q.instr ⟨p.instrs.size + n⟩ =
      vs[n].placed p.instrs.size ⟨p.bodies.size⟩ := by
    intro n hn
    rw [← hq]
    simp [Program.instr, Array.getD_eq_getD_getElem?, hn]
  refine {
    grows := ?_
    methods := by rw [← hq]
    fresh := rfl
    instrs := says_placed hvs hin hbody hinstr
    nodup := ?_
    new := ?_
    locals := by rw [hbody]; rfl
    maxStack := by rw [hbody]; rfl
    initLocals := by rw [hbody]; rfl
    method := by rw [hbody]; rfl }
  · rw [← hq]
    refine ⟨?_, ?_, List.prefix_rfl, rfl⟩
    · rw [Array.toList_append]
      exact List.prefix_append _ _
    · rw [Array.toList_push]
      exact List.prefix_append _ _
  · rw [hbody]
    exact List.Nodup.map (fun m n h => by simpa using h) List.nodup_range
  · intro i hi
    rw [hbody] at hi
    obtain ⟨n, -, rfl⟩ := List.mem_map.mp hi
    exact Nat.le_add_right _ _

/-- **A body can be unpacked** if its bytes spell code. -/
theorem exists_unpackBody_iff :
    (∃ b q, unpackBody d p s = .ok (b, q)) ↔ ∃ xs, Spells d s xs := by
  rw [← loadable_iff]
  constructor
  · rintro ⟨b, q, h⟩
    obtain ⟨us, hus, hin, -, -⟩ := unpackBody_ok_iff.mp h
    exact ⟨us, hus, hin⟩
  · rintro ⟨us, hus, hin⟩
    exact ⟨_, _, unpackBody_ok_iff.mpr ⟨us, hus, hin, rfl, rfl⟩⟩

/-- The first branch of packed instructions that leads outside is the first of
those read. -/
theorem dangling_iff (hus : List.Forall₂ (PackedInstr.ReadAs d slots) xs us) :
    checkBranches us.length us = .error f ↔ ∃ (vs : List PackedInstr) (x :
      PackedInstr) (ws : List PackedInstr) (n : UInt32), xs = vs ++ x :: ws ∧
    (∀ v ∈ vs, v.operand.Inside xs.length) ∧
    x.operand = .target n ∧ xs.length ≤ n.toNat ∧ f =
    .failed [x.op.name ++ " to " ++ offsetLabel n.toNat] .danglingBranch := by
  rw [checkBranches_error_iff, hus.length_eq]
  constructor
  · rintro ⟨vs, u, ws, n, rfl, hvs, hu, hn, rfl⟩
    have htake := List.forall₂_take_append xs vs (u :: ws) hus
    have hdrop := List.forall₂_drop_append xs vs (u :: ws) hus
    obtain ⟨x, ys, hx, hys, hxs⟩ := List.forall₂_cons_right_iff.mp hdrop
    obtain ⟨k, hk, rfl⟩ :=
      PackedInstr.branch_eq_some.mp (hx.branch.symm.trans hu)
    refine ⟨xs.take vs.length, x, ys, k, ?_,
      (inside_iff_of_readAs htake).mp hvs, hk, hn, ?_⟩
    · rw [← hxs, List.take_append_drop]
    · rw [hx.op]
  · rintro ⟨vs, x, ws, n, rfl, hvs, hx, hn, rfl⟩
    have htake := List.forall₂_take_append us vs (x :: ws) hus.flip
    have hdrop := List.forall₂_drop_append us vs (x :: ws) hus.flip
    obtain ⟨u, ys, hu, hys, hxs⟩ := List.forall₂_cons_right_iff.mp hdrop
    refine ⟨us.take vs.length, u, ys, n.toNat, ?_,
      (inside_iff_of_readAs htake.flip).mpr hvs, ?_, hn, ?_⟩
    · rw [← hxs, List.take_append_drop]
    · rw [hu.branch]
      exact PackedInstr.branch_eq_some.mpr ⟨n, hx, rfl⟩
    · rw [hu.op]

/-- **A body is refused** for the first thing that is wrong with it. -/
theorem unpackBody_error_iff : unpackBody d p s = .error f ↔ Refused d s f := by
  have hread : unpackBody d p s = .error f ↔
      unpackCode d (numbered s.locals) 0 0 s.code = .error f ∨
      ∃ us, unpackCode d (numbered s.locals) 0 0 s.code = .ok us ∧
      checkBranches us.length us = .error f := by
    constructor
    · intro h
      rcases bind_error_iff.mp h with h | ⟨us, hus, h⟩
      · exact .inl h
      · rcases bind_error_iff.mp h with h | ⟨_, _, h⟩
        · exact .inr ⟨us, hus, h⟩
        · cases h
    · rintro (h | ⟨us, hus, h⟩)
      · exact bind_error_iff.mpr (.inl h)
      · exact bind_error_iff.mpr (.inr ⟨us, hus, bind_error_iff.mpr (.inl h)⟩)
  rw [hread, unpackCode_error_iff, size_numbered]
  constructor
  · rintro (⟨xs, rest, hbytes, hxs, h⟩ | ⟨us, hus, h⟩)
    · rw [Nat.zero_add, Nat.zero_add] at h
      exact .malformed hbytes hxs h
    · obtain ⟨xs, hbytes, hxs⟩ :=
        PackedInstr.reads_iff.mp (unpackCode_ok_iff.mp hus)
      obtain ⟨vs, x, ws, n, rfl, hvs, hx, hn, rfl⟩ := (dangling_iff hxs).mp h
      exact .dangling hbytes (by simpa using found_of_readAs hxs) hvs hx hn
  · intro h
    cases h with
    | malformed hbytes hxs h =>
        refine .inl ⟨_, _, hbytes, hxs, ?_⟩
        rw [Nat.zero_add, Nat.zero_add]
        exact h
    | @dangling xs ys x n hbytes hfound hin hx hn =>
        rw [← size_numbered] at hfound
        obtain ⟨us, hus⟩ := exists_forall₂_readAs (numbered s.locals) hfound
        refine .inr ⟨us, unpackCode_ok_iff.mpr
          (PackedInstr.reads_iff.mpr ⟨_, hbytes, hus⟩), ?_⟩
        exact (dangling_iff hus).mpr ⟨xs, x, ys, n, rfl, hin, hx, hn, rfl⟩

/-- **Reading accepts exactly the grammar.**  A stored body is read if and only
if its code is made of instructions, each an assigned opcode followed by an
operand of its shape, with indices inside their tables, slots among those
declared and branches inside the code.  The instructions are determined by the
bytes, even if nothing is known of their operands, and the body that is read
consists of them in their order.  Anything else is refused for the first place
where nothing can be read, and for a branch that leads outside only if
everything can be read. -/
theorem unpackBody_accepts_grammar (d : Document) (p : Program)
    (s : StoredBody) :
    ((∃ b q, unpackBody d p s = .ok (b, q)) ↔ ∃ xs, Spells d s xs) ∧
    (∀ xs ys : List PackedInstr, xs.flatMap PackedInstr.bytes =
      ys.flatMap PackedInstr.bytes ↔ xs = ys) ∧ (∀ b q xs,
        unpackBody d p s = .ok (b, q) ∧ Spells d s xs → Unpacks d p s xs b q) ∧
    ∀ f, unpackBody d p s = .error f ↔ Refused d s f :=
  ⟨exists_unpackBody_iff, fun _ _ => PackedInstr.flatMap_bytes_injective.eq_iff,
    fun _ _ _ h => unpacks_of_ok h.2 h.1, fun _ => unpackBody_error_iff⟩

end File

end Bytecode
