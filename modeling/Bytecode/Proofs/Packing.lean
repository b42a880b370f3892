import Mathlib
import Bytecode.File.Code

/-!
# Tables, packed code and the instructions it stands for

While bodies are written, strings and references are entered in tables, in which
equal entries share an index.  The three tables follow one rule, `entered`: an
element whose key is there already gets the index of that key, any other is put
at the end.  So tables only grow at the end, and an index that was given out
once leads to an element with the same key for good.  No key stands in a table
twice, which bounds the size of a table by the number of elements that there are
to enter.

Writing and reading meet half-way, in lists of unpacked instructions, which name
a branch by the offset it leads to and so do not depend on a program.  `Packs`
says which bytes such a list is packed as and how the tables grow on the way,
`Reads` which list is read from bytes.  `packCode_ok_iff` and
`unpackCode_ok_iff` say that these are what the two loops compute.  Main
statements: `Packs.reads`, packed code is read back as instructions that say the
same and that are packed as the same bytes again, and `Reads.packs`, what can be
read can be packed.
-/

namespace Bytecode.File

/-! ### The tables of a file -/

section Entered

variable {α κ : Type} {key : α → κ} {xs : Array α} {ys zs : List α} {a b : α}

/-- The elements of the table are among those of a list, and no two of them have
the same key. -/
structure Few (key : α → κ) (xs : Array α) (ys : List α) : Prop where
  nodup : (xs.toList.map key).Nodup
  subset : ∀ b ∈ xs, b ∈ ys

theorem Few.empty (key : α → κ) (ys : List α) : Few key #[] ys :=
  ⟨by simp, by simp⟩

/-- A table has no more elements than there are to enter. -/
theorem Few.size_le (h : Few key xs ys) : xs.size ≤ ys.length := by
  have hsub : xs.toList.Subperm ys :=
    List.subperm_of_subset (List.Nodup.of_map key h.nodup) fun b hb =>
      h.subset b (by simpa using hb)
  simpa using hsub.length_le

variable [DecidableEq κ]

/-- The index of an element in a table that tells elements apart by a key, and
the table with the element entered if its key is new. -/
def entered (key : α → κ) (xs : Array α) (a : α) : Nat × Array α :=
  match xs.findIdx? (key · = key a) with
  | some n => (n, xs)
  | none => (xs.size, xs.push a)

/-- A key that is there already keeps its place, a new one is put at the end. -/
theorem entered_cases (key : α → κ) (xs : Array α) (a : α) :
    (∃ n b, entered key xs a = (n, xs) ∧ xs[n]? = some b ∧ key b = key a) ∨
      (entered key xs a = (xs.size, xs.push a) ∧ ∀ b ∈ xs, key b ≠ key a) := by
  rw [entered]
  split
  · next n h =>
      obtain ⟨hn, hkey, -⟩ := Array.findIdx?_eq_some_iff_getElem.mp h
      exact .inl ⟨n, xs[n], rfl, Array.getElem?_eq_getElem hn,
        by simpa using hkey⟩
  · next h =>
      refine .inr ⟨rfl, fun b hb => ?_⟩
      simpa using Array.findIdx?_eq_none_iff.mp h b hb

/-- What counts of an element is its key. -/
theorem entered_congr (xs : Array α) (h : key b = key a) (hb : b ∈ xs) :
    entered key xs b = entered key xs a := by
  cases hfind : xs.findIdx? (key · = key a) with
  | none =>
      exact absurd h (by simpa using Array.findIdx?_eq_none_iff.mp hfind b hb)
  | some n => simp only [entered, h, hfind]

/-- What is entered is put at the end. -/
theorem entered_grows (key : α → κ) (xs : Array α) (a : α) :
    xs.toList <+: (entered key xs a).2.toList := by
  obtain ⟨n, b, h, -, -⟩ | ⟨h, -⟩ := entered_cases key xs a
  · rw [h]
  · rw [h, Array.toList_push]
    exact List.prefix_append _ _

/-- The index leads to an element with the same key, and entering that element
comes to the same. -/
theorem entered_found (key : α → κ) (xs : Array α) (a : α) :
    ∃ b, (entered key xs a).2[(entered key xs a).1]? = some b ∧ key b = key a ∧
      entered key xs b = entered key xs a := by
  obtain ⟨n, b, h, hb, hkey⟩ | ⟨h, -⟩ := entered_cases key xs a
  · refine ⟨b, by rw [h]; exact hb, hkey,
      entered_congr xs hkey (Array.mem_of_getElem? hb)⟩
  · exact ⟨a, by rw [h]; simp, rfl, rfl⟩

/-- A table stays among few entries if one of them is entered. -/
theorem Few.entered (h : Few key xs ys) (ha : a ∈ ys) :
    Few key (entered key xs a).2 ys := by
  obtain ⟨n, b, heq, -, -⟩ | ⟨heq, hnew⟩ := entered_cases key xs a
  · rw [heq]
    exact h
  · rw [heq]
    refine ⟨?_, fun b hb => ?_⟩
    · rw [Array.toList_push, List.map_append, List.nodup_append]
      refine ⟨h.nodup, by simp, ?_⟩
      intro k hk k' hk' hkk
      obtain ⟨b, hb, rfl⟩ := List.mem_map.mp hk
      obtain rfl : k' = key a := by simpa using hk'
      exact hnew b (by simpa using hb) hkk
    · rcases Array.mem_push.mp hb with hb | rfl
      · exact h.subset b hb
      · exact ha

end Entered

namespace Tables

/-- What one set of tables holds, the other holds at the same places. -/
structure Within (t t' : Tables) : Prop where
  strings : t.strings.toList <+: t'.strings.toList
  methods : t.methods.toList <+: t'.methods.toList
  fields : t.fields.toList <+: t'.fields.toList

variable {t t' t'' : Tables}

theorem Within.refl (t : Tables) : t.Within t :=
  ⟨List.prefix_rfl, List.prefix_rfl, List.prefix_rfl⟩

/-- Tables grow by one entry after the other. -/
theorem Within.trans (h : t.Within t') (h' : t'.Within t'') : t.Within t'' :=
  ⟨h.strings.trans h'.strings, h.methods.trans h'.methods,
    h.fields.trans h'.fields⟩

/-- A text is entered in the table of texts. -/
theorem string_eq (t : Tables) (s : String) :
    t.string s = ((entered id t.strings s).1,
      { t with strings := (entered id t.strings s).2 }) := by
  cases h : t.strings.findIdx? fun x => decide (x = s) with
  | none => simp only [string, entered, id, h]
  | some n => simp only [string, entered, id, h]

/-- A method is entered in the table of methods. -/
theorem method_eq (t : Tables) (r : MethodRef) :
    t.method r = ((entered MethodRef.text t.methods r).1,
      { t with methods := (entered MethodRef.text t.methods r).2 }) := by
  cases h : t.methods.findIdx? fun x => decide (x.text = r.text) with
  | none => simp only [method, entered, h]
  | some n => simp only [method, entered, h]

/-- A field is entered in the table of fields. -/
theorem field_eq (t : Tables) (r : FieldRef) :
    t.field r = ((entered FieldRef.text t.fields r).1,
      { t with fields := (entered FieldRef.text t.fields r).2 }) := by
  cases h : t.fields.findIdx? fun x => decide (x.text = r.text) with
  | none => simp only [field, entered, h]
  | some n => simp only [field, entered, h]

variable {n : Nat} {r r' : MethodRef} {f f' : FieldRef} {s : String}

/-- Entering a text only adds to the tables. -/
theorem within_string (h : t.string s = (n, t')) : t.Within t' := by
  rw [string_eq] at h
  cases h
  exact ⟨entered_grows _ _ _, List.prefix_rfl, List.prefix_rfl⟩

/-- Entering a method only adds to the tables. -/
theorem within_method (h : t.method r = (n, t')) : t.Within t' := by
  rw [method_eq] at h
  cases h
  exact ⟨List.prefix_rfl, entered_grows _ _ _, List.prefix_rfl⟩

/-- Entering a field only adds to the tables. -/
theorem within_field (h : t.field f = (n, t')) : t.Within t' := by
  rw [field_eq] at h
  cases h
  exact ⟨List.prefix_rfl, List.prefix_rfl, entered_grows _ _ _⟩

end Tables

/-- The tables of a document. -/
def Document.tables (d : Document) : Tables :=
  ⟨d.strings.toArray, d.methods.toArray, d.fields.toArray⟩

section Found

variable {d : Document} {t t' : Tables} {n : Nat}

/-- An index into a table that is part of a longer one leads to the same element
there. -/
theorem getElem?_of_grown {α : Type} {xs : Array α} {ys : List α} {a : α}
    (h : xs.toList <+: ys) (ha : xs[n]? = some a) : ys[n]? = some a := by
  obtain ⟨hn, rfl⟩ := Array.getElem?_eq_some_iff.mp ha
  have hlen : n < ys.length := by
    have := h.length_le
    simp only [Array.length_toList] at this
    omega
  rw [List.getElem?_eq_getElem hlen, ← h.getElem (by simpa using hn),
    Array.getElem_toList]

/-- A string that has been entered is read back. -/
theorem string_found {s : String} (h : t.string s = (n, t'))
    (hw : t'.Within d.tables) : d.strings[n]? = some s := by
  obtain ⟨s', hs, rfl, -⟩ := entered_found id t.strings s
  rw [Tables.string_eq] at h
  cases h
  exact getElem?_of_grown hw.strings hs

/-- The entry found for a method reference has the same text and stands for it
from then on. -/
theorem method_found {r : MethodRef} (h : t.method r = (n, t'))
    (hw : t'.Within d.tables) : ∃ r', d.methods[n]? = some r' ∧
      r'.text = r.text ∧ t.method r' = (n, t') := by
  obtain ⟨r', hr, htext, hsame⟩ := entered_found MethodRef.text t.methods r
  rw [Tables.method_eq] at h
  cases h
  exact ⟨r', getElem?_of_grown hw.methods hr, htext,
    by rw [Tables.method_eq, hsame]⟩

/-- The entry found for a field reference has the same text and stands for it
from then on. -/
theorem field_found {r : FieldRef} (h : t.field r = (n, t'))
    (hw : t'.Within d.tables) :
    ∃ r', d.fields[n]? = some r' ∧ r'.text = r.text ∧ t.field r' = (n, t') := by
  obtain ⟨r', hr, htext, hsame⟩ := entered_found FieldRef.text t.fields r
  rw [Tables.field_eq] at h
  cases h
  exact ⟨r', getElem?_of_grown hw.fields hr, htext,
    by rw [Tables.field_eq, hsame]⟩

end Found

end Bytecode.File

namespace Bytecode

section Failure

variable {α β : Type} {x : Except Fault α} {a : α}

/-- Two steps succeed if both of them do. -/
theorem bind_ok_iff {f : α → Except Fault β} {r : β} :
    x >>= f = .ok r ↔ ∃ a, x = .ok a ∧ f a = .ok r := by
  cases x with
  | error e => simp [bind, Except.bind]
  | ok a => simp [bind, Except.bind]

/-- A success does not tell what it has been part of. -/
@[simp] theorem Fault.during_ok_iff {c : String} :
    Fault.during c x = .ok a ↔ x = .ok a := by
  cases x with
  | error e => simp [during, Except.mapError]
  | ok a => simp [during, Except.mapError]

end Failure

namespace Bytes

/-- A number is as large as its bytes allow. -/
theorem ofLittle_lt (bytes : List UInt8) :
    ofLittle bytes < capacity bytes.length := by
  induction bytes with
  | nil => simp [ofLittle, capacity]
  | cons b bytes ih =>
      have hb := b.toNat_lt
      simp only [ofLittle, List.length_cons, capacity]
      omega

end Bytes

namespace File

/-! ### What an instruction says -/

/-- The slots that types and names declare, numbered in order. -/
def numbered (slots : List (String × String)) : Array Local :=
  (slots.zipIdx.map fun ((type, name), n) => (⟨n, type, name⟩ : Local)).toArray

/-- Slots are numbered by their places. -/
theorem numbered_getElem? (slots : List (String × String)) (n : Nat) :
    (numbered slots)[n]? = slots[n]?.map fun x => ⟨n, x.1, x.2⟩ := by
  simp [numbered, List.getElem?_zipIdx, Function.comp_def]

/-- Numbering slots keeps their types and names. -/
theorem map_numbered (slots : List (String × String)) :
    ((numbered slots).toList.map fun l => (l.type, l.name)) = slots := by
  refine List.ext_getElem? fun n => ?_
  rw [List.getElem?_map, Array.getElem?_toList, numbered_getElem?,
    Option.map_map]
  cases slots[n]? with
  | none => rfl
  | some x => rfl

/-- An instruction of body `b`, its branch given by the offset it leads to. -/
def Unpacked.ofInstr (b : Body) (x : Instr) : Unpacked where
  op := x.op
  operand := if x.op.shape = .target then .absent else x.operand
  branch := if x.op.shape = .target then x.target?.bind fun i => b.code.idxOf? i
    else none

/-- What an operand says that is read back as `o'`, in a body with the given
slots.  References count by their text alone, slots by their number. -/
def SameOperand (slots : Array Local) : Shape → Operand → Operand → Prop
  | .none, _, _ | .target, _, _ => True
  | .method, o, o' => ∃ r r', o = .method r ∧ o' = .method r' ∧ r'.text = r.text
  | .field, o, o' => ∃ r r', o = .field r ∧ o' = .field r' ∧ r'.text = r.text
  | .slot, o, o' => ∃ l l' n, o = .slot l ∧ o' = .slot l' ∧
      l.index = (n : Nat) ∧ l'.index = (n : Nat) ∧ slots[n]? = some l'
  | .int32, o, o' => ∃ v, o = .int32 v ∧ o' = .int32 v
  | .int64, o, o' => ∃ v, o = .int64 v ∧ o' = .int64 v
  | .text, o, o' => ∃ s, o = .text s ∧ o' = .text s

/-- The unpacked instruction `u'` says what `u` does, in a body with the given
slots. -/
structure SameUnpacked (slots : Array Local) (u u' : Unpacked) : Prop where
  op : u'.op = u.op
  branch : u.op.shape = .target → ∃ n, u.branch = some n ∧ u'.branch = some n
  operand : SameOperand slots u.op.shape u.operand u'.operand

/-! ### Writing -/

/-- The number that an instruction is packed with, and the tables afterwards. -/
inductive Numbers (b : Body) (t : Tables) (u : Unpacked) (n : Nat) :
    Tables → Prop
  | none : u.op.shape = .none → n = 0 → Numbers b t u n t
  | target : u.op.shape = .target → u.branch = some n → Numbers b t u n t
  | method {r : MethodRef} {t' : Tables} : u.op.shape = .method →
    u.operand = .method r → t.method r = (n, t') → Numbers b t u n t'
  | field {r : FieldRef} {t' : Tables} : u.op.shape = .field →
    u.operand = .field r → t.field r = (n, t') → Numbers b t u n t'
  | text {s : String} {t' : Tables} : u.op.shape = .text → u.operand = .text s →
      t.string s = (n, t') → Numbers b t u n t'
  | slot {l : Local} : u.op.shape = .slot → u.operand = .slot l → l.index = n →
    n ≤ 0xffff → b.locals[n]?.isSome → Numbers b t u n t
  | int32 {v : Int32} : u.op.shape = .int32 → u.operand = .int32 v →
    n = v.toUInt32.toNat → Numbers b t u n t
  | int64 {v : Int64} : u.op.shape = .int64 → u.operand = .int64 v →
    n = v.toUInt64.toNat → Numbers b t u n t

variable {b b' : Body} {t t' : Tables} {u u' : Unpacked}
  {us us' : List Unpacked} {n pc : Nat} {x : Instr} {p : Program} {d : Document}
  {bytes : List UInt8} {o : Operand}

/-- An instruction is unpacked with its opcode. -/
@[simp] theorem Unpacked.op_ofInstr : (ofInstr b x).op = x.op := rfl

/-- An operand that is no target is unpacked as it is. -/
theorem Unpacked.operand_ofInstr (h : x.op.shape ≠ .target) :
    (ofInstr b x).operand = x.operand := by
  simp only [ofInstr, if_neg h]

/-- A target is unpacked as its place in the code. -/
theorem Unpacked.branch_ofInstr (h : x.op.shape = .target) :
    (ofInstr b x).branch = x.target?.bind fun i => b.code.idxOf? i := by
  simp only [ofInstr, if_pos h]

/-- A slot fits if its number is that of a local, in two bytes. -/
theorem slot_ok_iff {l : Local} :
    (l.index ≤ 0xffff && (b.localAt? l.index).isSome) = true ↔
      ∃ n : Nat, l.index = n ∧ n ≤ 0xffff ∧ b.locals[n]?.isSome := by
  rw [Bool.and_eq_true, decide_eq_true_eq, Option.isSome_iff_exists]
  constructor
  · rintro ⟨hle, l', hl'⟩
    obtain ⟨n, hn, hslot⟩ := Body.localAt?_eq_some.mp hl'
    exact ⟨n, hn, by omega, by rw [hslot]; rfl⟩
  · rintro ⟨n, hn, hle, hsome⟩
    obtain ⟨l', hslot⟩ := Option.isSome_iff_exists.mp hsome
    exact ⟨by omega, l', Body.localAt?_eq_some.mpr ⟨n, hn, hslot⟩⟩

/-- **Packing an operand** succeeds if it has a number. -/
theorem packOperand_ok_iff :
    packOperand b t pc x = .ok (n, t') ↔ Numbers b t (.ofInstr b x) n t' := by
  have hoperand : ∀ {s : Shape}, x.op.shape = s → s ≠ .target →
      (Unpacked.ofInstr b x).operand = x.operand :=
    fun hs hne => Unpacked.operand_ofInstr (hs ▸ hne)
  constructor
  · intro h
    rw [packOperand] at h
    split at h
    · next hs =>
        cases h
        exact .none hs rfl
    · next hs =>
        split at h
        · next hn =>
            cases h
            exact .target hs ((Unpacked.branch_ofInstr hs).trans hn)
        · cases h
    · next hs =>
        split at h
        · next ho => exact .method hs ((hoperand hs
            (by decide)).trans ho) (Except.ok.inj h)
        · cases h
    · next hs =>
        split at h
        · next ho => exact .field hs ((hoperand hs
            (by decide)).trans ho) (Except.ok.inj h)
        · cases h
    · next hs =>
        split at h
        · next ho => exact .text hs ((hoperand hs
            (by decide)).trans ho) (Except.ok.inj h)
        · cases h
    · next hs =>
        split at h
        · next ho =>
            split at h
            · next hl =>
                obtain ⟨n, hn, hle, hsome⟩ := slot_ok_iff.mp hl
                rw [hn] at h
                cases h
                exact .slot hs ((hoperand hs (by decide)).trans ho) hn hle hsome
            · cases h
        · cases h
    · next hs =>
        split at h
        · next ho =>
            cases h
            exact .int32 hs ((hoperand hs (by decide)).trans ho) rfl
        · cases h
    · next hs =>
        split at h
        · next ho =>
            cases h
            exact .int64 hs ((hoperand hs (by decide)).trans ho) rfl
        · cases h
  · intro h
    cases h with
    | none hs hn =>
        rw [Unpacked.op_ofInstr] at hs
        simp only [packOperand, hs, hn]
    | target hs hn =>
        rw [Unpacked.branch_ofInstr hs] at hn
        rw [Unpacked.op_ofInstr] at hs
        simp only [packOperand, hs, hn]
    | method hs ho hr =>
        rw [hoperand hs (by decide)] at ho
        rw [Unpacked.op_ofInstr] at hs
        simp only [packOperand, hs, ho, hr]
    | field hs ho hr =>
        rw [hoperand hs (by decide)] at ho
        rw [Unpacked.op_ofInstr] at hs
        simp only [packOperand, hs, ho, hr]
    | text hs ho hs' =>
        rw [hoperand hs (by decide)] at ho
        rw [Unpacked.op_ofInstr] at hs
        simp only [packOperand, hs, ho, hs']
    | slot hs ho hn hle hsome =>
        rw [hoperand hs (by decide)] at ho
        rw [Unpacked.op_ofInstr] at hs
        simp only [packOperand, hs, ho]
        rw [if_pos (slot_ok_iff.mpr ⟨n, hn, hle, hsome⟩), hn, Int.toNat_natCast]
    | int32 hs ho hn =>
        rw [hoperand hs (by decide)] at ho
        rw [Unpacked.op_ofInstr] at hs
        simp only [packOperand, hs, ho, hn]
    | int64 hs ho hn =>
        rw [hoperand hs (by decide)] at ho
        rw [Unpacked.op_ofInstr] at hs
        simp only [packOperand, hs, ho, hn]

/-- The bytes that unpacked instructions are packed as, and the tables
afterwards. -/
inductive Packs (b : Body) : Tables → List Unpacked → List UInt8 → Tables → Prop
  | nil {t : Tables} : Packs b t [] [] t
  | cons {t t' t'' : Tables} {u : Unpacked} {us : List Unpacked} {n : Nat}
    {bytes : List UInt8} : u.op.isValid = true → Numbers b t u n t' →
    Packs b t' us bytes t'' → Packs b t (u :: us)
    (u.op.byte :: (Bytes.little (operandWidth u.op.shape) n ++ bytes)) t''

/-- **Packing an instruction** succeeds if its operand has a number. -/
theorem packInstr_ok_iff :
    packInstr b t pc x = .ok (bytes, t') ↔ x.op.isValid = true ∧ ∃ n,
      Numbers b t (.ofInstr b x) n t' ∧
      bytes = x.op.byte :: Bytes.little (operandWidth x.op.shape) n := by
  rw [packInstr]
  cases hop : x.op.isValid with
  | false => simp
  | true =>
      simp only [Bool.not_true, Bool.false_eq_true, if_false, bind_ok_iff,
        Prod.exists, packOperand_ok_iff, true_and]
      constructor
      · rintro ⟨n, t'', hn, h⟩
        cases h
        exact ⟨n, hn, rfl⟩
      · rintro ⟨n, hn, rfl⟩
        exact ⟨n, t', hn, rfl⟩

/-- The loop packs the instructions it is given, behind what it has already. -/
theorem packCode_ok_iff {ids : List InstrId} {done : List (List UInt8)}
    {out : List UInt8} : packCode p b pc ids t done = .ok (out, t') ↔
    ∃ bytes, Packs b t (ids.map fun i => .ofInstr b (p.instr i)) bytes t' ∧
    out = done.reverse.flatten ++ bytes := by
  induction ids generalizing pc t done with
  | nil =>
      simp only [packCode, Except.ok.injEq, Prod.mk.injEq, List.map_nil]
      constructor
      · rintro ⟨rfl, rfl⟩
        exact ⟨[], .nil, by simp⟩
      · rintro ⟨bytes, h, rfl⟩
        cases h
        simp
  | cons i ids ih =>
      simp only [packCode, bind_ok_iff, Prod.exists, packInstr_ok_iff, ih,
        List.map_cons, List.reverse_cons, List.flatten_append,
        List.flatten_singleton, List.append_assoc]
      constructor
      · rintro ⟨front, t₁, ⟨hop, n, hn, rfl⟩, bytes, hrest, rfl⟩
        exact ⟨_, .cons hop hn hrest, rfl⟩
      · rintro ⟨bytes, h, rfl⟩
        cases h with
        | cons hop hn hrest => exact ⟨_, _, ⟨hop, _, hn, rfl⟩, _, hrest, rfl⟩

/-- The number of a target is its place in the code. -/
theorem Numbers.branch (h : Numbers b t u n t') (hs : u.op.shape = .target) :
    u.branch = some n := by
  cases h with
  | target _ hn => exact hn
  | none hs' | method hs' | field hs' | text hs' | slot hs' | int32 hs'
      | int64 hs' =>
      exact absurd (hs'.symm.trans hs) nofun

/-- Finding numbers only adds to the tables. -/
theorem Numbers.within (h : Numbers b t u n t') : t.Within t' := by
  cases h with
  | method _ _ h => exact Tables.within_method h
  | field _ _ h => exact Tables.within_field h
  | text _ _ h => exact Tables.within_string h
  | _ => exact .refl t

/-- Packing code only adds to the tables. -/
theorem Packs.within (h : Packs b t us bytes t') : t.Within t' := by
  induction h with
  | nil => exact .refl _
  | cons _ hn _ ih => exact hn.within.trans ih

/-! ### What can be written -/

/-- The operand is one for opcodes of the shape, in a body with the slots of
`b`. -/
inductive Suits (b : Body) : Shape → Operand → Prop
  | none {o : Operand} : Suits b .none o
  | target {o : Operand} : Suits b .target o
  | method {r : MethodRef} : Suits b .method (.method r)
  | field {r : FieldRef} : Suits b .field (.field r)
  | text {s : String} : Suits b .text (.text s)
  | slot {l : Local} : (b.localAt? l.index).isSome → Suits b .slot (.slot l)
  | int32 {v : Int32} : Suits b .int32 (.int32 v)
  | int64 {v : Int64} : Suits b .int64 (.int64 v)

/-- If the operand is a slot, its number has 16 bits. -/
def ShortSlot (x : Opcode × Operand) : Prop :=
  x.1.shape = .slot → ∀ l ∈ x.2.slot?, l.index ≤ 0xffff

instance (x : Opcode × Operand) : Decidable (ShortSlot x) :=
  inferInstanceAs (Decidable (_ → ∀ l ∈ x.2.slot?, _))

/-- What suits can be packed, whatever the tables hold already. -/
theorem numbers_of_suits (hsuits : Suits b u.op.shape u.operand)
    (hbranch : u.op.shape = .target → u.branch.isSome)
    (hshort : ShortSlot (u.op, u.operand)) (t : Tables) :
    ∃ n t', Numbers b t u n t' := by
  rw [ShortSlot] at hshort
  generalize hs : u.op.shape = s at hsuits hbranch hshort
  generalize ho : u.operand = o at hsuits hshort
  cases hsuits with
  | none => exact ⟨0, t, .none hs rfl⟩
  | target =>
      obtain ⟨n, hn⟩ := Option.isSome_iff_exists.mp (hbranch rfl)
      exact ⟨n, t, .target hs hn⟩
  | method => exact ⟨_, _, .method hs ho rfl⟩
  | field => exact ⟨_, _, .field hs ho rfl⟩
  | text => exact ⟨_, _, .text hs ho rfl⟩
  | @slot l hl =>
      obtain ⟨l', hl'⟩ := Option.isSome_iff_exists.mp hl
      obtain ⟨n, hn, hslot⟩ := Body.localAt?_eq_some.mp hl'
      have hle := hshort rfl l rfl
      exact ⟨n, t, .slot hs ho hn (by omega) (by rw [hslot]; rfl)⟩
  | int32 => exact ⟨_, t, .int32 hs ho rfl⟩
  | int64 => exact ⟨_, t, .int64 hs ho rfl⟩

/-- Code can be packed if each of its operands has a number. -/
theorem Packs.exists
    (h : ∀ u ∈ us, u.op.isValid = true ∧ ∀ t, ∃ n t', Numbers b t u n t')
    (t : Tables) : ∃ bytes t', Packs b t us bytes t' := by
  induction us generalizing t with
  | nil => exact ⟨[], t, .nil⟩
  | cons u us ih =>
      obtain ⟨hvalid, hnumbers⟩ := h u List.mem_cons_self
      obtain ⟨n, t₁, hn⟩ := hnumbers t
      obtain ⟨bytes, t', hrest⟩ :=
        ih (fun u hu => h u (List.mem_cons_of_mem _ hu)) t₁
      exact ⟨_, t', .cons hvalid hn hrest⟩

/-- Every instruction that has been packed has been given a number. -/
theorem Packs.each (h : Packs b t us bytes t') :
    ∀ u ∈ us, ∃ t n t', Numbers b t u n t' := by
  induction h with
  | nil => exact nofun
  | cons _ hn _ ih =>
      intro u hu
      rcases List.mem_cons.mp hu with rfl | hu
      · exact ⟨_, _, _, hn⟩
      · exact ih u hu

/-! ### Reading -/

/-- The operand that a number stands for. -/
def operandOf? (d : Document) (slots : Array Local) (n : Nat) :
    Shape → Option Operand
  | .none | .target => some .absent
  | .method => d.methods[n]?.map .method
  | .field => d.fields[n]?.map .field
  | .text => d.strings[n]?.map .text
  | .slot => slots[n]?.map .slot
  | .int32 => some (.int32 n.toUInt32.toInt32)
  | .int64 => some (.int64 n.toUInt64.toInt64)

/-- An entry is found if there is one. -/
private theorem entry_ok_iff {α : Type} {a? : Option α} {f : α → Operand}
    {e : Fault} : (match a? with
      | some a => .ok (f a)
      | none => .error e : Except Fault Operand) = .ok o ↔
          a?.map f = some o := by
  cases a? with
  | none => simp
  | some a => simp

/-- **Unpacking an operand** succeeds if its number stands for one. -/
theorem unpackOperand_ok_iff {slots : Array Local} {op : Opcode} :
    unpackOperand d slots op pc n = .ok o ↔
    operandOf? d slots n op.shape = some o := by
  rw [unpackOperand]
  cases op.shape with
  | method | field | text | slot => exact entry_ok_iff
  | _ => simp [operandOf?]

/-- The unpacked instructions that are read from bytes, in a body with the given
slots. -/
inductive Reads (d : Document) (slots : Array Local) :
    List UInt8 → List Unpacked → Prop
  | nil : Reads d slots [] []
  | cons
    {op : Opcode} {o : Operand} {front rest : List UInt8} {us : List Unpacked} :
    op.isValid = true → front.length = operandWidth op.shape →
    operandOf? d slots (Bytes.ofLittle front) op.shape = some o →
    Reads d slots rest us → Reads d slots (op.byte :: (front ++ rest)) (⟨op, o,
      if op.shape = .target then some (Bytes.ofLittle front) else none⟩ :: us)

/-- **Unpacking code** succeeds if the bytes can be read. -/
theorem unpackCode_ok_iff {slots : Array Local} {start : Nat} :
    unpackCode d slots start pc bytes = .ok us ↔ Reads d slots bytes us := by
  constructor
  · intro h
    fun_induction unpackCode d slots start pc bytes generalizing us with
    | case1 =>
        cases h
        exact .nil
    | case2 => cases h
    | case3 => cases h
    | case4 _ _ byte rest op hop width front hlen =>
        rename_i ih
        simp only [bind_ok_iff, pure, Except.pure] at h
        obtain ⟨o, ho, others, hothers, h⟩ := h
        cases h
        have hrest : rest = front ++ rest.drop width :=
          (List.take_append_drop width rest).symm
        have hwidth : front.length = width := by
          have : front.length ≤ width := List.length_take_le width rest
          omega
        rw [hrest]
        exact .cons (by simpa using hop) hwidth (unpackOperand_ok_iff.mp ho)
          (ih hothers)
  · intro h
    induction h generalizing start pc with
    | nil => rw [unpackCode]
    | @cons op o front rest us hop hlen ho _ ih =>
        rw [unpackCode]
        simp only [hop, Bool.not_true, Bool.false_eq_true, if_false,
          List.take_left' hlen, hlen, Nat.lt_irrefl,
          List.drop_left' hlen, bind_ok_iff, unpackOperand_ok_iff]
        exact ⟨o, ho, us, ih, rfl⟩

/-- Bytes are read in one way only. -/
theorem Reads.unique {slots : Array Local} (h : Reads d slots bytes us)
    (h' : Reads d slots bytes us') : us' = us := by
  have hread : unpackCode d slots 0 0 bytes = .ok us := unpackCode_ok_iff.mpr h
  have hread' : unpackCode d slots 0 0 bytes = .ok us' :=
    unpackCode_ok_iff.mpr h'
  exact Except.ok.inj (hread'.symm.trans hread)

/-! ### Reading what was written -/

/-- No table of the document has more entries than a 32-bit index can tell
apart. -/
structure Document.Indexable (d : Document) : Prop where
  strings : d.strings.length ≤ Word.size32
  methods : d.methods.length ≤ Word.size32
  fields : d.fields.length ≤ Word.size32

/-- A branch offset, if there is one, fits in 32 bits. -/
def Unpacked.Near (u : Unpacked) : Prop := ∀ n ∈ u.branch, n < Word.size32

theorem lt_of_getElem? {α : Type} {xs : List α} {a : α} {m : Nat}
    (h : xs[n]? = some a) (hm : xs.length ≤ m) : n < m := by
  obtain ⟨hn, -⟩ := List.getElem?_eq_some_iff.mp h
  omega

/-- The number of an instruction fits the width of its operand, and it stands
for an operand that says the same and is packed with the same number again. -/
theorem Numbers.reads (h : Numbers b t u n t') (hw : t'.Within d.tables)
    (hd : d.Indexable) (hu : u.Near) (hb : b'.locals = numbered
      (b.locals.toList.map fun l => (l.type, l.name))) :
    n < Bytes.capacity (operandWidth u.op.shape) ∧
    ∃ o, operandOf? d b'.locals n u.op.shape = some o ∧
    SameOperand b'.locals u.op.shape u.operand o ∧ Numbers b' t ⟨u.op, o,
      if u.op.shape = .target then some n else Option.none⟩ n t' := by
  cases h with
  | none hs hn =>
      rw [hs, hn]
      exact ⟨by decide, .absent, rfl, trivial, .none hs rfl⟩
  | target hs hn =>
      rw [hs]
      exact ⟨hu n hn, .absent, rfl, trivial, .target hs rfl⟩
  | method hs ho hr =>
      obtain ⟨r', hfound, htext, hsame⟩ := method_found hr hw
      rw [hs]
      refine ⟨lt_of_getElem? hfound hd.methods, .method r', ?_,
        ⟨_, r', ho, rfl, htext⟩, .method hs rfl hsame⟩
      simp only [operandOf?, hfound, Option.map_some]
  | field hs ho hr =>
      obtain ⟨r', hfound, htext, hsame⟩ := field_found hr hw
      rw [hs]
      refine ⟨lt_of_getElem? hfound hd.fields, .field r', ?_,
        ⟨_, r', ho, rfl, htext⟩, .field hs rfl hsame⟩
      simp only [operandOf?, hfound, Option.map_some]
  | text hs ho hr =>
      have hfound := string_found hr hw
      rw [hs]
      refine ⟨lt_of_getElem? hfound hd.strings, .text _, ?_, ⟨_, ho, rfl⟩,
        .text hs rfl hr⟩
      simp only [operandOf?, hfound, Option.map_some]
  | slot hs ho hn hle hsome =>
      obtain ⟨l, hl⟩ := Option.isSome_iff_exists.mp hsome
      have hslot : b'.locals[n]? = some ⟨n, l.type, l.name⟩ := by
        rw [hb, numbered_getElem?, List.getElem?_map, Array.getElem?_toList, hl]
        rfl
      rw [hs]
      refine ⟨by simp only [operandWidth, Bytes.capacity]; omega, .slot _, ?_,
        ⟨_, _, n, ho, rfl, hn, rfl, hslot⟩,
        .slot hs rfl rfl hle (by rw [hslot]; rfl)⟩
      simp only [operandOf?, hslot, Option.map_some]
  | int32 hs ho hn =>
      rw [hs, hn]
      refine ⟨UInt32.toNat_lt _, .int32 _, rfl, ⟨_, ho, ?_⟩, .int32 hs rfl ?_⟩
      · simp
      · simp
  | int64 hs ho hn =>
      rw [hs, hn]
      refine ⟨UInt64.toNat_lt _, .int64 _, rfl, ⟨_, ho, ?_⟩, .int64 hs rfl ?_⟩
      · simp
      · simp

/-- **Packed code is read back.**  The instructions that are read say what the
packed ones do, and they are packed as the same bytes, the tables growing as
before. -/
theorem Packs.reads (h : Packs b t us bytes t') (hw : t'.Within d.tables)
    (hd : d.Indexable) (hus : ∀ u ∈ us, u.Near) (hb : b'.locals = numbered
      (b.locals.toList.map fun l => (l.type, l.name))) :
    ∃ us', Reads d b'.locals bytes us' ∧
      List.Forall₂ (SameUnpacked b'.locals) us us' ∧
      Packs b' t us' bytes t' := by
  induction h with
  | nil => exact ⟨[], .nil, .nil, .nil⟩
  | @cons t t₁ t' u us n bytes hop hn hrest ih =>
      obtain ⟨us', hreads, hsame, hpacks⟩ :=
        ih hw fun u hu => hus u (List.mem_cons_of_mem _ hu)
      obtain ⟨hfits, o, ho, hsameo, hnumbers⟩ :=
        hn.reads (hrest.within.trans hw) hd (hus u List.mem_cons_self) hb
      have hback := Bytes.ofLittle_little hfits
      refine ⟨⟨u.op, o, if u.op.shape = .target then some n else none⟩ :: us',
        ?_, ?_, ?_⟩
      · have := Reads.cons hop (Bytes.length_little _ n)
          (by rw [hback]; exact ho) hreads
        rwa [hback] at this
      · exact .cons ⟨rfl, fun hs => ⟨n, hn.branch hs, if_pos hs⟩, hsameo⟩ hsame
      · exact .cons hop hnumbers hpacks

/-! ### Writing what was read -/

/-- The references and strings of an instruction have indices of 32 bits in the
tables of a document. -/
structure Unpacked.From (d : Document) (u : Unpacked) : Prop where
  strings : ∀ s, u.operand = .text s → s ∈ d.strings.take Word.size32
  methods : ∀ r, u.operand = .method r → r ∈ d.methods.take Word.size32
  fields : ∀ r, u.operand = .field r → r ∈ d.fields.take Word.size32

/-- The entries of tables are some that have indices of 32 bits in the tables of
a document. -/
structure Tables.FewOf (d : Document) (t : Tables) : Prop where
  strings : Few id t.strings (d.strings.take Word.size32)
  methods : Few MethodRef.text t.methods (d.methods.take Word.size32)
  fields : Few FieldRef.text t.fields (d.fields.take Word.size32)

/-- Empty tables have few entries. -/
theorem Tables.FewOf.empty (d : Document) : FewOf d {} :=
  ⟨Few.empty _ _, Few.empty _ _, Few.empty _ _⟩

/-- The numbers of known operands add known entries only. -/
theorem Numbers.fewOf (h : Numbers b t u n t') (hu : u.From d)
    (ht : t.FewOf d) : t'.FewOf d := by
  cases h with
  | method _ ho hr =>
      rw [Tables.method_eq] at hr
      cases hr
      exact ⟨ht.strings, ht.methods.entered (hu.methods _ ho), ht.fields⟩
  | field _ ho hr =>
      rw [Tables.field_eq] at hr
      cases hr
      exact ⟨ht.strings, ht.methods, ht.fields.entered (hu.fields _ ho)⟩
  | text _ ho hr =>
      rw [Tables.string_eq] at hr
      cases hr
      exact ⟨ht.strings.entered (hu.strings _ ho), ht.methods, ht.fields⟩
  | _ => exact ht

/-- Packing known code adds known entries only. -/
theorem Packs.fewOf (h : Packs b t us bytes t') (hus : ∀ u ∈ us, u.From d)
    (ht : t.FewOf d) : t'.FewOf d := by
  induction h with
  | nil => exact ht
  | cons _ hn _ ih =>
      exact ih (fun u hu => hus u (List.mem_cons_of_mem _ hu))
        (hn.fewOf (hus _ List.mem_cons_self) ht)

/-- What an instruction is like that has been read: a branch has an offset and
no operand, anything else has no offset. -/
structure Unpacked.Tidy (u : Unpacked) : Prop where
  branch : u.op.shape = .target → u.operand = .absent ∧ u.branch.isSome
  other : u.op.shape ≠ .target → u.branch = none

theorem mem_take_of_getElem? {α : Type} {xs : List α} {a : α} {m : Nat}
    (h : xs[n]? = some a) (hn : n < m) : a ∈ xs.take m := by
  rw [← List.getElem?_take_of_lt hn] at h
  exact List.mem_of_getElem? h

section

variable {slots : Array Local} {op : Opcode} {front : List UInt8}

/-- An operand that is unpacked comes from the document. -/
theorem operandOf?_from (ho : operandOf? d slots n op.shape = some o)
    (hn : n < Bytes.capacity (operandWidth op.shape)) (branch : Option Nat) :
    Unpacked.From d ⟨op, o, branch⟩ := by
  cases hs : op.shape with
  | method =>
      rw [hs] at ho hn
      obtain ⟨r, hr, rfl⟩ := Option.map_eq_some_iff.mp ho
      exact ⟨nofun, fun _ h => by cases h; exact mem_take_of_getElem? hr hn,
        nofun⟩
  | field =>
      rw [hs] at ho hn
      obtain ⟨r, hr, rfl⟩ := Option.map_eq_some_iff.mp ho
      exact ⟨nofun, nofun,
        fun _ h => by cases h; exact mem_take_of_getElem? hr hn⟩
  | text =>
      rw [hs] at ho hn
      obtain ⟨s, hr, rfl⟩ := Option.map_eq_some_iff.mp ho
      exact ⟨fun _ h => by cases h; exact mem_take_of_getElem? hr hn,
        nofun, nofun⟩
  | slot =>
      rw [hs] at ho
      obtain ⟨l, -, rfl⟩ := Option.map_eq_some_iff.mp ho
      exact ⟨nofun, nofun, nofun⟩
  | none | target | int32 | int64 =>
      rw [hs] at ho
      cases ho
      exact ⟨nofun, nofun, nofun⟩

/-- A number in the bytes of an operand fits them. -/
theorem ofLittle_lt_capacity (h : front.length = operandWidth op.shape) :
    Bytes.ofLittle front < Bytes.capacity (operandWidth op.shape) :=
  h ▸ Bytes.ofLittle_lt front

/-- Every instruction that is read is tidy, and what it names has an index of 32
bits. -/
theorem Reads.each (h : Reads d slots bytes us) :
    ∀ u ∈ us, u.Near ∧ u.Tidy ∧ u.From d := by
  induction h with
  | nil => exact nofun
  | @cons op o front rest us hop hlen ho _ ih =>
      intro u hu
      rcases List.mem_cons.mp hu with rfl | hu
      · have hn := ofLittle_lt_capacity hlen
        refine ⟨?_, ⟨fun hs => ?_, fun hs => if_neg hs⟩,
          operandOf?_from ho hn _⟩
        · intro m hm
          by_cases hs : op.shape = .target
          · obtain rfl : Bytes.ofLittle front = m := by simpa [hs] using hm
            rw [hs] at hn
            exact hn
          · simp [hs] at hm
        · change op.shape = .target at hs
          rw [hs] at ho
          cases ho
          simp [hs]
      · exact ih u hu

/-- What has been read suits, and its slots are short. -/
theorem Reads.suits (h : Reads d b.locals bytes us)
    (hb : ∀ (k : Nat) l, b.locals[k]? = some l → l.index = k) :
    ∀ u ∈ us, u.op.isValid = true ∧ Suits b u.op.shape u.operand ∧
      ShortSlot (u.op, u.operand) := by
  induction h with
  | nil =>
      intro u hu
      cases hu
  | @cons op o front rest us hop hlen ho _ ih =>
      intro u hu
      rcases List.mem_cons.mp hu with rfl | hu
      · have hn := ofLittle_lt_capacity hlen
        refine ⟨hop, ?_⟩
        change Suits b op.shape o ∧
          (op.shape = .slot → ∀ l ∈ o.slot?, l.index ≤ 0xffff)
        cases hs : op.shape with
        | none => exact ⟨.none, by simp⟩
        | target => exact ⟨.target, by simp⟩
        | method | field | text =>
            rw [hs] at ho
            obtain ⟨r, -, rfl⟩ := Option.map_eq_some_iff.mp ho
            exact ⟨by constructor, by simp⟩
        | slot =>
            rw [hs] at ho hn
            obtain ⟨l, hl, rfl⟩ := Option.map_eq_some_iff.mp ho
            simp only [operandWidth, Bytes.capacity] at hn
            have hindex := hb _ l hl
            refine ⟨.slot ?_, fun _ l' hl' => ?_⟩
            · rw [Body.localAt?_eq_some.mpr ⟨_, hindex, hl⟩]
              rfl
            · obtain rfl := Option.some.inj hl'
              omega
        | int32 | int64 =>
            rw [hs] at ho
            cases ho
            exact ⟨by constructor, by simp⟩
      · exact ih u hu

/-- **What can be read can be packed**, whatever the tables hold already. -/
theorem Reads.packs (h : Reads d b.locals bytes us)
    (hb : ∀ (k : Nat) l, b.locals[k]? = some l → l.index = k) (t : Tables) :
    ∃ bytes' t', Packs b t us bytes' t' := by
  refine Packs.exists (fun u hu => ?_) t
  obtain ⟨hvalid, hsuits, hshort⟩ := h.suits hb u hu
  exact ⟨hvalid,
    numbers_of_suits hsuits (fun hs => ((h.each u hu).2.1.branch hs).2) hshort⟩

end

end File

end Bytecode
