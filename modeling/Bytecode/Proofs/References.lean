import Mathlib
import Bytecode.Proofs.RoundTrip
import Bytecode.Proofs.Resolving

/-!
# References that share an entry

The tables of a file tell references apart by their text.  The text runs the
parts of a reference together, so that references whose parts hold the marks
between them may have one text; such references are given one index, and what is
read back at both places is the one that was entered first.

Whatever is entered, and in which order, two references are given one index
exactly if their texts are the same (`Tables.At.index_eq_iff`).  Where the parts
hold no marks, which is what `Clear` says, the text tells them all.  Main
statement: `references_told_apart`.
-/

namespace Bytecode

namespace MethodRef

variable {r r' : MethodRef}

/-- The return type as it is written out: a missing one is `void`. -/
def returned (r : MethodRef) : String :=
  if r.returnType = "" then voidType else r.returnType

/-- Both references have the same declaring type, name, parameters and return
type. -/
structure Same (r r' : MethodRef) : Prop where
  type : r.type = r'.type
  name : r.name = r'.name
  params : r.params = r'.params
  returned : r.returned = r'.returned

/-- The parts of the text can be told apart. -/
structure Clear (r : MethodRef) : Prop where
  plain : r.Plain
  returned : ' ' ∉ r.returned.toList

instance (r : MethodRef) : Decidable r.Clear :=
  decidable_of_iff (r.Plain ∧ ' ' ∉ r.returned.toList)
    ⟨fun ⟨hp, hr⟩ => ⟨hp, hr⟩, fun h => ⟨h.plain, h.returned⟩⟩

/-- The text of a method is what it returns and its key. -/
theorem toList_text (r : MethodRef) :
    r.text.toList = r.returned.toList ++ ' ' :: r.key.toList := by
  simp [text, returned]

/-- References that are the same have the same text. -/
theorem Same.text_eq (h : r.Same r') : r.text = r'.text := by
  have hkey : r.key = r'.key := by rw [key, key, h.type, h.name, h.params]
  refine String.toList_injective ?_
  rw [toList_text, toList_text, h.returned, hkey]

/-- Clear references with one text agree in all parts. -/
theorem Clear.text_eq_iff (h : r.Clear) (h' : r'.Clear) :
    r.text = r'.text ↔ r.Same r' := by
  refine ⟨fun htext => ?_, Same.text_eq⟩
  have hlist := congrArg String.toList htext
  rw [toList_text, toList_text] at hlist
  obtain ⟨hreturned, hkey⟩ := cut_unique h.returned h'.returned hlist
  obtain ⟨htype, hname, hparams⟩ :=
    h.plain.key_injective h'.plain (String.toList_injective hkey)
  exact ⟨htype, hname, hparams, String.toList_injective hreturned⟩

end MethodRef

namespace FieldRef

variable {r r' : FieldRef}

/-- The parts of the text can be told apart. -/
structure Clear (r : FieldRef) : Prop where
  kind : ' ' ∉ r.kind.toList
  type : ':' ∉ r.type.toList

instance (r : FieldRef) : Decidable r.Clear :=
  decidable_of_iff (' ' ∉ r.kind.toList ∧ ':' ∉ r.type.toList)
    ⟨fun ⟨hk, ht⟩ => ⟨hk, ht⟩, fun h => ⟨h.kind, h.type⟩⟩

/-- The text of a field is its kind, its type and its name. -/
theorem toList_text (r : FieldRef) : r.text.toList = r.kind.toList ++
    ' ' :: (r.type.toList ++ ':' :: (':' :: r.name.toList)) := by
  simp [text]

/-- Clear references with one text are the same. -/
theorem Clear.text_eq_iff (h : r.Clear) (h' : r'.Clear) :
    r.text = r'.text ↔ r = r' := by
  refine ⟨fun htext => ?_, fun heq => heq ▸ rfl⟩
  have hlist := congrArg String.toList htext
  rw [toList_text, toList_text] at hlist
  obtain ⟨hkind, hrest⟩ := cut_unique h.kind h'.kind hlist
  obtain ⟨htype, hname⟩ := cut_unique h.type h'.type hrest
  obtain ⟨_, _, _⟩ := r
  obtain ⟨_, _, _⟩ := r'
  obtain rfl := String.toList_injective hkind
  obtain rfl := String.toList_injective htype
  obtain rfl := String.toList_injective (List.cons.inj hname).2
  rfl

end FieldRef

namespace File

/-! ### Entering one after the other -/

/-- What code refers to by an index. -/
inductive Entry
  | string (s : String)
  | method (r : MethodRef)
  | field (r : FieldRef)

namespace Entry

/-- The entries count as one. -/
def Alike : Entry → Entry → Prop
  | .string s, .string s' => s = s'
  | .method r, .method r' => r.text = r'.text
  | .field r, .field r' => r.text = r'.text
  | _, _ => False

/-- The entries go into the same table. -/
def Akin : Entry → Entry → Prop
  | .string _, .string _ | .method _, .method _ | .field _, .field _ => True
  | _, _ => False

end Entry

namespace Tables

variable {t t' : Tables} {e e' : Entry} {es : List Entry} {n n' : Nat}
  {ns : List Nat}

/-- The index of an entry, and the tables with it entered if it is new. -/
def enter (t : Tables) : Entry → Nat × Tables
  | .string s => t.string s
  | .method r => t.method r
  | .field r => t.field r

/-- The indices of entries that are entered one after the other, and the tables
afterwards. -/
def enterAll (t : Tables) : List Entry → List Nat × Tables
  | [] => ([], t)
  | e :: es =>
    let (n, t) := t.enter e
    let (ns, t) := t.enterAll es
    (n :: ns, t)

/-- The index leads to an entry that counts as the given one. -/
def At (t : Tables) (n : Nat) : Entry → Prop
  | .string s => t.strings[n]? = some s
  | .method r => ∃ r', t.methods[n]? = some r' ∧ r'.text = r.text
  | .field r => ∃ r', t.fields[n]? = some r' ∧ r'.text = r.text

/-- No table holds two entries that count as one. -/
structure Apart (t : Tables) : Prop where
  strings : (t.strings.toList.map id).Nodup
  methods : (t.methods.toList.map MethodRef.text).Nodup
  fields : (t.fields.toList.map FieldRef.text).Nodup

theorem Apart.empty : Apart {} := ⟨by simp, by simp, by simp⟩

/-- Keys stay different when one is entered. -/
theorem nodup_entered {α κ : Type} [DecidableEq κ] {key : α → κ} {xs : Array α}
    (a : α) (h : (xs.toList.map key).Nodup) :
    ((entered key xs a).2.toList.map key).Nodup := by
  have hfew : Few key xs (a :: xs.toList) :=
    ⟨h, fun b hb => List.mem_cons_of_mem _ (by simpa using hb)⟩
  exact (hfew.entered List.mem_cons_self).nodup

/-- Entries are kept apart when one is entered. -/
theorem Apart.enter (h : t.Apart) (e : Entry) : (t.enter e).2.Apart := by
  cases e with
  | string s =>
      rw [Tables.enter, string_eq]
      exact ⟨nodup_entered s h.strings, h.methods, h.fields⟩
  | method r =>
      rw [Tables.enter, method_eq]
      exact ⟨h.strings, nodup_entered r h.methods, h.fields⟩
  | field r =>
      rw [Tables.enter, field_eq]
      exact ⟨h.strings, h.methods, nodup_entered r h.fields⟩

/-- Entering something only adds to the tables. -/
theorem within_enter (h : t.enter e = (n, t')) : t.Within t' := by
  cases e with
  | string s => exact within_string h
  | method r => exact within_method h
  | field r => exact within_field h

/-- An entry stays where it is when tables grow. -/
theorem At.within (h : t.At n e) (hw : t.Within t') : t'.At n e := by
  cases e with
  | string s => simpa [At] using getElem?_of_grown hw.strings h
  | method r =>
      obtain ⟨r', hr, htext⟩ := h
      exact ⟨r', by simpa using getElem?_of_grown hw.methods hr, htext⟩
  | field r =>
      obtain ⟨r', hr, htext⟩ := h
      exact ⟨r', by simpa using getElem?_of_grown hw.fields hr, htext⟩

/-- What is entered is there. -/
theorem at_enter (h : t.enter e = (n, t')) : t'.At n e := by
  cases e with
  | string s =>
      rw [enter, string_eq] at h
      cases h
      obtain ⟨s', hs, rfl, -⟩ := entered_found id t.strings s
      exact hs
  | method r =>
      rw [enter, method_eq] at h
      cases h
      obtain ⟨r', hr, htext, -⟩ := entered_found MethodRef.text t.methods r
      exact ⟨r', hr, htext⟩
  | field r =>
      rw [enter, field_eq] at h
      cases h
      obtain ⟨r', hr, htext, -⟩ := entered_found FieldRef.text t.fields r
      exact ⟨r', hr, htext⟩

/-- Where keys stand once, places are the same exactly if the keys are. -/
theorem place_eq_iff {α κ : Type} {key : α → κ} {xs : Array α} {a a' : α}
    (h : (xs.toList.map key).Nodup) (ha : xs[n]? = some a)
    (ha' : xs[n']? = some a') : n = n' ↔ key a = key a' := by
  constructor
  · rintro rfl
    rw [Option.some.inj (ha.symm.trans ha')]
  · intro hkey
    have hn : n < (xs.toList.map key).length := by
      simpa using (Array.getElem?_eq_some_iff.mp ha).1
    exact (List.getElem?_inj hn h).mp (by simp [ha, ha', hkey])

/-- In one table, indices are the same exactly if the entries count as one. -/
theorem At.index_eq_iff (ht : t.Apart) (hkin : e.Akin e') (h : t.At n e)
    (h' : t.At n' e') : n = n' ↔ e.Alike e' := by
  cases e with
  | string s =>
      cases e' with
      | string s' => exact place_eq_iff ht.strings h h'
      | _ => exact hkin.elim
  | method r =>
      cases e' with
      | method r' =>
          obtain ⟨x, hx, htext⟩ := h
          obtain ⟨x', hx', htext'⟩ := h'
          rw [place_eq_iff ht.methods hx hx', htext, htext']
          rfl
      | _ => exact hkin.elim
  | field r =>
      cases e' with
      | field r' =>
          obtain ⟨x, hx, htext⟩ := h
          obtain ⟨x', hx', htext'⟩ := h'
          rw [place_eq_iff ht.fields hx hx', htext, htext']
          rfl
      | _ => exact hkin.elim

/-- In the end every index still leads to what it was given out for. -/
theorem at_enterAll (h : t.enterAll es = (ns, t')) :
    t.Within t' ∧ (t.Apart → t'.Apart) ∧ List.Forall₂ t'.At ns es := by
  induction es generalizing t ns with
  | nil =>
      cases h
      exact ⟨.refl _, id, .nil⟩
  | cons e es ih =>
      obtain ⟨n, t₁, hn⟩ : ∃ n t₁, t.enter e = (n, t₁) := ⟨_, _, rfl⟩
      obtain ⟨ms, t₂, hms⟩ : ∃ ms t₂, t₁.enterAll es = (ms, t₂) := ⟨_, _, rfl⟩
      simp only [enterAll, hn, hms] at h
      cases h
      obtain ⟨hwithin, hapart, hat⟩ := ih hms
      refine ⟨(within_enter hn).trans hwithin, fun ht => hapart ?_,
        .cons ((at_enter hn).within hwithin) hat⟩
      have := ht.enter e
      rwa [hn] at this

/-- Entries that were entered one after the other have the same index exactly if
they count as one. -/
theorem index_eq_iff (h : enterAll {} es = (ns, t)) {i j : Nat}
    (hi : es[i]? = some e) (hj : es[j]? = some e') (hkin : e.Akin e') :
    ∃ n n', ns[i]? = some n ∧ ns[j]? = some n' ∧ (n = n' ↔ e.Alike e') := by
  obtain ⟨-, hapart, hat⟩ := at_enterAll h
  have hfound : ∀ {k : Nat} {e : Entry}, es[k]? = some e →
      ∃ n, ns[k]? = some n ∧ t.At n e := by
    intro k e hk
    obtain ⟨hlt, rfl⟩ := List.getElem?_eq_some_iff.mp hk
    have hlt' : k < ns.length := hat.length_eq ▸ hlt
    exact ⟨ns[k], List.getElem?_eq_getElem hlt', hat.get hlt' hlt⟩
  obtain ⟨n, hn, hat⟩ := hfound hi
  obtain ⟨n', hn', hat'⟩ := hfound hj
  exact ⟨n, n', hn, hn', At.index_eq_iff (hapart .empty) hkin hat hat'⟩

end Tables

/-! ### Operands that are read back -/

/-- The reference that the instruction is written with, if any, is clear. -/
structure ClearInstr (x : Instr) : Prop where
  method : x.op.shape = .method → ∀ r ∈ x.operand.method?, r.Clear
  field : x.op.shape = .field → ∀ r ∈ x.operand.field?, r.Clear

instance (x : Instr) : Decidable (ClearInstr x) :=
  decidable_of_iff ((x.op.shape = .method → ∀ r ∈ x.operand.method?, r.Clear) ∧
      (x.op.shape = .field → ∀ r ∈ x.operand.field?, r.Clear))
    ⟨fun ⟨hm, hf⟩ => ⟨hm, hf⟩, fun h => ⟨h.method, h.field⟩⟩

/-- All references in the code of a method are clear. -/
def ClearMethod (p : Program) (m : MethodId) : Prop :=
  ∀ b ∈ (p.method m).body, ∀ i ∈ p.code b, ClearInstr (p.instr i)

instance (p : Program) (m : MethodId) : Decidable (ClearMethod p m) :=
  inferInstanceAs (Decidable
    (∀ b ∈ (p.method m).body, ∀ i ∈ p.code b, ClearInstr (p.instr i)))

/-- All references in the tables are clear. -/
structure Tables.Clear (t : Tables) : Prop where
  methods : ∀ r ∈ t.methods, r.Clear
  fields : ∀ r ∈ t.fields, r.Clear

/-- Instruction `x'` refers to the member that `x` refers to, if any. -/
structure SameMember (x x' : Instr) : Prop where
  method : x.op.shape = .method →
    ∃ r r', x.operand = .method r ∧ x'.operand = .method r' ∧ r.Same r'
  field : x.op.shape = .field → ∃ r, x.operand = .field r ∧
    x'.operand = .field r

variable {p q : Program} {a a' : Assembly} {d : Document} {t t' : Tables}
  {m m' : MethodId} {b b' : BodyId} {x x' : Instr} {us : List InstrId} {n : Nat}
  {bytes : List UInt8} {y y' : Body}

/-- The method that an operand refers to. -/
theorem mem_method? {o : Operand} {r : MethodRef} :
    r ∈ o.method? ↔ o = .method r := by
  cases o <;> simp [Operand.method?]

/-- The field that an operand refers to. -/
theorem mem_field? {o : Operand} {r : FieldRef} :
    r ∈ o.field? ↔ o = .field r := by
  cases o <;> simp [Operand.field?]

/-- What is in a table is entered or was there. -/
theorem mem_entered {α κ : Type} [DecidableEq κ] {key : α → κ} {xs : Array α}
    {a b : α} (h : b ∈ (entered key xs a).2) : b = a ∨ b ∈ xs := by
  obtain ⟨n, c, heq, -, -⟩ | ⟨heq, -⟩ := entered_cases key xs a
  · rw [heq] at h
    exact .inr h
  · rw [heq] at h
    exact (Array.mem_push.mp h).symm

/-- Clear instructions add clear entries. -/
theorem Numbers.clear (h : Numbers y t (.ofInstr y x) n t') (hx : ClearInstr x)
    (ht : t.Clear) : t'.Clear := by
  have hoperand : ∀ {s : Shape}, x.op.shape = s → s ≠ .target →
      (Unpacked.ofInstr y x).operand = x.operand :=
    fun hs hne => Unpacked.operand_ofInstr (hs ▸ hne)
  cases h with
  | @method r _ hs ho hr =>
      rw [hoperand hs (by decide)] at ho
      rw [Tables.method_eq] at hr
      cases hr
      refine ⟨fun z hz => ?_, ht.fields⟩
      rcases mem_entered hz with rfl | hz
      · exact hx.method hs _ (mem_method?.mpr ho)
      · exact ht.methods _ hz
  | @field r _ hs ho hr =>
      rw [hoperand hs (by decide)] at ho
      rw [Tables.field_eq] at hr
      cases hr
      refine ⟨ht.methods, fun z hz => ?_⟩
      rcases mem_entered hz with rfl | hz
      · exact hx.field hs _ (mem_field?.mpr ho)
      · exact ht.fields _ hz
  | text _ _ hs =>
      rw [Tables.string_eq] at hs
      cases hs
      exact ⟨ht.methods, ht.fields⟩
  | _ => exact ht

/-- Clear code adds clear entries. -/
theorem Packs.clear {is : List InstrId}
    (h : Packs y t (is.map fun i => .ofInstr y (p.instr i)) bytes t')
    (his : ∀ i ∈ is, ClearInstr (p.instr i)) (ht : t.Clear) : t'.Clear := by
  induction is generalizing t bytes with
  | nil =>
      cases h
      exact ht
  | cons i is ih =>
      cases h with
      | cons _ hn hrest =>
          exact ih hrest (fun j hj => his j (List.mem_cons_of_mem _ hj))
            (hn.clear (his i List.mem_cons_self) ht)

/-- A clear method adds clear entries. -/
theorem StoresMethod.clear {s : StoredMethod} (h : StoresMethod p t m s t')
    (hm : ClearMethod p m) (ht : t.Clear) : t'.Clear := by
  cases hb : (p.method m).body with
  | none =>
      rw [(h.bare hb).2]
      exact ht
  | some b =>
      obtain ⟨x, -, hx⟩ := h.body b hb
      exact hx.code.clear (hm b hb) ht

/-- The tables of what is stored hold only what the code refers to. -/
theorem Stores.clear (h : Stores p a d)
    (ha : ∀ m ∈ a.methods, ClearMethod p m) : d.tables.Clear := by
  refine h.modules.kept (P := Tables.Clear) (fun hy hr => ?_) ⟨by simp, by simp⟩
  refine hr.types.kept (P := Tables.Clear) fun hx hr => ?_
  exact hr.methods.kept (P := Tables.Clear) fun hm hr =>
    hr.clear (ha _ (mem_methods.mpr ⟨_, hy, _, hx, hm⟩))

/-- What is read back in a document with clear references is clear. -/
theorem LoadedMethod.clear {type : TypeName} {s : StoredMethod}
    (h : LoadedMethod d type q s m) (hd : d.tables.Clear) :
    ClearMethod q m := by
  intro b hb i hi
  obtain ⟨x, hx⟩ := h.loaded_body hb
  obtain ⟨-, -, hfrom⟩ := hx.reads.each _ (List.mem_map_of_mem hi)
  constructor
  · intro hs r hr
    have ho := mem_method?.mp hr
    have hmem := hfrom.methods r
      (by rw [Unpacked.operand_ofInstr (by rw [hs]; decide), ho])
    exact hd.methods r
      (by simpa [Document.tables] using List.mem_of_mem_take hmem)
  · intro hs r hr
    have ho := mem_field?.mp hr
    have hmem :=
      hfrom.fields r (by rw [Unpacked.operand_ofInstr (by rw [hs]; decide), ho])
    exact hd.fields r
      (by simpa [Document.tables] using List.mem_of_mem_take hmem)

/-- Methods that are loaded from clear tables are clear. -/
theorem Loaded.clear (h : Loaded d q a) (hd : d.tables.Clear) :
    ∀ m ∈ a.methods, ClearMethod q m := by
  intro m hm
  obtain ⟨y, hy, x, hx, hm⟩ := mem_methods.mp hm
  obtain ⟨sy, -, hsy⟩ := exists_of_mem_right h.modules hy
  obtain ⟨sx, -, hsx⟩ := exists_of_mem_right hsy.types hx
  obtain ⟨s, -, hs⟩ := exists_of_mem_right hsx.methods hm
  exact hs.clear hd

/-- Clear references that say the same in a file refer to the same member. -/
theorem SameInstr.sameMember (h : SameInstr y y' x x') (hx : ClearInstr x)
    (hx' : ClearInstr x') : SameMember x x' := by
  constructor
  · intro hs
    obtain ⟨r, r', ho, ho', htext⟩ := h.method hs
    refine ⟨r, r', ho, ho', ?_⟩
    exact ((hx.method hs r (mem_method?.mpr ho)).text_eq_iff
      (hx'.method (h.op ▸ hs) r' (mem_method?.mpr ho'))).mp htext.symm
  · intro hs
    obtain ⟨r, r', ho, ho', htext⟩ := h.field hs
    obtain rfl := ((hx.field hs r (mem_field?.mpr ho)).text_eq_iff
      (hx'.field (h.op ▸ hs) r' (mem_field?.mpr ho'))).mp htext.symm
    exact ⟨r, ho, ho'⟩

/-- The same assembly has the same methods. -/
theorem SameAssembly.methods (h : SameAssembly p q a a') :
    List.Forall₂ (SameMethod p q) a.methods a'.methods :=
  List.rel_flatMap h.modules fun _ _ hy =>
    List.rel_flatMap hy.types fun _ _ hx => hx.methods

/-- The instructions of both methods refer to the same members one after the
other. -/
def SameMembers (p q : Program) (m m' : MethodId) : Prop :=
  Option.Rel (fun b b' => List.Forall₂ (fun i i' => SameMember (p.instr i)
    (q.instr i')) (p.code b) (q.code b')) (p.method m).body (q.method m').body

/-- The same method refers to the same members. -/
theorem SameMethod.sameMembers (h : SameMethod p q m m') (hm : ClearMethod p m)
    (hm' : ClearMethod q m') : SameMembers p q m m' := by
  have hbody := h.body
  rw [SameMembers]
  cases hb : (p.method m).body with
  | none =>
      cases hb' : (q.method m').body with
      | none => exact .none
      | some b' =>
          rw [hb, hb'] at hbody
          cases hbody
  | some b =>
      cases hb' : (q.method m').body with
      | none =>
          rw [hb, hb'] at hbody
          cases hbody
      | some b' =>
          rw [hb, hb'] at hbody
          cases hbody with
          | some hsame =>
              obtain ⟨hlen, hcode⟩ := List.forall₂_iff_zip.mp hsame.code
              refine .some (List.forall₂_iff_zip.mpr
                ⟨hlen, fun {i i'} hmem => ?_⟩)
              obtain ⟨hi, hi'⟩ := List.of_mem_zip hmem
              exact (hcode hmem).sameMember (hm b hb i hi) (hm' b' hb' i' hi')

/-- **References are told apart by their text.**  Whatever is entered in fresh
tables, two references are given one index exactly if they have one text; if
they are clear, this is to agree in all parts.  An assembly that is written and
read back refers to members of the same text throughout, and to the same members
if its references are clear. -/
theorem references_told_apart [Codec] (es : List Entry) (p : Program)
    (a : Assembly) (flags : UInt32) (data : List UInt8) :
    (∀ (i j : Nat) (r r' : MethodRef), es[i]? = some (.method r) → es[j]? =
      some (.method r') → ∃ n n', (Tables.enterAll {} es).1[i]? = some n ∧
      (Tables.enterAll {} es).1[j]? = some n' ∧ (n = n' ↔ r.text = r'.text) ∧
      (r.Clear → r'.Clear → (n = n' ↔ r.Same r'))) ∧
    (∀ (i j : Nat) (r r' : FieldRef), es[i]? = some (.field r) →
      es[j]? = some (.field r') → ∃ n n', (Tables.enterAll {} es).1[i]? =
      some n ∧ (Tables.enterAll {} es).1[j]? = some n' ∧
      (n = n' ↔ r.text = r'.text) ∧ (r.Clear → r'.Clear → (n = n' ↔ r = r'))) ∧
    ((a.kind = .library ∨ a.kind = .executable) →
      (∀ m ∈ a.methods, ∀ b, (p.method m).body = some b → (p.code b).length <
        2 ^ 32) → (∀ d, store p a = .ok d → d.strings.length < 2 ^ 32 ∧
          d.methods.length < 2 ^ 32 ∧ d.fields.length < 2 ^ 32) →
      (∀ d, store p a = .ok d → d.ReadsBack) → encode p a flags = .ok data →
      ∃ file, decode data = .ok file ∧
      SameAssembly p file.program a file.assembly ∧
      ((∀ m ∈ a.methods, ClearMethod p m) → List.Forall₂
        (SameMembers p file.program) a.methods file.assembly.methods)) := by
  refine ⟨fun i j r r' hi hj => ?_, fun i j r r' hi hj => ?_,
    fun hkind hcode htables hcbor h => ?_⟩
  · obtain ⟨n, n', hn, hn', heq⟩ := Tables.index_eq_iff rfl hi hj trivial
    exact ⟨n, n', hn, hn', heq, fun hr hr' => heq.trans (hr.text_eq_iff hr')⟩
  · obtain ⟨n, n', hn, hn', heq⟩ := Tables.index_eq_iff rfl hi hj trivial
    exact ⟨n, n', hn, hn', heq, fun hr hr' => heq.trans (hr.text_eq_iff hr')⟩
  · obtain ⟨d, hd, rfl⟩ := encode_ok_iff.mp h
    have hstore := store_ok_iff.mpr hd
    have hindex : d.Indexable := by
      obtain ⟨hs, hm, hf⟩ := htables d hstore
      exact ⟨hs.le, hm.le, hf.le⟩
    have hnear : NearAssembly p a :=
      fun m hm b hb => nearBody_of_length (hcode m hm b hb).le
    obtain ⟨a', q, hload⟩ :=
      hd.load hindex hnear (hkind.imp (congrArg _) (congrArg _))
    have hloaded := (load_ok hload).2
    have hsame := (hd.again hindex hnear hloaded).1
    refine ⟨⟨⟨formatVersion, flags⟩, a', q⟩, decode_ok_iff.mpr ⟨_, d,
      decode_header flags _, hcbor d hstore, hload⟩, hsame, fun hclear => ?_⟩
    have hclear' := hloaded.clear (hd.clear hclear)
    obtain ⟨hlen, hmethods⟩ := List.forall₂_iff_zip.mp hsame.methods
    refine List.forall₂_iff_zip.mpr ⟨hlen, fun {m m'} hmem => ?_⟩
    obtain ⟨hm, hm'⟩ := List.of_mem_zip hmem
    exact (hmethods hmem).sameMembers (hclear m hm) (hclear' m' hm')

/-- A program with one method, which calls two others and reads a field. -/
def caller (r r' : MethodRef) : Program where
  instrs := #[⟨.call, .method r, some ⟨0⟩⟩, ⟨.call, .method r', some ⟨0⟩⟩,
    ⟨⟨0x42⟩, .field ⟨"Lib.Table", "size", "int"⟩, some ⟨0⟩⟩]
  bodies := #[⟨[⟨0⟩, ⟨1⟩, ⟨2⟩], #[], 1, true, some ⟨0⟩⟩]
  methods := #[{ name := "f", attrs := 1, declaring := some ⟨"", "T"⟩,
                 body := some ⟨0⟩ }]

/-- The assembly that holds the method. -/
def callerAssembly : Assembly where
  name := "a"
  modules := [⟨"m", [⟨⟨"", "T"⟩, [⟨0⟩]⟩]⟩]

/-- The document it is stored as, if the second call has index `n` in the
table. -/
def callerDocument (methods : List MethodRef) (n : UInt8) : Document where
  name := "a"
  methods := methods
  fields := [⟨"Lib.Table", "size", "int"⟩]
  modules := [⟨"m", [⟨⟨"", "T"⟩, [⟨"f", [], "", 1, some ⟨1, true, [],
    [0x60, 0, 0, 0, 0, 0x60, n, 0, 0, 0, 0x42, 0, 0, 0, 0]⟩⟩]⟩]⟩]

/-- Overloads with parameters that hold no comma have an index of their own and
stay what they are. -/
theorem references_told_apart_overloads :
    let r : MethodRef := ⟨"Lib.Table", "Put", ["int", "text"], ""⟩
    let r' : MethodRef := ⟨"Lib.Table", "Put", ["Pair"], ""⟩
    let f : FieldRef := ⟨"Lib.Table", "size", "int"⟩
    let f' : FieldRef := ⟨"Lib.Table", "size", "long"⟩
    let ns :=
      (Tables.enterAll {} [.method r, .field f, .method r', .field f']).1
    (∃ n n', ns[0]? = some n ∧ ns[2]? = some n' ∧ n ≠ n') ∧
    (∃ n n', ns[1]? = some n ∧ ns[3]? = some n' ∧ n ≠ n') ∧
    ∃ data file, encode (caller r r') callerAssembly 0 = .ok data ∧
      decode data = .ok file ∧
      List.Forall₂ (SameMembers (caller r r') file.program)
        callerAssembly.methods file.assembly.methods := by
  intro r r' f f' ns
  have hdoc : store (caller r r') callerAssembly =
      .ok (callerDocument [r, r'] 1) := by cbv
  have hstore : ∀ d, store (caller r r') callerAssembly = .ok d →
      d = callerDocument [r, r'] 1 :=
    fun d hd => Except.ok.inj (hd.symm.trans hdoc)
  have hfits : (callerDocument [r, r'] 1).Fits :=
    ⟨by decide +kernel, by simp [callerDocument, StoredBody.Fits,
      Word.minSigned64, Word.maxSigned64]⟩
  have hencode : encode (caller r r') callerAssembly 0 = .ok (Header.encode
      ⟨formatVersion, 0⟩ ++ (callerDocument [r, r'] 1).toItem.encode) :=
    encode_ok_iff.mpr ⟨_, store_ok_iff.mp hdoc, rfl⟩
  obtain ⟨hmethods, hfields, hfiles⟩ := references_told_apart
    [.method r, .field f, .method r', .field f'] (caller r r') callerAssembly 0
    (Header.encode ⟨formatVersion, 0⟩ ++
      (callerDocument [r, r'] 1).toItem.encode)
  obtain ⟨n, n', hn, hn', -, heq⟩ := hmethods 0 2 r r' rfl rfl
  obtain ⟨k, k', hk, hk', -, hkeq⟩ := hfields 1 3 f f' rfl rfl
  obtain ⟨file, hfile, -, hsame⟩ := hfiles (.inl rfl) (by decide)
    (fun d hd => by rw [hstore d hd]; decide)
    (fun d hd => by rw [hstore d hd]; exact readsBack_of_fits hfits) hencode
  refine ⟨⟨n, n', hn, hn', fun h => ?_⟩, ⟨k, k', hk, hk', fun h => ?_⟩, _, file,
    hencode, hfile, hsame (by decide +kernel)⟩
  · exact absurd ((heq (by decide +kernel) (by decide +kernel)).mp h).params
      (by decide)
  · exact absurd ((hkeq (by decide +kernel) (by decide +kernel)).mp h)
      (by decide)

/-- A comma inside a parameter type makes one entry of two overloads, and the
second call is read back as one of the first overload.  Fields are mixed up in
the same way by the marks in a type. -/
theorem merges_overloads :
    let r : MethodRef := ⟨"Lib.Table", "Put", ["Pair<int,text>"], ""⟩
    let r' : MethodRef := ⟨"Lib.Table", "Put", ["Pair<int", "text>"], ""⟩
    let f : FieldRef := ⟨"Pair<int, text>", "size", "List"⟩
    let f' : FieldRef := ⟨"text>", "size", "List Pair<int,"⟩
    (Tables.enterAll {} [.method r, .method r', .field f, .field f']).1 =
      [0, 0, 0, 0] ∧
    r.params ≠ r'.params ∧ f.type ≠ f'.type ∧
    ∃ data file, encode (caller r r') callerAssembly 0 = .ok data ∧
      decode data = .ok file ∧
      ((caller r r').instr ⟨1⟩).operand = .method r' ∧
      (file.program.instr ⟨1⟩).operand = .method r := by
  intro r r' f f'
  have hdoc :
      store (caller r r') callerAssembly = .ok (callerDocument [r] 0) := by cbv
  have hload :
      load (callerDocument [r] 0) = .ok (callerAssembly, caller r r) := by cbv
  have hfits : (callerDocument [r] 0).Fits :=
    ⟨by decide +kernel, by simp [callerDocument, StoredBody.Fits,
      Word.minSigned64, Word.maxSigned64]⟩
  refine ⟨by decide +kernel, by decide, by decide, _,
    ⟨⟨formatVersion, 0⟩, callerAssembly, caller r r⟩,
    encode_ok_iff.mpr ⟨_, store_ok_iff.mp hdoc, rfl⟩, ?_, rfl, rfl⟩
  exact decode_ok_iff.mpr
    ⟨_, _, decode_header 0 _, readsBack_of_fits hfits, hload⟩

end File

end Bytecode
