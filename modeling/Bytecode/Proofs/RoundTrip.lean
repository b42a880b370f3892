import Mathlib
import Bytecode.Proofs.Documents
import Bytecode.Proofs.Loading

/-!
# Round trip and normal form

An assembly that is written and read back says the same.  `SameAssembly` spells
out what that means: the trees agree in everything they name, and each body has
the same instructions, where a branch leads to the same position, a slot is the
body's own with the same number, and references have the same text.  The
document in the middle is written and loaded half by half: what `Stores`
describes can be loaded, what has been `Loaded` says the same and is stored as
the same document again. Main statement: `decode_encode`.

Whatever can be read can be written, and writing is a normal form.  A file may
name its strings and references in any order, name some twice and never use
others, and may spell out that a method returns nothing; once it has been read
and written, the entries of its tables stand in the order of their first use,
and reading and writing it again gives the same bytes.  That the new tables do
not outgrow 32-bit indices is because they hold each key once, and only elements
that the old ones hold.  Main statements: `stores_of_readable`, what has been
loaded can be stored, and `encode_settles`.
-/

namespace Bytecode.File

/-! ### Saying the same -/

/-- Instruction `x'` of body `b'` says what instruction `x` of body `b` does. -/
structure SameInstr (b b' : Body) (x x' : Instr) : Prop where
  op : x'.op = x.op
  target : x.op.shape = .target → ∃ i i' n, x.operand = .target i ∧ x'.operand =
    .target i' ∧ b.code.idxOf? i = some n ∧ b'.code.idxOf? i' = some n
  slot : x.op.shape = .slot → ∃ l l', x.operand = .slot l ∧
    x'.operand = .slot l' ∧ l'.index = l.index ∧ b'.localAt? l.index = some l'
  method : x.op.shape = .method → ∃ r r', x.operand = .method r ∧
    x'.operand = .method r' ∧ r'.text = r.text
  field : x.op.shape = .field → ∃ r r', x.operand = .field r ∧
    x'.operand = .field r' ∧ r'.text = r.text
  int32 : x.op.shape = .int32 → ∃ v, x.operand = .int32 v ∧
    x'.operand = .int32 v
  int64 : x.op.shape = .int64 → ∃ v, x.operand = .int64 v ∧
    x'.operand = .int64 v
  text : x.op.shape = .text → ∃ s, x.operand = .text s ∧ x'.operand = .text s

/-- Body `b'` of program `q` says what body `b` of program `p` does. -/
structure SameBody (p q : Program) (b b' : BodyId) : Prop where
  maxStack : (q.body b').maxStack = (p.body b).maxStack
  initLocals : (q.body b').initLocals = (p.body b).initLocals
  locals : ((q.body b').locals.toList.map fun l => (l.type, l.name)) =
    (p.body b).locals.toList.map fun l => (l.type, l.name)
  code : List.Forall₂ (fun i i' => SameInstr (linkedBody p b) (linkedBody q b')
    (p.instr i) (q.instr i')) (p.code b) (q.code b')

/-- Method `m'` of program `q` says what method `m` of program `p` does; a
missing return type has become `void`. -/
structure SameMethod (p q : Program) (m m' : MethodId) : Prop where
  name : (q.method m').name = (p.method m).name
  params : (q.method m').params = (p.method m).params
  attrs : (q.method m').attrs = (p.method m).attrs
  returnType : (q.method m').returnType =
    if (p.method m).returnType = "" then voidType else (p.method m).returnType
  body : Option.Rel (SameBody p q) (p.method m).body (q.method m').body

/-- Type `t'` says what type `t` does. -/
structure SameType (p q : Program) (t t' : TypeDef) : Prop where
  name : t'.name = t.name
  methods : List.Forall₂ (SameMethod p q) t.methods t'.methods

/-- Module `x'` says what module `x` does. -/
structure SameModule (p q : Program) (x x' : Module) : Prop where
  name : x'.name = x.name
  types : List.Forall₂ (SameType p q) x.types x'.types

/-- Assembly `a'` says what assembly `a` does. -/
structure SameAssembly (p q : Program) (a a' : Assembly) : Prop where
  name : a'.name = a.name
  version : a'.version = a.version
  kind : a'.kind = a.kind
  modules : List.Forall₂ (SameModule p q) a.modules a'.modules

variable {p q : Program} {a a' : Assembly} {d : Document} {t t' : Tables}
  {m m' : MethodId} {b b' : BodyId} {type : TypeName}

/-- A local is found by its number. -/
theorem localAt?_natCast (y : Body) (n : Nat) :
    y.localAt? n = y.locals[n]? := by
  rw [Body.localAt?, if_neg (by omega), Int.toNat_natCast]

/-- A target is an operand. -/
theorem operand_of_target? {x : Instr} {i : InstrId} (h : x.target? = some i) :
    x.operand = .target i := by
  obtain ⟨op, o, owner⟩ := x
  cases o with
  | target k => exact congrArg Operand.target (Option.some.inj h)
  | _ => cases h

/-- What is said of unpacked instructions holds of the instructions
themselves. -/
theorem sameInstr_of_unpacked {y y' : Body} {x x' : Instr}
    (h : SameUnpacked y'.locals (.ofInstr y x) (.ofInstr y' x')) :
    SameInstr y y' x x' := by
  have hop : x'.op = x.op := h.op
  have hsame := h.operand
  have hshape : (Unpacked.ofInstr y x).op.shape = x.op.shape := rfl
  have hoperand : ∀ {s : Shape}, x.op.shape = s → s ≠ .target →
      SameOperand y'.locals s x.operand x'.operand := by
    rintro s rfl hs
    rw [hshape, Unpacked.operand_ofInstr hs,
      Unpacked.operand_ofInstr (hop ▸ hs)] at hsame
    exact hsame
  refine ⟨hop, fun hs => ?_, fun hs => ?_, fun hs => hoperand hs nofun,
    fun hs => hoperand hs nofun, fun hs => hoperand hs nofun,
    fun hs => hoperand hs nofun, fun hs => hoperand hs nofun⟩
  · obtain ⟨n, hn, hn'⟩ := h.branch hs
    rw [Unpacked.branch_ofInstr hs] at hn
    rw [Unpacked.branch_ofInstr (hop ▸ hs)] at hn'
    obtain ⟨i, hi, hin⟩ := Option.bind_eq_some_iff.mp hn
    obtain ⟨i', hi', hin'⟩ := Option.bind_eq_some_iff.mp hn'
    exact ⟨i, i', n, operand_of_target? hi, operand_of_target? hi', hin, hin'⟩
  · obtain ⟨l, l', n, hl, hl', hn, hn', hat⟩ := hoperand hs nofun
    exact ⟨l, l', hl, hl', hn'.trans hn.symm,
      by rw [hn, localAt?_natCast]; exact hat⟩

/-! ### Stored bodies can be read, and say the same -/

/-- Branches of a body lead less than 2^32 instructions far from its start. -/
def NearBody (p : Program) (b : BodyId) : Prop := ∀ u ∈ unpacked p b, u.Near

/-- Every instruction is unpacked. -/
theorem length_unpacked (p : Program) (b : BodyId) :
    (unpacked p b).length = (p.code b).length :=
  List.length_map _

/-- Branches stay within the code. -/
theorem branch_lt {u : Unpacked} {n : Nat} (hu : u ∈ unpacked p b)
    (hn : u.branch = some n) : n < (unpacked p b).length := by
  obtain ⟨i, -, rfl⟩ := List.mem_map.mp hu
  by_cases hs : (p.instr i).op.shape = .target
  · rw [Unpacked.branch_ofInstr hs] at hn
    obtain ⟨j, -, hj⟩ := Option.bind_eq_some_iff.mp hn
    obtain ⟨hlt, -⟩ := List.idxOf?_eq_some_iff.mp hj
    rw [length_unpacked]
    exact hlt
  · simp [Unpacked.ofInstr, hs] at hn

/-- In a body of few instructions all branches are near. -/
theorem nearBody_of_length (h : (p.code b).length ≤ Word.size32) :
    NearBody p b := by
  intro u hu n hn
  have hlt := branch_lt hu hn
  rw [length_unpacked] at hlt
  omega

/-- An element of one list has a partner in the other. -/
theorem exists_of_mem_right {α β : Type} {R : α → β → Prop} {xs : List α}
    {ys : List β} {y : β} (h : List.Forall₂ R xs ys) (hy : y ∈ ys) :
    ∃ x ∈ xs, R x y := by
  induction h with
  | nil => cases hy
  | cons hr _ ih =>
      rcases List.mem_cons.mp hy with rfl | hy
      · exact ⟨_, List.mem_cons_self, hr⟩
      · obtain ⟨x, hx, hr⟩ := ih hy
        exact ⟨x, List.mem_cons_of_mem _ hx, hr⟩

/-- What is read back of a stored body has its branches inside. -/
theorem StoresBody.loadable {s : StoredBody} (h : StoresBody p b t s t')
    (hw : t'.Within d.tables) (hd : d.Indexable) (hb : NearBody p b) :
    Loadable d s := by
  have hlocals : ({ locals := numbered s.locals } : Body).locals = numbered
      ((linkedBody p b).locals.toList.map fun l => (l.type, l.name)) := by
    rw [h.locals]
    rfl
  obtain ⟨us, hreads, hsame, -⟩ := h.code.reads hw hd hb hlocals
  refine ⟨us, hreads, fun u' hu' n hn => ?_⟩
  by_cases hs : u'.op.shape = .target
  · obtain ⟨u, hu, huu⟩ := exists_of_mem_right hsame hu'
    obtain ⟨k, hk, hk'⟩ := huu.branch (huu.op ▸ hs)
    obtain rfl : k = n := Option.some.inj (hk'.symm.trans hn)
    rw [← hsame.length_eq]
    exact branch_lt hu hk
  · rw [((hreads.each u' hu').2.1).other hs] at hn
    cases hn

/-- What is loaded of a stored body is stored as that. -/
theorem StoresBody.again {s : StoredBody} (h : StoresBody p b t s t')
    (hw : t'.Within d.tables) (hd : d.Indexable) (hb : NearBody p b)
    (hl : LoadedBody d q s b') :
    SameBody p q b b' ∧ StoresBody q b' t s t' := by
  have hlocals : (linkedBody q b').locals = numbered
      ((linkedBody p b).locals.toList.map fun l => (l.type, l.name)) := by
    rw [linkedBody_eq hl.unlinked, hl.locals, h.locals]
    rfl
  have hslots : ((q.body b').locals.toList.map fun l => (l.type, l.name)) =
      s.locals := by
    rw [hl.locals]
    exact map_numbered s.locals
  obtain ⟨us, hreads, hsame, hpacks⟩ := h.code.reads hw hd hb hlocals
  have hloaded := hl.reads
  rw [← linkedBody_eq hl.unlinked] at hloaded
  obtain rfl := hreads.unique hloaded
  constructor
  · refine ⟨hl.maxStack.trans h.maxStack, hl.initLocals.trans h.initLocals,
      hslots.trans h.locals, ?_⟩
    have := List.forall₂_map_left_iff.mp (List.forall₂_map_right_iff.mp hsame)
    exact this.imp fun _ _ => sameInstr_of_unpacked
  · exact ⟨hpacks, hl.maxStack.symm, hl.initLocals.symm, hslots.symm⟩

/-! ### Up the tree -/

/-- The body of a method is near if it has one. -/
def NearMethod (p : Program) (m : MethodId) : Prop :=
  ∀ b, (p.method m).body = some b → NearBody p b

/-- A stored method can be loaded. -/
theorem StoresMethod.loadable {s : StoredMethod} (h : StoresMethod p t m s t')
    (hw : t'.Within d.tables) (hd : d.Indexable) (hm : NearMethod p m) :
    ∀ x, s.body = some x → Loadable d x := by
  intro x hx
  cases hb : (p.method m).body with
  | none => exact absurd ((h.bare hb).1.symm.trans hx) nofun
  | some b =>
      obtain ⟨y, hy, hbody⟩ := h.body b hb
      obtain rfl : x = y := Option.some.inj (hx.symm.trans hy)
      exact hbody.loadable hw hd (hm b hb)

/-- A method returns nothing if no type is named, or that of nothing. -/
theorem returnsVoid_iff {x : Method} :
    x.returnsVoid = true ↔ x.returnType = "" ∨ x.returnType = voidType := by
  simp [Method.returnsVoid]

/-- Void is stored as nothing, which is read as `void` and stored as nothing
again. -/
theorem returnType_again {x y : Method} {s : String}
    (hs : s = if x.returnsVoid then "" else x.returnType)
    (hy : y.returnType = if s = "" then voidType else s) :
    y.returnType = (if x.returnType = "" then voidType else x.returnType) ∧
      s = if y.returnsVoid then "" else y.returnType := by
  by_cases hx : x.returnsVoid = true
  · rw [if_pos hx] at hs
    rw [if_pos hs] at hy
    rw [hs, hy, if_pos (returnsVoid_iff.mpr (.inr hy))]
    refine ⟨?_, rfl⟩
    rcases returnsVoid_iff.mp hx with h | h
    · rw [if_pos h]
    · rw [h]
      rfl
  · rw [if_neg hx] at hs
    rw [returnsVoid_iff, not_or] at hx
    subst hs
    rw [if_neg hx.1] at hy ⊢
    refine ⟨hy, ?_⟩
    rw [if_neg (by rw [returnsVoid_iff, hy, not_or]; exact hx), hy]

/-- What is loaded of a stored method is stored as that. -/
theorem StoresMethod.again {s : StoredMethod} (h : StoresMethod p t m s t')
    (hw : t'.Within d.tables) (hd : d.Indexable) (hm : NearMethod p m)
    (hl : LoadedMethod d type q s m') :
    SameMethod p q m m' ∧ StoresMethod q t m' s t' := by
  have hname : (q.method m').name = s.name := congrArg Method.name hl.signature
  have hparams : (q.method m').params = s.params :=
    congrArg Method.params hl.signature
  have hattrs : (q.method m').attrs = s.attrs :=
    congrArg Method.attrs hl.signature
  have hreturn : (q.method m').returnType =
      if s.returnType = "" then voidType else s.returnType :=
    congrArg Method.returnType hl.signature
  obtain ⟨hsame, hagain⟩ := returnType_again h.returnType hreturn
  cases hb : (p.method m).body with
  | none =>
      obtain ⟨hs, rfl⟩ := h.bare hb
      have hb' := hl.bare hs
      refine ⟨⟨hname.trans h.name, hparams.trans h.params, hattrs.trans h.attrs,
        hsame, ?_⟩, hname.symm, hparams.symm, hagain, hattrs.symm,
        fun _ => ⟨hs, rfl⟩, fun b h => absurd (hb'.symm.trans h) nofun⟩
      rw [hb, hb']
      exact .none
  | some b =>
      obtain ⟨x, hx, hbody⟩ := h.body b hb
      obtain ⟨b', hb', hbody'⟩ := hl.body x hx
      obtain ⟨hsameBody, hstores⟩ := hbody.again hw hd (hm b hb) hbody'
      refine ⟨⟨hname.trans h.name, hparams.trans h.params, hattrs.trans h.attrs,
        hsame, ?_⟩, hname.symm, hparams.symm, hagain, hattrs.symm,
        fun h => absurd (hb'.symm.trans h) nofun, fun c hc => ?_⟩
      · rw [hb, hb']
        exact .some hsameBody
      · obtain rfl : b' = c := Option.some.inj (hb'.symm.trans hc)
        exact ⟨x, hx, hstores⟩

/-- Every method of an assembly is near. -/
def NearAssembly (p : Program) (a : Assembly) : Prop :=
  ∀ m ∈ a.methods, NearMethod p m

/-- The methods of a near assembly are near. -/
theorem NearAssembly.method (h : NearAssembly p a) {y : Module}
    (hy : y ∈ a.modules) {x : TypeDef} (hx : x ∈ y.types) :
    ∀ m ∈ x.methods, NearMethod p m := fun m hm =>
  h m (List.mem_flatMap.mpr ⟨y, hy, List.mem_flatMap.mpr ⟨x, hx, hm⟩⟩)

/-- What is loaded of a stored type is stored as that. -/
theorem StoresType.again {x x' : TypeDef} {s : StoredType}
    (h : StoresType p t x s t') (hw : t'.Within d.tables) (hd : d.Indexable)
    (hx : ∀ m ∈ x.methods, NearMethod p m) (hl : LoadedType d q s x') :
    SameType p q x x' ∧ StoresType q t x' s t' := by
  obtain ⟨hsame, hagain⟩ := h.methods.again
    (L := LoadedMethod d s.name q) (S := SameMethod p q) StoresMethod.back
    (fun hm hr hw hl => hr.again hw hd (hx _ hm) hl) hw hl.methods
  exact ⟨⟨hl.name.trans h.name, hsame⟩, hl.name.symm, hagain⟩

/-- What is loaded of a stored module is stored as that. -/
theorem StoresModule.again {x x' : Module} {s : StoredModule}
    (h : StoresModule p t x s t') (hw : t'.Within d.tables) (hd : d.Indexable)
    (hx : ∀ y ∈ x.types, ∀ m ∈ y.methods, NearMethod p m)
    (hl : LoadedModule d q s x') :
    SameModule p q x x' ∧ StoresModule q t x' s t' := by
  obtain ⟨hsame, hagain⟩ :=
    h.types.again (L := LoadedType d q) (S := SameType p q) StoresType.back
    (fun hy hr hw hl => hr.again hw hd (hx _ hy) hl) hw hl.types
  exact ⟨⟨hl.name.trans h.name, hsame⟩, hl.name.symm, hagain⟩

/-- What has been loaded from a stored assembly says the same and is stored as
the same document. -/
theorem Stores.again (h : Stores p a d) (hd : d.Indexable)
    (ha : NearAssembly p a) (hl : Loaded d q a') :
    SameAssembly p q a a' ∧ Stores q a' d := by
  obtain ⟨hsame, hagain⟩ := h.modules.again (L := LoadedModule d q)
    (S := SameModule p q) StoresModule.back (fun hy hr hw hl => hr.again hw hd
      (fun x hx => ha.method hy hx) hl) (.refl _) hl.modules
  refine ⟨⟨hl.name.trans h.name, hl.version.trans h.version, ?_, hsame⟩,
    hl.name.symm, hl.version.symm, ?_, hagain⟩
  · rw [hl.kind, h.kind]
  · rw [hl.kind]

/-- A stored type can be loaded. -/
theorem StoresType.loadable {x : TypeDef} {s : StoredType}
    (h : StoresType p t x s t') (hw : t'.Within d.tables) (hd : d.Indexable)
    (hx : ∀ m ∈ x.methods, NearMethod p m) :
    ∀ m ∈ s.methods, ∀ y, m.body = some y → Loadable d y :=
  h.methods.each StoresMethod.back
    (fun hm hr hw => hr.loadable hw hd (hx _ hm)) hw

/-- A stored module can be loaded. -/
theorem StoresModule.loadable {x : Module} {s : StoredModule}
    (h : StoresModule p t x s t') (hw : t'.Within d.tables) (hd : d.Indexable)
    (hx : ∀ y ∈ x.types, ∀ m ∈ y.methods, NearMethod p m) :
    ∀ y ∈ s.types, ∀ m ∈ y.methods, ∀ z, m.body = some z → Loadable d z :=
  h.types.each StoresType.back (fun hy hr hw => hr.loadable hw hd (hx _ hy)) hw

/-- A stored assembly of a known kind can be loaded. -/
theorem Stores.load (h : Stores p a d) (hd : d.Indexable)
    (ha : NearAssembly p a) (hkind : KnownKind a.kind.code) :
    ∃ a' q, load d = .ok (a', q) := by
  refine load_of_loadable (h.kind ▸ hkind) ?_
  exact h.modules.each StoresModule.back
    (fun hy hr hw => hr.loadable hw hd fun x hx => ha.method hy hx) (.refl _)

/-! ### Files -/

/-- The header of a file that starts with one, and what follows it. -/
theorem decode_header (flags : UInt32) (rest : List UInt8) :
    Header.decode (Header.encode ⟨formatVersion, flags⟩ ++ rest) =
      .ok (⟨formatVersion, flags⟩, rest) := by
  have hflags : Bytes.ofLittle (Bytes.little 4 flags.toNat) = flags.toNat :=
    Bytes.ofLittle_little flags.toNat_lt
  have hsplit : Bytes.split? 12 (Header.encode ⟨formatVersion, flags⟩ ++ rest) =
      some (Header.encode ⟨formatVersion, flags⟩, rest) := by
    have hlen : (Header.encode ⟨formatVersion, flags⟩).length = 12 := rfl
    rw [Bytes.split?, List.take_left' hlen, List.drop_left' hlen]
    rfl
  have hmagic : (Header.encode ⟨formatVersion, flags⟩).take 4 = magic := rfl
  have hversion :
      Bytes.ofLittle (((Header.encode ⟨formatVersion, flags⟩).drop 4).take 4) =
      formatVersion.toNat := by
    have hbytes : ((Header.encode ⟨formatVersion, flags⟩).drop 4).take 4 =
        Bytes.little 4 formatVersion.toNat := rfl
    rw [hbytes, Bytes.ofLittle_little formatVersion.toNat_lt]
  have hdrop : (Header.encode ⟨formatVersion, flags⟩).drop 8 =
      Bytes.little 4 flags.toNat := rfl
  rw [Header.decode, hsplit]
  simp only [hmagic, hversion, hdrop, hflags, ne_eq, not_true_eq_false,
    if_false, Nat.toUInt32_eq, UInt32.ofNat_toNat]

/-- What is written is a header, and a document behind it. -/
theorem encode_ok_iff [Codec] {flags : UInt32} {data : List UInt8} :
    encode p a flags = .ok data ↔ ∃ d, Stores p a d ∧
      data = Header.encode ⟨formatVersion, flags⟩ ++ Codec.marshal d := by
  rw [encode, bind_ok_iff]
  refine exists_congr fun d => and_congr store_ok_iff ?_
  simp only [pure, Except.pure, Except.ok.injEq]
  exact eq_comm

/-- What is read is a header, and a document behind it that can be loaded. -/
theorem decode_ok_iff [Codec] {data : List UInt8} {file : File} :
    decode data = .ok file ↔ ∃ rest d, Header.decode data =
    .ok (file.header, rest) ∧ Codec.unmarshal rest = some d ∧
    load d = .ok (file.assembly, file.program) := by
  rw [decode, bind_ok_iff]
  constructor
  · rintro ⟨⟨header, rest⟩, hheader, h⟩
    dsimp only at h
    split at h
    · cases h
    · next d hd =>
        obtain ⟨⟨a, q⟩, hload, h⟩ := bind_ok_iff.mp h
        cases h
        exact ⟨rest, d, hheader, hd, hload⟩
  · rintro ⟨rest, d, hheader, hd, hload⟩
    refine ⟨_, hheader, ?_⟩
    simp only [hd]
    exact bind_ok_iff.mpr ⟨_, hload, rfl⟩

/-- **What is written is read back**, with any codec that reads the document
back. -/
theorem decode_encode [Codec] {flags : UInt32} {data : List UInt8}
    (hkind : a.kind = .library ∨ a.kind = .executable) (hcode : ∀ m ∈ a.methods,
      ∀ b, (p.method m).body = some b → (p.code b).length < 2 ^ 32)
    (htables : ∀ d, store p a = .ok d → d.strings.length < 2 ^ 32 ∧
      d.methods.length < 2 ^ 32 ∧ d.fields.length < 2 ^ 32)
    (hcbor : ∀ d, store p a = .ok d → d.ReadsBack)
    (h : encode p a flags = .ok data) :
    ∃ file, decode data = .ok file ∧ file.header = ⟨formatVersion, flags⟩ ∧
      SameAssembly p file.program a file.assembly := by
  obtain ⟨d, hd, rfl⟩ := encode_ok_iff.mp h
  have hstore := store_ok_iff.mpr hd
  have hindex : d.Indexable := by
    obtain ⟨hs, hm, hf⟩ := htables d hstore
    exact ⟨hs.le, hm.le, hf.le⟩
  have hnear : NearAssembly p a :=
    fun m hm b hb => nearBody_of_length (hcode m hm b hb).le
  have hknown : KnownKind a.kind.code := hkind.imp (congrArg _) (congrArg _)
  obtain ⟨a', q, hload⟩ := hd.load hindex hnear hknown
  refine ⟨⟨⟨formatVersion, flags⟩, a', q⟩, ?_, rfl,
    (hd.again hindex hnear (load_ok hload).2).1⟩
  exact decode_ok_iff.mpr ⟨_, d, decode_header flags _, hcbor d hstore, hload⟩

/-- A program with one method, which calls itself, stores a number and starts
again. -/
def endless : Program where
  instrs := #[⟨.call, .method ⟨"T", "f", [], ""⟩, some ⟨0⟩⟩,
    ⟨⟨0x22⟩, .int32 (-1), some ⟨0⟩⟩,
    ⟨⟨0x13⟩, .slot ⟨0, "int32", "n"⟩, some ⟨0⟩⟩, ⟨.br, .target ⟨0⟩, some ⟨0⟩⟩]
  bodies := #[⟨[⟨0⟩, ⟨1⟩, ⟨2⟩, ⟨3⟩], #[⟨0, "int32", "n"⟩], 1, true, some ⟨0⟩⟩]
  methods := #[{ name := "f", attrs := 1, declaring := some ⟨"", "T"⟩,
                 body := some ⟨0⟩ }]

/-- The assembly that holds the method. -/
def endlessAssembly : Assembly where
  name := "a"
  modules := [⟨"m", [⟨⟨"", "T"⟩, [⟨0⟩]⟩]⟩]

/-- The document it is stored as. -/
def endlessDocument : Document where
  name := "a"
  methods := [⟨"T", "f", [], ""⟩]
  modules := [⟨"m",
    [⟨⟨"", "T"⟩, [⟨"f", [], "", 1, some ⟨1, true, [("int32", "n")], [0x60, 0, 0,
      0, 0, 0x22, 0xff, 0xff, 0xff, 0xff, 0x13, 0, 0, 0x50, 0, 0, 0, 0]⟩⟩]⟩]⟩]

theorem store_endless :
    store endless endlessAssembly = .ok endlessDocument := by cbv

theorem fits_endlessDocument : endlessDocument.Fits := by
  constructor
  · decide +kernel
  · simp [endlessDocument, StoredBody.Fits, Word.minSigned64, Word.maxSigned64]

theorem decode_encode_endless :
    ∃ data file, encode endless endlessAssembly 1 = .ok data ∧
      decode data = .ok file ∧ file.header = ⟨formatVersion, 1⟩ ∧
      SameAssembly endless file.program endlessAssembly file.assembly := by
  have hstore : ∀ d, store endless endlessAssembly = .ok d →
      d = endlessDocument := fun d hd =>
    Except.ok.inj (hd.symm.trans store_endless)
  have hcode : ∀ m ∈ endlessAssembly.methods, ∀ b, (endless.method m).body =
      some b → (endless.code b).length < 2 ^ 32 := by
    intro m hm b hb
    obtain rfl : m = ⟨0⟩ := by
      simpa [Assembly.methods, endlessAssembly] using hm
    cases hb
    decide
  have hencode : encode endless endlessAssembly 1 =
      .ok (Header.encode ⟨formatVersion, 1⟩ ++ endlessDocument.toItem.encode) :=
    encode_ok_iff.mpr ⟨_, store_ok_iff.mp store_endless, rfl⟩
  obtain ⟨file, hfile⟩ := decode_encode (.inl rfl) hcode
    (fun d hd => by rw [hstore d hd]; decide) (fun d hd => by
      rw [hstore d hd]; exact readsBack_of_fits fits_endlessDocument) hencode
  exact ⟨_, file, hencode, hfile⟩

/-! ### What has been loaded can be stored -/

/-- Slots are numbered by their places. -/
theorem numbered_index {slots : List (String × String)} {n : Nat} {l : Local}
    (h : (numbered slots)[n]? = some l) : l.index = n := by
  rw [numbered_getElem?] at h
  obtain ⟨x, -, rfl⟩ := Option.map_eq_some_iff.mp h
  rfl

/-- The locals of a loaded body are numbered by their places. -/
theorem LoadedBody.numbered {s : StoredBody} (h : LoadedBody d q s b) (k : Nat)
    (l : Local) (hl : (q.body b).locals[k]? = some l) : l.index = k := by
  rw [h.locals] at hl
  exact numbered_index hl

/-- A loaded body can be stored. -/
theorem LoadedBody.stores {s : StoredBody} (h : LoadedBody d q s b)
    (t : Tables) : ∃ s' t', StoresBody q b t s' t' := by
  have hreads := h.reads
  rw [← linkedBody_eq h.unlinked] at hreads
  obtain ⟨code, t', hcode⟩ := hreads.packs h.numbered t
  exact ⟨⟨_, _, _, code⟩, t', hcode, rfl, rfl, rfl⟩

/-- The body of a loaded method is loaded. -/
theorem LoadedMethod.loaded_body {s : StoredMethod}
    (h : LoadedMethod d type q s m) (hb : (q.method m).body = some b) :
    ∃ x, LoadedBody d q x b := by
  cases hs : s.body with
  | none => exact absurd ((h.bare hs).symm.trans hb) nofun
  | some x =>
      obtain ⟨c, hc, hx⟩ := h.body x hs
      obtain rfl : b = c := Option.some.inj (hb.symm.trans hc)
      exact ⟨x, hx⟩

/-- A loaded method can be stored. -/
theorem LoadedMethod.stores {s : StoredMethod} (h : LoadedMethod d type q s m)
    (t : Tables) : ∃ s' t', StoresMethod q t m s' t' := by
  refine StoresMethod.exists (fun b hb t => ?_) t
  obtain ⟨x, hx⟩ := h.loaded_body hb
  exact hx.stores t

/-- What is known of a method that has been loaded: it has no far branches, and
it names only what has an index of 32 bits in the tables of the document. -/
structure Readable (d : Document) (q : Program) (m : MethodId) : Prop where
  near : NearMethod q m
  stores : ∀ t, ∃ s t', StoresMethod q t m s t'
  fewOf : ∀ {t s t'}, StoresMethod q t m s t' → t.FewOf d → t'.FewOf d

/-- A loaded method can be read. -/
theorem LoadedMethod.readable {s : StoredMethod}
    (h : LoadedMethod d type q s m) : Readable d q m := by
  refine ⟨fun b hb u hu => ?_, h.stores, fun {t s' t'} hstores ht => ?_⟩
  · obtain ⟨x, hx⟩ := h.loaded_body hb
    exact (hx.reads.each u hu).1
  · cases hb : (q.method m).body with
    | none =>
        rw [(hstores.bare hb).2]
        exact ht
    | some b =>
        obtain ⟨x, hx⟩ := h.loaded_body hb
        obtain ⟨y, -, hy⟩ := hstores.body b hb
        exact hy.code.fewOf (fun u hu => (hx.reads.each u hu).2.2) ht

/-- All methods of a loaded assembly can be read. -/
theorem Loaded.readable (h : Loaded d q a) :
    ∀ m ∈ a.methods, Readable d q m := by
  intro m hm
  obtain ⟨y, hy, x, hx, hm⟩ := mem_methods.mp hm
  obtain ⟨sy, -, hsy⟩ := exists_of_mem_right h.modules hy
  obtain ⟨sx, -, hsx⟩ := exists_of_mem_right hsy.types hx
  obtain ⟨s, -, hs⟩ := exists_of_mem_right hsx.methods hm
  exact hs.readable

/-- Few entries can be numbered. -/
theorem Tables.FewOf.indexable {d' : Document} (h : d'.tables.FewOf d) :
    d'.Indexable := by
  have htake : ∀ {α : Type} (xs : List α),
      (xs.take Word.size32).length ≤ Word.size32 :=
    fun xs => List.length_take_le _ _
  exact ⟨h.strings.size_le.trans (htake _), h.methods.size_le.trans (htake _),
    h.fields.size_le.trans (htake _)⟩

/-- Methods that are readable are stored, and the tables keep to what the
document has. -/
theorem stores_of_readable (ha : ∀ m ∈ a.methods, Readable d q m) :
    ∃ d', Stores q a d' ∧ d'.Indexable := by
  have hm : ∀ y ∈ a.modules, ∀ x ∈ y.types, ∀ m ∈ x.methods, Readable d q m :=
    fun y hy x hx m hm => ha m (mem_methods.mpr ⟨y, hy, x, hx, hm⟩)
  obtain ⟨d', hstores⟩ := Stores.exists fun m hm => (ha m hm).stores
  have hfew : d'.tables.FewOf d := by
    refine hstores.modules.kept (P := Tables.FewOf d) (fun hy hr => ?_)
      (.empty d)
    refine hr.types.kept (P := Tables.FewOf d) fun hx hr => ?_
    exact hr.methods.kept (P := Tables.FewOf d) fun h hr =>
      (hm _ hy _ hx _ h).fewOf hr
  exact ⟨d', hstores, hfew.indexable⟩

/-- **Writing is a normal form**, with any codec that reads the document back.
What has been read from a file can be written; the bytes can be read, and what
they are read as is written as the same bytes again. -/
theorem encode_settles [Codec] {data : List UInt8} {file : File}
    (h : decode data = .ok file)
    (hcbor : ∀ d, store file.program file.assembly = .ok d → d.ReadsBack) :
    ∃ e, encode file.program file.assembly file.header.flags = .ok e ∧
      ∃ file', decode e = .ok file' ∧
      encode file'.program file'.assembly file.header.flags = .ok e := by
  obtain ⟨rest, d, -, -, hload⟩ := decode_ok_iff.mp h
  obtain ⟨hkind, hloaded⟩ := load_ok hload
  obtain ⟨d', hstores, hindex⟩ := stores_of_readable hloaded.readable
  have hnear : NearAssembly file.program file.assembly :=
    fun m hm => (hloaded.readable m hm).near
  have hknown : KnownKind file.assembly.kind.code := by
    rw [hloaded.kind]
    exact hkind
  obtain ⟨a', q, hload'⟩ := hstores.load hindex hnear hknown
  have hagain := (hstores.again hindex hnear (load_ok hload').2).2
  refine ⟨_, encode_ok_iff.mpr ⟨d', hstores, rfl⟩,
    ⟨⟨formatVersion, file.header.flags⟩, a', q⟩, ?_,
    encode_ok_iff.mpr ⟨d', hagain, rfl⟩⟩
  exact decode_ok_iff.mpr ⟨_, d', decode_header _ _,
    hcbor d' (store_ok_iff.mpr hstores), hload'⟩

/-- A document with a string and a reference that nothing uses, one reference
spelled in two ways, and a method that spells out that it returns nothing. -/
def wordy : Document where
  name := "a"
  kind := 1
  strings := ["unused"]
  methods := [⟨"T", "g", [], ""⟩, ⟨"T", "f", [], "void"⟩, ⟨"T", "f", [], ""⟩]
  modules := [⟨"m", [⟨⟨"", "T"⟩, [⟨"f", [], "void", 1, some ⟨0, true, [],
    [0x60, 2, 0, 0, 0, 0x60, 1, 0, 0, 0, 0x50, 0, 0, 0, 0]⟩⟩]⟩]⟩]

/-- What it is read as. -/
def wordyFile : File where
  header := ⟨formatVersion, 0⟩
  assembly := { name := "a", kind := .executable,
                modules := [⟨"m", [⟨⟨"", "T"⟩, [⟨0⟩]⟩]⟩] }
  program :=
    { instrs := #[⟨.call, .method ⟨"T", "f", [], ""⟩, some ⟨0⟩⟩, ⟨.call, .method
        ⟨"T", "f", [], "void"⟩, some ⟨0⟩⟩, ⟨.br, .target ⟨0⟩, some ⟨0⟩⟩],
      bodies := #[⟨[⟨0⟩, ⟨1⟩, ⟨2⟩], #[], 0, true, some ⟨0⟩⟩], methods :=
        #[{ name := "f", attrs := 1, declaring := some ⟨"", "T"⟩, body :=
              some ⟨0⟩ }] }

/-- What it is written as from then on. -/
def terse : Document where
  name := "a"
  kind := 1
  methods := [⟨"T", "f", [], ""⟩]
  modules := [⟨"m", [⟨⟨"", "T"⟩, [⟨"f", [], "", 1, some ⟨0, true, [],
    [0x60, 0, 0, 0, 0, 0x60, 0, 0, 0, 0, 0x50, 0, 0, 0, 0]⟩⟩]⟩]⟩]

theorem fits_wordy : wordy.Fits := by
  constructor
  · decide +kernel
  · simp [wordy, StoredBody.Fits, Word.minSigned64, Word.maxSigned64]

theorem fits_terse : terse.Fits := by
  constructor
  · decide +kernel
  · simp [terse, StoredBody.Fits, Word.minSigned64, Word.maxSigned64]

theorem load_wordy :
    load wordy = .ok (wordyFile.assembly, wordyFile.program) := by cbv

theorem store_wordyFile :
    store wordyFile.program wordyFile.assembly = .ok terse := by cbv

/-- The wordy document becomes terse, and stays so. -/
theorem encode_settles_wordy :
    decode (Header.encode ⟨formatVersion, 0⟩ ++ wordy.toItem.encode) =
    .ok wordyFile ∧ ∃ e, encode wordyFile.program wordyFile.assembly 0 = .ok e ∧
    ∃ file', decode e = .ok file' ∧
    encode file'.program file'.assembly 0 = .ok e := by
  have hdecode : decode (Header.encode ⟨formatVersion, 0⟩ ++
      wordy.toItem.encode) = .ok wordyFile :=
    decode_ok_iff.mpr ⟨_, wordy, decode_header 0 _,
      readsBack_of_fits fits_wordy, load_wordy⟩
  refine ⟨hdecode, encode_settles hdecode fun d hd => ?_⟩
  obtain rfl : terse = d := Except.ok.inj (store_wordyFile.symm.trans hd)
  exact readsBack_of_fits fits_terse

end Bytecode.File
