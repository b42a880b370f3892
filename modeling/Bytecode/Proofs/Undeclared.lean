import Bytecode.Proofs.StaysWritable
import Bytecode.Proofs.Unfolding

/-!
# Accesses to slots that are not declared

An access that names its slot in the operand is refused on reading if the slot
is not declared.  The opcodes that have the number of a slot in themselves are
not looked at, so these can address slots that the body does not have,
`Fit.addresses`.  When such a body is taken in, the copy of an access to a
declared slot addresses a slot behind those of the caller.  An access to any
other slot is copied as it is, and if the caller has a slot of that number, then
the copy addresses it: `CopiesAccess` and `Spliced.copiesAccess`. Main
statement: `slots_addressed`.
-/

namespace Bytecode

/-! ### What accesses address -/

/-- If the instruction is an access, then to a slot of the body, or to one that
the opcode has the number of and that is beyond the slots of the body. -/
def Body.Addresses (y : Body) (x : Instr) : Prop :=
  x.access?.isSome → ∃ n : Nat, x.localIndex? = some (n : Int) ∧
    (n < y.locals.size ∧ (y.localAt? n).isSome ∨ y.locals.size ≤ n ∧
      (y.localAt? n).isNone ∧ Instr.embeddedSlot? x.op = some (n : Int))

theorem Body.localAt?_isSome_iff {y : Body} {n : Nat} :
    (y.localAt? n).isSome ↔ n < y.locals.size := by
  have hn : ¬ (n : Int) < 0 := by omega
  simp [localAt?, hn]

/-- Accesses that have no slot in the operand have its number in the opcode. -/
theorem Opcode.embedded_of_access {op : Opcode} (h : op.kind.access?.isSome)
    (hs : op.shape ≠ .slot) :
    ∃ n : Nat, Instr.embeddedSlot? op = some (n : Int) := by
  have htable : ∀ r ∈ table, r.kind.access?.isSome → r.shape ≠ .slot → ∃ n < 4,
      Instr.embeddedSlot? ⟨r.code⟩ = some ((n : Nat) : Int) := by decide
  rw [kind] at h
  rw [shape] at hs
  cases hrow : op.row? with
  | none =>
      rw [hrow] at h
      cases h
  | some r =>
      rw [hrow] at h hs
      have hcode : op = ⟨r.code⟩ := by
        have := List.find?_some hrow
        simp only [beq_iff_eq] at this
        rw [this]
      obtain ⟨n, -, hn⟩ := htable r (List.mem_of_find?_eq_some hrow) h hs
      exact ⟨n, hcode ▸ hn⟩

/-- The slot of an access is that of the opcode, or that of the operand. -/
theorem Instr.localIndex?_of_access {x : Instr} (h : x.access?.isSome) :
    x.localIndex? =
    (embeddedSlot? x.op).or (x.operand.slot?.map (·.index)) := by
  have hnone : x.access?.isNone = false := by
    rw [← Option.not_isSome, h]
    rfl
  rw [localIndex?, hnone]
  cases embeddedSlot? x.op with
  | none => rfl
  | some n => rfl

/-- **What can be packed addresses declared slots**, but for the opcodes that
have the number of a slot in themselves. -/
theorem Program.Fit.addresses {p : Program} {b : BodyId} (h : p.Fit b)
    {i : InstrId} (hi : i ∈ p.code b) : (p.body b).Addresses (p.instr i) := by
  intro haccess
  obtain ⟨-, hsuits⟩ := h.takes_instr hi
  rw [Instr.localIndex?_of_access haccess]
  by_cases hs : (p.instr i).op.shape = .slot
  · rw [hs] at hsuits
    rw [(Opcode.access_of_shape hs).2]
    generalize (p.instr i).operand = o at hsuits
    cases hsuits with
    | @slot l hl =>
        obtain ⟨l', hl'⟩ := Option.isSome_iff_exists.mp hl
        obtain ⟨n, hn, -⟩ := Body.localAt?_eq_some.mp hl'
        rw [hn] at hl
        exact ⟨n, congrArg some hn, .inl ⟨Body.localAt?_isSome_iff.mp hl, hl⟩⟩
  · obtain ⟨n, hn⟩ := Opcode.embedded_of_access haccess hs
    refine ⟨n, by rw [hn]; rfl, ?_⟩
    rcases Nat.lt_or_ge n (p.body b).locals.size with hlt | hle
    · exact .inl ⟨hlt, Body.localAt?_isSome_iff.mpr hlt⟩
    · refine .inr ⟨hle, ?_, hn⟩
      rw [← Option.not_isSome, Bool.not_eq_true', ← Bool.not_eq_true,
        Body.localAt?_isSome_iff]
      omega

/-! ### What copies of accesses address -/

/-- `x'` is the same access as `x`, which stands in a body with the slots of
`y`.  It has been made for a body that had `base` slots and has those of `y'`
now.  A slot of `y` has one that stands for it behind the first `base` ones;
anything else is copied as it is. -/
structure CopiesAccess (base : Nat) (y y' : Body) (x x' : Instr) : Prop where
  access : x'.access? = x.access?
  moved : ∀ n : Nat, x.localIndex? = some (n : Int) → n < y.locals.size →
    x'.localIndex? = some ((base + n : Nat) : Int) ∧
    (y'.localAt? (base + n : Nat)).isSome
  kept : ∀ n : Nat, x.localIndex? = some (n : Int) → y.locals.size ≤ n →
    x'.op = x.op ∧ x'.operand = x.operand ∧ x'.localIndex? = some (n : Int)

/-- A copy addresses one of the slots the caller had exactly if the callee does
not have the slot, and the caller has one of that number. -/
theorem CopiesAccess.own_iff {base : Nat} {y y' : Body} {x x' : Instr}
    (h : CopiesAccess base y y' x x') (haccess : x.access?.isSome)
    (hx : y.Addresses x) :
    (∃ k : Nat, x'.localIndex? = some (k : Int) ∧ k < base) ↔
    ∃ n : Nat, Instr.embeddedSlot? x.op = some (n : Int) ∧ y.locals.size ≤ n ∧
    n < base := by
  obtain ⟨n, hn, hslot⟩ := hx haccess
  constructor
  · rintro ⟨k, hk, hlt⟩
    rcases hslot with ⟨hdeclared, -⟩ | ⟨hbeyond, -, hembedded⟩
    · have hkn := Option.some.inj (hk.symm.trans (h.moved n hn hdeclared).1)
      omega
    · have hkn := Option.some.inj (hk.symm.trans (h.kept n hn hbeyond).2.2)
      exact ⟨n, hembedded, hbeyond, by omega⟩
  · rintro ⟨k, hk, hbeyond, hlt⟩
    have hkn : x.localIndex? = some (k : Int) := by
      rw [Instr.localIndex?_of_access haccess, hk]
      rfl
    exact ⟨k, (h.kept k hkn hbeyond).2.2, hlt⟩

namespace Inline

open Program

variable {p q : Program} {b c : BodyId} {call anchor nop : InstrId}
  {inner : List InstrId} {f : InstrId → InstrId} {d : InstrId}
  (h : Spliced b c call anchor nop inner f p q)

include h

/-- The caller has no slot that would stand for one that the callee does not
have. -/
theorem Spliced.localAt?_beyond (hinner : inner ≠ []) {n : Nat}
    (hn : (p.body c).locals.size ≤ n) :
    (q.body b).localAt? ((p.body b).locals.size + n) = none := by
  obtain ⟨ls, hls, heq⟩ := h.slots
  refine Option.eq_none_iff_forall_ne_some.mpr fun l hl => ?_
  obtain ⟨k, hk, hslot⟩ := Body.localAt?_eq_some.mp hl
  obtain rfl : (p.body b).locals.size + n = k := by omega
  have hnone : (p.body c).locals[n]? = none := Array.getElem?_eq_none hn
  rw [hls, Array.getElem?_append, if_neg (by omega), Nat.add_sub_cancel_left,
    List.getElem?_toArray,
    getElem?_slotsFrom, heq hinner, Array.getElem?_toList, hnone] at hslot
  cases hslot

theorem Spliced.copiesAccess (hd : d ∈ inner)
    (haccess : (p.instr d).access?.isSome) : CopiesAccess (p.body b).locals.size
    (p.body c) (q.body b) (p.instr d) (q.instr (f d)) := by
  obtain ⟨a, ha⟩ := Option.isSome_iff_exists.mp haccess
  have hret : (p.instr d).kind ≠ .ret := by
    intro hret
    rw [Instr.access?, hret] at ha
    cases ha
  have hkind : (q.instr (f d)).access? = (p.instr d).access? :=
    congrArg Kind.access? ((h.copy d hd).kind hret)
  refine ⟨hkind, fun n hn hlt => ?_, fun n hn hle => ?_⟩
  · obtain ⟨l, hl⟩ :=
      Option.isSome_iff_exists.mp (Body.localAt?_isSome_iff.mpr hlt)
    obtain ⟨-, hindex, -⟩ := h.access_copy hd ha hn hl
    rw [Nat.cast_add]
    refine ⟨hindex, ?_⟩
    rw [h.localAt?_new (List.ne_nil_of_mem hd) hl]
    rfl
  · have hbeyond := h.localAt?_beyond (List.ne_nil_of_mem hd) hle
    cases h.copy d hd with
    | exit hx => exact absurd hx hret
    | branch hbr =>
        rw [isBranch_of_access ha] at hbr
        cases hbr
    | access _ hn' hl =>
        obtain rfl := Option.some.inj (hn.symm.trans hn')
        cases hbeyond.symm.trans hl
    | plain _ _ _ hop ho =>
        refine ⟨hop, ho, ?_⟩
        rw [← hn, Instr.localIndex?, Instr.localIndex?, hkind, hop, ho]

end Inline

section Fires

variable {σ : Type} {cfg : InlineSettings} {passes : List Pass} {s : Session σ}
  {m : MethodId} {v v' : Visit σ} {call : InstrId} {fuel : Nat}

/-- What is known of the callee, and of both programs, when the inliner has
fired in the middle of a visit. -/
theorem Inline.spliced_of_fires (h : v.Within s m) (hi : v.Offers call)
    (hclosed : v.session.program.NoDangling) (hfit : v.session.program.AllFit)
    (happly : Inline.apply cfg ((Optimizer.ofPasses cfg passes).optimize fuel)
      v = (.ok (), v')) (hfires : v'.editor.dirty = true) :
    (v'.session.program.NoDangling ∧ v'.session.program.AllFit) ∧
    ∃ c t b anchor, Inline.callee? cfg v.editing call = some c ∧
    (Optimizer.ofPasses cfg passes).optimize fuel (some c)
    (Inline.consulted cfg c v.session) = (.ok (), t) ∧
    (t.program.method c).body = some b ∧ t.Sound ∧ t.program.AllFit ∧
    Program.AgreeOn v.editor.body v.session.program t.program ∧
    ∃ nop inner f, Inline.Spliced v.editor.body b call anchor nop inner f
    t.program v'.session.program := by
  have hframe :=
    frame_obeyed (Optimizer.appliesPasses_ofPasses (σ := σ) cfg passes)
  have haccepts : cfg.Accepts (fun _ => True) v.session.program.methods :=
    fun _ _ _ _ _ => trivial
  have hsurvives : Survives cfg (fun _ => True) passes Program.AllFit :=
    Program.allFit_survives
  have hkeeps : v.session.Keeps (fun _ =>
      True) v.session.program.methods Program.AllFit :=
    ⟨hclosed, hfit, rfl, fun _ _ => trivial⟩
  have hinlines : Inline.Inlines cfg _ v call
      (Inline.apply cfg ((Optimizer.ofPasses cfg passes).optimize fuel) v) :=
    Inline.apply_inlines hi.1
  rw [happly] at hinlines
  have hkept := Optimizer.keeps_inlines haccepts hsurvives (hframe.calls fuel)
    ((Optimizer.keeps_obeyed haccepts hsurvives).calls fuel)
    h hi hkeeps hinlines
  refine ⟨⟨hkept.closed, hkept.kept⟩, ?_⟩
  obtain ⟨c, t, anchor, b, hcallee, hnext, hopt, hbody, heq⟩ :=
    hinlines.of_dirty h.clean hfires
  obtain ⟨ht, hext⟩ := nested_call (hframe.calls fuel) h hopt
  obtain ⟨hv, hiv, hnext', hcb⟩ := h.taking hi hcallee hnext ht hext hbody
  obtain ⟨hclosed', hfit'⟩ :=
    Optimizer.kept_nested hsurvives h hclosed hfit hopt
  obtain ⟨w, hw | ⟨hok, hreplaces⟩, -⟩ :=
    Inline.takeIn_replaces (b := b) hv.sound hiv.1 hiv.2 hnext'
  · cases (Prod.mk.inj (heq.trans hw.1)).1
  · obtain ⟨-, rfl⟩ := Prod.mk.inj (heq.trans hok)
    obtain ⟨nop, inner, f, hspliced⟩ :=
      hreplaces.spliced hv.sound hiv.2 hnext' hcb
      (hclosed' m _ hv.body) (hclosed' c b hbody)
    exact ⟨c, t, b, anchor, hcallee, hopt, hbody, ht, hfit', h.agree hext, nop,
      inner, f, hspliced⟩

end Fires

namespace Optimizer

/-- **What accesses of a program from a file address, and what their copies
do.**  An access in a body that has been read is to a slot the body declares, or
its opcode has the number of a slot that the body does not declare.  This is so
after every request, whatever has been inlined.  When a call is inlined, the
copy of an access to a declared slot is to a slot behind those of the caller,
and any other access is copied as it is.  So a copy addresses a slot that the
caller had before exactly if the number in the opcode is that of a slot which
the caller declares and the callee does not. -/
theorem slots_addressed [File.Codec] {data : List UInt8} {file : File}
    (hread : File.decode data = .ok file) :
    (file.program.NoDangling ∧ file.program.AllFit) ∧
    (∀ m b, (file.program.method m).body = some b → ∀ i ∈ file.program.code b,
      (file.program.body b).Addresses (file.program.instr i)) ∧
    (∀ {σ : Type} (cfg : InlineSettings) (passes : List Pass) (start s :
      Session σ) (fuel : Nat)
      (r : Request), start.program = file.program → start.memo.recent = [] →
      Served (ofPasses cfg passes) start s →
      returned (r.perform (ofPasses cfg passes) fuel s).1 = true →
      let p := (r.perform (ofPasses cfg passes) fuel s).2.program
      (p.NoDangling ∧ p.AllFit) ∧
        ∀ m b, (p.method m).body = some b →
          ∀ i ∈ p.code b, (p.body b).Addresses (p.instr i)) ∧
    ∀ {σ : Type} (cfg : InlineSettings) (passes : List Pass) (fuel : Nat) (s :
      Session σ) (m : MethodId)
      (v v' : Visit σ) (call : InstrId), v.Within s m → v.Offers call →
      v.session.program.NoDangling → v.session.program.AllFit →
      Inline.apply cfg ((ofPasses cfg passes).optimize fuel) v = (.ok (), v') →
      v'.editor.dirty = true →
      (v'.session.program.NoDangling ∧ v'.session.program.AllFit) ∧
      ∃ c t b anchor nop inner f, Inline.callee? cfg v.editing call = some c ∧
        (ofPasses cfg passes).optimize fuel (some c)
          (Inline.consulted cfg c v.session) = (.ok (), t) ∧
        (t.program.method c).body = some b ∧
          inner = Inline.copiedBody t.program b ∧
        (∀ pre post, v.session.program.code v.editor.body = pre ++
          call :: anchor :: post →
          v'.session.program.code v.editor.body = pre ++ nop :: inner.map f ++
            anchor :: post) ∧
        ∀ d ∈ inner, (t.program.instr d).access?.isSome →
          CopiesAccess (v.session.program.body v.editor.body).locals.size
            (t.program.body b)
            (v'.session.program.body v.editor.body) (t.program.instr d)
            (v'.session.program.instr (f d)) ∧
          ((∃ k : Nat, (v'.session.program.instr (f d)).localIndex? =
            some (k : Int) ∧
              k < (v.session.program.body v.editor.body).locals.size) ↔
            ∃ n : Nat, Instr.embeddedSlot? (t.program.instr d).op =
              some (n : Int) ∧
              (t.program.body b).locals.size ≤ n ∧
              n < (v.session.program.body v.editor.body).locals.size) := by
  obtain ⟨hlinked, hshare, hclosed, hbodies⟩ := File.decode_fresh hread
  have hfit : file.program.AllFit := fun m b hb => (hbodies m b hb).1
  refine ⟨⟨hclosed, hfit⟩, fun m b hb i hi => (hfit m b hb).addresses hi, ?_,
    ?_⟩
  · intro σ cfg passes start s fuel r hprogram hmemo hs hr p
    rw [← hprogram] at hlinked hshare hclosed hfit
    have hany : cfg.Accepts (fun _ => True) start.program.methods :=
      fun _ _ _ _ _ => trivial
    have hclosed' : p.NoDangling :=
      (survives_request hany Program.noDangling_survives hlinked hshare hmemo
        rfl hclosed hclosed hs fuel r hr).1
    have hfit' : p.AllFit :=
      (survives_request hany Program.allFit_survives hlinked hshare hmemo rfl
        hclosed hfit hs fuel r hr).1
    exact ⟨⟨hclosed', hfit'⟩, fun m b hb i hi => (hfit' m b hb).addresses hi⟩
  · intro σ cfg passes fuel s m v v' call h hi hclosed hfit happly hfires
    obtain ⟨hkept, c, t, b, anchor, hcallee, hopt, hbody, ht, hfit', hagree,
        nop, inner, f, hspliced⟩ :=
      Inline.spliced_of_fires h hi hclosed hfit happly hfires
    refine ⟨hkept, c, t, b, anchor, nop, inner, f, hcallee, hopt, hbody,
      hspliced.exact, ?_, ?_⟩
    · intro pre post hcut
      refine hspliced.code pre post ?_
      have hp : v.session.program.WellLinked := h.sound.linked
      rw [ht.linked.code, hagree.body, ← hp.code]
      exact hcut
    · intro d hd haccess
      have hcopies := hspliced.copiesAccess hd haccess
      rw [hagree.body] at hcopies
      have haddresses := (hfit' c b hbody).addresses (hspliced.shape.mem hd)
      exact ⟨hcopies, hcopies.own_iff haccess haddresses⟩

/-- The visit of the caller of `callerOfStore`, with the call on offer. -/
def atStore : Visit Unit :=
  Visit.advanced ⟨Session.setProgress
    { program := callerOfStoreFile.program, client := () } ⟨0⟩ .inProgress,
    { method := ⟨0⟩, body := ⟨0⟩ }⟩

/-- What the inliner makes of it. -/
def stored : Except Fault Unit × Visit Unit :=
  Inline.apply inlineStore
    ((ofPasses inlineStore [.inlineFunctionCall]).optimize 40) atStore

/-- The store of the callee goes to the slot behind that of the caller. -/
theorem slots_addressed_callerOfStore :
    File.decode (File.Header.encode ⟨File.formatVersion, 0⟩ ++
      callerOfStore.toItem.encode) = .ok callerOfStoreFile ∧
    atStore.Offers ⟨0⟩ ∧ stored.1 = .ok () ∧ stored.2.editor.dirty = true ∧
    stored.2.session.program.AllFit ∧
    ∃ (t : Session Unit) (f : InstrId → InstrId),
    CopiesAccess 1 (t.program.body ⟨1⟩) (stored.2.session.program.body ⟨0⟩)
    (t.program.instr ⟨3⟩) (stored.2.session.program.instr (f ⟨3⟩)) := by
  have hread : File.decode (File.Header.encode ⟨File.formatVersion, 0⟩ ++
      callerOfStore.toItem.encode) = .ok callerOfStoreFile :=
    File.decode_ok_iff.mpr ⟨_, callerOfStore, File.decode_header 0 _,
      File.readsBack_of_fits fits_callerOfStore, load_callerOfStore⟩
  obtain ⟨⟨hclosed, hfit⟩, -, -, hinlined⟩ := slots_addressed hread
  have hoffers : atStore.Offers ⟨0⟩ := ⟨by decide, by decide⟩
  have hwithin := (Visit.within_start (s :=
    ({ program := callerOfStoreFile.program, client := () } : Session Unit))
    (m := ⟨0⟩) (b := ⟨0⟩) (by decide) (by decide) rfl rfl (by decide)).advanced
  obtain ⟨hfires, hok⟩ : stored.2.editor.dirty = true ∧ stored.1 = .ok () := by
    decide +kernel
  have hstored : stored = (.ok (), stored.2) :=
    (Prod.eta stored).symm.trans (by rw [hok])
  obtain ⟨hkept, c, t, b, anchor, nop, inner, f, hcallee, hopt, hbody, hinner,
      -, hcopies⟩ :=
    hinlined inlineStore [.inlineFunctionCall] 40 _ ⟨0⟩ atStore stored.2
      ⟨0⟩ hwithin hoffers hclosed hfit hstored hfires
  obtain rfl : ⟨1⟩ = c :=
    Option.some.inj ((by decide : _ = some ⟨1⟩).symm.trans hcallee)
  obtain rfl : _ = t := congrArg Prod.snd hopt
  obtain rfl : ⟨1⟩ = b :=
    Option.some.inj ((by decide +kernel : _ = some ⟨1⟩).symm.trans hbody)
  have hstore : (⟨3⟩ : InstrId) ∈ inner := by
    rw [hinner]
    decide +kernel
  obtain ⟨hcopy, -⟩ := hcopies ⟨3⟩ hstore (by decide +kernel)
  have hsize : (atStore.session.program.body atStore.editor.body).locals.size =
      1 := by decide
  have hcaller : atStore.editor.body = ⟨0⟩ := by decide
  rw [hsize, hcaller] at hcopy
  exact ⟨hread, hoffers, hok, hfires, hkept.2, _, f, hcopy⟩

/-- `callerOfStore` with a callee that declares no slot and stores into one all
the same. -/
def callerOfUndeclared : File.Document where
  name := "a"
  kind := 1
  methods := [⟨"T", "g", [], ""⟩]
  modules := [⟨"m", [⟨⟨"", "T"⟩, [
    ⟨"f", [], "", 1,
      some ⟨1, true, [("int32", "n")], [0x60, 0, 0, 0, 0, 0x70]⟩⟩,
    ⟨"g", [], "", 1, some ⟨1, true, [], [0x22, 1, 0, 0, 0, 0x0a, 0x70]⟩⟩]⟩]⟩]

/-- What it is read as. -/
def callerOfUndeclaredFile : File where
  header := ⟨File.formatVersion, 0⟩
  assembly := callerOfStoreFile.assembly
  program := { callerOfStoreFile.program with
    bodies := #[⟨[⟨0⟩, ⟨1⟩], #[⟨0, "int32", "n"⟩], 1, true, some ⟨0⟩⟩,
      ⟨[⟨2⟩, ⟨3⟩, ⟨4⟩], #[], 1, true, some ⟨1⟩⟩] }

/-- The session after a run over both methods with the standard passes. -/
def ranCallerOfUndeclared : Except Fault Unit × Session Unit :=
  (Request.run callerOfUndeclaredFile.assembly.methods).perform
    (ofPasses inlineStore Pass.standard) 40
    { program := callerOfUndeclaredFile.program, client := () }

/-- **An access to a slot that is not declared is read**, if its opcode has the
number of the slot in itself; the same access with the slot in its operand is
refused.  When the callee is inlined, its store into a slot that it does not
have becomes a store into the slot of the caller. -/
theorem undeclared_slot_stored :
    File.decode (File.Header.encode ⟨File.formatVersion, 0⟩ ++
      callerOfUndeclared.toItem.encode) = .ok callerOfUndeclaredFile ∧
    ⟨3⟩ ∈ callerOfUndeclaredFile.program.code ⟨1⟩ ∧
    (callerOfUndeclaredFile.program.instr ⟨3⟩).access? = some .store ∧
    (callerOfUndeclaredFile.program.instr ⟨3⟩).localIndex? = some 0 ∧
    (callerOfUndeclaredFile.program.body ⟨1⟩).localAt? 0 = none ∧
    ¬ callerOfUndeclaredFile.program.AllDeclared ∧
    File.unpackBody callerOfUndeclared {} ⟨1, true, [], [0x22, 1, 0, 0, 0, 0x13,
      0, 0, 0x70]⟩ = .error (.failed ["local 0 at IL_0001"] .invalidIndex) ∧
    returned ranCallerOfUndeclared.1 = true ∧
    ranCallerOfUndeclared.2.stats.inlined = 1 ∧
    (ranCallerOfUndeclared.2.program.body ⟨0⟩).locals = #[⟨0, "int32", "n"⟩] ∧
    ∃ i ∈ ranCallerOfUndeclared.2.program.code ⟨0⟩,
    (ranCallerOfUndeclared.2.program.instr i).access? = some .store ∧
    (ranCallerOfUndeclared.2.program.instr i).localIndex? = some 0 := by
  have hfits : callerOfUndeclared.Fits := by
    constructor
    · decide +kernel
    · simp [callerOfUndeclared, File.StoredBody.Fits, Word.minSigned64,
        Word.maxSigned64]
  have hload : File.load callerOfUndeclared =
      .ok (callerOfUndeclaredFile.assembly,
        callerOfUndeclaredFile.program) := by cbv
  have hread : File.decode (File.Header.encode ⟨File.formatVersion, 0⟩ ++
      callerOfUndeclared.toItem.encode) = .ok callerOfUndeclaredFile :=
    File.decode_ok_iff.mpr ⟨_, callerOfUndeclared, File.decode_header 0 _,
      File.readsBack_of_fits hfits, hload⟩
  have hnone : (callerOfUndeclaredFile.program.body ⟨1⟩).localAt? 0 = none := by
    decide
  -- the run is evaluated once for all that is read off from its end
  have hran : returned ranCallerOfUndeclared.1 = true ∧
      ranCallerOfUndeclared.2.stats.inlined = 1 ∧
      (ranCallerOfUndeclared.2.program.body ⟨0⟩).locals = #[⟨0, "int32", "n"⟩] ∧
      ∃ i ∈ ranCallerOfUndeclared.2.program.code ⟨0⟩,
      (ranCallerOfUndeclared.2.program.instr i).access? = some .store ∧
      (ranCallerOfUndeclared.2.program.instr i).localIndex? = some 0 := by
    decide +kernel
  refine ⟨hread, by decide, by decide, by decide, hnone, ?_, by cbv, hran⟩
  intro hdeclared
  obtain ⟨n, hn, hslot⟩ :=
    hdeclared ⟨1⟩ ⟨1⟩ (by decide) ⟨3⟩ (by decide) (by decide)
  obtain rfl : 0 = n :=
    Option.some.inj ((by decide : _ = some (0 : Int)).symm.trans hn)
  rw [hnone] at hslot
  cases hslot

end Optimizer

end Bytecode
