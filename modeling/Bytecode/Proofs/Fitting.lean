import Mathlib
import Bytecode.Proofs.Contents
import Bytecode.Proofs.Splicing
import Bytecode.Proofs.Storing

/-!
# Bodies that can be packed

To be packed, an instruction needs an opcode that is assigned and an operand
that suits it: a branch stays in its body, and a slot is one of the body and has
a number of 16 bits.  All of this but the last outlasts the passes.  Local
passes bring in nothing but pops, `Effect.mem_contents`, and the copy of an
access names the slot of the caller that stands for the callee's, `Spliced.fit`.

Nobody looks at the number of that slot.  A body that fits is packed if its
slots are short, `StoresBody.exists`, and taking in a callee can put an end to
this.
-/

namespace Bytecode

open File (Suits ShortSlot)

/-! ### Opcodes and shapes -/

/-- Branches are the opcodes that a target belongs to. -/
theorem Opcode.isBranch_iff (op : Opcode) :
    op.isBranch = true ↔ op.shape = .target := by
  have htable : ∀ r ∈ table, r.kind.isBranch = true ↔
      r.shape = .target := by decide
  rw [isBranch, kind, shape]
  cases hrow : op.row? with
  | none => simp [Kind.isBranch]
  | some r => exact htable r (List.mem_of_find?_eq_some hrow)

/-- Opcodes that a slot belongs to are accesses, and have no slot of their
own. -/
theorem Opcode.access_of_shape {op : Opcode} (h : op.shape = .slot) :
    op.kind.access?.isSome ∧ Instr.embeddedSlot? op = none := by
  have htable : ∀ r ∈ table, r.shape = .slot →
      r.kind.access?.isSome ∧ Instr.embeddedSlot? ⟨r.code⟩ = none := by decide
  rw [shape] at h
  rw [kind]
  cases hrow : op.row? with
  | none =>
      rw [hrow] at h
      cases h
  | some r =>
      rw [hrow] at h
      have hcode : op = ⟨r.code⟩ := by
        have := List.find?_some hrow
        simp only [beq_iff_eq] at this
        rw [this]
      have hr := htable r (List.mem_of_find?_eq_some hrow) h
      exact ⟨hr.1, hcode ▸ hr.2⟩

/-- The opcode is assigned, and the operand suits it. -/
def Body.Takes (y : Body) (x : Opcode × Operand) : Prop :=
  x.1.isValid = true ∧ Suits y x.1.shape x.2

variable {y y' : Body} {x : Instr} {op : Opcode} {o : Operand} {l : Local}

/-- Only slots depend on the body. -/
theorem File.Suits.elsewhere {s : Shape} (h : Suits y s o)
    (hslots : ∀ l, s = .slot → o = .slot l → (y.localAt? l.index).isSome →
      (y'.localAt? l.index).isSome) : Suits y' s o := by
  cases h with
  | slot hl => exact .slot (hslots _ rfl rfl hl)
  | none => exact .none
  | target => exact .target
  | method => exact .method
  | field => exact .field
  | text => exact .text
  | int32 => exact .int32
  | int64 => exact .int64

/-- An operand suits a body with more slots too. -/
theorem File.Suits.mono {s : Shape} (h : Suits y s o)
    (hslots : ∀ n, (y.localAt? n).isSome → (y'.localAt? n).isSome) :
    Suits y' s o :=
  h.elsewhere fun l _ _ => hslots l.index

/-- The slots depend on the locals only. -/
theorem Body.localAt?_congr (h : y'.locals = y.locals) (n : Int) :
    y'.localAt? n = y.localAt? n := by
  rw [localAt?, localAt?, h]

/-- Where a branch goes does not matter. -/
theorem Body.takes_bare :
    y.Takes x.bare ↔ x.op.isValid = true ∧ Suits y x.op.shape x.operand := by
  rw [Takes, Instr.bare]
  by_cases hbr : x.isBranch = true
  · have hs := (Opcode.isBranch_iff x.op).mp hbr
    simp only [hs]
    exact and_congr_right fun _ => ⟨fun _ => .target, fun _ => .target⟩
  · rw [if_neg hbr]

/-- What stands in a short slot depends on the instruction up to its target. -/
theorem shortSlot_bare : ShortSlot x.bare ↔
    (x.op.shape = .slot → ∀ l ∈ x.operand.slot?, l.index ≤ 0xffff) := by
  rw [ShortSlot, Instr.bare]
  refine imp_congr_right fun hs => ?_
  have hbr : ¬ x.isBranch = true := by
    rw [Instr.isBranch, Opcode.isBranch_iff, hs]
    decide
  rw [if_neg hbr]

/-- Accesses are packed with the slots they are made for. -/
theorem Access.takes_of_encode {a : Access} (h : a.encode l = some (op, o))
    (hl : (y.localAt? l.index).isSome) : y.Takes (op, o) := by
  have hdirect : ∀ {base short long : UInt8},
      (∀ n < 4, Opcode.isValid ⟨base + Nat.toUInt8 n⟩ = true ∧
        Opcode.shape ⟨base + Nat.toUInt8 n⟩ = .none) → (∀ b ∈ [short, long],
          Opcode.isValid ⟨b⟩ = true ∧ Opcode.shape ⟨b⟩ = .slot) →
      encode.direct l base short long = some (op, o) → y.Takes (op, o) := by
    intro base short long hown hforms h
    rcases forms_of_direct h with ⟨n, hn, -, rfl⟩ | ⟨hop, rfl⟩
    · refine ⟨(hown n hn).1, ?_⟩
      rw [(hown n hn).2]
      exact .none
    · obtain ⟨b, hb, rfl⟩ : ∃ b ∈ [short, long], op = ⟨b⟩ := by
        rcases hop with rfl | rfl
        · exact ⟨short, by simp, rfl⟩
        · exact ⟨long, by simp, rfl⟩
      refine ⟨(hforms b hb).1, ?_⟩
      rw [(hforms b hb).2]
      exact .slot hl
  cases a with
  | address =>
      rw [encode] at h
      split at h
      · cases h
        exact ⟨rfl, .slot hl⟩
      · cases h
        exact ⟨rfl, .slot hl⟩
  | load => exact hdirect (by decide +kernel) (by decide +kernel) h
  | store => exact hdirect (by decide +kernel) (by decide +kernel) h

/-! ### Bodies -/

namespace Program

/-- Slots have the numbers of their places, and every instruction of the body
can be packed but for slots whose numbers take more than 16 bits. -/
structure Fit (p : Program) (b : BodyId) : Prop where
  numbered : ∀ (k : Nat) l, (p.body b).locals[k]? = some l → l.index = k
  takes : ∀ x ∈ p.contents b, (p.body b).Takes x

/-- The slots that are named in the body have numbers of 16 bits. -/
def ShortSlots (p : Program) (b : BodyId) : Prop :=
  ∀ i ∈ p.code b, ShortSlot (p.instr i).bare

variable {p q : Program} {b : BodyId}

instance : Decidable (p.ShortSlots b) :=
  inferInstanceAs (Decidable (∀ i ∈ p.code b, _))

/-- The contents are those of the instructions. -/
theorem mem_contents {x : Opcode × Operand} :
    x ∈ p.contents b ↔ ∃ i ∈ p.code b, (p.instr i).bare = x := by
  simp [contents]

/-- Short slots are a property of the contents. -/
theorem shortSlots_iff : p.ShortSlots b ↔ ∀ x ∈ p.contents b, ShortSlot x := by
  constructor
  · intro h x hx
    obtain ⟨i, hi, rfl⟩ := mem_contents.mp hx
    exact h i hi
  · exact fun h i hi => h _ (mem_contents.mpr ⟨i, hi, rfl⟩)

/-- In a fit body each instruction has a valid operation and an operand that
suits it. -/
theorem Fit.takes_instr (h : p.Fit b) {i : InstrId} (hi : i ∈ p.code b) :
    (p.instr i).op.isValid = true ∧
    Suits (p.body b) (p.instr i).op.shape (p.instr i).operand :=
  Body.takes_bare.mp (h.takes _ (mem_contents.mpr ⟨i, hi, rfl⟩))

/-- Slots that are declared have short numbers if there are not too many of
them. -/
theorem Fit.shortSlots (h : p.Fit b)
    (hsize : (p.body b).locals.size ≤ 0x10000) : p.ShortSlots b := by
  intro i hi
  refine shortSlot_bare.mpr fun hs l hl => ?_
  have hsuits := (h.takes_instr hi).2
  rw [hs] at hsuits
  generalize (p.instr i).operand = o at hl hsuits
  cases hsuits with
  | slot hsome =>
      obtain rfl := Option.some.inj hl
      have hlt := Body.lt_of_localAt? hsome
      omega

/-- Being fit depends on the body only. -/
theorem Fit.agree (h : p.Fit b) (hp : p.WellLinked) (hq : q.WellLinked)
    (hpq : AgreeOn b p q) : q.Fit b := by
  refine ⟨fun k l hl => ?_, fun x hx => ?_⟩
  · rw [hpq.body] at hl
    exact h.numbered k l hl
  · rw [hpq.contents hp hq] at hx
    rw [hpq.body]
    exact h.takes x hx

/-- So do short slots. -/
theorem ShortSlots.agree (h : p.ShortSlots b) (hp : p.WellLinked)
    (hq : q.WellLinked) (hpq : AgreeOn b p q) : q.ShortSlots b := by
  rw [shortSlots_iff] at h ⊢
  rwa [hpq.contents hp hq]

end Program

/-! ### Local passes -/

section Effect

variable {s : Editing} {i : InstrId} {pass : Pass} {q : Program}
  (he : s.Effect i pass q) (hs : s.Sound) (hi : i ∈ s.code)
  (hclosed : s.program.Closed s.editor.body)

include he hs hi hclosed

/-- Local passes bring in nothing but pops. -/
theorem Editing.Effect.mem_contents {x : Opcode × Operand}
    (hx : x ∈ q.contents s.editor.body) : x ∈ s.program.contents s.editor.body ∨
    x = Instr.bare ⟨.pop, .absent, none⟩ := by
  have hp := hs.linked
  have hrenewed : ∀ {op : Opcode} {o : Operand},
      x ∈ (s.program.renewed s.editor.body i op o).contents s.editor.body →
      x = Instr.bare ⟨op, o, none⟩ ∨ x ∈ s.program.contents s.editor.body := by
    intro op o hx
    have hx' := Multiset.mem_cons_of_mem (b := (s.program.instr i).bare) hx
    rw [Program.contents_renewed hp hi] at hx'
    exact Multiset.mem_cons.mp hx'
  have hwithout :
      x ∈ (s.program.without s.editor.body i).contents s.editor.body →
      x ∈ s.program.contents s.editor.body := by
    intro hx
    rw [Program.contents_without hp hi]
    exact Multiset.mem_cons_of_mem hx
  cases he with
  | @exit t hkind htarget =>
      -- The exit that is copied stands in the body itself.
      have hbr : (s.program.instr i).isBranch = true := by
        rw [Instr.isBranch, Opcode.isBranch,
          show Opcode.kind _ = .branch from hkind]
        rfl
      obtain ⟨t', ht, htarget'⟩ := hclosed i hi hbr
      cases htarget.symm.trans htarget'
      rcases hrenewed hx with rfl | hx
      · exact Or.inl (Program.mem_contents.mpr ⟨t, ht, rfl⟩)
      · exact Or.inl hx
  | jump | nop | dead => exact Or.inl (hwithout hx)
  | @pops n k =>
      have hnew := hp.newInstr .pop .absent
      have hi' :
          i ∈ (s.program.newInstr .pop .absent).2.code s.editor.body := by
        rwa [hp.code_newInstr]
      have hfree := Program.owner_fresh (p := s.program) .pop .absent
      have hmark := (Program.mem_code_exchange hnew hi' hfree).mpr (Or.inl rfl)
      have hlinked := hnew.exchange hi' (Program.has_newInstr _ _) hfree
      rw [Program.renewed, Program.contents_withPops hlinked hmark k] at hx
      rcases Multiset.mem_add.mp hx with hx | hx
      · exact Or.inr (Multiset.eq_of_mem_replicate hx)
      · exact (hrenewed hx).symm
  | chain hbr =>
      rw [Program.contents_setTarget (hp.has hi) hbr] at hx
      exact Or.inl hx

/-- An edit by a pass keeps the body fit. -/
theorem Editing.Effect.fit (h : s.program.Fit s.editor.body) :
    q.Fit s.editor.body := by
  have hlocals := (he.sameFrames hs hi).locals s.editor.body
  refine ⟨fun k l hl => ?_, fun x hx => ?_⟩
  · rw [hlocals] at hl
    exact h.numbered k l hl
  · rcases he.mem_contents hs hi hclosed hx with hx | rfl
    · refine ⟨(h.takes x hx).1, (h.takes x hx).2.mono fun n hn => ?_⟩
      rwa [Body.localAt?_congr hlocals]
    · exact ⟨rfl, .none⟩

/-- It keeps slots short. -/
theorem Editing.Effect.shortSlots (h : s.program.ShortSlots s.editor.body) :
    q.ShortSlots s.editor.body := by
  rw [Program.shortSlots_iff] at h ⊢
  intro x hx
  rcases he.mem_contents hs hi hclosed hx with hx | rfl
  · exact h x hx
  · nofun

end Effect

/-! ### Taking in a callee -/

namespace Inline

open Program

variable {p q : Program} {b c : BodyId} {call anchor nop : InstrId}
  {inner : List InstrId} {f : InstrId → InstrId} {d : InstrId}
  (h : Spliced b c call anchor nop inner f p q)

include h

/-- The new slots are numbered on from the old ones. -/
theorem Spliced.numbered
    (hnumbered : ∀ (k : Nat) l, (p.body b).locals[k]? = some l → l.index = k)
    (k : Nat) (l : Local) (hl : (q.body b).locals[k]? = some l) :
    l.index = k := by
  obtain ⟨ls, hls, -⟩ := h.slots
  rw [hls, Array.getElem?_append] at hl
  split at hl
  · exact hnumbered k l hl
  · rw [List.getElem?_toArray, getElem?_slotsFrom] at hl
    obtain ⟨x, -, rfl⟩ := Option.map_eq_some_iff.mp hl
    change (((p.body b).locals.size +
      (k - (p.body b).locals.size) : Nat) : Int) = k
    omega

/-- The copy of what fits in the callee fits in the caller. -/
theorem Spliced.takes_copy (hd : d ∈ inner) (hb : p.Fit b) (hc : p.Fit c) :
    (q.body b).Takes (q.instr (f d)).bare := by
  have hinner := List.ne_nil_of_mem hd
  obtain ⟨hvalid, hsuits⟩ := hc.takes_instr (h.shape.mem hd)
  refine Body.takes_bare.mpr ?_
  cases h.copy d hd with
  | exit hret hop =>
      rw [hop]
      exact ⟨rfl, .target⟩
  | branch hbr hop =>
      rw [hop, (Opcode.isBranch_iff _).mp hbr]
      exact ⟨hvalid, .target⟩
  | @access a n l' _ _ hl henc =>
      obtain ⟨k, hk, hslot⟩ :=
        Body.localAt?_eq_some.mp (show (q.body b).localAt? _ = some l' from hl)
      have hindex := h.numbered hb.numbered k l' hslot
      refine Access.takes_of_encode henc ?_
      rw [hindex, ← hk, show (q.body b).localAt? _ = some l' from hl]
      rfl
  | plain hret hbr hno hop ho =>
      rw [hop, ho]
      refine ⟨hvalid, hsuits.elsewhere fun l hs ho hl => ?_⟩
      -- A slot of the callee has its place among those of the caller, so this
      -- is no case.
      obtain ⟨haccess, hembedded⟩ := Opcode.access_of_shape hs
      have hindex : (p.instr d).localIndex? = some l.index := by
        have hsome : ¬ (p.instr d).access?.isNone = true := by
          rw [Option.isNone_iff_eq_none, ← ne_eq, ← Option.isSome_iff_ne_none]
          exact haccess
        rw [Instr.localIndex?, if_neg hsome, hembedded, ho]
        rfl
      obtain ⟨l', hl'⟩ := Option.isSome_iff_exists.mp hl
      cases (h.localAt?_new hinner hl').symm.trans (hno _ hindex)

/-- **Taking in a callee that fits keeps the caller fit.** -/
theorem Spliced.fit (hp : p.WellLinked) (hcall : call ∈ p.code b)
    (hnext : p.next call = some anchor) (hb : p.Fit b) (hc : p.Fit c) :
    q.Fit b := by
  refine ⟨h.numbered hb.numbered, fun x hx => ?_⟩
  obtain ⟨k, hk, rfl⟩ := mem_contents.mp hx
  rcases h.mem_cases hp hcall hnext hk with ⟨hk, hkc⟩ | rfl | ⟨d, hd, rfl⟩
  · have hold := h.old k hk hkc
    rw [bare_congr hold.op hold.operand]
    obtain ⟨hvalid, hsuits⟩ := hb.takes_instr hk
    refine Body.takes_bare.mpr ⟨hvalid, hsuits.mono fun n hn => ?_⟩
    obtain ⟨l, hl⟩ := Option.isSome_iff_exists.mp hn
    rw [h.localAt?_old hl]
    rfl
  · refine Body.takes_bare.mpr ?_
    rw [h.isNop]
    exact ⟨rfl, .none⟩
  · exact h.takes_copy hd hb hc

end Inline

/-! ### Packing -/

namespace File

variable {p : Program} {b : BodyId} {t : Tables}

/-- An instruction suits as it is unpacked. -/
theorem suits_ofInstr (y' : Body) :
    Suits y x.op.shape (Unpacked.ofInstr y' x).operand ↔
    Suits y x.op.shape x.operand := by
  by_cases hs : x.op.shape = .target
  · rw [hs]
    exact ⟨fun _ => .target, fun _ => .target⟩
  · rw [Unpacked.operand_ofInstr hs]

/-- Unpacking an operand keeps its slot. -/
theorem shortSlot_ofInstr (y' : Body) :
    ShortSlot (x.op, (Unpacked.ofInstr y' x).operand) ↔ ShortSlot x.bare := by
  refine Iff.trans ?_ shortSlot_bare.symm
  refine imp_congr_right fun hs => ?_
  rw [Unpacked.operand_ofInstr (by rw [show x.op.shape = .slot from hs]; nofun)]

/-- Only a body that names short slots can be packed. -/
theorem StoresBody.shortSlots {s : StoredBody} {t' : Tables}
    (h : StoresBody p b t s t') : p.ShortSlots b := by
  intro i hi
  refine (shortSlot_ofInstr (linkedBody p b)).mp fun hs l hl => ?_
  obtain ⟨_, n, _, hn⟩ := h.code.each _ (List.mem_map_of_mem hi)
  cases hn with
  | slot _ ho hindex hle =>
      rw [ho] at hl
      obtain rfl := Option.some.inj hl
      omega
  | none hs' | target hs' | method hs' | field hs' | text hs' | int32 hs'
      | int64 hs' =>
      exact absurd (hs'.symm.trans hs) nofun

/-- **A body that fits can be packed** if no slot is named whose number is too
long. -/
theorem StoresBody.exists (h : p.Fit b) (hclosed : p.Closed b)
    (hshort : p.ShortSlots b) (t : Tables) : ∃ s t', StoresBody p b t s t' := by
  have heach : ∀ u ∈ unpacked p b, u.op.isValid = true ∧
      ∀ t, ∃ n t', Numbers (linkedBody p b) t u n t' := by
    intro u hu
    obtain ⟨i, hi, rfl⟩ := List.mem_map.mp hu
    obtain ⟨hvalid, hsuits⟩ := h.takes_instr hi
    have hsuits' : Suits (linkedBody p b) _ _ := hsuits.mono fun n hn => hn
    refine ⟨hvalid, numbers_of_suits ((suits_ofInstr _).mpr hsuits')
      (fun hs => ?_) ((shortSlot_ofInstr _).mpr (hshort i hi))⟩
    obtain ⟨t, ht, htarget⟩ := hclosed i hi ((Opcode.isBranch_iff _).mpr hs)
    rw [Unpacked.branch_ofInstr hs,
      show (p.instr i).target? = some t from htarget]
    exact List.isSome_idxOf?.mpr ht
  obtain ⟨bytes, t', hpacks⟩ := Packs.exists heach t
  exact ⟨⟨_, _, _, bytes⟩, t', hpacks, rfl, rfl, rfl⟩

end File

end Bytecode
