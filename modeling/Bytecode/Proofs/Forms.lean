import Bytecode.Proofs.Resting
import Bytecode.Proofs.Splicing

/-!
# Bodies of one form

The form of a body is what it says when its instructions are named by their
places: opcodes, operands and the places that branches go to, and the frame.
Two bodies have the same form if one comes from the other by renaming its
instructions, and then everything that passes look at is renamed with them:
neighbours, targets, the branches to an instruction, the end of a chain.

The main statements are `Renames.form_eq` and `exists_renames`, which take one
view to the other.
-/

namespace Bytecode

/-- A list without repetition can be renamed to any other of its length. -/
theorem exists_map_eq {l l' : List InstrId} (hl : l.Nodup)
    (h : l'.length = l.length) : ∃ f : InstrId → InstrId, l' = l.map f := by
  induction l generalizing l' with
  | nil => exact ⟨id, List.length_eq_zero_iff.mp h⟩
  | cons i l ih =>
      obtain ⟨hi, hl⟩ := List.nodup_cons.mp hl
      cases l' with
      | nil => cases h
      | cons j l' =>
          obtain ⟨f, rfl⟩ := ih hl (Nat.succ.inj h)
          refine ⟨Function.update f i j, ?_⟩
          rw [List.map_cons, Function.update_self, List.cons_inj_right]
          refine List.map_congr_left fun k hk =>
            (Function.update_of_ne ?_ _ _).symm
          rintro rfl
          exact hi hk

namespace Program

variable {p p' q q' r : Program} {b : BodyId} {i j k t n mark : InstrId}
  {f g : InstrId → InstrId}

/-- How an instruction of a body reads: with its operand, or with the place that
it goes to. -/
def reading (p : Program) (b : BodyId) (i : InstrId) :
    Opcode × (Operand ⊕ Option Nat) :=
  let x := p.instr i
  (x.op, if x.isBranch then .inr (x.target?.bind fun t => (p.code b).idxOf? t)
    else .inl x.operand)

/-- What a body says when its instructions have no names: how they read, and the
frame. -/
def form (p : Program) (b : BodyId) :
    List (Opcode × (Operand ⊕ Option Nat)) × Body :=
  ((p.code b).map (p.reading b), (p.body b).frame)

/-- `f` renames the instructions of a body. -/
structure Renames (f : InstrId → InstrId) (b : BodyId) (p q : Program) :
    Prop where
  code : q.code b = (p.code b).map f
  instr : ∀ i ∈ p.code b, (p.instr i).Redirected f (q.instr (f i))
  frame : (q.body b).frame = (p.body b).frame

/-- A form depends on the body only. -/
theorem form_agree (hp : p.WellLinked) (hq : q.WellLinked) (h : AgreeOn b p q) :
    q.form b = p.form b := by
  have hcode := h.code_eq hp hq
  rw [form, form, hcode, h.body]
  refine Prod.ext (List.map_congr_left fun i hi => ?_) rfl
  rw [reading, reading, hcode, h.instr_eq hp hi]

/-- A body is a renaming of itself. -/
theorem renames_refl (p : Program) (b : BodyId) : Renames id b p p :=
  ⟨(List.map_id _).symm, fun _ _ => .refl _, rfl⟩

namespace Renames

section Basics

variable (h : Renames f b p q)

include h

/-- Instructions are renamed to instructions of the other body. -/
theorem mem (hi : i ∈ p.code b) : f i ∈ q.code b := by
  rw [h.code]
  exact List.mem_map_of_mem hi

/-- Each of those is the new name of one. -/
theorem exists_of_mem (hj : j ∈ q.code b) : ∃ i ∈ p.code b, f i = j := by
  rw [h.code] at hj
  exact List.mem_map.mp hj

/-- A renaming keeps what instructions do. -/
theorem kind (hi : i ∈ p.code b) : (q.instr (f i)).kind = (p.instr i).kind := by
  rw [Instr.kind, (h.instr i hi).op, Instr.kind]

/-- It keeps where branches go. -/
theorem target? (hi : i ∈ p.code b) (hbr : (p.instr i).isBranch = true) :
    q.target? (f i) = (p.target? i).map f :=
  (h.instr i hi).target hbr

/-- Branches that stay inside still do. -/
theorem closed (hclosed : p.Closed b) : q.Closed b := by
  intro j hj hbr
  obtain ⟨i, hi, rfl⟩ := h.exists_of_mem hj
  rw [(h.instr i hi).isBranch] at hbr
  obtain ⟨t, ht, htarget⟩ := hclosed i hi hbr
  exact ⟨f t, h.mem ht, by rw [h.target? hi hbr, htarget, Option.map_some]⟩

/-- Other bodies may have been changed in between. -/
theorem agree (hp : p.WellLinked) (hp' : p'.WellLinked) (hq : q.WellLinked)
    (hq' : q'.WellLinked) (hpp : AgreeOn b p p') (hqq : AgreeOn b q q') :
    Renames f b p' q' where
  code := by rw [hqq.code_eq hq hq', hpp.code_eq hp hp', h.code]
  instr := by
    intro i hi
    rw [hpp.code_eq hp hp'] at hi
    rw [hqq.instr_eq hq (h.mem hi), hpp.instr_eq hp hi]
    exact h.instr i hi
  frame := by rw [hqq.body, hpp.body, h.frame]

variable (hq : q.WellLinked)

include hq

/-- Different instructions have different names. -/
theorem inj (hi : i ∈ p.code b) (hj : j ∈ p.code b) (hij : f i = f j) :
    i = j := by
  have hnd := hq.nodup_code b
  rw [h.code] at hnd
  exact List.inj_on_of_nodup_map hnd hi hj hij

/-- Places in the code stay what they are. -/
theorem idxOf? (ht : t ∈ p.code b) :
    (q.code b).idxOf? (f t) = (p.code b).idxOf? t := by
  rw [h.code]
  exact idxOf?_map fun k hk => h.inj hq hk ht

/-- **A renamed body has the same form.** -/
theorem form_eq (hclosed : p.Closed b) : q.form b = p.form b := by
  rw [form, form, h.code, h.frame, List.map_map]
  refine Prod.ext (List.map_congr_left fun i hi => ?_) rfl
  have hi' := h.instr i hi
  rw [Function.comp_apply, reading, reading]
  simp only [hi'.op, hi'.isBranch]
  refine Prod.ext rfl ?_
  simp only
  split
  · next hbr =>
      obtain ⟨t, ht, htarget⟩ := hclosed i hi hbr
      have htarget' : (p.instr i).target? = some t := htarget
      rw [hi'.target hbr, htarget', Option.map_some, Option.bind_some,
        Option.bind_some, h.idxOf? hq ht]
  · next hbr => rw [hi'.operand (by simpa using hbr)]

/-! ### Neighbours -/

/-- Successors are renamed to successors. -/
theorem next (hp : p.WellLinked) (hi : i ∈ p.code b) :
    q.next (f i) = (p.next i).map f := by
  rw [hq.next (h.mem hi), hp.next hi, h.code]
  exact elemAfter?_map fun k hk => h.inj hq hk hi

/-- Predecessors are renamed to predecessors. -/
theorem prev (hp : p.WellLinked) (hi : i ∈ p.code b) :
    q.prev (f i) = (p.prev i).map f := by
  rw [hq.prev (h.mem hi), hp.prev hi, h.code]
  exact elemBefore?_map fun k hk => h.inj hq hk hi

/-- The first instruction is renamed to the first. -/
theorem first? (hp : p.WellLinked) : q.first? b = (p.first? b).map f := by
  rw [hq.first?, hp.first?, h.code, List.head?_map]

/-- Branches go to an instruction if they go to it under its new name. -/
theorem branchesTo_nil (hclosed : p.Closed b) (hi : i ∈ p.code b) :
    q.branchesTo b (some (f i)) = [] ↔ p.branchesTo b (some i) = [] := by
  rw [List.eq_nil_iff_forall_not_mem, List.eq_nil_iff_forall_not_mem]
  constructor
  · intro hno k hk
    obtain ⟨hk, hbr, htarget⟩ := mem_branchesTo.mp hk
    refine hno (f k) (mem_branchesTo.mpr ⟨h.mem hk, ?_, ?_⟩)
    · rwa [(h.instr k hk).isBranch]
    · rw [h.target? hk hbr, htarget, Option.map_some]
  · intro hno j hj
    obtain ⟨hj, hbr, htarget⟩ := mem_branchesTo.mp hj
    obtain ⟨k, hk, rfl⟩ := h.exists_of_mem hj
    rw [(h.instr k hk).isBranch] at hbr
    obtain ⟨t, ht, hto⟩ := hclosed k hk hbr
    rw [h.target? hk hbr, hto, Option.map_some, Option.some.injEq] at htarget
    rw [h.inj hq ht hi htarget] at hto
    exact hno k (mem_branchesTo.mpr ⟨hk, hbr, hto⟩)

end Basics

/-! ### Chains of branches -/

/-- With room for all instructions that have not been seen, the end of a chain
is found under its new name. -/
theorem chainEnd? (h : Renames f b p q) (hq : q.WellLinked)
    (hclosed : p.Closed b) {m n : Nat} {seen : List InstrId}
    (hseen : seen.Nodup) (hsub : seen ⊆ p.code b) (hi : i ∈ p.code b)
    (hm : (p.code b).length < m + seen.length)
    (hn : (p.code b).length < n + seen.length) :
    Peephole.chainEnd? q n (seen.map f) (f i) =
    (Peephole.chainEnd? p m seen i).map f := by
  have hroom : seen.length ≤ (p.code b).length :=
    (List.subperm_of_subset hseen hsub).length_le
  induction m generalizing n seen i with
  | zero => omega
  | succ m ih =>
      cases n with
      | zero => omega
      | succ n =>
          rw [Peephole.chainEnd?, Peephole.chainEnd?]
          simp only [h.kind hi]
          by_cases hkind : (p.instr i).kind = .branch
          · have hbr : (p.instr i).isBranch = true := by
              rw [Instr.isBranch, Opcode.isBranch,
                show (p.instr i).op.kind = .branch from hkind]
              rfl
            have hmem : f i ∈ seen.map f ↔ i ∈ seen := by
              refine ⟨fun hfi => ?_, List.mem_map_of_mem⟩
              obtain ⟨k, hk, hki⟩ := List.mem_map.mp hfi
              rwa [← h.inj hq (hsub hk) hi hki]
            rw [if_neg (not_not.mpr hkind), if_neg (not_not.mpr hkind)]
            simp only [hmem]
            split
            · rfl
            · next hout =>
                obtain ⟨t, ht, htarget⟩ := hclosed i hi hbr
                have htarget' : (p.instr i).target? = some t := htarget
                rw [(h.instr i hi).target hbr, htarget', Option.map_some,
                  Option.bind_some, Option.bind_some]
                have hnd : (i :: seen).Nodup :=
                  List.nodup_cons.mpr ⟨hout, hseen⟩
                have hsub' : i :: seen ⊆ p.code b :=
                  List.cons_subset.mpr ⟨hi, hsub⟩
                exact ih hnd hsub' ht (by rw [List.length_cons]; omega)
                  (by rw [List.length_cons]; omega)
                  (List.subperm_of_subset hnd hsub').length_le
          · rw [if_pos hkind, if_pos hkind]
            rfl

end Renames

/-! ### From forms to renamings -/

/-- **Bodies of the same form** differ in the names of their instructions. -/
theorem exists_renames (hp : p.WellLinked) (hq : q.WellLinked)
    (hclosed : p.Closed b) (h : q.form b = p.form b) :
    ∃ f, Renames f b p q := by
  obtain ⟨hreadings, hframe⟩ := Prod.mk.inj h
  have hlength : (q.code b).length = (p.code b).length := by
    simpa using congrArg List.length hreadings
  obtain ⟨f, hf⟩ := exists_map_eq (hp.nodup_code b) hlength
  refine ⟨f, hf, fun i hi => ?_, hframe⟩
  have hsame : ∀ k ∈ p.code b, q.reading b (f k) = p.reading b k := by
    rw [hf, List.map_map] at hreadings
    exact List.map_inj_left.mp hreadings
  have hinj : ∀ k ∈ p.code b, ∀ t ∈ p.code b, f k = f t → k = t := by
    have hnd := hq.nodup_code b
    rw [hf] at hnd
    exact fun k hk t ht => List.inj_on_of_nodup_map hnd hk ht
  have hread := hsame i hi
  simp only [reading] at hread
  obtain ⟨hop, hrest⟩ := Prod.mk.inj hread
  have hbranch : (q.instr (f i)).isBranch = (p.instr i).isBranch := by
    rw [Instr.isBranch, hop, Instr.isBranch]
  rw [hbranch] at hrest
  refine ⟨hop, fun hbr => ?_, fun hbr => ?_⟩
  · rw [if_neg (by simp [hbr]), if_neg (by simp [hbr])] at hrest
    exact Sum.inl.inj hrest
  · obtain ⟨t, ht, htarget⟩ := hclosed i hi hbr
    have htarget' : (p.instr i).target? = some t := htarget
    rw [if_pos hbr, if_pos hbr, htarget', Option.bind_some] at hrest
    have hplace := Sum.inr.inj hrest
    obtain ⟨n, hn⟩ : ∃ n, (p.code b).idxOf? t = some n := by
      rwa [← Option.isSome_iff_exists, List.isSome_idxOf?]
    rw [hn, Option.bind_eq_some_iff] at hplace
    obtain ⟨u, hu, hplace⟩ := hplace
    have hft : (q.code b).idxOf? (f t) = some n := by
      rw [hf, idxOf?_map fun k hk => hinj k hk t ht, hn]
    rw [hu, htarget', Option.map_some, idxOf?_inj hplace hft]

/-- A renaming can be undone. -/
theorem Renames.inverse (h : Renames f b p q) (hp : p.WellLinked)
    (hq : q.WellLinked) (hclosed : p.Closed b) :
    ∃ g, Renames g b q p ∧ ∀ i ∈ p.code b, g (f i) = i := by
  obtain ⟨g, hg⟩ :=
    exists_renames hq hp (h.closed hclosed) (h.form_eq hq hclosed).symm
  refine ⟨g, hg, ?_⟩
  have hback := hg.code
  rw [h.code, List.map_map] at hback
  exact List.map_inj_left.mp (hback.symm.trans (List.map_id _).symm)

end Program

end Bytecode
