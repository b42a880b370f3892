import Bytecode.Proofs.Firing

/-!
# What a body contains

The contents of a body are its instructions whatever their order and wherever
its branches go.  Each change adds to the contents or takes from them, and what
is counted in a body, such as its branches or its calls, is counted in its
contents.

Every local pass makes a body lighter: there are fewer branches, or as many and
fewer instructions, or as many of both and fewer branches that go to a branch.
-/

namespace Bytecode

/-- Opcode and operand, but not where a branch goes. -/
def Instr.bare (x : Instr) : Opcode × Operand :=
  (x.op, if x.isBranch then .absent else x.operand)

/-- Two instructions are the same up to targets if their operations and plain
operands are. -/
theorem bare_congr {x y : Instr} (hop : y.op = x.op)
    (hoperand : x.isBranch = false → y.operand = x.operand) :
    y.bare = x.bare := by
  have hbranch : y.isBranch = x.isBranch := by
    rw [Instr.isBranch, hop, Instr.isBranch]
  rw [Instr.bare, Instr.bare, hop, hbranch]
  split
  · rfl
  · next hbr => rw [hoperand (by simpa using hbr)]

/-- Replacing an entry exchanges it for the new one. -/
theorem perm_replace {l : List InstrId} (hl : l.Nodup) {i : InstrId}
    (hi : i ∈ l) (j : InstrId) : (i :: l.replace i j).Perm (j :: l) := by
  obtain ⟨pre, post, rfl, hpre, -⟩ := exists_cut hl hi
  rw [replace_cut hpre]
  have hout : (i :: (pre ++ j :: post)).Perm (i :: j :: (pre ++ post)) :=
    List.perm_middle.cons i
  have hback : (j :: i :: (pre ++ post)).Perm (j :: (pre ++ i :: post)) :=
    List.perm_middle.symm.cons j
  exact (hout.trans (List.Perm.swap _ _ _)).trans hback

namespace Program

variable {p q : Program} {b : BodyId} {i j k mark t : InstrId} {op : Opcode}
  {o : Operand}

/-- The instructions of a body, whatever their order and wherever its branches
go. -/
def contents (p : Program) (b : BodyId) : Multiset (Opcode × Operand) :=
  (p.code b).map fun i => (p.instr i).bare

/-- A change of targets in a body leaves what instructions are up to targets. -/
theorem ChangedIn.bare (h : ChangedIn b p q) (hi : p.Has i) :
    (q.instr i).bare = (p.instr i).bare :=
  bare_congr (h.op i hi) (h.operand i hi)

/-- Contents after a change, by what the code is then. -/
theorem ChangedIn.map_bare (h : ChangedIn b p q) {l : List InstrId}
    (hl : ∀ i ∈ l, p.Has i) :
    (l.map fun i => (q.instr i).bare) = l.map fun i => (p.instr i).bare :=
  List.map_congr_left fun i hi => h.bare (hl i hi)

/-- A body that two programs agree on has the same contents in both. -/
theorem AgreeOn.contents (h : AgreeOn b p q) (hp : p.WellLinked)
    (hq : q.WellLinked) : q.contents b = p.contents b := by
  have hcode : q.code b = p.code b := by rw [hq.code, h.body, hp.code]
  rw [Program.contents, Program.contents, hcode]
  congr 1
  refine List.map_congr_left fun i hi => ?_
  rw [h.instr i (by rwa [← hp.code])]

/-- Deleting an instruction takes it out of the contents. -/
theorem contents_without (hp : p.WellLinked) (hi : i ∈ p.code b) :
    p.contents b = (p.instr i).bare ::ₘ (p.without b i).contents b := by
  have hchanged := changedIn_without hp hi
  rw [contents, contents, code_without hp hi, hchanged.map_bare
    fun k hk => hp.has (List.mem_of_mem_erase hk), Multiset.cons_coe,
    ← List.map_cons (f := fun i => (p.instr i).bare), Multiset.coe_eq_coe]
  exact (List.perm_cons_erase hi).map _

/-- Replacing an instruction exchanges it in the contents. -/
theorem contents_exchange (hp : p.WellLinked) (hi : i ∈ p.code b) (hj : p.Has j)
    (hfree : p.owner j = none) : (p.instr i).bare ::ₘ
    (p.exchange b i j).contents b = (p.instr j).bare ::ₘ p.contents b := by
  have hchanged := changedIn_exchange hp hi hj hfree
  have hhas : ∀ k ∈ (p.code b).replace i j, p.Has k := by
    intro k hk
    rw [← code_exchange hp hi, mem_code_exchange hp hi hfree] at hk
    rcases hk with rfl | ⟨hk, -⟩
    · exact hj
    · exact hp.has hk
  rw [contents, contents, code_exchange hp hi, hchanged.map_bare hhas,
    Multiset.cons_coe,
    Multiset.cons_coe, ← List.map_cons (f := fun i => (p.instr i).bare),
    ← List.map_cons (f := fun i => (p.instr i).bare), Multiset.coe_eq_coe]
  exact (perm_replace (hp.nodup_code b) hi j).map _

/-- A new instruction is in no body yet. -/
theorem contents_newInstr (hp : p.WellLinked) (op : Opcode) (o : Operand) :
    (p.newInstr op o).2.contents b = p.contents b := by
  rw [contents, contents, hp.code_newInstr,
    (changedIn_newInstr (b := b) op o).map_bare fun k hk => hp.has hk]

/-- Renewing an instruction puts the new operation in its place. -/
theorem contents_renewed (hp : p.WellLinked) (hi : i ∈ p.code b) (op : Opcode)
    (o : Operand) : (p.instr i).bare ::ₘ (p.renewed b i op o).contents b =
    Instr.bare ⟨op, o, none⟩ ::ₘ p.contents b := by
  have hi' : i ∈ (p.newInstr op o).2.code b := by rwa [hp.code_newInstr]
  have hchange := contents_exchange (hp.newInstr op o) hi' (has_newInstr op o)
    (owner_fresh op o)
  rwa [instr_newInstr_of_has op o (hp.has hi), instr_newInstr, if_pos rfl,
    contents_newInstr hp] at hchange

/-- Inserting an instruction adds it to the contents. -/
theorem contents_withNew (hp : p.WellLinked) (hmark : mark ∈ p.code b)
    (op : Opcode) (o : Operand) : (p.withNew b mark op o).contents b =
    Instr.bare ⟨op, o, none⟩ ::ₘ p.contents b := by
  have hmark' : ∀ k ∈ some mark, k ∈ p.code b := by
    rintro k ⟨⟩
    exact hmark
  have hperm : ((p.withNew b mark op o).code b).Perm ((p.newInstr op o).1 ::
      p.code b) := by
    rw [code_withNew hp hmark]
    exact placed_perm (hp.nodup_code b) hmark'
  have hnew : ((p.withNew b mark op o).instr (p.newInstr op o).1).bare =
      Instr.bare ⟨op, o, none⟩ := by
    rw [instr_withNew, if_pos rfl]
    rfl
  rw [contents, contents, Multiset.coe_eq_coe.mpr (hperm.map _), List.map_cons,
    hnew, (changedIn_withNew hp hmark op o).map_bare fun k hk => hp.has hk,
    Multiset.cons_coe]

/-- Inserting pops adds as many pops. -/
theorem contents_withPops (hp : p.WellLinked) (hmark : mark ∈ p.code b)
    (n : Nat) : (withPops b mark n p).contents b =
    Multiset.replicate n (Instr.bare ⟨.pop, .absent, none⟩) + p.contents b := by
  induction n generalizing p with
  | zero => rw [withPops, Multiset.replicate_zero, zero_add]
  | succ n ih =>
      rw [withPops, ih (hp.withNew hmark _ _)
        ((mem_code_withNew hp hmark _ _).mpr (Or.inr hmark)),
        contents_withNew hp hmark, Multiset.replicate_succ, Multiset.cons_add,
        Multiset.add_cons]

/-- Redirecting references keeps the contents, which do not see targets. -/
theorem contents_redirect (hp : p.WellLinked) (old new : Option InstrId) :
    (p.redirect b old new).contents b = p.contents b := by
  rw [contents, contents, code_redirect,
    (changedIn_redirect hp b old new).map_bare fun k hk => hp.has hk]

/-- So does retargeting a branch. -/
theorem contents_setTarget (hi : p.Has i) (hbr : (p.instr i).isBranch = true) :
    (p.setTarget i (some t)).contents b = p.contents b := by
  have hcode : (p.setTarget i (some t)).code b = p.code b := code_setTargets [i]
  rw [contents, contents, hcode]
  congr 1
  refine List.map_congr_left fun k _ => ?_
  rw [instr_setTarget hi]
  split
  · next hk =>
      rw [hk]
      exact bare_congr rfl fun hno => by rw [hbr] at hno; cases hno
  · rfl

/-! ### The weight of a body -/

/-- The branches of a body. -/
def branches (p : Program) (b : BodyId) : Nat :=
  (p.contents b).countP fun x => x.1.isBranch

/-- Whether `i` is a branch to an unconditional branch. -/
def isDouble (p : Program) (i : InstrId) : Bool :=
  (p.instr i).isBranch && (p.target? i).any fun t => (p.instr t).kind = .branch

/-- What a body weighs: its branches, its instructions and its branches to
branches. -/
def weight (p : Program) (b : BodyId) : Nat × Nat × Nat :=
  (p.branches b, (p.contents b).card, (p.code b).countP p.isDouble)

/-- The order of weights. -/
def Lighter : Nat × Nat × Nat → Nat × Nat × Nat → Prop :=
  Prod.Lex (· < ·) (Prod.Lex (· < ·) (· < ·))

/-- There is no endless descent in weight. -/
theorem wellFounded_lighter : WellFounded Lighter :=
  WellFounded.prod_lex wellFounded_lt
    (WellFounded.prod_lex wellFounded_lt wellFounded_lt)

/-- One more instruction counts once if it branches. -/
theorem countP_bare (x : Instr) (m : Multiset (Opcode × Operand)) :
    (x.bare ::ₘ m).countP (fun y => y.1.isBranch) =
      m.countP (fun y => y.1.isBranch) + if x.isBranch then 1 else 0 :=
  Multiset.countP_cons _ _ _

/-- Fewer branches weigh less. -/
theorem lighter_of_branches (h : q.branches b < p.branches b) :
    Lighter (q.weight b) (p.weight b) :=
  Prod.Lex.left _ _ h

/-- A body without one of its instructions is lighter. -/
theorem lighter_without (hp : p.WellLinked) (hi : i ∈ p.code b) :
    Lighter ((p.without b i).weight b) (p.weight b) := by
  have hcontents := contents_without hp hi
  by_cases hbr : (p.instr i).isBranch = true
  · apply lighter_of_branches
    rw [branches, branches, hcontents, countP_bare, if_pos hbr]
    exact Nat.lt_succ_self _
  · have hbranches : p.branches b = (p.without b i).branches b := by
      rw [branches, hcontents, countP_bare, if_neg hbr]
      rfl
    rw [weight, weight, hbranches]
    apply Prod.Lex.right
    apply Prod.Lex.left
    rw [hcontents, Multiset.card_cons]
    exact Nat.lt_succ_self _

/-- A body in which another instruction has taken the place of a branch has
fewer of them. -/
theorem branches_renewed (hp : p.WellLinked) (hi : i ∈ p.code b)
    (hbr : (p.instr i).isBranch = true) (op : Opcode)
    (hop : op.isBranch = false) (o : Operand) :
    p.branches b = (p.renewed b i op o).branches b + 1 := by
  have hcount := congrArg (Multiset.countP fun x => x.1.isBranch)
    (contents_renewed hp hi op o)
  rw [countP_bare, countP_bare, if_pos hbr,
    if_neg (by simp [Instr.isBranch, hop])] at hcount
  exact hcount.symm

/-- Where the end of a chain lies, there is no unconditional branch. -/
theorem kind_chainEnd {n : Nat} {seen : List InstrId}
    (h : Peephole.chainEnd? p n seen i = some t) :
    (p.instr t).kind ≠ .branch := by
  induction n generalizing seen i with
  | zero => cases h
  | succ n ih =>
      rw [Peephole.chainEnd?] at h
      split at h
      · next hkind =>
          cases h
          exact hkind
      · split at h
        · cases h
        · obtain ⟨k, -, hrest⟩ := Option.bind_eq_some_iff.mp h
          exact ih hrest

/-- A body one of whose double branches goes elsewhere is lighter. -/
theorem lighter_setTarget (hp : p.WellLinked) (hi : i ∈ p.code b)
    (hdouble : p.isDouble i = true) (ht : (p.instr t).kind ≠ .branch) :
    Lighter ((p.setTarget i (some t)).weight b) (p.weight b) := by
  have hhas := hp.has hi
  have hbr : (p.instr i).isBranch = true := by
    rw [isDouble, Bool.and_eq_true] at hdouble
    exact hdouble.1
  have hcode : (p.setTarget i (some t)).code b = p.code b := code_setTargets [i]
  have hinstr := instr_setTarget (t := some t) hhas
  have hkind :
      ∀ k, ((p.setTarget i (some t)).instr k).kind = (p.instr k).kind := by
    intro k
    rw [hinstr]
    split
    · next hk => rw [hk]; rfl
    · rfl
  have hself : (p.setTarget i (some t)).isDouble i = false := by
    have htarget : (p.setTarget i (some t)).target? i = some t := by
      rw [target?, hinstr, if_pos rfl]
      exact Operand.target?_ofTarget (some t)
    rw [isDouble, htarget, Option.any_some, hkind, decide_eq_false ht,
      Bool.and_false]
  have hother : ∀ k, k ≠ i →
      (p.setTarget i (some t)).isDouble k = p.isDouble k := by
    intro k hk
    simp only [isDouble, target?, hinstr k, if_neg hk, hkind]
  rw [weight, weight, branches, branches, contents_setTarget hhas hbr, hcode]
  apply Prod.Lex.right
  apply Prod.Lex.right
  obtain ⟨pre, post, hcut, hpre, hpost⟩ := exists_cut (hp.nodup_code b) hi
  have hsame : ∀ l : List InstrId, i ∉ l →
      l.countP (p.setTarget i (some t)).isDouble = l.countP p.isDouble := by
    intro l hl
    refine List.countP_congr fun k hk => ?_
    rw [hother k (fun hki => hl (hki ▸ hk))]
  rw [hcut, List.countP_append, List.countP_append,
    List.countP_cons_of_neg (by simp [hself]),
    List.countP_cons_of_pos hdouble, hsame pre hpre, hsame post hpost]
  exact Nat.lt_succ_self _

end Program

/-- **Local passes make a body lighter.** -/
theorem Editing.Effect.lighter {s : Editing} {i : InstrId} {pass : Pass}
    {q : Program} (he : s.Effect i pass q) (hs : s.Sound) (hi : i ∈ s.code) :
    Program.Lighter (q.weight s.editor.body)
    (s.program.weight s.editor.body) := by
  have hp := hs.linked
  cases he with
  | exit hkind _ hexit =>
      have hbr : (s.program.instr i).isBranch = true := by
        rw [Instr.isBranch, Opcode.isBranch, show Opcode.kind _ = _ from hkind]
        rfl
      apply Program.lighter_of_branches
      rw [Program.branches_renewed hp hi hbr]
      · exact Nat.lt_succ_self _
      · rw [Opcode.isBranch]
        rcases hexit with hexit | hexit
        · rw [show Opcode.kind _ = _ from hexit]
          rfl
        · rw [show Opcode.kind _ = _ from hexit]
          rfl
  | jump | nop | dead => exact Program.lighter_without hp hi
  | @pops n k hbr =>
      have hnew := hp.newInstr .pop .absent
      have hi' :
          i ∈ (s.program.newInstr .pop .absent).2.code s.editor.body := by
        rwa [hp.code_newInstr]
      have hfree := Program.owner_fresh (p := s.program) .pop .absent
      have hmark := (Program.mem_code_exchange hnew hi' hfree).mpr (Or.inl rfl)
      have hcontents := Program.contents_withPops
        (hnew.exchange hi' (Program.has_newInstr _ _) hfree) hmark k
      have hnone :
          (Multiset.replicate k (Instr.bare ⟨.pop, .absent, none⟩)).countP
          (fun x => x.1.isBranch) = 0 := by
        rw [Multiset.countP_eq_zero]
        intro x hx
        rw [Multiset.eq_of_mem_replicate hx]
        decide
      have hpops :
          (Program.withPops s.editor.body (s.program.newInstr .pop .absent).1 k
            (s.program.renewed s.editor.body i .pop .absent)).branches
          s.editor.body = (s.program.renewed s.editor.body i .pop
            .absent).branches s.editor.body := by
        rw [Program.branches, Program.renewed, hcontents, Multiset.countP_add,
          hnone, zero_add]
        rfl
      apply Program.lighter_of_branches
      rw [hpops, Program.branches_renewed hp hi hbr .pop rfl .absent]
      exact Nat.lt_succ_self _
  | chain hbr hmid _ hkind hend =>
      apply Program.lighter_setTarget hp hi _ (Program.kind_chainEnd hend)
      rw [Program.isDouble, hbr, hmid, Option.any_some, hkind]
      rfl

end Bytecode
