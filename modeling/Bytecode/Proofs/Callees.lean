import Bytecode.Proofs.Contents
import Bytecode.Proofs.Offering

/-!
# The callees of a body

The callees of a body are the methods that its calls lead to, counted as often
as they are called.  They are read off the contents of the body.  Local passes
add none; taking in a call takes one away and adds those of the callee's body,
at most.
-/

namespace Bytecode

namespace Inline

variable {cfg : InlineSettings} {p q : Program} {b : BodyId}
  {i call anchor : InstrId} {c m : MethodId} {op : Opcode} {o : Operand}
  {x : Instr}

/-- The method that a call leads to. -/
def calleeOf (cfg : InlineSettings) (x : Opcode × Operand) : Option MethodId :=
  if x.1.kind = .call then cfg.resolve x.2.method? else none

/-- The methods that the calls of a body lead to. -/
def callees (cfg : InlineSettings) (p : Program) (b : BodyId) :
    Multiset MethodId :=
  (p.contents b).filterMap (calleeOf cfg)

theorem calleeOf_bare (cfg : InlineSettings) (x : Instr) : calleeOf cfg x.bare =
    if x.kind = .call then cfg.resolve x.operand.method? else none := by
  rw [calleeOf]
  change (if x.kind = .call then _ else _) = _
  split
  · next hcall =>
      have hbr : x.isBranch = false := by
        rw [Instr.isBranch, Opcode.isBranch, show x.op.kind = .call from hcall]
        rfl
      simp [Instr.bare, hbr]
  · rfl

theorem calleeOf_eq_none (h : x.kind ≠ .call) : calleeOf cfg x.bare = none := by
  rw [calleeOf_bare, if_neg h]

theorem kind_ne_call_of_isBranch (h : x.isBranch = true) : x.kind ≠ .call := by
  intro hcall
  rw [Instr.isBranch, Opcode.isBranch, show x.op.kind = .call from hcall] at h
  cases h

theorem mem_callees : c ∈ callees cfg p b ↔
    ∃ i ∈ p.code b, (p.instr i).kind = .call ∧
      cfg.resolve (p.instr i).operand.method? = some c := by
  rw [callees, Multiset.mem_filterMap]
  constructor
  · rintro ⟨x, hx, hc⟩
    obtain ⟨i, hi, rfl⟩ := List.mem_map.mp (Multiset.mem_coe.mp hx)
    rw [calleeOf_bare] at hc
    split at hc
    · next hcall => exact ⟨i, hi, hcall, hc⟩
    · cases hc
  · rintro ⟨i, hi, hcall, hc⟩
    refine ⟨(p.instr i).bare,
      Multiset.mem_coe.mpr (List.mem_map.mpr ⟨i, hi, rfl⟩), ?_⟩
    rw [calleeOf_bare, if_pos hcall, hc]

theorem callsItself_iff :
    callsItself cfg p m b = true ↔ m ∈ callees cfg p b := by
  rw [mem_callees, callsItself, List.any_eq_true]
  simp only [Bool.and_eq_true, decide_eq_true_eq]

/-- The callee of a call that does not lead back. -/
theorem calleeOf_of_callee? {σ : Type} {v : Visit σ}
    (h : callee? cfg v.editing call = some c) :
    calleeOf cfg (v.session.program.instr call).bare = some c := by
  rw [callee?, Visit.editing] at h
  split at h
  · next hcall =>
      rw [calleeOf_bare, if_pos hcall]
      exact (Option.filter_eq_some_iff.mp h).1
  · cases h

theorem callees_agree (h : Program.AgreeOn b p q) (hp : p.WellLinked)
    (hq : q.WellLinked) : callees cfg q b = callees cfg p b := by
  rw [callees, callees, h.contents hp hq]

/-! ### Local passes -/

theorem callees_without (hp : p.WellLinked) (hi : i ∈ p.code b) :
    callees cfg (p.without b i) b ≤ callees cfg p b := by
  rw [callees, callees, Program.contents_without hp hi]
  exact Multiset.filterMap_le_filterMap _ (Multiset.le_cons_self _ _)

/-- An instruction that is no call has taken the place of another. -/
theorem callees_renewed (hp : p.WellLinked) (hi : i ∈ p.code b)
    (hop : op.kind ≠ .call) (o : Operand) :
    callees cfg (p.renewed b i op o) b ≤ callees cfg p b := by
  have hcontents := congrArg (Multiset.filterMap (calleeOf cfg))
    (Program.contents_renewed hp hi op o)
  rw [Multiset.filterMap_cons_none
    _ _ (calleeOf_eq_none (x := ⟨op, o, none⟩) hop)] at hcontents
  rw [callees, callees, ← hcontents]
  exact Multiset.filterMap_le_filterMap _ (Multiset.le_cons_self _ _)

/-- A new instruction adds its callee, if it is a call. -/
theorem callees_withNew {mark : InstrId} (hp : p.WellLinked)
    (hmark : mark ∈ p.code b) (op : Opcode) (o : Operand) :
    callees cfg (p.withNew b mark op o) b =
    (calleeOf cfg (Instr.bare ⟨op, o, none⟩)).elim 0 (fun c => {c}) +
    callees cfg p b := by
  rw [callees, callees, Program.contents_withNew hp hmark]
  cases hcallee : calleeOf cfg (Instr.bare ⟨op, o, none⟩) with
  | none =>
      rw [Multiset.filterMap_cons_none _ _ hcallee]
      exact (zero_add _).symm
  | some c =>
      rw [Multiset.filterMap_cons_some _ _ _ hcallee]
      rfl

theorem callees_withPops {mark : InstrId} (hp : p.WellLinked)
    (hmark : mark ∈ p.code b) (n : Nat) :
    callees cfg (Program.withPops b mark n p) b = callees cfg p b := by
  induction n generalizing p with
  | zero => rfl
  | succ n ih =>
      have hpop : calleeOf cfg (Instr.bare ⟨.pop, .absent, none⟩) = none :=
        calleeOf_eq_none (x := ⟨.pop, .absent, none⟩) (by decide)
      rw [Program.withPops, ih (hp.withNew hmark _ _)
        ((Program.mem_code_withNew hp hmark _ _).mpr (Or.inr hmark)),
        callees_withNew hp hmark, hpop]
      exact zero_add _

/-- **Local passes add no callees.** -/
theorem callees_effect {s : Editing} {pass : Pass} (he : s.Effect i pass q)
    (hs : s.Sound) (hi : i ∈ s.code) :
    callees cfg q s.editor.body ≤ callees cfg s.program s.editor.body := by
  have hp := hs.linked
  cases he with
  | exit _ _ hexit =>
      apply callees_renewed hp hi
      intro hcall
      rcases hexit with hexit | hexit
      · rw [show Opcode.kind _ = .ret from hexit] at hcall
        cases hcall
      · rw [show Opcode.kind _ = .throws from hexit] at hcall
        cases hcall
  | jump | nop | dead => exact callees_without hp hi
  | pops =>
      have hnew := hp.newInstr .pop .absent
      have hi' :
          i ∈ (s.program.newInstr .pop .absent).2.code s.editor.body := by
        rwa [hp.code_newInstr]
      have hfree := Program.owner_fresh (p := s.program) .pop .absent
      have hlinked :
          (s.program.renewed s.editor.body i .pop .absent).WellLinked :=
        hnew.exchange hi' (Program.has_newInstr _ _) hfree
      rw [callees_withPops hlinked
        ((Program.mem_code_exchange hnew hi' hfree).mpr (Or.inl rfl))]
      exact callees_renewed hp hi (by decide) .absent
  | chain hbr =>
      rw [callees, callees, Program.contents_setTarget (hp.has hi) hbr]

/-! ### The inliner -/

/-- A copy is a call only if the original is one, and then leads to the same
method. -/
theorem CopyOf.callee {copies : List (InstrId × InstrId)}
    (h : CopyOf x anchor copies op o) :
    calleeOf cfg (Instr.bare ⟨op, o, none⟩) = calleeOf cfg x.bare := by
  cases h with
  | exit hret =>
      have hx : x.kind ≠ .call := by simp [hret]
      have hbr : Instr.kind ⟨.br, .target anchor, none⟩ ≠ .call := by
        change Opcode.br.kind ≠ .call
        decide
      rw [calleeOf_eq_none hx, calleeOf_eq_none hbr]
  | @backward t c hbr =>
      have hx := kind_ne_call_of_isBranch hbr
      rw [calleeOf_eq_none hx,
        calleeOf_eq_none (x := ⟨x.op, .target c, none⟩) hx]
  | forward => rfl
  | access hacc hkind =>
      have hx : x.kind ≠ .call := by
        intro hcall
        rw [Instr.access?, hcall] at hacc
        cases hacc
      rw [calleeOf_eq_none hx, calleeOf_eq_none (by rwa [Instr.kind, hkind])]
  | plain => rfl

/-- The methods that the instructions of a list lead to. -/
def calleesOf (cfg : InlineSettings) (p : Program) (code : List InstrId) :
    Multiset MethodId :=
  Multiset.filterMap (calleeOf cfg) (code.map fun i => (p.instr i).bare)

theorem calleesOf_cons (i : InstrId) (rest : List InstrId) :
    calleesOf cfg p (i :: rest) = (calleeOf cfg (p.instr i).bare).elim 0
    (fun c => {c}) + calleesOf cfg p rest := by
  rw [calleesOf, List.map_cons, ← Multiset.cons_coe]
  cases hcallee : calleeOf cfg (p.instr i).bare with
  | none =>
      rw [Multiset.filterMap_cons_none _ _ hcallee]
      exact (zero_add _).symm
  | some c =>
      rw [Multiset.filterMap_cons_some _ _ _ hcallee]
      rfl

variable {s s' : Editing} {base : Nat} {code : List InstrId}

/-- The copy loop adds the callees of what it copies, at most. -/
theorem CopyRun.callees {copies : List (InstrId × InstrId)}
    (hrun : CopyRun base anchor code copies s s') (hs : s.Sound)
    (hanchor : anchor ∈ s.code) (hhas : ∀ i ∈ code, s.program.Has i) :
    callees cfg s'.program s.editor.body ≤
    callees cfg s.program s.editor.body + calleesOf cfg s.program code := by
  induction hrun with
  | stop => exact Multiset.le_add_right _ _
  | exit _ _ hprog =>
      rw [hprog, Inline.callees, Program.contents_redirect hs.linked]
      exact Multiset.le_add_right _ _
  | @copy i rest copies s s₁ s' op o _ hcopy hs₁ hprog _ ih =>
      have hanchor₁ : anchor ∈ s₁.code := by
        rw [Editing.code, hs₁.body, hprog, mem_code_copied hs.linked hanchor]
        exact Or.inr hanchor
      have hrest : ∀ k ∈ rest, s.program.Has k :=
        fun k hk => hhas k (List.mem_cons_of_mem _ hk)
      have hih := ih hs₁.sound hanchor₁ fun k hk => hs₁.changed.has (hrest k hk)
      have hsame :
          calleesOf cfg s₁.program rest = calleesOf cfg s.program rest := by
        rw [calleesOf, calleesOf, hs₁.changed.map_bare hrest]
      have hcopied : Inline.callees cfg s₁.program s.editor.body =
          (calleeOf cfg (s.program.instr i).bare).elim 0 (fun c => {c}) +
            Inline.callees cfg s.program s.editor.body := by
        rw [hprog, copied, Inline.callees, Program.contents_redirect
          (hs.linked.withNew hanchor op o), ← Inline.callees,
          callees_withNew hs.linked hanchor, (copyOf_ok hcopy).callee]
      rw [hs₁.body, hsame, hcopied] at hih
      rw [calleesOf_cons]
      refine hih.trans (le_of_eq ?_)
      abel

/-- The callees of the body after a body has been copied into it. -/
theorem TakesIn.callees {c : BodyId} (htake : TakesIn c anchor s s')
    (hs : s.Sound) (hanchor : anchor ∈ s.code) :
    callees cfg s'.program s.editor.body ≤
    callees cfg s.program s.editor.body + callees cfg s.program c := by
  cases htake with
  | nothing _ heq =>
      rw [heq]
      exact Multiset.le_add_right _ _
  | @copies s₁ hslots hrun =>
      have hinstr : ∀ k, s₁.program.instr k = s.program.instr k := by
        intro k
        rw [Program.instr, hslots.instrs]
        rfl
      have hcontents : ∀ b, s₁.program.contents b = s.program.contents b := by
        intro b
        simp only [Program.contents, hslots.codes, hinstr]
      have hanchor₁ : anchor ∈ s₁.code := by
        rwa [Editing.code, hslots.body, hslots.codes]
      have hhas : ∀ i ∈ s.program.code c, s₁.program.Has i :=
        fun i hi => hslots.changed.has (hs.linked.has hi)
      have hcopied : Inline.callees cfg s'.program s₁.editor.body ≤
          Inline.callees cfg s₁.program s₁.editor.body +
            calleesOf cfg s₁.program (s.program.code c) :=
        hrun.callees hslots.sound hanchor₁ hhas
      have hcallees : ∀ b, Inline.callees cfg s₁.program b =
          Inline.callees cfg s.program b := by
        intro b
        rw [Inline.callees, hcontents, ← Inline.callees]
      have hcode : calleesOf cfg s₁.program (s.program.code c) =
          Inline.callees cfg s.program c := by
        simp only [calleesOf, Inline.callees, Program.contents, hinstr]
      rwa [hcallees, hcode, hslots.body] at hcopied

/-- **Taking in a call** removes its callee once and adds the callee's own at
most. -/
theorem Replaces.callees {c : BodyId} (h : Replaces call c anchor s s')
    (hs : s.Sound) (hcall : call ∈ s.code)
    (hnext : s.program.next call = some anchor) (hc : c ≠ s.editor.body)
    (hm : calleeOf cfg (s.program.instr call).bare = some m) :
    ∃ others, callees cfg s.program s.editor.body = m ::ₘ others ∧
      callees cfg s'.program s.editor.body ≤
      others + callees cfg s.program c := by
  obtain ⟨t, ht, htake⟩ := h.cleared hs hcall hnext
  have hp := hs.linked
  have hcontents := congrArg (Multiset.filterMap (calleeOf cfg))
    (Program.contents_renewed hp hcall .nop .absent)
  rw [Multiset.filterMap_cons_some _ _ _ hm, Multiset.filterMap_cons_none _ _
    (calleeOf_eq_none (x := ⟨.nop, .absent, none⟩) (by decide))] at hcontents
  refine ⟨Inline.callees cfg (s.program.renewed s.editor.body call .nop .absent)
    s.editor.body, hcontents.symm, ?_⟩
  have htaken : Inline.callees cfg s'.program t.editor.body ≤
      Inline.callees cfg t.program t.editor.body +
      Inline.callees cfg t.program c :=
    htake.callees ht.sound ht.anchor
  rwa [callees_agree (ht.changed.agreeOn hp hc) hp ht.sound.linked, ht.body,
    ht.program] at htaken

end Inline

end Bytecode
