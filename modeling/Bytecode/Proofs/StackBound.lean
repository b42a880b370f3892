import Bytecode.Proofs.Callees
import Bytecode.Proofs.Splicing
import Bytecode.Proofs.StackDepth
import Bytecode.Proofs.TakenIn

/-!
# Stacks within their bounds

The bound that a body states on its stack is not raised when a callee is taken
in, so there has to be room for the callee beforehand: at each call, the
callee's bound on top of what the caller holds there.  If the returns of callees
leave nothing behind either, then the copies run on top of what the caller
holds, within the caller's bound, and the calls that have been copied find their
room again.

`Roomy` puts these conditions together.  Local passes keep them, `Effect.roomy`,
and so does taking in a callee: `Spliced.arrives` says with which depths control
comes to the places of the new code, and `Spliced.roomy` that a caller with room
for its callees has room for those of the callee, too.

So where there was room from the start it stays so, and every request leaves the
stack of every method within its bound, `stays_bounded`.  Without it, taking in
a single call can be too much, `exceeds_callerOfMark`.
-/

namespace Bytecode

section Room

open Inline

/-- No path through the body takes the stack beyond the bound that the body
states. -/
def StackBounded (calls : MethodRef → Int) (p : Program) (b : BodyId) : Prop :=
  ∀ a n, Comes calls p b a n → n ≤ (p.body b).maxStack

/-- With `n` values on the stack the instruction leaves nothing behind if it is
a return and the body `empties` its stack, and it has room for its callee if it
is a call of a candidate for inlining. -/
structure Admits (cfg : InlineSettings) (candidate : MethodId → Prop)
    (empties : Prop) (p : Program) (b : BodyId) (x : Instr) (n : Int) :
    Prop where
  level : empties → x.kind = .ret → n = 0
  room : ∀ m c, calleeOf cfg x.bare = some m → candidate m →
    (p.method m).body = some c → n + (p.body c).maxStack ≤ (p.body b).maxStack

instance {cfg : InlineSettings} {candidate : MethodId → Prop}
    [DecidablePred candidate] {empties : Prop} [Decidable empties] {p : Program}
    {b : BodyId} {x : Instr} {n : Int} :
    Decidable (Admits cfg candidate empties p b x n) :=
  decidable_of_iff ((empties → x.kind = .ret → n = 0) ∧
    ∀ m ∈ calleeOf cfg x.bare, candidate m →
    ∀ c ∈ (p.method m).body, n + (p.body c).maxStack ≤ (p.body b).maxStack)
    ⟨fun ⟨h, h'⟩ => ⟨h, fun m c hm hcand hc => h' m hm hcand c hc⟩,
      fun h => ⟨h.level, fun m hm hcand c hc => h.room m c hm hcand hc⟩⟩

/-- The stack stays within its bound, with room for callees, and it is empty in
the end if the body `empties` it. -/
structure Roomy (cfg : InlineSettings) (candidate : MethodId → Prop)
    (calls : MethodRef → Int) (empties : Prop) (p : Program) (b : BodyId) :
    Prop where
  bound : StackBounded calls p b
  ends : empties → ∀ n, Comes calls p b none n → n = 0
  admits : ∀ i n, Comes calls p b (some i) n →
    Admits cfg candidate empties p b (p.instr i) n

variable {cfg : InlineSettings} {candidate : MethodId → Prop}
  {calls : MethodRef → Int} {empties : Prop} {p q : Program} {b c : BodyId}
  {i j k t : InstrId} {a : Option InstrId} {n : Int} {x y : Instr}

/-- Methods, and the bounds of all bodies, are the same. -/
structure SameBounds (p q : Program) : Prop where
  methods : q.methods = p.methods
  bounds : ∀ c, (q.body c).maxStack = (p.body c).maxStack

/-- Admission depends on the bounds of callees and on the instruction up to its
target. -/
theorem Admits.congr (h : Admits cfg candidate empties p b x n)
    (hpq : SameBounds p q) (hxy : y.bare = x.bare) :
    Admits cfg candidate empties q b y n where
  level := by
    intro hempties hret
    apply h.level hempties
    rwa [Instr.kind, show y.op = x.op from congrArg Prod.fst hxy] at hret
  room := by
    intro m c hm hcand hc
    rw [hxy] at hm
    rw [Program.method, hpq.methods] at hc
    rw [hpq.bounds, hpq.bounds]
    exact h.room m c hm hcand hc

/-- What is neither a return nor a call asks for nothing. -/
theorem admits_of_kind (hret : x.kind ≠ .ret) (hcall : x.kind ≠ .call) :
    Admits cfg candidate empties p b x n where
  level := fun _ h => absurd h hret
  room := by
    intro m c hm
    rw [calleeOf_eq_none hcall] at hm
    cases hm

section Labels

variable {label : Option InstrId → Int} (hp : p.WellLinked)
  (hclosed : p.Closed b) (hlabels : Labels calls p b label)

include hp hclosed hlabels

/-- A labelling of the stack depths below the declared one bounds the stack. -/
theorem StackBounded.of_labels (hnone : label none ≤ (p.body b).maxStack)
    (hbound : ∀ i ∈ p.code b, label (some i) ≤ (p.body b).maxStack) :
    StackBounded calls p b := by
  intro a n ha
  rw [ha.eq_label hp hclosed hlabels]
  cases a with
  | none => exact hnone
  | some i => exact hbound i (inside_some.mp (ha.inside hp hclosed))

/-- A labelling that admits every instruction leaves room. -/
theorem Roomy.of_labels (hbounded : StackBounded calls p b)
    (hnone : label none = 0) (hadmits : ∀ i ∈ p.code b,
      Admits cfg candidate empties p b (p.instr i) (label (some i))) :
    Roomy cfg candidate calls empties p b where
  bound := hbounded
  ends := by
    intro _ n hn
    rw [hn.eq_label hp hclosed hlabels, hnone]
  admits := by
    intro i n hn
    rw [hn.eq_label hp hclosed hlabels]
    exact hadmits i (inside_some.mp (hn.inside hp hclosed))

end Labels

/-- A body that is to empty its stack in fewer cases does so. -/
theorem Roomy.mono {fewer : Prop} (h : Roomy cfg candidate calls empties p b)
    (himp : fewer → empties) : Roomy cfg candidate calls fewer p b where
  bound := h.bound
  ends := fun hfewer => h.ends (himp hfewer)
  admits := fun i n hn =>
    ⟨fun hfewer => (h.admits i n hn).level (himp hfewer),
      (h.admits i n hn).room⟩

/-- Control comes to no place with a depth that it does not come with in `p`, to
the place that this one stands for. -/
theorem Roomy.of_comes (h : Roomy cfg candidate calls empties p b)
    (hpq : SameBounds p q)
    (hback : ∀ c n, Comes calls q b c n → ∃ a, Comes calls p b a n ∧ (c = none →
      a = none) ∧ ∀ k ∈ c, (∃ i ∈ a, (q.instr k).bare = (p.instr i).bare) ∨
      Admits cfg candidate empties q b (q.instr k) n) :
    Roomy cfg candidate calls empties q b where
  bound := by
    intro c n hc
    obtain ⟨a, ha, -⟩ := hback c n hc
    rw [hpq.bounds]
    exact h.bound a n ha
  ends := by
    intro hempties n hc
    obtain ⟨a, ha, hnone, -⟩ := hback none n hc
    rw [hnone rfl] at ha
    exact h.ends hempties n ha
  admits := by
    intro k n hk
    obtain ⟨a, ha, -, hplaces⟩ := hback (some k) n hk
    rcases hplaces k rfl with ⟨i, hi, hbare⟩ | hk
    · rw [Option.mem_def.mp hi] at ha
      exact (h.admits i n ha).congr hpq hbare
    · exact hk

/-- Room in a body depends on that body and the bounds of the others. -/
theorem Roomy.agree (h : Roomy cfg candidate calls empties p b)
    (hp : p.WellLinked) (hq : q.WellLinked) (hclosed : p.Closed b)
    (hagree : Program.AgreeOn b p q) (hpq : SameBounds p q) :
    Roomy cfg candidate calls empties q b := by
  refine h.of_comes hpq fun c n hc =>
    ⟨c, comes_agree hp hq hclosed hagree hc, fun h => h, ?_⟩
  intro k hk
  rw [hk] at hc
  have hk :=
    inside_some.mp ((comes_agree hp hq hclosed hagree hc).inside hp hclosed)
  exact Or.inl ⟨k, by assumption, by rw [hagree.instr k (by rwa [← hp.code])]⟩

/-! ### Local passes -/

/-- No branch compares two values. -/
def Simple (p : Program) (b : BodyId) : Prop :=
  ∀ i ∈ p.code b, (p.instr i).op.operandCount ≤ 1

instance : Decidable (Simple p b) :=
  inferInstanceAs (Decidable (∀ i ∈ p.code b, _))

/-- Instructions have come in that compare no two values, and those that stay do
what they did. -/
theorem Simple.of_ops (h : Simple p b)
    (hops : ∀ k ∈ q.code b, (q.instr k).op.operandCount ≤ 1 ∨
      ∃ i ∈ p.code b, (q.instr k).op = (p.instr i).op) : Simple q b := by
  intro k hk
  rcases hops k hk with hk | ⟨i, hi, hop⟩
  · exact hk
  · rw [hop]
    exact h i hi

/-- Deleting keeps a body simple. -/
theorem Simple.without (h : Simple p b) (hp : p.WellLinked)
    (hi : i ∈ p.code b) : Simple (p.without b i) b :=
  h.of_ops fun k hk =>
    Or.inr ⟨k, ((Program.mem_code_without hp hi).mp hk).1,
      Program.op_without hp hi k⟩

/-- So does renewing an instruction into one with at most one operand. -/
theorem Simple.renewed (h : Simple p b) (hp : p.WellLinked) (hi : i ∈ p.code b)
    {op : Opcode} (hop : op.operandCount ≤ 1) (o : Operand) :
    Simple (p.renewed b i op o) b := by
  refine h.of_ops fun k hk => ?_
  rcases (Program.mem_code_renewed hp hi op o).mp hk with rfl | ⟨hk, hki⟩
  · rw [Program.op_renewed_self hp hi]
    exact Or.inl hop
  · exact Or.inr ⟨k, hk, (redirected_renewed hp hi hk hki op o).op⟩

/-- Being simple depends on the body only. -/
theorem Simple.agree (h : Simple p b) (hp : p.WellLinked) (hq : q.WellLinked)
    (hagree : Program.AgreeOn b p q) : Simple q b := by
  refine h.of_ops fun k hk => ?_
  have hk : k ∈ p.code b := by rwa [hp.code, ← hagree.body, ← hq.code]
  exact Or.inr ⟨k, hk, by rw [hagree.instr k (by rwa [← hp.code])]⟩

/-- Local passes bring in no comparison. -/
theorem Editing.Effect.simple {s : Editing} {pass : Pass}
    (he : s.Effect i pass q) (hs : s.Sound) (hi : i ∈ s.code)
    (hclosed : s.program.Closed s.editor.body)
    (h : Simple s.program s.editor.body) : Simple q s.editor.body := by
  have hp := hs.linked
  cases he with
  | @exit t hkind htarget hexit =>
      have hbr : (s.program.instr i).isBranch = true := by
        rw [Instr.isBranch, Opcode.isBranch,
          show Opcode.kind _ = .branch from hkind]
        rfl
      obtain ⟨t', ht, htarget'⟩ := hclosed i hi hbr
      cases htarget.symm.trans htarget'
      exact h.renewed hp hi (h t ht) _
  | jump | nop | dead => exact h.without hp hi
  | @pops m k _ _ _ hcount =>
      have hone := h i hi
      have hk : k = 0 := by omega
      subst hk
      exact h.renewed hp hi (by decide) .absent
  | @chain mid t =>
      refine h.of_ops fun k hk => Or.inr ⟨k, ?_, ?_⟩
      · rwa [show (s.program.setTarget i (some t)).code s.editor.body =
          s.program.code s.editor.body from Program.code_setTargets [i]] at hk
      · rw [Program.instr_setTarget (hp.has hi)]
        split
        · next hki => rw [hki]
        · rfl

/-- A change of one body that keeps its frame keeps all bounds. -/
theorem Program.ChangedIn.sameBounds (h : Program.ChangedIn b p q)
    (hframes : Program.SameFrames p q) : SameBounds p q :=
  ⟨h.methods, fun c => (congrArg Body.maxStack (hframes c) :)⟩

namespace Roomy

variable (h : Roomy cfg candidate calls empties p b) (hp : p.WellLinked)
  (hi : i ∈ p.code b) (hclosed : p.Closed b)

include h hp hi hclosed

/-- Deleting an instruction leaves room if its successor is reached with every
depth it was reached with. -/
theorem without (hd : (p.next i).isSome ∨ p.branchesTo b (some i) = [])
    (hpass : ∀ n, Comes calls p b (some i) n → Comes calls p b (p.next i) n) :
    Roomy cfg candidate calls empties (p.without b i) b := by
  have hchanged := Program.changedIn_without hp hi
  refine h.of_comes (hchanged.sameBounds (Program.sameFrames_without hp hi))
    fun c n hc => ?_
  have hc' := comes_without hp hi hclosed hd hpass hc
  refine ⟨c, hc', fun h => h, fun k hk => Or.inl ⟨k, hk, ?_⟩⟩
  exact hchanged.bare (hp.has (hc'.inside hp hclosed k hk))

/-- An instruction has taken the place of a branch and asks for no more than
there is. -/
theorem exchange (hj : p.Has j) (hfree : p.owner j = none)
    (hnew : ∀ n c, Comes calls p b (some i) n → Leads (p.exchange b i j) j c →
      ∃ a, Comes calls p b a (n + (p.instr j).stackEffect calls) ∧
      c = swapped i j a)
    (hadmits : ∀ n, Comes calls p b (some i) n → Admits cfg candidate empties
      (p.exchange b i j) b ((p.exchange b i j).instr j) n) :
    Roomy cfg candidate calls empties (p.exchange b i j) b := by
  have hchanged := Program.changedIn_exchange hp hi hj hfree
  refine h.of_comes (hchanged.sameBounds (Program.sameFrames_exchange hp hi))
    fun c n hc => ?_
  obtain ⟨a, ha, hca⟩ := comes_exchange hp hi hj hfree hclosed hnew hc
  refine ⟨a, ha, fun hnone => ?_, fun k hk => ?_⟩
  · rw [swapped] at hca
    split at hca
    · rw [hnone] at hca
      cases hca
    · rw [← hca, hnone]
  · by_cases hai : a = some i
    · rw [hai, swapped_self] at hca
      rw [hca] at hk
      cases hk
      exact Or.inr (hadmits n (hai ▸ ha))
    · rw [swapped_of_ne hai] at hca
      rw [hca] at hk
      exact Or.inl ⟨k, hk, hchanged.bare (hp.has (ha.inside hp hclosed k hk))⟩

/-- Retargeting a branch along a chain leaves room, as nops and branches pass
the depth on. -/
theorem setTarget {mid : InstrId} {fuel : Nat} {seen : List InstrId}
    (hbr : (p.instr i).isBranch = true) (hmid : p.target? i = some mid)
    (hend : Peephole.chainEnd? p fuel seen mid = some t) :
    Roomy cfg candidate calls empties (p.setTarget i (some t)) b := by
  refine h.of_comes ⟨rfl, fun _ => rfl⟩ fun c n hc => ?_
  refine ⟨c, comes_setTarget hp hi hclosed hbr hmid hend hc, fun h => h,
    fun k hk => Or.inl ⟨k, hk, ?_⟩⟩
  rw [Program.instr_setTarget (hp.has hi)]
  split
  · next hki =>
      rw [hki]
      exact bare_congr rfl fun hno => by rw [hbr] at hno; cases hno
  · rfl

/-- A fresh instruction has taken the place of a branch. -/
theorem renewed {op : Opcode} {o : Operand} (hbr : op.isBranch = false)
    (hcall : op.kind ≠ .call)
    (hnext : op.kind.fallsThrough = true → ∀ n, Comes calls p b (some i) n →
      Comes calls p b (p.next i) (n + Instr.stackEffect calls ⟨op, o, none⟩))
    (hlevel : empties → op.kind = .ret → ∀ n, Comes calls p b (some i) n →
      n = 0) : Roomy cfg candidate calls empties (p.renewed b i op o) b := by
  have hlinked := hp.newInstr op o
  have hagree := Program.agreeOn_newInstr hp op o b
  have hi' : i ∈ (p.newInstr op o).2.code b := by rwa [hp.code_newInstr]
  have hhas := Program.has_newInstr (p := p) op o
  have hfree := Program.owner_fresh (p := p) op o
  have hnew := h.agree hp hlinked hclosed hagree ⟨rfl, fun _ => rfl⟩
  have hback : ∀ {a n}, Comes calls (p.newInstr op o).2 b a n →
      Comes calls p b a n :=
    fun ha => comes_agree hp hlinked hclosed hagree ha
  have hforth : ∀ {a n}, Comes calls p b a n →
      Comes calls (p.newInstr op o).2 b a n :=
    fun ha =>
      comes_agree hlinked hp (hclosed.agree hp hlinked hagree) hagree.symm ha
  have hself :
      (p.newInstr op o).2.instr (p.newInstr op o).1 = ⟨op, o, none⟩ := by
    rw [Program.instr_newInstr, if_pos rfl]
  have hop := Program.op_exchange hlinked hi' hhas hfree (p.newInstr op o).1
  rw [hself] at hop
  have hkind : (((p.newInstr op o).2.exchange b i (p.newInstr op o).1).instr
      (p.newInstr op o).1).kind = op.kind := congrArg Opcode.kind hop
  refine hnew.exchange hlinked hi'
    (hclosed.agree hp hlinked hagree) hhas hfree ?_ ?_
  · intro n c hc hleads
    rw [hself]
    cases hleads with
    | falls hfalls =>
        rw [Instr.fallsThrough, hkind] at hfalls
        refine ⟨p.next i, hforth (hnext hfalls n (hback hc)), ?_⟩
        rw [Program.next_exchange_self hlinked hi' hhas hfree]
        rw [swapped_of_ne (hp.next_ne hi), hlinked.next hi', hp.next hi,
          hp.code_newInstr]
    | jumps hjump =>
        rw [Instr.isBranch, hop, hbr] at hjump
        cases hjump
  · intro n hc
    refine ⟨fun hempties hret => ?_, fun m d hm => ?_⟩
    · rw [hkind] at hret
      exact hlevel hempties hret n (hback hc)
    · rw [calleeOf_eq_none (by rwa [hkind])] at hm
      cases hm

end Roomy

/-- **Local passes keep the room.**  A comparison of two values is not among the
branches that may be found pointless. -/
theorem Editing.Effect.roomy {s : Editing} {pass : Pass}
    (he : s.Effect i pass q) (hs : s.Sound) (hi : i ∈ s.code)
    (hclosed : s.program.Closed s.editor.body)
    (hsimple : pass = .removeDegenerateBranch → Simple s.program s.editor.body)
    (h : Roomy cfg candidate calls empties s.program s.editor.body) :
    Roomy cfg candidate calls empties q s.editor.body := by
  have hp := hs.linked
  cases he with
  | @exit t hkind htarget hexit =>
      have hbr : (s.program.instr i).isBranch = true := by
        rw [Instr.isBranch, Opcode.isBranch,
          show Opcode.kind _ = .branch from hkind]
        rfl
      have hexit' : ∀ {P : Kind → Prop}, P .ret → P .throws →
          P (s.program.instr t).op.kind := by
        intro P hret hthrow
        rcases hexit with hk | hk
        · rwa [show (s.program.instr t).op.kind = .ret from hk]
        · rwa [show (s.program.instr t).op.kind = .throws from hk]
      refine h.renewed hp hi hclosed ?_ ?_ ?_ ?_
      · exact hexit' (P := fun k => k.isBranch = false) rfl rfl
      · exact hexit' (P := fun k => k ≠ .call) (by simp) (by simp)
      · intro hfalls
        exact absurd hfalls (hexit' (P := fun k => ¬ k.fallsThrough = true)
          (by simp [Kind.fallsThrough]) (by simp [Kind.fallsThrough]))
      · -- The depth at the branch is the depth at the return it goes to.
        intro hempties hret n hc
        have hstep := hc.step (.jumps hbr htarget)
        rw [Instr.stackEffect, hkind, add_zero] at hstep
        exact (h.admits t n hstep).level hempties hret
  | @jump m hbr hnext htarget hcount =>
      refine h.without hp hi hclosed (Or.inl (by rw [hnext]; rfl)) fun n hc =>
        ?_
      have hstep := hc.step (.jumps hbr htarget)
      rw [stackEffect_of_isBranch hbr, hcount] at hstep
      rw [hnext]
      simpa using hstep
  | @pops m k hbr hnext htarget hcount =>
      have hone := hsimple rfl i hi
      have hk : k = 0 := by omega
      subst hk
      refine h.renewed hp hi hclosed rfl (by decide) ?_
        fun _ hret => absurd hret (by decide)
      intro _ n hc
      have hstep := hc.step (.jumps hbr htarget)
      rw [stackEffect_of_isBranch hbr, hcount] at hstep
      rw [hnext]
      exact hstep
  | nop hkind hd =>
      refine h.without hp hi hclosed hd fun n hc => ?_
      have hstep := hc.step (.falls (by rw [Instr.fallsThrough, hkind]; rfl))
      rwa [Instr.stackEffect, hkind, add_zero] at hstep
  | dead hfirst hun =>
      exact h.without hp hi hclosed (Or.inr hun.1) fun n hc =>
        absurd hc (not_comes_of_unreached hp hi hclosed hfirst hun.1 hun.2)
  | chain hbr hmid _ _ hend => exact h.setTarget hp hi hclosed hbr hmid hend

end Room

/-! ### A callee that is taken in -/

namespace Inline

variable {cfg : InlineSettings} {candidate : MethodId → Prop}
  {calls : MethodRef → Int} {empties : Prop} {p q : Program} {b c : BodyId}
  {i k d anchor call nop : InstrId} {a : Option InstrId} {n : Int} {x y : Instr}
  {m : MethodId} {slots : Body} {base : Nat} {f : InstrId → InstrId}
  {inner : List InstrId}

namespace IsCopy

variable (h : IsCopy slots base anchor f x y)

include h

/-- The effect on the stack is the same. -/
theorem stackEffect : y.stackEffect calls = x.stackEffect calls := by
  by_cases hret : x.kind = .ret
  · rw [Instr.stackEffect, Instr.stackEffect, h.kind_of_ret hret, hret]
  · have hkind := h.kind hret
    cases h with
    | exit hx => exact absurd hx hret
    | branch hbr hop =>
        exact stackEffect_congr hop fun hno => by rw [hbr] at hno; cases hno
    | access ha =>
        -- What kind of access it is decides.
        rw [Instr.access?] at ha
        rw [Instr.stackEffect, Instr.stackEffect, hkind]
        cases hk : x.kind <;> rw [hk] at ha <;> first | rfl | cases ha
    | plain _ _ _ hop ho => exact stackEffect_congr hop fun _ => ho

/-- An instruction of at most one operand stays one. -/
theorem operandCount_le (hx : x.op.operandCount ≤ 1) :
    y.op.operandCount ≤ 1 := by
  cases h with
  | exit _ hop =>
      rw [hop]
      decide
  | branch _ hop | plain _ _ _ hop =>
      rw [hop]
      exact hx
  | access _ _ _ henc =>
      have haccess := Access.kind_of_encode henc
      rw [Opcode.operandCount_of_kind]
      · exact Nat.zero_le 1
      · intro hk
        rw [hk] at haccess
        cases haccess
      · intro hk
        rw [hk] at haccess
        cases haccess

end IsCopy

/-- Control has come to a place of the caller, or to a copy, on top of what
there was at the call. -/
inductive Arrives (calls : MethodRef → Int) (p : Program) (b c : BodyId)
    (call nop : InstrId) (inner : List InstrId) (f : InstrId → InstrId) :
    Option InstrId → Int → Prop
  | old {a : Option InstrId} {n : Int} : Comes calls p b a n →
      Arrives calls p b c call nop inner f (a.map (moving call nop)) n
  | copy {d : InstrId}
    {n₁ n₂ : Int} : d ∈ inner → Comes calls p b (some call) n₁ → Comes calls p c
    (some d) n₂ → Arrives calls p b c call nop inner f (some (f d)) (n₁ + n₂)

namespace Spliced

variable (h : Spliced b c call anchor nop inner f p q) (hp : p.WellLinked)
  (hcall : call ∈ p.code b) (hnext : p.next call = some anchor)

include h hp hcall hnext

section Comes

variable (hkind : (p.instr call).kind = .call)
  (heffect : (p.instr call).stackEffect calls = 0) {n₁ n₂ : Int}
  (hcomes : Comes calls p b (some call) n₁)

include hkind heffect hcomes

/-- Behind the call there is what there was at the call. -/
theorem arrives_anchor :
    Arrives calls p b c call nop inner f (some anchor) n₁ := by
  have hstep := hcomes.step (.falls (by rw [Instr.fallsThrough, hkind]; rfl))
  rw [heffect, add_zero, hnext] at hstep
  have hne : anchor ≠ call := by
    rintro rfl
    exact hp.next_ne hcall hnext
  have hold : Arrives calls p b c call nop inner f
      ((some anchor).map (moving call nop)) n₁ :=
    .old hstep
  rwa [Option.map_some, moving_of_ne hne] at hold

/-- A place of the callee, or what stands for it. -/
theorem arrives_land (hroomy : Roomy cfg candidate calls True p c)
    (ha : Comes calls p c a n₂) (hlands : ∀ d ∈ a, Lands p anchor inner f d) :
    Arrives calls p b c call nop inner f (some (land anchor f a)) (n₁ +
      n₂) := by
  have hanchor := h.arrives_anchor hp hcall hnext hkind heffect hcomes
  cases a with
  | none =>
      rw [hroomy.ends trivial n₂ ha, add_zero]
      exact hanchor
  | some d =>
      rcases hlands d rfl with hd | ⟨hret, hd⟩
      · exact .copy hd hcomes ha
      · rw [(hroomy.admits d n₂ ha).level trivial hret, add_zero, land,
          Option.elim_some, hd]
        exact hanchor

end Comes

/-- **Copies run on top of what there is at the call.** -/
theorem arrives (hclosed : p.Closed b) (hcallee : p.Closed c)
    (hkind : (p.instr call).kind = .call)
    (heffect : (p.instr call).stackEffect calls = 0)
    (hroomy : Roomy cfg candidate calls True p c)
    (hcomes : Comes calls q b a n) :
    Arrives calls p b c call nop inner f a n := by
  induction hcomes with
  | entry =>
      rw [h.first?_eq hp hcall hnext]
      exact .old .entry
  | @step k a n _ hleads ih =>
      generalize hk : some k = place at ih
      cases ih with
      | @old a' n ha =>
          obtain ⟨k', rfl, rfl⟩ := Option.map_eq_some_iff.mp hk.symm
          by_cases hkc : k' = call
          · subst hkc
            rw [moving_self] at hleads ⊢
            have hzero : (q.instr nop).stackEffect calls = 0 := by
              rw [Instr.stackEffect, Instr.kind, h.isNop]
              rfl
            rw [h.leads_nop hp hcall hnext hleads, hzero]
            exact h.arrives_land hp hcall hnext hkind heffect ha hroomy .entry
              (h.shape.lands_first hp)
          · rw [moving_of_ne hkc] at hleads ⊢
            have hk' := inside_some.mp (ha.inside hp hclosed)
            have hold := h.old k' hk' hkc
            obtain ⟨c, hc, rfl⟩ :=
              h.leads_old hp hcall hnext hclosed hk' hkc hleads
            rw [stackEffect_congr hold.op hold.operand]
            exact .old (ha.step hc)
      | @copy d n₁ n₂ hd hn₁ hn₂ =>
          cases hk
          rw [(h.copy d hd).stackEffect, add_assoc]
          have hland : ∀ a, Leads p d a →
              ∀ e ∈ a, Lands p anchor inner f e := by
            intro a ha e he
            have hin := inside_leads hp hcallee (h.shape.mem hd) ha
            rw [Option.mem_def.mp he] at hin
            exact h.shape.lands hd (inside_some.mp hin)
          rcases h.leads_copy hp hcall hnext hd hleads with ⟨e, he, rfl⟩
            | ⟨hret, rfl⟩
          · exact h.arrives_land hp hcall hnext hkind heffect hn₁ hroomy
              (hn₂.step he) (hland e he)
          · have hzero : (p.instr d).stackEffect calls = 0 := by
              rw [Instr.stackEffect, hret]
            rw [(hroomy.admits d n₂ hn₂).level trivial hret, hzero, add_zero,
              add_zero]
            exact h.arrives_anchor hp hcall hnext hkind heffect hn₁

/-- **Taking in a callee keeps the room**, if there was room for it. -/
theorem roomy (hclosed : p.Closed b) (hcallee : p.Closed c)
    (hm : Inline.calleeOf cfg (p.instr call).bare = some m)
    (hcand : candidate m) (hbody : (p.method m).body = some c)
    (heffect : (p.instr call).stackEffect calls = 0)
    (hb : Roomy cfg candidate calls empties p b)
    (hc : Roomy cfg candidate calls True p c) :
    Roomy cfg candidate calls empties q b := by
  have hkind : (p.instr call).kind = .call := by
    by_contra hno
    rw [calleeOf_eq_none hno] at hm
    cases hm
  have hmax : ∀ d, (q.body d).maxStack = (p.body d).maxStack :=
    fun d => (congrArg Body.maxStack (h.rest d) :)
  have hsame : SameBounds p q := ⟨h.changed.methods, hmax⟩
  have harrives : ∀ {a n}, Comes calls q b a n →
      Arrives calls p b c call nop inner f a n :=
    fun ha => h.arrives hp hcall hnext hclosed hcallee hkind heffect hc ha
  have hroom : ∀ {n}, Comes calls p b (some call) n →
      n + (p.body c).maxStack ≤ (p.body b).maxStack :=
    fun hn => (hb.admits call _ hn).room m c hm hcand hbody
  refine ⟨fun a n ha => ?_, fun hempties n hn => ?_, fun k n hk => ?_⟩
  · rw [hmax]
    cases harrives ha with
    | old ha => exact hb.bound _ _ ha
    | @copy d n₁ n₂ _ hn₁ hn₂ =>
        have hcopy := hc.bound _ _ hn₂
        have hcall := hroom hn₁
        omega
  · generalize hnone : (none : Option InstrId) = a at hn
    cases harrives hn with
    | @old a' _ ha =>
        cases a' with
        | none => exact hb.ends hempties n ha
        | some k => cases hnone
    | copy => cases hnone
  · generalize hplace : some k = a at hk
    cases harrives hk with
    | @old a' _ ha =>
        obtain ⟨k', rfl, rfl⟩ := Option.map_eq_some_iff.mp hplace.symm
        by_cases hkc : k' = call
        · rw [hkc, moving_self]
          have hnop : (q.instr nop).kind = .nop := by
            rw [Instr.kind, h.isNop]
            rfl
          exact admits_of_kind (by simp [hnop]) (by simp [hnop])
        · rw [moving_of_ne hkc]
          have hold := h.old k' (inside_some.mp (ha.inside hp hclosed)) hkc
          exact (hb.admits k' n ha).congr hsame
            (bare_congr hold.op hold.operand)
    | @copy d n₁ n₂ hd hn₁ hn₂ =>
        cases hplace
        have hcopy := h.copy d hd
        refine ⟨fun _ hret => ?_, fun m' c' hm' hcand' hc' => ?_⟩
        · -- The copy of a return is a branch.
          by_cases hx : (p.instr d).kind = .ret
          · rw [hcopy.kind_of_ret hx] at hret
            cases hret
          · exact absurd ((hcopy.kind hx).symm.trans hret) hx
        · rw [hcopy.calleeOf] at hm'
          rw [Program.method, h.changed.methods] at hc'
          have hinner := (hc.admits d n₂ hn₂).room m' c' hm' hcand' hc'
          have houter := hroom hn₁
          rw [hmax, hmax]
          omega

/-- What has been taken in compares no two values. -/
theorem simple (hb : Simple p b) (hc : Simple p c) : Simple q b := by
  refine hb.of_ops fun k hk => ?_
  rcases h.mem_cases hp hcall hnext hk with ⟨hk, hkc⟩ | rfl | ⟨d, hd, rfl⟩
  · exact Or.inr ⟨k, hk, (h.old k hk hkc).op⟩
  · rw [h.isNop]
    exact Or.inl (by decide)
  · exact Or.inl ((h.copy d hd).operandCount_le (hc d (h.shape.mem hd)))

end Spliced

end Inline

/-! ### Runs -/

/-- All bodies of methods are closed and have room on the stack, and those of
candidates empty it; if pointless branches are removed, there is no comparison
of two values among the branches. -/
structure Program.HasRoom (cfg : InlineSettings) (candidate : MethodId → Prop)
    (calls : MethodRef → Int) (passes : List Pass) (p : Program) : Prop where
  closed : p.NoDangling
  roomy : ∀ m b, (p.method m).body = some b →
    Roomy cfg candidate calls (candidate m) p b
  simple : .removeDegenerateBranch ∈ passes →
    ∀ m b, (p.method m).body = some b → Simple p b

section Change

variable {cfg : InlineSettings} {candidate : MethodId → Prop}
  {calls : MethodRef → Int} {passes : List Pass} {p q : Program} {b : BodyId}

/-- A change inside one body, after which there is room in it. -/
theorem Program.HasRoom.change (h : p.HasRoom cfg candidate calls passes)
    (hp : p.WellLinked) (hq : q.WellLinked) (hpq : ChangedIn b p q)
    (hsame : SameBounds p q) (hclosed : q.Closed b) (hroomy : ∀ m,
      (p.method m).body = some b → Roomy cfg candidate calls (candidate m) q b)
    (hsimple : .removeDegenerateBranch ∈ passes → Simple q b) :
    q.HasRoom cfg candidate calls passes where
  closed := h.closed.change hp hq hpq hclosed
  roomy := by
    intro m c hc
    rw [hpq.method] at hc
    by_cases hcb : c = b
    · rw [hcb] at hc ⊢
      exact hroomy m hc
    · exact (h.roomy m c hc).agree hp hq (h.closed m c hc)
        (hpq.agreeOn hp hcb) hsame
  simple := fun hpass => hpq.each hp (fun _ hagree hc => hc.agree hp hq hagree)
    (h.simple hpass) (hsimple hpass)

/-- A candidate has been taken in. -/
theorem Program.HasRoom.spliced {call anchor nop : InstrId}
    {inner : List InstrId} {f : InstrId → InstrId} {c : BodyId} {m d : MethodId}
    (h : p.HasRoom cfg candidate calls passes) (hp : p.WellLinked)
    (hcall : call ∈ p.code b) (hnext : p.next call = some anchor)
    (hspliced : Inline.Spliced b c call anchor nop inner f p q)
    (hclosed : q.Closed b) (hb : (p.method m).body = some b)
    (hc : (p.method d).body = some c)
    (hd : Inline.calleeOf cfg (p.instr call).bare = some d)
    (hcand : candidate d) (heffect : (p.instr call).stackEffect calls = 0) :
    q.HasRoom cfg candidate calls passes := by
  have hmax : SameBounds p q :=
    ⟨hspliced.changed.methods,
      fun d => (congrArg Body.maxStack (hspliced.rest d) :)⟩
  refine h.change hp hspliced.linked hspliced.changed hmax hclosed
    (fun k hk => ?_) fun hpass => ?_
  · have hcallee := (h.roomy d c hc).mono fun _ : True => hcand
    exact hspliced.roomy hp hcall hnext (h.closed m b hb)
      (h.closed d c hc) hd hcand hc heffect (h.roomy k b hk) hcallee
  · exact hspliced.simple hp hcall hnext (h.simple hpass m b hb)
      (h.simple hpass d c hc)

/-- Calls of candidates leave the stack as it is, if they neither take nor
return values. -/
theorem Instr.stackEffect_of_callee {x : Instr} {d : MethodId}
    (hcalls : ∀ r m, cfg.resolve (some r) = some m → candidate m → calls r = 0)
    (hd : Inline.calleeOf cfg x.bare = some d) (hcand : candidate d) :
    x.stackEffect calls = 0 := by
  rw [Inline.calleeOf_bare] at hd
  split at hd
  · next hkind =>
      rw [Instr.stackEffect, hkind]
      cases hr : x.operand.method? with
      | none => rfl
      | some r =>
          rw [hr] at hd
          exact hcalls r d hd hcand
  · cases hd

/-- Room survives all passes, and candidates being taken in. -/
theorem hasRoom_survives (hcalls : ∀ r m, cfg.resolve (some r) = some m →
      candidate m → calls r = 0) : Survives cfg candidate passes
    (Program.HasRoom cfg candidate calls passes) where
  effect := by
    intro e e' i pass m hpass he hi hbody hclosed hchanged heffect hroom
    have hb := hclosed m _ hbody
    have hsame := hchanged.changed.sameBounds (heffect.sameFrames he hi)
    refine hroom.change he.linked hchanged.sound.linked hchanged.changed hsame
      (heffect.closed he hi hb) (fun k hk => ?_) ?_
    · refine heffect.roomy he hi hb (fun hdegenerate => ?_) (hroom.roomy k _ hk)
      exact hroom.simple (hdegenerate ▸ hpass) m _ hbody
    · exact fun hdegenerate =>
        heffect.simple he hi hb (hroom.simple hdegenerate m _ hbody)
  taken := by
    intro p q b c call anchor nop inner f m d hp _ hb hc _ hcall hnext hd hcand
      hspliced hq hroom
    have hbody : (q.method m).body = some b := by
      rw [hspliced.changed.method, hb]
    exact hroom.spliced hp hcall hnext hspliced (hq m b hbody) hb hc hd hcand
      (Instr.stackEffect_of_callee hcalls hd hcand)

end Change

namespace Optimizer

variable {σ : Type} {cfg : InlineSettings} {calls : MethodRef → Int}
  {passes : List Pass} {s : Session σ}

/-- **Stacks stay within their bounds.**  An optimiser with any passes and the
baseline policy starts on a program in which no stack exceeds its bound, the
stack is empty at the returns of methods that may be inlined, and at each call
of one of them there is room for the bound of the callee. If pointless branches
are removed, no branch compares two values.  Whatever has been asked of the
optimiser, and whatever it is asked next: when the request has come back, no
path through the body of a method takes the stack beyond the bound of the
body. -/
theorem stays_bounded {limits : Policy.Limits} {start : Session σ}
    (hp : start.program.WellLinked) (hshare : start.program.Unshared)
    (hmemo : start.memo.recent = [])
    (hpolicy : cfg.policy = Policy.baseline limits) (hcalls : ∀ r m, cfg.resolve
      (some r) = some m → Inlinable limits start.program m → calls r = 0)
    (hroom : start.program.HasRoom cfg
      (Inlinable limits start.program) calls passes)
    (hs : Served (ofPasses cfg passes) start s) (fuel : Nat) (q : Request)
    (hr : returned (q.perform (ofPasses cfg passes) fuel s).1 = true)
    (m : MethodId) (b : BodyId) (hb : ((q.perform
      (ofPasses cfg passes) fuel s).2.program.method m).body = some b) :
    StackBounded calls
    (q.perform (ofPasses cfg passes) fuel s).2.program b := by
  have hkept := survives_request (accepts_baseline hpolicy start.program)
    (hasRoom_survives hcalls)
    hp hshare hmemo rfl hroom.closed hroom hs fuel q hr
  exact (hkept.1.roomy m b hb).bound

/-- A method that calls one that puts a value on the stack; `n` is the bound of
the caller. -/
def callerOfMark (n : Int) : Program where
  instrs := #[⟨.call, .method ⟨"", "mark", [], "void"⟩, some ⟨0⟩⟩,
    ⟨⟨0x70⟩, .absent, some ⟨0⟩⟩, ⟨⟨0x22⟩, .int32 1, some ⟨1⟩⟩,
    ⟨⟨0x43⟩, .field ⟨"", "log", "int32"⟩, some ⟨1⟩⟩,
    ⟨⟨0x70⟩, .absent, some ⟨1⟩⟩]
  bodies := #[{ code := [⟨0⟩, ⟨1⟩], maxStack := n },
    { code := [⟨2⟩, ⟨3⟩, ⟨4⟩], maxStack := 1 }]
  methods := #[{ name := "main", attrs := 1, body := some ⟨0⟩ },
    { name := "mark", attrs := 1, body := some ⟨1⟩ }]

/-- The baseline policy without limits. -/
def inlineMark : InlineSettings where
  resolution := some (.ofMethods (callerOfMark 0) [⟨0⟩, ⟨1⟩])
  policy := .baseline {}

/-- How deep the stack is at each place. -/
def depthAtMark (a : Option InstrId) : Int := if a = some ⟨3⟩ then 1 else 0

/-- The session after a run over both methods with the standard passes. -/
def ranCallerOfMark (n : Int) : Except Fault Unit × Session Unit :=
  (Request.run [⟨0⟩, ⟨1⟩]).perform (ofPasses inlineMark Pass.standard) 40
    { program := callerOfMark n, client := () }

/-- The caller has a bound that is sufficient for the callee, too. -/
theorem stays_bounded_callerOfMark :
    (callerOfMark 1).WellLinked ∧ (callerOfMark 1).Unshared ∧
    (callerOfMark 1).HasRoom inlineMark (Inlinable {} (callerOfMark 1))
    (fun _ => 0) Pass.standard ∧ (ranCallerOfMark 1).2.stats.inlined = 1 ∧
    ∀ m b, ((ranCallerOfMark 1).2.program.method m).body = some b →
    StackBounded (fun _ => 0) (ranCallerOfMark 1).2.program b := by
  have hp : (callerOfMark 1).WellLinked := by decide
  have hshare : (callerOfMark 1).Unshared := by decide
  have hclosed : (callerOfMark 1).NoDangling := by decide
  have hlabels : ∀ k < 2, ∀ b ∈ ((callerOfMark 1).method ⟨k⟩).body,
      Labels (fun _ => 0) (callerOfMark 1) b depthAtMark ∧
      (∀ i ∈ (callerOfMark 1).code b,
        depthAtMark (some i) ≤ ((callerOfMark 1).body b).maxStack ∧
        Admits inlineMark (Inlinable {} (callerOfMark 1))
        (Inlinable {} (callerOfMark 1) ⟨k⟩) (callerOfMark 1) b
        ((callerOfMark 1).instr i) (depthAtMark (some i))) ∧
      0 ≤ ((callerOfMark 1).body b).maxStack ∧ Simple (callerOfMark 1) b := by
    decide +kernel
  have hroom : (callerOfMark 1).HasRoom inlineMark
      (Inlinable {} (callerOfMark 1)) (fun _ => 0) Pass.standard := by
    refine ⟨hclosed, fun m b hb => ?_, fun _ m b hb => ?_⟩
    · obtain ⟨hlabels, hplaces, hend, -⟩ :=
        hlabels m.index (Program.index_lt_of_body hb) b hb
      have hbounded := StackBounded.of_labels hp (hclosed m b hb) hlabels hend
        fun i hi => (hplaces i hi).1
      exact .of_labels hp (hclosed m b hb) hlabels hbounded rfl fun i hi =>
        (hplaces i hi).2
    · exact (hlabels m.index (Program.index_lt_of_body hb) b hb).2.2.2
  have hstart : Served (ofPasses inlineMark Pass.standard)
      { program := callerOfMark 1,
        client := () } { program := callerOfMark 1, client := () } :=
    .start
  obtain ⟨hinlined, hr⟩ : (ranCallerOfMark 1).2.stats.inlined = 1 ∧
      returned (ranCallerOfMark 1).1 = true := by decide +kernel
  refine ⟨hp, hshare, hroom, hinlined, ?_⟩
  rw [ranCallerOfMark] at hr ⊢
  exact stays_bounded hp hshare rfl rfl
    (fun _ _ _ _ => rfl) hroom hstart 40 _ hr

/-- **The bound can be exceeded**, if there is no room for the callee. -/
theorem exceeds_callerOfMark : (callerOfMark 0).WellLinked ∧
    (callerOfMark 0).Unshared ∧ (callerOfMark 0).NoDangling ∧
    (∀ m b, ((callerOfMark 0).method m).body = some b →
      StackBounded (fun _ => 0) (callerOfMark 0) b) ∧
    returned (ranCallerOfMark 0).1 = true ∧
    ¬ ∀ m b, ((ranCallerOfMark 0).2.program.method m).body = some b →
    StackBounded (fun _ => 0) (ranCallerOfMark 0).2.program b := by
  have hp : (callerOfMark 0).WellLinked := by decide
  have hclosed : (callerOfMark 0).NoDangling := by decide
  have hlabels : ∀ k < 2, ∀ b ∈ ((callerOfMark 0).method ⟨k⟩).body,
      Labels (fun _ => 0) (callerOfMark 0) b depthAtMark ∧
      (∀ i ∈ (callerOfMark 0).code b, depthAtMark (some i) ≤
        ((callerOfMark 0).body b).maxStack) ∧
      0 ≤ ((callerOfMark 0).body b).maxStack := by
    decide +kernel
  -- the run is evaluated once; the copy of the constant stands first now
  obtain ⟨hreturned, hbody, hmax, hfirst, hfalls, heffect⟩ :
      returned (ranCallerOfMark 0).1 = true ∧
      ((ranCallerOfMark 0).2.program.method ⟨0⟩).body = some ⟨0⟩ ∧
      ((ranCallerOfMark 0).2.program.body ⟨0⟩).maxStack = 0 ∧
      (ranCallerOfMark 0).2.program.first? ⟨0⟩ = some ⟨6⟩ ∧
      ((ranCallerOfMark 0).2.program.instr ⟨6⟩).fallsThrough = true ∧
      ((ranCallerOfMark 0).2.program.instr ⟨6⟩).stackEffect (fun _ => 0) =
      1 := by decide +kernel
  refine ⟨hp, by decide, hclosed, fun m b hb => ?_, hreturned,
    fun hbounded => ?_⟩
  · obtain ⟨hlabels, hplaces, hend⟩ :=
      hlabels m.index (Program.index_lt_of_body hb) b hb
    exact .of_labels hp (hclosed m b hb) hlabels hend hplaces
  · have hentry :
        Comes (fun _ => 0) (ranCallerOfMark 0).2.program ⟨0⟩ (some ⟨6⟩) 0 :=
      hfirst ▸ .entry
    have hdeep := hbounded _ _ hbody _ _ (hentry.step (.falls hfalls))
    rw [heffect, hmax] at hdeep
    exact absurd hdeep (by decide)

end Optimizer

end Bytecode
