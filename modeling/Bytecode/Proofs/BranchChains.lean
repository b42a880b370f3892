import Bytecode.Proofs.Resting
import Bytecode.Proofs.StackDepth

/-!
# Chains of branches

From each instruction a chain of unconditional branches starts: it has no branch
at all, or it comes to an end at the first instruction of another kind, or it
goes astray, into a circle of branches or to a branch without a target.  The
search for the end of a chain remembers where it has been, and so it always
comes back, with the end if there is one.

A chain that has gone astray has no end that could be cut off, and nothing that
passes do gives it one.  This is not so for single redirections, which may lead
into a circle or out of it; what is kept is a shadow, `Shadows`: each branch of
a chain that is astray goes where the chain of some instruction before the
change was astray.  For a copy that is the instruction it was made from. The
main statements are `walk_chainEnd?`, `chainEnd?_eq_some_iff` and
`Effect.staysAstray`.
-/

namespace Bytecode

open Relation (ReflTransGen TransGen)

namespace Program

variable {p q r : Program} {b : BodyId} {i j k t mid : InstrId}

/-! ### Where chains lead -/

/-- An unconditional branch goes from `i` to `j`. -/
def Jumps (p : Program) (i j : InstrId) : Prop :=
  (p.instr i).kind = .branch ∧ p.target? i = some j

/-- The chain of branches from `i` on ends at `t`, which is the first
instruction of it that is no unconditional branch. -/
def ChainEnds (p : Program) (i t : InstrId) : Prop :=
  ReflTransGen p.Jumps i t ∧ (p.instr t).kind ≠ .branch

/-- The chain of branches from `i` on runs into a circle, or to a branch without
a target. -/
def Astray (p : Program) (i : InstrId) : Prop :=
  ∃ x, ReflTransGen p.Jumps i x ∧
    (TransGen p.Jumps x x ∨ (p.instr x).kind = .branch ∧ p.target? x = none)

/-- The branch `i` can be made to go to `t` at once: it goes to another,
unconditional branch, and the chain from there ends at `t`. -/
def Shortens (p : Program) (i t : InstrId) : Prop :=
  (p.instr i).isBranch = true ∧ ∃ mid, p.target? i = some mid ∧ mid ≠ i ∧
    (p.instr mid).kind = .branch ∧ p.ChainEnds mid t

/-- A branch jumps to one place. -/
theorem Jumps.unique (h : p.Jumps i j) (h' : p.Jumps i k) : k = j :=
  Option.some.inj (h'.2.symm.trans h.2)

/-- A chain that ends can be taken up anywhere on the way. -/
theorem ChainEnds.along (h : p.ChainEnds i t) (hik : ReflTransGen p.Jumps i k) :
    p.ChainEnds k t := by
  induction hik with
  | refl => exact h
  | tail _ hjump ih =>
      -- from where the chain stands there is one step only, so the rest of the
      -- way begins with it
      obtain ⟨hpath, hend⟩ := ih
      rcases hpath.cases_head with rfl | ⟨l, hl, hrest⟩
      · exact absurd hjump.1 hend
      · rw [hjump.unique hl] at hrest
        exact ⟨hrest, hend⟩

/-- A chain has one end. -/
theorem ChainEnds.unique (h : p.ChainEnds i t) (h' : p.ChainEnds i k) :
    k = t := by
  rcases (h.along h'.1).1.cases_head with heq | ⟨l, hl, -⟩
  · exact heq
  · exact absurd hl.1 h'.2

/-- A branch is shortened in one way. -/
theorem Shortens.unique (h : p.Shortens i t) (h' : p.Shortens i k) : k = t := by
  obtain ⟨-, mid, hmid, -, -, hend⟩ := h
  obtain ⟨-, mid', hmid', -, -, hend'⟩ := h'
  obtain rfl : mid = mid' := Option.some.inj (hmid.symm.trans hmid')
  exact hend.unique hend'

/-- All that a circle leads to is on it. -/
theorem circle_along (h : TransGen p.Jumps i i)
    (hik : ReflTransGen p.Jumps i k) : TransGen p.Jumps k k := by
  induction hik with
  | refl => exact h
  | tail _ hjump ih =>
      obtain ⟨l, hl, hback⟩ := TransGen.head'_iff.mp ih
      rw [hjump.unique hl] at hback
      exact .tail' hback hjump

/-- A chain that ends does not go astray. -/
theorem ChainEnds.not_astray (h : p.ChainEnds i t) : ¬ p.Astray i := by
  intro hbad
  obtain ⟨x, hx, hlost⟩ := hbad
  obtain ⟨hpath, hend⟩ := h.along hx
  rcases hlost with hcircle | ⟨hkind, hnone⟩
  · obtain ⟨l, hl, -⟩ := TransGen.head'_iff.mp (circle_along hcircle hpath)
    exact hend hl.1
  · rcases hpath.cases_head with rfl | ⟨l, hl, -⟩
    · exact hend hkind
    · rw [hl.2] at hnone
      cases hnone

/-- Where a chain goes astray there is an unconditional branch. -/
theorem Astray.kind (h : p.Astray i) : (p.instr i).kind = .branch := by
  by_contra hkind
  exact ChainEnds.not_astray ⟨.refl, hkind⟩ h

/-- What is astray is an instruction of the program. -/
theorem Astray.has (h : p.Astray i) : p.Has i := by
  by_contra hi
  have hkind := h.kind
  rw [instr_of_not_has hi] at hkind
  cases hkind

end Program

/-! ### The search for the end of a chain -/

namespace Peephole

variable {p : Program} {seen : List InstrId} {i t : InstrId}
  {r : Option InstrId}

/-- The search for the end of the chain from `i` on, `seen` having been passed,
comes back with `r`.  Nothing bounds the number of its steps but the chain. -/
inductive Walk (p : Program) : List InstrId → InstrId → Option InstrId → Prop
  | arrives {seen : List InstrId} {i : InstrId} : (p.instr i).kind ≠ .branch →
      Walk p seen i (some i)
  | returns {seen : List InstrId} {i : InstrId} :
    (p.instr i).kind = .branch → i ∈ seen → Walk p seen i none
  | strands {seen : List InstrId} {i : InstrId} : (p.instr i).kind = .branch →
    i ∉ seen → p.target? i = none → Walk p seen i none
  | follows {seen : List InstrId} {i t : InstrId} {r : Option InstrId} :
    (p.instr i).kind = .branch → i ∉ seen → p.target? i = some t → Walk p
    (i :: seen) t r → Walk p seen i r

/-- **The search comes back**, as it passes no instruction twice. -/
theorem walk_chainEnd? {n : Nat} (hseen : seen.Nodup)
    (hhas : ∀ k ∈ seen, p.Has k) (hn : p.instrs.size < n + seen.length) :
    Walk p seen i (chainEnd? p n seen i) := by
  induction n generalizing seen i with
  | zero =>
      -- what has been passed is different instructions of the program, so there
      -- is always room left
      have hroom := Program.length_le_of_has hseen hhas
      omega
  | succ n ih =>
      rw [chainEnd?]
      by_cases hkind : (p.instr i).kind = .branch
      · rw [if_neg (not_not.mpr hkind)]
        by_cases hmem : i ∈ seen
        · rw [if_pos hmem]
          exact .returns hkind hmem
        · rw [if_neg hmem]
          cases htarget : (p.instr i).target? with
          | none => exact .strands hkind hmem htarget
          | some t =>
              have hi : p.Has i := by
                by_contra hi
                rw [Program.instr_of_not_has hi] at hkind
                cases hkind
              refine .follows hkind hmem htarget (ih (List.nodup_cons.mpr
                ⟨hmem, hseen⟩) (List.forall_mem_cons.mpr ⟨hi, hhas⟩) ?_)
              rw [List.length_cons]
              omega
      · rw [if_pos hkind]
        exact .arrives hkind

/-- What is found is the end of the chain. -/
theorem Walk.chainEnds (h : Walk p seen i (some t)) : p.ChainEnds i t := by
  generalize hr : some t = r at h
  induction h with
  | arrives hkind =>
      cases hr
      exact ⟨.refl, hkind⟩
  | returns | strands => cases hr
  | follows hkind _ htarget _ ih =>
      obtain ⟨hpath, hend⟩ := ih hr
      exact ⟨.head ⟨hkind, htarget⟩ hpath, hend⟩

/-- If nothing is found, the chain has gone astray, so long as the branches that
have been passed lead to where the search stands. -/
theorem Walk.astray (h : Walk p seen i none)
    (hseen : ∀ k ∈ seen, (p.instr k).kind = .branch → TransGen p.Jumps k i) :
    p.Astray i := by
  generalize hr : none = r at h
  induction h with
  | arrives => cases hr
  | returns hkind hmem => exact ⟨_, .refl, Or.inl (hseen _ hmem hkind)⟩
  | strands hkind _ hnone => exact ⟨_, .refl, Or.inr ⟨hkind, hnone⟩⟩
  | @follows seen i t _ hkind _ htarget _ ih =>
      have hjump : p.Jumps i t := ⟨hkind, htarget⟩
      have hseen' : ∀ k ∈ i :: seen, (p.instr k).kind = .branch →
          TransGen p.Jumps k t := by
        intro k hk hbr
        rcases List.mem_cons.mp hk with rfl | hk
        · exact .single hjump
        · exact (hseen k hk hbr).tail hjump
      obtain ⟨x, hx, hlost⟩ := ih hseen' hr
      exact ⟨x, .head hjump hx, hlost⟩

end Peephole

namespace Program

variable {p q r : Program} {b : BodyId} {i j k t mid : InstrId}

/-- A chain ends, or it goes astray. -/
theorem chainEnds_or_astray (p : Program) (i : InstrId) :
    (∃ t, p.ChainEnds i t) ∨ p.Astray i := by
  have hwalk :
      Peephole.Walk p [] i (Peephole.chainEnd? p (p.instrs.size + 1) [] i) :=
    Peephole.walk_chainEnd? List.nodup_nil (by simp) (by simp)
  cases hend : Peephole.chainEnd? p (p.instrs.size + 1) [] i with
  | none =>
      rw [hend] at hwalk
      exact Or.inr (hwalk.astray (by simp))
  | some t =>
      rw [hend] at hwalk
      exact Or.inl ⟨t, hwalk.chainEnds⟩

/-- What is astray has no end to come to. -/
theorem astray_iff : p.Astray i ↔ ∀ t, ¬ p.ChainEnds i t :=
  ⟨fun h _ hend => hend.not_astray h,
    fun h => (p.chainEnds_or_astray i).resolve_left fun ⟨t, hend⟩ => h t hend⟩

/-- A chain that has gone astray stays so on its way. -/
theorem Astray.next (h : p.Astray i) (ht : p.target? i = some t) :
    p.Astray t := by
  rw [astray_iff]
  intro k hk
  obtain ⟨hpath, hend⟩ := hk
  exact ChainEnds.not_astray ⟨.head ⟨h.kind, ht⟩ hpath, hend⟩ h

/-- The search for a branch finds the end of the chain if there is one. -/
theorem chainEnd?_eq_some_iff (hi : p.Has i) (hmid : p.target? i = some mid) :
    Peephole.chainEnd? p (p.instrs.size + 1) [i] mid = some t ↔
    p.ChainEnds mid t := by
  have hwalk : Peephole.Walk p [i] mid
      (Peephole.chainEnd? p (p.instrs.size + 1) [i] mid) :=
    Peephole.walk_chainEnd? (List.nodup_singleton i) (by simpa using hi)
      (by simp)
  constructor
  · intro hend
    rw [hend] at hwalk
    exact hwalk.chainEnds
  · intro hend
    cases hfound : Peephole.chainEnd? p (p.instrs.size + 1) [i] mid with
    | none =>
        rw [hfound] at hwalk
        -- the branch itself has been passed, and it leads to where its chain
        -- starts
        refine absurd (hwalk.astray fun k hk hbr => ?_) hend.not_astray
        rw [List.mem_singleton.mp hk] at hbr ⊢
        exact .single ⟨hbr, hmid⟩
    | some u =>
        rw [hfound] at hwalk
        rw [hwalk.chainEnds.unique hend]

/-- The pass has something to do at a branch that can be made to go somewhere at
once. -/
theorem idle_retargetDoubleBranch_iff (hi : p.Has i) :
    p.Idle b i .retargetDoubleBranch ↔ ∀ t, ¬ p.Shortens i t := by
  constructor
  · intro h t ht
    obtain ⟨hbr, mid, hmid, hne, hkind, hend⟩ := ht
    have hfound := (chainEnd?_eq_some_iff hi hmid).mpr hend
    exact h
      { method := ⟨0⟩, body := b } rfl _ (.chain hbr hmid hne hkind hfound)
  · intro h e _ q he
    cases he with
    | chain hbr hmid hne hkind hfound =>
        exact h _ ⟨hbr, _, hmid, hne, hkind,
          (chainEnd?_eq_some_iff hi hmid).mp hfound⟩

/-! ### Chains that stay astray -/

/-- Each instruction of `q` stands for one of `p`, as a copy stands for the
instruction it was made from.  Where that one's chain is astray there is a
branch, and it goes on to such an instruction. -/
structure Shadows (g : InstrId → InstrId) (p q : Program) : Prop where
  kind : ∀ {x}, p.Astray (g x) → (q.instr x).kind = .branch
  target : ∀ {x y}, p.Astray (g x) → q.target? x = some y → p.Astray (g y)

/-- What has gone astray in `p` is astray in `q`. -/
def StaysAstray (p q : Program) : Prop := ∀ i, p.Astray i → q.Astray i

theorem StaysAstray.refl (p : Program) : p.StaysAstray p := fun _ h => h

/-- What stays astray twice stays astray. -/
theorem StaysAstray.trans (h : p.StaysAstray q) (h' : q.StaysAstray r) :
    p.StaysAstray r :=
  fun i hi => h' i (h i hi)

namespace Shadows

variable {g : InstrId → InstrId} {x : InstrId} {op : Opcode} {o : Operand}

/-- Each instruction stands for itself. -/
theorem refl (p : Program) : Shadows id p p :=
  ⟨fun h => h.kind, fun h ht => h.next ht⟩

variable (h : Shadows g p q)

include h

/-- What shadows something astray is there. -/
theorem has (hx : p.Astray (g x)) : q.Has x := by
  by_contra hnot
  have hkind := h.kind hx
  rw [instr_of_not_has hnot] at hkind
  cases hkind

/-- A way from there leads over such instructions only, and so to no end. -/
theorem astray (hx : p.Astray (g x)) : q.Astray x := by
  have hway : ∀ y, ReflTransGen q.Jumps x y → p.Astray (g y) := by
    intro y hpath
    induction hpath with
    | refl => exact hx
    | tail _ hjump ih => exact h.target ih hjump.2
  exact astray_iff.mpr fun t hend => hend.2 (h.kind (hway t hend.1))

/-- A change keeps shadows if it keeps opcodes, and if a branch that gets
another target and stands for a chain that is astray is sent on to such an
instruction. -/
theorem change (hop : ∀ y, q.Has y → (r.instr y).op = (q.instr y).op)
    (htarget : ∀ y, p.Astray (g y) → r.target? y = q.target? y ∨
      ∀ t, r.target? y = some t → p.Astray (g t)) : Shadows g p r where
  kind := by
    intro y hy
    have hkind : (q.instr y).op.kind = .branch := h.kind hy
    rw [Instr.kind, hop y (h.has hy), hkind]
  target := by
    intro y t hy ht
    rcases htarget y hy with hsame | hnew
    · exact h.target hy (by rwa [← hsame])
    · exact hnew t ht

/-- Operands that stay. -/
theorem same (hop : ∀ y, q.Has y → (r.instr y).op = (q.instr y).op)
    (ho : ∀ y, q.Has y → (r.instr y).operand = (q.instr y).operand) :
    Shadows g p r :=
  h.change hop fun y hy => Or.inl (congrArg Operand.target? (ho y (h.has hy)))

/-- Redirecting branches leads none out of its way. -/
theorem redirect (hq : q.WellLinked) (b : BodyId) {new : Option InstrId}
    (hnew : ∀ y ∈ q.branchesTo b (some i), ∀ t, new = some t → p.Astray (g i) →
      p.Astray (g t)) : Shadows g p (q.redirect b (some i) new) := by
  refine h.change (fun y _ => op_redirect hq y) fun y hy => ?_
  rw [target?, instr_redirect hq]
  split
  · next hmoved =>
      refine Or.inr fun t ht => ?_
      rw [Instr.target?, Operand.target?_ofTarget] at ht
      exact hnew y hmoved.2 t ht (h.target hy (mem_branchesTo.mp hmoved.2).2.2)
  · exact Or.inl rfl

/-- Taking an instruction out leads none out of its way. -/
theorem without (hq : q.WellLinked) (hi : i ∈ q.code b)
    (hnext : ∀ y ∈ q.branchesTo b (some i), ∀ t, q.next i = some t →
      p.Astray (g i) → p.Astray (g t)) : Shadows g p (q.without b i) := by
  have hunlink := instr_unlink (b := b) (hq.has hi)
  have hunlinked : Shadows g p (q.unlink b i) := by
    refine h.same (fun y _ => ?_) fun y _ => ?_
    · rw [hunlink]
      split <;> simp_all
    · rw [hunlink]
      split <;> simp_all
  refine hunlinked.redirect (hq.unlink hi) b fun y hy => hnext y ?_
  obtain ⟨hcode, hbr, ht⟩ := mem_branchesTo.mp hy
  rw [code_unlink hq hi, (hq.nodup_code b).mem_erase_iff] at hcode
  rw [hunlink, if_neg hcode.1] at hbr
  rw [target?, hunlink, if_neg hcode.1] at ht
  exact mem_branchesTo.mpr ⟨hcode.2, hbr, ht⟩

/-- What does not go astray can be renewed. -/
theorem renewed (hq : q.WellLinked) (hi : i ∈ q.code b)
    (hgood : ¬ p.Astray (g i)) (op : Opcode) (o : Operand) :
    Shadows g p (q.renewed b i op o) := by
  have hnew := hq.newInstr op o
  have hi' : i ∈ (q.newInstr op o).2.code b := by rwa [hq.code_newInstr]
  have hhas := has_newInstr (p := q) op o
  have hfree := owner_fresh (p := q) op o
  have hswapped :
      Shadows g p ((q.newInstr op o).2.swap b i (q.newInstr op o).1) := by
    refine h.same (fun y hy => ?_) fun y hy => ?_
    · rw [op_swap hnew hi' hhas hfree, instr_newInstr_of_has op o hy]
    · rw [operand_swap hnew hi' hhas hfree, instr_newInstr_of_has op o hy]
  exact hswapped.redirect (hnew.swap hi' hhas hfree) b fun _ _ _ _ hbad =>
    absurd hbad hgood

/-- Pops lead nowhere. -/
theorem withPops {mark : InstrId} (n : Nat) :
    Shadows g p (withPops b mark n q) := by
  induction n generalizing q with
  | zero => exact h
  | succ n ih =>
      have hold : ∀ y, q.Has y →
          (q.withNew b mark .pop .absent).instr y = q.instr y := by
        intro y hy
        rw [instr_withNew, if_neg]
        intro heq
        subst heq
        exact not_has_newInstr .pop .absent hy
      exact ih
        (h.same (fun y hy => by rw [hold y hy]) fun y hy => by rw [hold y hy])

end Shadows

end Program

/-- **What has gone astray stays so** under local passes. -/
theorem Editing.Effect.staysAstray {s : Editing} {i : InstrId} {pass : Pass}
    {q : Program} (he : s.Effect i pass q) (hs : s.Sound) (hi : i ∈ s.code) :
    s.program.StaysAstray q := by
  have hp := hs.linked
  have hself := Program.Shadows.refl s.program
  suffices hshadows : Program.Shadows id s.program q
      from fun _ hx => hshadows.astray hx
  cases he with
  | @exit t hkind ht hexit =>
      -- the branch goes to a return or a throw, where its chain ends
      refine hself.renewed hp hi (Program.ChainEnds.not_astray (t := t) ?_) _ _
      refine ⟨.single ⟨hkind, ht⟩, fun hbr => ?_⟩
      rcases hexit with hret | hthrows
      · rw [hret] at hbr
        cases hbr
      · rw [hthrows] at hbr
        cases hbr
  | jump _ hn ht =>
      -- a branch to the branch that goes is sent on to where that one went
      refine hself.without hp hi fun _ _ t hnext hbad =>
        Program.Astray.next hbad ?_
      change s.program.target? i = some t
      rw [ht, ← hn, hnext]
  | pops _ _ _ hk =>
      refine (hself.renewed hp hi (fun hbad => ?_) _ _).withPops _
      have hkind : (s.program.instr i).op.kind = .branch := hbad.kind
      rw [Opcode.operandCount_of_kind (by simp [hkind]) (by simp [hkind])] at hk
      cases hk
  | nop hkind =>
      refine hself.without hp hi fun _ _ _ _ hbad => ?_
      rw [show (s.program.instr i).kind = .branch from hbad.kind] at hkind
      cases hkind
  | dead _ hun =>
      refine hself.without hp hi fun y hy => ?_
      rw [hun.1] at hy
      cases hy
  | @chain mid t hbr hmid hne hkind hend =>
      -- the chain from `i` ends, or `i` is a conditional branch and no part of
      -- a chain
      have hgood : ¬ s.program.Astray i := fun hbad =>
        ((Program.chainEnd?_eq_some_iff (hp.has hi) hmid).mp hend).not_astray
          (hbad.next hmid)
      refine hself.change (fun y _ => ?_) fun y hy => Or.inl ?_
      · rw [Program.instr_setTarget (hp.has hi)]
        split
        · next hyi => rw [hyi]
        · rfl
      · rw [Program.target?, Program.instr_setTarget (hp.has hi), if_neg]
        · rfl
        · intro heq
          subst heq
          exact hgood hy

namespace Inline

open Program (Shadows)

variable {s s' : Editing} {p : Program} {base : Nat} {anchor call i : InstrId}
  {code : List InstrId} {copies : List (InstrId × InstrId)} {c : BodyId}
  {op : Opcode} {o : Operand} {x : Instr} {g : InstrId → InstrId}

/-- The copy of an unconditional branch. -/
theorem CopyOf.branch (h : CopyOf x anchor copies op o)
    (hx : x.kind = .branch) : op.kind = .branch ∧ ∀ t, o.target? = some t →
    ∃ u, x.target? = some u ∧ (copies.lookup u = some t ∨ u = t) := by
  cases h with
  | exit hret =>
      rw [hret] at hx
      cases hx
  | backward _ htarget hlook =>
      refine ⟨hx, fun t ht => ⟨_, htarget, Or.inl ?_⟩⟩
      rw [hlook]
      exact ht
  | forward => exact ⟨hx, fun t ht => ⟨t, ht, Or.inr rfl⟩⟩
  | access haccess =>
      rw [Instr.access?, hx] at haccess
      cases haccess
  | plain _ hbr =>
      rw [Instr.isBranch, Opcode.isBranch, show x.op.kind = .branch from hx]
        at hbr
      cases hbr

/-- The copies of instructions that have been copied stand for what these stand
for. -/
structure Stands (g : InstrId → InstrId) (q : Program)
    (copies : List (InstrId × InstrId)) : Prop where
  original : ∀ {k j}, copies.lookup k = some j → q.Has k
  copy : ∀ {k j}, copies.lookup k = some j → q.Has j
  alike : ∀ {k j}, copies.lookup k = some j → g j = g k

/-- Without copies nothing stands for them. -/
theorem Stands.nil {q : Program} : Stands g q [] where
  original := fun hk => by cases hk
  copy := fun hk => by cases hk
  alike := fun hk => by cases hk

/-- Copies stand for what they did. -/
theorem Stands.kept {q r : Program} {f : InstrId → InstrId}
    (h : Stands g q copies) (hgrown : q.instrs.size ≤ r.instrs.size)
    (hf : ∀ k, q.Has k → f k = g k) : Stands f r copies where
  original := fun hk => lt_of_lt_of_le (h.original hk) hgrown
  copy := fun hk => lt_of_lt_of_le (h.copy hk) hgrown
  alike := fun hk => by rw [hf _ (h.copy hk), hf _ (h.original hk), h.alike hk]

/-- One copy more. -/
theorem Stands.cons {q : Program} {j : InstrId} (h : Stands g q copies)
    (hi : q.Has i) (hj : q.Has j) (halike : g j = g i) :
    Stands g q ((i, j) :: copies) := by
  have hlook : ∀ {k l}, ((i, j) :: copies).lookup k = some l →
      k = i ∧ l = j ∨ copies.lookup k = some l := by
    intro k l hk
    rw [List.lookup_cons] at hk
    split at hk
    · next heq => exact Or.inl ⟨by simpa using heq, (Option.some.inj hk).symm⟩
    · exact Or.inr hk
  refine ⟨fun hk => ?_, fun hk => ?_, fun hk => ?_⟩
  · obtain ⟨rfl, rfl⟩ | hk := hlook hk
    · exact hi
    · exact h.original hk
  · obtain ⟨rfl, rfl⟩ | hk := hlook hk
    · exact hj
    · exact h.copy hk
  · obtain ⟨rfl, rfl⟩ | hk := hlook hk
    · exact halike
    · exact h.alike hk

section Copied

variable {b : BodyId} {q : Program}

/-- What there was before stands for what it stood for. -/
theorem update_fresh {k j : InstrId} (hk : q.Has k) :
    Function.update g (q.newInstr op o).1 j k = g k := by
  refine Function.update_of_ne ?_ _ _
  intro heq
  subst heq
  exact Program.not_has_newInstr op o hk

/-- The copy of `i` stands for what `i` stands for, and so do the branches that
it takes over. -/
theorem shadows_copied (h : Shadows g p q) (hq : q.WellLinked)
    (hanchor : anchor ∈ q.code b) (hi : q.Has i) (hcopies : Stands g q copies)
    (hcopy : CopyOf (q.instr i) anchor copies op o) :
    Shadows (Function.update g (q.newInstr op o).1 (g i)) p
    (copied q b anchor i op o) := by
  have hself :
      Function.update g (q.newInstr op o).1 (g i) (q.newInstr op o).1 = g i :=
    Function.update_self ..
  have hlinked : Shadows (Function.update g (q.newInstr op o).1 (g i)) p
      (q.withNew b anchor op o) := by
    refine ⟨fun {x} hx => ?_, fun {x y} hx hy => ?_⟩
    · rw [Program.instr_withNew]
      split
      · next heq =>
          rw [heq, hself] at hx
          exact (hcopy.branch (h.kind hx)).1
      · next hne =>
          rw [Function.update_of_ne hne] at hx
          exact h.kind hx
    · rw [Program.target?, Program.instr_withNew] at hy
      split at hy
      · next heq =>
          rw [heq, hself] at hx
          obtain ⟨u, hu, hto⟩ := (hcopy.branch (h.kind hx)).2 y hy
          have hbad : p.Astray (g u) := h.target hx hu
          rcases hto with hlook | rfl
          · rwa [update_fresh (hcopies.copy hlook), hcopies.alike hlook]
          · rwa [update_fresh (h.has hbad)]
      · next hne =>
          rw [Function.update_of_ne hne] at hx
          have hbad : p.Astray (g y) := h.target hx hy
          rwa [update_fresh (h.has hbad)]
  -- branches to the original go to the copy from now on
  refine hlinked.redirect (hq.withNew hanchor op o) b fun y _ t ht hbad => ?_
  obtain rfl := Option.some.inj ht
  rw [update_fresh hi] at hbad
  rwa [hself]

end Copied

/-- The copy loop sends no branch that stands for a chain which is astray to an
end. -/
theorem CopyRun.shadows (hrun : CopyRun base anchor code copies s s')
    (hs : s.Sound) (hanchor : anchor ∈ s.code)
    (hcode : ∀ k ∈ code, s.program.Has k) (hcopies : Stands g s.program copies)
    (h : Shadows g p s.program) :
    ∃ f, (∀ k, s.program.Has k → f k = g k) ∧ Shadows f p s'.program := by
  induction hrun generalizing g with
  | stop => exact ⟨g, fun _ _ => rfl, h⟩
  | exit hret _ hprog =>
      -- a return is not copied; branches to it go to the anchor, and none of
      -- them is astray
      refine ⟨g, fun _ _ => rfl, ?_⟩
      rw [hprog]
      refine h.redirect hs.linked _ fun _ _ _ _ hbad => ?_
      rw [h.kind hbad] at hret
      cases hret
  | @copy i rest copies s s₁ s' op o _ hcopy hs₁ hprog _ ih =>
      have hi := hcode i List.mem_cons_self
      have hgrown := hs₁.changed.grown
      have hfresh : s₁.program.Has (s.program.newInstr op o).1 := by
        rw [hprog]
        exact (Program.changedIn_redirect (hs.linked.withNew hanchor op o)
          _ _ _).has ((hs.linked.withNew hanchor op o).has
            ((Program.mem_code_withNew hs.linked hanchor op o).mpr
              (Or.inl rfl)))
      -- the new instruction stands for what the original stands for, all others
      -- for what they did
      have hkept : Stands (Function.update g (s.program.newInstr op o).1 (g i))
          s₁.program copies :=
        hcopies.kept hgrown fun k hk => update_fresh hk
      have hanchor₁ : anchor ∈ s₁.code := by
        rw [Editing.code, hs₁.body, hprog, mem_code_copied hs.linked hanchor]
        exact Or.inr hanchor
      obtain ⟨f, hf, hshadows⟩ := ih hs₁.sound hanchor₁
        (fun k hk => hs₁.changed.has (hcode k (List.mem_cons_of_mem _ hk)))
        (g := Function.update g (s.program.newInstr op o).1 (g i))
        (hkept.cons (hs₁.changed.has hi) hfresh
          (by rw [update_fresh hi, Function.update_self]))
        (by rw [hprog]; exact shadows_copied h hs.linked hanchor hi hcopies
              (copyOf_ok hcopy))
      exact ⟨f, fun k hk => (hf k (hs₁.changed.has hk)).trans (update_fresh hk),
        hshadows⟩

/-- **What has gone astray stays so** when a call gives way to the body of its
callee. -/
theorem Replaces.staysAstray (h : Replaces call c anchor s s') (hs : s.Sound)
    (hcall : call ∈ s.code) (hkind : (s.program.instr call).kind ≠ .branch)
    (hnext : s.program.next call = some anchor) :
    s.program.StaysAstray s'.program := by
  obtain ⟨t, ht, htake⟩ := h.cleared hs hcall hnext
  have hcleared : Shadows id s.program t.program := by
    rw [ht.program]
    exact (Shadows.refl s.program).renewed hs.linked hcall
      (fun hbad => hkind hbad.kind) _ _
  cases htake with
  | nothing _ heq =>
      rw [heq]
      exact fun x hx => hcleared.astray hx
  | @copies s₁ hslots hrun =>
      have hinstr := hslots.instr
      have hslotted : Shadows id s.program s₁.program :=
        hcleared.same (fun y _ => by rw [hinstr]) fun y _ => by rw [hinstr]
      have hanchor : anchor ∈ s₁.code := by
        rw [hslots.code]
        exact ht.anchor
      obtain ⟨f, hf, hshadows⟩ := hrun.shadows hslots.sound hanchor
        (fun k hk => hslots.changed.has (ht.sound.linked.has hk))
        .nil hslotted
      intro x hx
      refine hshadows.astray ?_
      rwa [hf x (hslots.changed.has (ht.changed.has hx.has))]

end Inline

end Bytecode
