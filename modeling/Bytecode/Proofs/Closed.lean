import Bytecode.Proofs.Inlining

/-!
# Branches stay inside their body

A body is closed when each of its branches goes to one of its own instructions.
Every change that a local pass can make keeps a body closed.  The copy loop of
the inliner does not keep it closed round by round: a copied branch may still
wait for an instruction of the callee that has not been copied.  What each round
keeps is that all waiting branches wait for instructions still to come, so that
none is left when the loop ends.
-/

namespace Bytecode

namespace Program

variable {p q : Program} {b : BodyId} {i j t mark : InstrId}
  {pending : List InstrId}

/-- Every branch of the body goes to an instruction of the body. -/
def Closed (p : Program) (b : BodyId) : Prop :=
  ∀ i ∈ p.code b, (p.instr i).isBranch = true →
    ∃ t ∈ p.code b, p.target? i = some t

instance : Decidable (p.Closed b) :=
  inferInstanceAs
    (Decidable (∀ i ∈ p.code b, _ → ∃ t ∈ p.code b, p.target? i = some t))

/-- Every branch of the body goes to an instruction of the body or to a pending
one. -/
def ClosedUpTo (pending : List InstrId) (p : Program) (b : BodyId) : Prop :=
  ∀ i ∈ p.code b, (p.instr i).isBranch = true →
    ∃ t, (t ∈ p.code b ∨ t ∈ pending) ∧ p.target? i = some t

theorem closedUpTo_nil : ClosedUpTo [] p b ↔ p.Closed b := by
  simp [ClosedUpTo, Closed]

theorem Closed.upTo (h : p.Closed b) (pending : List InstrId) :
    ClosedUpTo pending p b := by
  intro i hi hbr
  obtain ⟨t, ht, htarget⟩ := h i hi hbr
  exact ⟨t, Or.inl ht, htarget⟩

/-- The body is looked at, and nothing else. -/
theorem Closed.agree (h : p.Closed b) (hp : p.WellLinked) (hq : q.WellLinked)
    (hpq : AgreeOn b p q) : q.Closed b := by
  have hcode : q.code b = p.code b := by rw [hq.code, hpq.body, hp.code]
  intro i hi hbr
  rw [hcode] at hi ⊢
  have hinstr : q.instr i = p.instr i := hpq.instr i (by rwa [← hp.code])
  rw [target?, hinstr]
  exact h i hi (by rwa [← hinstr])

theorem agreeOn_newInstr (hp : p.WellLinked) (op : Opcode) (o : Operand)
    (b : BodyId) : AgreeOn b p (p.newInstr op o).2 where
  body := rfl
  instr :=
    fun i hi => instr_newInstr_of_has op o (has_of_owner ((hp.owned b i).mp hi))

theorem Closed.without (h : p.Closed b) (hp : p.WellLinked) (hi : i ∈ p.code b)
    (hd : (p.next i).isSome ∨ p.branchesTo b (some i) = []) :
    (p.without b i).Closed b := by
  intro k hk hbr
  rw [isBranch_without hp hi] at hbr
  obtain ⟨hkc, hki⟩ := (mem_code_without hp hi).mp hk
  obtain ⟨t, ht, htarget⟩ := h k hkc hbr
  rw [target?_without hp hi hkc hki hbr]
  by_cases hto : p.target? k = some i
  · rw [if_pos hto]
    rcases hd with hn | hnone
    · obtain ⟨n, hn⟩ := Option.isSome_iff_exists.mp hn
      have hafter : elemAfter? i (p.code b) = some n := by rwa [← hp.next hi]
      exact ⟨n, (mem_code_without hp hi).mpr
        ⟨mem_of_elemAfter? hafter, elemAfter?_ne (hp.nodup_code b) hafter⟩, hn⟩
    · have hmem : k ∈ p.branchesTo b (some i) :=
        mem_branchesTo.mpr ⟨hkc, hbr, hto⟩
      rw [hnone] at hmem
      cases hmem
  · rw [if_neg hto]
    refine ⟨t, (mem_code_without hp hi).mpr ⟨ht, ?_⟩, htarget⟩
    rintro rfl
    exact hto htarget

/-- An instruction that is no branch is put in the place of another one. -/
theorem Closed.exchange (h : p.Closed b) (hp : p.WellLinked) (hi : i ∈ p.code b)
    (hj : p.Has j) (hfree : p.owner j = none)
    (hop : (p.instr j).isBranch = false) : (p.exchange b i j).Closed b := by
  intro k hk hbr
  rw [isBranch_exchange hp hi hj hfree] at hbr
  have hmem := (mem_code_exchange hp hi hfree).mp hk
  rw [target?_exchange hp hi hj hfree hk hbr]
  rcases hmem with rfl | ⟨hkc, -⟩
  · rw [hop] at hbr
    cases hbr
  · obtain ⟨t, ht, htarget⟩ := h k hkc hbr
    by_cases hto : p.target? k = some i
    · rw [if_pos hto]
      exact ⟨j, (mem_code_exchange hp hi hfree).mpr (Or.inl rfl), rfl⟩
    · rw [if_neg hto]
      refine ⟨t, (mem_code_exchange hp hi hfree).mpr (Or.inr ⟨ht, ?_⟩), htarget⟩
      rintro rfl
      exact hto htarget

theorem Closed.renewed (h : p.Closed b) (hp : p.WellLinked) (hi : i ∈ p.code b)
    {op : Opcode} (hop : op.isBranch = false) (o : Operand) :
    (p.renewed b i op o).Closed b := by
  have hnew := hp.newInstr op o
  apply (h.agree hp hnew (agreeOn_newInstr hp op o b)).exchange hnew
  · rwa [hp.code_newInstr]
  · exact has_newInstr op o
  · exact owner_fresh op o
  · rw [instr_newInstr, if_pos rfl]
    exact hop

theorem Closed.setTarget (h : p.Closed b) (hp : p.WellLinked)
    (hi : i ∈ p.code b) (ht : t ∈ p.code b) :
    (p.setTarget i (some t)).Closed b := by
  have hcode : (p.setTarget i (some t)).code b = p.code b := code_setTargets [i]
  intro k hk hbr
  rw [hcode] at hk ⊢
  rw [target?]
  rw [instr_setTarget (hp.has hi)] at hbr ⊢
  split at hbr
  · next hki =>
      rw [if_pos hki]
      exact ⟨t, ht, Operand.target?_ofTarget (some t)⟩
  · next hki =>
      rw [if_neg hki]
      exact h k hk hbr

/-- A fresh instruction that goes to the body or waits for a pending
instruction. -/
theorem ClosedUpTo.withNew (h : ClosedUpTo pending p b) (hp : p.WellLinked)
    (hmark : mark ∈ p.code b) (op : Opcode) (o : Operand)
    (hop : op.isBranch = true → ∃ t, (t ∈ p.code b ∨ t ∈ pending) ∧
      o.target? = some t) : ClosedUpTo pending (p.withNew b mark op o) b := by
  have hwiden : ∀ {t}, t ∈ p.code b ∨ t ∈ pending →
      t ∈ (p.withNew b mark op o).code b ∨ t ∈ pending := by
    intro t ht
    rw [mem_code_withNew hp hmark]
    exact ht.imp_left Or.inr
  intro k hk hbr
  rw [target?]
  rw [instr_withNew] at hbr ⊢
  split at hbr
  · next hnew =>
      obtain ⟨t, ht, htarget⟩ := hop hbr
      rw [if_pos hnew]
      exact ⟨t, hwiden ht, htarget⟩
  · next hold =>
      rw [if_neg hold]
      rw [mem_code_withNew hp hmark] at hk
      obtain ⟨t, ht, htarget⟩ := h k (hk.resolve_left hold) hbr
      exact ⟨t, hwiden ht, htarget⟩

theorem Closed.withPops (h : p.Closed b) (hp : p.WellLinked)
    (hmark : mark ∈ p.code b) (n : Nat) : (withPops b mark n p).Closed b := by
  induction n generalizing p with
  | zero => exact h
  | succ n ih =>
      have hnew :=
        (h.upTo []).withNew hp hmark .pop .absent (fun hbr => by cases hbr)
      exact ih (closedUpTo_nil.mp hnew) (hp.withNew hmark _ _)
        ((mem_code_withNew hp hmark _ _).mpr (Or.inr hmark))

/-- Those that wait for `i` are sent to an instruction of the body. -/
theorem ClosedUpTo.redirect (h : ClosedUpTo (i :: pending) p b)
    (hp : p.WellLinked) (hj : j ∈ p.code b) :
    ClosedUpTo pending (p.redirect b (some i) (some j)) b := by
  intro k hk hbr
  rw [code_redirect] at hk ⊢
  rw [isBranch_redirect hp] at hbr
  obtain ⟨t, ht, htarget⟩ := h k hk hbr
  rw [target?_redirect hp hk hbr]
  by_cases hto : p.target? k = some i
  · rw [if_pos hto]
    exact ⟨j, Or.inl hj, rfl⟩
  · rw [if_neg hto]
    refine ⟨t, ht.imp_right fun hmem => ?_, htarget⟩
    rcases List.mem_cons.mp hmem with rfl | hmem
    · exact absurd htarget hto
    · exact hmem

/-- A chain of branches does not lead out of a closed body. -/
theorem Closed.chainEnd_mem (h : p.Closed b) {n : Nat} {seen : List InstrId}
    (hi : i ∈ p.code b) (hend : Peephole.chainEnd? p n seen i = some t) :
    t ∈ p.code b := by
  induction n generalizing seen i with
  | zero => cases hend
  | succ n ih =>
      rw [Peephole.chainEnd?] at hend
      split at hend
      · cases hend
        exact hi
      · next hkind =>
          have hbr : (p.instr i).isBranch = true := by
            rw [Instr.isBranch, Opcode.isBranch,
              show (p.instr i).op.kind = .branch from not_not.mp hkind]
            rfl
          split at hend
          · cases hend
          · obtain ⟨k, hk, htarget⟩ := h i hi hbr
            have htarget' : (p.instr i).target? = some k := htarget
            rw [htarget', Option.bind_some] at hend
            exact ih hk hend

end Program

/-- **Local passes keep a body closed.** -/
theorem Editing.Effect.closed {s : Editing} {i : InstrId} {pass : Pass}
    {q : Program} (he : s.Effect i pass q) (hs : s.Sound) (hi : i ∈ s.code)
    (h : s.program.Closed s.editor.body) : q.Closed s.editor.body := by
  have hp := hs.linked
  cases he with
  | exit _ _ hkind =>
      apply h.renewed hp hi
      rw [Opcode.isBranch]
      rcases hkind with hkind | hkind
      · rw [show Opcode.kind _ = _ from hkind]
        rfl
      · rw [show Opcode.kind _ = _ from hkind]
        rfl
  | jump _ hnext _ _ => exact h.without hp hi (Or.inl (by rw [hnext]; rfl))
  | pops =>
      have hnew := hp.newInstr .pop .absent
      have hi' :
          i ∈ (s.program.newInstr .pop .absent).2.code s.editor.body := by
        rwa [hp.code_newInstr]
      have hfree := Program.owner_fresh (p := s.program) .pop .absent
      exact (h.renewed hp hi rfl .absent).withPops
        (hnew.exchange hi' (Program.has_newInstr _ _) hfree)
        ((Program.mem_code_exchange hnew hi' hfree).mpr (Or.inl rfl)) _
  | nop _ hd => exact h.without hp hi hd
  | dead _ hun => exact h.without hp hi (Or.inr hun.1)
  | chain hbr hmid _ _ hend =>
      obtain ⟨k, hk, htarget⟩ := h i hi hbr
      rw [hmid] at htarget
      cases htarget
      exact h.setTarget hp hi (h.chainEnd_mem hk hend)

namespace Inline

variable {s s' : Editing} {base : Nat} {anchor i : InstrId}
  {copies : List (InstrId × InstrId)} {code : List InstrId} {c : BodyId}

/-- What the copy loop can count on half-way: the originals stand in another
body, their branches go to originals that are still to come or have been copied,
and copies stand in the body under edit. -/
structure Originals (c : BodyId) (code : List InstrId)
    (copies : List (InstrId × InstrId)) (s : Editing) : Prop where
  elsewhere : c ≠ s.editor.body
  owned : ∀ i ∈ code, s.program.owner i = some c
  targets : ∀ i ∈ code, (s.program.instr i).isBranch = true →
    ∃ t, s.program.target? i = some t ∧ (t ∈ code ∨ (copies.lookup t).isSome)
  copied : ∀ t j, copies.lookup t = some j → j ∈ s.code

/-- A copied branch goes to the body or waits for an original that is still to
come. -/
theorem CopyOf.target {rest : List InstrId} {op : Opcode} {o : Operand}
    (h : CopyOf (s.program.instr i) anchor copies op o)
    (hanchor : anchor ∈ s.code) (ho : Originals c (i :: rest) copies s)
    (hop : op.isBranch = true) :
    ∃ t, (t ∈ s.code ∨ t ∈ i :: rest) ∧ o.target? = some t := by
  cases h with
  | exit => exact ⟨anchor, Or.inl hanchor, rfl⟩
  | @backward t c _ _ hlook => exact ⟨c, Or.inl (ho.copied t c hlook), rfl⟩
  | forward hbr hnone =>
      obtain ⟨t, htarget, hwhere⟩ := ho.targets i List.mem_cons_self hbr
      refine ⟨t, Or.inr (hwhere.resolve_right ?_), htarget⟩
      rw [hnone t htarget]
      simp
  | access hacc hkind =>
      rw [Opcode.isBranch, hkind] at hop
      rw [Instr.access?] at hacc
      cases hk : (s.program.instr i).kind <;>
        simp [hk, Kind.access?, Kind.isBranch] at hacc hop
  | plain _ hbr =>
      rw [Instr.isBranch] at hbr
      rw [hbr] at hop
      cases hop

/-- One round of the copy loop keeps what the next one counts on. -/
theorem Originals.step {s₁ : Editing} {rest : List InstrId} {j : InstrId}
    (ho : Originals c (i :: rest) copies s) (hs : Editing.Edited s s₁)
    (hcode : ∀ k, k ∈ s₁.code ↔ k = j ∨ k ∈ s.code) :
    Originals c rest ((i, j) :: copies) s₁ where
  elsewhere := by
    rw [hs.body]
    exact ho.elsewhere
  owned := by
    intro k hk
    have hown := ho.owned k (List.mem_cons_of_mem _ hk)
    rw [Program.owner, hs.changed.instr k c hown ho.elsewhere]
    exact hown
  targets := by
    intro k hk hbr
    have hsame :=
      hs.changed.instr k c (ho.owned k (List.mem_cons_of_mem _ hk)) ho.elsewhere
    rw [hsame] at hbr
    obtain ⟨t, htarget, hwhere⟩ := ho.targets k (List.mem_cons_of_mem _ hk) hbr
    refine ⟨t, by rw [Program.target?, hsame]; exact htarget, ?_⟩
    rw [List.lookup_cons]
    by_cases hti : t = i
    · subst hti
      simp
    · have hbeq : (t == i) = false := by simpa using hti
      rw [hbeq]
      exact hwhere.imp_left fun hmem => (List.mem_cons.mp hmem).resolve_left hti
  copied := by
    intro t k hlook
    rw [List.lookup_cons] at hlook
    rw [hcode]
    by_cases hti : (t == i) = true
    · rw [hti] at hlook
      exact Or.inl (Option.some.inj hlook).symm
    · rw [Bool.not_eq_true] at hti
      rw [hti] at hlook
      exact Or.inr (ho.copied t k hlook)

/-- **The copy loop closes the body again.** -/
theorem CopyRun.closed (hrun : CopyRun base anchor code copies s s')
    (hs : s.Sound) (hanchor : anchor ∈ s.code) (ho : Originals c code copies s)
    (h : Program.ClosedUpTo code s.program s.editor.body) :
    s'.program.Closed s.editor.body := by
  induction hrun with
  | stop => exact Program.closedUpTo_nil.mp h
  | exit _ _ hprog =>
      rw [hprog]
      exact Program.closedUpTo_nil.mp (h.redirect hs.linked hanchor)
  | @copy i rest copies s s₁ s' op o _ hcopy hs₁ hprog _ ih =>
      have hcode : ∀ k, k ∈ s₁.code ↔
          k = (s.program.newInstr op o).1 ∨ k ∈ s.code := by
        intro k
        rw [Editing.code, hs₁.body, hprog, mem_code_copied hs.linked hanchor]
      rw [← hs₁.body]
      refine ih hs₁.sound ((hcode anchor).mpr (Or.inr hanchor))
        (ho.step hs₁ hcode) ?_
      have hnew :=
        h.withNew hs.linked hanchor op o ((copyOf_ok hcopy).target hanchor ho)
      rw [hs₁.body, hprog]
      exact hnew.redirect (hs.linked.withNew hanchor op o)
        ((Program.mem_code_withNew hs.linked hanchor op o).mpr (Or.inl rfl))

/-- The copy loop can start. -/
theorem SlotsAdded.originals {ls : List Local} (h : SlotsAdded ls s s')
    (hs : s.Sound) (hc : c ≠ s.editor.body) (hcallee : s.program.Closed c) :
    Originals c (s.program.code c) [] s' where
  elsewhere := by
    rw [h.body]
    exact hc
  owned := by
    intro i hi
    rw [Program.owner, h.instr]
    exact hs.linked.mem_code.mp hi
  targets := by
    intro i hi hbr
    rw [h.instr] at hbr
    obtain ⟨t, ht, htarget⟩ := hcallee i hi hbr
    exact ⟨t, by rw [Program.target?, h.instr]; exact htarget, Or.inl ht⟩
  copied := fun t j hlook => by cases hlook

theorem TakesIn.closed (htake : TakesIn c anchor s s') (hs : s.Sound)
    (hanchor : anchor ∈ s.code) (hc : c ≠ s.editor.body)
    (h : s.program.Closed s.editor.body) (hcallee : s.program.Closed c) :
    s'.program.Closed s.editor.body := by
  cases htake with
  | nothing _ heq =>
      rw [heq]
      exact h
  | @copies s₁ hslots hrun =>
      rw [← hslots.body]
      refine hrun.closed hslots.sound (by rwa [hslots.code])
        (hslots.originals hs hc hcallee) ?_
      intro i hi hbr
      have hi' : i ∈ s.code := by rwa [← hslots.code]
      rw [hslots.instr] at hbr
      obtain ⟨t, ht, htarget⟩ := h i hi' hbr
      exact ⟨t, Or.inl (by rw [← Editing.code, hslots.code]; exact ht),
        by rw [Program.target?, hslots.instr]; exact htarget⟩

end Inline

end Bytecode
