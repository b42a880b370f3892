import Bytecode.Proofs.Execution

/-!
# What the clean-up passes do to the meaning of a body

Four of the local passes only clean up.  Each of their effects is looked at as a
relation between places before and after the change: a deleted instruction
stands for the one behind it, an exchanged one for its replacement, and where a
branch has been sent to the end of a chain the places stay what they are.  The
main statement is `Editing.Effect.sameMeaning`.
-/

namespace Bytecode

variable {S : Type} {M : Machine S} {p q : Program} {b : BodyId}
  {i j k t : InstrId} {st u w : S} {x : Exit} {a c : Option InstrId}

/-! ### Deleting an instruction -/

/-- The place that takes over when `i` goes. -/
def skip (p : Program) (i : InstrId) (a : Option InstrId) : Option InstrId :=
  if a = some i then p.next i else a

/-- An instruction that is skipped is passed. -/
theorem skip_self : skip p i (some i) = p.next i := if_pos rfl

/-- Everything else stays. -/
theorem skip_of_ne (h : a ≠ some i) : skip p i a = a := if_neg h

section Without

variable (hp : p.WellLinked) (hi : i ∈ p.code b)

include hp hi

/-- What is skipped is not met. -/
theorem skip_ne : skip p i a ≠ some i := by
  rw [skip]
  split
  · exact hp.next_ne hi
  · assumption

/-- A step without the instruction goes where it did, or past it. -/
theorem step_without (hclosed : p.Closed b)
    (hd : (p.next i).isSome ∨ p.branchesTo b (some i) = []) (hk : k ∈ p.code b)
    (hki : k ≠ i) : M.step (p.without b i) k st =
    (M.step p k st).map fun (a, u) => (skip p i a, u) := by
  apply step_map (Program.op_without hp hi k)
  · exact fun hbr => (Program.changedIn_without hp hi).operand k (hp.has hk) hbr
  · exact Program.next_without hp hi hk hki
  · intro hbr
    obtain ⟨t, -, htarget⟩ := hclosed k hk hbr
    rw [Program.target?_without hp hi hk hki hbr]
    refine ⟨t, ?_⟩
    by_cases hti : t = i
    · subst hti
      rcases hd with hn | hnone
      · obtain ⟨n, hn⟩ := Option.isSome_iff_exists.mp hn
        exact ⟨n, htarget, by rw [if_pos htarget, hn], by rw [skip_self, hn]⟩
      · have hmem : k ∈ p.branchesTo b (some t) :=
          Program.mem_branchesTo.mpr ⟨hk, hbr, htarget⟩
        rw [hnone] at hmem
        cases hmem
    · have hne : some t ≠ some i := fun heq => hti (Option.some.inj heq)
      exact ⟨t, htarget, by rw [htarget, if_neg hne], skip_of_ne hne⟩

/-- Nothing leads to an instruction that no branch goes to and nothing falls
through to. -/
theorem leads_ne_of_unreached (hnone : p.branchesTo b (some i) = [])
    (hprev : ∀ k, p.prev i = some k → (p.instr k).fallsThrough = false)
    (hk : k ∈ p.code b) (h : Leads p k a) : a ≠ some i := by
  rintro rfl
  generalize ha : some i = a at h
  cases h with
  | falls hfalls =>
      have hprev' : p.prev i = some k := by
        rw [hp.prev hi]
        rw [hp.next hk] at ha
        exact (elemBefore?_eq_some_iff (hp.nodup_code b) hi).mpr ha.symm
      rw [hprev k hprev'] at hfalls
      cases hfalls
  | jumps hbr htarget =>
      cases ha
      have hmem : k ∈ p.branchesTo b (some i) :=
        Program.mem_branchesTo.mpr ⟨hk, hbr, htarget⟩
      rw [hnone] at hmem
      cases hmem

end Without

/-- The instruction hands the state on to the one behind it. -/
def Silent (p : Program) (i : InstrId) : Prop :=
  ∀ {S : Type} (M : Machine S) (st : S), M.step p i st = some (p.next i, st)

/-- If control ever comes to the instruction, it does nothing. -/
structure Idle (p : Program) (b : BodyId) (i : InstrId) : Prop where
  entry : p.first? b = some i → Silent p i
  step : ∀ {S : Type} {M : Machine S} {k : InstrId} {st u : S}, k ∈ p.code b →
    M.step p k st = some (some i, u) → Silent p i

/-- A nop is idle. -/
theorem idle_of_nop (h : (p.instr i).kind = .nop) : Idle p b i := by
  have hsilent : Silent p i := by
    intro S M st
    rw [Machine.step]
    simp only [h]
  exact ⟨fun _ => hsilent, fun _ _ => hsilent⟩

/-- What is not reached is idle. -/
theorem idle_of_unreached (hp : p.WellLinked) (hi : i ∈ p.code b)
    (hfirst : p.first? b ≠ some i) (hnone : p.branchesTo b (some i) = [])
    (hprev : ∀ k, p.prev i = some k → (p.instr k).fallsThrough = false) :
    Idle p b i where
  entry := fun hentry => absurd hentry hfirst
  step := fun hk hstep =>
    absurd rfl
      (leads_ne_of_unreached hp hi hnone hprev hk (leads_of_step hstep))

/-- A place of `p` at which `i` is passed over, and the place that it
becomes. -/
structure Passes (p : Program) (b : BodyId) (i : InstrId)
    (a c : Option InstrId) : Prop where
  inside : Inside p b a
  silent : a = some i → Silent p i
  eq : c = skip p i a

/-- Skipping a silent instruction does not change how a run ends. -/
theorem ends_of_skip (hsilent : a = some i → Silent p i)
    (h : Ends M p (skip p i a) st x u) : Ends M p a st x u := by
  by_cases ha : a = some i
  · rw [ha, skip_self] at h
    rw [ha]
    exact .step (hsilent ha M st) h
  · rwa [skip_of_ne ha] at h

section Without

variable (hp : p.WellLinked) (hi : i ∈ p.code b) (hclosed : p.Closed b)
  (hd : (p.next i).isSome ∨ p.branchesTo b (some i) = []) (hidle : Idle p b i)

include hp hclosed hidle

/-- What comes behind a step is passed over in its turn. -/
theorem Passes.step (hk : k ∈ p.code b) (hstep : M.step p k st = some (a, u)) :
    Passes p b i a (skip p i a) where
  inside := inside_step hp hclosed hk hstep
  silent := by
    rintro rfl
    exact hidle.step hk hstep
  eq := rfl

include hi hd

/-- The old code is simulated without the instruction. -/
theorem simulates_without : Simulates M p (p.without b i) (Passes p b i) where
  past := by
    intro c st h
    rw [h.eq, skip_of_ne (by simp)]
    exact .past
  exit := by
    intro k c x st h hx
    have hki : some k ≠ some i := by
      intro hki
      have hstep := h.silent hki M st
      rw [← Option.some.inj hki, step_of_exit hx] at hstep
      cases hstep
    rw [h.eq, skip_of_ne hki]
    apply Ends.exit
    rwa [Instr.kind, Program.op_without hp hi]
  step := by
    intro k c st a u h hstep
    by_cases hki : k = i
    · subst hki
      rw [h.silent rfl M st] at hstep
      cases hstep
      refine ⟨c, ⟨inside_next hp hi, fun hnext => ?_, ?_⟩, id⟩
      · rw [← skip_self] at hnext
        exact absurd hnext (skip_ne hp hi)
      · rw [h.eq, ← skip_self (p := p), skip_of_ne (skip_ne hp hi)]
    · have hk := inside_some.mp h.inside
      refine ⟨skip p i a, .step hp hclosed hidle hk hstep, fun hends => ?_⟩
      rw [h.eq, skip_of_ne (by simpa using hki)]
      apply Ends.step _ hends
      rw [step_without hp hi hclosed hd hk hki, hstep]
      rfl

/-- The new code is simulated with it. -/
theorem without_simulates :
    Simulates M (p.without b i) p (flip (Passes p b i)) where
  past := by
    intro a st h
    apply ends_of_skip h.silent
    rw [← h.eq]
    exact .past
  exit := by
    intro k a x st h hx
    apply ends_of_skip h.silent
    rw [← h.eq]
    apply Ends.exit
    rwa [Instr.kind, Program.op_without hp hi] at hx
  step := by
    intro k a st c u h hstep
    have hki : k ≠ i := by
      rintro rfl
      exact skip_ne hp hi h.eq.symm
    have hk : k ∈ p.code b := by
      have hplace := h.eq
      rw [skip] at hplace
      split at hplace
      · exact inside_next hp hi k hplace.symm
      · exact h.inside k hplace.symm
    rw [step_without hp hi hclosed hd hk hki] at hstep
    obtain ⟨⟨a', u'⟩, hstep', heq⟩ := Option.map_eq_some_iff.mp hstep
    cases heq
    refine ⟨a', .step hp hclosed hidle hk hstep', fun hends => ?_⟩
    apply ends_of_skip h.silent
    rw [← h.eq]
    exact .step hstep' hends

/-- **Deletion.**  An idle instruction can go. -/
theorem sameMeaning_without : SameMeaning b p (p.without b i) := by
  intro S M st x u
  have hentry : Passes p b i (p.first? b) ((p.without b i).first? b) :=
    ⟨inside_first? hp, hidle.entry, Program.first?_without hp hi⟩
  exact ⟨(without_simulates hp hi hclosed hd hidle).ends hentry,
    (simulates_without hp hi hclosed hd hidle).ends hentry⟩

end Without

/-! ### Places that stay what they are -/

/-- Each step of one program leads to a place from which the other program can
make up for it. -/
theorem sameMeaning_of_steps (hp : p.WellLinked) (hclosed : p.Closed b)
    (hfirst : q.first? b = p.first? b)
    (hop : ∀ k ∈ p.code b, (q.instr k).op = (p.instr k).op)
    (forth : ∀ {S : Type} {M : Machine S} {k : InstrId} {st u :
      S} {a : Option InstrId}, k ∈ p.code b → M.step p k st = some (a, u) →
      ∀ {x w}, Ends M q a u x w → Ends M q (some k) st x w) (back : ∀ {S :
        Type} {M : Machine S} {k : InstrId} {st u : S} {a : Option InstrId},
        k ∈ p.code b → M.step q k st = some (a, u) → Inside p b a ∧ ∀ {x w},
        Ends M p a u x w → Ends M p (some k) st x w) : SameMeaning b p q := by
  have hkind : ∀ k ∈ p.code b, (q.instr k).kind = (p.instr k).kind := by
    intro k hk
    rw [Instr.kind, hop k hk, Instr.kind]
  intro S M st x u
  have hforth : Simulates M p q fun a c => Inside p b a ∧ c = a := by
    refine ⟨?_, ?_, ?_⟩
    · rintro c st ⟨-, rfl⟩
      exact .past
    · rintro k c x st ⟨hk, rfl⟩ hx
      exact .exit (by rwa [hkind k (inside_some.mp hk)])
    · rintro k c st a u ⟨hk, rfl⟩ hstep
      have hmem := inside_some.mp hk
      exact ⟨a, ⟨inside_step hp hclosed hmem hstep, rfl⟩, forth hmem hstep⟩
  have hback : Simulates M q p fun a c => Inside p b a ∧ c = a := by
    refine ⟨?_, ?_, ?_⟩
    · rintro c st ⟨-, rfl⟩
      exact .past
    · rintro k c x st ⟨hk, rfl⟩ hx
      exact .exit (by rwa [← hkind k (inside_some.mp hk)])
    · rintro k c st a u ⟨hk, rfl⟩ hstep
      obtain ⟨hin, hends⟩ := back (inside_some.mp hk) hstep
      exact ⟨a, ⟨hin, rfl⟩, hends⟩
  rw [hfirst]
  exact ⟨hback.ends ⟨inside_first? hp, rfl⟩,
    hforth.ends ⟨inside_first? hp, rfl⟩⟩

/-- The body is looked at, and nothing else. -/
theorem sameMeaning_of_agree (hp : p.WellLinked) (hq : q.WellLinked)
    (hclosed : p.Closed b) (hpq : Program.AgreeOn b p q) :
    SameMeaning b p q := by
  have hcode : q.code b = p.code b := by rw [hq.code, hpq.body, hp.code]
  have hinstr : ∀ k ∈ p.code b, q.instr k = p.instr k :=
    fun k hk => hpq.instr k (by rwa [← hp.code])
  have hstep : ∀ {S : Type} {M : Machine S} {k : InstrId} {st : S},
      k ∈ p.code b → M.step q k st = M.step p k st := by
    intro S M k st hk
    simp only [Machine.step, Machine.work, Program.target?, hinstr k hk,
      hq.next (by rwa [hcode]), hp.next hk, hcode]
  refine sameMeaning_of_steps hp hclosed (by rw [hq.first?, hp.first?, hcode])
    (fun k hk => by rw [hinstr k hk]) (fun hk h => ?_) (fun hk h => ?_)
  · exact .step (by rwa [hstep hk])
  · rw [hstep hk] at h
    exact ⟨inside_step hp hclosed hk h, .step h⟩

/-! ### Sending a branch to the end of a chain -/

/-- A chain of branches is run through to its end. -/
theorem ends_chain {n : Nat} {seen : List InstrId}
    (hsame : ∀ k, k ∉ seen → q.instr k = p.instr k)
    (hend : Peephole.chainEnd? p n seen i = some t) :
    Ends M q (some i) st x u ↔ Ends M q (some t) st x u := by
  induction n generalizing seen i with
  | zero => cases hend
  | succ n ih =>
      rw [Peephole.chainEnd?] at hend
      split at hend
      · cases hend
        exact Iff.rfl
      · next hkind =>
          split at hend
          · cases hend
          · next hseen =>
              obtain ⟨k, htarget, hrest⟩ := Option.bind_eq_some_iff.mp hend
              have hstep : M.step q i st = some (some k, st) := by
                have hkind' : (q.instr i).kind = .branch := by
                  rw [hsame i hseen]
                  exact not_not.mp hkind
                have htarget' : q.target? i = some k := by
                  rw [Program.target?, hsame i hseen]
                  exact htarget
                rw [Machine.step]
                simp [hkind', htarget']
              have hsame' : ∀ k, k ∉ i :: seen → q.instr k = p.instr k :=
                fun k hk =>
                  hsame k (fun hmem => hk (List.mem_cons_of_mem _ hmem))
              rw [ends_step hstep]
              exact ih hsame' hrest

/-- A branch that has another target in another program goes there, or on as
before. -/
theorem step_retarget {t' : InstrId} (hop : (q.instr i).op = (p.instr i).op)
    (hbr : (p.instr i).isBranch = true) (hnext : q.next i = p.next i)
    (ht : p.target? i = some t) (ht' : q.target? i = some t')
    (h : M.step p i st = some (a, u)) : M.step q i st = some (a, u) ∨
    a = some t ∧ M.step q i st = some (some t', u) := by
  have hkind : (q.instr i).kind = (p.instr i).kind := by
    rw [Instr.kind, hop, Instr.kind]
  have hbranch : (p.instr i).isBranch = (p.instr i).kind.isBranch := rfl
  rw [hbranch] at hbr
  simp only [Machine.step, hkind, hop, hnext, ht, ht'] at h ⊢
  cases hk : (p.instr i).kind with
  | branch =>
      simp only [hk, Option.map_some, Option.some.injEq, Prod.mk.injEq] at h ⊢
      exact Or.inr ⟨h.1.symm, trivial, h.2⟩
  | conditionalBranch =>
      simp only [hk] at h ⊢
      obtain ⟨v, hv, h⟩ := Option.bind_eq_some_iff.mp h
      rw [hv, Option.bind_some]
      split at h
      · next htest =>
          simp only [Option.map_some, Option.some.injEq, Prod.mk.injEq] at h
          rw [if_pos htest]
          exact Or.inr ⟨h.1.symm, by rw [h.2]; rfl⟩
      · next htest =>
          rw [if_neg htest]
          exact Or.inl h
  | other | nop | call | ret | throws | loadLocal | loadLocalAddress
      | storeLocal =>
      rw [hk] at hbr
      cases hbr

/-- **Retargeting.**  A branch to a branch can go on to the end of the chain. -/
theorem sameMeaning_setTarget {mid : InstrId} {n : Nat} (hp : p.WellLinked)
    (hclosed : p.Closed b) (hi : i ∈ p.code b)
    (hbr : (p.instr i).isBranch = true) (hmid : p.target? i = some mid)
    (hend : Peephole.chainEnd? p n [i] mid = some t) :
    SameMeaning b p (p.setTarget i (some t)) := by
  have hhas := hp.has hi
  have hinstr := Program.instr_setTarget (t := some t) hhas
  have hsame : ∀ k, k ∉ [i] → (p.setTarget i (some t)).instr k = p.instr k := by
    intro k hk
    rw [hinstr, if_neg (by simpa using hk)]
  have hop : ∀ k, ((p.setTarget i (some t)).instr k).op = (p.instr k).op := by
    intro k
    rw [hinstr]
    split
    · next hk => rw [hk]
    · rfl
  have htarget : (p.setTarget i (some t)).target? i = some t := by
    rw [Program.target?, hinstr, if_pos rfl]
    exact Operand.target?_ofTarget (some t)
  have hnext : ∀ k, (p.setTarget i (some t)).next k = p.next k :=
    Program.next_setTargets (l := [i]) (by simpa using hhas)
  have hfirst : (p.setTarget i (some t)).first? b = p.first? b := by
    have hq : (p.setTarget i (some t)).WellLinked :=
      hp.setTargets (l := [i]) (by simpa using hhas) _
    have hcode : (p.setTarget i (some t)).code b = p.code b :=
      Program.code_setTargets [i]
    rw [hq.first?, hp.first?, hcode]
  have hstep : ∀ {S : Type} {M : Machine S} {k : InstrId} {st : S}, k ≠ i →
      M.step (p.setTarget i (some t)) k st = M.step p k st := by
    intro S M k st hk
    simp only [Machine.step, Machine.work, Program.target?,
      hsame k (by simpa using hk), hnext]
  refine sameMeaning_of_steps hp hclosed hfirst (fun k _ => hop k) ?_ ?_
  · intro S M k st u a hk h x w hends
    by_cases hki : k = i
    · subst hki
      rcases step_retarget (hop k) hbr (hnext k) hmid htarget h with hq
        | ⟨rfl, hq⟩
      · exact .step hq hends
      · exact .step hq ((ends_chain hsame hend).mp hends)
    · exact .step (by rwa [hstep hki]) hends
  · intro S M k st u a hk h
    by_cases hki : k = i
    · subst hki
      have hbr' : ((p.setTarget k (some t)).instr k).isBranch = true := by
        rw [Instr.isBranch, hop]
        exact hbr
      obtain ⟨s₀, hs₀⟩ := hclosed k hk hbr
      have hmem : mid ∈ p.code b := by
        rw [hmid] at hs₀
        exact Option.some.inj hs₀.2 ▸ hs₀.1
      rcases step_retarget (hop k).symm hbr'
        (hnext k).symm htarget hmid h with hq | ⟨rfl, hq⟩
      · exact ⟨inside_step hp hclosed hk hq, .step hq⟩
      · refine ⟨inside_some.mpr (hclosed.chainEnd_mem hmem hend),
          fun hends => ?_⟩
        exact .step hq ((ends_chain (fun _ _ => rfl) hend).mpr hends)
    · rw [hstep hki] at h
      exact ⟨inside_step hp hclosed hk h, .step h⟩

/-! ### Putting an exit in the place of a branch to it -/

/-- The place that takes over when `j` is put in the place of `i`. -/
def swapped (i j : InstrId) (a : Option InstrId) : Option InstrId :=
  if a = some i then some j else a

/-- The old instruction is swapped for the new one. -/
theorem swapped_self : swapped i j (some i) = some j := if_pos rfl

/-- Everything else stays. -/
theorem swapped_of_ne (h : a ≠ some i) : swapped i j a = a := if_neg h

section Exchange

variable (hp : p.WellLinked) (hi : i ∈ p.code b) (hj : p.Has j)
  (hfree : p.owner j = none) (hclosed : p.Closed b)

include hp hi hj hfree hclosed

/-- A step after an exchange goes where it did, the new instruction standing for
the old. -/
theorem step_exchange (hk : k ∈ p.code b) (hki : k ≠ i) :
    M.step (p.exchange b i j) k st = (M.step p k st).map fun (a, u) =>
    (swapped i j a, u) := by
  have hk' : k ∈ (p.exchange b i j).code b :=
    (Program.mem_code_exchange hp hi hfree).mpr (Or.inr ⟨hk, hki⟩)
  apply step_map (Program.op_exchange hp hi hj hfree k)
  · exact fun hbr =>
      (Program.changedIn_exchange hp hi hj hfree).operand k (hp.has hk) hbr
  · exact Program.next_exchange hp hi hj hfree hk hki
  · intro hbr
    obtain ⟨t, -, htarget⟩ := hclosed k hk hbr
    rw [Program.target?_exchange hp hi hj hfree hk' hbr, htarget]
    by_cases hti : some t = some i
    · exact ⟨t, j, rfl, if_pos hti, by rw [hti, swapped_self]⟩
    · exact ⟨t, t, rfl, if_neg hti, swapped_of_ne hti⟩

variable (hkind : (p.instr i).kind = .branch) (htarget : p.target? i = some t)
  (hexit : (p.instr t).kind.exit? = some x)
  (hcopy : (p.instr j).kind = (p.instr t).kind)

include hkind htarget hexit hcopy

/-- **Exchange.**  An exit can be put in the place of a branch to such an
exit. -/
theorem sameMeaning_exchange : SameMeaning b p (p.exchange b i j) := by
  have hop := Program.op_exchange hp hi hj hfree
  have hkinds : ∀ k, ((p.exchange b i j).instr k).kind = (p.instr k).kind := by
    intro k
    rw [Instr.kind, hop, Instr.kind]
  have hnoexit : (p.instr i).kind.exit? = none := by
    rw [hkind]
    rfl
  have hti : some t ≠ some i := by
    intro hti
    rw [← Option.some.inj hti, hexit] at hnoexit
    cases hnoexit
  have hexit' : ((p.exchange b i j).instr j).kind.exit? = some x := by
    rw [hkinds, hcopy, hexit]
  have hjump : ∀ {S : Type} (M : Machine S) (st : S),
      M.step p i st = some (some t, st) := by
    intro S M st
    rw [Machine.step]
    simp [hkind, htarget]
  intro S M st y u
  have forth : Simulates M p (p.exchange b i j) fun a c => Inside p b a ∧
      c = swapped i j a := by
    refine ⟨?_, ?_, ?_⟩
    · rintro c st ⟨-, rfl⟩
      exact .past
    · rintro k c y st ⟨-, rfl⟩ hy
      have hki : some k ≠ some i := by
        intro hki
        rw [Option.some.inj hki, hnoexit] at hy
        cases hy
      rw [swapped_of_ne hki]
      exact .exit (by rwa [hkinds])
    · rintro k c st a u ⟨hk, rfl⟩ hstep
      have hk := inside_some.mp hk
      refine ⟨swapped i j a, ⟨inside_step hp hclosed hk hstep, rfl⟩,
        fun hends => ?_⟩
      by_cases hki : k = i
      · -- The branch and the exit it goes to have become one place.
        subst hki
        rw [hjump] at hstep
        cases hstep
        rw [swapped_of_ne hti, ends_exit (by rwa [hkinds])] at hends
        rw [swapped_self, ends_exit hexit']
        exact hends
      · rw [swapped_of_ne (by simpa using hki)]
        apply Ends.step _ hends
        rw [step_exchange hp hi hj hfree hclosed hk hki, hstep]
        rfl
  have back : Simulates M (p.exchange b i j) p fun c a => Inside p b a ∧
      c = swapped i j a := by
    refine ⟨?_, ?_, ?_⟩
    · rintro a st ⟨-, ha⟩
      rw [swapped] at ha
      split at ha
      · cases ha
      · rw [← ha]
        exact .past
    · rintro k a y st ⟨-, ha⟩ hy
      rw [swapped] at ha
      split at ha
      · next hai =>
          cases ha
          rw [hexit'] at hy
          cases hy
          rw [hai]
          exact .step (hjump M st) (.exit hexit)
      · rw [← ha]
        exact .exit (by rwa [← hkinds])
    · rintro k a st c u ⟨hin, ha⟩ hstep
      rw [swapped] at ha
      split at ha
      · cases ha
        rw [step_of_exit hexit'] at hstep
        cases hstep
      · next hai =>
          subst ha
          have hk := inside_some.mp hin
          rw [step_exchange hp hi hj hfree hclosed hk (by simpa using hai)]
            at hstep
          obtain ⟨⟨a', u'⟩, hstep', heq⟩ := Option.map_eq_some_iff.mp hstep
          cases heq
          exact ⟨a', ⟨inside_step hp hclosed hk hstep', rfl⟩, .step hstep'⟩
  have hentry : Inside p b (p.first? b) ∧
      (p.exchange b i j).first? b = swapped i j (p.first? b) :=
    ⟨inside_first? hp, Program.first?_exchange hp hi hj hfree⟩
  exact ⟨back.ends hentry, forth.ends hentry⟩

end Exchange

/-- A branch to an exit means that exit. -/
theorem sameMeaning_renewed (hp : p.WellLinked) (hi : i ∈ p.code b)
    (hclosed : p.Closed b) (hkind : (p.instr i).kind = .branch)
    (htarget : p.target? i = some t) (hexit : (p.instr t).kind.exit? = some x) :
    SameMeaning b p (p.renewed b i (p.instr t).op (p.instr t).operand) := by
  have hnew := hp.newInstr (p.instr t).op (p.instr t).operand
  have hagree :=
    Program.agreeOn_newInstr hp (p.instr t).op (p.instr t).operand b
  have hsame : ∀ k ∈ p.code b,
      (p.newInstr (p.instr t).op (p.instr t).operand).2.instr k = p.instr k :=
    fun k hk => hagree.instr k (by rwa [← hp.code])
  have ht : t ∈ p.code b := by
    have hbr : (p.instr i).isBranch = true := by
      rw [Instr.isBranch, Opcode.isBranch,
        show (p.instr i).op.kind = .branch from hkind]
      rfl
    obtain ⟨t', ht', htarget'⟩ := hclosed i hi hbr
    rw [htarget] at htarget'
    cases htarget'
    exact ht'
  apply (sameMeaning_of_agree hp hnew hclosed hagree).trans
  apply sameMeaning_exchange (t := t) (x := x) hnew (by rwa [hp.code_newInstr])
    (Program.has_newInstr _ _) (Program.owner_fresh _ _)
    (hclosed.agree hp hnew hagree)
  · rw [hsame i hi]
    exact hkind
  · rw [Program.target?, hsame i hi]
    exact htarget
  · rw [hsame t ht]
    exact hexit
  · rw [hsame t ht, Program.instr_newInstr, if_pos rfl]
    rfl

/-! ### The passes -/

/-- The passes that only clean up. -/
def Pass.cleanUps : List Pass :=
  [.branchToReturn, .removeNop, .removeDeadCode, .retargetDoubleBranch]

/-- **A clean-up keeps the meaning.** -/
theorem Editing.Effect.sameMeaning {s : Editing} {pass : Pass}
    (he : s.Effect i pass q) (hpass : pass ∈ Pass.cleanUps) (hs : s.Sound)
    (hi : i ∈ s.code) (hclosed : s.program.Closed s.editor.body) :
    SameMeaning s.editor.body s.program q := by
  have hp := hs.linked
  cases he with
  | exit hkind htarget hexit =>
      rcases hexit with hexit | hexit
      · exact sameMeaning_renewed (x := .returned) hp hi hclosed hkind htarget
          (by rw [hexit]; rfl)
      · exact sameMeaning_renewed (x := .thrown) hp hi hclosed hkind htarget
          (by rw [hexit]; rfl)
  | jump | pops => simp [Pass.cleanUps] at hpass
  | nop hkind hd =>
      exact sameMeaning_without hp hi hclosed hd (idle_of_nop hkind)
  | dead hfirst hun =>
      exact sameMeaning_without hp hi hclosed (Or.inr hun.1)
        (idle_of_unreached hp hi hfirst hun.1 hun.2)
  | chain hbr hmid _ _ hend =>
      exact sameMeaning_setTarget hp hclosed hi hbr hmid hend

end Bytecode
