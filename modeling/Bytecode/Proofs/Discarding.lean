import Bytecode.Proofs.Closed

/-!
# What a branch to the very next instruction leaves behind

Such a branch goes, and the values it would have taken are discarded by pops in
its place.  `Program.PopsTo` says which way control takes from a place: so many
pops, then a given instruction.  Control that came to the branch from in front
of it, or that entered the body there, executes as many pops as the branch takes
values.  Branches that went to it are sent to the last of the pops, and so skip
all others; only for a branch that takes two values there are others.  Main
statement: `discards`.
-/

namespace Bytecode

namespace Program

variable {p q : Program} {b : BodyId} {i n mark d a c : InstrId} {k l : Nat}
  {pre ps post : List InstrId}

/-- An instruction stands once in the code. -/
theorem WellLinked.notMem_of_cut (h : p.WellLinked)
    (hcode : p.code b = pre ++ i :: post) : i ∉ pre := by
  have hnd := h.nodup_code b
  rw [hcode] at hnd
  exact fun hx => List.disjoint_of_nodup_append hnd hx List.mem_cons_self

/-- From `a` on, `k` pops are executed and then `n` is reached for the first
time. -/
inductive PopsTo (p : Program) (n : InstrId) : Nat → InstrId → Prop
  | here : PopsTo p n 0 n
  | pop {k : Nat} {a c : InstrId} : (p.instr a).op = .pop → a ≠ n →
    p.next a = some c → PopsTo p n k c → PopsTo p n (k + 1) a

/-- There is one number of pops on the way. -/
theorem PopsTo.unique (h : p.PopsTo n k a) (h' : p.PopsTo n l a) : k = l := by
  induction h generalizing l with
  | here =>
      cases h' with
      | here => rfl
      | pop _ hne => exact absurd rfl hne
  | pop _ hne hnext _ ih =>
      cases h' with
      | here => exact absurd rfl hne
      | pop _ _ hnext' h' =>
          obtain rfl := Option.some.inj (hnext.symm.trans hnext')
          rw [ih h']

/-- Pops that stand in a row are executed one after the other. -/
theorem popsTo_of_code (h : p.WellLinked)
    (hcode : p.code b = pre ++ ps ++ n :: post)
    (hps : ∀ x ∈ ps, (p.instr x).op = .pop) :
    ∃ a, (ps ++ n :: post).head? = some a ∧ p.PopsTo n ps.length a := by
  induction ps generalizing pre with
  | nil => exact ⟨n, rfl, .here⟩
  | cons x ps ih =>
      have hcut : p.code b = pre ++ x :: (ps ++ n :: post) := by
        rw [hcode]; simp
      have hne : x ≠ n := by
        rintro rfl
        exact h.notMem_of_cut hcode (by simp)
      have hnext : p.next x = (ps ++ n :: post).head? := by
        rw [h.next (b := b) (by rw [hcut]; simp), hcut,
          elemAfter?_cut (h.notMem_of_cut hcut)]
      have hrest : p.code b = pre ++ [x] ++ ps ++ n :: post := by
        rw [hcut]; simp
      obtain ⟨a, ha, hpops⟩ :=
        ih hrest fun y hy => hps y (List.mem_cons_of_mem _ hy)
      exact ⟨x, rfl, .pop (hps x List.mem_cons_self) hne (hnext.trans ha) hpops⟩

/-- New pops stand right in front of the mark, and everything else is as it
was. -/
theorem code_withPops (h : p.WellLinked)
    (hcode : p.code b = pre ++ mark :: post) (k : Nat) :
    (withPops b mark k p).WellLinked ∧
    (∀ x ∈ p.code b, (withPops b mark k p).instr x = p.instr x) ∧ ∃ ps,
    ps.length = k ∧ (withPops b mark k p).code b = pre ++ ps ++ mark :: post ∧
    ∀ x ∈ ps, ((withPops b mark k p).instr x).op = .pop := by
  induction k generalizing p pre with
  | zero => exact ⟨h, fun _ _ => rfl, [], rfl, by rwa [List.append_nil], nofun⟩
  | succ k ih =>
      have hmark : mark ∈ p.code b := by rw [hcode]; simp
      have hnew : (p.withNew b mark .pop .absent).code b =
          pre ++ [(p.newInstr .pop .absent).1] ++ mark :: post := by
        rw [code_withNew h hmark, hcode]
        change insertFront _ _ _ = _
        rw [insertFront_cut (h.notMem_of_cut hcode)]
        simp
      obtain ⟨hlinked, hkept, ps, hlen, hps, hpops⟩ :=
        ih (h.withNew hmark _ _) hnew
      refine ⟨hlinked, fun x hx => ?_, (p.newInstr .pop .absent).1 :: ps,
        by rw [List.length_cons, hlen], hps.trans (by simp), fun x hx => ?_⟩
      · refine (hkept x
          (by rw [mem_code_withNew h hmark]; exact .inr hx)).trans ?_
        rw [instr_withNew, if_neg]
        rintro rfl
        exact not_has_newInstr _ _ (h.has hx)
      · rcases List.mem_cons.mp hx with rfl | hx
        · have hkept' := hkept _ ((mem_code_withNew h hmark _ _).mpr (.inl rfl))
          rw [instr_withNew, if_pos rfl] at hkept'
          exact congrArg Instr.op hkept'
        · exact hpops x hx

/-- Where the branches of the body go once `i` has been renewed. -/
theorem target?_renewed (h : p.WellLinked) (hi : i ∈ p.code b) (op : Opcode)
    (o : Operand) (hd : d ∈ p.code b) (hdi : d ≠ i)
    (hbr : (p.instr d).isBranch = true) : (p.renewed b i op o).target? d =
    if p.target? d = some i then some (p.newInstr op o).1 else p.target? d := by
  have hkept : (p.newInstr op o).2.instr d = p.instr d :=
    instr_newInstr_of_has op o (h.has hd)
  have hi' : i ∈ (p.newInstr op o).2.code b := by rwa [h.code_newInstr]
  have hd' := (mem_code_renewed h hi op o).mpr (.inr ⟨hd, hdi⟩)
  rw [renewed, target?_exchange (h.newInstr op o) hi' (has_newInstr op o)
    (owner_fresh op o) hd' (by rwa [hkept]), target?, hkept]
  rfl

/-- In `q`, `k` pops stand where `i` stood in front of `n`.  Branches that went
to `i` execute one of them if there are any. -/
structure Discards (p q : Program) (b : BodyId) (i n : InstrId) (k : Nat) :
    Prop where
  linked : q.WellLinked
  code : ∀ pre post, p.code b = pre ++ i :: n :: post → ∃ ps, ps.length = k ∧
    q.code b = pre ++ ps ++ n :: post ∧ ∀ x ∈ ps, (q.instr x).op = .pop
  jumps : ∀ d ∈ p.code b, (p.instr d).isBranch = true → p.target? d = some i →
    ∃ a, q.target? d = some a ∧ q.PopsTo n (min k 1) a
  others : ∀ d ∈ p.code b, d ≠ i → (p.instr d).isBranch = true →
    p.target? d ≠ some i → q.target? d = p.target? d

section Discards

variable (h : p.WellLinked) (hi : i ∈ p.code b) (hn : p.next i = some n)
  (hto : p.target? i = some n)

include h hi hn hto

/-- A branch to the one that goes is another one: that one goes to what stands
behind it. -/
theorem ne_of_target? (hd : p.target? d = some i) : d ≠ i := by
  rintro rfl
  obtain rfl := Option.some.inj (hto.symm.trans hd)
  rw [h.next hi] at hn
  exact elemAfter?_ne (h.nodup_code b) hn rfl

theorem discards_without : p.Discards (p.without b i) b i n 0 where
  linked := h.without hi
  code := by
    intro pre post hcode
    refine ⟨[], rfl, ?_, nofun⟩
    rw [code_without h hi, hcode, erase_cut (h.notMem_of_cut hcode),
      List.append_nil]
  jumps := by
    intro d hd hbr hdi
    refine ⟨n, ?_, .here⟩
    rw [target?_without h hi hd (ne_of_target? h hi hn hto hdi) hbr,
      if_pos hdi, hn]
  others := by
    intro d hd hdi hbr hother
    rw [target?_without h hi hd hdi hbr, if_neg hother]

theorem discards_withPops (k : Nat) :
    p.Discards (withPops b (p.newInstr .pop .absent).1 k
      (p.renewed b i .pop .absent)) b i n (k + 1) := by
  have hrenewed := h.renewed hi .pop .absent
  have hcode : ∀ {pre post}, p.code b = pre ++ i :: n :: post →
      (p.renewed b i .pop .absent).code b = pre ++
      (p.newInstr .pop .absent).1 :: n :: post := by
    intro pre post hcode
    rw [code_renewed h hi, hcode, replace_cut (h.notMem_of_cut hcode)]
  obtain ⟨pre₀, post₀, hcut⟩ :=
    (elemAfter?_eq_some_iff (h.nodup_code b)).mp ((h.next hi).symm.trans hn)
  obtain ⟨hlinked, hkept, -⟩ := code_withPops hrenewed (hcode hcut) k
  have hop : ∀ x ∈ [(p.newInstr .pop .absent).1],
      ((withPops b (p.newInstr .pop .absent).1 k
        (p.renewed b i .pop .absent)).instr x).op = .pop := by
    intro x hx
    rw [List.mem_singleton.mp hx,
      hkept _ ((mem_code_renewed h hi _ _).mpr (.inl rfl)),
      op_renewed_self h hi]
  have htarget : ∀ {d}, d ∈ p.code b → d ≠ i → (p.instr d).isBranch = true →
      (withPops b (p.newInstr .pop .absent).1 k
        (p.renewed b i .pop .absent)).target? d =
      if p.target? d = some i then some (p.newInstr .pop .absent).1
      else p.target? d := by
    intro d hd hdi hbr
    rw [target?, hkept d ((mem_code_renewed h hi _ _).mpr (.inr ⟨hd, hdi⟩)),
      ← target?, target?_renewed h hi _ _ hd hdi hbr]
  refine ⟨hlinked, fun pre post hpre => ?_, fun d hd hbr hdi => ?_,
    fun d hd hdi hbr hother => ?_⟩
  · obtain ⟨-, -, ps, hlen, hps, hops⟩ := code_withPops hrenewed (hcode hpre) k
    refine ⟨ps ++ [(p.newInstr .pop .absent).1], by simp [hlen],
      by rw [hps]; simp, fun x hx => ?_⟩
    exact (List.mem_append.mp hx).elim (hops x) (hop x)
  · -- the instruction in the place of `i` is the last pop
    obtain ⟨-, -, ps, -, hps, -⟩ := code_withPops hrenewed (hcode hcut) k
    have hlast : (withPops b (p.newInstr .pop .absent).1 k
        (p.renewed b i .pop .absent)).code b = (pre₀ ++ ps) ++
        [(p.newInstr .pop .absent).1] ++ n :: post₀ := by rw [hps]; simp
    obtain ⟨a, ha, hpops⟩ := popsTo_of_code hlinked hlast hop
    obtain rfl : (p.newInstr .pop .absent).1 = a := Option.some.inj ha
    exact ⟨_, (htarget hd (ne_of_target? h hi hn hto hdi) hbr).trans
      (if_pos hdi), by simpa using hpops⟩
  · rw [htarget hd hdi hbr, if_neg hother]

end Discards

namespace Discards

variable (hd : p.Discards q b i n k) (h : p.WellLinked) (hn : p.next i = some n)

include hd h hn

/-- Control that came to `i` by falling through. -/
theorem falls (hi : i ∈ p.code b) (hmem : d ∈ p.code b)
    (hfalls : p.next d = some i) : ∃ a, q.next d = some a ∧ q.PopsTo n k a := by
  rw [h.next hmem] at hfalls
  obtain ⟨pre, post, hcut⟩ :=
    (elemAfter?_eq_some_iff (h.nodup_code b)).mp hfalls
  obtain ⟨rest, rfl⟩ : ∃ rest, post = n :: rest := by
    have hcut' : p.code b = (pre ++ [d]) ++ i :: post := by rw [hcut]; simp
    rw [h.next hi, hcut', elemAfter?_cut (h.notMem_of_cut hcut')] at hn
    exact List.head?_eq_some_iff.mp hn
  obtain ⟨ps, rfl, hcode, hps⟩ := hd.code (pre ++ [d]) rest (by rw [hcut]; simp)
  obtain ⟨a, ha, hpops⟩ := popsTo_of_code hd.linked hcode hps
  have hcode' : q.code b = pre ++ d :: (ps ++ n :: rest) := by rw [hcode]; simp
  refine ⟨a, ?_, hpops⟩
  rw [hd.linked.next (b := b) (by rw [hcode']; simp), hcode',
    elemAfter?_cut (hd.linked.notMem_of_cut hcode'), ha]

/-- Control that entered the body at `i`. -/
theorem enters (hi : i ∈ p.code b) (hfirst : p.first? b = some i) :
    ∃ a, q.first? b = some a ∧ q.PopsTo n k a := by
  obtain ⟨pre, post, hcut⟩ :=
    (elemAfter?_eq_some_iff (h.nodup_code b)).mp ((h.next hi).symm.trans hn)
  obtain rfl : pre = [] := by
    rw [h.first?, hcut] at hfirst
    cases pre with
    | nil => rfl
    | cons x pre =>
        obtain rfl : x = i := Option.some.inj hfirst
        exact absurd List.mem_cons_self (h.notMem_of_cut hcut)
  obtain ⟨ps, rfl, hcode, hps⟩ := hd.code [] post hcut
  obtain ⟨a, ha, hpops⟩ := popsTo_of_code hd.linked hcode hps
  exact ⟨a, by rw [hd.linked.first?, hcode, List.nil_append, ha], hpops⟩

end Discards

end Program

namespace Editing

open Program

variable {s : Editing} {q : Program} {i n : InstrId}

theorem Effect.discards (he : s.Effect i .removeDegenerateBranch q)
    (h : s.Sound) (hi : i ∈ s.code) (hn : s.program.next i = some n)
    (hto : s.program.target? i = some n) :
    s.program.Discards q s.editor.body i n
    (s.program.instr i).op.operandCount := by
  cases he with
  | jump _ _ _ hk =>
      rw [hk]
      exact discards_without h.linked hi hn hto
  | pops _ _ _ hk =>
      rw [hk]
      exact discards_withPops h.linked hi hn hto _

/-- **A branch to the very next instruction is replaced by pops of its
operands.**  The pass always fires.  Control that fell through to the branch or
entered the body there executes as many pops as the branch takes values and then
is behind it; control that jumped there executes one of them if there are any;
all other branches go where they went. -/
theorem removeDegenerateBranch_discards (h : s.Sound)
    (ht : s.editor.target = some i) (hi : i ∈ s.code)
    (hbr : (s.program.instr i).isBranch = true) (hn : s.program.next i = some n)
    (hto : s.program.target? i = some n) :
    ∃ s', Peephole.removeDegenerateBranch s = (.ok (), s') ∧
      s'.editor.dirty = true ∧ s'.editor.body = s.editor.body ∧ (∀ d ∈ s.code,
        s.program.next d = some i → ∃ a, s'.program.next d = some a ∧
        s'.program.PopsTo n (s.program.instr i).op.operandCount a) ∧
      (s.program.first? s.editor.body = some i →
        ∃ a, s'.program.first? s.editor.body = some a ∧
        s'.program.PopsTo n (s.program.instr i).op.operandCount a) ∧
      (∀ d ∈ s.code, (s.program.instr d).isBranch = true →
        s.program.target? d = some i → ∃ a, s'.program.target? d = some a ∧
        s'.program.PopsTo n (min (s.program.instr i).op.operandCount 1) a) ∧
      (∀ d ∈ s.code, d ≠ i → (s.program.instr d).isBranch = true →
        s.program.target? d ≠ some i →
        s'.program.target? d = s.program.target? d) := by
  obtain ⟨s', heq, hs, heffect⟩ :=
    removeDegenerateBranch_fires h ht hi hbr hn hto
  have hdiscards := heffect.discards h hi hn hto
  exact ⟨s', heq, hs.dirty, hs.body,
    fun d hd hfalls => hdiscards.falls h.linked hn hi hd hfalls,
    hdiscards.enters h.linked hn hi, hdiscards.jumps, hdiscards.others⟩

/-- A body with a comparison whose outcome does not matter: control comes to it
from a jump, which skips a nop, with two values. -/
def compared : Program where
  instrs := #[⟨⟨0x22⟩, .int32 1, some ⟨0⟩⟩, ⟨⟨0x22⟩, .int32 2, some ⟨0⟩⟩,
    ⟨.br, .target ⟨4⟩, some ⟨0⟩⟩, ⟨.nop, .absent, some ⟨0⟩⟩,
    ⟨⟨0x56⟩, .target ⟨5⟩, some ⟨0⟩⟩, ⟨⟨0x70⟩, .absent, some ⟨0⟩⟩]
  bodies := #[{ code := [⟨0⟩, ⟨1⟩, ⟨2⟩, ⟨3⟩, ⟨4⟩, ⟨5⟩], maxStack := 2 }]
  methods := #[{ name := "compared", body := some ⟨0⟩ }]

/-- The comparison is on offer. -/
def atComparison : Editing :=
  ⟨compared, { method := ⟨0⟩, body := ⟨0⟩, target := some ⟨4⟩ }⟩

/-- From the nop control executes two pops, from the jump only one. -/
theorem removeDegenerateBranch_discards_compared : atComparison.Sound ∧
    ∃ s', Peephole.removeDegenerateBranch atComparison = (.ok (), s') ∧
    (∃ a, s'.program.next ⟨3⟩ = some a ∧ s'.program.PopsTo ⟨5⟩ 2 a) ∧
    (∃ a, s'.program.target? ⟨2⟩ = some a ∧ s'.program.PopsTo ⟨5⟩ 1 a) := by
  have h : atComparison.Sound :=
    (sound_fresh (p := compared) (by decide) (by decide) ⟨0⟩).move rfl rfl
  obtain ⟨s', heq, -, -, hfalls, -, hjumps, -⟩ :=
    removeDegenerateBranch_discards (i := ⟨4⟩) (n := ⟨5⟩) h rfl (by decide)
    (by decide) (by decide) (by decide)
  exact ⟨h, s', heq, hfalls ⟨3⟩ (by decide) (by decide),
    hjumps ⟨2⟩ (by decide) (by decide) (by decide)⟩

/-- The comparison takes two values, but the jump to it goes to the second of
the pops now. -/
theorem skips_first_pop :
    (compared.instr ⟨4⟩).op.operandCount = 2 ∧ compared.Closed ⟨0⟩ ∧
    compared.target? ⟨2⟩ = some ⟨4⟩ ∧ compared.target? ⟨4⟩ = compared.next ⟨4⟩ ∧
    ∃ s', Peephole.removeDegenerateBranch atComparison = (.ok (), s') ∧
    s'.program.code ⟨0⟩ = [⟨0⟩, ⟨1⟩, ⟨2⟩, ⟨3⟩, ⟨7⟩, ⟨6⟩, ⟨5⟩] ∧
    s'.program.target? ⟨2⟩ = some ⟨6⟩ ∧ ¬ s'.program.PopsTo ⟨5⟩ 2 ⟨6⟩ := by
  refine ⟨by decide, by decide, by decide, by decide,
    (Peephole.removeDegenerateBranch atComparison).2,
    rfl, by decide, by decide, fun h => ?_⟩
  -- one pop and control is behind it already
  have hone : (Peephole.removeDegenerateBranch atComparison).2.program.PopsTo
      ⟨5⟩ 1 ⟨6⟩ :=
    .pop (by decide) (by decide) (c := ⟨5⟩) (by decide) .here
  exact absurd (hone.unique h) (by decide)

end Editing

end Bytecode
