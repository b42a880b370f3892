import Bytecode.BranchIndex
import Bytecode.Proofs.WellLinked

/-!
# Redirecting branches, by a scan of the body and by an index

`branchesTo b t` is what a scan over the code of `b` finds: the branches linked
there whose target is `t`.  `redirect b old new` points all of them at another
place.  These two need no index; they are what an index has to agree with.

Two edits are made of them.  `without b i` takes an instruction out and sends
the branches to it on to its successor, `exchange b i j` puts `j` in its place
and sends them there.

`Files x p L` says that the index `x` has the branches of the set `L`, each once
and under its current target, and no empty entry.  An index is coherent with a
body when it files the instructions of its code.  Filing, dropping and
retargeting are described for any set, so that an edit may pass through states
in which the code and the index are not yet in step.
-/

namespace Bytecode

namespace Program

variable {p q : Program} {b c : BodyId} {i j k : InstrId}
  {s t old new : Option InstrId}

/-- The branches linked into `b` whose target is `t`, in the order of the
code. -/
def branchesTo (p : Program) (b : BodyId) (t : Option InstrId) : List InstrId :=
  (p.code b).filter fun i => (p.instr i).isBranch && decide (p.target? i = t)

/-- The branches of a body to a target. -/
theorem mem_branchesTo : i ∈ p.branchesTo b t ↔
    i ∈ p.code b ∧ (p.instr i).isBranch = true ∧ p.target? i = t := by
  simp [branchesTo]

/-- No branch is listed twice. -/
theorem WellLinked.nodup_branchesTo (h : p.WellLinked) (b : BodyId)
    (t : Option InstrId) : (p.branchesTo b t).Nodup :=
  (h.nodup_code b).filter _

/-! ### Pointing branches elsewhere -/

/-- Points each instruction of a list at `t`. -/
def setTargets (p : Program) (l : List InstrId) (t : Option InstrId) :
    Program :=
  l.foldl (fun p i => p.setTarget i t) p

/-- Points the branches of `b` to `old` at `new`. -/
def redirect (p : Program) (b : BodyId) (old new : Option InstrId) : Program :=
  if old = new then p else p.setTargets (p.branchesTo b old) new

/-- One branch gets another target. -/
theorem instr_setTarget (hi : p.Has i) (k : InstrId) :
    (p.setTarget i t).instr k =
    if k = i then { p.instr i with operand := .ofTarget t } else p.instr k := by
  rw [setTarget, setOperand, instr_modifyInstr hi]

/-- Branches of a list get another target. -/
theorem instr_setTargets {l : List InstrId} (hl : ∀ i ∈ l, p.Has i)
    (k : InstrId) : (p.setTargets l t).instr k =
    if k ∈ l then { p.instr k with operand := .ofTarget t } else p.instr k := by
  induction l generalizing p with
  | nil => simp [setTargets]
  | cons i l ih =>
      have hi := hl i List.mem_cons_self
      have hrest : ∀ k ∈ l, (p.setTarget i t).Has k := by
        intro k hk
        simpa [Has, setTarget, setOperand]
          using hl k (List.mem_cons_of_mem _ hk)
      have hstep : p.setTargets (i :: l) t = (p.setTarget i t).setTargets l t :=
        rfl
      rw [hstep, ih hrest, instr_setTarget hi]
      by_cases hki : k = i
      · subst hki
        simp
      · simp [hki]

@[simp] theorem chain_setTargets (l : List InstrId) :
    (p.setTargets l t).chain = p.chain := by
  induction l generalizing p with
  | nil => rfl
  | cons i l ih => exact ih

@[simp] theorem methods_setTargets (l : List InstrId) :
    (p.setTargets l t).methods = p.methods := by
  induction l generalizing p with
  | nil => rfl
  | cons i l ih => exact ih

@[simp] theorem bodies_setTargets (l : List InstrId) :
    (p.setTargets l t).bodies = p.bodies := by
  induction l generalizing p with
  | nil => rfl
  | cons i l ih => exact ih

@[simp] theorem size_instrs_setTargets (l : List InstrId) :
    (p.setTargets l t).instrs.size = p.instrs.size := by
  induction l generalizing p with
  | nil => rfl
  | cons i l ih => exact ih.trans (by simp [setTarget, setOperand])

@[simp] theorem body_setTargets (l : List InstrId) :
    (p.setTargets l t).body b = p.body b := by
  simp only [body, bodies_setTargets]

@[simp] theorem code_setTargets (l : List InstrId) :
    (p.setTargets l t).code b = p.code b := by
  simp [code]

/-- Branches stay in their bodies. -/
theorem owner_setTargets {l : List InstrId} (hl : ∀ i ∈ l, p.Has i)
    (k : InstrId) : (p.setTargets l t).owner k = p.owner k := by
  rw [owner, instr_setTargets hl]
  split <;> rfl

/-- What follows an instruction stays. -/
theorem next_setTargets {l : List InstrId} (hl : ∀ i ∈ l, p.Has i)
    (k : InstrId) : (p.setTargets l t).next k = p.next k := by
  simp only [next, chain_setTargets, owner_setTargets hl, body_setTargets]

/-- What is in front of an instruction stays. -/
theorem prev_setTargets {l : List InstrId} (hl : ∀ i ∈ l, p.Has i)
    (k : InstrId) : (p.setTargets l t).prev k = p.prev k := by
  simp only [prev, chain_setTargets, owner_setTargets hl, body_setTargets]

/-- New targets leave all bodies well linked. -/
theorem WellLinked.setTargets (h : p.WellLinked) {l : List InstrId}
    (hl : ∀ i ∈ l, p.Has i) (t : Option InstrId) :
    (p.setTargets l t).WellLinked where
  unbroken := by
    rw [chain_setTargets]
    exact h.unbroken
  nodup := fun c => by
    rw [body_setTargets]
    exact h.nodup c
  owned := fun c i => by
    rw [body_setTargets, owner_setTargets hl]
    exact h.owned c i

/-- Which instructions are pointed elsewhere matters, not their order. -/
theorem setTargets_congr {l l' : List InstrId} (hl : ∀ i ∈ l, p.Has i)
    (hl' : ∀ i ∈ l', p.Has i) (hmem : ∀ i, i ∈ l ↔ i ∈ l') :
    p.setTargets l t = p.setTargets l' t := by
  apply ext_of_instr <;> try simp
  intro i
  rw [instr_setTargets hl, instr_setTargets hl']
  simp only [hmem]

section Redirect

variable (h : p.WellLinked)

include h

/-- The branches to one target get another one. -/
theorem instr_redirect (b : BodyId) (old new : Option InstrId) (k : InstrId) :
    (p.redirect b old new).instr k =
    if old ≠ new ∧ k ∈ p.branchesTo b old then
      { p.instr k with operand := .ofTarget new }
      else p.instr k := by
  rw [redirect]
  by_cases hon : old = new
  · simp [hon]
  · rw [if_neg hon, instr_setTargets]
    · simp [hon]
    · intro i hi
      exact h.has (mem_branchesTo.mp hi).1

omit h in
@[simp] theorem body_redirect (c : BodyId) :
    (p.redirect b old new).body c = p.body c := by
  rw [redirect]
  split <;> simp

omit h in
@[simp] theorem code_redirect (c : BodyId) :
    (p.redirect b old new).code c = p.code c := by
  rw [redirect]
  split <;> simp

/-- Redirecting leaves opcodes. -/
theorem op_redirect (k : InstrId) :
    ((p.redirect b old new).instr k).op = (p.instr k).op := by
  rw [instr_redirect h]
  split <;> rfl

/-- Branches stay branches when they are redirected. -/
theorem isBranch_redirect (k : InstrId) :
    ((p.redirect b old new).instr k).isBranch = (p.instr k).isBranch := by
  rw [Instr.isBranch, op_redirect h, Instr.isBranch]

/-- Redirecting branches leaves all bodies well linked. -/
theorem WellLinked.redirect (b : BodyId) (old new : Option InstrId) :
    (p.redirect b old new).WellLinked := by
  rw [Program.redirect]
  split
  · exact h
  · exact h.setTargets (fun i hi => h.has (mem_branchesTo.mp hi).1) new

/-- Only branches of the body are redirected. -/
theorem changedIn_redirect (b : BodyId) (old new : Option InstrId) :
    ChangedIn b p (p.redirect b old new) where
  methods := by
    rw [Program.redirect]
    split <;> simp
  bodies := by
    rw [Program.redirect]
    split <;> simp
  body := fun c _ => body_redirect c
  grown := by
    rw [Program.redirect]
    split <;> simp
  instr := by
    intro k c hk hc
    rw [instr_redirect h, if_neg]
    rintro ⟨-, hmem⟩
    exact hc (h.body_unique (mem_branchesTo.mp hmem).1 (h.mem_code.mpr hk))
  op := fun k _ => op_redirect h k
  operand := by
    intro k _ hbr
    rw [instr_redirect h, if_neg]
    rintro ⟨-, hmem⟩
    rw [(mem_branchesTo.mp hmem).2.1] at hbr
    cases hbr

/-- The target of a branch after a redirection. -/
theorem target?_redirect {k : InstrId} (hk : k ∈ p.code b)
    (hbr : (p.instr k).isBranch = true) :
    (p.redirect b old new).target? k = if p.target? k = old then new else
        p.target? k := by
  rw [target?, instr_redirect h]
  by_cases hold : p.target? k = old
  · by_cases hon : old = new
    · simp only [hon, ne_eq, not_true_eq_false, false_and, if_false,
        hold, if_true]
      exact hold.trans hon
    · have hmem : k ∈ p.branchesTo b old := mem_branchesTo.mpr ⟨hk, hbr, hold⟩
      rw [if_pos ⟨hon, hmem⟩, if_pos hold]
      exact Operand.target?_ofTarget new
  · have hmem : k ∉ p.branchesTo b old :=
      fun hm => hold (mem_branchesTo.mp hm).2.2
    rw [if_neg (fun hm => hmem hm.2), if_neg hold]
    rfl

/-- What is no branch of the body stays as it is. -/
theorem instr_redirect_of_not {k : InstrId}
    (hk : k ∈ p.code b → (p.instr k).isBranch = true → p.target? k ≠ old) :
    (p.redirect b old new).instr k = p.instr k := by
  rw [instr_redirect h, if_neg]
  rintro ⟨-, hm⟩
  obtain ⟨hc, hbr, ht⟩ := mem_branchesTo.mp hm
  exact hk hc hbr ht

end Redirect

/-! ### Taking an instruction out and sending its branches on -/

/-- Takes `i` out of the body; branches to it go to its successor. -/
def without (p : Program) (b : BodyId) (i : InstrId) : Program :=
  (p.unlink b i).redirect b (some i) (p.next i)

section Without

variable (h : p.WellLinked) (hi : i ∈ p.code b)

include h hi

/-- Taking an instruction out leaves all bodies well linked. -/
theorem WellLinked.without : (p.without b i).WellLinked :=
  (h.unlink hi).redirect b _ _

/-- The code of the body without the instruction. -/
theorem code_without : (p.without b i).code b = (p.code b).erase i := by
  rw [Program.without, code_redirect, code_unlink h hi]

/-- The instructions that are left. -/
theorem mem_code_without :
    k ∈ (p.without b i).code b ↔ k ∈ p.code b ∧ k ≠ i := by
  rw [code_without h hi, (h.nodup_code b).mem_erase_iff, and_comm]

/-- Only the body of the instruction is changed. -/
theorem changedIn_without : ChangedIn b p (p.without b i) :=
  (changedIn_unlink h hi).trans (changedIn_redirect (h.unlink hi) b _ _)

/-- Taking an instruction out leaves opcodes. -/
theorem op_without (k : InstrId) :
    ((p.without b i).instr k).op = (p.instr k).op := by
  rw [Program.without, op_redirect (h.unlink hi), instr_unlink (h.has hi)]
  split
  · next hk => rw [hk]
  · rfl

/-- Branches stay branches when another instruction is taken out. -/
theorem isBranch_without (k : InstrId) :
    ((p.without b i).instr k).isBranch = (p.instr k).isBranch := by
  rw [Instr.isBranch, op_without h hi, Instr.isBranch]

/-- A branch to what is taken out goes to what follows that. -/
theorem target?_without (hk : k ∈ p.code b) (hki : k ≠ i)
    (hbr : (p.instr k).isBranch = true) :
    (p.without b i).target? k = if p.target? k = some i then p.next i else
        p.target? k := by
  have hsame : (p.unlink b i).instr k = p.instr k := by
    rw [instr_unlink (h.has hi), if_neg hki]
  have hk' : k ∈ (p.unlink b i).code b := by
    rw [code_unlink h hi, List.mem_erase_of_ne hki]
    exact hk
  rw [Program.without, target?_redirect (h.unlink hi) hk'
    (by rw [hsame]; exact hbr), target?, hsame]
  rfl

/-- Instructions that are no branches to the one taken out stay as they are. -/
theorem instr_without_of_not (hki : k ≠ i)
    (hk : k ∈ p.code b → (p.instr k).isBranch = true → p.target? k ≠ some i) :
    (p.without b i).instr k = p.instr k := by
  have hsame : (p.unlink b i).instr k = p.instr k := by
    rw [instr_unlink (h.has hi), if_neg hki]
  rw [Program.without, instr_redirect_of_not (h.unlink hi), hsame]
  intro hc hbr
  rw [target?, hsame]
  rw [hsame] at hbr
  rw [code_unlink h hi, List.mem_erase_of_ne hki] at hc
  exact hk hc hbr

/-- What is taken out is skipped. -/
theorem next_without (hk : k ∈ p.code b) (hki : k ≠ i) :
    (p.without b i).next k = if p.next k = some i then p.next i else
        p.next k := by
  have hk' : k ∈ (p.without b i).code b := (mem_code_without h hi).mpr ⟨hk, hki⟩
  rw [(h.without hi).next hk', h.next hk, h.next hi, code_without h hi,
    elemAfter?_erase (h.nodup_code b) hki]

/-- If the first instruction is taken out, the second one is the first. -/
theorem first?_without :
    (p.without b i).first? b = if p.first? b = some i then p.next i else
        p.first? b := by
  rw [(h.without hi).first?, h.first?, h.next hi, code_without h hi,
    head?_erase]

end Without

/-! ### Putting another instruction in the place of one -/

/-- Puts `j` in the place of `i`; branches to `i` go to `j`. -/
def exchange (p : Program) (b : BodyId) (i j : InstrId) : Program :=
  (p.swap b i j).redirect b (some i) (some j)

section Exchange

variable (h : p.WellLinked) (hi : i ∈ p.code b) (hj : p.Has j)
  (hfree : p.owner j = none)

include h hi

/-- The new instruction stands where the old one was. -/
theorem code_exchange : (p.exchange b i j).code b = (p.code b).replace i j := by
  rw [Program.exchange, code_redirect, code_swap h hi]

include hfree

/-- The instructions of the body after an exchange. -/
theorem mem_code_exchange :
    k ∈ (p.exchange b i j).code b ↔ k = j ∨ (k ∈ p.code b ∧ k ≠ i) := by
  obtain ⟨pre, post, hcut, hpre, hpost⟩ := exists_cut (h.nodup_code b) hi
  have hji := h.ne_of_free hi hfree
  rw [code_exchange h hi, hcut, replace_cut hpre]
  simp only [List.mem_append, List.mem_cons]
  constructor
  · rintro (hk | rfl | hk)
    · exact Or.inr ⟨Or.inl hk, fun hki => hpre (hki ▸ hk)⟩
    · exact Or.inl rfl
    · exact Or.inr ⟨Or.inr (Or.inr hk), fun hki => hpost (hki ▸ hk)⟩
  · rintro (rfl | ⟨hk | hk | hk, hki⟩)
    · exact Or.inr (Or.inl rfl)
    · exact Or.inl hk
    · exact absurd hk hki
    · exact Or.inr (Or.inr hk)

include hj

/-- An exchange leaves all bodies well linked. -/
theorem WellLinked.exchange : (p.exchange b i j).WellLinked :=
  (h.swap hi hj hfree).redirect b _ _

/-- Only the body of the instruction is changed. -/
theorem changedIn_exchange : ChangedIn b p (p.exchange b i j) :=
  (changedIn_swap h hi hj hfree).trans
    (changedIn_redirect (h.swap hi hj hfree) b _ _)

/-- An exchange leaves opcodes. -/
theorem op_exchange (k : InstrId) :
    ((p.exchange b i j).instr k).op = (p.instr k).op := by
  rw [Program.exchange, op_redirect (h.swap hi hj hfree), op_swap h hi hj hfree]

/-- Branches stay branches in an exchange. -/
theorem isBranch_exchange (k : InstrId) :
    ((p.exchange b i j).instr k).isBranch = (p.instr k).isBranch := by
  rw [Instr.isBranch, op_exchange h hi hj hfree, Instr.isBranch]

/-- A branch to the old instruction goes to the new one. -/
theorem target?_exchange (hk : k ∈ (p.exchange b i j).code b)
    (hbr : (p.instr k).isBranch = true) :
    (p.exchange b i j).target? k = if p.target? k = some i then some j else
        p.target? k := by
  have hbr' : ((p.swap b i j).instr k).isBranch = true := by
    rw [Instr.isBranch, op_swap h hi hj hfree]
    exact hbr
  have htarget : (p.swap b i j).target? k = p.target? k := by
    rw [target?, Instr.target?, operand_swap h hi hj hfree]
    rfl
  rw [Program.exchange, code_redirect] at hk
  rw [Program.exchange, target?_redirect (h.swap hi hj hfree) hk hbr', htarget]

/-- Whatever is no branch to the old instruction keeps its operand. -/
theorem operand_exchange_of_not (hk : k ∈ (p.exchange b i j).code b →
      (p.instr k).isBranch = true → p.target? k ≠ some i) :
    ((p.exchange b i j).instr k).operand = (p.instr k).operand := by
  have hbr : ((p.swap b i j).instr k).isBranch = (p.instr k).isBranch := by
    rw [Instr.isBranch, op_swap h hi hj hfree, Instr.isBranch]
  have htarget : (p.swap b i j).target? k = p.target? k := by
    rw [target?, Instr.target?, operand_swap h hi hj hfree]
    rfl
  rw [Program.exchange, instr_redirect_of_not (h.swap hi hj hfree),
    operand_swap h hi hj hfree]
  intro hc hb
  rw [htarget]
  rw [Program.exchange, code_redirect] at hk
  exact hk hc (hbr ▸ hb)

/-- The new instruction follows what the old one followed. -/
theorem next_exchange (hk : k ∈ p.code b) (hki : k ≠ i) :
    (p.exchange b i j).next k = if p.next k = some i then some j else
        p.next k := by
  have hk' : k ∈ (p.exchange b i j).code b :=
    (mem_code_exchange h hi hfree).mpr (Or.inr ⟨hk, hki⟩)
  have hout : j ∉ p.code b := fun hj => h.ne_of_free hj hfree rfl
  have hkj : k ≠ j := fun hkj => hout (hkj ▸ hk)
  rw [(h.exchange hi hj hfree).next hk', h.next hk, code_exchange h hi,
    elemAfter?_replace (h.nodup_code b) hi hout hki hkj]

/-- What followed the old instruction follows the new one. -/
theorem next_exchange_self : (p.exchange b i j).next j = p.next i := by
  have hj' : j ∈ (p.exchange b i j).code b :=
    (mem_code_exchange h hi hfree).mpr (Or.inl rfl)
  have hout : j ∉ p.code b := fun hj => h.ne_of_free hj hfree rfl
  rw [(h.exchange hi hj hfree).next hj', h.next hi, code_exchange h hi,
    elemAfter?_replace_self (h.nodup_code b) hi hout]

/-- If the old instruction was the first, the new one is. -/
theorem first?_exchange :
    (p.exchange b i j).first? b = if p.first? b = some i then some j else
        p.first? b := by
  rw [(h.exchange hi hj hfree).first?, h.first?, code_exchange h hi,
    head?_replace hi]

end Exchange

end Program

namespace BranchIndex

variable {x : BranchIndex} {p q : Program} {b : BodyId} {i k : InstrId}
  {s t old new : Option InstrId}

/-! ### The entries -/

/-- Every target has one entry, and no entry is empty. -/
structure Tidy (x : BranchIndex) : Prop where
  keys : (x.entries.map (·.1)).Nodup
  filled : ∀ e ∈ x.entries, e.2 ≠ []

/-- One entry is set and the others stay. -/
theorem sources_put (list : List InstrId) :
    (x.put t list).sources s = if s = t then list else x.sources s := by
  simp only [sources, put]
  by_cases hlist : list = []
  · subst hlist
    rw [List.isEmpty_nil, if_pos rfl, lookup_filter_ne]
    split <;> rfl
  · have hne : list.isEmpty = false := by simpa using hlist
    rw [hne]
    simp only [Bool.false_eq_true, if_false, List.lookup_append,
      lookup_filter_ne]
    by_cases hs : s = t
    · simp [hs]
    · have hne' : (s == t) = false := by simpa using hs
      simp [hs, List.lookup_cons, hne']

/-- An entry that is set leaves an index tidy. -/
theorem Tidy.put (h : x.Tidy) (t : Option InstrId) (list : List InstrId) :
    (x.put t list).Tidy := by
  have hsub : ((x.entries.filter fun e => e.1 ≠ t).map (·.1)).Nodup :=
    h.keys.sublist (List.filter_sublist.map _)
  have hfilled : ∀ e ∈ x.entries.filter fun e => e.1 ≠ t, e.2 ≠ [] :=
    fun e he => h.filled e (List.mem_of_mem_filter he)
  rw [BranchIndex.put]
  by_cases hlist : list = []
  · subst hlist
    exact ⟨by simpa using hsub, by simpa using hfilled⟩
  · have hne : list.isEmpty = false := by simpa using hlist
    simp only [hne, Bool.false_eq_true, if_false]
    constructor
    · rw [List.map_append, List.nodup_append]
      refine ⟨hsub, by simp, ?_⟩
      intro a ha c hc
      obtain ⟨e, he, rfl⟩ := List.mem_map.mp ha
      have hc' : c = t := by simpa using hc
      rw [hc']
      simpa using (List.mem_filter.mp he).2
    · intro e he
      rcases List.mem_append.mp he with he | he
      · exact hfilled e he
      · rw [List.mem_singleton.mp he]
        exact hlist

/-- An entry is what the index shows under its key. -/
theorem Tidy.sources_of_mem (h : x.Tidy) {e : Option InstrId × List InstrId}
    (he : e ∈ x.entries) : x.sources e.1 = e.2 := by
  obtain ⟨entries⟩ := x
  have hkeys := h.keys
  simp only [sources]
  clear h
  induction entries with
  | nil => cases he
  | cons a l ih =>
      simp only [List.map_cons, List.nodup_cons] at hkeys
      rcases List.mem_cons.mp he with rfl | he
      · obtain ⟨k, v⟩ := e
        simp
      · have hne : (e.1 == a.1) = false := by
          rw [beq_eq_false_iff_ne]
          intro heq
          exact hkeys.1 (heq ▸ List.mem_map_of_mem he)
        rw [List.lookup_cons, hne]
        exact ih he hkeys.2

/-- The keys of a tidy index are the targets of branches. -/
theorem Tidy.mem_keys (h : x.Tidy) :
    t ∈ x.entries.map (·.1) ↔ x.sources t ≠ [] := by
  constructor
  · intro ht
    obtain ⟨e, he, rfl⟩ := List.mem_map.mp ht
    rw [h.sources_of_mem he]
    exact h.filled e he
  · intro ht
    by_contra hout
    apply ht
    have hnone : x.entries.lookup t = none := by
      rw [List.lookup_eq_none_iff]
      intro e he
      rw [bne_iff_ne]
      rintro rfl
      exact hout (List.mem_map_of_mem he)
    simp [sources, hnone]

/-! ### Filing a set of instructions -/

/-- The index has the branches of `L`, each once and under its target, and
nothing else. -/
structure Files (x : BranchIndex) (p : Program) (L : Set InstrId) : Prop where
  tidy : x.Tidy
  nodup : ∀ t, (x.sources t).Nodup
  mem : ∀ t i, i ∈ x.sources t ↔
    i ∈ L ∧ (p.instr i).isBranch = true ∧ p.target? i = t

/-- The index has the branches of the body. -/
def Coherent (x : BranchIndex) (p : Program) (b : BodyId) : Prop :=
  x.Files p { i | i ∈ p.code b }

variable {L : Set InstrId}

/-- An empty index files no branch. -/
theorem files_nothing (p : Program) : Files {} p ∅ where
  tidy := ⟨List.nodup_nil, fun e he => by cases he⟩
  nodup := fun _ => List.nodup_nil
  mem := fun t i => by simp [sources]

/-- Only the instructions of the set matter. -/
theorem Files.congr (h : x.Files p L) (hpq : ∀ i ∈ L, q.instr i = p.instr i) :
    x.Files q L where
  tidy := h.tidy
  nodup := h.nodup
  mem := by
    intro t i
    rw [h.mem]
    constructor
    · rintro ⟨hi, hrest⟩
      rw [Program.target?, hpq i hi]
      exact ⟨hi, hrest⟩
    · rintro ⟨hi, hrest⟩
      rw [Program.target?, hpq i hi] at hrest
      exact ⟨hi, hrest⟩

/-- One more branch is filed. -/
theorem Files.insert (h : x.Files p L) (hi : i ∉ L)
    (hbr : (p.instr i).isBranch = true) :
    (x.insert p i).Files p (Insert.insert i L) where
  tidy := h.tidy.put _ _
  nodup := by
    intro t
    rw [BranchIndex.insert, sources_put]
    split
    · have hout : i ∉ x.sources (p.target? i) :=
        fun hm => hi ((h.mem _ _).mp hm).1
      rw [List.nodup_append]
      refine ⟨h.nodup _, List.nodup_singleton i, ?_⟩
      intro a ha c hc hac
      rw [List.mem_singleton.mp hc] at hac
      exact hout (hac ▸ ha)
    · exact h.nodup t
  mem := by
    intro t k
    rw [BranchIndex.insert, sources_put]
    split
    · next ht =>
        subst ht
        rw [List.mem_append, h.mem, List.mem_singleton, Set.mem_insert_iff]
        constructor
        · rintro (⟨hk, hrest⟩ | rfl)
          · exact ⟨Or.inr hk, hrest⟩
          · exact ⟨Or.inl rfl, hbr, rfl⟩
        · rintro ⟨rfl | hk, hrest⟩
          · exact Or.inr rfl
          · exact Or.inl ⟨hk, hrest⟩
    · next ht =>
        rw [h.mem, Set.mem_insert_iff]
        constructor
        · rintro ⟨hk, hrest⟩
          exact ⟨Or.inr hk, hrest⟩
        · rintro ⟨rfl | hk, hrest⟩
          · exact absurd hrest.2.symm ht
          · exact ⟨hk, hrest⟩

/-- What is no branch may count as filed. -/
theorem Files.insert_other (h : x.Files p L)
    (hbr : (p.instr i).isBranch = false) : x.Files p (Insert.insert i L) where
  tidy := h.tidy
  nodup := h.nodup
  mem := by
    intro t k
    rw [h.mem, Set.mem_insert_iff]
    constructor
    · rintro ⟨hk, hrest⟩
      exact ⟨Or.inr hk, hrest⟩
    · rintro ⟨rfl | hk, hrest⟩
      · rw [hbr] at hrest
        cases hrest.1
      · exact ⟨hk, hrest⟩

/-- A newly linked instruction is filed if it is a branch. -/
theorem Files.link (h : x.Files p L) (hi : i ∉ L) :
    (if (p.instr i).isBranch then x.insert p i
    else x).Files p (Insert.insert i L) := by
  by_cases hbr : (p.instr i).isBranch = true
  · rw [if_pos hbr]
    exact h.insert hi hbr
  · rw [if_neg hbr]
    exact h.insert_other (by simpa using hbr)

/-- A branch that is filed can be taken out. -/
theorem Files.remove (h : x.Files p L) (hi : i ∈ L)
    (hbr : (p.instr i).isBranch = true) :
    ∃ y, x.remove p (some i) = .ok y ∧ y.Files p (L \ {i}) := by
  have hmem : i ∈ x.sources (p.target? i) := (h.mem _ _).mpr ⟨hi, hbr, rfl⟩
  refine ⟨x.put (p.target? i) ((x.sources (p.target? i)).erase i), ?_,
    h.tidy.put _ _, ?_, ?_⟩
  · simp [BranchIndex.remove, branch, hbr, hmem, bind, Except.bind, pure,
      Except.pure]
  · intro t
    rw [sources_put]
    split
    · exact (h.nodup _).erase i
    · exact h.nodup t
  · intro t k
    rw [sources_put, Set.mem_sdiff, Set.mem_singleton_iff]
    split
    · next ht =>
        subst ht
        rw [(h.nodup _).mem_erase_iff, h.mem]
        tauto
    · next ht =>
        rw [h.mem]
        constructor
        · rintro ⟨hk, hb, rfl⟩
          exact ⟨⟨hk, fun hki => ht (by rw [hki])⟩, hb, rfl⟩
        · rintro ⟨⟨hk, -⟩, hrest⟩
          exact ⟨hk, hrest⟩

/-- Instructions that are no branches are not filed. -/
theorem Files.drop_other (h : x.Files p L)
    (hbr : (p.instr i).isBranch = false) : x.Files p (L \ {i}) where
  tidy := h.tidy
  nodup := h.nodup
  mem := by
    intro t k
    rw [h.mem, Set.mem_sdiff, Set.mem_singleton_iff]
    constructor
    · rintro ⟨hk, hb, ht⟩
      refine ⟨⟨hk, ?_⟩, hb, ht⟩
      rintro rfl
      rw [hbr] at hb
      cases hb
    · rintro ⟨⟨hk, -⟩, hrest⟩
      exact ⟨hk, hrest⟩

/-! ### Retargeting what is filed under a place -/

/-- What retargeting counts, files and changes. -/
theorem retarget_eq :
    x.retarget p old new =
      if old = new then (0, x, p)
      else ((x.sources old).length, if x.sources old = [] then x else
          (x.put old []).put new (x.sources new ++ x.sources old),
        p.setTargets (x.sources old) new) := by
  rw [BranchIndex.retarget]
  by_cases hon : old = new
  · rw [if_pos hon, if_pos hon]
  · rw [if_neg hon, if_neg hon]
    by_cases hnil : x.sources old = []
    · simp [hnil, Program.setTargets]
    · have hne : (x.sources old).isEmpty = false := by simpa using hnil
      simp [hne, hnil, Program.setTargets]

/-- What is filed under each target once the branches to `old` have been pointed
at `new`. -/
theorem sources_retarget (hon : old ≠ new) (t : Option InstrId) :
    (x.retarget p old new).2.1.sources t =
    if t = new then x.sources new ++ x.sources old
    else if t = old then [] else x.sources t := by
  rw [retarget_eq, if_neg hon]
  dsimp only
  by_cases hnil : x.sources old = []
  · rw [if_pos hnil, hnil]
    split
    · next ht => rw [ht, List.append_nil]
    · split
      · next ht => rw [ht, hnil]
      · rfl
  · rw [if_neg hnil, sources_put, sources_put]

/-- Retargeting leaves an index tidy. -/
theorem Tidy.retarget (h : x.Tidy) (p : Program) (old new : Option InstrId) :
    (x.retarget p old new).2.1.Tidy := by
  rw [retarget_eq]
  split
  · exact h
  · dsimp only
    split
    · exact h
    · exact (h.put _ _).put _ _

/-- Retargeting changes the operands of what is filed under `old`. -/
theorem instr_retarget (hhas : ∀ i ∈ x.sources old, p.Has i) (hon : old ≠ new)
    (k : InstrId) : (x.retarget p old new).2.2.instr k =
    if k ∈ x.sources old then { p.instr k with operand := .ofTarget new }
    else p.instr k := by
  rw [retarget_eq, if_neg hon]
  exact Program.instr_setTargets hhas k

/-- Branches stay branches when they are retargeted. -/
theorem isBranch_retarget (hhas : ∀ i ∈ x.sources old, p.Has i)
    (hon : old ≠ new) (k : InstrId) :
    ((x.retarget p old new).2.2.instr k).isBranch = (p.instr k).isBranch := by
  rw [instr_retarget hhas hon]
  split <;> rfl

/-- Branches filed under `old` have gone to `new`, and no other branch has
moved. -/
theorem target?_retarget (hhas : ∀ i ∈ x.sources old, p.Has i) (hon : old ≠ new)
    (k : InstrId) :
    (x.retarget p old new).2.2.target? k = if k ∈ x.sources old then new else
        p.target? k := by
  rw [Program.target?, instr_retarget hhas hon]
  split
  · exact Operand.target?_ofTarget new
  · rfl

/-- Retargeting files the same branches under their new target. -/
theorem Files.retarget (h : x.Files p L) (hL : ∀ i ∈ L, p.Has i)
    (old new : Option InstrId) :
    (x.retarget p old new).2.1.Files (x.retarget p old new).2.2 L := by
  by_cases hon : old = new
  · rw [retarget_eq, if_pos hon]
    exact h
  have hhas : ∀ i ∈ x.sources old, p.Has i :=
    fun i hi => hL i ((h.mem _ _).mp hi).1
  refine ⟨h.tidy.retarget _ _ _, ?_, ?_⟩
  · intro t
    rw [sources_retarget hon]
    split
    · rw [List.nodup_append]
      refine ⟨h.nodup _, h.nodup _, ?_⟩
      rintro a ha c hc rfl
      exact hon (((h.mem _ _).mp hc).2.2.symm.trans ((h.mem _ _).mp ha).2.2)
    · split
      · exact List.nodup_nil
      · exact h.nodup t
  · intro t i
    rw [sources_retarget hon, isBranch_retarget hhas hon,
      target?_retarget hhas hon]
    by_cases hold : i ∈ x.sources old
    · obtain ⟨hi, hbr, hto⟩ := (h.mem _ _).mp hold
      rw [if_pos hold]
      by_cases htn : t = new
      · rw [if_pos htn, List.mem_append]
        exact ⟨fun _ => ⟨hi, hbr, htn.symm⟩, fun _ => Or.inr hold⟩
      · rw [if_neg htn]
        constructor
        · intro hm
          split at hm
          · cases hm
          · next hto' =>
              exact absurd (((h.mem _ _).mp hm).2.2.symm.trans hto) hto'
        · rintro ⟨-, -, hnt⟩
          exact absurd hnt.symm htn
    · rw [if_neg hold, ← h.mem]
      by_cases htn : t = new
      · rw [if_pos htn, htn, List.mem_append]
        exact ⟨fun hm => hm.resolve_right hold, Or.inl⟩
      · rw [if_neg htn]
        by_cases hto : t = old
        · rw [if_pos hto, hto]
          exact ⟨fun hm => absurd hm List.not_mem_nil, fun hm => absurd hm hold⟩
        · rw [if_neg hto]

/-! ### The index of a body -/

/-- Branches are filed one after the other. -/
private theorem files_foldl {l : List InstrId} (h : x.Files p L) (hnd : l.Nodup)
    (hout : ∀ i ∈ l, i ∉ L) (hbr : ∀ i ∈ l, (p.instr i).isBranch = true) :
    (l.foldl (fun x i => x.insert p i) x).Files p (L ∪ { i | i ∈ l }) := by
  induction l generalizing x L with
  | nil => simpa using h
  | cons i l ih =>
      obtain ⟨hi, hl⟩ := List.nodup_cons.mp hnd
      have hfirst :=
        h.insert (hout i List.mem_cons_self) (hbr i List.mem_cons_self)
      have hrest : ∀ k ∈ l, k ∉ Insert.insert i L := by
        rintro k hk (rfl | hkL)
        · exact hi hk
        · exact hout k (List.mem_cons_of_mem _ hk) hkL
      have := ih hfirst hl hrest (fun k hk => hbr k (List.mem_cons_of_mem _ hk))
      rw [List.foldl_cons]
      convert this using 1
      ext k
      simp only [Set.mem_union, Set.mem_ofPred_eq, List.mem_cons,
        Set.mem_insert_iff]
      tauto

/-- A fresh index is coherent. -/
theorem coherent_build (h : p.WellLinked) (b : BodyId) :
    (build p b).Coherent p b := by
  have hfiles := files_foldl (l := (p.code b).filter
    fun i => (p.instr i).isBranch) (files_nothing p) ((h.nodup_code b).filter _)
    (fun _ _ => Set.notMem_empty _) (fun i hi => (List.mem_filter.mp hi).2)
  refine ⟨hfiles.tidy, hfiles.nodup, ?_⟩
  intro t i
  rw [build, hfiles.mem]
  simp only [Set.mem_union, Set.mem_empty_iff_false, false_or,
    Set.mem_ofPred_eq, List.mem_filter]
  tauto

namespace Coherent

/-- A coherent index lists the branches to a target. -/
theorem mem_sources (h : x.Coherent p b) :
    i ∈ x.sources t ↔ i ∈ p.branchesTo b t := by
  rw [h.mem, Program.mem_branchesTo]
  rfl

/-- The index shows what a scan over the body finds. -/
theorem sources_perm (h : x.Coherent p b) (hp : p.WellLinked)
    (t : Option InstrId) : (x.sources t).Perm (p.branchesTo b t) :=
  (List.perm_ext_iff_of_nodup (h.nodup t) (hp.nodup_branchesTo b t)).mpr
    fun _ => h.mem_sources

/-- A coherent index knows what is branched to. -/
theorem isTarget_iff (h : x.Coherent p b) :
    x.isTarget t = true ↔ p.branchesTo b t ≠ [] := by
  rw [isTarget, Bool.not_eq_true', List.isEmpty_eq_false_iff_exists_mem,
    ← List.isEmpty_eq_false_iff, List.isEmpty_eq_false_iff_exists_mem]
  exact exists_congr fun i => h.mem_sources

/-- The index has an entry for each target that a scan comes across. -/
theorem size_eq (h : x.Coherent p b) : x.size = (((p.code b).filter
      fun i => (p.instr i).isBranch).map p.target?).dedup.length := by
  have hkeys : (x.entries.map (·.1)).Perm (((p.code b).filter
      fun i => (p.instr i).isBranch).map p.target?).dedup := by
    rw [List.perm_ext_iff_of_nodup h.tidy.keys (List.nodup_dedup _)]
    intro t
    rw [h.tidy.mem_keys, List.mem_dedup, List.mem_map,
      ← List.isEmpty_eq_false_iff, List.isEmpty_eq_false_iff_exists_mem]
    simp only [h.mem_sources, Program.mem_branchesTo, List.mem_filter,
      and_assoc]
  simpa [size] using hkeys.length_eq

/-- Retargeting through the index is the redirection by a scan. -/
theorem retarget_program (h : x.Coherent p b) (hp : p.WellLinked)
    (old new : Option InstrId) :
    (x.retarget p old new).2.2 = p.redirect b old new := by
  rw [retarget_eq, Program.redirect]
  split
  · rfl
  · apply Program.setTargets_congr
    · exact fun i hi =>
        hp.has (Program.mem_branchesTo.mp (h.mem_sources.mp hi)).1
    · exact fun i hi => hp.has (Program.mem_branchesTo.mp hi).1
    · exact fun i => h.mem_sources

/-- Retargeting counts the branches that it changes. -/
theorem retarget_count (h : x.Coherent p b) (hp : p.WellLinked)
    (old new : Option InstrId) : (x.retarget p old new).1 =
    if old = new then 0 else (p.branchesTo b old).length := by
  rw [retarget_eq]
  split
  · rfl
  · exact (h.sources_perm hp old).length_eq

/-- An index stays coherent when branches are retargeted. -/
theorem retarget (h : x.Coherent p b) (hp : p.WellLinked)
    (old new : Option InstrId) :
    (x.retarget p old new).2.1.Coherent (p.redirect b old new) b := by
  have hfiles := Files.retarget h (fun i hi => hp.has hi) old new
  rw [h.retarget_program hp] at hfiles
  rw [Coherent, Program.code_redirect]
  exact hfiles

/-- Coherence only looks at the body. -/
theorem agree (h : x.Coherent p b) (hp : p.WellLinked) (hq : q.WellLinked)
    (hpq : Program.AgreeOn b p q) : x.Coherent q b := by
  have hcode : q.code b = p.code b := by rw [hq.code, hp.code, hpq.body]
  rw [Coherent, hcode]
  exact Files.congr h fun i hi => hpq.instr i (by rwa [← hp.code])

end Coherent

end BranchIndex

end Bytecode
