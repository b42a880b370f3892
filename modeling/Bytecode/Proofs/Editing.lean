import Bytecode.Editor
import Bytecode.Proofs.Coherence

/-!
# What the edits do

An editor is sound when its program is well linked and its index, once there is
one, is coherent with the body.  Each edit is described once, as a case
distinction: either it is refused, and then at most the index has been built,
or its program is the one that a scan over the body would have made, and the
editor is sound again.  Everything else about edits is derived from these
descriptions.
-/

namespace Bytecode

/-- The branches that may fall through are the conditional ones. -/
theorem Instr.conditional_iff {x : Instr} : x.kind = .conditionalBranch ↔
    x.isBranch = true ∧ x.fallsThrough = true := by
  change x.kind = .conditionalBranch ↔
    x.kind.isBranch = true ∧ x.kind.fallsThrough = true
  cases x.kind <;> decide

namespace Editing

variable {s s' : Editing} {i j k : InstrId} {t : Option InstrId}

/-- The instructions of the body under edit. -/
abbrev code (s : Editing) : List InstrId := s.program.code s.editor.body

/-- The program is well linked, the body is there, and the index is coherent
with it. -/
structure Sound (s : Editing) : Prop where
  linked : s.program.WellLinked
  present : s.editor.body.index < s.program.bodies.size
  index : ∀ x ∈ s.editor.index, x.Coherent s.program s.editor.body

/-- Nothing has changed, but the index may have been built. -/
structure Untouched (s s' : Editing) : Prop where
  sound : s'.Sound
  program : s'.program = s.program
  editor : s'.editor = { s.editor with index := s'.editor.index }

/-- The edit has failed and left everything as it was, but for the index. -/
def Refused {α : Type} (s : Editing) (r : Except Fault α × Editing) : Prop :=
  ∃ circumstances cause s', r = (.error (.failed circumstances cause), s') ∧
    Untouched s s'

theorem Untouched.refl (h : s.Sound) : Untouched s s := ⟨h, rfl, rfl⟩

/-- A new editor on a body. -/
def fresh (p : Program) (m : MethodId) (b : BodyId) : Editing :=
  ⟨p, { method := m, body := b }⟩

/-- An editor is sound when it begins. -/
theorem sound_fresh {p : Program} {b : BodyId} (hp : p.WellLinked)
    (hb : b.index < p.bodies.size) (m : MethodId) : (fresh p m b).Sound :=
  ⟨hp, hb, fun x hx => by cases hx⟩

/-- Moving the cursor keeps the editor sound. -/
theorem Sound.move (h : s.Sound) {e : Editor} (hbody : e.body = s.editor.body)
    (hindex : e.index = s.editor.index) : Sound ⟨s.program, e⟩ where
  linked := h.linked
  present := by rw [hbody]; exact h.present
  index := by rw [hbody, hindex]; exact h.index

/-- A coherent index may be added to a sound editor. -/
theorem Sound.withIndex (h : s.Sound) :
    ∃ x, x.Coherent s.program s.editor.body ∧
      s.withIndex = (x, s.store x s.program) := by
  cases hx : s.editor.index with
  | some x =>
      refine ⟨x, h.index x hx, ?_⟩
      obtain ⟨p, e⟩ := s
      obtain ⟨⟩ := e
      simp only at hx
      subst hx
      rfl
  | none =>
      refine ⟨_, BranchIndex.coherent_build h.linked s.editor.body, ?_⟩
      simp [Editing.withIndex, hx, store]

/-- Another coherent index changes nothing. -/
theorem untouched_withIndex (h : s.Sound) {x : BranchIndex}
    (hx : x.Coherent s.program s.editor.body) :
    Untouched s (s.store x s.program) where
  sound := ⟨h.linked, h.present, fun y hy => by cases hy; exact hx⟩
  program := rfl
  editor := rfl

/-- An editor knows the instructions of its body as its own. -/
theorem own?_eq_some (h : s.Sound) :
    s.own? t = some i ↔ t = some i ∧ i ∈ s.code := by
  rw [own?, Option.filter_eq_some_iff, Program.contains, h.linked.mem_code]
  simp

theorem own?_of_mem (h : s.Sound) (hi : i ∈ s.code) :
    s.own? (some i) = some i :=
  (own?_eq_some h).mpr ⟨rfl, hi⟩

/-! ### Deleting -/

/-- Deleting `i` leaves every branch a place to go. -/
def Deletable (s : Editing) (i : InstrId) : Prop :=
  (s.program.next i).isSome ∨ s.program.branchesTo s.editor.body (some i) = []

instance : Decidable (s.Deletable i) := inferInstanceAs (Decidable (_ ∨ _))

/-- The state after `i` has been deleted, `x` being the index then. -/
def deleted (s : Editing) (i : InstrId) (x : BranchIndex) : Editing :=
  ⟨s.program.without s.editor.body i,
    { (s.forget i).editor with index := some x, dirty := true }⟩

/-- Out of the index, an instruction of the body is not filed any more. -/
theorem unfile_eq (hi : i ∈ s.code) {x : BranchIndex}
    (hx : x.Coherent s.program s.editor.body) : ∃ y, s.unfile x i = .ok y ∧
      y.Files s.program ({ k | k ∈ s.code } \ {i}) := by
  rw [unfile]
  by_cases hbr : (s.program.instr i).isBranch = true
  · rw [if_pos hbr]
    exact BranchIndex.Files.remove hx hi hbr
  · rw [if_neg hbr]
    exact ⟨x, rfl, BranchIndex.Files.drop_other hx (by simpa using hbr)⟩

section Delete

variable {p : Program} {b : BodyId} {x : BranchIndex}

/-- It does not matter whether branches are redirected first. -/
private theorem unlink_setTargets {l : List InstrId} (hi : p.Has i)
    (hout : i ∉ l) (hl : ∀ k ∈ l, p.Has k) :
    (p.setTargets l t).unlink b i = (p.unlink b i).setTargets l t := by
  have hi' : (p.setTargets l t).Has i := by simpa [Program.Has] using hi
  have hl' : ∀ k ∈ l, (p.unlink b i).Has k := by
    intro k hk
    simpa [Program.Has, Program.unlink] using hl k hk
  apply Program.ext_of_instr
  · simp [Program.unlink]
  · simp [Program.unlink]
  · simp [Program.unlink, Program.modifyBody]
  · simp [Program.unlink]
  · intro k
    rw [Program.instr_unlink hi', Program.instr_setTargets hl',
      Program.instr_setTargets hl,
      Program.instr_setTargets hl, Program.instr_unlink hi]
    by_cases hki : k = i
    · subst hki
      simp [hout]
    · simp [hki]

/-- Retargeting the branches that are filed and then unlinking is what a scan
does. -/
private theorem unlink_retarget (hp : p.WellLinked) (hi : i ∈ p.code b)
    (hx : x.Files p ({ k | k ∈ p.code b } \ {i})) {n : InstrId}
    (hn : p.next i = some n) :
    (x.retarget p (some i) (some n)).2.2.unlink b i = p.without b i := by
  have hni : n ≠ i :=
    elemAfter?_ne (hp.nodup_code b) (by rwa [hp.next hi] at hn)
  have hne : some i ≠ some n := by simpa using hni.symm
  have hhas : ∀ k ∈ x.sources (some i), p.Has k := fun k hk =>
    hp.has ((hx.mem _ _).mp hk).1.1
  have hout : i ∉ x.sources (some i) := fun hk => ((hx.mem _ _).mp hk).1.2 rfl
  rw [BranchIndex.retarget_eq, if_neg hne, unlink_setTargets
    (hp.has hi) hout hhas, Program.without, hn, Program.redirect, if_neg hne]
  have hu := hp.unlink hi
  apply Program.setTargets_congr
  · intro k hk
    simpa [Program.Has, Program.unlink] using hhas k hk
  · intro k hk
    exact hu.has (Program.mem_branchesTo.mp hk).1
  · intro k
    rw [hx.mem, Program.mem_branchesTo, Program.code_unlink hp hi,
      (hp.nodup_code b).mem_erase_iff, Program.target?, Program.target?,
      Program.instr_unlink (hp.has hi), Set.mem_sdiff, Set.mem_singleton_iff,
      Set.mem_ofPred_eq]
    by_cases hki : k = i
    · simp [hki]
    · simp [hki]

/-- An instruction that no branch goes to is only unlinked. -/
private theorem without_last (hp : p.WellLinked) (hi : i ∈ p.code b)
    (hn : p.next i = none) (hnone : p.branchesTo b (some i) = []) :
    p.without b i = p.unlink b i := by
  have hu : (p.unlink b i).branchesTo b (some i) = [] := by
    rw [List.eq_nil_iff_forall_not_mem]
    intro k hk
    obtain ⟨hkc, hkb, hkt⟩ := Program.mem_branchesTo.mp hk
    rw [Program.code_unlink hp hi, (hp.nodup_code _).mem_erase_iff] at hkc
    rw [Program.instr_unlink (hp.has hi), if_neg hkc.1] at hkb
    rw [Program.target?, Program.instr_unlink (hp.has hi), if_neg hkc.1] at hkt
    have hmem : k ∈ p.branchesTo b (some i) :=
      Program.mem_branchesTo.mpr ⟨hkc.2, hkb, hkt⟩
    rw [hnone] at hmem
    cases hmem
  rw [Program.without, hn, Program.redirect, if_neg (by simp), hu]
  rfl

/-- The index after a deletion. -/
private theorem coherent_without (hp : p.WellLinked) (hi : i ∈ p.code b)
    {q : Program} (hx : x.Files q ({ k | k ∈ p.code b } \ {i}))
    (hq : ∀ k, k ≠ i → (p.without b i).instr k = q.instr k) :
    x.Coherent (p.without b i) b := by
  have hset :
      { k | k ∈ (p.without b i).code b } = { k | k ∈ p.code b } \ {i} := by
    ext k
    exact Program.mem_code_without hp hi
  rw [BranchIndex.Coherent, hset]
  exact hx.congr fun k hk => hq k hk.2

/-- The cursor after `i` has left the body. -/
private theorem forget_store {q : Program} (hprev : q.prev i = s.program.prev i)
    (hnext : q.next i = s.program.next i) : ((s.store x q).forget i).editor =
    { (s.forget i).editor with index := some x } := by
  simp only [forget, store, hprev, hnext]

/-- Once the index is at hand and `i` is out of it, deleting redirects and
unlinks. -/
private theorem delete_unfiled {y : BranchIndex}
    (htarget : s.editor.target.isSome) (hown : s.own? (some i) = some i)
    (hwith : s.withIndex = (x, s.store x s.program))
    (hguard : ((s.program.next i).isNone && x.isTarget (some i)) = false)
    (hy : (s.store x s.program).unfile x i = .ok y) :
    s.delete (some i) = match (match s.program.next i with
        | some n => y.retarget s.program (some i) (some n)
        | none => (0, y, s.program)) with
      | (_, y, q) =>
        match q.remove s.editor.body (some i) with
        | .error m => (.error (.misuse m), (s.store y q).forget i)
        | .ok r =>
            (.ok (), { (s.store y q).forget i with program := r }.touch) := by
  rw [delete, if_neg (by simpa [Option.isSome_iff_ne_none] using htarget), hown]
  simp only [hwith]
  rw [if_neg (by simpa [store] using hguard), hy]
  rfl

/-- **Deleting.**  What an editor may delete it deletes, and its program is the
one that a scan would have made. -/
theorem delete_eq (h : s.Sound) (htarget : s.editor.target.isSome)
    (hi : i ∈ s.code) (hd : s.Deletable i) :
    ∃ x, x.Coherent (s.program.without s.editor.body i) s.editor.body ∧
      s.delete (some i) = (.ok (), s.deleted i x) := by
  obtain ⟨x, hx, hwith⟩ := h.withIndex
  have hp := h.linked
  obtain ⟨y, hy, hfiles⟩ := unfile_eq (s := s.store x s.program) hi hx
  have hguard : ((s.program.next i).isNone && x.isTarget (some i)) = false := by
    rcases hd with hd | hd
    · simp [Option.isNone_eq_false_iff.mpr hd]
    · have hno : x.isTarget (some i) = false := by
        rw [← Bool.not_eq_true, hx.isTarget_iff, not_not]
        exact hd
      simp [hno]
  rw [delete_unfiled htarget (own?_of_mem h hi) hwith hguard hy]
  cases hn : s.program.next i with
  | none =>
      have hnone : s.program.branchesTo s.editor.body (some i) = [] := by
        rcases hd with hd | hd
        · rw [hn] at hd
          cases hd
        · exact hd
      refine ⟨y, ?_, ?_⟩
      · apply coherent_without hp hi hfiles
        intro k hk
        rw [without_last hp hi hn hnone, Program.instr_unlink (hp.has hi),
          if_neg hk]
        rfl
      · simp only [Program.remove_eq hp hi, touch, forget_store, deleted,
          without_last hp hi hn hnone]
  | some n =>
      have hhas : ∀ k ∈ ({ k | k ∈ s.code } \ {i} : Set InstrId),
          s.program.Has k :=
        fun k hk => hp.has hk.1
      have hsources : ∀ k ∈ y.sources (some i), s.program.Has k :=
        fun k hk => hp.has ((hfiles.mem _ _).mp hk).1.1
      have hni : some i ≠ some n := by
        rw [hp.next hi] at hn
        simpa using (elemAfter?_ne (hp.nodup_code _) hn).symm
      have hprog := unlink_retarget hp hi hfiles hn
      have hret := hfiles.retarget hhas (some i) (some n)
      rw [BranchIndex.retarget_eq, if_neg hni] at hprog hret
      have hlinked := hp.setTargets hsources (some n)
      refine ⟨_, coherent_without hp hi hret ?_, ?_⟩
      · intro k hk
        rw [← hprog, Program.instr_unlink (hlinked.has (by simpa using hi)),
          if_neg hk]
        rfl
      · simp only [BranchIndex.retarget_eq, if_neg hni]
        rw [Program.remove_eq hlinked (by simpa using hi), hprog]
        simp only [touch]
        rw [forget_store (Program.prev_setTargets hsources i)
          (Program.next_setTargets hsources i)]
        rfl

/-- Deleting is refused without a trace, or done. -/
theorem delete_cases (h : s.Sound) (t : Option InstrId) :
    Refused s (s.delete t) ∨
    ∃ i x, t = some i ∧ s.editor.target.isSome ∧ i ∈ s.code ∧ s.Deletable i ∧
      x.Coherent (s.program.without s.editor.body i) s.editor.body ∧
      s.delete t = (.ok (), s.deleted i x) := by
  by_cases htarget : s.editor.target.isSome
  · cases hown : s.own? t with
    | none =>
        left
        rw [delete, if_neg (by simpa [Option.isSome_iff_ne_none] using htarget),
          hown]
        exact ⟨_, _, s, rfl, .refl h⟩
    | some i =>
        obtain ⟨rfl, hi⟩ := (own?_eq_some h).mp hown
        by_cases hd : s.Deletable i
        · obtain ⟨x, hx, heq⟩ := delete_eq h htarget hi hd
          exact Or.inr ⟨i, x, rfl, htarget, hi, hd, hx, heq⟩
        · obtain ⟨x, hx, hwith⟩ := h.withIndex
          have hguard : ((s.program.next i).isNone && x.isTarget (some i)) =
              true := by
            rw [Deletable, not_or] at hd
            have hno : (s.program.next i).isNone = true := by simpa using hd.1
            rw [hno, hx.isTarget_iff.mpr hd.2]
            rfl
          left
          rw [delete,
            if_neg (by simpa [Option.isSome_iff_ne_none] using htarget), hown]
          simp only [hwith]
          rw [if_pos (by simpa [store] using hguard)]
          exact ⟨_, _, _, rfl, untouched_withIndex h hx⟩
  · left
    rw [delete, if_pos (by simpa using htarget)]
    exact ⟨_, _, s, rfl, .refl h⟩

end Delete

/-! ### Replacing -/

/-- `j` is in no body and is no branch to `i`. -/
def Fits (s : Editing) (i j : InstrId) : Prop :=
  s.program.owner j = none ∧
    ((s.program.instr j).isBranch = true → s.program.target? j ≠ some i)

/-- The state after `j` has been put in the place of `i`, `x` being the index
then. -/
def replaced (s : Editing) (i j : InstrId) (x : BranchIndex) : Editing :=
  ⟨s.program.exchange s.editor.body i j,
    { (s.substitute i j).editor with index := some x, dirty := true }⟩

section Replace

variable {p : Program} {b : BodyId} {x : BranchIndex}

/-- The index of the other instructions still holds after the exchange of
`i`. -/
private theorem files_swap (hp : p.WellLinked) (hi : i ∈ p.code b)
    (hj : p.Has j) (hfree : p.owner j = none)
    (hx : x.Files p ({ k | k ∈ p.code b } \ {i})) :
    x.Files (p.swap b i j) ({ k | k ∈ p.code b } \ {i}) := by
  apply hx.congr
  rintro k ⟨hk, hki⟩
  have hkj : k ≠ j := by
    rintro rfl
    exact hp.ne_of_free hk hfree rfl
  rw [Program.instr_swap hp hi hj hfree, if_neg hkj,
    if_neg (by simpa using hki)]

/-- Retargeting the filed branches to `i` after the exchange is what a scan
does. -/
private theorem retarget_swap (hp : p.WellLinked) (hi : i ∈ p.code b)
    (hj : p.Has j) (hfree : p.owner j = none)
    (hself : (p.instr j).isBranch = true → p.target? j ≠ some i)
    (hx : x.Files p ({ k | k ∈ p.code b } \ {i})) :
    (x.retarget (p.swap b i j) (some i) (some j)).2.2 = p.exchange b i j := by
  have hne : some i ≠ some j := by simpa using (hp.ne_of_free hi hfree).symm
  have hswap := hp.swap hi hj hfree
  have hfiles := files_swap hp hi hj hfree hx
  have hmem : ∀ k, k ∈ (p.swap b i j).code b ↔
      k = j ∨ (k ∈ p.code b ∧ k ≠ i) := by
    intro k
    rw [← Program.mem_code_exchange hp hi hfree, Program.exchange,
      Program.code_redirect]
  rw [BranchIndex.retarget_eq, if_neg hne, Program.exchange, Program.redirect,
    if_neg hne]
  apply Program.setTargets_congr
  · intro k hk
    exact hswap.has ((hmem k).mpr (Or.inr ((hfiles.mem _ _).mp hk).1))
  · intro k hk
    exact hswap.has (Program.mem_branchesTo.mp hk).1
  · intro k
    rw [hfiles.mem, Program.mem_branchesTo, hmem]
    constructor
    · rintro ⟨hk, hrest⟩
      exact ⟨Or.inr hk, hrest⟩
    · rintro ⟨rfl | hk, hbr, ht⟩
      · rw [Instr.isBranch, Program.op_swap hp hi hj hfree] at hbr
        rw [Program.target?, Instr.target?, Program.operand_swap hp hi hj hfree]
          at ht
        exact absurd ht (hself hbr)
      · exact ⟨hk, hbr, ht⟩

/-- Once the index is at hand and `i` is out of it, replacing swaps, redirects
and files `j`. -/
private theorem replace_unfiled {x y : BranchIndex}
    (htarget : s.editor.target.isSome) (hown : s.own? (some i) = some i)
    (hguard : ((some j).filter fun j => (s.program.owner j).isNone &&
      !((s.program.instr j).isBranch &&
        decide (s.program.target? j = some i))) = some j)
    (hwith : s.withIndex = (x, s.store x s.program))
    (hy : (s.store x s.program).unfile x i = .ok y)
    (hswap : s.program.replace s.editor.body (some i) (some j) =
      .ok (s.program.swap s.editor.body i j)) : s.replace (some i) (some j) =
    match y.retarget (s.program.swap s.editor.body i j) (some i) (some j) with
      | (_, y, q) =>
        (.ok (), ((s.store (if (q.instr j).isBranch then y.insert q j else
            y) q).substitute i j).touch) := by
  rw [replace, if_neg (by simpa [Option.isSome_iff_ne_none] using htarget),
    hown]
  simp only [hguard, hwith, hy]
  have hstored :
      (s.store x s.program).program.replace (s.store x s.program).editor.body
      (some i) (some j) = .ok (s.program.swap s.editor.body i j) := hswap
  rw [hstored]
  rfl

/-- **Replacing.**  A free instruction takes the place of one of the body, and
the program is the one that a scan would have made. -/
theorem replace_eq (h : s.Sound) (htarget : s.editor.target.isSome)
    (hi : i ∈ s.code) (hj : s.program.Has j) (hfit : s.Fits i j) :
    ∃ x, x.Coherent (s.program.exchange s.editor.body i j) s.editor.body ∧
      s.replace (some i) (some j) = (.ok (), s.replaced i j x) := by
  obtain ⟨hfree, hself⟩ := hfit
  obtain ⟨x, hx, hwith⟩ := h.withIndex
  have hp := h.linked
  obtain ⟨y, hy, hfiles⟩ := unfile_eq (s := s.store x s.program) hi hx
  have hguard : ((some j).filter fun j => (s.program.owner j).isNone &&
      !((s.program.instr j).isBranch &&
        decide (s.program.target? j = some i))) = some j := by
    rw [Option.filter_eq_some_iff]
    refine ⟨rfl, ?_⟩
    rw [hfree]
    by_cases hbr : (s.program.instr j).isBranch = true
    · simp [hbr, hself hbr]
    · simp [hbr]
  have hfiles' : y.Files s.program ({ k | k ∈ s.program.code s.editor.body } \
      {i}) := hfiles
  have hprog := retarget_swap hp hi hj hfree hself hfiles'
  have hswap := hp.swap hi hj hfree
  have hret := (files_swap hp hi hj hfree hfiles').retarget (fun k hk =>
    (Program.changedIn_swap hp hi hj hfree).has (hp.has hk.1)) (some i) (some j)
  rw [replace_unfiled htarget (own?_of_mem h hi) hguard hwith hy
    (Program.replace_eq hp hi hfree)]
  generalize y.retarget (s.program.swap s.editor.body i j) (some i) (some j) = r
    at hprog hret
  obtain ⟨n, z, q⟩ := r
  simp only at hprog hret ⊢
  subst hprog
  have hout :
      j ∉ ({ k | k ∈ s.program.code s.editor.body } \ {i} : Set InstrId) :=
    fun hk => hp.ne_of_free hk.1 hfree rfl
  refine ⟨_, ?_, rfl⟩
  have hset :
      { k | k ∈ (s.program.exchange s.editor.body i j).code s.editor.body } =
      Insert.insert j ({ k | k ∈ s.program.code s.editor.body } \ {i}) := by
    ext k
    exact Program.mem_code_exchange hp hi hfree
  rw [BranchIndex.Coherent, hset]
  exact hret.link hout

/-- Replacing is refused without a trace, or done. -/
theorem replace_cases (h : s.Sound) (old : Option InstrId)
    {new : Option InstrId} (hnew : ∀ j ∈ new, s.program.Has j) :
    Refused s (s.replace old new) ∨ ∃ i j x, old = some i ∧
    new = some j ∧ s.editor.target.isSome ∧ i ∈ s.code ∧ s.Fits i j ∧
    x.Coherent (s.program.exchange s.editor.body i j) s.editor.body ∧
    s.replace old new = (.ok (), s.replaced i j x) := by
  by_cases htarget : s.editor.target.isSome
  · cases hown : s.own? old with
    | none =>
        left
        rw [replace,
          if_neg (by simpa [Option.isSome_iff_ne_none] using htarget), hown]
        exact ⟨_, _, s, rfl, .refl h⟩
    | some i =>
        obtain ⟨rfl, hi⟩ := (own?_eq_some h).mp hown
        cases hfit : new.filter fun j => (s.program.owner j).isNone &&
          !((s.program.instr j).isBranch &&
            decide (s.program.target? j = some i)) with
        | none =>
            left
            rw [replace,
              if_neg (by simpa [Option.isSome_iff_ne_none] using htarget), hown]
            simp only [hfit]
            exact ⟨_, _, s, rfl, .refl h⟩
        | some j =>
            obtain ⟨rfl, hj⟩ := Option.filter_eq_some_iff.mp hfit
            have hfits : s.Fits i j := by
              simp only [Bool.and_eq_true, Option.isNone_iff_eq_none,
                Bool.not_eq_true',
                Bool.and_eq_false_iff, decide_eq_false_iff_not] at hj
              refine ⟨hj.1, fun hbr => ?_⟩
              rcases hj.2 with hno | ht
              · rw [hbr] at hno
                cases hno
              · exact ht
            obtain ⟨x, hx, heq⟩ := replace_eq h htarget hi (hnew j rfl) hfits
            exact Or.inr ⟨i, j, x, rfl, rfl, htarget, hi, hfits, hx, heq⟩
  · left
    rw [replace, if_pos (by simpa using htarget)]
    exact ⟨_, _, s, rfl, .refl h⟩

end Replace

/-! ### Inserting -/

/-- The state after `j` has been linked in front of the mark, `x` being the
index then. -/
def inserted (s : Editing) (mark : Option InstrId) (j : InstrId)
    (x : BranchIndex) : Editing :=
  ⟨s.program.link s.editor.body j (Program.placed mark j s.code),
    { s.editor with index := some x, dirty := true }⟩

/-- An insertion in front of one of its own instructions succeeds. -/
theorem insertBefore_eq (h : s.Sound) {mark : Option InstrId}
    (hmark : ∀ k ∈ mark, k ∈ s.code) (hj : s.program.Has j)
    (hfree : s.program.owner j = none) :
    ∃ x, x.Coherent (s.inserted mark j x).program s.editor.body ∧
      s.insertBefore mark (some j) = (.ok (), s.inserted mark j x) := by
  obtain ⟨x, hx, hwith⟩ := h.withIndex
  have hp := h.linked
  have hout : j ∉ s.code := fun hk => hp.ne_of_free hk hfree rfl
  have hmark' : (mark.isSome && (s.own? mark).isNone) = false := by
    cases mark with
    | none => rfl
    | some k => simp [own?_of_mem h (hmark k rfl)]
  let q := s.program.link s.editor.body j (Program.placed mark j s.code)
  have hins : s.program.insertBefore s.editor.body mark (some j) = .ok q :=
    Program.insertBefore_eq hp hfree hmark
  have hset : { k | k ∈ q.code s.editor.body } =
      Insert.insert j { k | k ∈ s.code } := by
    ext k
    simp only [q, Set.mem_ofPred_eq, Set.mem_insert_iff]
    rw [Program.code_link hp h.present,
      (Program.placed_perm (hp.nodup_code _) hmark).mem_iff, List.mem_cons]
  have hfiles : x.Files q { k | k ∈ s.code } := by
    apply BranchIndex.Files.congr hx
    intro k hk
    rw [Program.instr_link hj, if_neg]
    rintro rfl
    exact hout hk
  refine ⟨if (q.instr j).isBranch then x.insert q j else x, ?_, ?_⟩
  · rw [BranchIndex.Coherent, inserted, hset]
    exact hfiles.link hout
  · rw [insertBefore]
    simp only [Option.filter, hfree, Option.isNone_none, if_true, hmark',
      Bool.false_eq_true, if_false, hwith]
    have hins' : (s.store x s.program).program.insertBefore
        (s.store x s.program).editor.body mark (some j) = .ok q := hins
    rw [hins']
    rfl

/-- Inserting is refused without a trace, or done. -/
theorem insertBefore_cases (h : s.Sound) {mark new : Option InstrId}
    (hnew : ∀ j ∈ new, s.program.Has j) :
    Refused s (s.insertBefore mark new) ∨
    ∃ j x, new = some j ∧ (∀ k ∈ mark, k ∈ s.code) ∧ s.program.owner j = none ∧
      x.Coherent (s.inserted mark j x).program s.editor.body ∧
      s.insertBefore mark new = (.ok (), s.inserted mark j x) := by
  cases hfree : new.filter fun j => (s.program.owner j).isNone with
  | none =>
      left
      rw [insertBefore, hfree]
      exact ⟨_, _, s, rfl, .refl h⟩
  | some j =>
      obtain ⟨rfl, hj⟩ := Option.filter_eq_some_iff.mp hfree
      by_cases hmark : ∀ k ∈ mark, k ∈ s.code
      · have hj' : s.program.owner j = none := by simpa using hj
        obtain ⟨x, hx, heq⟩ := insertBefore_eq h hmark (hnew j rfl) hj'
        exact Or.inr ⟨j, x, rfl, hmark, hj', hx, heq⟩
      · left
        have hmark' : (mark.isSome && (s.own? mark).isNone) = true := by
          cases mark with
          | none => simp at hmark
          | some k =>
              have hno : s.own? (some k) = none := by
                rw [Option.eq_none_iff_forall_ne_some]
                intro i hi
                obtain ⟨hki, hmem⟩ := (own?_eq_some h).mp hi
                cases hki
                exact hmark fun k hk => by cases hk; exact hmem
              simp [hno]
        rw [insertBefore, hfree]
        simp only [hmark', if_true]
        exact ⟨_, _, s, rfl, .refl h⟩

/-! ### Retargeting -/

/-- **Retargeting all.**  The branches that a scan finds are counted and
redirected. -/
theorem retargetAll_eq (h : s.Sound) (old new : Option InstrId) :
    ∃ x n, x.Coherent (s.program.redirect s.editor.body old new) s.editor.body ∧
      n = (if old = new then 0 else
          (s.program.branchesTo s.editor.body old).length) ∧
      s.retargetAll old new =
      (n, ⟨s.program.redirect s.editor.body old new, { s.editor with
        index := some x, dirty := s.editor.dirty || decide (0 < n) }⟩) := by
  obtain ⟨x, hx, hwith⟩ := h.withIndex
  have hcount := hx.retarget_count h.linked old new
  have hprog := hx.retarget_program h.linked old new
  have hret := hx.retarget h.linked old new
  rw [retargetAll]
  simp only [hwith]
  have hopen : x.retarget (s.store x s.program).program old new =
      x.retarget s.program old new := rfl
  rw [hopen]
  generalize x.retarget s.program old new = r at hcount hprog hret
  obtain ⟨n, y, q⟩ := r
  simp only at hcount hprog hret ⊢
  subst hprog
  refine ⟨y, n, hret, hcount, ?_⟩
  by_cases hn : 0 < n
  · simp [hn, store, touch]
  · simp [hn, store]

/-- The state after the branch `i` has been pointed at `t`, `x` being the index
then. -/
def retargeted (s : Editing) (i : InstrId) (t : Option InstrId)
    (x : BranchIndex) : Editing :=
  ⟨s.program.setTarget i t, { s.editor with index := some x, dirty := true }⟩

/-- One of its own branches can be retargeted. -/
theorem retarget_eq (h : s.Sound) (hi : i ∈ s.code)
    (hbr : (s.program.instr i).isBranch = true) (t : Option InstrId) :
    ∃ x, x.Coherent (s.program.setTarget i t) s.editor.body ∧
      s.retarget (some i) t = (.ok (), s.retargeted i t x) := by
  obtain ⟨x, hx, hwith⟩ := h.withIndex
  have hp := h.linked
  have hhas := hp.has hi
  obtain ⟨y, hy, hfiles⟩ := BranchIndex.Files.remove hx hi hbr
  have hinstr := Program.instr_setTarget (t := t) hhas
  have hset : { k | k ∈ (s.program.setTarget i t).code s.editor.body } =
      Insert.insert i ({ k | k ∈ s.program.code s.editor.body } \ {i}) := by
    have hcode : (s.program.setTarget i t).code s.editor.body = s.code :=
      Program.code_setTargets [i]
    have hmem : i ∈ ({ k | k ∈ s.code } : Set InstrId) := hi
    rw [hcode, Set.insert_sdiff_singleton, Set.insert_eq_of_mem hmem]
  have hmoved : y.Files (s.program.setTarget i t)
      ({ k | k ∈ s.program.code s.editor.body } \ {i}) := by
    apply hfiles.congr
    rintro k ⟨-, hki⟩
    rw [hinstr, if_neg (by simpa using hki)]
  have hbr' : ((s.program.setTarget i t).instr i).isBranch = true := by
    rw [hinstr, if_pos rfl]
    exact hbr
  refine ⟨y.insert (s.program.setTarget i t) i, ?_, ?_⟩
  · rw [BranchIndex.Coherent, hset]
    exact hmoved.insert (by simp) hbr'
  · rw [retarget, own?_of_mem h hi]
    simp only [hwith]
    have hy' : x.remove (s.store x s.program).program (some i) = .ok y := hy
    rw [hy']
    rfl

/-- Retargeting a branch is refused without a trace, or done. -/
theorem retarget_cases (h : s.Sound) (b t : Option InstrId) :
    Refused s (s.retarget b t) ∨
    ∃ i x, b = some i ∧ i ∈ s.code ∧ (s.program.instr i).isBranch = true ∧
      x.Coherent (s.program.setTarget i t) s.editor.body ∧
      s.retarget b t = (.ok (), s.retargeted i t x) := by
  cases hown : s.own? b with
  | none =>
      left
      rw [retarget, hown]
      exact ⟨_, _, s, rfl, .refl h⟩
  | some i =>
      obtain ⟨rfl, hi⟩ := (own?_eq_some h).mp hown
      by_cases hbr : (s.program.instr i).isBranch = true
      · obtain ⟨x, hx, heq⟩ := retarget_eq h hi hbr t
        exact Or.inr ⟨i, x, rfl, hi, hbr, hx, heq⟩
      · left
        obtain ⟨x, hx, hwith⟩ := h.withIndex
        rw [retarget, hown]
        simp only [hwith]
        simp only [store, BranchIndex.remove, BranchIndex.branch, hbr, bind,
          Except.bind, Bool.false_eq_true, if_false]
        exact ⟨_, _, _, rfl, untouched_withIndex h hx⟩

/-! ### Queries -/

/-- Asking whether an instruction can be deleted changes nothing. -/
theorem canDelete_eq (h : s.Sound) (i : InstrId) :
    ∃ s', s.canDelete i = (decide (s.Deletable i), s') ∧ Untouched s s' := by
  rw [canDelete]
  by_cases hn : (s.program.next i).isSome
  · refine ⟨s, ?_, .refl h⟩
    have hd : s.Deletable i := Or.inl hn
    simp [hn, hd]
  · obtain ⟨x, hx, hwith⟩ := h.withIndex
    refine ⟨s.store x s.program, ?_, untouched_withIndex h hx⟩
    have hiff : s.Deletable i ↔
        s.program.branchesTo s.editor.body (some i) = [] := by
      simp [Deletable, hn]
    rw [if_neg hn]
    simp only [hwith, Prod.mk.injEq, and_true]
    rw [Bool.eq_iff_iff, Bool.not_eq_true', decide_eq_true_iff, hiff,
      ← Bool.not_eq_true, hx.isTarget_iff, not_not]

/-- Control passes to `i` from nowhere: no branch goes to it, and what stands in
front of it does not fall through. -/
def Unreached (s : Editing) (i : InstrId) : Prop :=
  s.program.branchesTo s.editor.body (some i) = [] ∧
    ∀ k, s.program.prev i = some k → (s.program.instr k).fallsThrough = false

/-- The query lists the branches to `i`, and what stands in front of it if that
falls through and is not among them. -/
theorem sourcesOf_apply (h : s.Sound) (i : InstrId) :
    ∃ x : BranchIndex, x.Coherent s.program s.editor.body ∧
      s.sourcesOf i = (x.sources (some i) ++ ((s.program.prev i).filter fun k =>
        (s.program.instr k).fallsThrough &&
          !((s.program.instr k).kind = .conditionalBranch &&
            s.program.target? k = some i)).toList, s.store x s.program) := by
  obtain ⟨x, hx, hwith⟩ := h.withIndex
  refine ⟨x, hx, ?_⟩
  rw [sourcesOf]
  simp only [hwith]
  rfl

/-- Control can pass to `i` from what the query lists, and from nowhere else. -/
theorem mem_sourcesOf (h : s.Sound) (hi : i ∈ s.code) :
    k ∈ (s.sourcesOf i).1 ↔ k ∈ s.code ∧
    ((s.program.instr k).isBranch = true ∧ s.program.target? k = some i ∨
      s.program.prev i = some k ∧ (s.program.instr k).fallsThrough = true) := by
  obtain ⟨x, hx, heq⟩ := sourcesOf_apply h i
  have hfront : s.program.prev i = some k → k ∈ s.code :=
    fun hk => mem_of_elemBefore? (h.linked.prev hi ▸ hk)
  rw [heq, List.mem_append, hx.mem_sources, Program.mem_branchesTo,
    Option.mem_toList, Option.filter_eq_some_iff, Bool.and_eq_true_iff,
    Bool.not_eq_true', Bool.and_eq_false_iff,
    decide_eq_false_iff_not, decide_eq_false_iff_not]
  constructor
  · rintro (⟨hk, hbr, htarget⟩ | ⟨hprev, hfalls, -⟩)
    · exact ⟨hk, .inl ⟨hbr, htarget⟩⟩
    · exact ⟨hfront hprev, .inr ⟨hprev, hfalls⟩⟩
  · rintro ⟨hk, ⟨hbr, htarget⟩ | ⟨hprev, hfalls⟩⟩
    · exact .inl ⟨hk, hbr, htarget⟩
    · -- a conditional branch to the very next instruction is among the branches
      -- already
      by_cases hcond : (s.program.instr k).kind = .conditionalBranch ∧
          s.program.target? k = some i
      · exact .inl ⟨hk, (Instr.conditional_iff.mp hcond.1).1, hcond.2⟩
      · exact .inr ⟨hprev, hfalls, not_and_or.mp hcond⟩

/-- No source is listed twice. -/
theorem nodup_sourcesOf (h : s.Sound) (i : InstrId) :
    (s.sourcesOf i).1.Nodup := by
  obtain ⟨x, hx, heq⟩ := sourcesOf_apply h i
  rw [heq, List.nodup_append]
  refine ⟨hx.nodup _, Option.toList_nodup _, ?_⟩
  rintro k hk _ hk' rfl
  obtain ⟨-, hbr, htarget⟩ := Program.mem_branchesTo.mp (hx.mem_sources.mp hk)
  rw [Option.mem_toList, Option.filter_eq_some_iff, Bool.and_eq_true_iff] at hk'
  obtain ⟨-, hfalls, hnot⟩ := hk'
  simp [Instr.conditional_iff.mpr ⟨hbr, hfalls⟩, htarget] at hnot

/-- Asking for sources changes nothing, and there are none if it is
unreached. -/
theorem sourcesOf_eq (h : s.Sound) (hi : i ∈ s.code) :
    ∃ sources s', s.sourcesOf i = (sources, s') ∧
      (sources = [] ↔ s.Unreached i) ∧ Untouched s s' := by
  obtain ⟨x, hx, heq⟩ := sourcesOf_apply h i
  have hmem : ∀ k, k ∈ (s.sourcesOf i).1 ↔ _ := fun k => mem_sourcesOf h hi
  rw [heq] at hmem ⊢
  refine ⟨_, _, rfl, ?_, untouched_withIndex h hx⟩
  simp only [List.eq_nil_iff_forall_not_mem, hmem, Unreached,
    Program.mem_branchesTo]
  constructor
  · intro hno
    refine ⟨fun k hk => hno k ⟨hk.1, .inl hk.2⟩, fun k hprev => ?_⟩
    by_contra hfalls
    have hk : k ∈ s.code := mem_of_elemBefore? (h.linked.prev hi ▸ hprev)
    exact hno k ⟨hk, .inr ⟨hprev, by simpa using hfalls⟩⟩
  · rintro ⟨hno, hfront⟩ k ⟨hk, hbranch | ⟨hprev, hfalls⟩⟩
    · exact hno k ⟨hk, hbranch⟩
    · rw [hfront k hprev] at hfalls
      cases hfalls

/-! ### What every edit keeps -/

/-- The cursor stands in the body: position and anchor are instructions of it,
or missing. -/
structure CursorInside (s : Editing) : Prop where
  pos : ∀ i ∈ s.editor.pos, i ∈ s.code
  anchor : ∀ i ∈ s.editor.anchor, i ∈ s.code

/-- The anchor is an instruction of the body besides the one on offer, or
missing. -/
def Anchored (s : Editing) : Prop :=
  ∀ k ∈ s.editor.anchor, k ∈ s.code ∧ s.editor.target ≠ some k

/-- `s'` comes from `s` by changes of the body under edit: it is sound, differs
in that body only, and keeps the cursor inside.  An anchor besides the
instruction on offer stays. -/
structure Evolves (s s' : Editing) : Prop where
  sound : s'.Sound
  changed : Program.ChangedIn s.editor.body s.program s'.program
  method : s'.editor.method = s.editor.method
  body : s'.editor.body = s.editor.body
  inside : s.CursorInside → s'.CursorInside
  anchored : s.Anchored → s'.editor.anchor = s.editor.anchor ∧ s'.Anchored

/-- `s'` comes from `s` by edits. -/
structure Edited (s s' : Editing) : Prop extends Evolves s s' where
  inlined : s'.editor.inlined = s.editor.inlined

theorem Evolves.refl (h : s.Sound) : Evolves s s :=
  ⟨h, .refl _ _, rfl, rfl, id, fun hs => ⟨rfl, hs⟩⟩

/-- One evolution after the other. -/
theorem Evolves.trans {s'' : Editing} (h : Evolves s s') (h' : Evolves s' s'') :
    Evolves s s'' where
  sound := h'.sound
  changed := h.changed.trans (h.body ▸ h'.changed)
  method := h'.method.trans h.method
  body := h'.body.trans h.body
  inside := h'.inside ∘ h.inside
  anchored := by
    intro hs
    obtain ⟨hanchor, hs'⟩ := h.anchored hs
    obtain ⟨hanchor', hs''⟩ := h'.anchored hs'
    exact ⟨hanchor'.trans hanchor, hs''⟩

theorem Edited.refl (h : s.Sound) : Edited s s := ⟨.refl h, rfl⟩

/-- One edit after the other. -/
theorem Edited.trans {s'' : Editing} (h : Edited s s') (h' : Edited s' s'') :
    Edited s s'' :=
  ⟨h.toEvolves.trans h'.toEvolves, h'.inlined.trans h.inlined⟩

/-- Nothing done is an edit. -/
theorem Untouched.edited (h : Untouched s s') : Edited s s' := by
  obtain ⟨hsound, hprogram, heditor⟩ := h
  have hbody : s'.editor.body = s.editor.body := by rw [heditor]
  have hcode : s'.code = s.code := by rw [code, code, hprogram, hbody]
  refine ⟨⟨hsound, ?_, by rw [heditor], hbody, ?_, ?_⟩, by rw [heditor]⟩
  · rw [hprogram]
    exact .refl _ _
  · rintro ⟨hpos, hanchor⟩
    constructor
    · rw [hcode, heditor]
      exact hpos
    · rw [hcode, heditor]
      exact hanchor
  · intro hs
    refine ⟨by rw [heditor], ?_⟩
    rw [Anchored, hcode, heditor]
    exact hs

/-- An edit that is refused is one. -/
theorem Refused.edited {α : Type} {r : Except Fault α × Editing}
    (h : Refused s r) : Edited s r.2 := by
  obtain ⟨_, _, s', rfl, hs⟩ := h
  exact hs.edited

/-- The general case of an edit: a changed program with an index for it. -/
theorem sound_of {q : Program} {e : Editor} (h : s.Sound) (hq : q.WellLinked)
    (hchanged : Program.ChangedIn s.editor.body s.program q)
    (hbody : e.body = s.editor.body)
    (hindex : ∀ x ∈ e.index, x.Coherent q s.editor.body) : Sound ⟨q, e⟩ where
  linked := hq
  present := by
    rw [hbody, hchanged.bodies]
    exact h.present
  index := by
    rw [hbody]
    exact hindex

/-- What has to be shown of an edit. -/
theorem edited_of {q : Program} {e : Editor} (h : s.Sound) (hq : q.WellLinked)
    (hchanged : Program.ChangedIn s.editor.body s.program q)
    (hmethod : e.method = s.editor.method) (hbody : e.body = s.editor.body)
    (hinlined : e.inlined = s.editor.inlined)
    (hindex : ∀ x ∈ e.index, x.Coherent q s.editor.body)
    (hpos : s.CursorInside → ∀ i ∈ e.pos, i ∈ q.code s.editor.body)
    (hanchor : s.CursorInside → ∀ i ∈ e.anchor, i ∈ q.code s.editor.body)
    (hanchored : s.Anchored → e.anchor = s.editor.anchor ∧
      ∀ k ∈ s.editor.anchor, k ∈ q.code s.editor.body ∧ e.target ≠ some k) :
    Edited s ⟨q, e⟩ where
  sound := sound_of h hq hchanged hbody hindex
  changed := hchanged
  method := hmethod
  body := hbody
  inlined := hinlined
  inside := fun hs =>
    ⟨by rw [code, hbody]; exact hpos hs, by rw [code, hbody]; exact hanchor hs⟩
  anchored := by
    intro hs
    obtain ⟨hsame, hstays⟩ := hanchored hs
    refine ⟨hsame, ?_⟩
    rw [Anchored, code, hsame, hbody]
    exact hstays

/-- Code that grows keeps the anchor. -/
theorem anchored_of_subset {q : Program}
    (h : ∀ k ∈ s.code, k ∈ q.code s.editor.body) (hs : s.Anchored) :
    s.editor.anchor = s.editor.anchor ∧ ∀ k ∈ s.editor.anchor,
    k ∈ q.code s.editor.body ∧ s.editor.target ≠ some k :=
  ⟨rfl, fun k hk => ⟨h k (hs k hk).1, (hs k hk).2⟩⟩

/-- The editor is sound after a deletion. -/
theorem sound_deleted (h : s.Sound) (hi : i ∈ s.code) {x : BranchIndex}
    (hx : x.Coherent (s.program.without s.editor.body i) s.editor.body) :
    (s.deleted i x).Sound :=
  sound_of h (h.linked.without hi) (Program.changedIn_without h.linked hi) rfl
    fun y hy => by cases hy; exact hx

/-- The cursor steps back from an instruction that is deleted. -/
theorem CursorInside.deleted (hs : s.CursorInside) (h : s.Sound)
    (hi : i ∈ s.code) (x : BranchIndex) : (s.deleted i x).CursorInside := by
  have hp := h.linked
  -- what the cursor is moved to is still in the body
  have hmoved : ∀ c : Option InstrId, (∀ k ∈ c, k ∈ s.code) →
      ∀ k ∈ (if c = some i then s.program.prev i else c),
        k ∈ (s.program.without s.editor.body i).code s.editor.body := by
    intro c hc k hk
    rw [Program.mem_code_without hp hi]
    split at hk
    · have hprev := hp.prev hi ▸ hk
      exact ⟨mem_of_elemBefore? hprev,
        elemBefore?_ne (hp.nodup_code _) hprev hi⟩
    · next hne =>
        refine ⟨hc k hk, ?_⟩
        rintro rfl
        exact hne hk
  exact ⟨hmoved _ hs.pos, hmoved _ hs.anchor⟩

/-- A deletion of the target is an edit. -/
theorem edited_deleted (h : s.Sound) (htarget : s.editor.target = some i)
    (hi : i ∈ s.code) {x : BranchIndex}
    (hx : x.Coherent (s.program.without s.editor.body i) s.editor.body) :
    Edited s (s.deleted i x) := by
  have hp := h.linked
  refine edited_of h (hp.without hi) (Program.changedIn_without hp hi) rfl rfl
    rfl (fun y hy => by cases hy; exact hx) (fun hs => (hs.deleted h hi x).pos)
    (fun hs => (hs.deleted h hi x).anchor) ?_
  intro hs
  have hne : ∀ k ∈ s.editor.anchor, k ≠ i := by
    rintro k hk rfl
    exact (hs k hk).2 htarget
  exact ⟨if_neg fun hk => hne i hk rfl, fun k hk =>
    ⟨(Program.mem_code_without hp hi).mpr ⟨(hs k hk).1, hne k hk⟩, (hs k hk).2⟩⟩

/-- The editor is sound after a replacement. -/
theorem sound_replaced (h : s.Sound) (hi : i ∈ s.code) (hj : s.program.Has j)
    (hfree : s.program.owner j = none) {x : BranchIndex}
    (hx : x.Coherent (s.program.exchange s.editor.body i j) s.editor.body) :
    (s.replaced i j x).Sound :=
  sound_of h (h.linked.exchange hi hj hfree)
    (Program.changedIn_exchange h.linked hi hj hfree) rfl
    fun y hy => by cases hy; exact hx

/-- The cursor goes from an instruction that is replaced to its replacement. -/
theorem CursorInside.replaced (hs : s.CursorInside) (h : s.Sound)
    (hi : i ∈ s.code) (hfree : s.program.owner j = none) (x : BranchIndex) :
    (s.replaced i j x).CursorInside := by
  have hp := h.linked
  have hmoved : ∀ c : Option InstrId, (∀ k ∈ c, k ∈ s.code) →
      ∀ k ∈ (if c = some i then some j else c),
        k ∈ (s.program.exchange s.editor.body i j).code s.editor.body := by
    intro c hc k hk
    rw [Program.mem_code_exchange hp hi hfree]
    split at hk
    · cases hk
      exact Or.inl rfl
    · next hne =>
        refine Or.inr ⟨hc k hk, ?_⟩
        rintro rfl
        exact hne hk
  exact ⟨hmoved _ hs.pos, hmoved _ hs.anchor⟩

/-- A replacement of the target is an edit. -/
theorem edited_replaced (h : s.Sound) (htarget : s.editor.target = some i)
    (hi : i ∈ s.code) (hj : s.program.Has j) (hfree : s.program.owner j = none)
    {x : BranchIndex}
    (hx : x.Coherent (s.program.exchange s.editor.body i j) s.editor.body) :
    Edited s (s.replaced i j x) := by
  have hp := h.linked
  refine edited_of h (hp.exchange hi hj hfree)
    (Program.changedIn_exchange hp hi hj hfree) rfl rfl rfl (fun y hy => by
      cases hy; exact hx) (fun hs => (hs.replaced h hi hfree x).pos)
    (fun hs => (hs.replaced h hi hfree x).anchor) ?_
  intro hs
  have hne : ∀ k ∈ s.editor.anchor, k ≠ i := by
    rintro k hk rfl
    exact (hs k hk).2 htarget
  refine ⟨if_neg fun hk => hne i hk rfl, fun k hk =>
    ⟨(Program.mem_code_exchange hp hi hfree).mpr
      (Or.inr ⟨(hs k hk).1, hne k hk⟩), ?_⟩⟩
  -- the new target has been in no body
  have hkj : k ≠ j := by
    rintro rfl
    rw [hp.mem_code.mp (hs k hk).1] at hfree
    cases hfree
  change (if s.editor.target = some i then some j else s.editor.target) ≠ some k
  rw [if_pos htarget]
  exact fun heq => hkj (Option.some.inj heq).symm

/-- The code after an insertion. -/
theorem code_inserted (h : s.Sound) (mark : Option InstrId) (x : BranchIndex) :
    (s.inserted mark j x).code = Program.placed mark j s.code :=
  Program.code_link h.linked h.present _

/-- The instructions after an insertion. -/
theorem mem_code_inserted (h : s.Sound) {mark : Option InstrId}
    (hmark : ∀ k ∈ mark, k ∈ s.code) (x : BranchIndex) :
    k ∈ (s.inserted mark j x).code ↔ k = j ∨ k ∈ s.code := by
  rw [code_inserted h,
    (Program.placed_perm (h.linked.nodup_code _) hmark).mem_iff, List.mem_cons]

/-- An insertion is an edit. -/
theorem edited_inserted (h : s.Sound) {mark : Option InstrId}
    (hmark : ∀ k ∈ mark, k ∈ s.code) (hj : s.program.Has j)
    (hfree : s.program.owner j = none) {x : BranchIndex}
    (hx : x.Coherent (s.inserted mark j x).program s.editor.body) :
    Edited s (s.inserted mark j x) :=
  edited_of h (h.linked.place h.present hj hfree hmark)
    (Program.changedIn_link h.present hj hfree _) rfl rfl rfl
    (fun y hy => by cases hy; exact hx)
    (fun hs i hi => (mem_code_inserted h hmark x).mpr (Or.inr (hs.pos i hi)))
    (fun hs i hi => (mem_code_inserted h hmark x).mpr (Or.inr (hs.anchor i hi)))
    (anchored_of_subset
      fun _ hk => (mem_code_inserted h hmark x).mpr (Or.inr hk))

/-- Retargeting a branch is an edit. -/
theorem edited_retargeted (h : s.Sound) (hi : i ∈ s.code)
    (hbr : (s.program.instr i).isBranch = true) {x : BranchIndex}
    (hx : x.Coherent (s.program.setTarget i t) s.editor.body) :
    Edited s (s.retargeted i t x) := by
  have hhas : ∀ k ∈ [i], s.program.Has k := by
    intro k hk
    rw [List.mem_singleton.mp hk]
    exact h.linked.has hi
  have hcode : (s.program.setTarget i t).code s.editor.body = s.code :=
    Program.code_setTargets [i]
  refine edited_of h (h.linked.setTargets hhas t) ?_ rfl rfl rfl
    (fun y hy => by cases hy; exact hx)
    ?_ ?_ (anchored_of_subset fun k hk => by rwa [hcode])
  · have hinstr := Program.instr_setTarget (t := t) (h.linked.has hi)
    refine ⟨rfl, rfl, fun _ _ => rfl,
      by simp [Program.setTarget, Program.setOperand], ?_, ?_, ?_⟩
    · intro k c hk hc
      rw [hinstr, if_neg]
      rintro rfl
      exact hc (h.linked.body_unique hi (h.linked.mem_code.mpr hk))
    · intro k _
      rw [hinstr]
      split
      · next hk => rw [hk]
      · rfl
    · intro k _ hk
      rw [hinstr, if_neg]
      rintro rfl
      rw [hbr] at hk
      cases hk
  · rw [hcode]
    exact fun hs => hs.pos
  · rw [hcode]
    exact fun hs => hs.anchor

/-- Whatever is to be deleted, the editor stays sound. -/
theorem Sound.delete (h : s.Sound) (t : Option InstrId) :
    (s.delete t).2.Sound := by
  rcases delete_cases h t with hno | ⟨i, x, -, -, hi, -, hx, heq⟩
  · exact hno.edited.sound
  · rw [heq]
    exact sound_deleted h hi hx

/-- Whatever is to be replaced, the editor stays sound. -/
theorem Sound.replace (h : s.Sound) {old new : Option InstrId}
    (hnew : ∀ j ∈ new, s.program.Has j) : (s.replace old new).2.Sound := by
  rcases replace_cases h old hnew with hno
    | ⟨i, j, x, -, hj, -, hi, hfit, hx, heq⟩
  · exact hno.edited.sound
  · rw [heq]
    exact sound_replaced h hi (hnew j hj) hfit.1 hx

/-- Wherever something is to be inserted, the editor stays sound. -/
theorem Sound.insertBefore (h : s.Sound) {mark new : Option InstrId}
    (hnew : ∀ j ∈ new, s.program.Has j) :
    (s.insertBefore mark new).2.Sound := by
  rcases insertBefore_cases h hnew with hno | ⟨j, x, hj, hmark, hfree, hx, heq⟩
  · exact hno.edited.sound
  · rw [heq]
    exact (edited_inserted h hmark (hnew j hj) hfree hx).sound

/-- Whatever is to be retargeted, the editor stays sound. -/
theorem Sound.retarget (h : s.Sound) (i t : Option InstrId) :
    (s.retarget i t).2.Sound := by
  rcases retarget_cases h i t with hno | ⟨i, x, -, hi, hbr, hx, heq⟩
  · exact hno.edited.sound
  · rw [heq]
    exact (edited_retargeted h hi hbr hx).sound

/-- Retargeting all branches to an instruction is an edit. -/
theorem edited_retargetAll (h : s.Sound) (old new : Option InstrId) :
    Edited s (s.retargetAll old new).2 := by
  obtain ⟨x, n, hx, -, heq⟩ := retargetAll_eq h old new
  rw [heq]
  refine edited_of h (h.linked.redirect _ _ _) (Program.changedIn_redirect
    h.linked _ _ _) rfl rfl rfl (fun y hy => by cases hy; exact hx) ?_ ?_
    (anchored_of_subset fun k hk => by rwa [Program.code_redirect])
  · rw [Program.code_redirect]
    exact fun hs => hs.pos
  · rw [Program.code_redirect]
    exact fun hs => hs.anchor

/-- Adding a local is an edit. -/
theorem edited_addLocal (h : s.Sound) (type name : String) :
    Edited s (s.addLocal type name).2 := by
  have hcode := Program.code_addLocal h.linked type name h.present
  change Edited s ⟨(s.program.addLocal s.editor.body type name).2,
    { s.editor with dirty := true }⟩
  refine edited_of h (h.linked.addLocal type name h.present)
    (Program.changedIn_addLocal type name h.present) rfl rfl rfl ?_ ?_ ?_
    (anchored_of_subset fun k hk => by rwa [hcode])
  · intro x hx
    rw [BranchIndex.Coherent, hcode]
    exact BranchIndex.Files.congr (h.index x hx) fun _ _ => rfl
  · rw [hcode]
    exact fun hs => hs.pos
  · rw [hcode]
    exact fun hs => hs.anchor

/-- Making an instruction is an edit. -/
theorem edited_newInstr (h : s.Sound) (op : Opcode) (o : Operand) :
    Edited s (s.newInstr op o).2 := by
  have hcode : (s.program.newInstr op o).2.code s.editor.body = s.code := by
    rw [(h.linked.newInstr op o).code, code, h.linked.code]
    rfl
  change Edited s ⟨(s.program.newInstr op o).2, s.editor⟩
  refine edited_of h (h.linked.newInstr op o) (Program.changedIn_newInstr op o)
    rfl rfl rfl ?_ ?_ ?_ (anchored_of_subset fun k hk => by rwa [hcode])
  · intro x hx
    rw [BranchIndex.Coherent, hcode]
    exact BranchIndex.Files.congr (h.index x hx) fun i hi =>
      Program.instr_newInstr_of_has op o (h.linked.has hi)
  · rw [hcode]
    exact fun hs => hs.pos
  · rw [hcode]
    exact fun hs => hs.anchor

/-! ### Moving the cursor -/

/-- A fresh cursor is inside. -/
theorem cursorInside_fresh {p : Program} {m : MethodId} {b : BodyId} :
    (fresh p m b).CursorInside := by
  constructor
  · exact fun i hi => nomatch hi
  · exact fun i hi => nomatch hi

/-- A cursor that is reset is inside. -/
theorem cursorInside_reset : s.reset.CursorInside := by
  constructor
  · exact fun i hi => nomatch hi
  · exact fun i hi => nomatch hi

/-- What is offered next is an instruction of the body. -/
theorem CursorInside.offered (hs : s.CursorInside) (h : s.Sound) :
    ∀ k ∈ s.advance.2.editor.target, k ∈ s.code := by
  intro k hk
  rw [Option.mem_def, Editing.advance] at hk
  cases hpos : s.editor.pos with
  | none =>
      simp only [hpos, h.linked.first?] at hk
      exact List.mem_of_head? hk
  | some i =>
      simp only [hpos, h.linked.next (hs.pos i hpos)] at hk
      exact mem_of_elemAfter? hk

/-- A cursor that moves on stays inside. -/
theorem CursorInside.advance (hs : s.CursorInside) (h : s.Sound) :
    s.advance.2.CursorInside where
  pos := hs.offered h
  anchor := by
    intro k hk
    change (match s.advance.2.editor.target with
      | some i => s.program.prev i
      | none => s.editor.anchor) = some k at hk
    cases htarget : s.advance.2.editor.target with
    | none =>
        rw [htarget] at hk
        exact hs.anchor k hk
    | some i =>
        rw [htarget] at hk
        have hprev : s.program.prev i = some k := hk
        rw [h.linked.prev (hs.offered h i htarget)] at hprev
        exact mem_of_elemBefore? hprev

/-- A cursor that moves back stays inside. -/
theorem CursorInside.rewind (hs : s.CursorInside) (h : s.Sound) :
    s.rewind.CursorInside where
  pos := by
    intro k hk
    obtain ⟨i, hi, hprev⟩ := Option.bind_eq_some_iff.mp hk
    rw [h.linked.prev (hs.anchor i hi)] at hprev
    exact mem_of_elemBefore? hprev
  anchor := hs.anchor

end Editing

end Bytecode
