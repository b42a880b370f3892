import Bytecode.Proofs.Coherence

/-!
# Filing branches

A branch index by itself, without a body or an editor.  Branches are filed and
dropped in any order, the same one also several times, and all that is filed
under one target is moved to another, which changes the operands of these
branches.  In between anything else may happen to the program, as long as
branches keep their targets.

A branch that is filed several times is moved with all its filings, so that all
of them are under its present target: `Settled` is what every call preserves.
With it a call that succeeds changes how often one branch is filed, and moving
changes it for none, `filings_perform`.  The main statement is `filed_as_added`:
after any calls a branch is filed as often as it has been added without being
removed, and nowhere but under its target.
-/

namespace Bytecode

namespace BranchIndex

variable {b i : InstrId} {t old new : Option InstrId}

/-! ### Calls -/

/-- An index, and the program whose branches are filed in it. -/
structure Filing where
  index : BranchIndex := {}
  program : Program

/-- A call that may change an index. -/
inductive Call where
  | add (i : Option InstrId)
  | remove (i : Option InstrId)
  | retarget (old new : Option InstrId)
  deriving DecidableEq

/-- Puts a changed index in the place of the one there is, unless the change has
failed. -/
def Filing.attempt (s : Filing) :
    Except Fault BranchIndex → Except Fault Nat × Filing
  | .ok x => (.ok 0, { s with index := x })
  | .error e => (.error e, s)

/-- Carries out a call.  The answer is how many filings have been moved. -/
def Call.perform : Call → Filing → Except Fault Nat × Filing
  | .add i, s => s.attempt (s.index.add s.program i)
  | .remove i, s => s.attempt (s.index.remove s.program i)
  | .retarget old new, s =>
    let (n, x, p) := s.index.retarget s.program old new
    (.ok n, ⟨x, p⟩)

/-- Calls with their answers, the latest first. -/
abbrev Answered := List (Call × Except Fault Nat)

/-- How often a call has succeeded. -/
def Answered.successes (log : Answered) (c : Call) : Nat :=
  log.countP fun e => e.1 = c && e.2.isOk

/-- The branches of one program are branches of the other, with the same
targets. -/
def KeepsBranches (p q : Program) : Prop :=
  ∀ i, (p.instr i).isBranch = true → (q.instr i).isBranch = true ∧
    q.target? i = p.target? i

/-- What an index that was empty at the beginning can come to: by calls, and by
changes of the program that keep the branches. -/
inductive FiledBy (start : Program) : Answered → Filing → Prop
  | start : FiledBy start [] ⟨{}, start⟩
  | call {log : Answered} {s : Filing} (c : Call) : FiledBy start log s →
      FiledBy start ((c, (c.perform s).1) :: log) (c.perform s).2
  | elsewhere
    {log : Answered} {s : Filing} {q : Program} : FiledBy start log s →
    KeepsBranches s.program q → FiledBy start log { s with program := q }

/-- How often a branch is filed under its target. -/
def Filing.filings (s : Filing) (b : InstrId) : Nat :=
  (s.index.sources (s.program.target? b)).count b

/-- An index with a branch filed once more. -/
def Filing.added (s : Filing) (b : InstrId) : Filing :=
  { s with index := s.index.insert s.program b }

/-- An index with a filing of a branch taken out. -/
def Filing.removed (s : Filing) (b : InstrId) : Filing :=
  { s with index := s.index.put (s.program.target? b)
             ((s.index.sources (s.program.target? b)).erase b) }

/-- An index with all that was filed under `old` filed under `new`, and these
branches pointed there. -/
def Filing.moved (s : Filing) (old new : Option InstrId) : Filing :=
  ⟨(s.index.retarget s.program old new).2.1,
    (s.index.retarget s.program old new).2.2⟩

/-! ### What comes of a call -/

section Answers

variable {s : Filing} {c : Call}

/-- A branch can be added. -/
theorem perform_add (hb : (s.program.instr b).isBranch = true) :
    (Call.add (some b)).perform s = (.ok 0, s.added b) := by
  simp [Call.perform, Filing.attempt, Filing.added, add, branch, hb, bind,
    Except.bind, pure, Except.pure]

/-- A branch that is filed can be removed. -/
theorem perform_remove (hb : (s.program.instr b).isBranch = true)
    (hfiled : 0 < s.filings b) :
    (Call.remove (some b)).perform s = (.ok 0, s.removed b) := by
  have hmem : b ∈ s.index.sources (s.program.target? b) :=
    List.count_pos_iff.mp hfiled
  simp [Call.perform, Filing.attempt, Filing.removed, remove, branch, hb, hmem,
    bind, Except.bind, pure, Except.pure]

/-- A branch that is not filed cannot be removed, and nothing changes. -/
theorem perform_remove_missing (hb : (s.program.instr b).isBranch = true)
    (hmissing : s.filings b = 0) : ∃ cs, (Call.remove (some b)).perform s =
      (.error (.failed cs .notIndexed), s) := by
  have hmem : b ∉ s.index.sources (s.program.target? b) :=
    List.count_eq_zero.mp hmissing
  simp [Call.perform, Filing.attempt, remove, branch, hb, hmem, bind,
    Except.bind, throw, throwThe, MonadExceptOf.throw]

/-- What is no branch can be neither added nor removed. -/
theorem perform_other (hi : ∀ b ∈ t, (s.program.instr b).isBranch = false) :
    (∃ cs, (Call.add t).perform s = (.error (.failed cs .notBranch), s)) ∧
    ∃ cs, (Call.remove t).perform s = (.error (.failed cs .notBranch), s) := by
  cases t with
  | none => exact ⟨⟨_, rfl⟩, ⟨_, rfl⟩⟩
  | some b =>
      have hb := hi b rfl
      constructor <;> simp [Call.perform, Filing.attempt, add, remove, branch,
        hb, bind, Except.bind]

/-- **A call fails without a trace, or does what it is to do.** -/
theorem Call.perform_cases (c : Call) (s : Filing) :
    (∃ e, c.perform s = (.error e, s)) ∨
    (∃ b, c = .add (some b) ∧ (s.program.instr b).isBranch = true ∧
      c.perform s = (.ok 0, s.added b)) ∨ (∃ b, c = .remove (some b) ∧
        0 < s.filings b ∧ c.perform s = (.ok 0, s.removed b)) ∨ (∃ old new n,
          c = .retarget old new ∧ c.perform s = (.ok n, s.moved old new)) := by
  by_cases hother : ∃ t, (c = .add t ∨ c = .remove t) ∧
      ∀ b ∈ t, (s.program.instr b).isBranch = false
  · obtain ⟨t, rfl | rfl, ht⟩ := hother
    · obtain ⟨cs, h⟩ := (perform_other ht).1
      exact .inl ⟨_, h⟩
    · obtain ⟨cs, h⟩ := (perform_other ht).2
      exact .inl ⟨_, h⟩
  have hbranch : ∀ t, c = .add t ∨ c = .remove t →
      ∃ b, t = some b ∧ (s.program.instr b).isBranch = true := by
    intro t ht
    by_contra hno
    refine hother ⟨t, ht, fun b hb => ?_⟩
    by_contra hbr
    exact hno ⟨b, hb, by simpa using hbr⟩
  cases c with
  | add t =>
      obtain ⟨b, rfl, hb⟩ := hbranch t (.inl rfl)
      exact .inr (.inl ⟨b, rfl, hb, perform_add hb⟩)
  | remove t =>
      obtain ⟨b, rfl, hb⟩ := hbranch t (.inr rfl)
      rcases Nat.eq_zero_or_pos (s.filings b) with hmissing | hfiled
      · obtain ⟨cs, h⟩ := perform_remove_missing hb hmissing
        exact .inl ⟨_, h⟩
      · exact .inr (.inr (.inl ⟨b, rfl, hfiled, perform_remove hb hfiled⟩))
  | retarget old new => exact .inr (.inr (.inr ⟨old, new, _, rfl, rfl⟩))

/-- One more answer counts if it is a success. -/
theorem Answered.successes_cons (log : Answered) (r : Except Fault Nat)
    (c d : Call) :
    successes ((d, r) :: log) c =
      log.successes c + if d = c ∧ r.isOk = true then 1 else 0 := by
  simp [successes, List.countP_cons]

end Answers

/-! ### What a call preserves -/

/-- Every filing is of a branch and under its target, and no entry is empty. -/
structure Settled (s : Filing) : Prop where
  tidy : s.index.Tidy
  under : ∀ t, ∀ i ∈ s.index.sources t, (s.program.instr i).isBranch = true ∧
    s.program.target? i = t

section Settled

variable {s : Filing}

theorem settled_empty (p : Program) : Settled ⟨{}, p⟩ where
  tidy := ⟨List.nodup_nil, fun _ he => absurd he List.not_mem_nil⟩
  under := fun _ _ hi => absurd hi List.not_mem_nil

/-- The branches that are filed are instructions of the program. -/
theorem Settled.has (h : Settled s) (t : Option InstrId) :
    ∀ i ∈ s.index.sources t, s.program.Has i :=
  fun i hi => Program.has_of_isBranch (h.under t i hi).1

/-- A branch is filed under its target only. -/
theorem Settled.count_eq_zero (h : Settled s) (ht : s.program.target? b ≠ t) :
    (s.index.sources t).count b = 0 :=
  List.count_eq_zero.mpr fun hb => ht (h.under t b hb).2

/-- The entry of a target is given other branches to it. -/
theorem Settled.put (h : Settled s) {l : List InstrId} (hl : ∀ i ∈ l,
      (s.program.instr i).isBranch = true ∧ s.program.target? i = t) :
    Settled { s with index := s.index.put t l } where
  tidy := h.tidy.put t l
  under := by
    intro u i hi
    rw [sources_put] at hi
    split at hi
    · next hu =>
        rw [hu]
        exact hl i hi
    · exact h.under u i hi

/-- What happens to other instructions leaves the index settled. -/
theorem Settled.elsewhere (h : Settled s) {q : Program}
    (hq : KeepsBranches s.program q) : Settled { s with program := q } where
  tidy := h.tidy
  under := by
    intro t i hi
    obtain ⟨hbr, htarget⟩ := h.under t i hi
    exact ⟨(hq i hbr).1, (hq i hbr).2.trans htarget⟩

/-- An index stays settled when a branch is added. -/
theorem Settled.added (h : Settled s)
    (hb : (s.program.instr b).isBranch = true) : Settled (s.added b) := by
  refine h.put fun i hi => ?_
  rcases List.mem_append.mp hi with hi | hi
  · exact h.under _ i hi
  · rw [List.mem_singleton.mp hi]
    exact ⟨hb, rfl⟩

/-- An index stays settled when a branch is removed. -/
theorem Settled.removed (h : Settled s) (b : InstrId) : Settled (s.removed b) :=
  h.put fun i hi => h.under _ i (List.mem_of_mem_erase hi)

section Moved

variable (h : Settled s) (hon : old ≠ new)

include h hon

/-- Branches that are moved get the new target. -/
theorem Settled.instr_moved (k : InstrId) : (s.moved old new).program.instr k =
    if k ∈ s.index.sources old then
      { s.program.instr k with operand := .ofTarget new }
    else s.program.instr k :=
  instr_retarget (h.has old) hon k

/-- Branches stay branches when they are moved. -/
theorem Settled.isBranch_moved (k : InstrId) :
    ((s.moved old new).program.instr k).isBranch =
    (s.program.instr k).isBranch :=
  isBranch_retarget (h.has old) hon k

/-- The targets after branches have been moved. -/
theorem Settled.target?_moved (k : InstrId) :
    (s.moved old new).program.target? k =
    if k ∈ s.index.sources old then new else s.program.target? k :=
  target?_retarget (h.has old) hon k

end Moved

/-- Moving branches to where they are changes nothing. -/
theorem moved_self (t : Option InstrId) : s.moved t t = s := by
  rw [Filing.moved, retarget_eq, if_pos rfl]

/-- Branches that are moved are put behind those that are there. -/
theorem sources_moved (hon : old ≠ new) (t : Option InstrId) :
    (s.moved old new).index.sources t =
    if t = new then s.index.sources new ++ s.index.sources old
    else if t = old then [] else s.index.sources t :=
  sources_retarget hon t

/-- An index stays settled when branches are moved. -/
theorem Settled.moved (h : Settled s) (old new : Option InstrId) :
    Settled (s.moved old new) := by
  by_cases hon : old = new
  · rw [hon, moved_self]
    exact h
  refine ⟨h.tidy.retarget _ _ _, fun t i hi => ?_⟩
  rw [h.isBranch_moved hon, h.target?_moved hon]
  rw [sources_moved hon] at hi
  split at hi
  · next ht =>
      rw [ht]
      rcases List.mem_append.mp hi with hi | hi
      · obtain ⟨hbr, htarget⟩ := h.under new i hi
        refine ⟨hbr, ?_⟩
        rw [if_neg, htarget]
        exact fun hold => hon ((h.under old i hold).2.symm.trans htarget)
      · rw [if_pos hi]
        exact ⟨(h.under old i hi).1, rfl⟩
  · split at hi
    · cases hi
    · next ht =>
        obtain ⟨hbr, htarget⟩ := h.under t i hi
        refine ⟨hbr, ?_⟩
        rw [if_neg, htarget]
        exact fun hold => ht (htarget.symm.trans (h.under old i hold).2)

/-- Moving filings loses none and makes none. -/
theorem Settled.filings_moved (h : Settled s) (old new : Option InstrId)
    (b : InstrId) : (s.moved old new).filings b = s.filings b := by
  by_cases hon : old = new
  · rw [hon, moved_self]
  rw [Filing.filings, h.target?_moved hon, sources_moved hon]
  by_cases hb : b ∈ s.index.sources old
  · have htarget := (h.under old b hb).2
    rw [if_pos hb, if_pos rfl, List.count_append, h.count_eq_zero (t := new)
      (by rwa [htarget]), Filing.filings, htarget, Nat.zero_add]
  · have hold : (s.index.sources old).count b = 0 := List.count_eq_zero.mpr hb
    rw [if_neg hb, Filing.filings]
    split
    · next ht => rw [List.count_append, hold, ht, Nat.add_zero]
    · split
      · next ht => rw [ht, hold, List.count_nil]
      · rfl

/-- One filing more. -/
theorem filings_added (s : Filing) (a b : InstrId) :
    (s.added a).filings b = s.filings b + if a = b then 1 else 0 := by
  rw [Filing.filings, Filing.added, insert, sources_put, Filing.filings]
  by_cases hab : a = b
  · simp [hab]
  · rw [if_neg hab]
    split
    · next ht => rw [List.count_append, ht, List.count_singleton,
        beq_eq_false_iff_ne.mpr hab]; rfl
    · rfl

/-- One filing less. -/
theorem filings_removed (s : Filing) (a b : InstrId) (ha : 0 < s.filings a) :
    (s.removed a).filings b + (if a = b then 1 else 0) = s.filings b := by
  rw [Filing.filings, Filing.removed, sources_put, Filing.filings]
  by_cases hab : a = b
  · subst hab
    rw [if_pos rfl, if_pos rfl, List.count_erase_self]
    exact Nat.sub_add_cancel ha
  · rw [if_neg hab, Nat.add_zero]
    split
    · next ht => rw [List.count_erase_of_ne (Ne.symm hab), ht]
    · rfl

/-- Every call leaves the index settled. -/
theorem Settled.perform (h : Settled s) (c : Call) :
    Settled (c.perform s).2 := by
  rcases c.perform_cases s with ⟨e, heq⟩ | ⟨b, -, hb, heq⟩ | ⟨b, -, -, heq⟩
    | ⟨old, new, n, -, heq⟩
  · rwa [heq]
  · rw [heq]
    exact h.added hb
  · rw [heq]
    exact h.removed b
  · rw [heq]
    exact h.moved old new

/-- **A call changes how often a branch is filed** by what it has succeeded in
with this branch. -/
theorem Settled.filings_perform (h : Settled s) (c : Call) (b : InstrId) :
    (c.perform s).2.filings b +
    (if c = .remove (some b) ∧ (c.perform s).1.isOk = true then 1 else 0) =
    s.filings b + if c = .add (some b) ∧ (c.perform s).1.isOk = true then 1 else
        0 := by
  rcases c.perform_cases s with
    ⟨e, heq⟩ | ⟨a, rfl, -, heq⟩ | ⟨a, rfl, ha, heq⟩ | ⟨old, new, n, rfl, heq⟩
  · rw [heq]
    simp [Except.isOk, Except.toBool]
  · rw [heq]
    simpa [Except.isOk, Except.toBool] using filings_added s a b
  · rw [heq]
    simpa [Except.isOk, Except.toBool] using filings_removed s a b ha
  · rw [heq]
    simpa [Except.isOk, Except.toBool] using h.filings_moved old new b

/-- What happens to other instructions leaves the filings. -/
theorem Settled.filings_elsewhere (h : Settled s) {q : Program}
    (hq : KeepsBranches s.program q) (b : InstrId) :
    Filing.filings { s with program := q } b = s.filings b := by
  by_cases hb : (s.program.instr b).isBranch = true
  · rw [Filing.filings, Filing.filings, (hq b hb).2]
  · -- what is no branch is filed nowhere
    have hnone : ∀ t, (s.index.sources t).count b = 0 :=
      fun t => List.count_eq_zero.mpr fun hm => hb (h.under t b hm).1
    rw [Filing.filings, Filing.filings, hnone, hnone]

end Settled

/-! ### Any calls -/

section FiledBy

variable {start : Program} {log : Answered} {s : Filing}

/-- An index that has been filed by calls is settled. -/
theorem FiledBy.settled (h : FiledBy start log s) : Settled s := by
  induction h with
  | start => exact settled_empty start
  | call c _ ih => exact ih.perform c
  | elsewhere _ hq ih => exact ih.elsewhere hq

/-- A branch is filed as often as it has been added without being removed. -/
theorem FiledBy.filings (h : FiledBy start log s) (b : InstrId) :
    s.filings b + log.successes (.remove (some b)) =
    log.successes (.add (some b)) := by
  induction h with
  | start => rfl
  | @call log s c hs ih =>
      have hstep := hs.settled.filings_perform c b
      rw [Answered.successes_cons, Answered.successes_cons]
      omega
  | elsewhere hs hq ih => rwa [hs.settled.filings_elsewhere hq]

/-- What the entries of an index say about the branches added and removed. -/
structure Accounts (log : Answered) (s : Filing) : Prop where
  filed : ∀ b, (s.index.sources (s.program.target? b)).count b =
    log.successes (.add (some b)) - log.successes (.remove (some b))
  removed_le :
    ∀ b, log.successes (.remove (some b)) ≤ log.successes (.add (some b))
  under : ∀ t, ∀ b ∈ s.index.sources t,
    (s.program.instr b).isBranch = true ∧ s.program.target? b = t
  filled : ∀ e ∈ s.index.entries, e.2 ≠ []
  size : s.index.size = {t | s.index.sources t ≠ []}.ncard

/-- How an index answers each call, and what the call changes. -/
structure Answers (s : Filing) : Prop where
  add : ∀ b, (s.program.instr b).isBranch = true →
    (Call.add (some b)).perform s = (.ok 0, s.added b)
  remove : ∀ b, (s.program.instr b).isBranch = true → 0 < s.filings b →
    (Call.remove (some b)).perform s = (.ok 0, s.removed b)
  missing : ∀ b, (s.program.instr b).isBranch = true → s.filings b = 0 → ∃ cs,
    (Call.remove (some b)).perform s = (.error (.failed cs .notIndexed), s)
  other : ∀ t, (∀ b ∈ t, (s.program.instr b).isBranch = false) →
    (∃ cs, (Call.add t).perform s = (.error (.failed cs .notBranch), s)) ∧
      ∃ cs, (Call.remove t).perform s = (.error (.failed cs .notBranch), s)
  failed : ∀ (c : Call) (e : Fault), (c.perform s).1 = .error e →
    (c.perform s).2 = s
  count : ∀ old new, old ≠ new →
    ((Call.retarget old new).perform s).1 = .ok (s.index.sources old).length
  sources : ∀ old new, old ≠ new → ∀ t,
    ((Call.retarget old new).perform s).2.index.sources t =
      if t = new then s.index.sources new ++ s.index.sources old
      else if t = old then [] else s.index.sources t
  instr : ∀ old new, old ≠ new →
    ∀ b, ((Call.retarget old new).perform s).2.program.instr b =
    if b ∈ s.index.sources old then
      { s.program.instr b with operand := .ofTarget new }
      else s.program.instr b

/-- The size of a settled index counts the targets that have branches. -/
theorem Settled.size_eq (h : Settled s) :
    s.index.size = {t | s.index.sources t ≠ []}.ncard := by
  have hset : {t | s.index.sources t ≠ []} =
      ((s.index.entries.map (·.1)).toFinset : Set _) := by
    ext t
    rw [Finset.mem_coe, List.mem_toFinset, h.tidy.mem_keys]
    rfl
  rw [hset, Set.ncard_coe_finset, List.toFinset_card_of_nodup h.tidy.keys,
    List.length_map, size]

/-- A settled index answers as it should. -/
theorem Settled.answers (h : Settled s) : Answers s where
  add := fun _ hb => perform_add hb
  remove := fun _ hb hfiled => perform_remove hb hfiled
  missing := fun _ hb hmissing => perform_remove_missing hb hmissing
  other := fun _ ht => perform_other ht
  failed := by
    intro c e hfail
    rcases c.perform_cases s with ⟨e', heq⟩ | ⟨b, -, -, heq⟩ | ⟨b, -, -, heq⟩
      | ⟨_, _, n, -, heq⟩
    · rw [heq]
    all_goals
      rw [heq] at hfail
      cases hfail
  count := by
    intro old new hon
    change Except.ok (s.index.retarget s.program old new).1 = _
    rw [retarget_eq, if_neg hon]
  sources := fun _ _ hon => sources_moved hon
  instr := fun _ _ hon => h.instr_moved hon

/-- **Branches are filed as often as they have been added without being
removed**, under their targets and nowhere else, however often they have been
moved; and every call is answered by what is filed. -/
theorem filed_as_added (h : FiledBy start log s) :
    Accounts log s ∧ Answers s := by
  have hsettled := h.settled
  refine ⟨⟨fun b => ?_, fun b => ?_, hsettled.under, hsettled.tidy.filled,
    hsettled.size_eq⟩, hsettled.answers⟩
  · exact Nat.eq_sub_of_add_eq (h.filings b)
  · exact Nat.le.intro ((Nat.add_comm _ _).trans (h.filings b))

end FiledBy

/-- Two branches, what they go to, and something else. -/
def junction : Program where
  instrs := #[⟨.br, .target ⟨2⟩, none⟩, ⟨⟨0x52⟩, .target ⟨3⟩, none⟩,
    ⟨.nop, .absent, none⟩, ⟨⟨0x70⟩, .absent, none⟩]

/-- The first branch has been added twice and removed once, and moved to the
target of the second in between; what is no branch has been refused. -/
def rerouted : Answered × Filing :=
  [.add (some ⟨0⟩), .add (some ⟨1⟩), .add (some ⟨0⟩), .add (some ⟨2⟩),
    .retarget (some ⟨2⟩) (some ⟨3⟩), .remove (some ⟨0⟩), .remove none].foldl
    (fun r c => ((c, (Call.perform c r.2).1) :: r.1, (Call.perform c r.2).2))
    ([], ⟨{}, junction⟩)

theorem filed_as_added_rerouted : FiledBy junction rerouted.1 rerouted.2 ∧
    rerouted.2.index = ⟨[(some ⟨3⟩, [⟨1⟩, ⟨0⟩])]⟩ ∧
    rerouted.1.successes (.add (some ⟨0⟩)) = 2 ∧
    Accounts rerouted.1 rerouted.2 ∧ Answers rerouted.2 := by
  have h : FiledBy junction rerouted.1 rerouted.2 := by
    simp only [rerouted, List.foldl_cons, List.foldl_nil]
    exact
      .call _ (.call _ (.call _ (.call _ (.call _ (.call _ (.call _ .start))))))
  exact ⟨h, by decide, by decide, filed_as_added h⟩

end BranchIndex

end Bytecode
