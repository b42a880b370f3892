import Bytecode.Proofs.Editing

/-!
# Histories of edits

An editor starts on a body without an index and is then called in any order and
with any arguments: edits that succeed, edits that are refused, moves of the
cursor and queries.  In between everything but the body under edit may change.
`History` collects the states that are reached this way.

The main statements are `index_agrees_with_scan`, from the moment the index is
built, it shows in every such state what a scan over the whole body would find,
and the edits redirect the branches that such a scan finds, and
`sourcesOf_lists_predecessors`, the query for where control comes from lists
each instruction of the body from which it can come, once.
-/

namespace Bytecode

namespace Editing

variable {s s' : Editing} {i t : InstrId}

/-- One call on an editor. -/
inductive Call where
  | reset
  | advance
  | rewind
  | addLocal (type name : String)
  | delete (i : Option InstrId)
  | replace (old new : Option InstrId)
  | insertBefore (mark new : Option InstrId)
  | retargetAll (old new : Option InstrId)
  | retarget (i t : Option InstrId)
  | canDelete (i : InstrId)
  /-- Asked about no instruction, the query breaks down, but not before it has
  the index. -/
  | sourcesOf (i : Option InstrId)
  | nextInstruction
  deriving DecidableEq

/-- The instructions that a call names. -/
def Call.named : Call → List InstrId
  | .reset | .advance | .rewind | .addLocal _ _ | .nextInstruction => []
  | .delete i | .sourcesOf i => i.toList
  | .canDelete i => [i]
  | .replace i j | .insertBefore i j | .retargetAll i j | .retarget i j =>
      i.toList ++ j.toList

/-- The state after a call, whether it has succeeded or failed. -/
def Call.perform : Call → Editing → Editing
  | .reset, s => s.reset
  | .advance, s => s.advance.2
  | .rewind, s => s.rewind
  | .addLocal type name, s => (s.addLocal type name).2
  | .delete i, s => (s.delete i).2
  | .replace old new, s => (s.replace old new).2
  | .insertBefore mark new, s => (s.insertBefore mark new).2
  | .retargetAll old new, s => (s.retargetAll old new).2
  | .retarget i t, s => (s.retarget i t).2
  | .canDelete i, s => (s.canDelete i).2
  | .sourcesOf (some i), s => (s.sourcesOf i).2
  | .sourcesOf none, s => s.withIndex.2
  | .nextInstruction, s => s

/-- `q` comes from `p` by changes that leave the body `b` alone. -/
structure ChangedOutside (b : BodyId) (p q : Program) : Prop where
  linked : q.WellLinked
  agree : Program.AgreeOn b p q
  bodies : p.bodies.size ≤ q.bodies.size

/-- The states that an editor can come to from `start`: by calls that name
instructions which have been made, and by changes outside the body. -/
inductive History (start : Editing) : Editing → Prop
  | start : History start start
  | call {s : Editing} (c : Call) : History start s →
    (∀ i ∈ c.named, s.program.Has i) → History start (c.perform s)
  | outside {s : Editing} {q : Program} : History start s →
    ChangedOutside s.editor.body s.program q → History start
    { s with program := q }

/-! ### Every state of a history is sound -/

theorem Sound.perform (h : s.Sound) (c : Call)
    (hc : ∀ i ∈ c.named, s.program.Has i) : (c.perform s).Sound := by
  cases c with
  | reset => exact h.move rfl rfl
  | advance => exact h.move rfl rfl
  | rewind => exact h.move rfl rfl
  | addLocal type name => exact (edited_addLocal h type name).sound
  | delete i => exact h.delete i
  | replace old new =>
      exact h.replace fun j hj =>
        hc j (List.mem_append_right _ (by simpa using hj))
  | insertBefore mark new =>
      exact h.insertBefore fun j hj =>
        hc j (List.mem_append_right _ (by simpa using hj))
  | retargetAll old new => exact (edited_retargetAll h old new).sound
  | retarget i t => exact h.retarget i t
  | canDelete i =>
      obtain ⟨s', heq, hs⟩ := canDelete_eq h i
      rw [Call.perform, heq]
      exact hs.sound
  | sourcesOf i =>
      obtain ⟨x, hx, hwith⟩ := h.withIndex
      have hsound := (untouched_withIndex h hx).sound
      cases i with
      | none =>
          rw [Call.perform, hwith]
          exact hsound
      | some i =>
          rw [Call.perform, sourcesOf, hwith]
          exact hsound
  | nextInstruction => exact h

theorem Sound.outside (h : s.Sound) {q : Program}
    (hq : ChangedOutside s.editor.body s.program q) :
    Sound { s with program := q } where
  linked := hq.linked
  present := lt_of_lt_of_le h.present hq.bodies
  index := fun x hx => (h.index x hx).agree h.linked hq.linked hq.agree

theorem History.sound {start : Editing} (hstart : start.Sound)
    (h : History start s) : s.Sound := by
  induction h with
  | start => exact hstart
  | call c _ hc ih => exact ih.perform c hc
  | outside _ hq ih => exact ih.outside hq

/-! ### The index against a scan -/

/-- What the index shows is what a scan over the body finds: under each target
the branches to it, each once, and no entry without a branch. -/
structure ShowsScan (s : Editing) (x : BranchIndex) : Prop where
  nodup : ∀ t, (x.sources t).Nodup
  sources : ∀ t i, i ∈ x.sources t ↔
    i ∈ s.code ∧ (s.program.instr i).isBranch = true ∧ s.program.target? i = t
  filled : ∀ e ∈ x.entries, e.2 ≠ []
  isTarget : ∀ t, x.isTarget t = true ↔
    ∃ i ∈ s.code, (s.program.instr i).isBranch = true ∧ s.program.target? i = t
  size : x.size = ((s.code.filter
    fun i => (s.program.instr i).isBranch).map s.program.target?).dedup.length
  sizeRebuilt : x.size = (BranchIndex.build s.program s.editor.body).size
  rebuilt : ∀ t,
    (x.sources t).Perm ((BranchIndex.build s.program s.editor.body).sources t)

/-- The edits redirect the branches that a scan finds, and fail where it says
so. -/
structure EditsByScan (s : Editing) : Prop where
  retargetAll : ∀ old new, (s.retargetAll old new).1 =
    (if old = new then 0 else (s.program.branchesTo s.editor.body old).length) ∧
    (s.retargetAll old new).2.program = s.program.redirect s.editor.body old new
  delete : ∀ i, (s.delete (some i)).1 = .ok () ↔
    s.editor.target.isSome ∧ i ∈ s.code ∧ s.Deletable i
  deleted : ∀ i, (s.delete (some i)).1 = .ok () →
    (s.delete (some i)).2.program = s.program.without s.editor.body i
  replace : ∀ i j, s.program.Has j → ((s.replace (some i) (some j)).1 = .ok () ↔
    s.editor.target.isSome ∧ i ∈ s.code ∧ s.Fits i j)
  replaced : ∀ i j, s.program.Has j → (s.replace (some i) (some j)).1 = .ok () →
    (s.replace (some i) (some j)).2.program =
    s.program.exchange s.editor.body i j
  retarget : ∀ i t, (s.retarget (some i) t).1 = .ok () ↔
    i ∈ s.code ∧ (s.program.instr i).isBranch = true
  retargeted : ∀ i t, (s.retarget (some i) t).1 = .ok () →
    (s.retarget (some i) t).2.program = s.program.setTarget i t

theorem Refused.not_ok {α : Type} {r : Except Fault α × Editing}
    (h : Refused s r) (a : α) : r.1 ≠ .ok a := by
  obtain ⟨_, _, s', rfl, -⟩ := h
  simp

theorem Sound.showsScan (h : s.Sound) {x : BranchIndex}
    (hx : x ∈ s.editor.index) : s.ShowsScan x := by
  have hc := h.index x hx
  have hbuild := BranchIndex.coherent_build h.linked s.editor.body
  exact {
    nodup := hc.nodup
    sources := fun t i => hc.mem_sources.trans Program.mem_branchesTo
    filled := hc.tidy.filled
    isTarget := by
      intro t
      rw [hc.isTarget_iff, ← List.isEmpty_eq_false_iff,
        List.isEmpty_eq_false_iff_exists_mem]
      simp only [Program.mem_branchesTo]
    size := hc.size_eq
    sizeRebuilt := hc.size_eq.trans hbuild.size_eq.symm
    rebuilt := fun t =>
      (hc.sources_perm h.linked t).trans (hbuild.sources_perm h.linked t).symm }

private theorem has_some {j : InstrId} (hj : s.program.Has j) :
    ∀ k ∈ some j, s.program.Has k := by
  rintro k ⟨⟩
  exact hj

theorem Sound.editsByScan (h : s.Sound) : s.EditsByScan where
  retargetAll := by
    intro old new
    obtain ⟨x, n, -, hn, heq⟩ := retargetAll_eq h old new
    rw [heq]
    exact ⟨hn, rfl⟩
  delete := by
    intro i
    constructor
    · intro hok
      rcases delete_cases h (some i) with hno | ⟨k, x, hk, htarget, hmem, hd, -⟩
      · exact absurd hok (hno.not_ok ())
      · cases hk
        exact ⟨htarget, hmem, hd⟩
    · rintro ⟨htarget, hmem, hd⟩
      obtain ⟨x, -, heq⟩ := delete_eq h htarget hmem hd
      rw [heq]
  deleted := by
    intro i hok
    rcases delete_cases h (some i) with hno | ⟨k, x, hk, -, -, -, -, heq⟩
    · exact absurd hok (hno.not_ok ())
    · cases hk
      rw [heq]
      rfl
  replace := by
    intro i j hj
    constructor
    · intro hok
      rcases replace_cases h (some i) (has_some hj) with
        hno | ⟨k, l, x, hk, hl, htarget, hmem, hfit, -⟩
      · exact absurd hok (hno.not_ok ())
      · cases hk
        cases hl
        exact ⟨htarget, hmem, hfit⟩
    · rintro ⟨htarget, hmem, hfit⟩
      obtain ⟨x, -, heq⟩ := replace_eq h htarget hmem hj hfit
      rw [heq]
  replaced := by
    intro i j hj hok
    rcases replace_cases h (some i) (has_some hj) with
      hno | ⟨k, l, x, hk, hl, -, -, -, -, heq⟩
    · exact absurd hok (hno.not_ok ())
    · cases hk
      cases hl
      rw [heq]
      rfl
  retarget := by
    intro i t
    constructor
    · intro hok
      rcases retarget_cases h (some i) t with hno | ⟨k, x, hk, hmem, hbr, -⟩
      · exact absurd hok (hno.not_ok ())
      · cases hk
        exact ⟨hmem, hbr⟩
    · rintro ⟨hmem, hbr⟩
      obtain ⟨x, -, heq⟩ := retarget_eq h hmem hbr t
      rw [heq]
  retargeted := by
    intro i t hok
    rcases retarget_cases h (some i) t with hno | ⟨k, x, hk, -, -, -, heq⟩
    · exact absurd hok (hno.not_ok ())
    · cases hk
      rw [heq]
      rfl

/-- **The index agrees with a scan.**  Whatever calls a new editor has received,
in whatever order and with whatever arguments, and whatever has changed outside
its body: once there is an index, it shows what a scan over the body finds, and
with or without one the edits redirect the branches that a scan finds. -/
theorem index_agrees_with_scan {p : Program} {m : MethodId} {b : BodyId}
    (hp : p.WellLinked) (hb : b.index < p.bodies.size)
    (h : History (fresh p m b) s) :
    (∀ x ∈ s.editor.index, s.ShowsScan x) ∧ s.EditsByScan := by
  have hsound := h.sound (sound_fresh hp hb m)
  exact ⟨fun x hx => hsound.showsScan hx, hsound.editsByScan⟩

/-- A body in which two branches go to a third, and a free instruction. -/
def meeting : Program where
  instrs := #[⟨⟨0x52⟩, .target ⟨2⟩, some ⟨0⟩⟩, ⟨.nop, .absent, some ⟨0⟩⟩,
    ⟨.br, .target ⟨0⟩, some ⟨0⟩⟩, ⟨.br, .target ⟨2⟩, some ⟨0⟩⟩,
    ⟨⟨0x70⟩, .absent, some ⟨0⟩⟩, ⟨.nop, .absent, none⟩]
  bodies := #[{ code := [⟨0⟩, ⟨1⟩, ⟨2⟩, ⟨3⟩, ⟨4⟩] }]
  methods := #[{ name := "meeting", body := some ⟨0⟩ }]

/-- The branch where the others meet has been deleted after a query, and the one
behind it, which went on to itself then, replaced. -/
def parted : Editing :=
  [.advance, .sourcesOf (some ⟨2⟩), .delete (some ⟨2⟩), .delete none,
    .replace (some ⟨3⟩) (some ⟨5⟩)].foldl (fun s c => Call.perform c s)
    (fresh meeting ⟨0⟩ ⟨0⟩)

theorem index_agrees_with_scan_parted : meeting.WellLinked ∧
    History (fresh meeting ⟨0⟩ ⟨0⟩) parted ∧
    parted.editor.index = some ⟨[(some ⟨5⟩, [⟨0⟩])]⟩ ∧
    parted.ShowsScan ⟨[(some ⟨5⟩, [⟨0⟩])]⟩ := by
  have hp : meeting.WellLinked := by decide
  have h : History (fresh meeting ⟨0⟩ ⟨0⟩) parted := by
    simp only [parted, List.foldl_cons, List.foldl_nil]
    refine .call _ (.call _ (.call _ (.call _ (.call _ .start ?_) ?_) ?_) ?_)
      ?_ <;> decide
  have hx : parted.editor.index = some ⟨[(some ⟨5⟩, [⟨0⟩])]⟩ := by decide
  exact ⟨hp, h, hx, (index_agrees_with_scan hp (by decide) h).1 _ hx⟩

/-! ### Where control comes from -/

/-- **The query lists the predecessors of an instruction.**  Whatever has been
done with an editor before, and for every instruction of its body: the answer
has each instruction of the body once from which control can pass to that one,
being a branch to it or standing in front of it and not ending there, and
nothing else. -/
theorem sourcesOf_lists_predecessors {p : Program} {m : MethodId} {b : BodyId}
    (hp : p.WellLinked) (hb : b.index < p.bodies.size)
    (h : History (fresh p m b) s) (ht : t ∈ s.code) :
    (s.sourcesOf t).1.Nodup ∧ ∀ x, x ∈ (s.sourcesOf t).1 ↔ x ∈ s.code ∧
    ((s.program.instr x).isBranch = true ∧ s.program.target? x = some t ∨
      (∃ front back, s.code = front ++ x :: t :: back) ∧
      (s.program.instr x).kind ∉ [.branch, .ret, .throws]) := by
  have hsound := h.sound (sound_fresh hp hb m)
  have hnodup : s.code.Nodup := hsound.linked.nodup_code _
  refine ⟨nodup_sourcesOf hsound t, fun x => ?_⟩
  have hfalls : (s.program.instr x).fallsThrough = true ↔
      (s.program.instr x).kind ∉ [.branch, .ret, .throws] := by
    change (s.program.instr x).kind.fallsThrough = true ↔ _
    cases (s.program.instr x).kind <;> decide
  rw [mem_sourcesOf hsound ht, hsound.linked.prev ht, hfalls,
    ← elemAfter?_eq_some_iff hnodup, ← elemBefore?_eq_some_iff hnodup ht]

/-- A conditional branch to the instruction behind it, one from further on, and
a free one. -/
def converging : Program where
  instrs := #[⟨⟨0x52⟩, .target ⟨1⟩, some ⟨0⟩⟩, ⟨.pop, .absent, some ⟨0⟩⟩,
    ⟨⟨0x70⟩, .absent, some ⟨0⟩⟩, ⟨.br, .target ⟨1⟩, some ⟨0⟩⟩,
    ⟨.nop, .absent, none⟩]
  bodies := #[{ code := [⟨0⟩, ⟨1⟩, ⟨2⟩, ⟨3⟩] }]
  methods := #[{ name := "converging", body := some ⟨0⟩ }]

/-- The instruction that the branches go to has been replaced, which they have
followed. -/
def converged : Editing :=
  [.advance, .advance, .replace (some ⟨1⟩) (some ⟨4⟩)].foldl
    (fun s c => Call.perform c s) (fresh converging ⟨0⟩ ⟨0⟩)

/-- The conditional branch in front is listed once, and so is the branch
behind. -/
theorem sourcesOf_lists_predecessors_converged :
    converging.WellLinked ∧ History (fresh converging ⟨0⟩ ⟨0⟩) converged ∧
    (converged.sourcesOf ⟨4⟩).1 = [⟨0⟩, ⟨3⟩] ∧
    (converged.sourcesOf ⟨4⟩).1.Nodup := by
  have hp : converging.WellLinked := by decide
  have h : History (fresh converging ⟨0⟩ ⟨0⟩) converged := by
    simp only [converged, List.foldl_cons, List.foldl_nil]
    refine .call _ (.call _ (.call _ .start ?_) ?_) ?_ <;> decide
  exact ⟨hp, h, by decide,
    (sourcesOf_lists_predecessors hp (by decide) h (by decide)).1⟩

end Editing

end Bytecode
