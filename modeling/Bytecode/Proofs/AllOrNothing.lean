import Bytecode.Proofs.EditHistory

/-!
# Edits do all or nothing

An edit checks its arguments, consults the index and takes a branch out of it
before anything is linked or unlinked, and some of the checks come after the
index has been built.  Whatever check fails: program, cursor and change flag are
as before, and the index shows what it showed, or would have shown had it been
built.

The main statement is `failed_edit_leaves_all`, for every state of a history of
calls. It also says that asking whether an instruction can be deleted answers
whether deleting it succeeds.
-/

namespace Bytecode

namespace Editing

variable {s s' : Editing} {i : InstrId} {e : Fault}

/-- The edits of instructions and branches. -/
inductive Edit where
  | delete (i : Option InstrId)
  | replace (old new : Option InstrId)
  | insertBefore (mark new : Option InstrId)
  | retargetAll (old new : Option InstrId)
  | retarget (i t : Option InstrId)
  deriving DecidableEq

namespace Edit

/-- The edit as a call. -/
def call : Edit → Call
  | .delete i => .delete i
  | .replace old new => .replace old new
  | .insertBefore mark new => .insertBefore mark new
  | .retargetAll old new => .retargetAll old new
  | .retarget i t => .retarget i t

/-- The outcome of the edit. -/
def apply : Edit → Editing → Except Fault Unit × Editing
  | .delete i, s => s.delete i
  | .replace old new, s => s.replace old new
  | .insertBefore mark new, s => s.insertBefore mark new
  | .retargetAll old new, s => (.ok (), (s.retargetAll old new).2)
  | .retarget i t, s => s.retarget i t

/-- An edit leaves what its call leaves. -/
theorem apply_snd (e : Edit) (s : Editing) :
    (e.apply s).2 = e.call.perform s := by
  cases e <;> rfl

end Edit

/-! ### What a failure leaves -/

/-- The edit has been broken off before anything was done. -/
def BrokenOff (s s' : Editing) : Prop := s' = s ∨ s' = s.withIndex.2

section Failing

variable {t mark new : Option InstrId} {circumstances : List String}
  {cause : Cause}

/-- A deletion that fails has been broken off. -/
theorem brokenOff_delete
    (h : s.delete t = (.error (.failed circumstances cause), s')) :
    BrokenOff s s' := by
  rw [delete] at h
  split at h
  · exact Or.inl (Prod.mk.inj h).2.symm
  · split at h
    · exact Or.inl (Prod.mk.inj h).2.symm
    · -- what comes after the index has been taken up is done to `s₁`
      obtain ⟨x, s₁, hwith⟩ : ∃ x s₁, s.withIndex = (x, s₁) := ⟨_, _, rfl⟩
      have hs₁ : s₁ = s.withIndex.2 := by rw [hwith]
      simp only [hwith] at h
      split at h
      · exact Or.inr ((Prod.mk.inj h).2.symm.trans hs₁)
      · split at h
        · exact Or.inr ((Prod.mk.inj h).2.symm.trans hs₁)
        · split at h
          · cases (Prod.mk.inj h).1
          · cases (Prod.mk.inj h).1

/-- So has a replacement. -/
theorem brokenOff_replace
    (h : s.replace t new = (.error (.failed circumstances cause), s')) :
    BrokenOff s s' := by
  rw [replace] at h
  split at h
  · exact Or.inl (Prod.mk.inj h).2.symm
  · split at h
    · exact Or.inl (Prod.mk.inj h).2.symm
    · simp only at h
      split at h
      · exact Or.inl (Prod.mk.inj h).2.symm
      · obtain ⟨x, s₁, hwith⟩ : ∃ x s₁, s.withIndex = (x, s₁) := ⟨_, _, rfl⟩
        have hs₁ : s₁ = s.withIndex.2 := by rw [hwith]
        simp only [hwith] at h
        split at h
        · exact Or.inr ((Prod.mk.inj h).2.symm.trans hs₁)
        · split at h
          · cases (Prod.mk.inj h).1
          · cases (Prod.mk.inj h).1

/-- So has an insertion. -/
theorem brokenOff_insertBefore
    (h : s.insertBefore mark new = (.error (.failed circumstances cause), s')) :
    BrokenOff s s' := by
  rw [insertBefore] at h
  split at h
  · exact Or.inl (Prod.mk.inj h).2.symm
  · split at h
    · exact Or.inl (Prod.mk.inj h).2.symm
    · obtain ⟨x, s₁, hwith⟩ : ∃ x s₁, s.withIndex = (x, s₁) := ⟨_, _, rfl⟩
      simp only [hwith] at h
      split at h
      · cases (Prod.mk.inj h).1
      · cases (Prod.mk.inj h).1

/-- So has a retargeting. -/
theorem brokenOff_retarget
    (h : s.retarget mark t = (.error (.failed circumstances cause), s')) :
    BrokenOff s s' := by
  rw [retarget] at h
  split at h
  · exact Or.inl (Prod.mk.inj h).2.symm
  · obtain ⟨x, s₁, hwith⟩ : ∃ x s₁, s.withIndex = (x, s₁) := ⟨_, _, rfl⟩
    have hs₁ : s₁ = s.withIndex.2 := by rw [hwith]
    simp only [hwith] at h
    split at h
    · exact Or.inr ((Prod.mk.inj h).2.symm.trans hs₁)
    · cases (Prod.mk.inj h).1

end Failing

/-- How an edit can end: it is refused, or it does what it is there for. -/
inductive Outcome (s : Editing) : Edit → Except Fault Unit × Editing → Prop
  | refused {e : Edit}
    {r : Except Fault Unit × Editing} : Refused s r → Outcome s e r
  | deleted {i : InstrId} {x : BranchIndex} : s.editor.target.isSome →
    i ∈ s.code → s.Deletable i → x.Coherent
    (s.program.without s.editor.body i) s.editor.body →
    Outcome s (.delete (some i)) (.ok (), s.deleted i x)
  | replaced {i j : InstrId} {x : BranchIndex} : s.editor.target.isSome →
    i ∈ s.code → s.program.Has j → s.Fits i j →
    x.Coherent (s.program.exchange s.editor.body i j) s.editor.body →
    Outcome s (.replace (some i) (some j)) (.ok (), s.replaced i j x)
  | inserted {mark : Option InstrId} {j : InstrId} {x : BranchIndex} :
      (∀ k ∈ mark, k ∈ s.code) → s.program.Has j → s.program.owner j = none →
      x.Coherent (s.inserted mark j x).program s.editor.body →
      Outcome s (.insertBefore mark (some j)) (.ok (), s.inserted mark j x)
  | redirected {old new : Option InstrId} {s' : Editing} : Edited s s' →
    s'.program = s.program.redirect s.editor.body old new → s'.editor =
    { s.editor with index := s'.editor.index, dirty := s'.editor.dirty } →
    Outcome s (.retargetAll old new) (.ok (), s')
  | retargeted {i : InstrId} {t : Option InstrId}
    {x : BranchIndex} : i ∈ s.code → (s.program.instr i).isBranch = true →
    x.Coherent (s.program.setTarget i t) s.editor.body →
    Outcome s (.retarget (some i) t) (.ok (), s.retargeted i t x)

/-- **Every edit ends in one of these ways.** -/
theorem Sound.outcome (h : s.Sound) (e : Edit)
    (he : ∀ i ∈ e.call.named, s.program.Has i) : Outcome s e (e.apply s) := by
  have hsecond : ∀ {j k : Option InstrId}, (∀ i ∈ j.toList ++ k.toList,
      s.program.Has i) → ∀ i ∈ k, s.program.Has i :=
    fun hall i hi => hall i (List.mem_append_right _ (by simpa using hi))
  cases e with
  | delete i =>
      rcases delete_cases h i with hno | ⟨k, x, rfl, htarget, hk, hd, hx, heq⟩
      · exact .refused hno
      · rw [Edit.apply, heq]
        exact .deleted htarget hk hd hx
  | replace old new =>
      rcases replace_cases h old (hsecond he) with
        hno | ⟨k, j, x, rfl, rfl, htarget, hk, hfit, hx, heq⟩
      · exact .refused hno
      · rw [Edit.apply, heq]
        exact .replaced htarget hk (hsecond he j rfl) hfit hx
  | insertBefore mark new =>
      rcases @insertBefore_cases s h mark new (hsecond he) with
        hno | ⟨j, x, rfl, hmark, hfree, hx, heq⟩
      · exact .refused hno
      · rw [Edit.apply, heq]
        exact .inserted hmark (hsecond he j rfl) hfree hx
  | retargetAll old new =>
      obtain ⟨x, n, -, -, heq⟩ := retargetAll_eq h old new
      have hedited := edited_retargetAll h old new
      rw [heq] at hedited
      rw [Edit.apply, heq]
      exact .redirected hedited rfl rfl
  | retarget i t =>
      rcases retarget_cases h i t with hno | ⟨k, x, rfl, hk, hbr, hx, heq⟩
      · exact .refused hno
      · rw [Edit.apply, heq]
        exact .retargeted hk hbr hx

/-- **An edit that fails is broken off in time.** -/
theorem Sound.brokenOff (h : s.Sound) (e : Edit)
    (he : ∀ i ∈ e.call.named, s.program.Has i) {f : Fault}
    (hf : (e.apply s).1 = .error f) : BrokenOff s (e.apply s).2 := by
  have houtcome := h.outcome e he
  generalize hr : e.apply s = r at houtcome hf
  cases houtcome with
  | refused hno =>
      obtain ⟨circumstances, cause, s', rfl, -⟩ := hno
      cases e with
      | delete => exact brokenOff_delete hr
      | replace => exact brokenOff_replace hr
      | insertBefore => exact brokenOff_insertBefore hr
      | retargetAll => cases (Prod.mk.inj hr).1
      | retarget => exact brokenOff_retarget hr
  | deleted => cases hf
  | replaced => cases hf
  | inserted => cases hf
  | redirected => cases hf
  | retargeted => cases hf

/-! ### What can be observed -/

/-- Everything that can be asked of the editor is as it was. -/
structure AsBefore (s s' : Editing) : Prop where
  /-- The code, the operands and the slots. -/
  program : s'.program = s.program
  /-- The target, the places of the cursor and the change flag. -/
  editor : { s'.editor with index := none } = { s.editor with index := none }
  /-- The branches that the index shows, or shows once it is built. -/
  index : s'.withIndex.1 = s.withIndex.1
  sources : ∀ t, (s'.sourcesOf t).1 = (s.sourcesOf t).1
  nextInstruction : s'.nextInstruction = s.nextInstruction
  /-- What the scan offers next, if it goes on. -/
  advance : s'.advance.1 = s.advance.1 ∧
    s'.advance.2.editor.target = s.advance.2.editor.target
  /-- What the scan offers next, if it steps back. -/
  rewind : s'.rewind.advance.1 = s.rewind.advance.1 ∧
    s'.rewind.advance.2.editor.target = s.rewind.advance.2.editor.target

/-- Nothing done, nothing changed. -/
theorem AsBefore.refl (s : Editing) : AsBefore s s :=
  ⟨rfl, rfl, rfl, fun _ => rfl, rfl, ⟨rfl, rfl⟩, rfl, rfl⟩

/-- Building the index changes no answer. -/
theorem asBefore_withIndex (s : Editing) : AsBefore s s.withIndex.2 := by
  obtain ⟨p, m, b, index, pos, target, anchor, successor, dirty, inlined⟩ := s
  cases index with
  | none => exact ⟨rfl, rfl, rfl, fun _ => rfl, rfl, ⟨rfl, rfl⟩, rfl, rfl⟩
  | some x => exact .refl _

/-- What was broken off has left all as it was. -/
theorem BrokenOff.asBefore (h : BrokenOff s s') : AsBefore s s' := by
  rcases h with rfl | rfl
  · exact .refl _
  · exact asBefore_withIndex s

/-- Deleting an instruction of the body succeeds where the query says so. -/
theorem Sound.delete_iff_canDelete (h : s.Sound)
    (htarget : s.editor.target.isSome) (hi : i ∈ s.code) :
    (s.delete (some i)).1 = .ok () ↔ (s.canDelete i).1 = true := by
  obtain ⟨s', hcan, -⟩ := canDelete_eq h i
  rw [h.editsByScan.delete, hcan, decide_eq_true_iff]
  exact ⟨fun hok => hok.2.2, fun hd => ⟨htarget, hi, hd⟩⟩

/-- **Edits do all or nothing.**  A new editor has received any calls, in any
order and with any arguments, and anything has changed outside its body.  An
edit that fails then, whatever its arguments, leaves everything as it was.  An
instruction of the body that is deleted while there is a target goes exactly if
the query says that it can be deleted, whether or not the query has been made
before. -/
theorem failed_edit_leaves_all {p : Program} {m : MethodId} {b : BodyId}
    (hp : p.WellLinked) (hb : b.index < p.bodies.size)
    (h : History (fresh p m b) s) :
    (∀ (e : Edit) (f : Fault), (∀ i ∈ e.call.named, s.program.Has i) →
      (e.apply s).1 = .error f → AsBefore s (e.apply s).2) ∧
    ∀ i ∈ s.code, s.editor.target.isSome →
    ((s.delete (some i)).1 = .ok () ↔ (s.canDelete i).1 = true) ∧
    (((s.canDelete i).2.delete (some i)).1 = .ok () ↔
      (s.canDelete i).1 = true) := by
  have hsound := h.sound (sound_fresh hp hb m)
  refine ⟨fun e f he hf => (hsound.brokenOff e he hf).asBefore,
    fun i hi htarget => ?_⟩
  obtain ⟨s', hcan, hs'⟩ := canDelete_eq hsound i
  have hi' : i ∈ s'.code := by
    rw [code, hs'.program, hs'.editor]
    exact hi
  have htarget' : s'.editor.target.isSome := by
    rw [hs'.editor]
    exact htarget
  have hd : s'.Deletable i ↔ s.Deletable i := by
    rw [Deletable, Deletable, hs'.program, hs'.editor]
  refine ⟨hsound.delete_iff_canDelete htarget hi, ?_⟩
  rw [hcan, hs'.sound.editsByScan.delete, decide_eq_true_iff, hd]
  exact ⟨fun hok => hok.2.2, fun hd => ⟨htarget', hi', hd⟩⟩

/-- The target has been deleted, a branch goes to itself, and another one to the
last instruction. -/
def cornered : Editing :=
  [.advance, .delete (some ⟨0⟩), .retarget (some ⟨3⟩) (some ⟨3⟩),
    .retarget (some ⟨2⟩) (some ⟨4⟩)].foldl (fun s c => Call.perform c s)
    (fresh meeting ⟨0⟩ ⟨0⟩)

/-- Refused edits of each kind, after edits that went well. -/
theorem failed_edit_leaves_all_cornered :
    meeting.WellLinked ∧ History (fresh meeting ⟨0⟩ ⟨0⟩) cornered ∧
    (∀ e ∈ [.delete none, .delete (some ⟨0⟩), .delete (some ⟨4⟩),
      .replace (some ⟨1⟩) (some ⟨2⟩), .insertBefore (some ⟨5⟩) (some ⟨0⟩),
      .retarget (some ⟨1⟩) none], (Edit.apply e cornered).1 ≠ .ok () ∧
      AsBefore cornered (Edit.apply e cornered).2) ∧
    ((cornered.delete (some ⟨3⟩)).1 = .ok () ↔
      (cornered.canDelete ⟨3⟩).1 = true) := by
  have hp : meeting.WellLinked := by decide
  have h : History (fresh meeting ⟨0⟩ ⟨0⟩) cornered := by
    simp only [cornered, List.foldl_cons, List.foldl_nil]
    refine .call _ (.call _ (.call _ (.call _ .start ?_) ?_) ?_) ?_ <;> decide
  obtain ⟨hfailed, hdelete⟩ := failed_edit_leaves_all hp (by decide) h
  refine ⟨hp, h, fun e he => ?_, (hdelete ⟨3⟩ (by decide) (by decide)).1⟩
  have hnamed : ∀ i ∈ e.call.named, cornered.program.Has i := by
    revert e
    decide
  have herror : (e.apply cornered).1 ≠ .ok () := by
    revert e
    decide
  refine ⟨herror, ?_⟩
  cases hf : (e.apply cornered).1 with
  | error f => exact hfailed e f hnamed hf
  | ok a => exact absurd hf herror

end Editing

end Bytecode
