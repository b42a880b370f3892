import Bytecode.Proofs.Offering

/-!
# Edits keep to their method

What is said about edits elsewhere supposes a sound editor, on well linked code
and with an index that agrees with it.  Some facts need none of that.  Whether
it goes through or fails, an edit leaves the table of methods alone, keeps the
editor with its method and its body, counts no inlined call and does not take
back the note of a change.  `Editing.InPlace` says so, and the passes other than
the inliner are edits of this kind (`Pass.rule_inPlace`).  The inliner counts a
call exactly if it has replaced it, whatever becomes of the copy:
`Inline.takeIn_counted`.
-/

namespace Bytecode

/-! ### Methods stay -/

namespace Program

variable {p q : Program} {b : BodyId} {mark x old : Option InstrId}

/-- Inserting an instruction leaves methods. -/
theorem methods_insertBefore (h : p.insertBefore b mark x = .ok q) :
    q.methods = p.methods := by
  rw [insertBefore] at h
  cases hfree : p.unlinked x with
  | error e =>
      rw [hfree] at h
      cases h
  | ok i =>
      rw [hfree] at h
      cases mark with
      | none => cases hchain : p.chain <;> rw [hchain] at h <;> cases h <;> rfl
      | some k =>
          cases hmark : p.linkedInto b (some k) with
          | error e =>
              cases hchain : p.chain <;> rw [hchain, hmark] at h <;> cases h
          | ok k => cases hchain : p.chain <;> rw [hchain,
              hmark] at h <;> cases h <;> rfl

/-- Removing an instruction leaves methods. -/
theorem methods_remove (h : p.remove b x = .ok q) : q.methods = p.methods := by
  rw [remove] at h
  cases hmark : p.linkedInto b x with
  | error e =>
      rw [hmark] at h
      cases h
  | ok i =>
      rw [hmark] at h
      simp only [bind, Except.bind, chain_modifyInstr] at h
      cases hchain : p.chain <;> rw [hchain] at h <;> cases h <;> rfl

/-- Replacing an instruction leaves methods. -/
theorem methods_replace (h : p.replace b old x = .ok q) :
    q.methods = p.methods := by
  rw [replace] at h
  cases hold : p.linkedInto b old with
  | error e =>
      rw [hold] at h
      cases h
  | ok i =>
      rw [hold] at h
      cases hfree : p.unlinked x with
      | error e =>
          rw [hfree] at h
          cases h
      | ok j =>
          rw [hfree] at h
          change (p.remove b (some i) >>=
            fun p' => p'.insertBefore b (p.next i) x) = _ at h
          cases hremove : p.remove b (some i) with
          | error e =>
              rw [hremove] at h
              cases h
          | ok p' =>
              rw [hremove] at h
              exact (methods_insertBefore h).trans (methods_remove hremove)

end Program

/-- Retargeting branches leaves methods. -/
theorem BranchIndex.methods_retarget (x : BranchIndex) (p : Program)
    (old new : Option InstrId) :
    (x.retarget p old new).2.2.methods = p.methods := by
  rw [retarget_eq]
  split
  · rfl
  · exact Program.methods_setTargets _

/-! ### Edits -/

namespace Editing

variable {s s' t : Editing}

/-- Method, body and the count of inlined calls are the same, and a change that
had been noted still is. -/
structure InPlace (s s' : Editing) : Prop where
  methods : s'.program.methods = s.program.methods
  method : s'.editor.method = s.editor.method
  body : s'.editor.body = s.editor.body
  inlined : s'.editor.inlined = s.editor.inlined
  dirty : s.editor.dirty = true → s'.editor.dirty = true

theorem InPlace.refl (s : Editing) : InPlace s s := ⟨rfl, rfl, rfl, rfl, id⟩

/-- One step in place after the other. -/
theorem InPlace.trans (h : InPlace s s') (h' : InPlace s' t) : InPlace s t where
  methods := h'.methods.trans h.methods
  method := h'.method.trans h.method
  body := h'.body.trans h.body
  inlined := h'.inlined.trans h.inlined
  dirty hs := h'.dirty (h.dirty hs)

/-- Noting a change is in place. -/
theorem InPlace.touched (h : InPlace s s') : InPlace s s'.touch :=
  ⟨h.methods, h.method, h.body, h.inlined, fun _ => rfl⟩

/-- Forgetting an instruction is in place. -/
theorem InPlace.forgotten (h : InPlace s s') (i : InstrId) :
    InPlace s (s'.forget i) :=
  ⟨h.methods, h.method, h.body, h.inlined, h.dirty⟩

/-- Taking one instruction for another is in place. -/
theorem InPlace.substituted (h : InPlace s s') (old new : InstrId) :
    InPlace s (s'.substitute old new) :=
  ⟨h.methods, h.method, h.body, h.inlined, h.dirty⟩

/-- Programs with the same methods are edited in place. -/
theorem InPlace.rewritten (h : InPlace s s') {p : Program}
    (hp : p.methods = s'.program.methods) :
    InPlace s { s' with program := p } :=
  ⟨hp.trans h.methods, h.method, h.body, h.inlined, h.dirty⟩

/-- So are those with another index. -/
theorem InPlace.stored (h : InPlace s s') (x : BranchIndex) {p : Program}
    (hp : p.methods = s'.program.methods) : InPlace s (s'.store x p) :=
  ⟨hp.trans h.methods, h.method, h.body, h.inlined, h.dirty⟩

/-- Removing an instruction is in place, if that succeeds or not. -/
theorem InPlace.removed (h : InPlace s s') (i : InstrId) :
    InPlace s (match s'.program.remove s'.editor.body (some i) with
      | .error m => (.error (.misuse m), s')
      | .ok p => (.ok (),
          { s' with program := p }.touch) : Except Fault Unit × Editing).2 := by
  split
  · exact h
  · next hremove => exact (h.rewritten (Program.methods_remove hremove)).touched

/-- Making an index is in place. -/
theorem inPlace_withIndex (s : Editing) : InPlace s s.withIndex.2 := by
  rw [withIndex]
  cases s.editor.index with
  | some x => exact .refl s
  | none => exact ⟨rfl, rfl, rfl, rfl, id⟩

/-- Making an index is no change. -/
theorem dirty_withIndex (s : Editing) :
    s.withIndex.2.editor.dirty = s.editor.dirty := by
  rw [withIndex]
  cases s.editor.index <;> rfl

/-- Making an instruction is in place. -/
theorem inPlace_newInstr (s : Editing) (op : Opcode) (o : Operand) :
    InPlace s (s.newInstr op o).2 :=
  ⟨rfl, rfl, rfl, rfl, id⟩

/-- Adding a local is in place. -/
theorem inPlace_addLocal (s : Editing) (type name : String) :
    InPlace s (s.addLocal type name).2 :=
  ⟨rfl, rfl, rfl, rfl, fun _ => rfl⟩

/-- Asking whether an instruction can be deleted is in place. -/
theorem inPlace_canDelete (s : Editing) (i : InstrId) :
    InPlace s (s.canDelete i).2 := by
  rw [canDelete]
  split
  · exact .refl s
  · exact inPlace_withIndex s

/-- Deleting an instruction is in place. -/
theorem inPlace_delete (s : Editing) (i : Option InstrId) :
    InPlace s (s.delete i).2 := by
  rw [delete]
  split
  · exact .refl s
  split
  · exact .refl s
  next i _ =>
  have hindex := inPlace_withIndex s
  simp only
  split
  · exact hindex
  split
  · exact hindex
  next x _ =>
  cases s.withIndex.2.program.next i with
  | none => exact ((hindex.stored x rfl).forgotten i).removed i
  | some n =>
      exact ((hindex.stored _ (x.methods_retarget _ _ _)).forgotten i).removed i

/-- The edit keeps its place, and notes a change exactly if it goes through. -/
structure Flags (s : Editing) (x : Except Fault Unit × Editing) : Prop where
  inPlace : InPlace s x.2
  changed : x.1 = .ok () → x.2.editor.dirty = true
  refused : ∀ e, x.1 = .error e → x.2.editor.dirty = s.editor.dirty

/-- A failure need not be flagged. -/
theorem flags_error (h : InPlace s s')
    (hdirty : s'.editor.dirty = s.editor.dirty) (e : Fault) :
    Flags s (.error e, s') :=
  ⟨h, fun heq => (by cases heq), fun _ _ => hdirty⟩

/-- A replacement that succeeds is flagged. -/
theorem flags_replace (s : Editing) (old new : Option InstrId) :
    Flags s (s.replace old new) := by
  rw [replace]
  split
  · exact flags_error (.refl s) rfl _
  split
  · exact flags_error (.refl s) rfl _
  next i _ =>
  simp only
  split
  · exact flags_error (.refl s) rfl _
  next j _ =>
  have hindex := inPlace_withIndex s
  have hdirty := dirty_withIndex s
  split
  · exact flags_error hindex hdirty _
  next x _ =>
  split
  · exact flags_error hindex hdirty _
  next p hreplace =>
  have hmethods := (x.methods_retarget p (some i) (some j)).trans
    (Program.methods_replace hreplace)
  refine ⟨((hindex.stored _ hmethods).substituted i j).touched,
    fun _ => rfl, ?_⟩
  exact fun _ he => by cases he

/-- Inserting an instruction is in place. -/
theorem inPlace_insertBefore (s : Editing) (mark new : Option InstrId) :
    InPlace s (s.insertBefore mark new).2 := by
  rw [insertBefore]
  split
  · exact .refl s
  split
  · exact .refl s
  have hindex := inPlace_withIndex s
  simp only
  split
  · exact hindex
  · next hinsert =>
      exact (hindex.stored _ (Program.methods_insertBefore hinsert)).touched

/-- Retargeting branches is in place. -/
theorem inPlace_retargetAll (s : Editing) (old new : Option InstrId) :
    InPlace s (s.retargetAll old new).2 := by
  have hstored := (inPlace_withIndex s).stored
    (s.withIndex.1.retarget s.withIndex.2.program old new).2.1
    (s.withIndex.1.methods_retarget s.withIndex.2.program old new)
  rw [retargetAll]
  simp only
  split
  · exact hstored.touched
  · exact hstored

/-- Retargeting a branch is in place. -/
theorem inPlace_retarget (s : Editing) (i t : Option InstrId) :
    InPlace s (s.retarget i t).2 := by
  rw [retarget]
  split
  · exact .refl s
  have hindex := inPlace_withIndex s
  simp only
  split
  · exact hindex
  next j _ _ x _ =>
  have hset : (s.withIndex.2.program.setTarget j t).methods =
      s.withIndex.2.program.methods := rfl
  exact (hindex.stored _ hset).touched

end Editing

/-! ### Passes -/

namespace Peephole

open Editing

variable {s : Editing}

/-- Copying a return is in place. -/
theorem inPlace_branchToReturn (s : Editing) :
    InPlace s (branchToReturn s).2 := by
  rw [branchToReturn]
  split
  · exact .refl s
  next i _ =>
  simp only
  split
  · exact .refl s
  split
  · exact .refl s
  next t _ =>
  split
  · exact (inPlace_newInstr s _ _).trans (flags_replace _ (some i) _).inPlace
  · exact .refl s

/-- Inserting pops is in place. -/
theorem inPlace_insertPops (mark : InstrId) (n : Nat) (s : Editing) :
    InPlace s (insertPops mark n s).2 := by
  induction n generalizing s with
  | zero => exact .refl s
  | succ n ih =>
      have hinsert := (inPlace_newInstr s .pop .absent).trans
        (inPlace_insertBefore _ (some mark) (some (s.newInstr .pop .absent).1))
      rw [insertPops]
      simp only
      generalize (s.newInstr .pop .absent).2.insertBefore (some mark)
        (some (s.newInstr .pop .absent).1) = x at hinsert
      obtain ⟨e | ⟨⟩, s'⟩ := x
      · exact hinsert
      · exact hinsert.trans (ih s')

/-- Removing a degenerate branch is in place. -/
theorem inPlace_removeDegenerateBranch (s : Editing) :
    InPlace s (removeDegenerateBranch s).2 := by
  rw [removeDegenerateBranch]
  split
  · exact .refl s
  next i _ =>
  simp only
  split
  · exact .refl s
  split
  · exact .refl s
  split
  · exact inPlace_delete s _
  next n _ =>
  have hreplace := (inPlace_newInstr s .pop .absent).trans
    (flags_replace _ (some i) (some (s.newInstr .pop .absent).1)).inPlace
  generalize (s.newInstr .pop .absent).2.replace (some i)
    (some (s.newInstr .pop .absent).1) = x at hreplace
  obtain ⟨e | ⟨⟩, s'⟩ := x
  · exact hreplace
  · exact hreplace.trans (inPlace_insertPops _ n s')

/-- Removing a nop is in place. -/
theorem inPlace_removeNop (s : Editing) : InPlace s (removeNop s).2 := by
  rw [removeNop]
  split
  · exact .refl s
  next i _ =>
  split
  · exact .refl s
  have hquery := inPlace_canDelete s i
  simp only
  split
  · exact hquery.trans (inPlace_delete _ _)
  · exact hquery

/-- Removing dead code is in place. -/
theorem inPlace_removeDeadCode (s : Editing) :
    InPlace s (removeDeadCode s).2 := by
  rw [removeDeadCode]
  split
  · exact .refl s
  next i _ =>
  split
  · exact .refl s
  have hquery : InPlace s (s.sourcesOf i).2 := inPlace_withIndex s
  simp only
  split
  · exact hquery.trans (inPlace_delete _ _)
  · exact hquery

/-- Retargeting a double branch is in place. -/
theorem inPlace_retargetDoubleBranch (s : Editing) :
    InPlace s (retargetDoubleBranch s).2 := by
  rw [retargetDoubleBranch]
  split
  · exact .refl s
  simp only
  split
  · exact .refl s
  split
  · exact .refl s
  split
  · exact .refl s
  · exact inPlace_retarget s _ _

end Peephole

/-- A pass other than the inliner is an edit in its place. -/
theorem Pass.rule_inPlace {σ : Type} (cfg : InlineSettings) {pass : Pass}
    (hpass : pass ≠ .inlineFunctionCall) :
    ∃ f : Editing → Except Fault Unit × Editing,
      (∀ s, Editing.InPlace s (f s).2) ∧ ∀ optimize,
      ((pass.rule cfg).apply optimize : VisitM σ Unit) = Visit.tryEdit f := by
  cases pass with
  | branchToReturn =>
      exact ⟨Peephole.branchToReturn, Peephole.inPlace_branchToReturn,
        fun _ => rfl⟩
  | inlineFunctionCall => exact absurd rfl hpass
  | removeDegenerateBranch =>
      exact ⟨Peephole.removeDegenerateBranch,
        Peephole.inPlace_removeDegenerateBranch, fun _ => rfl⟩
  | removeNop =>
      exact ⟨Peephole.removeNop, Peephole.inPlace_removeNop, fun _ => rfl⟩
  | removeDeadCode =>
      exact ⟨Peephole.removeDeadCode, Peephole.inPlace_removeDeadCode,
        fun _ => rfl⟩
  | retargetDoubleBranch =>
      exact ⟨Peephole.retargetDoubleBranch,
        Peephole.inPlace_retargetDoubleBranch, fun _ => rfl⟩

namespace Inline

open Editing

/-- A call that has been replaced is flagged. -/
theorem flags_replaceCall (call : InstrId) (s : Editing) :
    Flags s (replaceCall call s) := by
  have hnew := inPlace_newInstr s .nop .absent
  have h := flags_replace (s.newInstr .nop .absent).2 (some call)
    (some (s.newInstr .nop .absent).1)
  exact ⟨hnew.trans h.inPlace, h.changed, h.refused⟩

/-- Copying code is in place. -/
theorem inPlace_copyCode (base : Nat) (anchor : InstrId) (code : List InstrId)
    (copies : List (InstrId × InstrId)) (s : Editing) :
    InPlace s (copyCode base anchor code copies s).2 := by
  induction code generalizing copies s with
  | nil => exact .refl s
  | cons i rest ih =>
      rw [copyCode]
      simp only
      split
      · exact inPlace_retargetAll s _ _
      split
      · exact .refl s
      next op operand _ =>
      have hinsert := (inPlace_newInstr s op operand).trans
        (inPlace_insertBefore _ (some anchor) (some (s.newInstr op operand).1))
      generalize (s.newInstr op operand).2.insertBefore (some anchor)
        (some (s.newInstr op operand).1) = x at hinsert
      obtain ⟨e | ⟨⟩, s'⟩ := x
      · exact hinsert
      · exact (hinsert.trans (inPlace_retargetAll s' _ _)).trans (ih _ _)

/-- Adding locals is in place. -/
theorem inPlace_addLocals (locals : List Local) (s : Editing) :
    InPlace s (locals.foldl (fun s l => (s.addLocal l.type l.name).2) s) := by
  induction locals generalizing s with
  | nil => exact .refl s
  | cons l rest ih => exact (inPlace_addLocal s l.type l.name).trans (ih _)

/-- Copying a body is in place. -/
theorem inPlace_copyBody (b : BodyId) (anchor : InstrId) (s : Editing) :
    InPlace s (copyBody b anchor s).2 := by
  rw [copyBody]
  simp only
  split
  · exact .refl s
  split
  · exact .refl s
  rw [← Array.foldl_toList]
  exact (inPlace_addLocals _ s).trans (inPlace_copyCode _ _ _ _ _)

end Inline

namespace Inline

open Editing

variable {σ : Type} {v v' : Visit σ} {call anchor : InstrId} {b : BodyId}

/-- The call has been replaced, and one more has been counted. -/
structure Counted (v v' : Visit σ) : Prop where
  methods : v'.session.program.methods = v.session.program.methods
  session : v'.session = { v.session with
    program := v'.session.program
    stats := { v.session.stats with inlined := v.session.stats.inlined + 1 } }
  method : v'.editor.method = v.editor.method
  body : v'.editor.body = v.editor.body
  inlined : v'.editor.inlined = v.editor.inlined + 1
  dirty : v'.editor.dirty = true

/-- Once the call has been replaced it is counted, whatever becomes of the
copy. -/
theorem takeIn_counted (call : InstrId) (b : BodyId) (anchor : InstrId)
    (v : Visit σ) :
    (∃ e s, takeIn call b anchor v = (.error e, v.setEditing s) ∧
      v.editing.InPlace s ∧ s.editor.dirty = v.editor.dirty) ∨
    Counted v (takeIn call b anchor v).2 := by
  have hreplace := flags_replaceCall call v.editing
  rw [takeIn_apply]
  generalize replaceCall call v.editing = x at hreplace
  obtain ⟨e | ⟨⟩, s⟩ := x
  · exact Or.inl ⟨e, s, rfl, hreplace.inPlace, hreplace.refused e rfl⟩
  · have hcopy := inPlace_copyBody b anchor (noted s)
    exact Or.inr {
      methods := hcopy.methods.trans hreplace.inPlace.methods
      session := rfl
      method := hcopy.method.trans hreplace.inPlace.method
      body := hcopy.body.trans hreplace.inPlace.body
      inlined := hcopy.inlined.trans (congrArg (· + 1) hreplace.inPlace.inlined)
      dirty := hcopy.dirty (hreplace.changed rfl) }

end Inline

end Bytecode
