import Bytecode.Proofs.AllOrNothing
import Bytecode.Proofs.Firing

/-!
# Looking ahead in a body that changes

A pass that has been offered an instruction may delete it, replace it and change
what stands around it, and may ask at any time for the instruction behind the
target.  The cursor has four references into the body: the last instruction
handed out, the target, the anchor in front of it, and the successor, which is
noted when the target is deleted.

Position and anchor follow every edit, so that the scan goes on inside the body,
`History.cursorInside`.  The successor does not: an edit that takes it out of
the body while the target is out leaves it where it was, `forgets_successor`.
These are the only edits with that effect.  The main statement is
`next_instruction_in_body`: in a round without them, what stands behind the
target is an instruction of the body, or nothing.
-/

namespace Bytecode

namespace Editing

variable {s s' start : Editing} {i j k t : InstrId}

/-! ### Position and anchor -/

/-- Every edit takes the cursor along. -/
theorem CursorInside.apply (hs : s.CursorInside) (h : s.Sound) (e : Edit)
    (he : ∀ i ∈ e.call.named, s.program.Has i) :
    (e.apply s).2.CursorInside := by
  have houtcome := h.outcome e he
  generalize e.apply s = r at houtcome
  cases houtcome with
  | refused hno => exact hno.edited.inside hs
  | deleted _ hi => exact hs.deleted h hi _
  | replaced _ hi _ hfit => exact hs.replaced h hi hfit.1 _
  | inserted hmark hj hfree hx =>
      exact (edited_inserted h hmark hj hfree hx).inside hs
  | redirected hs' => exact hs'.inside hs
  | retargeted hi hbr hx => exact (edited_retargeted h hi hbr hx).inside hs

/-- Making an index leaves the cursor. -/
theorem CursorInside.withIndex (hs : s.CursorInside) (h : s.Sound) :
    s.withIndex.2.CursorInside := by
  obtain ⟨x, hx, hwith⟩ := h.withIndex
  rw [hwith]
  exact (untouched_withIndex h hx).edited.inside hs

/-- Every call leaves the cursor inside. -/
theorem CursorInside.perform (hs : s.CursorInside) (h : s.Sound) (c : Call)
    (hc : ∀ i ∈ c.named, s.program.Has i) : (c.perform s).CursorInside := by
  cases c with
  | reset => exact cursorInside_reset
  | advance => exact hs.advance h
  | rewind => exact hs.rewind h
  | addLocal type name => exact (edited_addLocal h type name).inside hs
  | delete i => exact hs.apply h (.delete i) hc
  | replace old new => exact hs.apply h (.replace old new) hc
  | insertBefore mark new => exact hs.apply h (.insertBefore mark new) hc
  | retargetAll old new => exact hs.apply h (.retargetAll old new) hc
  | retarget i t => exact hs.apply h (.retarget i t) hc
  | canDelete i =>
      obtain ⟨s', heq, hs'⟩ := canDelete_eq h i
      rw [Call.perform, heq]
      exact hs'.edited.inside hs
  | sourcesOf i =>
      cases i with
      | none => exact hs.withIndex h
      | some i => exact hs.withIndex h
  | nextInstruction => exact hs

/-- Changes elsewhere leave the cursor inside. -/
theorem CursorInside.outside (hs : s.CursorInside) (h : s.Sound) {q : Program}
    (hq : ChangedOutside s.editor.body s.program q) :
    CursorInside { s with program := q } := by
  have hcode : q.code s.editor.body = s.code := by
    rw [hq.linked.code, hq.agree.body, code, h.linked.code]
  constructor
  · change ∀ i ∈ s.editor.pos, i ∈ q.code s.editor.body
    rw [hcode]
    exact hs.pos
  · change ∀ i ∈ s.editor.anchor, i ∈ q.code s.editor.body
    rw [hcode]
    exact hs.anchor

/-- **The cursor stays inside the body**, whatever the editor is called for. -/
theorem History.cursorInside (h : History start s) (hstart : start.Sound)
    (hinside : start.CursorInside) : s.CursorInside := by
  induction h with
  | start => exact hinside
  | call c h hc ih => exact ih.perform (h.sound hstart) c hc
  | outside h hq ih => exact ih.outside (h.sound hstart) hq

/-! ### Rounds -/

/-- The states that edits lead to before the cursor is moved again; each edit is
`allowed` where it is made.  New instructions may be made in between. -/
inductive Round (allowed : Editing → Edit → Prop) (start : Editing) :
    Editing → Prop
  | start : Round allowed start start
  | newInstr {s : Editing} (op : Opcode) (o : Operand) : Round allowed start s →
      Round allowed start (s.newInstr op o).2
  | edit {s : Editing} (e : Edit) : Round allowed start s → (∀ i ∈ e.call.named,
      s.program.Has i) → allowed s e → Round allowed start (e.apply s).2

/-- A new instruction is outside of all bodies. -/
theorem changedOutside_newInstr (h : s.Sound) (op : Opcode) (o : Operand) :
    ChangedOutside s.editor.body s.program (s.program.newInstr op o).2 where
  linked := h.linked.newInstr op o
  agree := ⟨rfl, fun i hi => Program.instr_newInstr_of_has op o
    (Program.has_of_owner ((h.linked.owned s.editor.body i).mp hi))⟩
  bodies := le_rfl

/-- A round goes on with a history. -/
theorem Round.history {allowed : Editing → Edit → Prop} {first : Editing}
    (hfirst : first.Sound) (h : History first start)
    (hround : Round allowed start s) : History first s := by
  induction hround with
  | start => exact h
  | newInstr op o _ ih =>
      exact .outside ih (changedOutside_newInstr (ih.sound hfirst) op o)
  | edit e _ he _ ih =>
      rw [Edit.apply_snd]
      exact .call e.call ih he

/-! ### The target in a round -/

/-- The target has left the body, and is in no other. -/
def TargetOut (s : Editing) : Prop :=
  ∃ t, s.editor.target = some t ∧ s.program.owner t = none

/-- The target is in the body or in none. -/
def Tracked (s : Editing) : Prop :=
  ∀ t ∈ s.editor.target, t ∈ s.code ∨ s.program.owner t = none

/-- What stands behind the target is an instruction of the body, or nothing. -/
def NextInside (s : Editing) : Prop := ∀ k ∈ s.nextInstruction, k ∈ s.code

/-- Without a target nothing is next. -/
theorem nextInside_of_none (ht : s.editor.target = none) : s.NextInside := by
  intro k hk
  rw [nextInstruction, ht] at hk
  cases hk

/-- What follows a target in the body is in the body. -/
theorem nextInside_of_mem (h : s.Sound) (ht : s.editor.target = some t)
    (hmem : t ∈ s.code) : s.NextInside := by
  intro k hk
  have hlinked : (s.program.owner t).isSome := by
    rw [h.linked.mem_code.mp hmem]
    rfl
  simp only [nextInstruction, ht, hlinked, if_true] at hk
  rw [h.linked.next hmem] at hk
  exact mem_of_elemAfter? hk

/-- Once the target is out, the noted successor is what is asked for. -/
theorem nextInside_of_out (ht : s.editor.target = some t)
    (hout : s.program.owner t = none) :
    s.NextInside ↔ ∀ k ∈ s.editor.successor, k ∈ s.code := by
  have hnext : s.nextInstruction = s.editor.successor := by
    simp [nextInstruction, ht, hout]
  rw [NextInside, hnext]

/-- A target is out if nobody owns it. -/
theorem targetOut_iff (ht : s.editor.target = some t) :
    s.TargetOut ↔ s.program.owner t = none := by
  constructor
  · rintro ⟨u, hu, hout⟩
    rw [ht] at hu
    cases hu
    exact hout
  · exact fun hout => ⟨t, ht, hout⟩

/-- A change of the body does not bring an instruction into another one. -/
theorem tracked_changed {p q : Program} {b : BodyId} (hp : p.WellLinked)
    (hq : q.WellLinked) (hpq : Program.ChangedIn b p q)
    (h : t ∈ p.code b ∨ p.owner t = none) :
    t ∈ q.code b ∨ q.owner t = none := by
  cases howner : q.owner t with
  | none => exact Or.inr rfl
  | some c =>
      have hc := hq.mem_code.mpr howner
      by_cases hcb : c = b
      · exact Or.inl (hcb ▸ hc)
      · have hold : p.owner t = some c := by
          rw [hq.code, (hpq.agreeOn hp hcb).body, ← hp.code] at hc
          exact hp.mem_code.mp hc
        rcases h with hmem | hnone
        · rw [hp.mem_code.mp hmem] at hold
          exact absurd (Option.some.inj hold).symm hcb
        · rw [hnone] at hold
          cases hold

section Tracked

variable (h : s.Sound) (htracked : s.Tracked)

include h htracked

/-- The target is followed as long as the cursor holds on to it. -/
theorem Tracked.keep (h' : s'.Sound) (hbody : s'.editor.body = s.editor.body)
    (hchanged : Program.ChangedIn s.editor.body s.program s'.program)
    (htarget : s'.editor.target = s.editor.target) : s'.Tracked := by
  intro t ht
  rw [htarget] at ht
  rw [code, hbody]
  exact tracked_changed h.linked h'.linked hchanged (htracked t ht)

/-- A replacement is tracked. -/
theorem Tracked.replaced (hi : i ∈ s.code) (hj : s.program.Has j)
    (hfree : s.program.owner j = none) {x : BranchIndex}
    (hx : x.Coherent (s.program.exchange s.editor.body i j) s.editor.body) :
    (s.replaced i j x).Tracked := by
  have hsound := sound_replaced h hi hj hfree hx
  intro t ht
  change (if s.editor.target = some i then some j else s.editor.target) =
    some t at ht
  split at ht
  · cases ht
    exact Or.inl
      ((Program.mem_code_exchange h.linked hi hfree).mpr (Or.inl rfl))
  · exact tracked_changed h.linked hsound.linked
      (Program.changedIn_exchange h.linked hi hj hfree) (htracked t ht)

/-- After an edit that takes nothing out, and does not touch the references to
the target and its successor. -/
theorem NextInside.grow (hnext : s.NextInside) (h' : s'.Sound)
    (hbody : s'.editor.body = s.editor.body)
    (hchanged : Program.ChangedIn s.editor.body s.program s'.program)
    (htarget : s'.editor.target = s.editor.target)
    (hsuccessor : s'.editor.successor = s.editor.successor)
    (hcode : ∀ k ∈ s.code, k ∈ s'.code) : s'.NextInside := by
  cases ht : s.editor.target with
  | none => exact nextInside_of_none (htarget.trans ht)
  | some t =>
      have ht' : s'.editor.target = some t := htarget.trans ht
      rcases htracked t ht with hmem | hout
      · exact nextInside_of_mem h' ht' (hcode t hmem)
      · have hmem' :=
          tracked_changed h.linked h'.linked hchanged (htracked t ht)
        rw [← hbody] at hmem'
        rcases hmem' with hback | hout'
        · exact nextInside_of_mem h' ht' hback
        · rw [nextInside_of_out ht' hout', hsuccessor]
          exact fun k hk => hcode k ((nextInside_of_out ht hout).mp hnext k hk)

/-- **Deleting** loses sight of what stands behind the target only when the
target is out and its successor goes. -/
theorem nextInside_deleted (hnext : s.NextInside) (hi : i ∈ s.code)
    {x : BranchIndex}
    (hx : x.Coherent (s.program.without s.editor.body i) s.editor.body) :
    (s.deleted i x).NextInside ↔
    ¬ (s.TargetOut ∧ s.editor.successor = some i) := by
  have hp := h.linked
  have h' := sound_deleted h hi hx
  have hmem : ∀ k, k ∈ (s.deleted i x).code ↔ k ∈ s.code ∧ k ≠ i :=
    fun k => Program.mem_code_without hp hi
  cases ht : s.editor.target with
  | none =>
      refine iff_of_true (nextInside_of_none ht) ?_
      rintro ⟨⟨t, ht', -⟩, -⟩
      rw [ht] at ht'
      cases ht'
  | some t =>
      have ht' : (s.deleted i x).editor.target = some t := ht
      have hafter := tracked_changed hp h'.linked
        (Program.changedIn_without hp hi) (htracked t ht)
      change t ∈ (s.deleted i x).code ∨
        (s.deleted i x).program.owner t = none at hafter
      rw [targetOut_iff ht]
      rcases htracked t ht with hmemt | hout
      · have hin :
            ¬ (s.program.owner t = none ∧ s.editor.successor = some i) := by
          rw [hp.mem_code.mp hmemt]
          rintro ⟨hno, -⟩
          cases hno
        refine iff_of_true ?_ hin
        rcases hafter with hback | hout'
        · exact nextInside_of_mem h' ht' hback
        · -- the target itself has been deleted, and its successor noted
          have hti : t = i := by
            by_contra hne
            rw [h'.linked.mem_code.mp ((hmem t).mpr ⟨hmemt, hne⟩)] at hout'
            cases hout'
          subst hti
          rw [nextInside_of_out ht' hout']
          intro k hk
          change (if s.editor.target = some t then s.program.next t else
              s.editor.successor) = some k at hk
          rw [if_pos ht, hp.next hi] at hk
          exact (hmem k).mpr ⟨mem_of_elemAfter? hk,
            elemAfter?_ne (hp.nodup_code _) hk⟩
      · have hti : t ≠ i := by
          rintro rfl
          rw [hp.mem_code.mp hi] at hout
          cases hout
        have hout' : (s.deleted i x).program.owner t = none := by
          refine hafter.resolve_left fun hback => ?_
          rw [hp.mem_code.mp ((hmem t).mp hback).1] at hout
          cases hout
        have hsuccessor :
            (s.deleted i x).editor.successor = s.editor.successor := by
          change (if s.editor.target = some i then _ else _) = _
          rw [if_neg]
          rw [ht]
          exact fun heq => hti (Option.some.inj heq)
        rw [nextInside_of_out ht' hout', hsuccessor]
        constructor
        · rintro hinside ⟨-, hsucc⟩
          exact ((hmem i).mp (hinside i hsucc)).2 rfl
        · intro hspared k hk
          refine (hmem k).mpr ⟨(nextInside_of_out ht hout).mp hnext k hk, ?_⟩
          rintro rfl
          exact hspared ⟨hout, hk⟩

/-- **Replacing** does so only when the target is out and its successor is
replaced, by another instruction than the target. -/
theorem nextInside_replaced (hnext : s.NextInside) (hi : i ∈ s.code)
    (hj : s.program.Has j) (hfree : s.program.owner j = none) {x : BranchIndex}
    (hx : x.Coherent (s.program.exchange s.editor.body i j) s.editor.body) :
    (s.replaced i j x).NextInside ↔ ¬ (s.TargetOut ∧
      s.editor.successor = some i ∧ s.editor.target ≠ some j) := by
  have hp := h.linked
  have h' := sound_replaced h hi hj hfree hx
  have hmem : ∀ k, k ∈ (s.replaced i j x).code ↔ k = j ∨ k ∈ s.code ∧ k ≠ i :=
    fun k => Program.mem_code_exchange hp hi hfree
  have htarget' : (s.replaced i j x).editor.target =
      if s.editor.target = some i then some j else s.editor.target := rfl
  cases ht : s.editor.target with
  | none =>
      rw [ht, if_neg (by simp)] at htarget'
      refine iff_of_true (nextInside_of_none htarget') ?_
      rintro ⟨⟨t, ht', -⟩, -⟩
      rw [ht] at ht'
      cases ht'
  | some t =>
      rw [ht] at htarget'
      rw [targetOut_iff ht]
      by_cases hti : t = i
      · rw [if_pos (congrArg some hti)] at htarget'
        refine iff_of_true
          (nextInside_of_mem h' htarget' ((hmem j).mpr (Or.inl rfl))) ?_
        rintro ⟨hout, -⟩
        rw [hti, hp.mem_code.mp hi] at hout
        cases hout
      · rw [if_neg fun heq => hti (Option.some.inj heq)] at htarget'
        rcases htracked t ht with hmemt | hout
        · refine iff_of_true (nextInside_of_mem h' htarget'
            ((hmem t).mpr (Or.inr ⟨hmemt, hti⟩))) ?_
          rintro ⟨hout, -⟩
          rw [hp.mem_code.mp hmemt] at hout
          cases hout
        · by_cases htj : t = j
          · -- the target is back in the body
            exact iff_of_true (nextInside_of_mem h' htarget' ((hmem t).mpr
              (Or.inl htj))) fun hstrands => hstrands.2.2 (congrArg some htj)
          · have hafter := tracked_changed hp h'.linked
              (Program.changedIn_exchange hp hi hj hfree) (htracked t ht)
            change t ∈ (s.replaced i j x).code ∨
              (s.replaced i j x).program.owner t = none at hafter
            have hout' : (s.replaced i j x).program.owner t = none := by
              refine hafter.resolve_left fun hback => ?_
              rw [hp.mem_code.mp (((hmem t).mp hback).resolve_left htj).1]
                at hout
              cases hout
            rw [nextInside_of_out htarget' hout']
            change (∀ k ∈ s.editor.successor, k ∈ (s.replaced i j x).code) ↔ _
            constructor
            · rintro hinside ⟨-, hsucc, -⟩
              rcases (hmem i).mp (hinside i hsucc) with hij | hii
              · exact hp.ne_of_free hi hfree hij.symm
              · exact hii.2 rfl
            · intro hspared k hk
              refine (hmem k).mpr
                (Or.inr ⟨(nextInside_of_out ht hout).mp hnext k hk, ?_⟩)
              rintro rfl
              exact hspared ⟨hout, hk, fun heq => htj (Option.some.inj heq)⟩

end Tracked

/-- The edit takes the successor of a target that is out of the body, and does
not bring the target back. -/
def Edit.Strands (s : Editing) : Edit → Prop
  | .delete i => s.TargetOut ∧ ∃ k, i = some k ∧ s.editor.successor = some k
  | .replace i j => s.TargetOut ∧ (∃ k, i = some k ∧
      s.editor.successor = some k) ∧ s.editor.target ≠ j
  | _ => False

section Step

variable (h : s.Sound) (htracked : s.Tracked) (e : Edit)
  (he : ∀ i ∈ e.call.named, s.program.Has i)

include h htracked he

/-- The target is followed through every edit. -/
theorem Tracked.apply : (e.apply s).2.Tracked := by
  have hkeep : ∀ {s' : Editing}, Edited s s' →
      s'.editor.target = s.editor.target → s'.Tracked :=
    fun hs' => htracked.keep h hs'.sound hs'.body hs'.changed
  have houtcome := h.outcome e he
  generalize e.apply s = r at houtcome
  cases houtcome with
  | refused hno =>
      obtain ⟨_, _, s', rfl, hs'⟩ := hno
      exact hkeep hs'.edited (by rw [hs'.editor])
  | deleted _ hi _ hx =>
      exact htracked.keep h (sound_deleted h hi hx) rfl
        (Program.changedIn_without h.linked hi) rfl
  | replaced _ hi hj hfit hx => exact htracked.replaced h hi hj hfit.1 hx
  | inserted hmark hj hfree hx =>
      exact hkeep (edited_inserted h hmark hj hfree hx) rfl
  | redirected hs' _ heditor => exact hkeep hs' (by rw [heditor])
  | retargeted hi hbr hx => exact hkeep (edited_retargeted h hi hbr hx) rfl

/-- **One edit.**  What stands behind the target is lost sight of exactly by the
edits that strand it. -/
theorem nextInside_apply (hnext : s.NextInside) :
    (e.apply s).2.NextInside ↔ ¬ ((e.apply s).1 = .ok () ∧ e.Strands s) := by
  have hgrow : ∀ {s' : Editing}, Edited s s' → s'.editor.target =
      s.editor.target → s'.editor.successor = s.editor.successor →
      (∀ k ∈ s.code, k ∈ s'.code) → s'.NextInside :=
    fun hs' => NextInside.grow h htracked hnext hs'.sound hs'.body hs'.changed
  have houtcome := h.outcome e he
  generalize e.apply s = r at houtcome
  cases houtcome with
  | refused hno =>
      refine iff_of_true ?_ fun hstrands => hno.not_ok () hstrands.1
      obtain ⟨_, _, s', rfl, hs'⟩ := hno
      refine hgrow hs'.edited (by rw [hs'.editor])
        (by rw [hs'.editor]) fun k hk => ?_
      change k ∈ s'.program.code s'.editor.body
      rwa [hs'.program, hs'.editor]
  | deleted _ hi _ hx =>
      rw [nextInside_deleted h htracked hnext hi hx]
      simp [Edit.Strands]
  | replaced _ hi hj hfit hx =>
      rw [nextInside_replaced h htracked hnext hi hj hfit.1 hx]
      simp [Edit.Strands]
  | inserted hmark hj hfree hx =>
      refine iff_of_true ?_ fun hstrands => hstrands.2
      exact hgrow (edited_inserted h hmark hj hfree hx) rfl rfl
        fun k hk => (mem_code_inserted h hmark _).mpr (Or.inr hk)
  | redirected hs' hprogram heditor =>
      refine iff_of_true ?_ fun hstrands => hstrands.2
      refine hgrow hs' (by rw [heditor]) (by rw [heditor]) fun k hk => ?_
      rw [code, hprogram, hs'.body, Program.code_redirect]
      exact hk
  | @retargeted i t _ hi hbr hx =>
      have hcode : (s.program.setTarget i t).code s.editor.body = s.code :=
        Program.code_setTargets [i]
      refine iff_of_true ?_ fun hstrands => hstrands.2
      refine hgrow (edited_retargeted h hi hbr hx) rfl rfl fun k hk => ?_
      change k ∈ (s.program.setTarget i t).code s.editor.body
      rwa [hcode]

end Step

/-! ### Whole rounds -/

/-- A cursor that moves on is tracked. -/
theorem Tracked.advance (h : s.Sound) (hs : s.CursorInside) :
    s.advance.2.Tracked :=
  fun t ht => Or.inl (hs.offered h t ht)

/-- A cursor that moves on has something next inside. -/
theorem NextInside.advance (h : s.Sound) (hs : s.CursorInside) :
    s.advance.2.NextInside := by
  cases ht : s.advance.2.editor.target with
  | none => exact nextInside_of_none ht
  | some t => exact nextInside_of_mem (h.move rfl rfl) ht (hs.offered h t ht)

section Rounds

variable {allowed : Editing → Edit → Prop}

/-- An editor is sound throughout a round. -/
theorem Round.sound (hround : Round allowed start s) (h : start.Sound) :
    s.Sound :=
  (hround.history h .start).sound h

/-- Its target is tracked throughout a round. -/
theorem Round.tracked (hround : Round allowed start s) (h : start.Sound)
    (htracked : start.Tracked) : s.Tracked := by
  induction hround with
  | start => exact htracked
  | newInstr op o hround ih =>
      have hs := hround.sound h
      have hnew := edited_newInstr hs op o
      exact ih.keep hs hnew.sound hnew.body hnew.changed rfl
  | edit e hround he _ ih => exact ih.apply (hround.sound h) e he

/-- **A round without edits that strand the target's successor.** -/
theorem Round.nextInside (hround : Round (fun s e => ¬ e.Strands s) start s)
    (h : start.Sound) (htracked : start.Tracked) (hnext : start.NextInside) :
    s.NextInside := by
  induction hround with
  | start => exact hnext
  | @newInstr s op o hround ih =>
      have hs := hround.sound h
      have hnew := edited_newInstr hs op o
      refine NextInside.grow hs (hround.tracked h htracked)
        ih hnew.sound hnew.body hnew.changed rfl rfl fun k hk => ?_
      have hcode : (s.newInstr op o).2.code = s.code :=
        hs.linked.code_newInstr op o _
      rwa [hcode]
  | edit e hround he hspares ih =>
      rw [nextInside_apply (hround.sound h) (hround.tracked h htracked) e he ih]
      exact fun hstrands => hspares hstrands.2

end Rounds

/-- **The next instruction is in the body.**  A new editor has received any
calls, and anything has changed outside its body, when the cursor is moved on.
Whatever edits are made in that round, position and anchor are instructions of
the body or missing, and so is what the scan offers when it has stepped back.
What stands behind the target is in the body or missing as long as no edit takes
the successor of a target that is out.  While it is so, an edit ends it exactly
if it takes that successor and goes through. -/
theorem next_instruction_in_body {p : Program} {m : MethodId} {b : BodyId}
    (hp : p.WellLinked) (hb : b.index < p.bodies.size)
    (h : History (fresh p m b) s) :
    (∀ s', Round (fun _ _ => True) s.advance.2 s' →
      s'.CursorInside ∧ (∀ k ∈ s'.rewind.advance.2.editor.target, k ∈ s'.code) ∧
      (s'.NextInside → ∀ e : Edit, (∀ i ∈ e.call.named, s'.program.Has i) →
        ((e.apply s').2.NextInside ↔
          ¬ ((e.apply s').1 = .ok () ∧ e.Strands s')))) ∧
    ∀ s', Round (fun s e => ¬ e.Strands s) s.advance.2 s' → s'.NextInside := by
  have hfresh := sound_fresh hp hb m
  have hs := h.sound hfresh
  have hinside : s.CursorInside := h.cursorInside hfresh cursorInside_fresh
  have hadvanced : s.advance.2.Sound := hs.move rfl rfl
  have htracked := Tracked.advance hs hinside
  refine ⟨fun s' hround => ?_, fun s' hround =>
    hround.nextInside hadvanced htracked (NextInside.advance hs hinside)⟩
  have hs' := hround.sound hadvanced
  have hinside' : s'.CursorInside :=
    (hround.history hadvanced .start).cursorInside hadvanced
      (hinside.advance hs)
  exact ⟨hinside', (hinside'.rewind hs').offered (hs'.move rfl rfl),
    fun hnext e he => nextInside_apply hs'
    (hround.tracked hadvanced htracked) e he hnext⟩

/-- Three instructions that do nothing, and an exit. -/
def idling : Program where
  instrs := #[⟨.nop, .absent, some ⟨0⟩⟩, ⟨.nop, .absent, some ⟨0⟩⟩,
    ⟨.nop, .absent, some ⟨0⟩⟩, ⟨⟨0x70⟩, .absent, some ⟨0⟩⟩]
  bodies := #[{ code := [⟨0⟩, ⟨1⟩, ⟨2⟩, ⟨3⟩] }]
  methods := #[{ name := "idling", body := some ⟨0⟩ }]

/-- The target is deleted, and then what stands two behind it. -/
def spared : Editing :=
  (Edit.apply (.delete (some ⟨2⟩))
    (Edit.apply (.delete (some ⟨0⟩)) (fresh idling ⟨0⟩ ⟨0⟩).advance.2).2).2

theorem next_instruction_in_body_idling : idling.WellLinked ∧
    Round (fun s e => ¬ e.Strands s) (fresh idling ⟨0⟩ ⟨0⟩).advance.2 spared ∧
    spared.nextInstruction = some ⟨1⟩ ∧ spared.NextInside ∧
    spared.CursorInside := by
  have hp : idling.WellLinked := by decide
  obtain ⟨hany, hspared⟩ :=
    next_instruction_in_body (m := ⟨0⟩) (b := ⟨0⟩) hp (by decide) .start
  have hround : Round (fun s e =>
      ¬ e.Strands s) (fresh idling ⟨0⟩ ⟨0⟩).advance.2 spared := by
    refine .edit _ (.edit _ .start (by decide) ?_) (by decide) ?_
    · rintro ⟨⟨t, ht, hout⟩, -⟩
      cases ht
      exact absurd hout (by decide)
    · rintro ⟨-, k, hk, hsucc⟩
      cases hk
      exact absurd hsucc (by decide)
  have hround' :
      Round (fun _ _ => True) (fresh idling ⟨0⟩ ⟨0⟩).advance.2 spared :=
    .edit _ (.edit _ .start (by decide) trivial) (by decide) trivial
  exact ⟨hp, hround, by decide, hspared _ hround, (hany _ hround').1⟩

/-- After the target its successor is deleted, and the editor still shows it. -/
theorem forgets_successor : idling.WellLinked ∧
    ∃ s, Round (fun _ _ => True) (fresh idling ⟨0⟩ ⟨0⟩).advance.2 s ∧
      s.nextInstruction = some ⟨1⟩ ∧ s.code = [⟨2⟩, ⟨3⟩] := by
  refine ⟨by decide, _, .edit (.delete (some ⟨1⟩)) (.edit (.delete (some ⟨0⟩))
    .start (by decide) trivial) (by decide) trivial, by decide, by decide⟩

end Editing

end Bytecode
