import Bytecode.Proofs.Driver

/-!
# What a pass can do in a visit

The local passes act on the editor alone, and `Acts` has said what they do.  The
inliner may also ask the policy and have the callee visited first; `Inlines`
lists the ways its application can end, with the session the callee's visit
started from and the one it left.
-/

namespace Bytecode

variable {σ : Type}

theorem Visit.inSession_apply {α : Type} (x : SessionM σ α) (v : Visit σ) :
    inSession x v = ((x v.session).1, { v with session := (x v.session).2 }) :=
  rfl

theorem Visit.get_apply (v : Visit σ) :
    (get : VisitM σ (Visit σ)) v = (.ok v, v) := rfl

theorem Visit.tryEdit_apply {α : Type} (f : Editing → Except Fault α × Editing)
    (v : Visit σ) :
    tryEdit f v = ((f v.editing).1, v.setEditing (f v.editing).2) := rfl

namespace Inline

variable {cfg : InlineSettings} {optimize : Option MethodId → SessionM σ Unit}
  {v v' : Visit σ} {call anchor : InstrId} {m : MethodId}

/-- Whether the callee may be inlined as the memo and the policy have it. -/
def approved (cfg : InlineSettings) (m : MethodId) (s : Session σ) : Bool :=
  (s.memo.ask cfg.policy s.program (some m)).1

/-- The session after the memo has been asked about the callee. -/
def consulted (cfg : InlineSettings) (m : MethodId) (s : Session σ) :
    Session σ :=
  { s with memo := (s.memo.ask cfg.policy s.program (some m)).2 }

/-- Replaces the call by the body `b` and counts it. -/
def takeIn (call : InstrId) (b : BodyId) (anchor : InstrId) :
    VisitM σ Unit := do
  Visit.tryEdit (replaceCall call)
  note
  Visit.tryEdit (copyBody b anchor)

/-- The callee stays out although it has been visited. -/
def Spared (cfg : InlineSettings) (m : MethodId) (s : Session σ) : Prop :=
  s.progressOf m = .inProgress ∨ (s.program.method m).body = none ∨ ∃ b,
    (s.program.method m).body = some b ∧ callsItself cfg s.program m b = true

/-- How an application of the inliner to a call can end. -/
inductive Inlines (cfg : InlineSettings)
    (optimize : Option MethodId → SessionM σ Unit) (v : Visit σ)
    (call : InstrId) : Except Fault Unit × Visit σ → Prop
  | none : callee? cfg v.editing call = none → Inlines cfg optimize v call
    (.ok (), v)
  | declined
    {m : MethodId} (stats : Stats) : callee? cfg v.editing call = some m →
    (approved cfg m v.session = false ∨ v.editing.nextInstruction = .none ∨
      withinBudget cfg v.editor = false) → Inlines cfg optimize v call
    (.ok (), { v with session := { consulted cfg m v.session with stats } })
  | stopped {m : MethodId}
    {e : Fault} {s : Session σ} : callee? cfg v.editing call = some m →
    optimize (some m) (consulted cfg m v.session) = (.error e, s) →
    Inlines cfg optimize v call (.error e, { v with session := s })
  | spared {m : MethodId}
    {s : Session σ} : callee? cfg v.editing call = some m → optimize
    (some m) (consulted cfg m v.session) = (.ok (), s) → Spared cfg m s →
    Inlines cfg optimize v call (.ok (), { v with session := s })
  | takenIn {m : MethodId} {s : Session σ} {anchor : InstrId} {b : BodyId} :
    callee? cfg v.editing call = some m → approved cfg m v.session = true →
    v.editing.nextInstruction = some anchor → withinBudget cfg v.editor = true →
    optimize (some m) (consulted cfg m v.session) = (.ok (), s) →
    ¬ Spared cfg m s → (s.program.method m).body = some b →
    Inlines cfg optimize v call (takeIn call b anchor { v with session := s })

/-- A call that leads back to the caller has no callee. -/
theorem callee?_ne (h : callee? cfg v.editing call = some m) :
    m ≠ v.editor.method := by
  rw [callee?] at h
  split at h
  · have hne := (Option.filter_eq_some_iff.mp h).2
    exact of_decide_eq_true hne
  · cases h

/-- Without a target there is nothing to inline. -/
theorem apply_absent (h : v.editor.target = none) :
    apply cfg optimize v = (.error .absent, v) := by
  simp only [apply, bind_apply, Visit.get_apply, h]
  rfl

/-- What becomes of a call that is offered. -/
theorem apply_eq (h : v.editor.target = some call) :
    apply cfg optimize v = match callee? cfg v.editing call with
      | none => (.ok (), v)
      | some m =>
        if approved cfg m v.session then match v.editing.nextInstruction with
          | none => (.ok (), { v with session := consulted cfg m v.session })
          | some anchor =>
            if withinBudget cfg v.editor then
              match optimize (some m) (consulted cfg m v.session) with
              | (.error e, s) => (.error e, { v with session := s })
              | (.ok _, s) =>
                if s.progressOf m = .inProgress then
                  (.ok (), { v with session := s })
                else match (s.program.method m).body with
                  | none => (.ok (), { v with session := s })
                  | some b =>
                    if callsItself cfg s.program m b then
                      (.ok (), { v with session := s })
                    else takeIn call b anchor { v with session := s }
            else
              let s := consulted cfg m v.session
              (.ok (),
                { v with
                  session := s.count fun t =>
                    { t with refused := t.refused + 1 } })
        else (.ok (), { v with session := consulted cfg m v.session }) := by
  simp only [apply, bind_apply, Visit.get_apply, h]
  cases callee? cfg v.editing call with
  | none => rfl
  | some m =>
      simp only
      rw [bind_apply]
      change (if approved cfg m v.session then _ else _ : VisitM σ Unit)
        { v with session := consulted cfg m v.session } = _
      split
      · have hnext : ({ v with session := consulted cfg m v.session } :
            Visit σ).editing = v.editing :=
          rfl
        simp only [bind_apply, Visit.get_apply, hnext]
        cases v.editing.nextInstruction with
        | none => rfl
        | some anchor =>
            simp only [bind_apply, Visit.get_apply]
            change (if withinBudget cfg v.editor then _ else _ : VisitM σ Unit)
              { v with session := consulted cfg m v.session } = _
            split
            · rw [bind_apply, Visit.inSession_apply]
              simp only
              obtain ⟨e | ⟨⟩, s⟩ :=
                optimize (some m) (consulted cfg m v.session)
              · rfl
              · change (if s.progressOf m = .inProgress then _ else
                  _ : VisitM σ Unit) { v with session := s } = _
                simp only
                split
                · rfl
                · cases (s.program.method m).body with
                  | none => rfl
                  | some b =>
                      simp only
                      split
                      · rfl
                      · rfl
            · rfl
      · rfl

/-- Of the visits of other methods, only that of the callee matters. -/
theorem apply_congr (h : v.editor.target = some call)
    {f g : Option MethodId → SessionM σ Unit}
    (hfg : ∀ m, callee? cfg v.editing call = some m → f (some m)
      (consulted cfg m v.session) = g (some m) (consulted cfg m v.session)) :
    apply cfg f v = apply cfg g v := by
  rw [apply_eq h, apply_eq h]
  cases hm : callee? cfg v.editing call with
  | none => rfl
  | some m => simp only [hfg m hm]

/-- **Inlining.**  An application of the inliner ends in one of the listed
ways. -/
theorem apply_inlines (h : v.editor.target = some call) :
    Inlines cfg optimize v call (apply cfg optimize v) := by
  rw [apply_eq h]
  cases hm : callee? cfg v.editing call with
  | none => exact .none hm
  | some m =>
      simp only
      split
      · next hyes =>
          cases hnext : v.editing.nextInstruction with
          | none => exact .declined v.session.stats hm (Or.inr (Or.inl hnext))
          | some anchor =>
              simp only
              split
              · next hbudget =>
                  cases hopt :
                    optimize (some m) (consulted cfg m v.session) with
                  | mk r s =>
                      cases r with
                      | error e => exact .stopped hm hopt
                      | ok a =>
                          simp only
                          split
                          · next hbusy => exact .spared hm hopt (Or.inl hbusy)
                          · next hbusy =>
                              cases hbody : (s.program.method m).body with
                              | none =>
                                  exact .spared hm hopt (Or.inr (Or.inl hbody))
                              | some b =>
                                  simp only
                                  split
                                  · next hself =>
                                      exact .spared hm hopt
                                        (Or.inr (Or.inr ⟨b, hbody, hself⟩))
                                  · next hself =>
                                      refine .takenIn hm hyes hnext hbudget
                                        hopt ?_ hbody
                                      rintro (hno | hno | ⟨c, hc, hno⟩)
                                      · exact hbusy hno
                                      · rw [hbody] at hno
                                        cases hno
                                      · rw [hbody] at hc
                                        cases hc
                                        exact hself hno
              · next hbudget => exact .declined _ hm (Or.inr
                  (Or.inr (by simpa using hbudget)))
      · next hyes =>
          exact .declined v.session.stats hm (Or.inl (by simpa using hyes))

/-- A call that is declined for what is known before the visit of its callee
leaves no trace but in the memo and in the count of refused calls. -/
theorem apply_declined (h : v.editor.target = some call)
    (hcallee : callee? cfg v.editing call = some m)
    (hreason : approved cfg m v.session = false ∨
      v.editing.nextInstruction = none ∨ withinBudget cfg v.editor = false) :
    ∃ refused, apply cfg optimize v = (.ok (), { v with session :=
      { consulted cfg m v.session with
        stats := { v.session.stats with refused } } }) := by
  rw [apply_eq h, hcallee]
  simp only
  split
  · next hyes =>
    cases hnext : v.editing.nextInstruction with
    | none => exact ⟨v.session.stats.refused, rfl⟩
    | some anchor =>
        have hbudget : withinBudget cfg v.editor = false := by
          simpa [hyes, hnext] using hreason
        simp only [hbudget]
        exact ⟨v.session.stats.refused + 1, rfl⟩
  · exact ⟨v.session.stats.refused, rfl⟩

/-! ### The call and the body -/

/-- One more call has been inlined through the editor. -/
def noted (s : Editing) : Editing :=
  { s with editor := { s.editor with inlined := s.editor.inlined + 1 } }

/-- The call has become a nop, and the body has been copied in front of the
anchor. -/
def Replaces (call : InstrId) (b : BodyId) (anchor : InstrId) (s s' : Editing) :
    Prop :=
  s'.editor.dirty = true ∧ ∃ s₁, s.Changed s₁ ∧
    s₁.program = s.program.renewed s.editor.body call .nop .absent ∧
    TakesIn b anchor (noted s₁) s'

/-- Noting a copy is an evolution. -/
theorem evolves_noted {s : Editing} (h : s.Sound) : s.Evolves (noted s) :=
  ⟨⟨h.linked, h.present, h.index⟩, .refl _ _, rfl, rfl,
    fun hs => ⟨hs.pos, hs.anchor⟩, fun hs => ⟨rfl, hs⟩⟩

/-- Replacing a call is an evolution. -/
theorem Replaces.evolves {b : BodyId} {s s' : Editing}
    (h : Replaces call b anchor s s') : s.Evolves s' := by
  obtain ⟨-, s₁, hs₁, -, htake⟩ := h
  have hnoted := evolves_noted hs₁.sound
  exact (hs₁.toEvolves.trans hnoted).trans (htake.edited hnoted.sound).toEvolves

/-- One more call has been inlined. -/
theorem Replaces.inlined {b : BodyId} {s s' : Editing}
    (h : Replaces call b anchor s s') :
    s'.editor.inlined = s.editor.inlined + 1 := by
  obtain ⟨-, s₁, hs₁, -, htake⟩ := h
  rw [(htake.edited (evolves_noted hs₁.sound).sound).inlined, noted,
    hs₁.inlined]

/-- The anchor stays in the body when the call goes. -/
theorem anchor_mem_renewed {s : Editing} (h : s.Sound) (hcall : call ∈ s.code)
    (hnext : s.program.next call = some anchor) : anchor ∈
    (s.program.renewed s.editor.body call .nop .absent).code s.editor.body := by
  have hp := h.linked
  have hcall' :
      call ∈ (s.program.newInstr .nop .absent).2.code s.editor.body := by
    rwa [hp.code_newInstr]
  have hafter : elemAfter? call s.code = some anchor := by
    rwa [hp.next hcall] at hnext
  rw [Program.renewed, Program.mem_code_exchange (hp.newInstr _ _) hcall'
    (Program.owner_fresh _ _), hp.code_newInstr]
  exact Or.inr ⟨mem_of_elemAfter? hafter,
    elemAfter?_ne (hp.nodup_code _) hafter⟩

/-- The call has become a nop, and a body can be copied in front of the
anchor. -/
structure Cleared (call anchor : InstrId) (s t : Editing) : Prop where
  sound : t.Sound
  body : t.editor.body = s.editor.body
  program : t.program = s.program.renewed s.editor.body call .nop .absent
  changed : Program.ChangedIn s.editor.body s.program t.program
  anchor : anchor ∈ t.code

/-- A call that has been renewed is cleared. -/
theorem cleared_noted {s s₁ : Editing} (h : s.Sound) (hcall : call ∈ s.code)
    (hnext : s.program.next call = some anchor) (hs₁ : s.Changed s₁)
    (hprog : s₁.program = s.program.renewed s.editor.body call .nop .absent) :
    Cleared call anchor s (noted s₁) where
  sound := (evolves_noted hs₁.sound).sound
  body := hs₁.body
  program := hprog
  changed := hs₁.changed
  anchor := by
    change anchor ∈ s₁.program.code s₁.editor.body
    rw [hprog, hs₁.body]
    exact anchor_mem_renewed h hcall hnext

/-- A call that is replaced is cleared before code is taken in. -/
theorem Replaces.cleared {b : BodyId} {s s' : Editing}
    (h : Replaces call b anchor s s') (hs : s.Sound) (hcall : call ∈ s.code)
    (hnext : s.program.next call = some anchor) :
    ∃ t, Cleared call anchor s t ∧ TakesIn b anchor t s' := by
  obtain ⟨-, s₁, hs₁, hprog, htake⟩ := h
  exact ⟨_, cleared_noted hs hcall hnext hs₁ hprog, htake⟩

/-- A call is replaced, and code is copied in its place. -/
theorem takeIn_apply (call : InstrId) (b : BodyId) (anchor : InstrId)
    (v : Visit σ) :
    takeIn call b anchor v = match replaceCall call v.editing with
      | (.error e, s) => (.error e, v.setEditing s)
      | (.ok _, s) => ((copyBody b anchor (noted s)).1,
          ⟨{ v.session with
              program := (copyBody b anchor (noted s)).2.program
              stats := { v.session.stats with
                inlined := v.session.stats.inlined + 1 } },
            (copyBody b anchor (noted s)).2.editor⟩) := by
  rw [takeIn, bind_apply, Visit.tryEdit_apply]
  obtain ⟨e | ⟨⟩, s⟩ := replaceCall call v.editing
  · rfl
  · rfl

/-- One more call is counted. -/
theorem stats_takeIn {b : BodyId} (h : takeIn call b anchor v = (.ok (), v')) :
    v'.session.stats =
    { v.session.stats with inlined := v.session.stats.inlined + 1 } := by
  rw [takeIn_apply] at h
  split at h
  · cases h
  · exact congrArg
      (fun x : Except Fault Unit × Visit σ => x.2.session.stats) h.symm

/-- Taking in goes through, or stops at an access without a form. -/
theorem takeIn_replaces {b : BodyId} (h : v.editing.Sound)
    (htarget : v.editor.target = some call) (hcall : call ∈ v.editing.code)
    (hnext : v.session.program.next call = some anchor) :
    ∃ v', (takeIn call b anchor v = (.error .absent, v') ∧
      Blocked (v.session.program.renewed v.editor.body call .nop .absent)
      v.editor.body b ∨ takeIn call b anchor v = (.ok (), v') ∧
      Replaces call b anchor v.editing v'.editing) ∧
      v'.session = { v.session with
        program := v'.session.program, stats := v'.session.stats } := by
  obtain ⟨s₁, heq₁, hs₁, hprog₁⟩ :=
    Editing.changed_renew h htarget hcall .nop rfl .absent
  have hcleared := cleared_noted h hcall hnext hs₁ hprog₁
  obtain ⟨s₂, hcopy⟩ :=
    copyBody_takesIn (b := b) hcleared.sound hcleared.anchor hs₁.dirty
  let stats : Stats :=
    { v.session.stats with inlined := v.session.stats.inlined + 1 }
  have hopen : takeIn call b anchor v = ((copyBody b anchor (noted s₁)).1,
      ⟨{ v.session with program := (copyBody b anchor (noted s₁)).2.program,
                        stats }, (copyBody b anchor (noted s₁)).2.editor⟩) := by
    have hreplace : replaceCall call v.editing = (.ok (), s₁) := heq₁
    rw [takeIn_apply, hreplace]
  refine ⟨⟨{ v.session with program := s₂.program, stats }, s₂.editor⟩, ?_, rfl⟩
  rcases hcopy with ⟨hstop, hblocked⟩ | ⟨hok, htake, hdirty⟩
  · left
    rw [hopen, hstop]
    rw [hcleared.body, hcleared.program] at hblocked
    exact ⟨rfl, hblocked⟩
  · right
    rw [hopen, hok]
    exact ⟨rfl, hdirty, s₁, hs₁, hprog₁, htake⟩

end Inline

/-! ### All passes -/

/-- How an application of a pass to the instruction on offer can end. -/
inductive PassStep (cfg : InlineSettings)
    (optimize : Option MethodId → SessionM σ Unit) (v : Visit σ) (i : InstrId) :
    Pass → Except Fault Unit × Visit σ → Prop
  | quiet {pass : Pass} {s : Editing} : v.editing.Untouched s →
      PassStep cfg optimize v i pass (.ok (), v.setEditing s)
  | fires {pass : Pass}
    {s : Editing} : v.editing.Changed s → v.editing.Effect i pass s.program →
    PassStep cfg optimize v i pass (.ok (), v.setEditing s)
  | inlines
    {r : Except Fault Unit × Visit σ} : Inline.Inlines cfg optimize v i r →
    PassStep cfg optimize v i .inlineFunctionCall r

/-- A pass that acts as it should takes a step. -/
theorem passStep_of_acts {cfg : InlineSettings}
    {optimize : Option MethodId → SessionM σ Unit} {v : Visit σ} {i : InstrId}
    {pass : Pass} {f : Editing → Except Fault Unit × Editing}
    (h : v.editing.Acts i pass (f v.editing)) :
    PassStep cfg optimize v i pass (Visit.tryEdit f v) := by
  obtain ⟨s, heq, hs⟩ := h
  rw [Visit.tryEdit_apply, heq]
  rcases hs with hquiet | ⟨hchanged, heffect⟩
  · exact .quiet hquiet
  · exact .fires hchanged heffect

/-- **One application.**  A pass that is offered an instruction of the body ends
in one of the listed ways. -/
theorem Pass.rule_step (cfg : InlineSettings)
    (optimize : Option MethodId → SessionM σ Unit) {v : Visit σ} {i : InstrId}
    (h : v.editing.Sound) (htarget : v.editor.target = some i)
    (hi : i ∈ v.editing.code) (pass : Pass) :
    PassStep cfg optimize v i pass ((pass.rule cfg).apply optimize v) := by
  cases pass with
  | branchToReturn =>
      exact passStep_of_acts (Editing.branchToReturn_acts h htarget hi)
  | inlineFunctionCall => exact .inlines (Inline.apply_inlines htarget)
  | removeDegenerateBranch =>
      exact passStep_of_acts (Editing.removeDegenerateBranch_acts h htarget hi)
  | removeNop => exact passStep_of_acts (Editing.removeNop_acts h htarget hi)
  | removeDeadCode =>
      exact passStep_of_acts (Editing.removeDeadCode_acts h htarget hi)
  | retargetDoubleBranch =>
      exact passStep_of_acts (Editing.retargetDoubleBranch_acts h htarget hi)

/-- Only the inliner has other methods visited. -/
theorem Pass.rule_alone (cfg : InlineSettings) {pass : Pass}
    (h : pass ≠ .inlineFunctionCall) (f g : Option MethodId → SessionM σ Unit)
    (v : Visit σ) : (pass.rule cfg).apply f v = (pass.rule cfg).apply g v := by
  cases pass with
  | inlineFunctionCall => exact absurd rfl h
  | _ => rfl

end Bytecode
