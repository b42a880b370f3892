import Bytecode.Proofs.CleanUp
import Bytecode.Proofs.Contents
import Bytecode.Proofs.Settling

/-!
# Cleaning up keeps the meaning

An optimiser with clean-up passes only visits no method but the one it is asked
for, and all it does to a body keeps the body closed and its meaning what it
was.  A visit never fails, and as every change makes the body lighter it comes
to an end.

Bodies may be shared here: the visited body is looked at, whoever else has it.
-/

namespace Bytecode

variable {σ : Type}

/-- Closed bodies have stayed closed and mean what they meant. -/
structure Session.Cleaned (s s' : Session σ) : Prop where
  linked : s'.program.WellLinked
  methods : s'.program.methods = s.program.methods
  closed : ∀ b, s.program.Closed b → s'.program.Closed b
  meaning : ∀ b, s.program.Closed b → SameMeaning b s.program s'.program

namespace Session.Cleaned

variable {s s' s'' : Session σ}

theorem of_eq (h : s'.program = s.program) (hp : s.program.WellLinked) :
    s.Cleaned s' where
  linked := by rwa [h]
  methods := by rw [h]
  closed := fun _ hb => by rwa [h]
  meaning := fun b _ => by rw [h]; exact .refl b _

theorem trans (h : s.Cleaned s') (h' : s'.Cleaned s'') : s.Cleaned s'' where
  linked := h'.linked
  methods := h'.methods.trans h.methods
  closed := fun b hb => h'.closed b (h.closed b hb)
  meaning := fun b hb => (h.meaning b hb).trans (h'.meaning b (h.closed b hb))

/-- A clean-up has changed the body under edit. -/
theorem effect {e e' : Editing} {i : InstrId} {pass : Pass}
    (hs : s.program = e.program) (hs' : s'.program = e'.program) (he : e.Sound)
    (hi : i ∈ e.code) (hchanged : e.Changed e')
    (heffect : e.Effect i pass e'.program) (hpass : pass ∈ Pass.cleanUps) :
    s.Cleaned s' := by
  have hp := he.linked
  have hp' := hchanged.sound.linked
  refine ⟨by rwa [hs'], by rw [hs, hs', hchanged.changed.methods],
    fun b hb => ?_, fun b hb => ?_⟩
  · rw [hs] at hb
    rw [hs']
    by_cases hbody : b = e.editor.body
    · subst hbody
      exact heffect.closed he hi hb
    · exact hb.agree hp hp' (hchanged.changed.agreeOn hp hbody)
  · rw [hs] at hb ⊢
    rw [hs']
    by_cases hbody : b = e.editor.body
    · subst hbody
      exact heffect.sameMeaning hpass he hi hb
    · exact sameMeaning_of_agree hp hp' hb (hchanged.changed.agreeOn hp hbody)

end Session.Cleaned

/-- Closed bodies keep their meaning. -/
def cleaning : Law σ where
  ready s := s.program.WellLinked
  returns := Session.Cleaned
  broken _ := True
  during s _
    | .scanning _, v => v.Steady ∧ s.Cleaned v.session
    | .offering _ _, v => v.Steady ∧ s.Cleaned v.session ∧ ∃ i, v.Offers i

section Cleaning

variable {cfg : InlineSettings} {passes : List Pass} {s : Session σ}
  {m : MethodId} {v : Visit σ} {i : InstrId} {pass : Pass} {changed : Bool}
  {rest : List (Rule σ)} {optimize : Option MethodId → SessionM σ Unit}
  {r : Except Fault Unit × Visit σ}

theorem cleaning_passStep (hv : v.Steady) (hs : s.Cleaned v.session)
    (hi : v.Offers i) (hpass : pass ∈ Pass.cleanUps)
    (hr : PassStep cfg optimize v i pass r) (name : String) :
    cleaning.Applies s m changed name rest r := by
  cases hr with
  | quiet he =>
      have hprogram := he.program
      exact Law.applies_quiet (hv.untouched he).clean ⟨hv.untouched he,
        hs.trans (.of_eq hprogram hs.linked), i, hi.untouched he⟩
  | @fires _ e he heffect =>
      refine Law.applies_fired he.dirty ⟨?_, hs.trans ?_⟩
      · exact Visit.steady_rewound (v := v.setEditing e) he.sound
          (he.inside hv.inside) name
      · refine Session.Cleaned.effect ?_ ?_ hv.sound hi.2 he heffect hpass
        · rfl
        · rfl
  | inlines => simp [Pass.cleanUps] at hpass

theorem cleaning_obeyed (cfg : InlineSettings)
    (hpasses : ∀ pass ∈ passes, pass ∈ Pass.cleanUps) :
    cleaning.Obeyed (Optimizer.ofPasses cfg passes : Optimizer σ) where
  unwatched := fun _ _ => rfl
  idle := fun hs => .of_eq rfl hs
  skip := fun hs _ _ => .of_eq rfl hs
  start := by
    intro s m b hs hm hbody hsize
    exact ⟨Visit.steady_start (s := s.setProgress m .inProgress) hs m hsize,
      .of_eq rfl hs⟩
  advance := fun h hmore =>
    ⟨h.1.advanced, h.2.trans (.of_eq rfl h.2.linked), h.1.offers hmore⟩
  apply := by
    rintro s m changed r rest v fuel - hr ⟨hv, hs, i, hi⟩
    obtain ⟨pass, hpass, rfl⟩ := List.mem_map.mp hr
    exact cleaning_passStep hv hs hi (hpasses pass hpass)
      (Pass.rule_step cfg _ hv.sound hi.1 hi.2 pass) _
  decline := fun h => ⟨h.1, h.2.1⟩
  restart :=
    fun h _ => ⟨h.1.advanced.restarted, h.2.trans (.of_eq rfl h.2.linked)⟩
  finish := fun h _ => h.2.trans (.of_eq rfl h.2.linked)
  cut := fun _ => trivial
  refuse := fun _ => trivial

/-- A visit that cleans up never fails, and each change makes the body
lighter. -/
theorem cleaning_descends (cfg : InlineSettings)
    (hpasses : ∀ pass ∈ passes, pass ∈ Pass.cleanUps) (s : Session σ)
    (m : MethodId) :
    cleaning.Descends (Optimizer.ofPasses cfg passes) s m Program.Lighter
    (fun v => v.session.program.weight v.editor.body) (fun _ => False) where
  wf := Program.wellFounded_lighter
  failing := fun _ _ h => h
  steady := by
    intro p v h
    cases p with
    | scanning => exact h.1
    | offering => exact h.1
  unmoved := fun hprogram _ _ hbody _ => by rw [hprogram, hbody]
  apply := by
    rintro changed r rest v hr ⟨hv, hs, i, hi⟩
    obtain ⟨pass, hmem, rfl⟩ := List.mem_map.mp hr
    have hpass := hpasses pass hmem
    have hlocal : pass ≠ .inlineFunctionCall := by
      rintro rfl
      simp [Pass.cleanUps] at hpass
    have halone := fun n => Pass.rule_alone cfg hlocal
      ((Optimizer.ofPasses cfg passes : Optimizer σ).optimize n)
      ((Optimizer.ofPasses cfg passes : Optimizer σ).optimize 0) v
    have hstep := Pass.rule_step cfg ((Optimizer.ofPasses cfg passes :
      Optimizer σ).optimize 0) hv.sound hi.1 hi.2 pass
    generalize (pass.rule cfg).apply _ v = r at hstep halone
    cases hstep with
    | @quiet _ e he =>
        refine settles_of_eq halone (Or.inr ⟨?_, ?_, (hv.untouched he).clean⟩)
        · change e.program.weight e.editor.body =
            v.editing.program.weight v.editing.editor.body
          rw [he.program, he.edited.body]
        · refine Visit.ahead_congr he.code ?_
          change e.editor.pos = v.editing.editor.pos
          rw [he.editor]
    | @fires _ e he heffect =>
        refine settles_of_eq halone (Or.inl ?_)
        change Program.Lighter (e.program.weight e.editor.body)
          (v.editing.program.weight v.editing.editor.body)
        rw [he.body]
        exact heffect.lighter hv.sound hi.2
    | inlines => exact absurd rfl hlocal

end Cleaning

namespace Optimizer

/-- **Cleaning up keeps the meaning.**  An optimiser that has only clean-up
passes, in any order and any number, is asked for a method whose branches stay
in its body, at any time in a run.  With enough fuel it comes back without a
failure, and whatever the machine and the state it starts from, the body has the
outcome it had before, or none if it had none. -/
theorem meaning_kept (cfg : InlineSettings) {passes : List Pass}
    (hpasses : ∀ pass ∈ passes, pass ∈ Pass.cleanUps) {s : Session σ}
    (hp : s.program.WellLinked) {m : MethodId} {b : BodyId}
    (hbody : (s.program.method m).body = some b)
    (hclosed : s.program.Closed b) :
    ∃ n s', (∀ fuel, n ≤ fuel → (ofPasses cfg passes).optimize fuel (some m) s =
      (.ok (), s')) ∧ (s'.program.method m).body = some b ∧
      ∀ (S : Type) (M : Machine S) (st : S) (x : Exit) (u : S),
      Ends M s'.program (s'.program.first? b) st x u ↔
      Ends M s.program (s.program.first? b) st x u := by
  have hobeyed := cleaning_obeyed (σ := σ) cfg hpasses
  have hsettles := Law.settles_optimize (m := m) hobeyed hp
    fun _ => cleaning_descends cfg hpasses s m
  obtain ⟨n, ⟨e | ⟨⟩, s'⟩, hn, hgood, hbad⟩ :=
    hsettles.meets fun fuel => hobeyed.calls fuel m s hp
  · exact (hbad e rfl).elim
  · obtain ⟨-, hcleaned⟩ := hgood () s' rfl
    refine ⟨n, s', hn, ?_, hcleaned.meaning b hclosed⟩
    rw [Program.method, hcleaned.methods]
    exact hbody

/-- A method with a nop, a branch to a branch to a return, and an instruction
behind a branch. -/
def detour : Program where
  instrs := #[⟨.nop, .absent, some ⟨0⟩⟩, ⟨⟨0x52⟩, .target ⟨4⟩, some ⟨0⟩⟩,
    ⟨.br, .target ⟨5⟩, some ⟨0⟩⟩, ⟨.pop, .absent, some ⟨0⟩⟩,
    ⟨.br, .target ⟨2⟩, some ⟨0⟩⟩, ⟨⟨0x70⟩, .absent, some ⟨0⟩⟩]
  bodies := #[{ code := [⟨0⟩, ⟨1⟩, ⟨2⟩, ⟨3⟩, ⟨4⟩, ⟨5⟩] }]
  methods := #[{ name := "detour", body := some ⟨0⟩ }]

/-- The detours go, and the method means what it meant. -/
theorem meaning_kept_detour :
    detour.WellLinked ∧ detour.Closed ⟨0⟩ ∧
    (((ofPasses ⟨none, .never, 0⟩ Pass.cleanUps).optimize 60 (some ⟨0⟩)
      { program := detour, client := () }).2.program.code ⟨0⟩).length = 3 ∧
    ∃ n s', (∀ fuel, n ≤ fuel →
        (ofPasses ⟨none, .never, 0⟩ Pass.cleanUps).optimize fuel (some ⟨0⟩)
          { program := detour, client := () } = (.ok (), s')) ∧
      (s'.program.method ⟨0⟩).body = some ⟨0⟩ ∧
      ∀ (S : Type) (M : Machine S) (st : S) (x : Exit) (u : S),
        Ends M s'.program (s'.program.first? ⟨0⟩) st x u ↔
          Ends M detour (detour.first? ⟨0⟩) st x u := by
  have hp : detour.WellLinked := by decide
  have hclosed : detour.Closed ⟨0⟩ := by decide
  exact ⟨hp, hclosed, by decide +kernel, meaning_kept ⟨none, .never, 0⟩
    (fun _ h => h) (s := { program := detour, client := () }) hp rfl hclosed⟩

end Optimizer

end Bytecode
