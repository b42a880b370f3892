import Bytecode.Proofs.EachReturn
import Bytecode.Proofs.Finished

/-!
# Control never starts to run off the end

Dead code and nops are deleted even from the end of a body, a branch at the end
may become an exit, and the inliner copies code in front of the instruction
behind the call.  The last instruction can go only when control does not reach
it; what stands in front of it then takes over, and it does not fall through
either.  So a body that has an end behind which control cannot go keeps one,
`Editing.Effect.endsStopped` and `Inline.Replaces.endsStopped`.

The main statement is `never_runs_off`: it is so each time a pass returns.
-/

namespace Bytecode

namespace Program

variable {p q : Program} {b : BodyId} {i j k : InstrId}

/-- The body has a last instruction, and control does not run past it. -/
def EndsStopped (p : Program) (b : BodyId) : Prop :=
  ∃ i, (p.code b).getLast? = some i ∧ (p.instr i).fallsThrough = false

theorem endsStopped_iff : p.EndsStopped b ↔ p.code b ≠ [] ∧ p.Stops b := by
  constructor
  · rintro ⟨i, hlast, hi⟩
    refine ⟨List.ne_nil_of_mem (List.mem_of_getLast? hlast), fun k hk => ?_⟩
    have hik : i = k := Option.some.inj (hlast.symm.trans hk)
    rwa [← hik]
  · rintro ⟨hne, hstops⟩
    exact ⟨_, List.getLast?_eq_some_getLast hne,
      hstops _ (List.getLast?_eq_some_getLast hne)⟩

/-- The body is looked at, and nothing else. -/
theorem EndsStopped.agree (h : p.EndsStopped b) (hp : p.WellLinked)
    (hq : q.WellLinked) (hpq : AgreeOn b p q) : q.EndsStopped b := by
  obtain ⟨hne, hstops⟩ := endsStopped_iff.mp h
  have hcode : q.code b = p.code b := by rw [hq.code, hpq.body, hp.code]
  exact endsStopped_iff.mpr ⟨by rwa [hcode], hstops.agree hp hq hpq⟩

/-- What stands behind an instruction is another one of its body. -/
theorem mem_code_of_next (hp : p.WellLinked) (hi : i ∈ p.code b)
    (hnext : p.next i = some j) : j ∈ p.code b ∧ j ≠ i := by
  rw [hp.next hi] at hnext
  exact ⟨mem_of_elemAfter? hnext, elemAfter?_ne (hp.nodup_code b) hnext⟩

theorem code_without_ne_nil (hp : p.WellLinked) (hi : i ∈ p.code b)
    (hk : k ∈ p.code b) (hki : k ≠ i) : (p.without b i).code b ≠ [] :=
  List.ne_nil_of_mem ((mem_code_without hp hi).mpr ⟨hk, hki⟩)

theorem code_renewed_ne_nil (hp : p.WellLinked) (hi : i ∈ p.code b)
    (op : Opcode) (o : Operand) : (p.renewed b i op o).code b ≠ [] :=
  List.ne_nil_of_mem ((mem_code_renewed hp hi op o).mpr (Or.inl rfl))

theorem code_withPops_ne_nil (hp : p.WellLinked) (hi : i ∈ p.code b) (n : Nat) :
    (withPops b i n p).code b ≠ [] := by
  induction n generalizing p with
  | zero => exact List.ne_nil_of_mem hi
  | succ n ih => exact ih (hp.withNew hi _ _) ((mem_code_withNew hp hi _ _).mpr
      (Or.inr hi))

end Program

/-! ### One change -/

namespace Editing.Effect

variable {s : Editing} {i : InstrId} {pass : Pass} {q : Program}

/-- A pass does not delete the only instruction of a stopped body. -/
theorem code_ne_nil (he : s.Effect i pass q) (hs : s.Sound) (hi : i ∈ s.code)
    (hstops : s.program.Stops s.editor.body) : q.code s.editor.body ≠ [] := by
  have hp := hs.linked
  cases he with
  | exit => exact Program.code_renewed_ne_nil hp hi _ _
  | jump _ hnext =>
      obtain ⟨hn, hne⟩ := Program.mem_code_of_next hp hi hnext
      exact Program.code_without_ne_nil hp hi hn hne
  | pops =>
      have hnew :=
        (Program.mem_code_renewed hp hi .pop .absent).mpr (Or.inl rfl)
      exact Program.code_withPops_ne_nil (hp.renewed hi .pop .absent) hnew _
  | nop hkind =>
      -- A nop falls through, so it is not the last instruction.
      have hfalls : (s.program.instr i).fallsThrough = true := by
        rw [Instr.fallsThrough, hkind]
        rfl
      obtain ⟨n, hn⟩ := Option.isSome_iff_exists.mp (hstops.next hp hi hfalls)
      obtain ⟨hnc, hne⟩ := Program.mem_code_of_next hp hi hn
      exact Program.code_without_ne_nil hp hi hnc hne
  | dead hfirst =>
      -- Dead code is not the first instruction, so that one is left.
      cases hcode : s.code with
      | nil =>
          rw [hcode] at hi
          cases hi
      | cons k rest =>
          have hk : s.program.first? s.editor.body = some k := by
            rw [hp.first?]
            exact congrArg List.head? hcode
          have hki : k ≠ i := by
            rintro rfl
            exact hfirst hk
          have hkc : k ∈ s.code := by
            rw [hcode]
            exact List.mem_cons_self
          exact Program.code_without_ne_nil hp hi hkc hki
  | @chain mid t =>
      have hsame : (s.program.setTarget i (some t)).code s.editor.body =
          s.code :=
        Program.code_setTargets [i]
      rw [hsame]
      exact List.ne_nil_of_mem hi

/-- **A local pass leaves the body stopped**, with an instruction in it. -/
theorem endsStopped (he : s.Effect i pass q) (hs : s.Sound) (hi : i ∈ s.code)
    (h : s.program.EndsStopped s.editor.body) :
    q.EndsStopped s.editor.body := by
  obtain ⟨-, hstops⟩ := Program.endsStopped_iff.mp h
  exact Program.endsStopped_iff.mpr ⟨he.code_ne_nil hs hi hstops,
    he.stops hs hi hstops⟩

end Editing.Effect

namespace Inline

variable {s s' : Editing} {base : Nat} {anchor call : InstrId}
  {code : List InstrId} {copies : List (InstrId × InstrId)} {c : BodyId}

/-- Copying takes nothing out of the body. -/
theorem CopyRun.anchor_mem (hrun : CopyRun base anchor code copies s s')
    (hs : s.Sound) (hanchor : anchor ∈ s.code) :
    anchor ∈ s'.program.code s.editor.body := by
  induction hrun with
  | stop => exact hanchor
  | exit _ _ hprog =>
      rw [hprog, Program.code_redirect]
      exact hanchor
  | copy _ _ hs₁ hprog _ ih =>
      rw [← hs₁.body]
      refine ih hs₁.sound ?_
      rw [Editing.code, hs₁.body, hprog, mem_code_copied hs.linked hanchor]
      exact Or.inr hanchor

theorem Replaces.anchor_mem (h : Replaces call c anchor s s') (hs : s.Sound)
    (hcall : call ∈ s.code) (hnext : s.program.next call = some anchor) :
    anchor ∈ s'.program.code s.editor.body := by
  obtain ⟨t, ht, htake⟩ := h.cleared hs hcall hnext
  have hanchor := ht.anchor
  rw [← ht.body]
  cases htake with
  | nothing _ heq =>
      rw [heq]
      exact hanchor
  | @copies s₂ hslots hrun =>
      have hanchor₂ : anchor ∈ s₂.code := by
        rwa [Editing.code, hslots.body, hslots.codes]
      have hmem := hrun.anchor_mem hslots.sound hanchor₂
      rwa [hslots.body] at hmem

/-- **The inliner leaves the body stopped**: it copies in front of the anchor
only. -/
theorem Replaces.endsStopped (h : Replaces call c anchor s s') (hs : s.Sound)
    (hcall : call ∈ s.code) (hnext : s.program.next call = some anchor)
    (hends : s.program.EndsStopped s.editor.body) :
    s'.program.EndsStopped s.editor.body := by
  obtain ⟨-, hstops⟩ := Program.endsStopped_iff.mp hends
  exact Program.endsStopped_iff.mpr ⟨List.ne_nil_of_mem
    (h.anchor_mem hs hcall hnext), h.stops hs hcall hnext hstops⟩

end Inline

/-! ### Runs -/

namespace Optimizer

/-- The bodies of methods that had code in `p₀` end stopped in `p`. -/
def StillStopped (p₀ p : Program) : Prop :=
  ∀ m b, (p₀.method m).body = some b → p₀.code b ≠ [] → p.EndsStopped b

theorem StillStopped.change {p₀ p q : Program} {b : BodyId}
    (h : StillStopped p₀ p) (hp : p.WellLinked) (hq : q.WellLinked)
    (hpq : p.ChangedIn b q) (hb : p.EndsStopped b → q.EndsStopped b) :
    StillStopped p₀ q := by
  intro m c hc hcode
  by_cases hcb : c = b
  · rw [hcb]
    exact hb (hcb ▸ h m c hc hcode)
  · exact (h m c hc hcode).agree hp hq (hpq.agreeOn hp hcb)

theorem withstands_stillStopped (p₀ : Program) :
    Withstands (StillStopped p₀) where
  effect := fun h hi _ he heffect hkept =>
    hkept.change h.linked he.sound.linked he.changed (heffect.endsStopped h hi)
  taken := fun h hcall hnext _ _ _ hrep hkept =>
    hkept.change h.linked hrep.evolves.sound.linked hrep.evolves.changed
      (hrep.endsStopped h hcall hnext)

section Requests

variable {cfg : InlineSettings} {passes : List Pass}
  {s start : Session (List Program)}

/-- **Control never starts to run off the end.**  An optimiser with any passes
in any order, any policy and any budget starts on a program whose methods share
no bodies and in which every body with code ends in an instruction that does not
fall through, and has served any requests.  Whatever it is asked next, and
whether or not that comes to an end: each time a pass returns to the driver,
every body that had code still has some and ends in an instruction that does not
fall through, and so it is when the request comes back.  An optimiser that does
not record does the same. -/
theorem never_runs_off (hp : start.program.WellLinked)
    (hshare : start.program.Unshared)
    (hstops : ∀ m b, (start.program.method m).body = some b →
      start.program.Stops b) (hclient : start.client = [])
    (hs : Served (recording cfg passes) start s) (fuel : Nat) (q : Request) :
    (∀ p ∈ (q.perform (recording cfg passes) fuel s).2.client,
      StillStopped start.program p) ∧
    (returned (q.perform (recording cfg passes) fuel s).1 = true → StillStopped
      start.program (q.perform (recording cfg passes) fuel s).2.program) ∧
    ∀ (τ : Type) (t : Session τ), t.Alike s →
    Parallel Session.Alike (q.perform (ofPasses cfg passes) fuel t)
    (q.perform (recording cfg passes) fuel s) := by
  have hstart : StillStopped start.program start.program := fun m b hb hcode =>
    Program.endsStopped_iff.mpr ⟨hcode, hstops m b hb⟩
  obtain ⟨hrecorded, hend⟩ :=
    withstands_request
      (withstands_stillStopped start.program) hp hshare hstart hclient hs fuel q
  exact ⟨hrecorded, hend, fun τ t ht => recording_parallel fuel q ht⟩

end Requests

/-- A method that calls another one, with an exit at its end that is not
reached. -/
def callBeforeEnd : Program where
  instrs := #[⟨.call, .method ⟨"", "step", [], "void"⟩, some ⟨0⟩⟩,
    ⟨.br, .target ⟨2⟩, some ⟨0⟩⟩, ⟨⟨0x70⟩, .absent, some ⟨0⟩⟩,
    ⟨.br, .target ⟨2⟩, some ⟨0⟩⟩, ⟨.nop, .absent, some ⟨1⟩⟩,
    ⟨⟨0x71⟩, .absent, some ⟨1⟩⟩]
  bodies := #[{ code := [⟨0⟩, ⟨1⟩, ⟨2⟩, ⟨3⟩] }, { code := [⟨4⟩, ⟨5⟩] }]
  methods := #[{ name := "main", body := some ⟨0⟩ },
    { name := "step", body := some ⟨1⟩ }]

/-- Every call of one of the two methods may be inlined. -/
def inlineStep : InlineSettings where
  resolution := some (.ofMethods callBeforeEnd [⟨0⟩, ⟨1⟩])
  policy := .always

/-- The run takes the call in and shortens the end of `main`, and no body loses
its end on the way. -/
theorem never_runs_off_callBeforeEnd :
    callBeforeEnd.WellLinked ∧ callBeforeEnd.Unshared ∧
    (∀ m b, (callBeforeEnd.method m).body = some b → callBeforeEnd.Stops b) ∧
    ((Request.run [⟨0⟩, ⟨1⟩]).perform (recording inlineStep Pass.standard) 60
      { program := callBeforeEnd, client := [] }).2.stats.inlined = 1 ∧
    (((Request.run [⟨0⟩, ⟨1⟩]).perform (recording inlineStep Pass.standard) 60
      { program := callBeforeEnd, client := [] }).2.program.code ⟨0⟩).length =
    1 ∧ (∀ p ∈ ((Request.run [⟨0⟩, ⟨1⟩]).perform (recording inlineStep
      Pass.standard) 60 { program := callBeforeEnd, client := [] }).2.client,
      StillStopped callBeforeEnd p) ∧ StillStopped callBeforeEnd
    ((Request.run [⟨0⟩, ⟨1⟩]).perform (recording inlineStep Pass.standard) 60
      { program := callBeforeEnd, client := [] }).2.program := by
  have hp : callBeforeEnd.WellLinked := by decide
  have hshare : callBeforeEnd.Unshared := by decide
  have hstops : ∀ m b, (callBeforeEnd.method m).body = some b →
      callBeforeEnd.Stops b := by
    have hall :
        ∀ n < callBeforeEnd.methods.size, ∀ b ∈ (callBeforeEnd.method ⟨n⟩).body,
        callBeforeEnd.Stops b := by decide
    exact fun m b hb => hall m.index (Program.index_lt_of_body hb) b hb
  have hstart : Served (recording inlineStep Pass.standard)
      { program := callBeforeEnd,
        client := [] } { program := callBeforeEnd, client := [] } := .start
  -- the request is evaluated once for all that is read off from its end
  obtain ⟨hinlined, hlength, hreturned⟩ :
      ((Request.run [⟨0⟩, ⟨1⟩]).perform (recording inlineStep Pass.standard) 60
        { program := callBeforeEnd, client := [] }).2.stats.inlined = 1 ∧
      (((Request.run [⟨0⟩, ⟨1⟩]).perform (recording inlineStep Pass.standard) 60
        { program := callBeforeEnd, client := [] }).2.program.code ⟨0⟩).length =
      1 ∧ returned
      ((Request.run [⟨0⟩, ⟨1⟩]).perform (recording inlineStep Pass.standard) 60
        { program := callBeforeEnd, client := [] }).1 = true := by
    decide +kernel
  have h := never_runs_off hp hshare hstops rfl hstart 60 (.run [⟨0⟩, ⟨1⟩])
  exact ⟨hp, hshare, hstops, hinlined, hlength, h.1, h.2.1 hreturned⟩

end Optimizer

end Bytecode
