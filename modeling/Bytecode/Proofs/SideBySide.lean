import Bytecode.Proofs.Outlook

/-!
# Visits side by side

The same method may be visited early in one run and late in another.  Where an
outlook is right about all methods that its calls lead to, the two visits go
side by side through the same steps, each under its own names: the callees'
visits in between may do more in the one than in the other, but what they come
to is foretold.

The main statement is `Comparison.Fair.optimize`.
-/

namespace Bytecode

open Inline (Reaches)

variable {σ τ : Type}

/-! ### Computations in pairs -/

section Paired

variable {α β S T : Type} {good : α → S → β → T → Prop} {x : Except Fault α × S}
  {y : Except Fault β × T}

/-- Both computations come to an end, as `good` says, or both fail; only where
one runs out of fuel, nothing is said about the other. -/
def Paired (good : α → S → β → T → Prop) :
    Except Fault α × S → Except Fault β × T → Prop
  | (.ok a, s), (.ok b, t) => good a s b t
  | (.error e, _), (.ok _, _) => e = .outOfFuel
  | (.ok _, _), (.error e, _) => e = .outOfFuel
  | (.error _, _), (.error _, _) => True

/-- A left side without fuel goes with everything. -/
theorem paired_outOfFuel (s : S) : Paired good (.error .outOfFuel, s) y := by
  obtain ⟨e | b, t⟩ := y
  · trivial
  · rfl

/-- So does a right side without fuel. -/
theorem outOfFuel_paired (t : T) : Paired good x (.error .outOfFuel, t) := by
  obtain ⟨e | a, s⟩ := x
  · trivial
  · rfl

/-- What a failure is part of is told on both sides. -/
theorem Paired.within (h : Paired good x y) (c d : String) :
    Paired good (x.1.mapError (Fault.within c), x.2)
    (y.1.mapError (Fault.within d), y.2) := by
  obtain ⟨e | a, s⟩ := x
  · obtain ⟨e' | b, t⟩ := y
    · trivial
    · obtain rfl : e = .outOfFuel := h
      rfl
  · obtain ⟨e' | b, t⟩ := y
    · obtain rfl : e' = .outOfFuel := h
      rfl
    · exact h

/-- Computations that go on with others, unless they have failed. -/
@[elab_as_elim]
theorem Paired.next {motive : Except Fault α × S → Except Fault β × T → Prop}
    (h : Paired good x y) (left : ∀ s y, motive (.error .outOfFuel, s) y)
    (right : ∀ x t, motive x (.error .outOfFuel, t))
    (both : ∀ e s e' t, motive (.error e, s) (.error e', t))
    (ok : ∀ a s b t, good a s b t → motive (.ok a, s) (.ok b, t)) :
    motive x y := by
  obtain ⟨e | a, s⟩ := x
  · obtain ⟨e' | b, t⟩ := y
    · exact both e s e' t
    · obtain rfl : e = .outOfFuel := h
      exact left s _
  · obtain ⟨e' | b, t⟩ := y
    · obtain rfl : e' = .outOfFuel := h
      exact right _ t
    · exact ok a s b t h

end Paired

/-! ### Two visits -/

/-- Two visits of a method, one begun in each session. -/
structure Comparison (σ τ : Type) where
  cfg : InlineSettings
  passes : List Pass
  /-- The program that both sessions come from. -/
  start : Program
  outlook : Outlook
  method : MethodId
  left : Session σ
  right : Session τ

namespace Comparison

/-- The optimiser that both visits belong to. -/
abbrev optimizer (x : Comparison σ τ) (ρ : Type) : Optimizer ρ :=
  .ofPasses x.cfg x.passes

/-- Both visits may begin. -/
structure Fair (x : Comparison σ τ) : Prop where
  left : x.left.Clear x.cfg x.passes x.start x.outlook x.method
  right : x.right.Clear x.cfg x.passes x.start x.outlook x.method

/-- The visits have come to the same point, where the instructions of the one
have the names `f` in the other. -/
structure Beside (x : Comparison σ τ) (f : InstrId → InstrId) (v : Visit σ)
    (w : Visit τ) : Prop where
  left : v.Watched x.cfg x.start x.outlook x.left x.method
  right : w.Watched x.cfg x.start x.outlook x.right x.method
  renames : Program.Renames f v.editor.body v.session.program w.session.program
  inlined : w.editor.inlined = v.editor.inlined
  pos : w.editor.pos = v.editor.pos.map f
  gain : ∀ k, v.session.excess x.outlook k - x.left.excess x.outlook k =
    w.session.excess x.outlook k - x.right.excess x.outlook k

/-- The visits have come to the same point and are offered the same
instruction. -/
structure Offered (x : Comparison σ τ) (f : InstrId → InstrId) (i : InstrId)
    (v : Visit σ) (w : Visit τ) : Prop extends Beside x f v w where
  poised : v.Poised i
  poised' : w.Poised (f i)

/-- A rule of that name has been applied: either nothing has changed in either
visit, or in both, and they go on together. -/
def Applied (x : Comparison σ τ) (f : InstrId → InstrId) (i : InstrId)
    (name : String) : Unit → Visit σ → Unit → Visit τ → Prop := fun _ v _ w =>
  (v.editor.dirty = false ∧ w.editor.dirty = false ∧ x.Offered f i v w) ∨
    v.editor.dirty = true ∧ w.editor.dirty = true ∧
      ∃ g, x.Beside g (v.taken name).rewound (w.taken name).rewound

variable {x : Comparison σ τ} {f g : InstrId → InstrId} {v v' : Visit σ}
  {w w' : Visit τ} {i anchor : InstrId} {b : BodyId} {c : MethodId}
  {name : String}

/-- Both visits work on the same body. -/
theorem Beside.body (h : x.Beside f v w) : w.editor.body = v.editor.body :=
  Option.some.inj (h.right.bodyOf.symm.trans h.left.bodyOf)

/-- A pass that has done nothing on both sides. -/
theorem Offered.quiet (h : x.Offered f i v w) (name : String) :
    x.Applied f i name () v () w :=
  Or.inl ⟨h.left.clean, h.right.clean, h⟩

/-! ### Moving on -/

/-- What is offered on the right stands for what is offered on the left. -/
theorem Beside.target (h : x.Beside f v w) :
    w.advanced.editor.target = v.advanced.editor.target.map f := by
  rw [Visit.target_advanced, Visit.target_advanced, h.pos]
  cases hpos : v.editor.pos with
  | none =>
      rw [Option.map_none]
      simp only
      rw [h.body]
      exact h.renames.first? h.right.linked h.left.linked
  | some k =>
      rw [Option.map_some]
      simp only
      exact h.renames.next h.right.linked h.left.linked
        (h.left.inside.pos k hpos)

/-- Both visits have more to come, or neither has. -/
theorem Beside.more (h : x.Beside f v w) : w.more = v.more := by
  have htarget := congrArg Option.isSome h.target
  rwa [Option.isSome_map] at htarget

/-- Both visits move on. -/
theorem Beside.advanced (h : x.Beside f v w) :
    x.Beside f v.advanced w.advanced where
  left := h.left.advanced
  right := h.right.advanced
  renames := h.renames
  inlined := h.inlined
  pos := h.target
  gain := h.gain

/-- Both visits begin again. -/
theorem Beside.restarted (h : x.Beside f v w) :
    x.Beside f v.restarted w.restarted where
  left := h.left.restarted
  right := h.right.restarted
  renames := h.renames
  inlined := h.inlined
  pos := rfl
  gain := h.gain

/-- Both visits offer an instruction. -/
theorem Beside.offered (h : x.Beside f v w) (hmore : v.more = true) :
    ∃ i, x.Offered f i v.advanced w.advanced := by
  obtain ⟨i, hi⟩ := h.left.toSteady.offers hmore
  have htarget : w.advanced.editor.target = some (f i) := by
    rw [h.target, hi.1, Option.map_some]
  have hmem : f i ∈ w.advanced.editing.code := h.right.toSteady.mem_next htarget
  refine ⟨i, h.advanced, ⟨hi, ?_⟩, ⟨⟨htarget, hmem⟩, ?_⟩⟩
  · rw [Visit.anchor_advanced, hi.1]
    rfl
  · rw [Visit.anchor_advanced, htarget]
    rfl

/-- Both offer it as long as nothing is edited. -/
theorem Offered.untouched {e e' : Editing} (h : x.Offered f i v w)
    (he : v.editing.Untouched e) (he' : w.editing.Untouched e') :
    x.Offered f i (v.setEditing e) (w.setEditing e') where
  left := h.left.untouched he
  right := h.right.untouched he'
  renames := by
    have hbody : (v.setEditing e).editor.body = v.editor.body := he.edited.body
    rw [Visit.setEditing_session he.program,
      Visit.setEditing_session he'.program, hbody]
    exact h.renames
  inlined := he'.edited.inlined.trans (h.inlined.trans he.edited.inlined.symm)
  pos := by
    change e'.editor.pos = e.editor.pos.map f
    rw [he.editor, he'.editor]
    exact h.pos
  gain := by
    rw [Visit.setEditing_session he.program,
      Visit.setEditing_session he'.program]
    exact h.gain
  poised := h.poised.untouched he
  poised' := h.poised'.untouched he'

/-- After a change of the same kind in both bodies the visits go on together. -/
theorem Offered.fired (h : x.Offered f i v w)
    (he : v.editing.Evolves v'.editing) (he' : w.editing.Evolves w'.editing)
    (hs : v'.session = { v.session with
      program := v'.session.program, stats := v'.session.stats })
    (hs' : w'.session = { w.session with
      program := w'.session.program, stats := w'.session.stats })
    (htrack : (v'.taken name).rewound.OnTrack x.cfg x.start x.left x.method)
    (htrack' : (w'.taken name).rewound.OnTrack x.cfg x.start x.right x.method)
    (hg : Program.Renames g v.editor.body v'.session.program w'.session.program)
    (hsame : ∀ k ∈ v.editing.code, k ≠ i → g k = f k)
    (hinlined : w'.editor.inlined = v'.editor.inlined)
    (htally : ∀ k, v'.session.stats.tally k - v.session.stats.tally k =
      w'.session.stats.tally k - w.session.stats.tally k) :
    x.Beside g (v'.taken name).rewound (w'.taken name).rewound where
  left := h.left.fired he hs htrack
  right := h.right.fired he' hs' htrack'
  renames := by
    have hbody : v'.editor.body = v.editor.body := he.body
    change
      Program.Renames g v'.editor.body v'.session.program w'.session.program
    rw [hbody]
    exact hg
  inlined := hinlined
  pos := by
    obtain ⟨hanchor, hmem⟩ := he.anchored (h.poised.anchored h.left.linked)
    obtain ⟨hanchor', -⟩ := he'.anchored (h.poised'.anchored h.right.linked)
    have hfront : w.editor.anchor = v.editor.anchor.map f := by
      rw [h.poised.anchor, h.poised'.anchor]
      exact h.renames.prev h.right.linked h.left.linked h.poised.offers.2
    change w'.editing.editor.anchor.bind w'.session.program.prev =
      (v'.editing.editor.anchor.bind v'.session.program.prev).map g
    rw [hanchor']
    change w.editor.anchor.bind w'.session.program.prev = _
    rw [hfront, hanchor]
    change _ = (v.editor.anchor.bind v'.session.program.prev).map g
    cases hk : v.editor.anchor with
    | none => rfl
    | some k =>
        obtain ⟨hkc, hki⟩ := h.poised.anchored h.left.linked k hk
        have hki' : k ≠ i := by
          rintro rfl
          exact hki h.poised.offers.1
        have hkc' : k ∈ v'.session.program.code v.editor.body := by
          have hbody : v'.editing.editor.body = v.editor.body := he.body
          rw [← hbody]
          exact (hmem k (hanchor.trans hk)).1
        rw [Option.map_some, Option.bind_some, Option.bind_some,
          ← hsame k hkc hki']
        exact hg.prev he'.sound.linked he.sound.linked hkc'
  gain := by
    intro k
    have hgain := h.gain k
    have hleft : (v'.taken name).rewound.session.excess x.outlook k -
        v.session.excess x.outlook k =
          (v'.taken name).session.stats.tally k - v.session.stats.tally k :=
      Session.excess_of_progress (by
        change v'.session.progress = v.session.progress
        rw [hs]) k
    have hright : (w'.taken name).rewound.session.excess x.outlook k -
        w.session.excess x.outlook k =
          (w'.taken name).session.stats.tally k - w.session.stats.tally k :=
      Session.excess_of_progress (by
        change w'.session.progress = w.session.progress
        rw [hs']) k
    have hbump :
        (v'.taken name).session.stats.tally k = v'.session.stats.tally k +
        if k = .fired name then 1 else 0 := Stats.tally_bump _ _ _
    have hbump' :
        (w'.taken name).session.stats.tally k = w'.session.stats.tally k +
        if k = .fired name then 1 else 0 := Stats.tally_bump _ _ _
    have hsame := htally k
    omega

/-! ### Local passes -/

/-- An effect in one body is an effect in the other. -/
theorem Beside.effect (h : x.Beside f v w) (hi : i ∈ v.editing.code)
    {pass : Pass} {q : Program} (he : v.editing.Effect i pass q) :
    ∃ q' g, w.editing.Effect (f i) pass q' ∧
      Program.Renames g v.editor.body q q' ∧ ∀ k ∈ v.editing.code, k ≠ i →
      g k = f k := by
  obtain ⟨q', g, he', hg, hsame⟩ := he.along
    (e := v.editor) h.left.linked h.right.linked h.left.closedBody h.renames hi
  exact ⟨q', g, he'.of_body h.body, hg, hsame⟩

/-- What has an effect on the one side has one on the other. -/
theorem Beside.effect_back (h : x.Beside f v w) (hi : i ∈ v.editing.code)
    {pass : Pass} {q' : Program} (he : w.editing.Effect (f i) pass q') :
    ∃ q, v.editing.Effect i pass q := by
  obtain ⟨g, hg, hback⟩ :=
    h.renames.inverse h.left.linked h.right.linked h.left.closedBody
  have hbody := h.body
  obtain ⟨q, -, he', -, -⟩ :=
    he.along (e := w.editor) (f := g) h.right.linked h.left.linked
    h.right.closedBody (by rwa [hbody]) (by rw [hbody]; exact h.renames.mem hi)
  rw [hback i hi] at he'
  exact ⟨q, he'.of_body hbody.symm⟩

/-- A local pass finds nothing to do, or has its effect. -/
theorem local_cases (cfg : InlineSettings) {pass : Pass}
    (hpass : pass ≠ .inlineFunctionCall)
    (optimize : Option MethodId → SessionM σ Unit) (hv : v.Steady)
    (hi : v.Offers i) :
    (∃ e, v.editing.Untouched e ∧ (∀ q, ¬ v.editing.Effect i pass q) ∧
      (pass.rule cfg).apply optimize v = (.ok (), v.setEditing e)) ∨
    ∃ e, v.editing.Changed e ∧ v.editing.Effect i pass e.program ∧
    (pass.rule cfg).apply optimize v = (.ok (), v.setEditing e) := by
  have hstep := Pass.rule_step cfg optimize hv.sound hi.1 hi.2 pass
  generalize hr : (pass.rule cfg).apply optimize v = r at hstep
  cases hstep with
  | @quiet _ e he =>
      refine Or.inl ⟨e, he, fun q heffect => ?_, rfl⟩
      have hdirty : ((pass.rule cfg).apply optimize v).2.editor.dirty = true :=
        heffect.dirty hv.sound hi.1 hi.2 optimize
      rw [hr, (hv.untouched he).clean] at hdirty
      cases hdirty
  | @fires _ e he heffect => exact Or.inr ⟨e, he, heffect, rfl⟩
  | inlines => exact absurd rfl hpass

/-- The track of a visit after a local pass. -/
theorem track_local (cfg : InlineSettings) {p : Program} {s : Session σ}
    {m : MethodId} {e : Editing} {pass : Pass} (hv : v.OnTrack cfg p s m)
    (hi : v.Offers i) (he : v.editing.Changed e)
    (heffect : v.editing.Effect i pass e.program) (name : String) :
    ((v.setEditing e).taken name).rewound.OnTrack cfg p s m :=
  hv.evolved he.toEvolves (heffect.closed hv.sound hi.2 (hv.closed m _ hv.body))
    (hv.traced.effect (e := v.editing) rfl hv.sound hi.2 hv.body heffect)
    v.session.stats name

/-- **A local pass does the same in both visits.** -/
theorem Offered.localPass (h : x.Offered f i v w) {pass : Pass}
    (hpass : pass ≠ .inlineFunctionCall) (F : Option MethodId → SessionM σ Unit)
    (G : Option MethodId → SessionM τ Unit) (name : String) :
    Paired (x.Applied f i name) ((pass.rule x.cfg).apply F v)
    ((pass.rule x.cfg).apply G w) := by
  have hi := h.poised.offers
  have hi' := h.poised'.offers
  rcases local_cases x.cfg hpass F h.left.toSteady hi with
    ⟨e, he, hnone, heq⟩ | ⟨e, he, heffect, heq⟩
  · rcases local_cases x.cfg hpass G h.right.toSteady hi' with
      ⟨e', he', -, heq'⟩ | ⟨e', he', heffect', heq'⟩
    · rw [heq, heq']
      exact (h.untouched he he').quiet name
    · obtain ⟨q, hq⟩ := h.effect_back hi.2 heffect'
      exact absurd hq (hnone q)
  · obtain ⟨q', g, hq', hg, hsame⟩ := h.effect hi.2 heffect
    rcases local_cases x.cfg hpass G h.right.toSteady hi' with
      ⟨e', he', hnone, heq'⟩ | ⟨e', he', heffect', heq'⟩
    · exact absurd hq' (hnone q')
    · rw [heq, heq']
      obtain rfl := heffect'.unique hq'
      refine Or.inr ⟨he.dirty, he'.dirty, g, ?_⟩
      refine h.fired he.toEvolves he'.toEvolves rfl rfl
        (track_local x.cfg h.left.toOnTrack hi he heffect name)
        (track_local x.cfg h.right.toOnTrack hi' he' heffect' name) hg hsame ?_
        (fun _ => ?_)
      · exact he'.inlined.trans (h.inlined.trans he.inlined.symm)
      · change v.session.stats.tally _ - _ = w.session.stats.tally _ - _
        omega

/-! ### Inlining -/

/-- **A callee is taken in in both visits**, or in neither. -/
theorem Offered.takeIn (h : x.Offered f i v w)
    (hcallee : Inline.callee? x.cfg v.editing i = some c)
    (hcallee' : Inline.callee? x.cfg w.editing (f i) = some c)
    (hyes : x.cfg.policy 0 x.start (some c) = true)
    (hnext : v.session.program.next i = some anchor)
    (hbody : (x.start.method c).body = some b)
    (hform : w.session.program.form b = v.session.program.form b)
    (name : String) : Paired (x.Applied f i name) (Inline.takeIn i b anchor v)
    (Inline.takeIn (f i) b (f anchor) w) := by
  have hi := h.poised.offers.2
  have hnext' : w.session.program.next (f i) = some (f anchor) := by
    rw [h.renames.next h.right.linked h.left.linked hi, hnext, Option.map_some]
  have hclosed := h.left.closedOf hbody
  obtain ⟨k, hk⟩ :=
    Program.exists_renames h.left.linked h.right.linked hclosed hform
  have hblocked := Inline.blocked_iff h.renames.frame hk
  rcases h.left.takeIn h.poised.offers hcallee hyes hnext hbody with ⟨v', hstop,
    hblock⟩ | ⟨v', hv⟩
  · rcases h.right.takeIn h.poised'.offers hcallee' hyes hnext' hbody with ⟨w',
      hstop', -⟩ | ⟨w', hw⟩
    · rw [hstop, hstop']
      trivial
    · obtain ⟨nop, inner, a, hspliced⟩ := hw.spliced
      rw [← hblocked, ← h.body] at hblock
      exact absurd hblock hspliced.not_blocked
  · obtain ⟨nop, inner, a, hspliced⟩ := hv.spliced
    rcases h.right.takeIn h.poised'.offers hcallee' hyes hnext' hbody with ⟨w',
      -, hblock⟩ | ⟨w', hw⟩
    · rw [h.body, hblocked] at hblock
      exact absurd hblock hspliced.not_blocked
    · obtain ⟨nop', inner', a', hspliced'⟩ := hw.spliced
      rw [h.body] at hspliced'
      obtain ⟨g, hg, hsame⟩ := hspliced.along hspliced' h.left.linked
        h.right.linked h.left.closedBody hclosed h.renames hk hi hnext
      rw [hv.ok, hw.ok]
      refine Or.inr ⟨hv.replaces.1, hw.replaces.1, g, ?_⟩
      refine h.fired hv.replaces.evolves hw.replaces.evolves hv.session
        hw.session (hv.track name) (hw.track name) hg hsame ?_ fun k => ?_
      · have hone : v'.editor.inlined = v.editor.inlined + 1 :=
          hv.replaces.inlined
        have hone' : w'.editor.inlined = w.editor.inlined + 1 :=
          hw.replaces.inlined
        rw [hone, hone', h.inlined]
      · rw [hv.stats, hw.stats]
        cases k <;> simp [Stats.tally]

/-- A call on offer leads to the same callee in both visits. -/
theorem Offered.callee? (h : x.Offered f i v w) :
    Inline.callee? x.cfg w.editing (f i) =
    Inline.callee? x.cfg v.editing i := by
  have hkind :
      (w.editing.program.instr (f i)).kind = (v.editing.program.instr i).kind :=
    h.renames.kind h.poised.offers.2
  have hmethod : w.editing.editor.method = v.editing.editor.method :=
    h.right.method.trans h.left.method.symm
  rw [Inline.callee?, Inline.callee?]
  simp only [hkind, hmethod]
  split
  · next hcall =>
      have hbr : (v.editing.program.instr i).isBranch = false := by
        by_contra hbr
        exact Inline.kind_ne_call_of_isBranch (Bool.not_eq_false _ ▸ hbr) hcall
      have hoperand : (w.editing.program.instr (f i)).operand =
          (v.editing.program.instr i).operand :=
        (h.renames.instr i h.poised.offers.2).operand hbr
      rw [hoperand]
  · rfl

/-- The memo has been asked about a callee, and counts have changed in the same
way. -/
theorem Offered.asked (h : x.Offered f i v w) (hfixed : x.cfg.policy.Fixed)
    (c : MethodId) {stats stats' : Stats} (htally : ∀ k, stats.tally k -
      v.session.stats.tally k = stats'.tally k - w.session.stats.tally k) :
    x.Offered f i { v with
      session := { Inline.consulted x.cfg c v.session with stats } } { w with
        session :=
          { Inline.consulted x.cfg c w.session with stats := stats' } } where
  left := h.left.asked hfixed c stats
  right := h.right.asked hfixed c stats'
  renames := h.renames
  inlined := h.inlined
  pos := h.pos
  gain := by
    intro k
    have hleft := Session.excess_of_progress (o := x.outlook) (s := v.session)
      (t := { Inline.consulted x.cfg c v.session with stats }) rfl k
    have hright := Session.excess_of_progress (o := x.outlook) (s := w.session)
      (t := { Inline.consulted x.cfg c w.session with stats := stats' }) rfl k
    have hgain := h.gain k
    have hsame := htally k
    simp only at hleft hright ⊢
    omega
  poised := ⟨h.poised.offers, h.poised.anchor⟩
  poised' := ⟨h.poised'.offers, h.poised'.anchor⟩

/-- Callees have been visited in between. -/
theorem Offered.nested (h : x.Offered f i v w) {t : Session σ} {t' : Session τ}
    (ht : Visit.Watched x.cfg x.start x.outlook x.left x.method { v with
      session := t })
    (ht' : Visit.Watched x.cfg x.start x.outlook x.right x.method { w with
      session := t' }) (hext : v.session.Extends t)
    (hext' : w.session.Extends t')
    (hexcess : ∀ k, t.excess x.outlook k = v.session.excess x.outlook k)
    (hexcess' : ∀ k, t'.excess x.outlook k = w.session.excess x.outlook k) :
    x.Offered f i { v with session := t } { w with session := t' } where
  left := ht
  right := ht'
  renames := by
    have hagree := h.right.agree hext'
    rw [h.body] at hagree
    exact h.renames.agree h.left.linked ht.linked h.right.linked ht'.linked
      (h.left.agree hext) hagree
  inlined := h.inlined
  pos := h.pos
  gain := by
    intro k
    rw [hexcess, hexcess']
    exact h.gain k
  poised := ⟨h.left.offers_nested ht.linked hext h.poised.offers, by
    have hprev :=
      (h.left.agree hext).prev_eq h.left.linked ht.linked h.poised.offers.2
    exact h.poised.anchor.trans hprev.symm⟩
  poised' := ⟨h.right.offers_nested ht'.linked hext' h.poised'.offers, by
    have hprev :=
      (h.right.agree hext').prev_eq h.right.linked ht'.linked h.poised'.offers.2
    exact h.poised'.anchor.trans hprev.symm⟩

/-- **Visits of callees in between** are over in both visits, or have failed in
both. -/
theorem Offered.called (h : x.Offered f i v w) (hx : x.Fair)
    (hcallee : Inline.callee? x.cfg v.editing i = some c)
    (hyes : x.cfg.policy 0 x.start (some c) = true) (n k : Nat) :
    Paired (fun _ t _ t' =>
        Visit.Returned x.cfg x.start x.outlook x.left x.method v i c t ∧
        Visit.Returned x.cfg x.start x.outlook x.right x.method w (f i) c t')
      ((x.optimizer σ).optimize n (some c) (Inline.consulted x.cfg c v.session))
      ((x.optimizer τ).optimize k (some c)
        (Inline.consulted x.cfg c w.session)) := by
  have hleft := h.left.called hx.left h.poised.offers hcallee hyes n
  have hright :=
    h.right.called hx.right h.poised'.offers (h.callee?.trans hcallee) hyes k
  generalize (x.optimizer σ).optimize n (some c)
    (Inline.consulted x.cfg c v.session) = r at hleft ⊢
  generalize (x.optimizer τ).optimize k (some c)
    (Inline.consulted x.cfg c w.session) = r' at hright ⊢
  obtain ⟨e | ⟨⟩, t⟩ := r
  · obtain ⟨e' | ⟨⟩, t'⟩ := r'
    · trivial
    · exact hleft.resolve_right (not_not.mpr hright.fine)
  · obtain ⟨e' | ⟨⟩, t'⟩ := r'
    · exact hright.resolve_right (not_not.mpr hleft.fine)
    · exact ⟨hleft, hright⟩

/-- What the inliner does with a call after the visit of the callee `c`. -/
def resume (cfg : InlineSettings) (c : MethodId) (call anchor : InstrId)
    (v : Visit σ) : Except Fault Unit × Visit σ :=
  if v.session.progressOf c = .inProgress then (.ok (), v)
  else match (v.session.program.method c).body with
    | none => (.ok (), v)
    | some b =>
      if Inline.callsItself cfg v.session.program c b then (.ok (), v)
      else Inline.takeIn call b anchor v

/-- A call of a method that is done is inlined, or is left. -/
theorem resume_eq {cfg : InlineSettings} {p : Program} {o : Outlook}
    {s : Session σ} {m : MethodId} {passes : List Pass}
    (h : v.Watched cfg p o s m) (hs : s.Clear cfg passes p o m)
    (hyes : cfg.policy 0 p (some c) = true)
    (hdone : v.session.progressOf c = .done) :
    resume cfg c i anchor v = match (p.method c).body with
      | none => (.ok (), v)
      | some b => Inline.takeIn i b anchor v := by
  rw [resume, if_neg (by simp [hdone]), h.traced.method]
  cases hb : (p.method c).body with
  | none => rfl
  | some b =>
      have hself := h.callsItself hs hyes (b := b) (by rwa [h.traced.method])
      simp only [hself]
      rfl

/-- After the visits of a callee, both visits go on with it in the same way. -/
theorem Offered.resumed (h : x.Offered f i v w) (hx : x.Fair)
    (hyes : x.cfg.policy 0 x.start (some c) = true) {t : Session σ}
    {t' : Session τ}
    (ht : Visit.Returned x.cfg x.start x.outlook x.left x.method v i c t)
    (ht' : Visit.Returned x.cfg x.start x.outlook x.right x.method w (f i) c t')
    (hnext : v.session.program.next i = some anchor) (name : String) : Paired
    (x.Applied f i name) (resume x.cfg c i anchor { v with session := t })
    (resume x.cfg c (f i) (f anchor) { w with session := t' }) := by
  have hback :=
    h.nested ht.watched ht'.watched ht.extend ht'.extend ht.excess ht'.excess
  rw [resume_eq ht.watched hx.left hyes ht.done,
    resume_eq ht'.watched hx.right hyes ht'.done]
  cases hb : (x.start.method c).body with
  | none => exact hback.quiet name
  | some b =>
      refine hback.takeIn ht.callee ht'.callee hyes
        (ht.next.trans hnext) hb ?_ name
      have hform := ((ht.watched.foretold c).done ht.done).2 b hb
      have hform' := ((ht'.watched.foretold c).done ht'.done).2 b hb
      exact hform'.trans hform.symm

/-- **The inliner does the same in both visits.** -/
theorem Offered.inline (h : x.Offered f i v w) (hx : x.Fair) (n k : Nat)
    (name : String) :
    Paired (x.Applied f i name) (Inline.apply x.cfg ((x.optimizer σ).optimize n)
      v) (Inline.apply x.cfg ((x.optimizer τ).optimize k) w) := by
  have hfixed := hx.left.fixed
  have hi := h.poised.offers
  have hi' := h.poised'.offers
  rw [Inline.apply_eq hi.1, Inline.apply_eq hi'.1, h.callee?]
  cases hcallee : Inline.callee? x.cfg v.editing i with
  | none => exact h.quiet name
  | some c =>
      have hnextl := h.left.nextInstruction hi
      have hnextr := h.right.nextInstruction hi'
      have hbudget : Inline.withinBudget x.cfg w.editor =
          Inline.withinBudget x.cfg v.editor := by
        rw [Inline.withinBudget, Inline.withinBudget, h.inlined]
      have hasked : ∀ (stats stats' : Stats), (∀ k, stats.tally k -
          v.session.stats.tally k = stats'.tally k - w.session.stats.tally k) →
          Paired (x.Applied f i name) (.ok (), { v with
            session := { Inline.consulted x.cfg c v.session with stats } })
          (.ok (), { w with session := { Inline.consulted x.cfg c w.session with
            stats := stats' } }) :=
        fun _ _ hsame => (h.asked hfixed c hsame).quiet name
      simp only [h.left.traced.approved hfixed, h.right.traced.approved hfixed,
        hnextl, hnextr,
        hbudget, h.renames.next h.right.linked h.left.linked hi.2]
      split
      · next hyes =>
          cases hnext : v.session.program.next i with
          | none =>
              rw [Option.map_none]
              exact hasked v.session.stats w.session.stats fun _ => by omega
          | some anchor =>
              rw [Option.map_some]
              simp only
              split
              · have hcalled := h.called hx hcallee hyes n k
                generalize (x.optimizer σ).optimize n (some c) _ = r
                  at hcalled ⊢
                generalize (x.optimizer τ).optimize k (some c) _ = r'
                  at hcalled ⊢
                refine hcalled.next (fun _ _ => paired_outOfFuel _)
                  (fun _ _ => outOfFuel_paired _) (fun _ _ _ _ => trivial) ?_
                intro _ t _ t' hback
                exact h.resumed hx hyes hback.1 hback.2 hnext name
              · refine hasked _ _ fun k => ?_
                cases k <;> simp [Inline.consulted, Stats.tally]
      · exact hasked v.session.stats w.session.stats fun _ => by omega

/-! ### Offers and scans -/

/-- The same pass is applied on both sides. -/
theorem Offered.rule (h : x.Offered f i v w) (hx : x.Fair) (n k : Nat)
    (pass : Pass) : Paired (x.Applied f i pass.name)
    ((pass.rule x.cfg).apply ((x.optimizer σ).optimize n) v)
    ((pass.rule x.cfg).apply ((x.optimizer τ).optimize k) w) := by
  by_cases hpass : pass = .inlineFunctionCall
  · rw [hpass]
    exact h.inline hx n k _
  · exact h.localPass hpass _ _ _

/-- Nobody watches. -/
theorem notify_eq {ρ : Type} (x : Comparison σ τ) (e : Event) (v : Visit ρ) :
    (x.optimizer ρ).notify e v = (.ok (), v) := rfl

/-- It is applied by the driver on both sides. -/
theorem Offered.applyRule (h : x.Offered f i v w) (hx : x.Fair) (n k : Nat)
    (pass : Pass) : Paired (x.Applied f i pass.name)
    ((x.optimizer σ).applyRule ((x.optimizer σ).optimize n) (pass.rule x.cfg) v)
    ((x.optimizer τ).applyRule ((x.optimizer τ).optimize k)
      (pass.rule x.cfg) w) := by
  rw [Optimizer.applyRule, Optimizer.applyRule]
  simp only [notify_eq]
  exact (h.rule hx n k pass).within _ _

/-- The offers are over: both visits have been changed, or neither. -/
def Declined (x : Comparison σ τ) (f : InstrId → InstrId) :
    Bool → Visit σ → Bool → Visit τ → Prop := fun fired v fired' w =>
  fired' = fired ∧ if fired then ∃ g, x.Beside g v.rewound w.rewound else
    x.Beside f v w

/-- An offer ends in the same way in both visits. -/
theorem Offered.offerTo (h : x.Offered f i v w) (hx : x.Fair) (n k : Nat)
    (passes : List Pass) :
    Paired (x.Declined f) ((x.optimizer σ).offerTo ((x.optimizer σ).optimize n)
      (passes.map (Pass.rule x.cfg)) v) ((x.optimizer τ).offerTo
        ((x.optimizer τ).optimize k) (passes.map (Pass.rule x.cfg)) w) := by
  induction passes generalizing v w with
  | nil => exact ⟨rfl, h.toBeside⟩
  | cons pass rest ih =>
      have happlied := h.applyRule hx n k pass
      rw [List.map_cons, List.map_cons, Optimizer.offerTo_cons,
        Optimizer.offerTo_cons]
      generalize (x.optimizer σ).applyRule _ (pass.rule x.cfg) v = r
        at happlied ⊢
      generalize (x.optimizer τ).applyRule _ (pass.rule x.cfg) w = r'
        at happlied ⊢
      refine happlied.next (fun _ _ => paired_outOfFuel _)
        (fun _ _ => outOfFuel_paired _) (fun _ _ _ _ => trivial) ?_
      intro _ v' _ w' hdone
      rcases hdone with ⟨hclean, hclean', hnext⟩ | ⟨hdirty, hdirty', hnext⟩
      · simp only [hclean, hclean']
        exact ih hnext
      · simp only [hdirty, hdirty']
        exact ⟨rfl, hnext⟩

/-- **Scans go side by side** to their ends. -/
theorem Beside.scan (h : x.Beside f v w) (hx : x.Fair) (n k steps steps' : Nat)
    (changed : Bool) : Paired (fun _ v _ w => ∃ g, x.Beside g v w)
    ((x.optimizer σ).scan ((x.optimizer σ).optimize n) steps changed v)
    ((x.optimizer τ).scan ((x.optimizer τ).optimize k) steps' changed w) := by
  induction steps generalizing steps' changed f v w with
  | zero => exact paired_outOfFuel _
  | succ steps ih =>
      cases steps' with
      | zero => exact outOfFuel_paired _
      | succ steps' =>
          rw [Optimizer.scan_succ, Optimizer.scan_succ, h.more]
          split
          · next hmore =>
              obtain ⟨i, hi⟩ := h.offered hmore
              have hdeclined := hi.offerTo hx n k x.passes
              have hoffer : ∀ {ρ : Type} (F : Option MethodId →
                  SessionM ρ Unit) (u : Visit ρ),
                  (x.optimizer ρ).offer F u = (x.optimizer ρ).offerTo F
                  (x.passes.map (Pass.rule x.cfg)) u := fun _ _ => rfl
              rw [hoffer, hoffer]
              generalize (x.optimizer σ).offerTo _ _ v.advanced = r
                at hdeclined ⊢
              generalize (x.optimizer τ).offerTo _ _ w.advanced = r'
                at hdeclined ⊢
              refine hdeclined.next (fun _ _ => paired_outOfFuel _)
                (fun _ _ => outOfFuel_paired _) (fun _ _ _ _ => trivial) ?_
              intro fired v' fired' w' hdone
              obtain ⟨rfl, hnext⟩ := hdone
              cases fired' with
              | true =>
                  obtain ⟨g, hg⟩ := hnext
                  exact ih hg steps' true
              | false => exact ih hnext steps' changed
          · cases changed with
            | true => exact ih h.advanced.restarted steps' false
            | false => exact ⟨f, h.advanced⟩

/-- What two visits of a method have led to. -/
structure Ended (x : Comparison σ τ) (t : Session σ) (t' : Session τ) :
    Prop where
  foretold : ∀ c, c ≠ x.method → t.Foretold x.start x.outlook c
  form : ∀ b, (x.start.method x.method).body = some b →
    t'.program.form b = t.program.form b
  marked : x.left.MarksBelow x.cfg x.start x.method t
  marked' : x.right.MarksBelow x.cfg x.start x.method t'
  gain : ∀ k, t.excess x.outlook k - x.left.excess x.outlook k =
    t'.excess x.outlook k - x.right.excess x.outlook k

section Ending

variable (hx : x.Fair)

include hx

/-- When the visits begin, the bodies of the method read the same. -/
theorem Fair.form_eq (hb : (x.start.method x.method).body = some b) :
    x.right.program.form b = x.left.program.form b := by
  rw [(hx.left.foretold _).fresh hx.left.fresh b hb,
    (hx.right.foretold _).fresh hx.right.fresh b hb]

/-- The body of a method has the same size on both sides. -/
theorem Fair.size_eq (hb : (x.start.method x.method).body = some b) :
    x.right.program.size b = x.left.program.size b := by
  have hlength := congrArg (fun y => y.1.length) (hx.form_eq hb)
  simp only [Program.form, List.length_map] at hlength
  rw [hx.left.ready.1.linked.size, hx.right.ready.1.linked.size, hlength]

/-- The visits begin side by side. -/
theorem Fair.begin (hb : (x.start.method x.method).body = some b)
    (hsize : x.left.program.size b ≠ 0) :
    ∃ f, x.Beside f ⟨x.left.setProgress x.method .inProgress,
      { method := x.method, body := b }⟩ ⟨x.right.setProgress x.method
        .inProgress, { method := x.method, body := b }⟩ := by
  have hclosed : x.left.program.Closed b := by
    apply hx.left.ready.2 x.method
    rwa [hx.left.ready.1.method]
  obtain ⟨f, hf⟩ := Program.exists_renames hx.left.ready.1.linked
    hx.right.ready.1.linked hclosed (hx.form_eq hb)
  refine ⟨f, Visit.watched_start hx.left hb hsize,
    Visit.watched_start hx.right hb (by rwa [hx.size_eq hb]), hf, rfl, rfl,
    fun k => ?_⟩
  rw [Session.excess_started hx.left.fresh,
    Session.excess_started hx.right.fresh]
  omega

/-- The method has been marked as in progress in both sessions. -/
theorem Fair.started : x.Ended (x.left.setProgress x.method .inProgress)
    (x.right.setProgress x.method .inProgress) where
  foretold := by
    intro c hc
    refine (hx.left.foretold c).congr ?_ fun _ _ => rfl
    rw [Session.progressOf_setProgress, if_neg hc]
  form := fun b hb => hx.form_eq hb
  marked := (Session.marksBelow_refl _).mark _
  marked' := (Session.marksBelow_refl _).mark _
  gain := by
    intro k
    rw [Session.excess_started hx.left.fresh,
      Session.excess_started hx.right.fresh]
    omega

end Ending

/-- Visits that are over have led to the same. -/
theorem Beside.ended (h : x.Beside f v w) : x.Ended v.session w.session where
  foretold := fun c _ => h.left.foretold c
  form := by
    intro b hb
    obtain rfl := Option.some.inj (h.left.bodyOf.symm.trans hb)
    exact h.renames.form_eq h.right.linked h.left.closedBody
  marked := h.left.marked
  marked' := h.right.marked
  gain := h.gain

/-- The method is marked as done in both sessions, and counted or not. -/
theorem Ended.done {t : Session σ} {t' : Session τ} (h : x.Ended t t')
    (hm : x.method ∈ x.outlook.methods)
    (ht : t.progressOf x.method = .inProgress)
    (ht' : t'.progressOf x.method = .inProgress) (count : Stats → Stats)
    (hcount : ∀ y z k,
      (count y).tally k - y.tally k = (count z).tally k - z.tally k) :
    x.Ended ((t.setProgress x.method .done).count count)
    ((t'.setProgress x.method .done).count count) where
  foretold := by
    intro c hc
    refine (h.foretold c hc).congr ?_ fun _ _ => rfl
    exact (Session.progressOf_setProgress _).trans (if_neg hc)
  form := h.form
  marked := h.marked.mark .done
  marked' := h.marked'.mark .done
  gain := by
    intro k
    have hleft := Session.excess_of_progress
      (o := x.outlook) (s := t.setProgress x.method .done)
      (t := (t.setProgress x.method .done).count count) rfl k
    have hright := Session.excess_of_progress (o := x.outlook)
      (s := t'.setProgress x.method .done)
      (t := (t'.setProgress x.method .done).count count) rfl k
    rw [Session.excess_done hm (by rw [ht]; simp)] at hleft
    rw [Session.excess_done hm (by rw [ht']; simp)] at hright
    have hsame := hcount t.stats t'.stats k
    have hgain := h.gain k
    simp only [Session.count, Session.setProgress] at hleft hright ⊢
    omega

/-- **Two visits of a method come to the same.** -/
theorem Fair.optimize (hx : x.Fair) (hm : x.method ∈ x.outlook.methods)
    (n k : Nat) : Paired (fun _ t _ t' => x.Ended t t')
    ((x.optimizer σ).optimize n (some x.method) x.left)
    ((x.optimizer τ).optimize k (some x.method) x.right) := by
  cases n with
  | zero => exact paired_outOfFuel _
  | succ n =>
      cases k with
      | zero => exact outOfFuel_paired _
      | succ k =>
          have hbusy : ∀ {ρ : Type} (s : Session ρ),
              (s.setProgress x.method .inProgress).progressOf x.method =
              .inProgress :=
            fun s => (Session.progressOf_setProgress _).trans (if_pos rfl)
          have hidle : x.Ended ((x.left.setProgress x.method
              .inProgress).setProgress x.method .done) ((x.right.setProgress
                x.method .inProgress).setProgress x.method .done) :=
            hx.started.done hm (hbusy _) (hbusy _) id fun _ _ _ => by simp
          rw [Optimizer.optimize_succ, Optimizer.optimize_succ,
            if_pos hx.left.fresh, if_pos hx.right.fresh, hx.left.ready.1.method,
            hx.right.ready.1.method]
          cases hb : (x.start.method x.method).body with
          | none => exact hidle
          | some b =>
              simp only [hx.size_eq hb]
              split
              · exact hidle
              · next hsize =>
                  obtain ⟨f, hf⟩ := hx.begin hb hsize
                  have hscan := hf.scan hx n k n k false
                  rw [Optimizer.visit, Optimizer.visit]
                  simp only [notify_eq]
                  generalize (x.optimizer σ).scan _ n false _ = r at hscan ⊢
                  generalize (x.optimizer τ).scan _ k false _ = r' at hscan ⊢
                  refine hscan.next (fun _ _ => paired_outOfFuel _)
                    (fun _ _ => outOfFuel_paired _) (fun _ _ _ _ => trivial) ?_
                  intro _ v _ w hdone
                  obtain ⟨g, hg⟩ := hdone
                  refine hg.ended.done hm hg.left.busy hg.right.busy
                    _ fun y z k => ?_
                  cases k <;> simp [Stats.tally]

end Comparison

end Bytecode
