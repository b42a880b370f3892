import Bytecode.Proofs.BranchChains
import Bytecode.Proofs.FixedPoint

/-!
# Branches sent to the end of their chains

A branch that goes to an unconditional branch is sent to the end of the chain
from there, if the chain has one; otherwise it is left alone, and nothing else
is changed either way.  At the end of a run all branches have been dealt with,
in all methods that are done: what still goes to another, unconditional branch
goes astray.

That a branch has been left alone once is not enough for this, as the chain may
lead through other bodies, which are changed later.  But what has gone astray
stays so, whatever passes do, and a chain with an end would have been cut off.
`Reforms` says what one application of a pass does, a callee's visit apart, and
`straightening` is the law of runs that is made of it.  The main statement is
`follows_chains`.
-/

namespace Bytecode

variable {σ : Type}

/-! ### One branch -/

namespace Program

variable {p : Program} {i : InstrId}

/-- `q` is what `p` is, but the instruction `i` goes to `t`. -/
structure Sends (p q : Program) (i t : InstrId) : Prop where
  sent : q.instr i = { p.instr i with operand := .target t }
  others : ∀ k, k ≠ i → q.instr k = p.instr k
  next : ∀ k, q.next k = p.next k
  prev : ∀ k, q.prev k = p.prev k
  bodies : q.bodies = p.bodies
  methods : q.methods = p.methods

/-- A branch is sent to its new target. -/
theorem sends_setTarget (hi : p.Has i) (t : InstrId) :
    p.Sends (p.setTarget i (some t)) i t where
  sent := by
    rw [instr_setTarget hi, if_pos rfl]
    rfl
  others := fun k hk => by rw [instr_setTarget hi, if_neg hk]
  next := next_setTargets (l := [i]) (by simpa using hi)
  prev := prev_setTargets (l := [i]) (by simpa using hi)
  bodies := rfl
  methods := rfl

end Program

namespace Editing

variable {s : Editing} {i t : InstrId}

/-- A branch that can be shortened is. -/
theorem retargetDoubleBranch_shortens (h : s.Sound)
    (htarget : s.editor.target = some i) (hi : i ∈ s.code)
    (ht : s.program.Shortens i t) : ∃ x, Peephole.retargetDoubleBranch s =
      (.ok (), s.retargeted i (some t) x) := by
  obtain ⟨hbr, mid, hmid, hne, hkind, hend⟩ := ht
  have hfound := (Program.chainEnd?_eq_some_iff (h.linked.has hi) hmid).mpr hend
  have hmid' : (s.program.instr i).target? = some mid := hmid
  obtain ⟨x, -, heq⟩ := retarget_eq h hi hbr (some t)
  refine ⟨x, ?_⟩
  rw [Peephole.retargetDoubleBranch, htarget]
  simp only [hmid']
  rw [if_neg (by simp [hbr, hne, hkind]), hfound]
  exact heq

/-- A branch that cannot be shortened is left alone. -/
theorem retargetDoubleBranch_idle (h : s.Sound)
    (htarget : s.editor.target = some i) (hi : i ∈ s.code)
    (hnone : ∀ t, ¬ s.program.Shortens i t) :
    Peephole.retargetDoubleBranch s = (.ok (), s) := by
  rw [Peephole.retargetDoubleBranch, htarget]
  simp only
  split
  · rfl
  · next mid hmid =>
      split
      · rfl
      · next hgoes =>
          simp only [Bool.or_eq_true, not_or] at hgoes
          obtain ⟨⟨hbr, hne⟩, hkind⟩ := hgoes
          split
          · rfl
          · next t hend =>
              refine absurd ⟨by simpa using hbr, mid, hmid, by simpa using hne,
                by simpa using hkind, ?_⟩ (hnone t)
              exact (Program.chainEnd?_eq_some_iff
                (h.linked.has hi) hmid).mp hend

/-- **A branch is sent to the end of its chain**, if there is one, and is left
alone otherwise.  The search for the end needs no bound on its steps to come
back. -/
theorem retargetDoubleBranch_sends (h : s.Sound)
    (htarget : s.editor.target = some i) (hi : i ∈ s.code) :
    ∃ s', Peephole.retargetDoubleBranch s = (.ok (), s') ∧
      (∀ mid, s.program.target? i = some mid →
        ∃ r, Peephole.Walk s.program [i] mid r ∧ ∀ t, r = some t ↔
        s.program.ChainEnds mid t) ∧ (∀ t, s.program.Shortens i t →
          s'.editor.dirty = true ∧ s.program.Sends s'.program i t) ∧
      ((∀ t, ¬ s.program.Shortens i t) → s' = s) := by
  have hhas := h.linked.has hi
  have hwalk : ∀ mid, s.program.target? i = some mid →
      ∃ r, Peephole.Walk s.program [i] mid r ∧
      ∀ t, r = some t ↔ s.program.ChainEnds mid t := by
    intro mid hmid
    have hroom : s.program.instrs.size <
        s.program.instrs.size + 1 + [i].length := by simp
    exact ⟨_, Peephole.walk_chainEnd?
      (List.nodup_singleton i) (by simpa using hhas) hroom,
      fun t => Program.chainEnd?_eq_some_iff hhas hmid⟩
  by_cases hshort : ∃ t, s.program.Shortens i t
  · obtain ⟨t, ht⟩ := hshort
    obtain ⟨x, heq⟩ := retargetDoubleBranch_shortens h htarget hi ht
    refine ⟨_, heq, hwalk, fun u hu => ?_, fun hnone => absurd ht (hnone t)⟩
    obtain rfl := ht.unique hu
    exact ⟨rfl, Program.sends_setTarget hhas u⟩
  · have hnone := not_exists.mp hshort
    exact ⟨s, retargetDoubleBranch_idle h htarget hi hnone, hwalk,
      fun t ht => absurd ht (hnone t), fun _ => rfl⟩

end Editing

/-! ### What an application does to a body, and to chains -/

namespace Program

variable {p q r : Program} {b : BodyId} {i : InstrId} {pass : Pass}

/-- `q` comes later in a run than `p`. -/
structure Succeeds (p q : Program) : Prop where
  methods : q.methods = p.methods
  precedes : p.Precedes q
  astray : p.StaysAstray q

theorem Succeeds.refl (p : Program) : p.Succeeds p := ⟨rfl, .refl p, .refl p⟩

/-- One program after the other. -/
theorem Succeeds.trans (h : p.Succeeds q) (h' : q.Succeeds r) : p.Succeeds r :=
  ⟨h'.methods.trans h.methods, h.precedes.trans h'.precedes,
    h.astray.trans h'.astray⟩

/-- Methods stay as they are. -/
theorem Succeeds.method (h : p.Succeeds q) (m : MethodId) :
    q.method m = p.method m := by
  simp only [Program.method, h.methods]

/-- Where a body has not changed since, a pass is as idle as it was. -/
theorem Idle.later (h : p.Idle b i pass) (hp : p.WellLinked) (hq : q.WellLinked)
    (hpq : AgreeOn b p q) (hlater : p.Succeeds q) (hnamed : p.Named)
    (hi : i ∈ p.code b) : q.Idle b i pass := by
  by_cases hpass : pass = .retargetDoubleBranch
  · subst hpass
    have hi' : i ∈ q.code b := by rwa [hpq.code_eq hp hq]
    have hinstr := hpq.instr_eq hp hi
    have hnone := (idle_retargetDoubleBranch_iff (hp.has hi)).mp h
    rw [idle_retargetDoubleBranch_iff (hq.has hi')]
    intro t ht
    obtain ⟨hbr, mid, hmid, hne, hkind, hend⟩ := ht
    rw [hinstr] at hbr
    rw [target?, hinstr] at hmid
    rw [Instr.kind, hlater.precedes.op mid (hnamed i mid hmid)] at hkind
    -- the chain had an end before, as it has one now
    rcases p.chainEnds_or_astray mid with ⟨u, hu⟩ | hastray
    · exact hnone u ⟨hbr, mid, hmid, hne, hkind, hu⟩
    · exact hend.not_astray (hlater.astray mid hastray)
  · exact h.agree hp hq hpq hpass hlater.precedes hnamed hi

/-- Passes have changed at most the body `b`. -/
structure Reforms (b : BodyId) (p q : Program) : Prop where
  linked : q.WellLinked
  changed : ChangedIn b p q
  named : p.Named → q.Named
  astray : p.StaysAstray q

theorem Reforms.refl (hp : p.WellLinked) : Reforms b p p :=
  ⟨hp, .refl b p, id, .refl p⟩

/-- A body that is reformed gives a later program. -/
theorem Reforms.succeeds (h : Reforms b p q) : p.Succeeds q :=
  ⟨h.changed.methods, h.changed.precedes, h.astray⟩

end Program

/-- Nothing has happened to programs and stages, or the inliner has had a callee
visited. -/
def Visited (cfg : InlineSettings)
    (optimize : Option MethodId → SessionM σ Unit) (pass : Pass)
    (s t : Session σ) : Prop :=
  t.program = s.program ∧ t.progress = s.progress ∨ pass = .inlineFunctionCall ∧
    ∃ c, optimize (some c) (Inline.consulted cfg c s) = (.ok (), t)

section Step

variable {cfg : InlineSettings} {optimize : Option MethodId → SessionM σ Unit}
  {s : Session σ} {m : MethodId} {v v' : Visit σ} {i : InstrId} {pass : Pass}
  {r : Except Fault Unit × Visit σ}

/-- **One application.**  At most a callee has been visited, and after that the
body has been changed or nothing has. -/
theorem PassStep.reforms (hframe : frame.Calls optimize) (hv : v.editing.Sound)
    (hi : v.Offers i) (hwithin : pass = .inlineFunctionCall → v.Within s m)
    (hr : PassStep cfg optimize v i pass (.ok (), v')) :
    ∃ t, Visited cfg optimize pass v.session t ∧
      Program.Reforms v.editor.body t.program v'.session.program ∧
      v'.session.progress = t.progress ∧ v'.editor.body = v.editor.body := by
  have hp : v.session.program.WellLinked := hv.linked
  generalize hx : ((.ok (), v') : Except Fault Unit × Visit σ) = x at hr
  cases hr with
  | quiet he =>
      cases hx
      refine ⟨v.session, Or.inl ⟨rfl, rfl⟩, ?_, rfl, he.edited.body⟩
      rw [Visit.session_untouched he]
      exact .refl hp
  | @fires _ e he heffect =>
      cases hx
      refine ⟨v.session, Or.inl ⟨rfl, rfl⟩, ?_, rfl, he.body⟩
      exact ⟨he.sound.linked, he.changed, heffect.named hv hi.2,
        heffect.staysAstray hv hi.2⟩
  | inlines hr =>
      have h := hwithin rfl
      -- the callee has been visited in the two cases that come back from its
      -- visit
      cases hr with
      | none =>
          cases hx
          exact ⟨v.session, Or.inl ⟨rfl, rfl⟩, .refl hp, rfl, rfl⟩
      | declined =>
          cases hx
          exact ⟨v.session, Or.inl ⟨rfl, rfl⟩, .refl hp, rfl, rfl⟩
      | stopped => cases hx
      | @spared c t _ hopt =>
          cases hx
          obtain ⟨ht, -⟩ := nested_call hframe h hopt
          exact ⟨t, Or.inr ⟨rfl, c, hopt⟩, .refl ht.linked, rfl, rfl⟩
      | @takenIn c t anchor b hcallee _ hnext _ hopt _ hbody =>
          obtain ⟨ht, hext⟩ := nested_call hframe h hopt
          obtain ⟨hv₁, hi₁, hnext₁, -⟩ :=
            h.taking hi hcallee hnext ht hext hbody
          obtain ⟨w, heq, hsession⟩ :=
            Inline.takeIn_replaces hv₁.sound hi₁.1 hi₁.2 hnext₁
          rcases heq with ⟨hstop, -⟩ | ⟨hok, hrep⟩
          · cases (Prod.mk.inj (hx.trans hstop)).1
          · obtain ⟨-, rfl⟩ := Prod.mk.inj (hx.trans hok)
            have hcall : (t.program.instr i).kind ≠ .branch := by
              rw [(h.agree hext).instr_eq hp hi.2]
              intro hkind
              have hkind' : (v.editing.program.instr i).kind = .branch := hkind
              rw [Inline.callee?, hkind'] at hcallee
              cases hcallee
            refine ⟨t, Or.inr ⟨rfl, c, hopt⟩, ?_, by rw [hsession],
              hrep.evolves.body⟩
            exact ⟨hrep.evolves.sound.linked, hrep.evolves.changed,
              hrep.named hv₁.sound hi₁.2 hnext₁,
              hrep.staysAstray hv₁.sound hi₁.2 hcall hnext₁⟩

/-- Where the editor stands then. -/
theorem PassStep.lands (hframe : frame.Calls optimize) (hv : v.Steady)
    (hi : v.Offers i) (hwithin : pass = .inlineFunctionCall → v.Within s m)
    (hr : PassStep cfg optimize v i pass r) (name : String) :
    Meets (fun _ v' => if v'.editor.dirty then (v'.taken name).rewound.Steady
      else v'.Steady ∧ ∃ i, v'.Offers i) (fun _ => True) r := by
  cases hr with
  | quiet he =>
      have hv' := hv.untouched he
      rw [Meets, if_neg (by simp [hv'.clean])]
      exact ⟨hv', i, hi.untouched he⟩
  | @fires _ e he =>
      have hdirty : (v.setEditing e).editor.dirty = true := he.dirty
      rw [Meets, if_pos hdirty]
      exact Visit.steady_rewound (v := v.setEditing e) he.sound
        (he.inside hv.inside) name
  | inlines hr =>
      have hframed : frame.Applies s m false name [] r :=
        frame_inlines hframe (hwithin rfl) hi hr name
      refine hframed.mono (fun _ v' hv' => ?_) fun _ _ => trivial
      split
      · next hdirty =>
          rw [if_pos hdirty] at hv'
          exact hv'.toSteady
      · next hdirty =>
          rw [if_neg hdirty] at hv'
          exact ⟨hv'.1.toSteady, hv'.2⟩

end Step

/-! ### Visits in general -/

namespace Session

variable {s t u : Session σ} {m : MethodId} {passes : List Pass}

/-- Bodies may be shared as long as no body is copied into another one. -/
structure Usable (passes : List Pass) (s : Session σ) : Prop where
  linked : s.program.WellLinked
  named : s.program.Named
  unshared : .inlineFunctionCall ∈ passes → s.program.Unshared

/-- What is done stays done, and no visit that has begun since is going on. -/
structure Moves (s t : Session σ) : Prop where
  done : ∀ c, s.progressOf c = .done → t.progressOf c = .done
  busy : ∀ c, t.progressOf c = .inProgress → s.progressOf c = .inProgress

/-- Nothing moves without progress. -/
theorem moves_of_eq (h : t.progress = s.progress) : s.Moves t := by
  have hsame : ∀ c, t.progressOf c = s.progressOf c :=
    fun c => by rw [progressOf, progressOf, h]
  exact ⟨fun c hc => (hsame c).trans hc, fun c hc => (hsame c).symm.trans hc⟩

/-- One move after the other. -/
theorem Moves.trans (h : s.Moves t) (h' : t.Moves u) : s.Moves u :=
  ⟨fun c hc => h'.done c (h.done c hc), fun c hc => h.busy c (h'.busy c hc)⟩

/-- A visit has begun and has come to its end. -/
theorem Moves.finish (h : (s.setProgress m .inProgress).Moves t) :
    s.Moves (t.setProgress m .done) where
  done := by
    intro c hc
    rw [progressOf_setProgress]
    split
    · rfl
    · next hcm =>
        refine h.done c ?_
        rwa [progressOf_setProgress, if_neg hcm]
  busy := by
    intro c hc
    rw [progressOf_setProgress] at hc
    split at hc
    · cases hc
    · next hcm =>
        have hbusy := h.busy c hc
        rwa [progressOf_setProgress, if_neg hcm] at hbusy

end Session

/-- The visit of `m`, begun in session `s`, is going on. -/
structure Visit.Roams (passes : List Pass) (s : Session σ) (m : MethodId)
    (v : Visit σ) : Prop extends v.Steady where
  named : v.session.program.Named
  body : (v.session.program.method m).body = some v.editor.body
  succeeds : s.program.Succeeds v.session.program
  fresh : s.progressOf m = .notVisited
  moves : (s.setProgress m .inProgress).Moves v.session
  within : .inlineFunctionCall ∈ passes → v.Within s m

/-- A visit that roams has a usable session. -/
theorem Visit.Roams.usable {passes : List Pass} {s : Session σ} {m : MethodId}
    {v : Visit σ} (h : v.Roams passes s m) : v.session.Usable passes :=
  ⟨h.sound.linked, h.named, fun hinline => (h.within hinline).unshared⟩

/-- Programs succeed each other, and chains that have gone astray stay so. -/
def roaming (passes : List Pass) : Law σ where
  ready := Session.Usable passes
  returns s t := t.Usable passes ∧ s.program.Succeeds t.program ∧ s.Moves t
  broken _ := True
  during s m
    | .scanning _, v => v.Roams passes s m
    | .offering _ _, v => v.Roams passes s m ∧ ∃ i, v.Offers i

section Roaming

variable {cfg : InlineSettings} {passes : List Pass}
  {optimize : Option MethodId → SessionM σ Unit} {s t : Session σ}
  {m : MethodId} {v v' : Visit σ} {i : InstrId} {pass : Pass} {changed : Bool}
  {rest : List (Rule σ)} {r : Except Fault Unit × Visit σ}

/-- What the visit of a callee leads to. -/
theorem Visit.Roams.visited (h : v.Roams passes s m)
    (hcalls : (roaming passes).Calls optimize)
    (ht : Visited cfg optimize pass v.session t) : t.Usable passes ∧
    v.session.program.Succeeds t.program ∧ v.session.Moves t := by
  have husable := h.usable
  rcases ht with ⟨hprogram, hprogress⟩ | ⟨-, c, hopt⟩
  · refine ⟨⟨?_, ?_, ?_⟩, ?_, Session.moves_of_eq hprogress⟩
    · rw [hprogram]
      exact husable.linked
    · rw [hprogram]
      exact husable.named
    · rw [hprogram]
      exact husable.unshared
    · rw [hprogram]
      exact .refl _
  · have hmeets := hcalls c (Inline.consulted cfg c v.session)
      ⟨husable.linked, husable.named, husable.unshared⟩
    rw [hopt] at hmeets
    have hasked : v.session.Moves (Inline.consulted cfg c v.session) :=
      Session.moves_of_eq rfl
    exact ⟨hmeets.1, hmeets.2.1, hasked.trans hmeets.2.2⟩

/-- A step of a pass stays where visits may roam. -/
theorem roaming_passStep (hframe : frame.Calls optimize)
    (hcalls : (roaming passes).Calls optimize) (hv : v.Roams passes s m)
    (hi : v.Offers i) (hpass : pass ∈ passes)
    (hr : PassStep cfg optimize v i pass r) (name : String) :
    (roaming passes).Applies s m changed name rest r := by
  have hwithin : pass = .inlineFunctionCall → v.Within s m := by
    intro hinline
    subst hinline
    exact hv.within hpass
  have hlands := hr.lands hframe hv.toSteady hi hwithin name
  have hframed : .inlineFunctionCall ∈ passes →
      frame.Applies s m changed name rest r :=
    fun hinline => frame_passStep hframe (hv.within hinline) hi hr name
  obtain ⟨e | ⟨⟩, v'⟩ := r
  · exact hlands
  · obtain ⟨t, ht, hreforms, hprogress, hbody⟩ :=
      hr.reforms hframe hv.sound hi hwithin
    obtain ⟨husable, hsucceeds, hmoves⟩ := hv.visited hcalls ht
    have hnamed := hreforms.named husable.named
    have hlater := (hv.succeeds.trans hsucceeds).trans hreforms.succeeds
    have hbody' : (v'.session.program.method m).body = some v'.editor.body := by
      rw [hbody, (hsucceeds.trans hreforms.succeeds).method]
      exact hv.body
    have hmoves' :=
      (hv.moves.trans hmoves).trans (Session.moves_of_eq hprogress)
    rw [Law.Applies, Meets]
    rw [Meets] at hlands
    split
    · next hdirty =>
        rw [if_pos hdirty] at hlands
        refine ⟨hlands, hnamed, hbody', hlater, hv.fresh,
          hmoves'.trans (Session.moves_of_eq rfl), fun hinline => ?_⟩
        have happlies := hframed hinline
        rw [Law.Applies, Meets, if_pos hdirty] at happlies
        exact happlies
    · next hdirty =>
        rw [if_neg hdirty] at hlands
        refine ⟨⟨hlands.1, hnamed, hbody', hlater, hv.fresh, hmoves',
          fun hinline => ?_⟩, hlands.2⟩
        have happlies := hframed hinline
        rw [Law.Applies, Meets, if_neg hdirty] at happlies
        exact happlies.1

/-- Passes obey the law of roaming. -/
theorem roaming_obeyed (cfg : InlineSettings) (passes : List Pass) :
    (roaming passes).Obeyed (Optimizer.ofPasses cfg passes : Optimizer σ) where
  unwatched := fun _ _ => rfl
  idle := fun hs => ⟨hs, .refl _, Session.moves_of_eq rfl⟩
  skip := fun {s m} hs _ _ => ⟨⟨hs.linked, hs.named, hs.unshared⟩, .refl _,
    (Session.moves_of_eq (s := s.setProgress m .inProgress) rfl).finish⟩
  start := fun {s m b} hs hm hbody hsize =>
    ⟨Visit.steady_start (s := s.setProgress m .inProgress) hs.linked m hsize,
      hs.named, hbody, .refl _, hm, Session.moves_of_eq rfl, fun hinline =>
      Visit.within_start hs.linked (hs.unshared hinline) hm hbody hsize⟩
  advance := fun h hmore =>
    ⟨⟨h.toSteady.advanced, h.named, h.body, h.succeeds, h.fresh, h.moves,
      fun hinline => (h.within hinline).advanced⟩, h.toSteady.offers hmore⟩
  apply := by
    intro s m changed r rest v fuel hcalls hr hoffering
    obtain ⟨hv, i, hi⟩ := hoffering
    obtain ⟨pass, hpass, rfl⟩ := List.mem_map.mp hr
    have hframe :=
      frame_obeyed (Optimizer.appliesPasses_ofPasses (σ := σ) cfg passes)
    exact roaming_passStep (hframe.calls fuel) hcalls hv hi hpass
      (Pass.rule_step cfg _ hv.sound hi.1 hi.2 pass) _
  decline := fun h => h.1
  restart :=
    fun h _ => ⟨h.toSteady.advanced.restarted, h.named, h.body, h.succeeds,
      h.fresh, h.moves, fun hinline => (h.within hinline).advanced.restarted⟩
  finish := fun h _ => ⟨⟨h.sound.linked, h.named, h.usable.unshared⟩,
    h.succeeds, h.moves.finish.trans (Session.moves_of_eq rfl)⟩
  cut := fun _ => trivial
  refuse := fun _ => trivial

/-- A visit in between leaves idle passes idle. -/
theorem Visit.Roams.unmoved_visited (h : v.Roams passes s m)
    (hwithin : v.Within s m) (hp : t.program.WellLinked)
    (hext : v.session.Extends t)
    (hlater : v.session.program.Succeeds t.program) :
    v.Unmoved { v with session := t } where
  code := hwithin.code_nested hp hext
  pos := rfl
  target := rfl
  idle := fun _ hi _ hidle =>
    hidle.later h.sound.linked hp (hwithin.agree hext) hlater h.named hi

/-- A scan obeys the law of roaming. -/
theorem roaming_scans (cfg : InlineSettings) (passes : List Pass) :
    (roaming passes : Law σ).Scans cfg passes := by
  have hroams : ∀ {s m p} {v : Visit σ}, (roaming passes).during s m p v →
      v.Roams passes s m := by
    intro s m p v hv
    cases p with
    | scanning => exact hv
    | offering => exact hv.1
  have hframe :=
    frame_obeyed (Optimizer.appliesPasses_ofPasses (σ := σ) cfg passes)
  refine ⟨fun hv => (hroams hv).toSteady, fun hv => (hroams hv).body, ?_⟩
  intro s m changed pass rest v v' i fuel hpass hv hi happly hclean
  have hstep :=
    Pass.rule_step cfg ((Optimizer.ofPasses cfg passes).optimize fuel)
    (hroams hv).sound hi.1 hi.2 pass
  rw [happly] at hstep
  refine hstep.unmoved hclean fun hinline hr => ?_
  have hwithin : v.Within s m := (hroams hv).within (hinline ▸ hpass)
  refine hr.unmoved (hframe.calls fuel) hwithin hi
    (fun t ht hext hcall => ?_) hclean
  refine (hroams hv).unmoved_visited hwithin ht hext ?_
  rcases hcall with hsame | hopt
  · rw [hsame]
    exact .refl _
  · exact ((hroams hv).visited ((roaming_obeyed cfg passes).calls fuel)
      (Or.inr ⟨hinline, hopt⟩)).2.1

end Roaming

/-! ### Methods that are done -/

namespace Session

variable {s t : Session σ} {m : MethodId} {b : BodyId} {o : Option BodyId}
  {passes : List Pass}

/-- In the bodies of methods that are done, `o` excepted, no branch can be sent
any further. -/
def Straight (s : Session σ) (o : Option BodyId) : Prop :=
  ∀ m b, s.progressOf m = .done → (s.program.method m).body = some b → some b ≠
    o → ∀ i ∈ s.program.code b, s.program.Idle b i .retargetDoubleBranch

/-- An exception can always be made. -/
theorem Straight.but (h : s.Straight none) (o : Option BodyId) : s.Straight o :=
  fun c b hc hb _ => h c b hc hb (by simp)

/-- A body that belongs to a method in progress is no exception. -/
theorem Straight.alone (h : s.Straight (some b)) (hs : s.program.Unshared)
    (hb : (s.program.method m).body = some b)
    (hm : s.progressOf m = .inProgress) : s.Straight none := by
  intro c k hc hk _
  refine h c k hc hk fun hkb => ?_
  rw [Option.some.inj hkb] at hk
  rw [hs m c b hb hk, hm] at hc
  cases hc

/-- Straightness depends on programs and progress only. -/
theorem Straight.congr (h : s.Straight o) (hprogram : t.program = s.program)
    (hprogress : t.progress = s.progress) : t.Straight o := by
  intro c b hc hb hbo
  rw [progressOf, hprogress] at hc
  rw [hprogram] at hb ⊢
  exact h c b hc hb hbo

/-- The body `b` has been changed. -/
theorem Straight.reforms (h : s.Straight (some b)) (hs : s.Usable passes)
    (ht : Program.Reforms b s.program t.program)
    (hprogress : t.progress = s.progress) : t.Straight (some b) := by
  intro c k hc hk hkb i hi
  rw [progressOf, hprogress] at hc
  rw [ht.changed.method] at hk
  have hagree : Program.AgreeOn k s.program t.program :=
    ht.changed.agreeOn hs.linked fun heq => hkb (congrArg some heq)
  rw [hagree.code_eq hs.linked ht.linked] at hi
  exact (h c k hc hk hkb i hi).later hs.linked ht.linked hagree ht.succeeds
    hs.named hi

/-- Beginning a visit finishes nothing. -/
theorem Straight.start (h : s.Straight o) (m : MethodId) :
    (s.setProgress m .inProgress).Straight o := by
  intro c b hc
  rw [progressOf_setProgress] at hc
  split at hc
  · cases hc
  · exact h c b hc

/-- A method more is done, and its body is as it should be. -/
theorem Straight.finish (h : t.Straight o)
    (hpass : .retargetDoubleBranch ∈ passes)
    (ho : ∀ b, o = some b → (t.program.method m).body = some b) (hfixed : ∀ b,
      (t.program.method m).body = some b → t.program.FixedPoint b passes) :
    (t.setProgress m .done).Straight none := by
  intro c b hc hb _ i hi
  by_cases hmine : (t.program.method m).body = some b
  · exact hfixed b hmine i hi _ hpass
  · have hcm : c ≠ m := by
      intro hcm
      subst hcm
      exact hmine hb
    rw [progressOf_setProgress, if_neg hcm] at hc
    exact h c b hc hb (fun hbo => hmine (ho b hbo.symm)) i hi

end Session

/-- Where a visit has come to its end, no branch can be sent any further. -/
def straightening (cfg : InlineSettings) (passes : List Pass) : Law σ where
  ready s := s.Usable passes ∧ s.Straight none
  returns s t :=
    ((roaming passes).scanned cfg passes).returns s t ∧ t.Straight none
  broken _ := True
  during s m p v := ((roaming passes).scanned cfg passes).during s m p v ∧
    v.session.Straight (some v.editor.body)

section Straightening

variable {cfg : InlineSettings} {passes : List Pass} {s t : Session σ}
  {m : MethodId} {v v' : Visit σ} {i : InstrId} {pass : Pass}
  {optimize : Option MethodId → SessionM σ Unit}

/-- What is done while a pass is applied, and what had been done, is as it
should be. -/
theorem straightening_passStep (hframe : frame.Calls optimize)
    (hcalls : (straightening cfg passes).Calls optimize)
    (hv : v.Roams passes s m) (hi : v.Offers i) (hpass : pass ∈ passes)
    (hstraight : v.session.Straight (some v.editor.body))
    (hr : PassStep cfg optimize v i pass (.ok (), v')) :
    v'.session.Straight (some v'.editor.body) := by
  have hwithin : pass = .inlineFunctionCall → v.Within s m := by
    intro hinline
    subst hinline
    exact hv.within hpass
  obtain ⟨t, ht, hreforms, hprogress, hbody⟩ :=
    hr.reforms hframe hv.sound hi hwithin
  rw [hbody]
  have husable := hv.usable
  rcases ht with ⟨hprogram, hsame⟩ | ⟨hinline, c, hopt⟩
  · rw [hprogram] at hreforms
    exact hstraight.reforms husable hreforms (hprogress.trans hsame)
  · have h := hwithin hinline
    -- the body that is being worked on is no exception for the callee's visit,
    -- as its method is in progress and no other method has it
    have hasked :
        (straightening cfg passes).ready (Inline.consulted cfg c v.session) :=
      ⟨⟨husable.linked, husable.named, husable.unshared⟩,
        hstraight.alone h.unshared h.body h.busy⟩
    have hmeets := hcalls c _ hasked
    rw [hopt] at hmeets
    obtain ⟨⟨⟨ht, -⟩, -⟩, hdone⟩ := hmeets
    exact (hdone.but _).reforms ht hreforms hprogress

/-- Passes straighten what they visit, if retargeting is one of them. -/
theorem straightening_obeyed (cfg : InlineSettings)
    (hpass : .retargetDoubleBranch ∈ passes) : (straightening cfg passes).Obeyed
    (Optimizer.ofPasses cfg passes : Optimizer σ) := by
  have h : ((roaming passes).scanned cfg passes).Obeyed
      (Optimizer.ofPasses cfg passes : Optimizer σ) :=
    (roaming_obeyed cfg passes).scanned (roaming_scans cfg passes) fun _ hs =>
      hs.linked
  refine
    { unwatched := fun _ _ => rfl
      idle := fun hs => ⟨h.idle hs.1, hs.2⟩
      skip := ?skip
      start := ?start
      advance := fun hv hmore => ⟨h.advance hv.1 hmore, hv.2⟩
      apply := ?apply
      decline := fun hv => ⟨h.decline hv.1, hv.2⟩
      restart := fun hv hmore => ⟨h.restart hv.1 hmore, hv.2⟩
      finish := ?finish
      cut := fun _ => trivial
      refuse := fun _ => trivial }
  case skip =>
    intro s m hs hm hsize
    have hret := h.skip hs.1 hm hsize
    exact ⟨hret, (hs.2.start m).finish hpass (fun _ hb => by cases hb)
      fun b hb => hret.2 m b rfl hm hb⟩
  case start =>
    intro s m b hs hm hbody hsize
    exact ⟨h.start hs.1 hm hbody hsize, (hs.2.start m).but _⟩
  case apply =>
    intro s m changed r rest v fuel hcalls hr hoffering
    obtain ⟨hv, hstraight⟩ := hoffering
    have hscanned := h.apply (h.calls fuel) hr hv
    obtain ⟨⟨hroams, i, hi⟩, -⟩ := hv
    obtain ⟨pass, hmem, rfl⟩ := List.mem_map.mp hr
    have hframe :=
      frame_obeyed (Optimizer.appliesPasses_ofPasses (σ := σ) cfg passes)
    have hstep :=
      Pass.rule_step cfg ((Optimizer.ofPasses cfg passes).optimize fuel)
      hroams.sound hi.1 hi.2 pass
    generalize (pass.rule cfg).apply _ v = x at hscanned hstep
    obtain ⟨e | ⟨⟩, v'⟩ := x
    · exact hscanned
    · have hstraight' := straightening_passStep
        (hframe.calls fuel) hcalls hroams hi hmem hstraight hstep
      rw [Law.Applies, Meets] at hscanned ⊢
      split
      · next hdirty =>
          rw [if_pos hdirty] at hscanned
          exact ⟨hscanned, hstraight'⟩
      · next hdirty =>
          rw [if_neg hdirty] at hscanned
          exact ⟨hscanned, hstraight'⟩
  case finish =>
    intro s m v hscanning hmore
    obtain ⟨hv, hstraight⟩ := hscanning
    have hret := h.finish hv hmore
    refine ⟨hret, hstraight.finish hpass (fun b hb => ?_) fun b hb =>
      hret.2 m b rfl hv.1.fresh hb⟩
    rw [← hb]
    exact hv.1.body

end Straightening

/-! ### Requests -/

/-- Between requests, no visit is going on. -/
structure Session.Straightened (passes : List Pass) (s : Session σ) :
    Prop extends s.Usable passes where
  straight : s.Straight none
  idle : ∀ m, s.progressOf m ≠ .inProgress

namespace Optimizer

variable {cfg : InlineSettings} {passes : List Pass} {start s t : Session σ}
  {fuel : Nat} {ms : List MethodId}

/-- Counting leaves what is straight. -/
theorem straightened_count (s : Session σ) (f : Stats → Stats)
    (hs : s.Straightened passes) : (s.count f).Straightened passes :=
  ⟨⟨hs.linked, hs.named, hs.unshared⟩, hs.straight.congr rfl rfl, hs.idle⟩

/-- A request leaves what is straight. -/
theorem straightened_calls (cfg : InlineSettings)
    (hpass : .retargetDoubleBranch ∈ passes) (fuel : Nat) (m : MethodId)
    (s : Session σ) (hs : s.Straightened passes) :
    Meets (fun _ t => t.Straightened passes ∧ s.Moves t) (fun _ => True)
    ((ofPasses cfg passes).optimize fuel (some m) s) := by
  have hobeyed := straightening_obeyed (σ := σ) cfg hpass
  refine (hobeyed.calls fuel m s ⟨hs.toUsable, hs.straight⟩).mono
    (fun _ t ht => ?_) fun _ _ => trivial
  obtain ⟨⟨⟨husable, -, hmoves⟩, -⟩, hstraight⟩ := ht
  exact ⟨⟨husable, hstraight, fun c hc => hs.idle c (hmoves.busy c hc)⟩, hmoves⟩

/-- After calls one after the other their methods are done, as what is done
stays so. -/
theorem done_of_forM (hpass : .retargetDoubleBranch ∈ passes)
    (hs : s.Straightened passes)
    (hrun : (ms.forM fun m => (ofPasses cfg passes).optimize fuel
      (some m) : SessionM σ Unit) s = (.ok (), t)) :
    s.Moves t ∧ ∀ m ∈ ms, t.progressOf m = .done := by
  induction ms generalizing s with
  | nil =>
      obtain ⟨-, rfl⟩ := Prod.mk.inj hrun
      exact ⟨Session.moves_of_eq rfl, fun m hm => by cases hm⟩
  | cons m ms ih =>
      change ((ofPasses cfg passes).optimize fuel (some m) >>= fun _ =>
        ms.forM fun m => (ofPasses cfg passes).optimize fuel (some m) :
          SessionM σ Unit) s = (.ok (), t) at hrun
      rw [bind_apply] at hrun
      have hmeets := straightened_calls cfg hpass fuel m s hs
      rcases hcall :
        (ofPasses cfg passes).optimize fuel (some m) s with ⟨e | ⟨⟩, s₁⟩
      · rw [hcall] at hrun
        cases hrun
      · rw [hcall] at hrun hmeets
        obtain ⟨hmoves, hdone⟩ := ih hmeets.1 hrun
        refine ⟨hmeets.2.trans hmoves, fun c hc => ?_⟩
        rcases List.mem_cons.mp hc with rfl | hc
        · exact hmoves.done c (optimize_done hcall (hs.idle c))
        · exact hdone c hc

/-- A method that has been asked for is done after the run. -/
theorem done_of_run (hpass : .retargetDoubleBranch ∈ passes)
    (hs : s.Straightened passes)
    (hrun : (ofPasses cfg passes).run fuel ms s = (.ok (), t)) :
    ∀ m ∈ ms, t.progressOf m = .done := by
  rw [run_apply] at hrun
  generalize hforM : (ms.forM fun m => (ofPasses cfg passes).optimize fuel
    (some m) : SessionM σ Unit) _ = x at hrun
  obtain ⟨e | ⟨⟩, s₁⟩ := x
  · cases hrun
  · obtain ⟨-, rfl⟩ := Prod.mk.inj hrun
    exact (done_of_forM hpass (straightened_count s _ hs) hforM).2

/-- **Chains of branches are followed to their end.**  The pass that is offered
a branch comes back, and so does its search, whatever the chain is like.  Where
the branch goes to another, unconditional branch and the chain has an end, it is
sent there and nothing else is changed; in all other cases nothing is.

An optimiser with this pass, any others in any order, any policy and any budget
starts on a program, whose methods share no bodies if there is an inliner, and
has served any requests.  Then in all methods that are done, a branch to
another, unconditional branch leads into a circle of unconditional branches or
to one without a target; and once a run has come to its end, the methods it has
been asked for are done. -/
theorem follows_chains (hpass : .retargetDoubleBranch ∈ passes)
    (hp : start.program.WellLinked) (hnamed : start.program.Named)
    (hshare : .inlineFunctionCall ∈ passes → start.program.Unshared)
    (hfresh : start.progress = []) (hs : Served (ofPasses cfg passes) start s) :
    (∀ (e : Editing) (i : InstrId), e.Sound → e.editor.target = some i →
      i ∈ e.code → ∃ e', Peephole.retargetDoubleBranch e = (.ok (), e') ∧
      (∀ mid, e.program.target? i = some mid →
        ∃ r, Peephole.Walk e.program [i] mid r ∧ ∀ t, r = some t ↔
        e.program.ChainEnds mid t) ∧ (∀ t, e.program.Shortens i t →
          e'.editor.dirty = true ∧ e.program.Sends e'.program i t) ∧
      ((∀ t, ¬ e.program.Shortens i t) → e' = e)) ∧
    (∀ m b, s.progressOf m = .done → (s.program.method m).body = some b →
      ∀ i ∈ s.program.code b, ∀ mid, (s.program.instr i).isBranch = true →
      s.program.target? i = some mid →
      mid ≠ i → (s.program.instr mid).kind = .branch → s.program.Astray mid) ∧
    ∀ fuel ms t, (ofPasses cfg passes).run fuel ms s = (.ok (), t) →
    ∀ m ∈ ms, t.progressOf m = .done := by
  have hnew : ∀ m, start.progressOf m = .notVisited := by
    intro m
    rw [Session.progressOf, hfresh]
    rfl
  have hstart : start.Straightened passes := by
    refine ⟨⟨hp, hnamed, hshare⟩, fun m b hm => ?_, fun m hm => ?_⟩
    · rw [hnew] at hm
      cases hm
    · rw [hnew] at hm
      cases hm
  have hcalls : ∀ fuel m (s : Session σ), s.Straightened passes →
      Meets (fun _ t => t.Straightened passes) (fun _ => True)
        ((ofPasses cfg passes).optimize fuel (some m) s) :=
    fun fuel m s hs => (straightened_calls cfg hpass fuel m s hs).mono
      (fun _ _ ht => ht.1) fun _ h => h
  have hkept := hs.kept straightened_count (fun _ _ => trivial) hcalls hstart
  refine ⟨fun e i he htarget hi =>
    Editing.retargetDoubleBranch_sends he htarget hi, ?_,
    fun fuel ms t hrun => done_of_run hpass hkept hrun⟩
  intro m b hm hb i hi mid hbr hmid hne hkind
  have hidle := hkept.straight m b hm hb (by simp) i hi
  rw [Program.idle_retargetDoubleBranch_iff (hkept.linked.has hi)] at hidle
  exact Program.astray_iff.mpr fun t hend =>
    hidle t ⟨hbr, mid, hmid, hne, hkind, hend⟩

/-- A method that calls one in which a branch leads to two others that go to
each other, and a method in which a conditional branch leads back to itself. -/
def spinning : Program where
  instrs := #[⟨.call, .method ⟨"", "spin", [], "void"⟩, some ⟨0⟩⟩,
    ⟨⟨0x70⟩, .absent, some ⟨0⟩⟩, ⟨⟨0x52⟩, .target ⟨4⟩, some ⟨1⟩⟩,
    ⟨⟨0x70⟩, .absent, some ⟨1⟩⟩, ⟨.br, .target ⟨5⟩, some ⟨1⟩⟩,
    ⟨.br, .target ⟨4⟩, some ⟨1⟩⟩, ⟨⟨0x52⟩, .target ⟨7⟩, some ⟨2⟩⟩,
    ⟨.br, .target ⟨8⟩, some ⟨2⟩⟩, ⟨.br, .target ⟨6⟩, some ⟨2⟩⟩]
  bodies := #[{ code := [⟨0⟩, ⟨1⟩] }, { code := [⟨2⟩, ⟨3⟩, ⟨4⟩, ⟨5⟩] },
    { code := [⟨6⟩, ⟨7⟩, ⟨8⟩] }]
  methods := #[{ name := "main", body := some ⟨0⟩ },
    { name := "spin", body := some ⟨1⟩ }, { name := "back", body := some ⟨2⟩ }]

/-- Every call in `spinning` may be taken in. -/
def inlineSpin : InlineSettings where
  resolution := some (.ofMethods spinning [⟨0⟩, ⟨1⟩, ⟨2⟩])
  policy := .always

/-- All three methods, optimised with all passes. -/
def spun : Except Fault Unit × Session Unit :=
  (ofPasses inlineSpin allPasses).run 60 [⟨0⟩, ⟨1⟩, ⟨2⟩]
    { program := spinning, client := () }

/-- The branch that leads back to itself is sent to itself.  When the run has
come to its end and has taken the call in, the copied branch goes to one that
goes to itself. -/
theorem follows_chains_spinning :
    spinning.WellLinked ∧ spinning.Named ∧ spinning.Unshared ∧
    (∃ e', Peephole.retargetDoubleBranch ⟨spinning,
      { method := ⟨2⟩, body := ⟨2⟩, target := some ⟨6⟩ }⟩ = (.ok (), e') ∧
      spinning.Sends e'.program ⟨6⟩ ⟨6⟩) ∧
    spun.1 = .ok () ∧ spun.2.stats.inlined = 1 ∧ spun.2.progressOf ⟨0⟩ = .done ∧
    ∃ i ∈ spun.2.program.code ⟨0⟩, ∃ mid, mid ≠ i ∧
    spun.2.program.target? i = some mid ∧ spun.2.program.Astray mid := by
  have hp : spinning.WellLinked := by decide
  have hnamed : spinning.Named := by decide
  have hshare : spinning.Unshared := by decide
  -- the run is evaluated once for all that is read off from its end
  obtain ⟨hok, hinlined, hbody, hcode, hbranch, htarget, hkind⟩ : spun.1 =
      .ok () ∧ spun.2.stats.inlined = 1 ∧ (spun.2.program.method ⟨0⟩).body =
      some ⟨0⟩ ∧ ⟨10⟩ ∈ spun.2.program.code ⟨0⟩ ∧
      (spun.2.program.instr ⟨10⟩).isBranch = true ∧ spun.2.program.target?
      ⟨10⟩ = some ⟨12⟩ ∧ (spun.2.program.instr ⟨12⟩).kind = .branch := by
    decide +kernel
  have hstart : Served (ofPasses inlineSpin allPasses)
      { program := spinning, client := () }
      { program := spinning, client := () } := .start
  have hrun : spun = (.ok (), spun.2) :=
    (Prod.eta spun).symm.trans (by rw [hok])
  have hserved : Served (ofPasses inlineSpin allPasses)
      { program := spinning, client := () } spun.2 :=
    .request 60 (.run [⟨0⟩, ⟨1⟩, ⟨2⟩]) .start (by
      change returned spun.1 = true
      rw [hok]
      rfl)
  obtain ⟨happly, -, hdone⟩ :=
    follows_chains (by decide) hp hnamed (fun _ => hshare) rfl hstart
  have hdone₀ := hdone 60 [⟨0⟩, ⟨1⟩, ⟨2⟩] spun.2 hrun ⟨0⟩ (by decide)
  obtain ⟨-, hastray, -⟩ :=
    follows_chains (by decide) hp hnamed (fun _ => hshare) rfl hserved
  have hshortens : spinning.Shortens ⟨6⟩ ⟨6⟩ := by
    have hfirst : spinning.Jumps ⟨7⟩ ⟨8⟩ := ⟨by decide, by decide⟩
    have hsecond : spinning.Jumps ⟨8⟩ ⟨6⟩ := ⟨by decide, by decide⟩
    exact ⟨by decide, ⟨7⟩, by decide, by decide, by decide,
      .head hfirst (.head hsecond .refl), by decide⟩
  obtain ⟨e', heq, -, hsends, -⟩ :=
    happly ⟨spinning, { method := ⟨2⟩, body := ⟨2⟩, target := some ⟨6⟩ }⟩ ⟨6⟩
      ⟨hp, by decide, fun x hx => by cases hx⟩ rfl (by decide)
  exact ⟨hp, hnamed, hshare, ⟨e', heq, (hsends ⟨6⟩ hshortens).2⟩, hok, hinlined,
    hdone₀, ⟨10⟩, hcode, ⟨12⟩, by decide, htarget, hastray ⟨0⟩ ⟨0⟩ hdone₀ hbody
    ⟨10⟩ hcode ⟨12⟩ hbranch htarget (by decide) hkind⟩

/-- Two methods with one body, which branches into the third method; that one
branches back, and calls a fourth one, which enters the body as well. -/
def entangled : Program where
  instrs := #[⟨.nop, .absent, some ⟨0⟩⟩,
    ⟨.call, .method ⟨"", "relay", [], "void"⟩, some ⟨0⟩⟩,
    ⟨.br, .target ⟨9⟩, some ⟨0⟩⟩,
    ⟨.nop, .absent, some ⟨0⟩⟩, ⟨.br, .target ⟨4⟩, some ⟨0⟩⟩,
    ⟨.call, .method ⟨"", "second", [], "void"⟩, some ⟨0⟩⟩,
    ⟨⟨0x70⟩, .absent, some ⟨0⟩⟩,
    ⟨.call, .method ⟨"", "second", [], "void"⟩, some ⟨1⟩⟩,
    ⟨.call, .method ⟨"", "enter", [], "void"⟩, some ⟨1⟩⟩,
    ⟨.br, .target ⟨3⟩, some ⟨1⟩⟩,
    ⟨⟨0x52⟩, .target ⟨2⟩, some ⟨2⟩⟩, ⟨⟨0x70⟩, .absent, some ⟨2⟩⟩]
  bodies := #[{ code := [⟨0⟩, ⟨1⟩, ⟨2⟩, ⟨3⟩, ⟨4⟩, ⟨5⟩, ⟨6⟩] },
    { code := [⟨7⟩, ⟨8⟩, ⟨9⟩] }, { code := [⟨10⟩, ⟨11⟩] }]
  methods := #[{ name := "first", body := some ⟨0⟩ },
    { name := "second", body := some ⟨0⟩ },
    { name := "relay", body := some ⟨1⟩ },
    { name := "enter", body := some ⟨2⟩ }]

/-- A run over all methods of `entangled`, or of what has become of it, in which
every call may be taken in. -/
def disentangle (p : Program) : Except Fault Unit × Session Unit :=
  let cfg : InlineSettings :=
    { resolution := some (.ofMethods entangled [⟨0⟩, ⟨1⟩, ⟨2⟩, ⟨3⟩]),
      policy := .always }
  (ofPasses cfg [.inlineFunctionCall, .removeNop, .retargetDoubleBranch]).run 60
    [⟨0⟩, ⟨1⟩, ⟨2⟩, ⟨3⟩] { program := p, client := () }

/-- **Chains come about in shared bodies that no visit follows.**  When the
fourth method of `entangled` is visited, the branch that it goes to leads into a
circle.  Then the call of the third method is taken in, and that branch is sent
where its copy goes, to an instruction that is no branch.  All methods are done
then, and in a second run the pass fires. -/
theorem chain_left_sharing :
    entangled.WellLinked ∧ entangled.Named ∧
      let first := disentangle entangled
      let second := disentangle first.2.program
      first.1 = .ok () ∧
        (∀ m ∈ [⟨0⟩, ⟨1⟩, ⟨2⟩, ⟨3⟩], first.2.progressOf m = .done) ∧
        (first.2.program.method ⟨3⟩).body = some ⟨2⟩ ∧
        ⟨10⟩ ∈ first.2.program.code ⟨2⟩ ∧
        first.2.program.target? ⟨10⟩ = some ⟨2⟩ ∧
        (first.2.program.instr ⟨2⟩).kind = .branch ∧
        ¬ first.2.program.Astray ⟨2⟩ ∧
        second.1 = .ok () ∧
          second.2.stats.fired = [("retarget-double-branch", 2)] := by
  have hp : entangled.WellLinked := by decide
  have hnamed : entangled.Named := by decide
  -- the runs are evaluated once for all that is read off from their ends
  obtain ⟨hok, hdone, hbody, hcode, htarget, hkind, hnext, hend, hok', hfired⟩ :
      let first := disentangle entangled
      let second := disentangle first.2.program
      first.1 = .ok () ∧
        (∀ m ∈ [⟨0⟩, ⟨1⟩, ⟨2⟩, ⟨3⟩], first.2.progressOf m = .done) ∧
        (first.2.program.method ⟨3⟩).body = some ⟨2⟩ ∧
        ⟨10⟩ ∈ first.2.program.code ⟨2⟩ ∧
        first.2.program.target? ⟨10⟩ = some ⟨2⟩ ∧
        (first.2.program.instr ⟨2⟩).kind = .branch ∧
        first.2.program.target? ⟨2⟩ = some ⟨3⟩ ∧
        (first.2.program.instr ⟨3⟩).kind ≠ .branch ∧
        second.1 = .ok () ∧
          second.2.stats.fired = [("retarget-double-branch", 2)] := by
    decide +kernel
  have hends : (disentangle entangled).2.program.ChainEnds ⟨2⟩ ⟨3⟩ :=
    ⟨.single ⟨hkind, hnext⟩, hend⟩
  have hastray : ¬ (disentangle entangled).2.program.Astray ⟨2⟩ := fun h =>
    Program.astray_iff.mp h ⟨3⟩ hends
  exact ⟨hp, hnamed, hok, hdone, hbody, hcode, htarget, hkind, hastray,
    hok', hfired⟩

end Optimizer

end Bytecode
