import Bytecode.Proofs.Leaving
import Bytecode.Proofs.Renaming
import Bytecode.Proofs.Unfolding

/-!
# Fixed points

A body is a fixed point of passes if none of them has anything to do at any of
its instructions. A scan ends without a change, and during it every pass has
been idle at every instruction that the cursor has left behind.  So the body
that a visit leaves is a fixed point, whatever has happened in between: changes
that send the cursor back, and visits of other methods in the middle of the
scan, which leave the body alone.

Following a scan is put on top of any law that says enough of visits,
`Law.scanned`.  A visit of a fixed point does nothing, `FixedPoint.optimize_eq`.
The main statement is `reaches_fixedPoint`.
-/

namespace Bytecode

variable {σ : Type}

namespace Program

variable {p q : Program} {b : BodyId} {i : InstrId} {passes : List Pass}
  {pass : Pass}

/-- Any pass stays idle in a body without dangling branches while other bodies
are changed. -/
theorem Idle.agree_closed (h : p.Idle b i pass) (hp : p.WellLinked)
    (hq : q.WellLinked) (hpq : AgreeOn b p q) (hclosed : p.Closed b)
    (hi : i ∈ p.code b) : q.Idle b i pass := by
  rintro e rfl r he
  -- the bodies are the same, so what the pass would do in `q` it would do in
  -- `p`
  have hback : Renames id e.body q p :=
    (renames_refl p e.body).agree hp hq hp hp hpq (.refl _ _)
  have hi' : i ∈ q.code e.body := by rwa [hpq.code_eq hp hq]
  obtain ⟨r', -, heffect, -⟩ :=
    he.along hq hp (hclosed.agree hp hq hpq) hback hi'
  exact h e rfl r' heffect

/-- No pass of the list has anything to do anywhere in the body. -/
def FixedPoint (p : Program) (b : BodyId) (passes : List Pass) : Prop :=
  ∀ i ∈ p.code b, ∀ pass ∈ passes, p.Idle b i pass

/-- A fixed point of some passes is one of fewer. -/
theorem FixedPoint.mono {few : List Pass} (h : p.FixedPoint b passes)
    (hfew : few ⊆ passes) : p.FixedPoint b few :=
  fun i hi pass hpass => h i hi pass (hfew hpass)

end Program

/-! ### What a scan has passed -/

namespace Visit

variable {v v' : Visit σ} {i : InstrId} {n : Nat} {passes left : List Pass}
  {pass : Pass}

/-- The cursor is where it was, the body has the code it had, and what was idle
there is idle. -/
structure Unmoved (v v' : Visit σ) : Prop where
  code : v'.editing.code = v.editing.code
  pos : v'.editor.pos = v.editor.pos
  target : v'.editor.target = v.editor.target
  idle :
    ∀ i ∈ v.editing.code, ∀ pass, v.session.program.Idle v.editor.body i pass →
    v'.session.program.Idle v'.editor.body i pass

/-- The same instructions have been passed. -/
theorem Unmoved.passed (h : v.Unmoved v') : v'.passed = v.passed := by
  rw [Visit.passed, Visit.passed, h.pos, h.code]

/-- The same instruction is on offer. -/
theorem Unmoved.offers (h : v.Unmoved v') (hi : v.Offers i) : v'.Offers i :=
  ⟨h.target.trans hi.1, by rw [h.code]; exact hi.2⟩

/-- Looking at a body moves nothing. -/
theorem unmoved_of_untouched {e : Editing} (he : v.editing.Untouched e) :
    v.Unmoved (v.setEditing e) where
  code := he.code
  pos := by
    change e.editor.pos = v.editing.editor.pos
    rw [he.editor]
  target := by
    change e.editor.target = v.editing.editor.target
    rw [he.editor]
  idle := by
    intro i _ pass hidle
    have hbody : (v.setEditing e).editor.body = v.editor.body := he.edited.body
    rwa [session_untouched he, hbody]

/-- At the first `n` instructions no pass has anything to do. -/
def Scanned (passes : List Pass) (v : Visit σ) (n : Nat) : Prop :=
  ∀ k ∈ v.editing.code.take n, ∀ pass ∈ passes,
    v.session.program.Idle v.editor.body k pass

/-- The passes but those that are left have declined the target, and the
instructions before it have been declined by all. -/
def Declined (passes left : List Pass) (i : InstrId) (v : Visit σ) : Prop :=
  v.Scanned passes (v.passed - 1) ∧
    ∀ pass ∈ passes, pass ∈ left ∨ v.session.program.Idle v.editor.body i pass

/-- What has been scanned stays scanned. -/
theorem Scanned.unmoved (hscanned : v.Scanned passes n) (h : v.Unmoved v') :
    v'.Scanned passes n := by
  intro k hk pass hpass
  rw [h.code] at hk
  exact h.idle k (List.mem_of_mem_take hk) pass (hscanned k hk pass hpass)

/-- What has been declined stays declined. -/
theorem Declined.unmoved (hdeclined : v.Declined passes left i)
    (h : v.Unmoved v') (hi : i ∈ v.editing.code) :
    v'.Declined passes left i := by
  refine ⟨?_, fun pass hpass => ?_⟩
  · rw [h.passed]
    exact hdeclined.1.unmoved h
  · exact (hdeclined.2 pass hpass).imp_right (h.idle i hi pass)

/-- One pass more has declined the target. -/
theorem Declined.idle (h : v.Declined passes (pass :: left) i)
    (hidle : v.session.program.Idle v.editor.body i pass) :
    v.Declined passes left i := by
  refine ⟨h.1, fun other hother => ?_⟩
  rcases h.2 other hother with hmem | hdone
  · rcases List.mem_cons.mp hmem with rfl | hmem
    · exact Or.inr hidle
    · exact Or.inl hmem
  · exact Or.inr hdone

/-- With all passes, the target is left behind. -/
theorem Declined.passed (h : v.Declined passes [] i)
    (hpos : v.editor.pos = some i) (hi : i ∈ v.editing.code) :
    v.Scanned passes v.passed := by
  obtain ⟨hscanned, hidle⟩ := h
  intro k hk
  rcases mem_passed hpos hi hk with hk | rfl
  · exact hscanned k hk
  · exact fun pass hpass => (hidle pass hpass).resolve_left (by simp)

end Visit

/-! ### The method that has been finished last -/

/-- The body of the method that has been finished last, if it is new, is as `P`
tells. -/
def Session.OfLast (s t : Session σ) (P : BodyId → Prop) : Prop :=
  ∀ m b, t.progress.head? = some (m, .done) → s.progressOf m = .notVisited →
    (t.program.method m).body = some b → P b

/-- Where no visit has ended, nothing is asked of the last one. -/
theorem Session.ofLast_refl (s : Session σ) (P : BodyId → Prop) :
    s.OfLast s P := by
  intro m b hhead hm
  obtain ⟨rest, hrest⟩ := List.head?_eq_some_iff.mp hhead
  rw [progressOf, hrest, List.lookup_cons_self] at hm
  cases hm

/-- When a visit ends, what it leaves is what is asked. -/
theorem Session.ofLast_done {s t : Session σ} {m : MethodId} {P : BodyId → Prop}
    (h : ∀ b, (t.program.method m).body = some b → P b) :
    s.OfLast (t.setProgress m .done) P := by
  intro c b hhead _ hb
  obtain rfl : m = c := congrArg Prod.fst (Option.some.inj hhead)
  exact h b hb

/-- After a call, that is the method which has been asked for. -/
theorem Session.OfLast.of_optimize {o : Optimizer σ} {s t : Session σ}
    {m : MethodId} {b : BodyId} {P : BodyId → Prop} {fuel : Nat}
    (h : s.OfLast t P) (hm : s.progressOf m = .notVisited)
    (hrun : o.optimize fuel (some m) s = (.ok (), t))
    (hbody : (t.program.method m).body = some b) : P b :=
  h m b (Optimizer.head?_of_optimize hrun hm) hm hbody

/-! ### Following the scan -/

namespace Law

variable {l : Law σ} {cfg : InlineSettings} {passes : List Pass}

/-- What a law has to say of visits, so that their scans can be followed. -/
structure Scans (l : Law σ) (cfg : InlineSettings) (passes : List Pass) :
    Prop where
  steady : ∀ {s m p v}, l.during s m p v → v.Steady
  body : ∀ {s m p v}, l.during s m p v →
    (v.session.program.method m).body = some v.editor.body
  /-- A pass that makes no change leaves the body alone. -/
  unmoved : ∀ {s m changed} {pass : Pass} {rest v v' i fuel}, pass ∈ passes →
    l.during s m (.offering changed (pass.rule cfg :: rest)) v → v.Offers i →
    (pass.rule cfg).apply ((Optimizer.ofPasses cfg passes).optimize fuel) v =
    (.ok (), v') → v'.editor.dirty = false → v.Unmoved v'

/-- The law, with the scan followed besides: as long as it has made no change,
all passes have declined what it has left behind. -/
def scanned (l : Law σ) (cfg : InlineSettings) (passes : List Pass) :
    Law σ where
  ready := l.ready
  returns s t :=
    l.returns s t ∧ s.OfLast t fun b => t.program.FixedPoint b passes
  broken := l.broken
  during s m
    | .scanning changed, v => l.during s m (.scanning changed) v ∧
      (changed = false → v.Scanned passes v.passed)
    | .offering changed rules, v =>
        l.during s m (.offering changed rules) v ∧ ∃ i left, v.Offers i ∧
        v.editor.pos = some i ∧ left ⊆ passes ∧ rules =
        left.map (Pass.rule cfg) ∧ (changed = false → v.Declined passes left i)

/-- A pass that changes nothing has declined what it was offered. -/
theorem scanned_apply {s : Session σ} {m : MethodId} {changed : Bool}
    {pass : Pass} {left : List Pass} {v : Visit σ} {i : InstrId} {fuel : Nat}
    (h : l.Obeyed (Optimizer.ofPasses cfg passes)) (hl : l.Scans cfg passes)
    (hleft : pass :: left ⊆ passes) (hv : l.during s m
      (.offering changed (pass.rule cfg :: left.map (Pass.rule cfg))) v)
    (hi : v.Offers i) (hpos : v.editor.pos = some i)
    (hdeclined : changed = false → v.Declined passes (pass :: left) i) :
    (l.scanned cfg passes).Applies s m changed (pass.rule cfg : Rule σ).name
    (left.map (Pass.rule cfg)) ((pass.rule cfg).apply
      ((Optimizer.ofPasses cfg passes).optimize fuel) v) := by
  obtain ⟨hpass, hleft⟩ := List.cons_subset.mp hleft
  have happlies := h.apply (h.calls fuel) (List.mem_map_of_mem hpass) hv
  have hidle : ((pass.rule cfg).apply
      ((Optimizer.ofPasses cfg passes).optimize fuel) v).2.editor.dirty =
      false → v.session.program.Idle v.editor.body i pass :=
    idle_of_clean (hl.steady hv).sound hi.1 hi.2
  rcases heq :
    (pass.rule cfg).apply ((Optimizer.ofPasses cfg passes).optimize fuel) v with
    ⟨e | ⟨⟩, v'⟩
  · rw [heq] at happlies
    exact happlies
  · rw [heq] at happlies hidle
    rw [Law.Applies, Meets] at happlies
    by_cases hdirty : v'.editor.dirty = true
    · rw [if_pos hdirty] at happlies
      exact Law.applies_fired hdirty ⟨happlies, fun hc => by cases hc⟩
    · rw [if_neg hdirty] at happlies
      have hclean : v'.editor.dirty = false := by simpa using hdirty
      have hunmoved := hl.unmoved hpass hv hi heq hclean
      refine Law.applies_quiet hclean ⟨happlies, i, left, hunmoved.offers hi,
        hunmoved.pos.trans hpos, hleft, rfl, fun hc => ?_⟩
      exact ((hdeclined hc).idle (hidle hclean)).unmoved hunmoved hi.2

/-- **A scan can be followed**: what it has left behind stays at rest until a
change starts it anew, and at its end that is the body. -/
theorem Obeyed.scanned
    (h : l.Obeyed (Optimizer.ofPasses cfg passes : Optimizer σ))
    (hl : l.Scans cfg passes)
    (hlinked : ∀ s, l.ready s → s.program.WellLinked) :
    (l.scanned cfg passes).Obeyed
    (Optimizer.ofPasses cfg passes : Optimizer σ) where
  unwatched := h.unwatched
  idle := fun hs => ⟨h.idle hs, Session.ofLast_refl _ _⟩
  skip := by
    intro s m hs hm hbody
    refine ⟨h.skip hs hm hbody, ?_⟩
    refine Session.ofLast_done
      (t := s.setProgress m .inProgress) fun b hb i hi => ?_
    have hsize := hbody b hb
    rw [(hlinked s hs).size, List.length_eq_zero_iff] at hsize
    have hi' : i ∈ s.program.code b := hi
    rw [hsize] at hi'
    cases hi'
  start := fun hs hm hbody hsize => ⟨h.start hs hm hbody hsize, fun _ k hk => by
    rw [show Visit.passed _ = 0 from rfl] at hk
    cases hk⟩
  advance := by
    rintro s m changed v ⟨hv, hscanned⟩ hmore
    obtain ⟨i, hi⟩ := (hl.steady hv).offers hmore
    refine ⟨h.advance hv hmore, i, passes, hi, hi.1, fun _ hpass => hpass, rfl,
      fun hc => ?_⟩
    refine ⟨?_, fun _ hpass => Or.inl hpass⟩
    rw [(hl.steady hv).passed_advanced hmore, Nat.add_sub_cancel]
    exact hscanned hc
  apply := by
    rintro s m changed r rest v fuel - - ⟨hv, i, left, hi, hpos, hleft, hrules,
      hdeclined⟩
    cases left with
    | nil => cases hrules
    | cons pass left =>
        obtain ⟨rfl, rfl⟩ := List.cons.inj hrules
        exact scanned_apply h hl hleft hv hi hpos hdeclined
  decline := by
    rintro s m changed v ⟨hv, i, left, hi, hpos, -, hrules, hdeclined⟩
    refine ⟨h.decline hv, fun hc => ?_⟩
    obtain rfl : left = [] := List.map_eq_nil_iff.mp hrules.symm
    exact (hdeclined hc).passed hpos hi.2
  restart := fun ⟨hv, _⟩ hmore => ⟨h.restart hv hmore, fun _ k hk => by
    rw [show Visit.passed _ = 0 from rfl] at hk
    cases hk⟩
  finish := by
    rintro s m v ⟨hv, hscanned⟩ hmore
    refine ⟨h.finish hv hmore, ?_⟩
    refine Session.ofLast_done
      (t := v.advanced.session) fun b hb i hi pass hpass => ?_
    obtain rfl : v.editor.body = b :=
      Option.some.inj ((hl.body hv).symm.trans hb)
    refine hscanned rfl i ?_ pass hpass
    rw [(hl.steady hv).passed_end hmore, List.take_length]
    exact hi
  cut := fun {s m p v} hv => by
    cases p with
    | scanning => exact h.cut hv.1
    | offering => exact h.cut hv.1
  refuse := fun hs => h.refuse hs

end Law

section Unmoved

variable {cfg : InlineSettings} {passes : List Pass} {s t : Session σ}
  {m : MethodId} {v v' : Visit σ} {i : InstrId}
  {optimize : Option MethodId → SessionM σ Unit}

/-- A visit in between leaves the cursor and the body under it alone. -/
theorem Visit.Within.unmoved_nested (h : v.Within s m)
    (hclosed : v.session.program.Closed v.editor.body)
    (hp : t.program.WellLinked) (hext : v.session.Extends t) :
    v.Unmoved { v with session := t } where
  code := h.code_nested hp hext
  pos := rfl
  target := rfl
  idle := fun _ hi _ hidle =>
    hidle.agree_closed h.sound.linked hp (h.agree hext) hclosed hi

/-- If it makes no change, the inliner leaves the body alone, as far as the
visit of the callee does. -/
theorem Inline.Inlines.unmoved (hcalls : frame.Calls optimize)
    (h : v.Within s m) (hi : v.Offers i)
    (hnested : ∀ t : Session σ, t.program.WellLinked → v.session.Extends t →
      (t.program = v.session.program ∨ ∃ c, optimize (some c)
        (Inline.consulted cfg c v.session) = (.ok (), t)) → v.Unmoved { v with
          session := t }) (hr : Inline.Inlines cfg optimize v i (.ok (), v'))
    (hclean : v'.editor.dirty = false) : v.Unmoved v' := by
  have hp : v.session.program.WellLinked := h.sound.linked
  generalize hx : ((.ok (), v') : Except Fault Unit × Visit σ) = x at hr
  cases hr with
  | none =>
      cases hx
      exact hnested _ hp (.refl _) (Or.inl rfl)
  | declined =>
      cases hx
      exact hnested _ hp (Session.extends_of_eq rfl rfl) (Or.inl rfl)
  | stopped => cases hx
  | spared _ hopt =>
      cases hx
      obtain ⟨ht, hext⟩ := nested_call hcalls h hopt
      exact hnested _ ht.linked hext (Or.inr ⟨_, hopt⟩)
  | takenIn hcallee _ hnext _ hopt _ hbody =>
      obtain ⟨ht, hext⟩ := nested_call hcalls h hopt
      obtain ⟨hv, hiv, hnext', -⟩ := h.taking hi hcallee hnext ht hext hbody
      obtain ⟨w, hw | ⟨hok, hrep⟩, -⟩ :=
        Inline.takeIn_replaces hv.sound hiv.1 hiv.2 hnext'
      · cases (Prod.mk.inj (hx.trans hw.1)).1
      · obtain ⟨-, rfl⟩ := Prod.mk.inj (hx.trans hok)
        have hdirty : v'.editor.dirty = true := hrep.1
        rw [hdirty] at hclean
        cases hclean

/-- For passes other than the inliner, that is so anyway. -/
theorem PassStep.unmoved {pass : Pass}
    (hr : PassStep cfg optimize v i pass (.ok (), v'))
    (hclean : v'.editor.dirty = false) (hinlines : pass = .inlineFunctionCall →
      Inline.Inlines cfg optimize v i (.ok (), v') → v.Unmoved v') :
    v.Unmoved v' := by
  cases hr with
  | quiet he => exact Visit.unmoved_of_untouched he
  | @fires _ e he =>
      have hdirty : (v.setEditing e).editor.dirty = true := he.dirty
      rw [hdirty] at hclean
      cases hclean
  | inlines hr => exact hinlines rfl hr

/-- Visits in programs without dangling branches can be followed. -/
theorem keeps_scans (cfg : InlineSettings) (passes : List Pass)
    (methods : Array Method) : (Optimizer.keeps σ (fun _ => True) methods
      fun _ => True).Scans cfg passes := by
  have hwithin : ∀ {s m p v}, (Optimizer.keeps σ (fun _ => True) methods
      fun _ => True).during s m p v → v.Within s m := by
    intro s m p v hv
    cases p with
    | scanning => exact hv.1
    | offering => exact hv.1.1
  have hframe :=
    frame_obeyed (Optimizer.appliesPasses_ofPasses (σ := σ) cfg passes)
  refine ⟨fun hv => (hwithin hv).toSteady, fun hv => (hwithin hv).body, ?_⟩
  intro s m changed pass rest v v' i fuel _ hv hi happly hclean
  have hstep :=
    Pass.rule_step cfg ((Optimizer.ofPasses cfg passes).optimize fuel)
    (hwithin hv).sound hi.1 hi.2 pass
  rw [happly] at hstep
  exact hstep.unmoved hclean fun _ hr => hr.unmoved (hframe.calls fuel)
    (hwithin hv) hi (fun t ht hext _ => (hwithin hv).unmoved_nested
      (hv.2.closed m _ (hwithin hv).body) ht hext) hclean

end Unmoved

/-! ### Nothing to do -/

section Idle

variable {cfg : InlineSettings} {passes left : List Pass} {s : Session σ}
  {m : MethodId} {b : BodyId} {v : Visit σ} {i : InstrId} {pass : Pass}
  {fuel : Nat}

/-- An idle pass does nothing. -/
theorem Program.Idle.quiet (h : v.session.program.Idle v.editor.body i pass)
    (hs : v.editing.Sound) (hi : v.Offers i)
    (hlocal : pass ≠ .inlineFunctionCall) (cfg : InlineSettings)
    (optimize : Option MethodId → SessionM σ Unit) :
    ∃ e, v.editing.Untouched e ∧
      (pass.rule cfg).apply optimize v = (.ok (), v.setEditing e) := by
  have hstep := Pass.rule_step cfg optimize hs hi.1 hi.2 pass
  generalize (pass.rule cfg).apply optimize v = r at hstep
  cases hstep with
  | quiet he => exact ⟨_, he, rfl⟩
  | fires _ heffect => exact absurd heffect (h v.editor rfl _)
  | inlines => exact absurd rfl hlocal

namespace Optimizer

variable {optimize : Option MethodId → SessionM σ Unit}

/-- An optimiser of passes alone tells nobody. -/
theorem notify_ofPasses (e : Event) (v : Visit σ) :
    (ofPasses cfg passes).notify e v = (.ok (), v) :=
  rfl

/-- A rule that succeeds is not told of either. -/
theorem applyRule_quiet {r : Rule σ} {v' : Visit σ}
    (h : r.apply optimize v = (.ok (), v')) :
    (ofPasses cfg passes).applyRule optimize r v = (.ok (), v') := by
  rw [applyRule]
  simp only [notify_ofPasses, h]
  rfl

/-- An offer is declined by idle passes. -/
theorem offerTo_idle (hs : v.editing.Sound) (hi : v.Offers i)
    (hclean : v.editor.dirty = false) (hleft : ∀ pass ∈ left, pass ≠
      .inlineFunctionCall ∧ v.session.program.Idle v.editor.body i pass) :
    ∃ e, v.editing.Untouched e ∧
      (ofPasses cfg passes).offerTo optimize (left.map (Pass.rule cfg)) v =
      (.ok false, v.setEditing e) := by
  induction left generalizing v with
  | nil => exact ⟨v.editing, .refl hs, rfl⟩
  | cons pass left ih =>
      obtain ⟨hlocal, hidle⟩ := hleft pass List.mem_cons_self
      obtain ⟨e, he, happly⟩ := hidle.quiet hs hi hlocal cfg optimize
      have hclean' : (v.setEditing e).editor.dirty = false := by
        change e.editor.dirty = false
        rw [he.editor]
        exact hclean
      have hbody : (v.setEditing e).editor.body = v.editor.body :=
        he.edited.body
      obtain ⟨e', he', hrest⟩ :=
        ih (v := v.setEditing e) he.sound (hi.untouched he) hclean' (by
        rw [Visit.session_untouched he, hbody]
        exact fun other hother => hleft other (List.mem_cons_of_mem _ hother))
      refine ⟨e', he.trans he', ?_⟩
      rw [List.map_cons, offerTo_cons, applyRule_quiet happly]
      simp only [hclean', hrest]
      rfl

/-- A scan of a fixed point comes to its end in one go. -/
theorem scan_fixedPoint (cfg : InlineSettings)
    (optimize : Option MethodId → SessionM σ Unit) (h : v.Steady)
    (hlocal : .inlineFunctionCall ∉ passes)
    (hfixed : v.session.program.FixedPoint v.editor.body passes)
    (hfuel : v.ahead < fuel) :
    ∃ v', (ofPasses cfg passes).scan optimize fuel false v = (.ok (), v') ∧
      v'.session = v.session := by
  induction fuel generalizing v with
  | zero => exact absurd hfuel (Nat.not_lt_zero _)
  | succ fuel ih =>
      rw [scan_succ]
      by_cases hmore : v.more = true
      · obtain ⟨i, hi⟩ := h.offers hmore
        obtain ⟨e, he, hoffer⟩ : ∃ e, v.advanced.editing.Untouched e ∧
            (ofPasses cfg passes).offer optimize v.advanced =
            (.ok false, v.advanced.setEditing e) :=
          offerTo_idle h.advanced.sound hi h.advanced.clean fun pass hpass =>
            ⟨fun heq => hlocal (heq ▸ hpass), hfixed i hi.2 pass hpass⟩
        have hbody : (v.advanced.setEditing e).editor.body = v.editor.body :=
          he.edited.body
        have hsession : (v.advanced.setEditing e).session = v.session :=
          Visit.session_untouched he
        have hahead : (v.advanced.setEditing e).ahead = v.advanced.ahead :=
          Visit.ahead_congr he.code (Visit.unmoved_of_untouched he).pos
        obtain ⟨v', hscan, hsame⟩ := ih (h.advanced.untouched he)
          (by rw [hsession, hbody]; exact hfixed)
          (by
            have hless := h.ahead_advanced hmore
            omega)
        refine ⟨v', ?_, hsame.trans hsession⟩
        rw [if_pos hmore, hoffer]
        exact hscan
      · rw [if_neg hmore]
        exact ⟨v.advanced, rfl, rfl⟩

/-- **A visit of a fixed point does nothing** but take note that the method is
done. -/
theorem optimize_fixedPoint (hp : s.program.WellLinked)
    (hm : s.progressOf m = .notVisited)
    (hbody : (s.program.method m).body = some b)
    (hlocal : .inlineFunctionCall ∉ passes)
    (hfixed : s.program.FixedPoint b passes)
    (hfuel : (s.program.code b).length + 1 < fuel) :
    ∃ t, (ofPasses cfg passes).optimize fuel (some m) s = (.ok (), t) ∧
      t.program = s.program ∧
      t.stats.fired = s.stats.fired ∧ t.stats.inlined = s.stats.inlined := by
  obtain ⟨n, rfl⟩ := Nat.exists_eq_add_one_of_ne_zero (Nat.ne_zero_of_lt hfuel)
  rw [optimize_succ, if_pos hm, hbody]
  simp only
  by_cases hsize : s.program.size b = 0
  · rw [if_pos hsize]
    exact ⟨_, rfl, rfl, rfl, rfl⟩
  · have hsteady : Visit.Steady ⟨s.setProgress m .inProgress,
        { method := m, body := b }⟩ :=
      Visit.steady_start (s := s.setProgress m .inProgress) hp m hsize
    have hahead : Visit.ahead ⟨s.setProgress m .inProgress,
        { method := m, body := b }⟩ < n :=
      lt_of_le_of_lt (Nat.sub_le _ _) (Nat.lt_of_succ_lt_succ hfuel)
    obtain ⟨v', hscan, hsession⟩ :=
      scan_fixedPoint cfg
        ((ofPasses cfg passes).optimize n) hsteady hlocal hfixed hahead
    have hvisit : (ofPasses cfg passes).visit ((ofPasses cfg passes).optimize n)
        n m b (s.setProgress m .inProgress) = (.ok (), v'.session) := by
      rw [visit]
      simp only [notify_ofPasses, hscan]
      rfl
    rw [if_neg hsize, hvisit, hsession]
    exact ⟨_, rfl, rfl, rfl, rfl⟩

end Optimizer

end Idle

namespace Optimizer

variable {cfg : InlineSettings} {passes : List Pass} {s t : Session σ}
  {m : MethodId} {b : BodyId} {fuel : Nat}

/-- What the visit of a method leaves is a fixed point. -/
theorem fixedPoint_of_optimize (hs : s.Sound) (hclosed : s.program.NoDangling)
    (hm : s.progressOf m = .notVisited)
    (hbody : (s.program.method m).body = some b)
    (hrun : (ofPasses cfg passes).optimize fuel (some m) s = (.ok (), t)) :
    t.Sound ∧ s.Extends t ∧ t.program.FixedPoint b passes := by
  have hany : cfg.Accepts (fun _ => True) s.program.methods :=
    fun _ _ _ _ _ => trivial
  have hobeyed := (keeps_obeyed (σ := σ) hany survives_true).scanned
    (keeps_scans cfg passes s.program.methods) fun s hs => hs.1.linked
  have hmeets :=
    hobeyed.calls fuel m s ⟨hs, hclosed, trivial, rfl, fun _ _ => trivial⟩
  rw [hrun] at hmeets
  obtain ⟨⟨⟨ht, hext⟩, -⟩, hfixed⟩ := hmeets
  refine ⟨ht, hext, hfixed.of_optimize hm hrun ?_⟩
  rw [hext.method]
  exact hbody

/-- **The driver reaches a fixed point.**  An optimiser with any passes, any
policy and any budget is asked for a method that has not been visited, in a
session whose methods share no bodies and whose branches stay in their bodies,
and it comes back.  Then a pass other than the inliner that is applied anywhere
in the method's body changes nothing and leaves no change to be taken note of.
So an optimiser that has no other passes than these, with whatever settings and
in whatever session with the program that has been left, comes back from this
method without a change. -/
theorem reaches_fixedPoint (hs : s.Sound) (hclosed : s.program.NoDangling)
    (hm : s.progressOf m = .notVisited)
    (hbody : (s.program.method m).body = some b)
    (hrun : (ofPasses cfg passes).optimize fuel (some m) s = (.ok (), t)) :
    (t.program.method m).body = some b ∧
    (∀ i ∈ t.program.code b, ∀ pass ∈ passes, pass ≠ .inlineFunctionCall →
      ∀ {τ : Type} (other : InlineSettings) (optimize : Option MethodId →
        SessionM τ Unit) (v : Visit τ), v.session.program = t.program →
      v.editing.Sound → v.editor.body = b →
      v.editor.target = some i → v.editor.dirty = false →
      ∃ v', (pass.rule other).apply optimize v = (.ok (), v') ∧ v'.session =
      v.session ∧ v'.editor = { v.editor with index := v'.editor.index } ∧
      v'.editor.dirty = false) ∧ ∀ few ⊆ passes, .inlineFunctionCall ∉ few →
    ∀ {τ : Type} (other : InlineSettings) (r : Session τ),
    r.program = t.program →
    r.progressOf m = .notVisited → ∀ k, (t.program.code b).length + 1 < k →
    ∃ u, (ofPasses other few).optimize k (some m) r = (.ok (), u) ∧
    u.program = t.program ∧
    u.stats.fired = r.stats.fired ∧ u.stats.inlined = r.stats.inlined := by
  obtain ⟨ht, hext, hfixed⟩ := fixedPoint_of_optimize hs hclosed hm hbody hrun
  have hbody' : (t.program.method m).body = some b := by
    rw [hext.method]
    exact hbody
  refine ⟨hbody', ?_, ?_⟩
  · intro i hi pass hpass hlocal τ other optimize v hprogram hsound hb
      htarget hclean
    have hoffers : v.Offers i := by
      refine ⟨htarget, ?_⟩
      change i ∈ v.session.program.code v.editor.body
      rw [hprogram, hb]
      exact hi
    have hidle : v.session.program.Idle v.editor.body i pass := by
      rw [hprogram, hb]
      exact hfixed i hi pass hpass
    obtain ⟨e, he, happly⟩ := hidle.quiet hsound hoffers hlocal other optimize
    refine ⟨v.setEditing e, happly, Visit.session_untouched he, he.editor, ?_⟩
    change e.editor.dirty = false
    rw [he.editor]
    exact hclean
  · intro few hfew hlocal τ other r hprogram hr k hk
    have hp : r.program.WellLinked := by
      rw [hprogram]
      exact ht.linked
    rw [← hprogram] at hk hbody' hfixed ⊢
    exact optimize_fixedPoint hp hr hbody' hlocal (hfixed.mono hfew) hk

/-- The six passes. -/
def allPasses : List Pass := .retargetDoubleBranch :: Pass.standard

/-- The caller of the loop, visited with all passes. -/
def visitedCaller : Except Fault Unit × Session Unit :=
  (ofPasses inlineLoop allPasses).optimize 60 (some ⟨0⟩)
    { program := callerOfLoop, client := () }

/-- The loop has been taken in, and a second visit without the inliner finds
nothing to do. -/
theorem reaches_fixedPoint_callerOfLoop :
    callerOfLoop.WellLinked ∧ callerOfLoop.Unshared ∧ callerOfLoop.NoDangling ∧
    visitedCaller.1 = .ok () ∧ visitedCaller.2.stats.inlined = 1 ∧
    ∃ u, (ofPasses inlineLoop (allPasses.erase .inlineFunctionCall)).optimize 5
    (some ⟨0⟩) { program := visitedCaller.2.program, client := () } =
    (.ok (), u) ∧ u.program = visitedCaller.2.program ∧ u.stats.fired = [] ∧
    u.stats.inlined = 0 := by
  have hp : callerOfLoop.WellLinked := by decide
  have hshare : callerOfLoop.Unshared := by decide
  have hclosed : callerOfLoop.NoDangling := by decide
  -- the visit is evaluated once for all that is read off from its end
  obtain ⟨hok, hinlined, hlength⟩ : visitedCaller.1 = .ok () ∧
      visitedCaller.2.stats.inlined = 1 ∧
      (visitedCaller.2.program.code ⟨0⟩).length + 1 < 5 := by decide +kernel
  have hrun : visitedCaller = (.ok (), visitedCaller.2) :=
    (Prod.eta visitedCaller).symm.trans (by rw [hok])
  generalize visitedCaller.2 = t at hrun hinlined hlength ⊢
  obtain ⟨-, -, hagain⟩ :=
    reaches_fixedPoint (b := ⟨0⟩) ⟨hp, hshare⟩ hclosed rfl rfl hrun
  exact ⟨hp, hshare, hclosed, hok, hinlined,
    hagain (allPasses.erase .inlineFunctionCall) List.erase_subset (by decide)
    inlineLoop { program := t.program, client := () } rfl rfl 5 hlength⟩

end Optimizer

end Bytecode
