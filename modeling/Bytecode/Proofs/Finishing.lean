import Bytecode.Proofs.Finished
import Bytecode.Proofs.Ranking

/-!
# How methods are finished

In a scan that changes nothing, each call that the cursor has passed has been
offered to the inliner and has been declined for good: its callee is the method
itself or in progress, is refused by the policy, has no body or calls itself.
The visit ends after such a scan, so that it leaves no other calls behind.

The law is stated for an optimiser that inlines without a budget, in a program
whose bodies end stopped.  The main statement is `finishing_obeyed`.
-/

namespace Bytecode

variable {σ : Type}

namespace Session

variable {s t : Session σ} {d m : MethodId} {k : InstrId} {cfg : InlineSettings}

/-- Until the visit of another method ends, calls of `d` are declined there. -/
def Past (cfg : InlineSettings) (s : Session σ) (d : MethodId) : Prop :=
  s.progressOf d = .inProgress ∨ s.memo.Refuses cfg.policy d ∨
    (s.program.method d).body = none ∨ s.progressOf d = .done ∧
    ∃ b, (s.program.method d).body = some b ∧ d ∈ Inline.callees cfg s.program b

/-- What is past is not open. -/
theorem Past.not_open (h : s.Past cfg d) : ¬ s.Open cfg d := by
  rintro ⟨hdone, hfree⟩
  rcases h with hbusy | hno | hnone | ⟨-, hself⟩
  · rw [hbusy] at hdone
    cases hdone
  · exact hfree (Or.inl hno)
  · exact hfree (Or.inr (Or.inl hnone))
  · exact hfree (Or.inr (Or.inr hself))

/-- A session that comes from another by calls: no refusal has been taken
back. -/
structure Later (cfg : InlineSettings) (s t : Session σ) :
    Prop extends Extends s t where
  refuses : ∀ d, s.memo.Refuses cfg.policy d → t.memo.Refuses cfg.policy d

theorem Later.refl (s : Session σ) : s.Later cfg s := ⟨.refl s, fun _ h => h⟩

/-- One session later than the other. -/
theorem Later.trans {u : Session σ} (h : s.Later cfg t) (h' : t.Later cfg u) :
    s.Later cfg u :=
  ⟨h.toExtends.trans h'.toExtends, fun d hd => h'.refuses d (h.refuses d hd)⟩

/-- What is past stays past. -/
theorem Past.later (h : s.Past cfg d) (hs : s.Sound) (ht : t.program.WellLinked)
    (hst : s.Later cfg t) : t.Past cfg d := by
  rcases h with hbusy | hno | hnone | ⟨hdone, b, hbody, hself⟩
  · left
    rw [hst.progress d (by rw [hbusy]; simp), hbusy]
  · exact Or.inr (Or.inl (hst.refuses d hno))
  · exact Or.inr (Or.inr (Or.inl (by rw [hst.method]; exact hnone)))
  · have hvisited : s.progressOf d ≠ .notVisited := by
      rw [hdone]
      simp
    have hagree : Program.AgreeOn b s.program t.program := by
      apply hst.agree
      intro m hm hnew
      rw [hs.unshared d m b hbody hm] at hnew
      exact absurd hnew hvisited
    refine Or.inr
      (Or.inr (Or.inr ⟨by rw [hst.progress d hvisited, hdone], b, ?_, ?_⟩))
    · rw [hst.method]
      exact hbody
    · rw [Inline.callees_agree hagree hs.linked ht]
      exact hself

/-- If `k` is a call in the body of `m`, it is declined in the visit of `m`. -/
def Shut (cfg : InlineSettings) (s : Session σ) (m : MethodId) (k : InstrId) :
    Prop :=
  ∀ d, Inline.calleeOf cfg (s.program.instr k).bare = some d → d = m ∨
    s.Past cfg d

end Session

namespace Visit

variable {v : Visit σ} {s t : Session σ} {m : MethodId} {i : InstrId} {n : Nat}
  {cfg : InlineSettings} {methods : List MethodId}

/-- The first `n` instructions are no calls, or calls that are declined. -/
def Behind (cfg : InlineSettings) (v : Visit σ) (n : Nat) : Prop :=
  ∀ k ∈ v.editing.code.take n, v.session.Shut cfg v.editor.method k

/-- The visit of `m`, begun in an orderly session, is going on. -/
structure Runs (cfg : InlineSettings) (methods : List MethodId) (s : Session σ)
    (m : MethodId) (v : Visit σ) : Prop extends Within s m v where
  orderly : v.session.Orderly cfg methods
  refuses : ∀ d, s.memo.Refuses cfg.policy d →
    v.session.memo.Refuses cfg.policy d

theorem session_untouched {e : Editing} (he : v.editing.Untouched e) :
    (v.setEditing e).session = v.session := by
  change { v.session with program := e.program } = v.session
  rw [he.program]
  rfl

/-- A run that moves on. -/
theorem Runs.advanced (h : v.Runs cfg methods s m) :
    v.advanced.Runs cfg methods s m :=
  ⟨h.toWithin.advanced, h.orderly, h.refuses⟩

/-- A run that begins again. -/
theorem Runs.restarted (h : v.Runs cfg methods s m) :
    v.restarted.Runs cfg methods s m :=
  ⟨h.toWithin.restarted, h.orderly, h.refuses⟩

/-- A run goes on as long as nothing is edited. -/
theorem Runs.untouched {e : Editing} (h : v.Runs cfg methods s m)
    (he : v.editing.Untouched e) : (v.setEditing e).Runs cfg methods s m := by
  refine ⟨h.toWithin.untouched he, ?_, ?_⟩
  · rw [session_untouched he]
    exact h.orderly
  · rw [session_untouched he]
    exact h.refuses

/-- A run goes on after a nested visit. -/
theorem Runs.nested (h : v.Runs cfg methods s m) (ht : t.Orderly cfg methods)
    (hvt : v.session.Later cfg t) :
    Runs cfg methods s m { v with session := t } :=
  ⟨h.toWithin.nested ht.linked ht.unshared hvt.toExtends, ht,
    fun d hd => hvt.refuses d (h.refuses d hd)⟩

/-- The body has been changed and ends stopped as before. -/
theorem Runs.evolved {e : Editing} (h : v.Runs cfg methods s m)
    (he : v.editing.Evolves e) (hstops : e.program.Stops v.editor.body)
    (stats : Stats) (name : String) :
    (Visit.taken ⟨{ v.session with program := e.program, stats }, e.editor⟩
      name).rewound.Runs cfg methods s m where
  toWithin := h.toWithin.evolved he stats name
  orderly := h.orderly.rework ⟨h.busy, h.body, he.changed, he.sound.linked, rfl⟩
    rfl hstops
  refuses := h.refuses

/-- What is behind stays behind as long as nothing is edited. -/
theorem Behind.untouched {e : Editing} (h : v.Behind cfg n)
    (he : v.editing.Untouched e) : (v.setEditing e).Behind cfg n := by
  intro k hk
  have hk' : k ∈ v.editing.code.take n := by
    rw [← he.code]
    exact hk
  have hmethod : (v.setEditing e).editor.method = v.editor.method :=
    he.edited.method
  rw [session_untouched he, hmethod]
  exact h k hk'

/-- A nested visit opens no call. -/
theorem Runs.shut_nested (h : v.Runs cfg methods s m)
    (ht : t.Orderly cfg methods) (hvt : v.session.Later cfg t) {k : InstrId}
    (hk : k ∈ v.editing.code) (hshut : v.session.Shut cfg m k) :
    t.Shut cfg m k := by
  have hp : v.session.program.WellLinked := h.sound.linked
  have hinstr : t.program.instr k = v.session.program.instr k :=
    (h.agree hvt.toExtends).instr k (by rw [← hp.code]; exact hk)
  intro d hd
  rw [hinstr] at hd
  exact (hshut d hd).imp_right fun hpast => hpast.later h.session ht.linked hvt

/-- A nested visit leaves behind what is. -/
theorem Runs.behind_nested (h : v.Runs cfg methods s m)
    (ht : t.Orderly cfg methods) (hvt : v.session.Later cfg t)
    (hbehind : v.Behind cfg n) : Behind cfg { v with session := t } n := by
  intro k hk
  have hcode :
      Editing.code (editing { v with session := t }) = v.editing.code :=
    h.code_nested ht.linked hvt.toExtends
  rw [hcode] at hk
  have hshut := hbehind k hk
  rw [h.method] at hshut
  change t.Shut cfg v.editor.method k
  rw [h.method]
  exact h.shut_nested ht hvt (List.mem_of_mem_take hk) hshut

/-- With the cursor, the target is left behind. -/
theorem Behind.pass (h : v.Behind cfg (v.passed - 1))
    (hpos : v.editor.pos = some i) (hi : i ∈ v.editing.code)
    (hshut : v.session.Shut cfg v.editor.method i) : v.Behind cfg v.passed := by
  intro k hk
  rcases mem_passed hpos hi hk with hk | rfl
  · exact h k hk
  · exact hshut

/-- At the end of the body everything has been passed. -/
theorem Steady.passed_end (h : v.Steady) (hmore : v.more = false) :
    v.passed = v.editing.code.length := by
  have hp : v.session.program.WellLinked := h.sound.linked
  have hnext : v.advanced.editor.target = none := by
    have hsome : v.advanced.editor.target.isSome = false := hmore
    rwa [Option.isSome_eq_false_iff, Option.isNone_iff_eq_none] at hsome
  rw [h.target_advanced_eq] at hnext
  rw [passed]
  cases hpos : v.editor.pos with
  | none =>
      rw [hpos] at hnext
      rw [List.head?_eq_none_iff.mp hnext]
      rfl
  | some k =>
      rw [hpos] at hnext
      have hk : k ∈ v.editing.code := h.inside.pos k hpos
      obtain ⟨pre, post, hcut, hpre, -⟩ := exists_cut (hp.nodup_code _) hk
      have hcut' : v.editing.code = pre ++ k :: post := hcut
      simp only [hcut', elemAfter?_cut hpre, List.head?_eq_none_iff] at hnext
      subst hnext
      simp [hcut', List.idxOf_append_of_notMem hpre]

end Visit

/-! ### The law -/

/-- Methods are finished in good order. -/
def finishing (cfg : InlineSettings) (methods : List MethodId) : Law σ where
  ready s := s.Orderly cfg methods
  returns s t := t.Orderly cfg methods ∧ s.Later cfg t
  broken _ := True
  during s m
    | .scanning changed, v =>
        v.Runs cfg methods s m ∧ (changed = false → v.Behind cfg v.passed)
    | .offering changed rest, v =>
        v.Runs cfg methods s m ∧ ∃ (i : InstrId) (passes : List Pass),
        v.Offers i ∧ v.editor.pos = some i ∧ rest = passes.map (Pass.rule cfg) ∧
        (changed = false → v.Behind cfg (v.passed - 1) ∧
          (.inlineFunctionCall ∈ passes ∨ v.session.Shut cfg m i))

section Finishing

variable {cfg : InlineSettings} {methods : List MethodId} {s t : Session σ}
  {m c : MethodId} {v : Visit σ} {i : InstrId} {passes : List Pass}
  {changed : Bool} {o : Optimizer σ} {n : Nat}

/-- A session is later when a policy has been asked. -/
theorem later_asked (h : s.Orderly cfg methods) (hc : c ∈ methods) :
    s.Later cfg (Inline.consulted cfg c s) :=
  ⟨Session.extends_of_eq rfl rfl, fun _ hd => Memo.Refuses.ask _ h.firm hc hd⟩

/-- What the callee's visit returns to. -/
theorem finishing_call (hcalls : (finishing cfg methods).Calls (o.optimize n))
    (h : v.Runs cfg methods s m) (hc : c ∈ methods) (ht : o.optimize n
      (some c) (Inline.consulted cfg c v.session) = (.ok (), t)) :
    t.Orderly cfg methods ∧ v.session.Later cfg t := by
  have hmeets := hcalls c _ (h.orderly.asked hc)
  rw [ht] at hmeets
  exact ⟨hmeets.1, (later_asked h.orderly hc).trans hmeets.2⟩

/-- A call whose callee has been found is declined if that callee is. -/
theorem shut_of_callee (hcallee : Inline.callee? cfg v.editing i = some c)
    (hinstr : (t.program.instr i).bare = (v.session.program.instr i).bare)
    (hpast : t.Past cfg c) : t.Shut cfg m i := by
  intro d hd
  have hc := Inline.calleeOf_of_callee? hcallee
  rw [hinstr] at hd
  have hdc : some d = some c := hd.symm.trans hc
  cases hdc
  exact Or.inr hpast

/-- An instruction without a callee is no call, or leads back to the caller. -/
theorem shut_of_none (h : v.editor.method = m)
    (hcallee : Inline.callee? cfg v.editing i = none) :
    v.session.Shut cfg m i := by
  intro d hd
  rw [Inline.calleeOf_bare] at hd
  split at hd
  · next hcall =>
      left
      by_contra hdm
      rw [Inline.callee?] at hcallee
      have hcall' : (v.editing.program.instr i).kind = .call := hcall
      have hd' : cfg.resolve (v.editing.program.instr i).operand.method? =
          some d := hd
      have hdm' : d ≠ v.editing.editor.method := by
        rintro rfl
        exact hdm h
      rw [if_pos hcall', hd', Option.filter_some, if_pos (by simpa using hdm')]
        at hcallee
      cases hcallee
  · cases hd

/-- The next rule has its turn, and nothing has changed in the body. -/
theorem during_quiet (hv : v.Runs cfg methods s m) (hi : v.Offers i)
    (hpos : v.editor.pos = some i)
    (hbehind : changed = false → v.Behind cfg (v.passed - 1) ∧
      (.inlineFunctionCall ∈ passes ∨ v.session.Shut cfg m i)) (name : String) :
    (finishing cfg methods).Applies s m changed name
    (passes.map (Pass.rule cfg)) (.ok (), v) :=
  Law.applies_quiet hv.clean ⟨hv, i, passes, hi, hpos, rfl, hbehind⟩

/-- A change ends the offer. -/
theorem during_fired {e : Editing} (stats : Stats) (hv : v.Runs cfg methods s m)
    (he : v.editing.Evolves e) (hdirty : e.editor.dirty = true)
    (hstops : e.program.Stops v.editor.body) (name : String) :
    (finishing cfg methods).Applies s m changed name
    (passes.map (Pass.rule cfg))
    (.ok (), ⟨{ v.session with program := e.program, stats }, e.editor⟩) :=
  Law.applies_fired hdirty ⟨hv.evolved he hstops stats name,
    fun h => by cases h⟩

/-- Local passes finish methods in good order. -/
theorem finishing_local (hv : v.Runs cfg methods s m) (hi : v.Offers i)
    (hpos : v.editor.pos = some i) {pass : Pass}
    (hpass : pass ≠ .inlineFunctionCall)
    (hbehind : changed = false → v.Behind cfg (v.passed - 1) ∧
      (.inlineFunctionCall ∈ pass :: passes ∨ v.session.Shut cfg m i))
    {r : Except Fault Unit × Visit σ}
    (hr : PassStep cfg (o.optimize n) v i pass r) (name : String) :
    (finishing cfg methods).Applies s m changed name
    (passes.map (Pass.rule cfg)) r := by
  cases hr with
  | @quiet _ e he =>
      have hpos' : (v.setEditing e).editor.pos = some i := by
        change e.editor.pos = some i
        rw [he.editor]
        exact hpos
      have hpassed : (v.setEditing e).passed = v.passed := by
        have hcode : (v.setEditing e).editing.code = v.editing.code := he.code
        rw [Visit.passed, Visit.passed, hpos, hpos', hcode]
      refine during_quiet (hv.untouched he) (hi.untouched he) hpos'
        (fun hc => ?_) name
      obtain ⟨hpre, htarget⟩ := hbehind hc
      rw [hpassed, Visit.session_untouched he]
      refine ⟨hpre.untouched he, htarget.imp_left fun hmem => ?_⟩
      exact (List.mem_cons.mp hmem).resolve_left (Ne.symm hpass)
  | @fires _ e he heffect =>
      have hstops :=
        heffect.stops hv.sound hi.2 (hv.orderly.stops m _ (by exact hv.body))
      exact during_fired v.session.stats hv he.toEvolves he.dirty hstops name
  | inlines => exact absurd rfl hpass

/-- A session is later when something has been counted. -/
theorem Session.Later.counted (h : s.Later cfg t) (stats : Stats) :
    s.Later cfg { t with stats } :=
  h.trans ⟨Session.extends_of_eq rfl rfl, fun _ hd => hd⟩

/-- A call falls through, so in a body that ends stopped something stands behind
it. -/
theorem next_of_callee (hv : v.Runs cfg methods s m) (hi : v.Offers i)
    (hcallee : Inline.callee? cfg v.editing i = some c) :
    v.editing.nextInstruction ≠ none := by
  intro hnone
  have hstops := hv.orderly.stops m _ (by exact hv.body)
  rw [hv.toWithin.nextInstruction hi] at hnone
  have hfalls : (v.session.program.instr i).fallsThrough = true := by
    rw [Inline.callee?] at hcallee
    split at hcallee
    · next hcall =>
        have hkind : (v.session.program.instr i).kind = .call := hcall
        rw [Instr.fallsThrough, hkind]
        rfl
    · cases hcallee
  have hnext := hstops.next hv.sound.linked hi.2 hfalls
  change (v.session.program.next i).isSome = true at hnext
  rw [hnone] at hnext
  cases hnext

/-- A callee that stays out although it has been visited is past. -/
theorem past_of_spared (hspared : Inline.Spared cfg c t)
    (hvisited : t.progressOf c ≠ .notVisited) : t.Past cfg c := by
  rcases hspared with hbusy | hnone | ⟨b, hbody, hself⟩
  · exact Or.inl hbusy
  · exact Or.inr (Or.inr (Or.inl hnone))
  · rw [Inline.callsItself_iff] at hself
    cases hstage : t.progressOf c with
    | notVisited => exact absurd hstage hvisited
    | inProgress => exact Or.inl hstage
    | done => exact Or.inr (Or.inr (Or.inr ⟨hstage, b, hbody, hself⟩))

/-- The inliner finishes methods in good order. -/
theorem finishing_inline (hbudget : cfg.budget ≤ 0)
    (hmethods : ∀ ref c, cfg.resolve ref = some c → c ∈ methods)
    (hcalls : (finishing cfg methods).Calls (o.optimize n))
    (hv : v.Runs cfg methods s m) (hi : v.Offers i)
    (hpos : v.editor.pos = some i)
    (hbehind : changed = false → v.Behind cfg (v.passed - 1))
    {r : Except Fault Unit × Visit σ}
    (hr : Inline.Inlines cfg (o.optimize n) v i r) (name : String) :
    (finishing cfg methods).Applies s m changed name
    (passes.map (Pass.rule cfg)) r := by
  have hsame : ∀ {t : Session σ}, t.Orderly cfg methods →
      v.session.Later cfg t →
      (t.program.instr i).bare = (v.session.program.instr i).bare := by
    intro t ht hvt
    have hp : v.session.program.WellLinked := hv.sound.linked
    rw [(hv.agree hvt.toExtends).instr i (by rw [← hp.code]; exact hi.2)]
  -- The call has been declined for good, in a session that may be a later one.
  have hquiet : ∀ {t : Session σ} {c : MethodId}, t.Orderly cfg methods →
      v.session.Later cfg t → Inline.callee? cfg v.editing i = some c →
      t.Past cfg c → (finishing cfg methods).Applies s m changed name
      (passes.map (Pass.rule cfg)) (.ok (), { v with session := t }) := by
    intro t c ht hvt hcallee hpast
    have hpassed : Visit.passed { v with session := t } = v.passed := by
      have hcode : Editing.code (Visit.editing { v with session := t }) =
          v.editing.code :=
        hv.code_nested ht.linked hvt.toExtends
      rw [Visit.passed, Visit.passed, hcode]
    refine during_quiet
      (hv.nested ht hvt) (hv.toWithin.offers_nested ht.linked hvt.toExtends hi)
      hpos (fun hc => ?_) name
    rw [hpassed]
    exact ⟨hv.behind_nested ht hvt (hbehind hc),
      Or.inr (shut_of_callee hcallee (hsame ht hvt) hpast)⟩
  cases hr with
  | none hnone =>
      exact during_quiet hv hi hpos
        (fun hc => ⟨hbehind hc, Or.inr (shut_of_none hv.method hnone)⟩) name
  | @declined c stats hcallee hreason =>
      have hc := Law.callee_mem hmethods hcallee
      refine hquiet ((hv.orderly.asked hc).counted stats)
        ((later_asked hv.orderly hc).counted stats) hcallee ?_
      rcases hreason with hno | hnone | hover
      · exact Or.inr (Or.inl (Memo.refuses_of_ask _ hv.orderly.firm hc hno))
      · exact absurd hnone (next_of_callee hv hi hcallee)
      · simp [Inline.withinBudget, hbudget] at hover
  | @stopped c e t hcallee hopt =>
      have hmeets :=
        hcalls c _ (hv.orderly.asked (Law.callee_mem hmethods hcallee))
      rw [hopt] at hmeets
      exact hmeets
  | @spared c t hcallee hopt hspared =>
      obtain ⟨ht, hvt⟩ :=
        finishing_call hcalls hv (Law.callee_mem hmethods hcallee) hopt
      refine hquiet ht hvt hcallee (past_of_spared hspared ?_)
      rcases Optimizer.optimize_ok hopt with ⟨hvisited, rfl⟩ | ⟨-, hdone⟩
      · exact hvisited
      · rw [hdone]
        simp
  | @takenIn c t anchor b hcallee _ hnext _ hopt _ hbody =>
      obtain ⟨ht, hvt⟩ :=
        finishing_call hcalls hv (Law.callee_mem hmethods hcallee) hopt
      obtain ⟨hv₁, hi₁, hnext₁, -⟩ :=
        hv.toWithin.taking hi hcallee hnext ht.toSound hvt.toExtends hbody
      obtain ⟨v₁, heq, hsession⟩ :=
        Inline.takeIn_replaces hv₁.sound hi₁.1 hi₁.2 hnext₁
      rcases heq with ⟨hstop, -⟩ | ⟨hok, hreplaces⟩
      · rw [hstop]
        exact ⟨Or.inl rfl, trivial⟩
      · rw [hok]
        have hv₁' : v₁ =
            ⟨{ t with program := v₁.editing.program,
                      stats := v₁.session.stats }, v₁.editing.editor⟩ := by
          obtain ⟨session, editor⟩ := v₁
          simp only at hsession
          rw [hsession]
          rfl
        have hstops := hreplaces.stops hv₁.sound hi₁.2 hnext₁
          (ht.stops m _ (by exact hv₁.body))
        rw [hv₁']
        exact during_fired v₁.session.stats
          (hv.nested ht hvt) hreplaces.evolves hreplaces.1 hstops name

/-- **Methods are finished in good order.** -/
theorem finishing_obeyed (hbudget : cfg.budget ≤ 0)
    (hmethods : ∀ ref c, cfg.resolve ref = some c → c ∈ methods)
    (hinline : .inlineFunctionCall ∈ passes) : (finishing cfg methods).Obeyed
    (Optimizer.ofPasses cfg passes : Optimizer σ) where
  unwatched := fun _ _ => rfl
  idle := fun {s} hs => ⟨hs, .refl s⟩
  skip := by
    intro s m hs hm hbody
    have hstart := hs.start hm
    have hbusy : (s.setProgress m .inProgress).progressOf m = .inProgress := by
      rw [Session.progressOf_setProgress, if_pos rfl]
    refine ⟨hstart.finish (by rw [hbusy]; simp) ?_, ?_, fun _ hd => hd⟩
    · intro b hb d hd
      obtain ⟨i, hi, -⟩ := Inline.mem_callees.mp hd
      have hsize := hbody b hb
      rw [hs.linked.size, List.length_eq_zero_iff] at hsize
      have hi' : i ∈ s.program.code b := hi
      rw [hsize] at hi'
      cases hi'
    · have hmark := (Session.Extends.refl s).mark hm .inProgress (by simp)
      exact hmark.mark hm .done (by simp)
  start := by
    intro s m b hs hm hbody hsize
    refine ⟨⟨Visit.within_start hs.linked hs.unshared hm hbody hsize,
      hs.start hm, fun _ hd => hd⟩, fun _ k hk => ?_⟩
    rw [show Visit.passed _ = 0 from rfl] at hk
    cases hk
  advance := by
    rintro s m changed v ⟨hv, hbehind⟩ hmore
    obtain ⟨i, hi⟩ := hv.toSteady.offers hmore
    refine ⟨hv.advanced, i, passes, hi, hi.1, rfl,
      fun hc => ⟨?_, Or.inl hinline⟩⟩
    rw [hv.toSteady.passed_advanced hmore, Nat.add_sub_cancel]
    exact hbehind hc
  apply := by
    rintro s m changed r rest v fuel hcalls -
      ⟨hv, i, ps, hi, hpos, hrest, hbehind⟩
    cases ps with
    | nil => cases hrest
    | cons pass ps =>
        obtain ⟨rfl, rfl⟩ := List.cons.inj hrest
        by_cases hpass : pass = .inlineFunctionCall
        · subst hpass
          exact finishing_inline hbudget hmethods hcalls hv hi hpos
            (fun hc => (hbehind hc).1) (Inline.apply_inlines hi.1) _
        · exact finishing_local hv hi hpos hpass hbehind
            (Pass.rule_step cfg _ hv.sound hi.1 hi.2 pass) _
  decline := by
    rintro s m changed v ⟨hv, i, ps, hi, hpos, hrest, hbehind⟩
    refine ⟨hv, fun hc => ?_⟩
    obtain ⟨hpre, htarget⟩ := hbehind hc
    have hps : ps = [] := by
      cases ps with
      | nil => rfl
      | cons => cases hrest
    subst hps
    refine hpre.pass hpos hi.2 ?_
    rw [hv.method]
    exact htarget.resolve_left (by simp)
  restart := by
    rintro s m v ⟨hv, -⟩ -
    refine ⟨hv.advanced.restarted, fun _ k hk => ?_⟩
    rw [show Visit.passed _ = 0 from rfl] at hk
    cases hk
  finish := by
    rintro s m v ⟨hv, hbehind⟩ hmore
    have hbusy := hv.busy
    have hfinish : (v.session.setProgress m .done).Orderly cfg methods := by
      apply hv.orderly.finish (by rw [hbusy]; simp)
      intro b hb d hd
      obtain ⟨k, hk, hcall, hresolve⟩ := Inline.mem_callees.mp hd
      rw [hv.body] at hb
      cases hb
      have hshut := hbehind rfl k (by
        rw [hv.toSteady.passed_end hmore, List.take_length]
        exact hk)
      rw [hv.method] at hshut
      exact (hshut d (by rw [Inline.calleeOf_bare, if_pos hcall,
        hresolve])).imp_right Session.Past.not_open
    refine ⟨hfinish.counted _, ?_, hv.refuses⟩
    exact (hv.extend.mark hv.fresh .done (by simp)).trans
      (Session.extends_of_eq rfl rfl)
  cut := fun _ => trivial
  refuse := fun _ => trivial

end Finishing

end Bytecode
