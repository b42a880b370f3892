import Bytecode.Proofs.AnyOrder
import Bytecode.Proofs.Accounting
import Bytecode.Proofs.Growth
import Bytecode.Proofs.Leaving

/-!
# The counts of a run account for every instruction

The counts of a run are global, and changes are made in visits that are nested
in each other. To compare the counts, the passes are made to enter each change
in a log, with the instruction that was on offer and the number of instructions
that were copied.  Keeping the log changes nothing in a run.

`Session.Balances` says that the bodies have grown by what the log says and that
each change has been counted.  A change is made in the body of the method that
is being visited, so the size of the listed methods grows with it only if this
method is one of them.  Nothing in a session says what methods will be visited;
therefore the law of visits, `itemised`, promises balance after a call on two
conditions, that there was balance before it and that the method which is
finished last is listed.  The callee of a call is listed, as it has been found
in the table of the listed methods.  The main statement is
`instructions_accounted`.
-/

namespace Bytecode

variable {σ : Type} {cfg : InlineSettings} {passes : List Pass}
  {ms : List MethodId} {start : Program} {m c : MethodId} {b : BodyId}
  {i anchor : InstrId} {pass : Pass}

/-! ### The log -/

/-- How many instructions of the callee of the call on offer are copied when it
is inlined; the callee is taken as it is afterwards, when it has been
visited. -/
def Inline.copies (cfg : InlineSettings) (v : Visit σ) (after : Program) :
    Nat :=
  let callee := v.editor.target.bind fun i => callee? cfg v.editing i
  (callee.bind fun c => (after.method c).body).elim 0 fun b =>
    (copiedBody after b).length

/-- The entry for a change that the pass has made. -/
def Pass.firing (cfg : InlineSettings) (pass : Pass) (v v' : Visit σ) :
    Firing where
  pass
  op := v.editor.target.elim .nop fun i => (v.session.program.instr i).op
  copied :=
    if pass = .inlineFunctionCall then Inline.copies cfg v v'.session.program
    else 0

/-- The log after the pass has been applied. -/
def Pass.log (cfg : InlineSettings) (pass : Pass) (v v' : Visit (List Firing)) :
    List Firing :=
  if v'.editor.dirty then pass.firing cfg v v' :: v'.session.client
  else v'.session.client

/-- The pass, made to enter its changes in a log. -/
def Pass.itemising (cfg : InlineSettings) (pass : Pass) :
    Rule (List Firing) where
  name := pass.name
  apply optimize v :=
    let (result, v') := (pass.rule cfg).apply optimize v
    (result, v'.withClient (pass.log cfg v v'))

/-- The optimiser whose passes keep a log. -/
def Optimizer.itemising (cfg : InlineSettings) (passes : List Pass) :
    Optimizer (List Firing) :=
  { rules := passes.map (Pass.itemising cfg) }

/-- No two passes have one name. -/
theorem Pass.name_injective : Function.Injective Pass.name := by
  intro x y h
  revert h
  cases x <;> cases y <;> decide

/-! ### Balance -/

namespace Session

variable {s t : Session (List Firing)} {x : Firing}

/-- The bodies have grown by what the log says, each entry has been counted, and
so have the methods with code whose visits have come to their end. -/
structure Balances (start : Program) (ms : List MethodId)
    (s : Session (List Firing)) : Prop where
  listed : ∀ m, s.progressOf m ≠ .notVisited → m ∈ ms
  size : (s.program.instrCount ms : ℤ) =
    start.instrCount ms + (s.client.map Firing.growth).sum
  fired : ∀ pass : Pass, s.stats.changesBy pass = s.client.countP fun x =>
    x.pass = pass
  idle : ∀ m, s.progressOf m = .notVisited →
    s.program.codeSize m = start.codeSize m
  methods : s.stats.methods = ms.countP fun m => s.progressOf m = .done ∧
    start.codeSize m ≠ 0
  before : s.stats.before = start.instrCount ms
  after : s.stats.after = 0

/-- Calls inlined and refused do not matter. -/
theorem Balances.level (h : s.Balances start ms)
    (hprogram : t.program = s.program) (hprogress : t.progress = s.progress)
    (hstats : t.stats = { s.stats with
      inlined := t.stats.inlined, refused := t.stats.refused })
    (hclient : t.client = s.client) : t.Balances start ms := by
  have hstage : ∀ k, t.progressOf k = s.progressOf k := fun k => by
    rw [progressOf, progressOf, hprogress]
  refine ⟨fun k hk => h.listed k (by rwa [← hstage]), ?_, fun pass => ?_,
    fun k hk => ?_, ?_, ?_, ?_⟩
  · rw [hprogram, hclient]
    exact h.size
  · rw [hstats, hclient]
    exact h.fired pass
  · rw [hprogram]
    exact h.idle k (by rwa [← hstage])
  · rw [hstats]
    simp only [hstage]
    exact h.methods
  · rw [hstats]
    exact h.before
  · rw [hstats]
    exact h.after

/-- Marking a listed method keeps every marked one listed. -/
theorem Balances.listed_mark (h : s.Balances start ms) (hm : m ∈ ms)
    (y : Progress) (k : MethodId)
    (hk : (s.setProgress m y).progressOf k ≠ .notVisited) : k ∈ ms := by
  rw [progressOf_setProgress] at hk
  split at hk
  · next hkm => rwa [hkm]
  · exact h.listed k hk

/-- Marking a method as visited leaves the others at their size. -/
theorem Balances.idle_mark (h : s.Balances start ms) {y : Progress}
    (hy : y ≠ .notVisited) (k : MethodId)
    (hk : (s.setProgress m y).progressOf k = .notVisited) :
    s.program.codeSize k = start.codeSize k := by
  rw [progressOf_setProgress] at hk
  split at hk
  · exact absurd hk hy
  · exact h.idle k hk

/-- A visit is begun. -/
theorem Balances.opened (h : s.Balances start ms) (hm : m ∈ ms)
    (hfresh : s.progressOf m = .notVisited) :
    (s.setProgress m .inProgress).Balances start ms where
  listed := h.listed_mark hm _
  size := h.size
  fired := h.fired
  idle := h.idle_mark (by simp)
  methods := by
    refine h.methods.trans (List.countP_congr fun k _ => ?_)
    rw [progressOf_setProgress]
    split
    · next hkm => simp [hkm, hfresh]
    · rfl
  before := h.before
  after := h.after

/-- A method without code is done without a visit. -/
theorem Balances.skipped (h : s.Balances start ms) (hm : m ∈ ms)
    (hfresh : s.progressOf m = .notVisited) (hsize : s.program.codeSize m = 0) :
    ((s.setProgress m .inProgress).setProgress m .done).Balances start ms where
  listed := (h.opened hm hfresh).listed_mark hm _
  size := h.size
  fired := h.fired
  idle := (h.opened hm hfresh).idle_mark (by simp)
  methods := by
    refine h.methods.trans (List.countP_congr fun k _ => ?_)
    rw [progressOf_setProgress, progressOf_setProgress]
    split
    · next hkm => simp [hkm, hfresh, ← h.idle m hfresh, hsize]
    · rfl
  before := h.before
  after := h.after

/-- A visit comes to its end. -/
theorem Balances.finished (h : s.Balances start ms) (hnd : ms.Nodup)
    (hm : m ∈ ms) (hbusy : s.progressOf m = .inProgress)
    (hcode : start.codeSize m ≠ 0) :
    (Optimizer.left m s).Balances start ms where
  listed := h.listed_mark hm .done
  size := h.size
  fired := h.fired
  idle := h.idle_mark (by simp)
  methods := by
    have hperm := List.perm_cons_erase hm
    have hstage : ∀ k, (Optimizer.left m s).progressOf k =
        if k = m then .done else s.progressOf k :=
      fun k => progressOf_setProgress _
    have hothers : (ms.erase m).countP (fun k =>
          (Optimizer.left m s).progressOf k = .done ∧ start.codeSize k ≠ 0) =
        (ms.erase m).countP fun k => s.progressOf k = .done ∧
          start.codeSize k ≠ 0 := by
      refine List.countP_congr fun k hk => ?_
      rw [hstage, if_neg]
      rintro rfl
      exact hnd.not_mem_erase hk
    have hcount := h.methods
    rw [hperm.countP_eq, List.countP_cons_of_neg (by simp [hbusy])] at hcount
    rw [hperm.countP_eq, List.countP_cons_of_pos (by simp [hstage, hcode]),
      hothers, ← hcount]
    rfl
  before := h.before
  after := h.after

/-- The method that is being visited has been changed, and the change has been
counted and entered. -/
theorem Balances.changed (h : s.Balances start ms) (hnd : ms.Nodup)
    (hm : m ∈ ms) (hbusy : s.progressOf m = .inProgress)
    (hp : s.program.WellLinked) (hq : t.program.WellLinked)
    (hshare : s.program.Unshared) (hb : (s.program.method m).body = some b)
    (hchanged : Program.ChangedIn b s.program t.program) (hlength :
      ((t.program.code b).length : ℤ) = (s.program.code b).length + x.growth)
    (hprogress : t.progress = s.progress) (hstats : t.stats = { s.stats with
      inlined := t.stats.inlined
      refused := t.stats.refused
      fired := s.stats.fired.bump x.pass.name })
    (hclient : t.client = x :: s.client) : t.Balances start ms := by
  have hstage : ∀ k, t.progressOf k = s.progressOf k := fun k => by
    rw [progressOf, progressOf, hprogress]
  refine ⟨fun k hk => h.listed k (by rwa [← hstage]), ?_, fun pass => ?_,
    fun k hk => ?_, ?_, ?_, ?_⟩
  · have hcount := hchanged.instrCount hp hq hshare hb hnd hm
    have hsize := h.size
    rw [hclient, List.map_cons, List.sum_cons]
    omega
  · rw [Stats.changesBy, hstats, Tally.count_bump, hclient, List.countP_cons]
    refine congrArg₂ (· + ·) (h.fired pass) (if_congr ?_ rfl rfl)
    rw [decide_eq_true_eq, Pass.name_injective.eq_iff]
    exact eq_comm
  · rw [hstage] at hk
    rw [hchanged.codeSize hp hq hshare hb]
    · exact h.idle k hk
    · rintro rfl
      rw [hbusy] at hk
      cases hk
  · rw [hstats]
    simp only [hstage]
    exact h.methods
  · rw [hstats]
    exact h.before
  · rw [hstats]
    exact h.after

/-- What a call may do: no visit that it has begun is going on, and there is
balance after it if there was before and the method that it has finished last is
listed. -/
structure KeepsBalance (start : Program) (ms : List MethodId)
    (s t : Session (List Firing)) : Prop where
  busy : ∀ c, t.progressOf c = .inProgress → s.progressOf c = .inProgress
  balances : s.Balances start ms →
    ∀ root ∈ ms, t.progress.head? = some (root, .done) → t.Balances start ms

end Session

/-! ### In the middle of a visit -/

namespace Visit

variable {s t : Session (List Firing)} {v v' : Visit (List Firing)} {x : Firing}

/-- The visit of `m`, begun in session `s`, keeps the balance if `m` is
listed. -/
structure Itemised (start : Program) (ms : List MethodId)
    (s : Session (List Firing)) (m : MethodId) (v : Visit (List Firing)) :
    Prop where
  coded : s.program.codeSize m ≠ 0
  busyOnly : ∀ c, v.session.progressOf c = .inProgress → c = m ∨
    s.progressOf c = .inProgress
  balances : s.Balances start ms → m ∈ ms → v.session.Balances start ms

/-- At the start of a visit everything is accounted for. -/
theorem itemised_start (hs : s.program.WellLinked)
    (hm : s.progressOf m = .notVisited)
    (hbody : (s.program.method m).body = some b)
    (hsize : s.program.size b ≠ 0) : Itemised start ms s m
    ⟨s.setProgress m .inProgress, { method := m, body := b }⟩ where
  coded := by
    rw [Program.codeSize_of_body hs hbody, ← hs.size]
    exact hsize
  busyOnly := by
    intro c hc
    rw [Session.progressOf_setProgress] at hc
    split at hc
    · next hcm => exact Or.inl hcm
    · exact Or.inr hc
  balances := fun h hmem => h.opened hmem hm

/-- An event that edits nothing keeps the account. -/
theorem Itemised.level (h : v.Itemised start ms s m)
    (hprogram : v'.session.program = v.session.program)
    (hprogress : v'.session.progress = v.session.progress)
    (hstats : v'.session.stats = { v.session.stats with
      inlined := v'.session.stats.inlined
      refused := v'.session.stats.refused })
    (hclient : v'.session.client = v.session.client) :
      v'.Itemised start ms s m where
  coded := h.coded
  busyOnly := by
    intro c hc
    rw [Session.progressOf, hprogress] at hc
    exact h.busyOnly c hc
  balances :=
    fun hs hm => (h.balances hs hm).level hprogram hprogress hstats hclient

/-- A change of the body is entered in the log and counted. -/
theorem Itemised.changed (h : v.Itemised start ms s m) (hnd : ms.Nodup)
    (hv : v.Within s m) (hq : v'.session.program.WellLinked) (hchanged :
      Program.ChangedIn v.editor.body v.session.program v'.session.program)
    (hlength : ((v'.session.program.code v.editor.body).length : ℤ) =
      v.editing.code.length + x.growth) (hprogress : v'.session.progress =
        v.session.progress) (hstats : v'.session.stats = { v.session.stats with
      inlined := v'.session.stats.inlined
      refused := v'.session.stats.refused
      fired := v.session.stats.fired.bump x.pass.name })
    (hclient : v'.session.client = x :: v.session.client) :
      v'.Itemised start ms s m where
  coded := h.coded
  busyOnly := by
    intro c hc
    rw [Session.progressOf, hprogress] at hc
    exact h.busyOnly c hc
  balances := fun hs hm =>
    (h.balances hs hm).changed hnd hm hv.busy hv.sound.linked hq hv.unshared
    hv.body hchanged hlength hprogress hstats hclient

/-- Another visit has begun and come to its end. -/
theorem Itemised.nested (h : v.Itemised start ms s m) (hbusy : ∀ c,
      t.progressOf c = .inProgress → v.session.progressOf c = .inProgress)
    (hbalances : v.session.Balances start ms → t.Balances start ms) :
    Itemised start ms s m { v with session := t } where
  coded := h.coded
  busyOnly := fun c hc => h.busyOnly c (hbusy c hc)
  balances := fun hs hm => hbalances (h.balances hs hm)

/-- At the end of a visit its method balances. -/
theorem Itemised.finished (h : v.Itemised start ms s m) (hnd : ms.Nodup)
    (hv : v.Within s m) :
    s.KeepsBalance start ms (Optimizer.left m v.advanced.session) where
  busy := by
    intro c hc
    have hmark : (v.session.setProgress m .done).progressOf c = .inProgress :=
      hc
    rw [Session.progressOf_setProgress] at hmark
    split at hmark
    · cases hmark
    · next hcm => exact (h.busyOnly c hmark).resolve_left hcm
  balances := by
    intro hs root hroot hhead
    obtain rfl : m = root := congrArg Prod.fst (Option.some.inj hhead)
    refine ((h.balances hs hroot).finished hnd hroot hv.busy ?_).level rfl
      rfl rfl rfl
    rw [← hs.idle m hv.fresh]
    exact h.coded

end Visit

/-! ### The law -/

namespace Optimizer

/-- The law of visits, with the balance. -/
def itemised (start : Program) (ms : List MethodId) : Law (List Firing) where
  ready := frame.ready
  returns s t := frame.returns s t ∧ s.KeepsBalance start ms t
  broken := frame.broken
  during s m p v := frame.during s m p v ∧ v.Itemised start ms s m

section Step

variable {s t : Session (List Firing)} {v v' : Visit (List Firing)} {fuel : Nat}

/-- A call of a listed method keeps the balance. -/
theorem balances_call {o : Optimizer (List Firing)}
    (hcalls : (itemised start ms).Calls (o.optimize fuel)) (hs : s.Sound)
    (hm : m ∈ ms) (hopt : o.optimize fuel (some m) s = (.ok (), t))
    (hbal : s.Balances start ms) : t.Balances start ms := by
  rcases optimize_ok hopt with ⟨-, rfl⟩ | ⟨hfresh, -⟩
  · exact hbal
  · have hmeets := hcalls m s hs
    rw [hopt] at hmeets
    exact hmeets.2.balances hbal m hm (head?_of_optimize hopt hfresh)

/-- The callee's visit keeps the balance. -/
theorem itemised_call (hresolve : ∀ ref c, cfg.resolve ref = some c → c ∈ ms)
    (hcalls : (itemised start ms).Calls
      ((Optimizer.itemising cfg passes).optimize fuel)) (h : v.Within s m)
    (hv : v.Itemised start ms s m)
    (hcallee : Inline.callee? cfg v.editing i = some c)
    (hopt : (Optimizer.itemising cfg passes).optimize fuel (some c)
      (Inline.consulted cfg c v.session) = (.ok (), t)) :
    t.Sound ∧ v.session.Extends t ∧
    Visit.Itemised start ms s m { v with session := t } := by
  have hsound := consulted_sound cfg h.session c
  have hmeets := hcalls c _ hsound
  rw [hopt] at hmeets
  obtain ⟨⟨ht, hext⟩, hkeeps⟩ := hmeets
  have hasked : v.session.Extends (Inline.consulted cfg c v.session) :=
    Session.extends_of_eq rfl rfl
  refine ⟨ht, hasked.trans hext, hv.nested hkeeps.busy fun hbal => ?_⟩
  exact balances_call hcalls hsound (Law.callee_mem hresolve hcallee) hopt
    (hbal.level rfl rfl rfl rfl)

/-- The log has been kept when the pass has been applied and the driver has
counted what it has done. -/
def Logged (start : Program) (ms : List MethodId) (s : Session (List Firing))
    (m : MethodId) (cfg : InlineSettings) (pass : Pass)
    (v : Visit (List Firing)) (r : Except Fault Unit × Visit (List Firing)) :
    Prop :=
  Meets (fun _ v' =>
    (if v'.editor.dirty then v'.taken pass.name else v').Itemised start ms s m)
    (fun _ => True) (r.1, r.2.withClient (pass.log cfg v r.2))

/-- A pass that has changed nothing needs no entry. -/
theorem logged_quiet (hclean : v'.editor.dirty = false)
    (h : v'.Itemised start ms s m) (pass : Pass) (v : Visit (List Firing)) :
    Logged start ms s m cfg pass v (.ok (), v') := by
  have hlog : v'.withClient (pass.log cfg v v') = v' := by
    rw [Pass.log, if_neg (by simp [hclean])]
    rfl
  rw [Logged, hlog, Meets, if_neg (by simp [hclean])]
  exact h

/-- A pass that has changed something is entered in the log. -/
theorem logged_fired (hdirty : v'.editor.dirty = true)
    (h : Visit.Itemised start ms s m ((v'.withClient
      (pass.firing cfg v v' :: v'.session.client)).taken pass.name)) :
    Logged start ms s m cfg pass v (.ok (), v') := by
  have hlog :
      pass.log cfg v v' = pass.firing cfg v v' :: v'.session.client := by
    rw [Pass.log, if_pos hdirty]
  have hdirty' : (v'.withClient (pass.firing cfg v v' ::
      v'.session.client)).editor.dirty = true :=
    hdirty
  rw [Logged, hlog, Meets, if_pos hdirty']
  exact h

/-- A local pass copies nothing. -/
theorem firing_alone (hpass : pass ≠ .inlineFunctionCall) (hi : v.Offers i) :
    pass.firing cfg v v' = ⟨pass, (v.session.program.instr i).op, 0⟩ := by
  rw [Pass.firing, if_neg hpass, hi.1]
  rfl

/-- The inliner has copied the callee's body as it is after the callee's
visit. -/
theorem growth_inlined (hi : v.Offers i)
    (hcallee : Inline.callee? cfg v.editing i = some c)
    (hbody : (v'.session.program.method c).body = some b) :
    (Pass.firing cfg .inlineFunctionCall v v').growth =
    (Inline.copiedBody v'.session.program b).length := by
  have hcopies : Inline.copies cfg v v'.session.program =
      (Inline.copiedBody v'.session.program b).length := by
    rw [Inline.copies, hi.1]
    simp [hcallee, hbody]
  simp [Firing.growth, Firing.IsJump, Firing.IsComparison, Pass.firing, hcopies]

/-- The callee has been visited, and is taken in. -/
theorem logged_takeIn (hnd : ms.Nodup) {u : Visit (List Firing)}
    (h : v.Within s m) (hi : v.Offers i) (hv : v.Itemised start ms s m)
    (hnext : v.session.program.next i = some anchor) (hb : b ≠ v.editor.body)
    (hu : u.Offers i) (hcallee : Inline.callee? cfg u.editing i = some c)
    (hbody : (v.session.program.method c).body = some b) :
    Logged start ms s m cfg .inlineFunctionCall u
    (Inline.takeIn i b anchor v) := by
  obtain ⟨v', heq, hsession⟩ :=
    Inline.takeIn_replaces (b := b) h.sound hi.1 hi.2 hnext
  rcases heq with ⟨hstop, -⟩ | ⟨hok, hrep⟩
  · rw [hstop]
    exact ⟨Or.inl rfl, trivial⟩
  · rw [hok]
    have hstats := Inline.stats_takeIn hok
    have hchanged :
        Program.ChangedIn v.editor.body v.session.program v'.session.program :=
      hrep.evolves.changed
    have hagree : Program.AgreeOn b v.session.program v'.session.program :=
      hchanged.agreeOn h.sound.linked hb
    have hcopied : Inline.copiedBody v'.session.program b =
        Inline.copiedBody v.session.program b :=
      Inline.copiedBody_congr
        (hagree.code_eq h.sound.linked hrep.evolves.sound.linked)
        fun k hk => congrArg Instr.kind (hagree.instr_eq h.sound.linked hk)
    have hbody' : (v'.session.program.method c).body = some b := by
      rw [hchanged.method c]
      exact hbody
    have hlength := hrep.length_code h.sound hi.2 hnext hb
    refine logged_fired hrep.1
      (hv.changed (x := Pass.firing cfg .inlineFunctionCall u v')
        hnd h hrep.evolves.sound.linked hchanged ?_ ?_ ?_ ?_)
    · rw [growth_inlined hu hcallee hbody', hcopied]
      rw [Editing.code, hrep.evolves.body] at hlength
      exact_mod_cast hlength
    · change v'.session.progress = v.session.progress
      rw [hsession]
    · simp only [Visit.taken, Visit.withClient, Session.count, hstats]
      rfl
    · change _ :: v'.session.client = _ :: v.session.client
      rw [hsession]

/-- The inliner may have other methods visited before it changes anything. -/
theorem logged_inline (hnd : ms.Nodup)
    (hresolve : ∀ ref c, cfg.resolve ref = some c → c ∈ ms)
    (hcalls : (itemised start ms).Calls
      ((Optimizer.itemising cfg passes).optimize fuel)) (h : v.Within s m)
    (hi : v.Offers i) (hv : v.Itemised start ms s m) :
    Logged start ms s m cfg .inlineFunctionCall v
    (Inline.apply cfg ((Optimizer.itemising cfg passes).optimize fuel) v) := by
  have hr :
      Inline.Inlines cfg ((Optimizer.itemising cfg passes).optimize fuel) v i
      (Inline.apply cfg ((Optimizer.itemising cfg passes).optimize fuel) v) :=
    Inline.apply_inlines hi.1
  have hclean : ∀ t : Session (List Firing),
      (Visit.mk t v.editor).editor.dirty = false :=
    fun _ => h.clean
  generalize hx : Inline.apply cfg
    ((Optimizer.itemising cfg passes).optimize fuel) v = r at hr
  cases hr with
  | none => exact logged_quiet h.clean hv _ _
  | declined stats hcallee hreason =>
      obtain ⟨refused, heq⟩ := Inline.apply_declined hi.1 hcallee hreason
      rw [← hx, heq]
      refine logged_quiet (hclean _) ?_ _ _
      exact hv.level rfl rfl rfl rfl
  | @stopped c _ _ _ hopt =>
      have hmeets := hcalls c _ (consulted_sound cfg h.session c)
      rw [hopt] at hmeets
      exact hmeets
  | @spared c t hcallee hopt =>
      obtain ⟨-, -, hvt⟩ := itemised_call hresolve hcalls h hv hcallee hopt
      exact logged_quiet (hclean t) hvt _ _
  | @takenIn c t anchor b hcallee _ hnext _ hopt _ hbody =>
      obtain ⟨ht, hext, hvt⟩ := itemised_call hresolve hcalls h hv hcallee hopt
      obtain ⟨hwithin, hoffers, hnext', hb⟩ :=
        h.taking hi hcallee hnext ht hext hbody
      exact logged_takeIn hnd hwithin hoffers hvt hnext' hb hi hcallee hbody

/-- **One application** keeps the balance. -/
theorem logged_apply (hnd : ms.Nodup)
    (hresolve : ∀ ref c, cfg.resolve ref = some c → c ∈ ms)
    (hcalls : (itemised start ms).Calls
      ((Optimizer.itemising cfg passes).optimize fuel)) (h : v.Within s m)
    (hi : v.Offers i) (hv : v.Itemised start ms s m) (pass : Pass) :
    Logged start ms s m cfg pass v ((pass.rule cfg).apply
      ((Optimizer.itemising cfg passes).optimize fuel) v) := by
  by_cases hpass : pass = .inlineFunctionCall
  · subst hpass
    exact logged_inline hnd hresolve hcalls h hi hv
  · have hstep := Pass.rule_step cfg
      ((Optimizer.itemising cfg passes).optimize fuel) h.sound hi.1 hi.2 pass
    generalize (pass.rule cfg).apply
      ((Optimizer.itemising cfg passes).optimize fuel) v = r at hstep
    cases hstep with
    | @quiet _ e he =>
        exact logged_quiet (h.untouched he).clean
          (hv.level he.program rfl rfl rfl) _ _
    | @fires _ e he heffect =>
        have hlength := heffect.length_code h.sound hi.2
        refine logged_fired he.dirty (hv.changed (x := pass.firing cfg v
          (v.setEditing e)) hnd h he.sound.linked he.changed ?_ rfl rfl rfl)
        rw [firing_alone hpass hi]
        exact hlength
    | inlines => exact absurd rfl hpass

end Step

/-- The optimiser that keeps a log still applies its passes. -/
theorem appliesPasses_itemising (cfg : InlineSettings) (passes : List Pass) :
    (itemising cfg passes).AppliesPasses cfg where
  unwatched := fun _ _ => rfl
  rules := by
    intro r hr
    obtain ⟨pass, -, rfl⟩ := List.mem_map.mp hr
    exact ⟨pass, fun _ _ => ⟨_, rfl⟩⟩

/-- The steps obey the law. -/
theorem itemised_obeyed (hnd : ms.Nodup)
    (hresolve : ∀ ref c, cfg.resolve ref = some c → c ∈ ms) (start : Program)
    (passes : List Pass) :
    (itemised start ms).Obeyed (itemising cfg passes) := by
  have hframe := frame_obeyed (appliesPasses_itemising cfg passes)
  refine
    { unwatched := hframe.unwatched, idle := fun hs =>
        ⟨hframe.idle hs, fun _ hc => hc, fun hbal _ _ _ => hbal⟩, skip := ?_,
      start := fun hs hm hbody hsize => ⟨hframe.start hs hm hbody hsize,
        Visit.itemised_start hs.linked hm hbody hsize⟩, advance :=
        fun hv hmore => ⟨hframe.advance hv.1 hmore, hv.2.level rfl rfl rfl rfl⟩,
      apply := ?_, decline := fun hv => ⟨hframe.decline hv.1, hv.2⟩,
      restart := fun hv hmore =>
        ⟨hframe.restart hv.1 hmore, hv.2.level rfl rfl rfl rfl⟩, finish :=
        fun hv hmore => ⟨hframe.finish hv.1 hmore, hv.2.finished hnd hv.1⟩,
      cut := fun hv => hframe.cut hv.1, refuse := fun hs => hframe.refuse hs }
  · intro s m hs hm hbody
    refine ⟨hframe.skip hs hm hbody, fun c hc => ?_,
      fun hbal root hroot hhead => ?_⟩
    · rw [Session.progressOf_setProgress, Session.progressOf_setProgress] at hc
      split at hc
      · cases hc
      · exact hc
    · obtain rfl : m = root := congrArg Prod.fst (Option.some.inj hhead)
      refine hbal.skipped hroot hm ?_
      cases hb : (s.program.method m).body with
      | none => rw [Program.codeSize, hb]; rfl
      | some b =>
          rw [Program.codeSize_of_body hs.linked hb, ← hs.linked.size]
          exact hbody b hb
  · rintro s m changed r rest v fuel hcalls hr ⟨hpoint, hv⟩
    have happly := hframe.apply (hframe.calls fuel) hr hpoint
    obtain ⟨pass, -, rfl⟩ := List.mem_map.mp hr
    obtain ⟨h, i, hi⟩ := hpoint
    have hlogged := logged_apply hnd hresolve hcalls h hi hv pass
    refine (Meets.and happly hlogged).mono ?_ fun _ _ => trivial
    rintro - v' ⟨hframed, hitemised⟩
    split
    · next hdirty =>
        rw [if_pos hdirty] at hframed hitemised
        exact ⟨hframed, hitemised.level rfl rfl rfl rfl⟩
    · next hdirty =>
        rw [if_neg hdirty] at hframed hitemised
        exact ⟨hframed, hitemised⟩

/-! ### Runs -/

section Runs

variable {s t : Session (List Firing)} {rest : List MethodId} {p : Program}
  {fuel : Nat}

/-- Keeping a log changes nothing else about a rule. -/
theorem itemising_alike {τ : Type} (cfg : InlineSettings) (passes : List Pass) :
    List.Forall₂ Rule.Alike (ofPasses cfg passes : Optimizer τ).rules
    (itemising cfg passes).rules :=
  alike_ofPasses (fun _ => .of_notes rfl fun _ w => ⟨w, id, _, rfl⟩) passes

/-- After calls of listed methods one after the other, there is balance and all
of them are done. -/
theorem balances_forM (hnd : ms.Nodup)
    (hresolve : ∀ ref c, cfg.resolve ref = some c → c ∈ ms) (hs : s.Sound)
    (hidle : ∀ m, s.progressOf m ≠ .inProgress) (hbal : s.Balances start ms)
    (hrest : ∀ m ∈ rest, m ∈ ms)
    (hrun : (rest.forM fun m => (itemising cfg passes).optimize fuel
      (some m) : SessionM (List Firing) Unit) s = (.ok (), t)) :
    t.Balances start ms ∧ s.Extends t ∧ ∀ m ∈ rest, t.progressOf m = .done := by
  induction rest generalizing s with
  | nil =>
      obtain ⟨-, rfl⟩ := Prod.mk.inj hrun
      exact ⟨hbal, .refl s, fun m hm => by cases hm⟩
  | cons m rest ih =>
      have hcalls := (itemised_obeyed hnd hresolve start passes).calls fuel
      have hmeets := hcalls m s hs
      change ((itemising cfg passes).optimize fuel (some m) >>= fun _ =>
        rest.forM fun m => (itemising cfg passes).optimize fuel (some m) :
          SessionM (List Firing) Unit) s = (.ok (), t) at hrun
      rw [bind_apply] at hrun
      rcases hcall :
        (itemising cfg passes).optimize fuel (some m) s with ⟨e | ⟨⟩, s₁⟩
      · rw [hcall] at hrun
        cases hrun
      · rw [hcall] at hrun hmeets
        obtain ⟨⟨hs₁, hext⟩, hkeeps⟩ := hmeets
        have hbal₁ :=
          balances_call hcalls hs (hrest m List.mem_cons_self) hcall hbal
        obtain ⟨ht, hext', hdone⟩ :=
          ih hs₁ (fun c hc => hidle c (hkeeps.busy c hc)) hbal₁
          (fun c hc => hrest c (List.mem_cons_of_mem _ hc)) hrun
        refine ⟨ht, hext.trans hext', fun c hc => ?_⟩
        rcases List.mem_cons.mp hc with rfl | hc
        · have hdone₁ : s₁.progressOf c = .done := optimize_done hcall (hidle c)
          rw [hext'.progress c (by rw [hdone₁]; simp), hdone₁]
        · exact hdone c hc

/-- A run begins with an empty log, which is balanced. -/
theorem balances_begins (hs : s.Begins p) (hclient : s.client = [])
    (ms : List MethodId) : (s.count fun x => { x with
      before := x.before + s.program.instrCount ms }).Balances p ms where
  listed := fun m hm => absurd (hs.notVisited m) hm
  size := by
    change (s.program.instrCount ms : ℤ) =
      p.instrCount ms + (s.client.map Firing.growth).sum
    rw [hs.program, hclient]
    simp
  fired := by
    intro pass
    change s.stats.fired.count pass.name = s.client.countP fun x =>
      x.pass = pass
    rw [hs.stats, hclient]
    rfl
  idle := by
    intro m _
    change s.program.codeSize m = p.codeSize m
    rw [hs.program]
  methods := by
    change s.stats.methods = ms.countP fun m => s.progressOf m = .done ∧
      p.codeSize m ≠ 0
    rw [hs.stats, eq_comm, List.countP_eq_zero]
    intro m _
    simp [hs.notVisited m]
  before := by
    change s.stats.before + s.program.instrCount ms = p.instrCount ms
    rw [hs.stats, hs.program]
    exact Nat.zero_add _
  after := by
    change s.stats.after = 0
    rw [hs.stats]

/-- The counts and the log of a run that comes back. -/
theorem itemised_run (hp : p.WellLinked) (hshare : p.Unshared) (hnd : ms.Nodup)
    (hresolve : ∀ ref c, cfg.resolve ref = some c → c ∈ ms) (hs : s.Begins p)
    (hclient : s.client = [])
    (hrun : (itemising cfg passes).run fuel ms s = (.ok (), t)) :
    (∀ pass : Pass, t.stats.changesBy pass = t.client.countP fun x =>
      x.pass = pass) ∧ t.stats.methods = ms.countP (fun m => p.codeSize m ≠ 0) ∧
    t.stats.before = p.instrCount ms ∧ t.stats.after = t.program.instrCount ms ∧
    (t.stats.after : ℤ) =
    t.stats.before + (t.client.map Firing.growth).sum := by
  rw [run_apply] at hrun
  generalize hforM : (ms.forM fun m => (itemising cfg passes).optimize fuel
    (some m) : SessionM (List Firing) Unit) _ = x at hrun
  obtain ⟨e | ⟨⟩, t₁⟩ := x
  · cases hrun
  · obtain ⟨-, rfl⟩ := Prod.mk.inj hrun
    have hsound : Session.Sound (s.count
        fun x => { x with before := x.before + s.program.instrCount ms }) := by
      rw [← hs.program] at hp hshare
      exact ⟨hp, hshare⟩
    have hidle : ∀ m, s.progressOf m ≠ .inProgress := by
      intro m hm
      rw [hs.notVisited m] at hm
      cases hm
    obtain ⟨hbal, -, hdone⟩ := balances_forM hnd hresolve hsound hidle
      (balances_begins hs hclient ms) (fun _ hm => hm) hforM
    have hafter : t₁.stats.after + t₁.program.instrCount ms =
        t₁.program.instrCount ms := by
      rw [hbal.after, Nat.zero_add]
    refine ⟨hbal.fired, ?_, hbal.before, hafter, ?_⟩
    · refine hbal.methods.trans (List.countP_congr fun m hm => ?_)
      simp [hdone m hm]
    · change ((t₁.stats.after + t₁.program.instrCount ms : ℕ) : ℤ) =
        t₁.stats.before + (t₁.client.map Firing.growth).sum
      rw [hafter, hbal.before]
      exact hbal.size

/-- **The counts of a run account for every instruction.**  A run over the
methods of the list, with any passes, any policy and any budget, begins afresh
on a program whose methods share no bodies, calls lead to methods of the list
(`Resolution.mem_of_resolve`), and the run comes back without a fault.  Then the
methods counted are those whose bodies were not empty at first, and as many
instructions are left as there were, less one for each nop and each dead
instruction removed and for each branch to the very next instruction, and more
by one for each comparison with two operands that has given way to pops and by
all that was copied of callees.  The log that tells the instructions on offer is
the one of a run that does the same. -/
theorem instructions_accounted {σ : Type} {u u' : Session σ} (hp : p.WellLinked)
    (hshare : p.Unshared) (hnd : ms.Nodup)
    (hresolve : ∀ ref c, cfg.resolve ref = some c → c ∈ ms) (hu : u.Begins p)
    (hrun : (ofPasses cfg passes).run fuel ms u = (.ok (), u')) :
    ∃ t : Session (List Firing), (itemising cfg passes).run fuel ms { u with
      client := [] } = (.ok (), t) ∧ u'.Alike t ∧ (∀ pass : Pass,
        u'.stats.changesBy pass = t.client.countP fun x => x.pass = pass) ∧
      u'.stats.methods = ms.countP (fun m => p.codeSize m ≠ 0) ∧
      u'.stats.before = p.instrCount ms ∧
      u'.stats.after = u'.program.instrCount ms ∧
      (u'.stats.after : ℤ) = u'.stats.before - u'.stats.changesBy .removeNop -
      u'.stats.changesBy .removeDeadCode - t.client.countP Firing.IsJump +
      t.client.countP Firing.IsComparison + (t.client.map (·.copied)).sum := by
  have hparallel := alike_run (itemising_alike cfg passes) fuel ms (s := u)
    (t := { u with client := [] }) ⟨rfl, rfl, rfl, rfl⟩
  rw [hrun] at hparallel
  rcases hlog :
    (itemising cfg passes).run fuel ms { u with client := [] } with ⟨r, t⟩
  rw [hlog] at hparallel
  obtain ⟨hok, halike⟩ := hparallel
  obtain rfl : r = .ok () := hok
  have hbegins :
      Session.Begins p ({ u with client := [] } : Session (List Firing)) :=
    ⟨hu.program, hu.progress, hu.memo, hu.stats⟩
  obtain ⟨hfired, hmethods, hbefore, hafter, hsize⟩ :=
    itemised_run hp hshare hnd hresolve hbegins rfl hlog
  have hstats : t.stats = u'.stats := halike.stats
  rw [halike.program] at hafter
  rw [hstats] at hfired hmethods hbefore hafter hsize
  refine ⟨t, rfl, halike, hfired, hmethods, hbefore, hafter, ?_⟩
  rw [Firing.sum_growth, ← hfired, ← hfired] at hsize
  omega

end Runs

/-- A method that calls another one and then branches to the very next
instruction, with a comparison and without; behind its return there is dead
code.  A third method has no body. -/
def errands : Program where
  instrs := #[⟨.call, .method ⟨"", "leaf", [], "void"⟩, some ⟨0⟩⟩,
    ⟨⟨0x21⟩, .absent, some ⟨0⟩⟩, ⟨⟨0x21⟩, .absent, some ⟨0⟩⟩,
    ⟨⟨0x56⟩, .target ⟨4⟩, some ⟨0⟩⟩, ⟨.br, .target ⟨5⟩, some ⟨0⟩⟩,
    ⟨⟨0x21⟩, .absent, some ⟨0⟩⟩, ⟨⟨0x70⟩, .absent, some ⟨0⟩⟩,
    ⟨.pop, .absent, some ⟨0⟩⟩, ⟨⟨0x21⟩, .absent, some ⟨1⟩⟩,
    ⟨.nop, .absent, some ⟨1⟩⟩, ⟨.pop, .absent, some ⟨1⟩⟩,
    ⟨⟨0x70⟩, .absent, some ⟨1⟩⟩]
  bodies := #[{ code := [⟨0⟩, ⟨1⟩, ⟨2⟩, ⟨3⟩, ⟨4⟩, ⟨5⟩, ⟨6⟩, ⟨7⟩] },
    { code := [⟨8⟩, ⟨9⟩, ⟨10⟩, ⟨11⟩] }]
  methods := #[{ name := "main", body := some ⟨0⟩ },
    { name := "leaf", body := some ⟨1⟩ }, { name := "none" }]

/-- Both methods with code are counted.  Two nops go, one of them in the callee
before it is taken in and one where the call was, and so do the dead instruction
and a branch; the comparison gives way to two pops, and two instructions are
copied. -/
theorem instructions_accounted_errands :
    let cfg := among errands .always 0 [⟨0⟩, ⟨1⟩, ⟨2⟩]
    let s : Session Unit := { program := errands, client := () }
    let logged := (itemising cfg Pass.standard).run 60 [⟨0⟩, ⟨1⟩, ⟨2⟩] { s with
      client := [] }
    errands.WellLinked ∧ errands.Unshared ∧
    ∃ s', (ofPasses cfg Pass.standard).run 60 [⟨0⟩, ⟨1⟩, ⟨2⟩] s = (.ok (), s') ∧
      s'.stats.methods = 2 ∧ s'.stats.before = 12 ∧
        s'.stats.changesBy .removeNop = 2 ∧
      s'.stats.changesBy .removeDeadCode = 1 ∧
        logged.2.client.countP Firing.IsJump = 1 ∧
      logged.2.client.countP Firing.IsComparison = 1 ∧
        (logged.2.client.map (·.copied)).sum = 2 ∧
      (s'.stats.after : ℤ) = 12 - 2 - 1 - 1 + 1 + 2 := by
  intro cfg s logged
  have hp : errands.WellLinked := by decide
  have hshare : errands.Unshared := by decide
  have hresolve : ∀ ref c, cfg.resolve ref = some c →
      c ∈ ([⟨0⟩, ⟨1⟩, ⟨2⟩] : List MethodId) :=
    fun _ _ hc => Resolution.mem_of_resolve hc
  have hok : ((ofPasses cfg Pass.standard).run 60 [⟨0⟩, ⟨1⟩, ⟨2⟩] s).1 =
      .ok () := by
    decide +kernel
  rcases hrun :
    (ofPasses cfg Pass.standard).run 60 [⟨0⟩, ⟨1⟩, ⟨2⟩] s with ⟨r, s'⟩
  obtain rfl : r = .ok () := by
    rw [hrun] at hok
    exact hok
  obtain ⟨t, ht, -, hfired, hmethods, hbefore, -, hafter⟩ :=
    instructions_accounted hp hshare (by decide) hresolve
      ⟨rfl, rfl, rfl, rfl⟩ hrun
  have hlogged : logged.2 = t := by rw [show logged = (.ok (), t) from ht]
  have hlog : logged.2.client =
      [⟨.removeDeadCode, .pop, 0⟩, ⟨.removeDegenerateBranch, .br, 0⟩,
        ⟨.removeDegenerateBranch, ⟨0x56⟩, 0⟩, ⟨.removeNop, .nop, 0⟩,
        ⟨.inlineFunctionCall, .call, 2⟩, ⟨.removeNop, .nop, 0⟩] := by
    decide +kernel
  have hnops : s'.stats.changesBy .removeNop = 2 := by
    rw [hfired, ← hlogged, hlog]
    decide
  have hdead : s'.stats.changesBy .removeDeadCode = 1 := by
    rw [hfired, ← hlogged, hlog]
    decide
  have hjumps : logged.2.client.countP Firing.IsJump = 1 := by
    rw [hlog]
    decide
  have hpops : logged.2.client.countP Firing.IsComparison = 1 := by
    rw [hlog]
    decide
  have hcopied : (logged.2.client.map (·.copied)).sum = 2 := by
    rw [hlog]
    decide
  have hcoded : s'.stats.methods = 2 := hmethods.trans (by decide +kernel)
  have hsize : s'.stats.before = 12 := hbefore.trans (by decide +kernel)
  rw [hsize, hnops, hdead, ← hlogged, hjumps, hpops, hcopied] at hafter
  exact ⟨hp, hshare, s', rfl, hcoded, hsize, hnops, hdead, hjumps, hpops,
    hcopied, hafter⟩

end Optimizer

end Bytecode
