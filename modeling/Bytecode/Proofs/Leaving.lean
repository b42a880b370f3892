import Bytecode.Proofs.Finishing
import Bytecode.Proofs.Resting
import Bytecode.Proofs.Tracing

/-!
# What a run leaves behind

When the visit of a method has come to its end, all passes are idle in its body,
and each call that is left there is left for a reason that lasts: the policy
does not accept the callee, there is nothing behind the call, the callee has no
body or calls itself.  There is one more reason, and it does not last: the
callee is in progress.  Then its visit has led to the method with the call, so
that the two are on a circle of calls.

This is stated for the standard passes without a budget, and for policies that
look at the declarations of methods only.  The main statement is
`resting_obeyed`.
-/

namespace Bytecode

variable {σ : Type}

namespace Inline

variable {cfg : InlineSettings} {p q : Program} {c d m : MethodId} {b : BodyId}
  {i : InstrId}

/-- Nothing can be taken in of `d`: it has no body or calls itself. -/
def Unfit (cfg : InlineSettings) (p : Program) (d : MethodId) : Prop :=
  (p.method d).body = none ∨ ∃ b, (p.method d).body = some b ∧
    d ∈ callees cfg p b

instance : Decidable (Unfit cfg p d) :=
  inferInstanceAs (Decidable ((p.method d).body = none ∨
    ∃ b ∈ (p.method d).body, d ∈ callees cfg p b))

/-- A call without a callee leads back to its method. -/
theorem eq_of_callee?_none {s : Editing} (h : callee? cfg s i = none)
    (hd : calleeOf cfg (s.program.instr i).bare = some d) :
    d = s.editor.method := by
  rw [calleeOf_bare] at hd
  split at hd
  · next hcall =>
      by_contra hdm
      rw [callee?, if_pos hcall, hd, Option.filter_some,
        if_pos (by simpa using hdm)] at h
      cases h
  · cases hd

end Inline

open Inline (Leads Reaches Unfit)

namespace Session

variable {s t : Session σ} {c d m : MethodId} {b : BodyId} {i : InstrId}
  {pass : Pass} {cfg : InlineSettings} {p : Program}

/-- If `i` is a call in the body of `c` that could be taken in, its callee has
been visited, and it stays out, is in progress, or leads back to `c`. -/
def Leaves (cfg : InlineSettings) (p : Program) (s : Session σ) (c : MethodId)
    (i : InstrId) : Prop :=
  ∀ d, Inline.calleeOf cfg (s.program.instr i).bare = some d → d ≠ c →
    cfg.policy 0 p (some d) = true → (s.program.next i).isSome →
    s.progressOf d = .inProgress ∨
      s.progressOf d = .done ∧ (Unfit cfg s.program d ∨ Reaches cfg p d c)

/-- The pass has nothing left to do at `i`, in the body `b` of `c`. -/
def Spent (cfg : InlineSettings) (p : Program) (s : Session σ) (c : MethodId)
    (b : BodyId) (i : InstrId) (pass : Pass) : Prop :=
  s.program.Idle b i pass ∧ (pass = .inlineFunctionCall → s.Leaves cfg p c i)

/-- What holds between visits. -/
structure Rested (cfg : InlineSettings) (p : Program) (s : Session σ) : Prop
    extends s.Traced cfg p where
  named : s.program.Named
  spent : ∀ c b, s.progressOf c = .done → (s.program.method c).body = some b →
    ∀ i ∈ s.program.code b, ∀ pass ∈ Pass.standard, s.Spent cfg p c b i pass

/-- From `s` to `t`, methods that have been visited stay where they are, and so
do the bodies of those that are done. -/
structure Onward (s t : Session σ) : Prop where
  methods : t.program.methods = s.program.methods
  progress : ∀ m, s.progressOf m ≠ .notVisited → t.progressOf m = s.progressOf m
  agree : ∀ c b, s.progressOf c = .done → (s.program.method c).body = some b →
    Program.AgreeOn b s.program t.program
  precedes : s.program.Precedes t.program

/-- Methods stay as they are. -/
theorem Onward.method (h : s.Onward t) (m : MethodId) :
    t.program.method m = s.program.method m := by
  simp only [Program.method, h.methods]

/-- An extension of a sound session goes on from it. -/
theorem Extends.onward (h : s.Extends t) (hs : s.Sound)
    (hst : s.program.Precedes t.program) : s.Onward t where
  methods := h.methods
  progress := h.progress
  agree := by
    intro c b hc hbody
    apply h.agree
    intro m hm hnew
    rw [hs.unshared c m b hbody hm, hc] at hnew
    cases hnew
  precedes := hst

/-- Work on one body goes on from what was there. -/
theorem Reworked.onward (h : Reworked m b s t) (hs : s.Sound) : s.Onward t where
  methods := h.changed.methods
  progress := fun d _ => h.progressOf d
  agree := by
    intro c k hc hbody
    have hkb : k ≠ b := by
      rintro rfl
      rw [hs.unshared m c k h.body hbody, h.busy] at hc
      cases hc
    exact h.changed.agreeOn hs.linked hkb
  precedes := h.changed.precedes

/-- A method that is done stays unfit. -/
theorem unfit_onward (h : s.Onward t) (hs : s.program.WellLinked)
    (ht : t.program.WellLinked) (hd : s.progressOf d = .done)
    (hunfit : Unfit cfg s.program d) : Unfit cfg t.program d := by
  rcases hunfit with hnone | ⟨b, hbody, hself⟩
  · exact Or.inl (by rw [h.method]; exact hnone)
  · refine Or.inr ⟨b, by rw [h.method]; exact hbody, ?_⟩
    rw [Inline.callees_agree (h.agree d b hd hbody) hs ht]
    exact hself

/-- What has been left in a body that does not change is left. -/
theorem Leaves.onward (hleaves : s.Leaves cfg p c i) (h : s.Onward t)
    (hs : s.program.WellLinked) (ht : t.program.WellLinked)
    (hagree : Program.AgreeOn b s.program t.program)
    (hi : i ∈ s.program.code b) : t.Leaves cfg p c i := by
  intro d hd hdc hyes hnext
  rw [hagree.instr_eq hs hi] at hd
  rw [hagree.next_eq hs ht hi] at hnext
  rcases hleaves d hd hdc hyes hnext with hbusy | ⟨hdone, hwhy⟩
  · left
    rw [h.progress d (by rw [hbusy]; simp), hbusy]
  · right
    refine ⟨by rw [h.progress d (by rw [hdone]; simp), hdone], ?_⟩
    exact hwhy.imp_left (unfit_onward h hs ht hdone)

/-- Retargeting is no standard pass. -/
theorem standard_ne (hpass : pass ∈ Pass.standard) :
    pass ≠ .retargetDoubleBranch := by
  rintro rfl
  revert hpass
  decide

/-- A pass that is spent on an instruction stays so. -/
theorem Spent.onward (hspent : s.Spent cfg p c b i pass) (h : s.Onward t)
    (hs : s.program.WellLinked) (ht : t.program.WellLinked)
    (hnamed : s.program.Named) (hagree : Program.AgreeOn b s.program t.program)
    (hi : i ∈ s.program.code b) (hpass : pass ∈ Pass.standard) :
    t.Spent cfg p c b i pass :=
  ⟨hspent.1.agree hs ht hagree (standard_ne hpass) h.precedes hnamed hi,
    fun hinline => (hspent.2 hinline).onward h hs ht hagree hi⟩

/-! ### What changes between visits -/

/-- A policy that is asked leaves a session rested. -/
theorem Rested.asked (h : s.Rested cfg p) (hfixed : cfg.policy.Fixed)
    (c : MethodId) : (Inline.consulted cfg c s).Rested cfg p where
  toTraced := h.toTraced.asked hfixed c
  named := h.named
  spent := h.spent

/-- Counting leaves a session rested. -/
theorem Rested.counted (h : s.Rested cfg p) (stats : Stats) :
    Rested cfg p { s with stats } :=
  ⟨h.toTraced.counted stats, h.named, h.spent⟩

/-- Beginning a visit leaves a session rested. -/
theorem Rested.start (h : s.Rested cfg p) (m : MethodId) :
    (s.setProgress m .inProgress).Rested cfg p where
  toTraced := h.toTraced.marked m _
  named := h.named
  spent := by
    intro c b hc hbody i hi pass hpass
    rw [progressOf_setProgress] at hc
    split at hc
    · cases hc
    · have hspent := h.spent c b hc hbody i hi pass hpass
      refine ⟨hspent.1, fun hinline d hd hdc hyes hnext => ?_⟩
      have hwhy := hspent.2 hinline d hd hdc hyes hnext
      rw [progressOf_setProgress]
      split
      · exact Or.inl rfl
      · exact hwhy

/-- The body of a method that is in progress has been changed. -/
theorem Rested.rework (h : s.Rested cfg p) (ht : Reworked m b s t)
    (hmemo : t.memo = s.memo) (hnamed : t.program.Named)
    (htraced : ∀ d ∈ Inline.callees cfg t.program b, cfg.policy 0 p
      (some d) = true → Reaches cfg p m d) : t.Rested cfg p where
  toTraced := h.toTraced.rework ht hmemo htraced
  named := hnamed
  spent := by
    intro c k hc hbody i hi pass hpass
    rw [ht.progressOf] at hc
    rw [ht.changed.method] at hbody
    have honward := ht.onward h.toSound
    have hagree := honward.agree c k hc hbody
    rw [hagree.code_eq h.linked ht.linked] at hi
    exact (h.spent c k hc hbody i hi pass hpass).onward honward h.linked
      ht.linked h.named hagree hi hpass

/-- A method is done that had not been visited in `s`.  Where a call of it has
been left since, it has led to that call. -/
theorem Rested.finish (h : t.Rested cfg p) (hs : s.Rested cfg p)
    (hst : s.Extends t) (hm : s.progressOf m = .notVisited)
    (hled : ∀ c, s.progressOf c = .notVisited → t.progressOf c ≠ .notVisited →
      c = m ∨ Reaches cfg p m c)
    (hspent : ∀ b, (t.program.method m).body = some b → ∀ i ∈ t.program.code b,
      ∀ pass ∈ Pass.standard, t.Spent cfg p m b i pass) :
    (t.setProgress m .done).Rested cfg p where
  toTraced := h.toTraced.marked m _
  named := h.named
  spent := by
    intro c b hc hbody i hi pass hpass
    rw [progressOf_setProgress] at hc
    by_cases hcm : c = m
    · subst hcm
      obtain ⟨hidle, hleaves⟩ := hspent b hbody i hi pass hpass
      refine ⟨hidle, fun hinline d hd hdc hyes hnext => ?_⟩
      rw [progressOf_setProgress, if_neg hdc]
      exact hleaves hinline d hd hdc hyes hnext
    · rw [if_neg hcm] at hc
      obtain ⟨hidle, hleaves⟩ := h.spent c b hc hbody i hi pass hpass
      refine ⟨hidle, fun hinline d hd hdc hyes hnext => ?_⟩
      rw [progressOf_setProgress]
      split
      · next hdm =>
          subst hdm
          refine Or.inr ⟨rfl, Or.inr ?_⟩
          have hnew : s.progressOf c = .notVisited := by
            by_contra hold
            have hdone : s.progressOf c = .done := by
              rw [← hst.progress c hold, hc]
            have hbody' : (s.program.method c).body = some b := by
              rw [← hst.method]
              exact hbody
            have hagree : Program.AgreeOn b s.program t.program := by
              apply hst.agree
              intro m' hm' hnew
              rw [hs.unshared c m' b hbody' hm', hdone] at hnew
              cases hnew
            have hi' : i ∈ s.program.code b := by
              rw [← hagree.code_eq hs.linked h.linked]
              exact hi
            have hd' :
                Inline.calleeOf cfg (s.program.instr i).bare = some d := by
              rw [← hagree.instr_eq hs.linked hi']
              exact hd
            have hnext' : (s.program.next i).isSome := by
              rw [← hagree.next_eq hs.linked h.linked hi']
              exact hnext
            -- then `d` would have been visited before
            rcases (hs.spent c b hdone hbody' i hi' pass hpass).2 hinline d hd'
              hdc hyes hnext' with
              hbusy | ⟨hdone, -⟩
            · rw [hm] at hbusy
              cases hbusy
            · rw [hm] at hdone
              cases hdone
          have hc' : t.progressOf c ≠ .notVisited := by
            rw [hc]
            simp
          exact (hled c hnew hc').resolve_left hcm
      · exact hleaves hinline d hd hdc hyes hnext

/-- What a call may do to the stages of methods: all methods that it has visited
are done, and the one that has been finished last has led to the others. -/
structure Spreads (cfg : InlineSettings) (p : Program) (s t : Session σ) :
    Prop where
  busy : ∀ c, t.progressOf c = .inProgress → s.progressOf c = .inProgress
  led : ∀ root, t.progress.head? = some (root, .done) →
    ∀ c, s.progressOf c = .notVisited → t.progressOf c ≠ .notVisited →
      c = root ∨ Reaches cfg p root c

/-- A method without code is at rest as soon as it has been visited. -/
theorem Rested.skipped (hs : s.Rested cfg p)
    (hm : s.progressOf m = .notVisited)
    (hbody : ∀ b, (s.program.method m).body = some b →
      s.program.size b = 0) :
    ((s.setProgress m .inProgress).setProgress m .done).Rested cfg p := by
  have hstart := (Extends.refl s).mark hm .inProgress (by simp)
  refine (hs.start m).finish hs hstart hm (fun c hnew hc => Or.inl ?_) ?_
  · by_contra hcm
    rw [progressOf_setProgress, if_neg hcm] at hc
    exact hc hnew
  · intro b hb i hi
    have hsize := hbody b hb
    rw [hs.linked.size, List.length_eq_zero_iff] at hsize
    have hi' : i ∈ s.program.code b := hi
    rw [hsize] at hi'
    cases hi'

/-- The visit of a method without code leads nowhere else. -/
theorem spreads_skipped (s : Session σ) (m : MethodId) :
    s.Spreads cfg p ((s.setProgress m .inProgress).setProgress m .done) where
  busy := by
    intro c hc
    rw [progressOf_setProgress] at hc
    split at hc
    · cases hc
    · next hcm => rwa [progressOf_setProgress, if_neg hcm] at hc
  led := by
    intro root hroot c hnew hc
    obtain rfl : m = root := congrArg Prod.fst (Option.some.inj hroot)
    by_cases hcm : c = m
    · exact Or.inl hcm
    · rw [progressOf_setProgress, if_neg hcm, progressOf_setProgress,
        if_neg hcm] at hc
      exact absurd hnew hc

end Session

/-- After a call that has visited a method, it is the one that has been finished
last. -/
theorem Optimizer.head?_of_optimize {o : Optimizer σ} {n : Nat} {m : MethodId}
    {s t : Session σ} (h : o.optimize n (some m) s = (.ok (), t))
    (hm : s.progressOf m = .notVisited) :
    t.progress.head? = some (m, .done) := by
  cases n with
  | zero => cases h
  | succ n =>
      rw [optimize_succ, if_pos hm] at h
      split at h
      · cases h
        rfl
      · split at h
        · cases h
          rfl
        · split at h
          · cases h
          · cases h
            rfl

namespace Visit

variable {v : Visit σ} {s t : Session σ} {c d m : MethodId} {i k : InstrId}
  {n : Nat} {pass : Pass} {cfg : InlineSettings} {p : Program}

/-- The visit of `m`, begun in session `s`, is going on. -/
structure Underway (cfg : InlineSettings) (p : Program) (s : Session σ)
    (m : MethodId) (v : Visit σ) : Prop extends Within s m v where
  origin : s.Rested cfg p
  rested : v.session.Rested cfg p
  precedes : s.program.Precedes v.session.program
  busyOnly : ∀ c, v.session.progressOf c = .inProgress → c = m ∨
    s.progressOf c = .inProgress
  led : ∀ c, s.progressOf c = .notVisited →
    v.session.progressOf c ≠ .notVisited → c = m ∨ Reaches cfg p m c

/-- At the first `n` instructions no pass has anything left to do. -/
def Clear (cfg : InlineSettings) (p : Program) (v : Visit σ) (n : Nat) : Prop :=
  ∀ k ∈ v.editing.code.take n, ∀ pass ∈ Pass.standard,
    v.session.Spent cfg p v.editor.method v.editor.body k pass

/-- A visit that has just begun is underway. -/
theorem underway_start {b : BodyId} (hs : s.Rested cfg p)
    (hm : s.progressOf m = .notVisited)
    (hbody : (s.program.method m).body = some b)
    (hsize : s.program.size b ≠ 0) :
    Underway cfg p s m
      ⟨s.setProgress m .inProgress, { method := m, body := b }⟩ where
  toWithin := within_start hs.linked hs.unshared hm hbody hsize
  origin := hs
  rested := hs.start m
  precedes := .refl _
  busyOnly := by
    intro c hc
    rw [Session.progressOf_setProgress] at hc
    split at hc
    · next hcm => exact Or.inl hcm
    · exact Or.inr hc
  led := by
    intro c hnew hc
    by_contra hcm
    rw [Session.progressOf_setProgress, if_neg fun h => hcm (Or.inl h)] at hc
    exact hc hnew

/-- A visit that moves on is underway. -/
theorem Underway.advanced (h : v.Underway cfg p s m) :
    v.advanced.Underway cfg p s m :=
  ⟨h.toWithin.advanced, h.origin, h.rested, h.precedes, h.busyOnly, h.led⟩

/-- A visit that begins again is underway. -/
theorem Underway.restarted (h : v.Underway cfg p s m) :
    v.restarted.Underway cfg p s m :=
  ⟨h.toWithin.restarted, h.origin, h.rested, h.precedes, h.busyOnly, h.led⟩

/-- A visit is underway as long as nothing is edited. -/
theorem Underway.untouched {e : Editing} (h : v.Underway cfg p s m)
    (he : v.editing.Untouched e) : (v.setEditing e).Underway cfg p s m := by
  have hsession := session_untouched he
  refine ⟨h.toWithin.untouched he, h.origin, ?_, ?_, ?_, ?_⟩
  · rw [hsession]
    exact h.rested
  · rw [hsession]
    exact h.precedes
  · rw [hsession]
    exact h.busyOnly
  · rw [hsession]
    exact h.led

/-- The callee of a call in the body has been visited in between. -/
theorem Underway.nested (h : v.Underway cfg p s m) (ht : t.Rested cfg p)
    (hext : v.session.Extends t)
    (hprecedes : v.session.program.Precedes t.program) (hbusy : ∀ c,
      t.progressOf c = .inProgress → v.session.progressOf c = .inProgress)
    (hled : ∀ c, v.session.progressOf c = .notVisited →
      t.progressOf c ≠ .notVisited → Reaches cfg p m c) :
    Underway cfg p s m { v with session := t } where
  toWithin := h.toWithin.nested ht.linked ht.unshared hext
  origin := h.origin
  rested := ht
  precedes := h.precedes.trans hprecedes
  busyOnly := fun c hc => h.busyOnly c (hbusy c hc)
  led := by
    intro c hnew hc
    by_cases hv : v.session.progressOf c = .notVisited
    · exact Or.inr (hled c hv hc)
    · exact h.led c hnew hv

/-- The body has been changed. -/
theorem Underway.evolved {e : Editing} (h : v.Underway cfg p s m)
    (he : v.editing.Evolves e) (hnamed : e.program.Named)
    (htraced : ∀ d ∈ Inline.callees cfg e.program v.editor.body, cfg.policy 0 p
      (some d) = true → Reaches cfg p m d) (stats : Stats) (name : String) :
    (Visit.taken ⟨{ v.session with program := e.program, stats }, e.editor⟩
      name).rewound.Underway cfg p s m where
  toWithin := h.toWithin.evolved he stats name
  origin := h.origin
  rested :=
    h.rested.rework (t := { v.session with program := e.program, stats := _ })
    ⟨h.busy, h.body, he.changed, he.sound.linked, rfl⟩ rfl hnamed htraced
  precedes := h.precedes.trans he.changed.precedes
  busyOnly := h.busyOnly
  led := h.led

/-- What is clear stays clear as long as nothing is edited. -/
theorem Clear.untouched {e : Editing} (h : v.Clear cfg p n)
    (he : v.editing.Untouched e) : (v.setEditing e).Clear cfg p n := by
  intro k hk
  have hk' : k ∈ v.editing.code.take n := by
    rw [← he.code]
    exact hk
  have hmethod : (v.setEditing e).editor.method = v.editor.method :=
    he.edited.method
  have hbody : (v.setEditing e).editor.body = v.editor.body := he.edited.body
  rw [session_untouched he, hmethod, hbody]
  exact h k hk'

/-- A nested visit goes on from the visit around it. -/
theorem Underway.onward (h : v.Underway cfg p s m) (hext : v.session.Extends t)
    (hprecedes : v.session.program.Precedes t.program) : v.session.Onward t :=
  hext.onward h.session hprecedes

/-- A nested visit leaves clear what is. -/
theorem Underway.clear_nested (h : v.Underway cfg p s m) (ht : t.Rested cfg p)
    (hext : v.session.Extends t)
    (hprecedes : v.session.program.Precedes t.program)
    (hclear : v.Clear cfg p n) : Clear cfg p { v with session := t } n := by
  intro k hk pass hpass
  have hcode :
      Editing.code (editing { v with session := t }) = v.editing.code :=
    h.code_nested ht.linked hext
  rw [hcode] at hk
  exact (hclear k hk pass hpass).onward (h.onward hext hprecedes) h.sound.linked
    ht.linked h.rested.named (h.agree hext) (List.mem_of_mem_take hk) hpass

/-- The target has been offered to all passes but these, and none of the others
has anything left to do there. -/
def Tried (cfg : InlineSettings) (p : Program) (v : Visit σ) (i : InstrId)
    (passes : List Pass) : Prop :=
  v.Clear cfg p (v.passed - 1) ∧ ∀ pass ∈ Pass.standard, pass ∈ passes ∨
    v.session.Spent cfg p v.editor.method v.editor.body i pass

/-- One pass more has nothing left to do. -/
theorem Tried.spent {passes : List Pass} (h : v.Tried cfg p i (pass :: passes))
    (hspent : v.session.Spent cfg p v.editor.method v.editor.body i pass) :
    v.Tried cfg p i passes := by
  refine ⟨h.1, fun pass' hpass' => ?_⟩
  rcases h.2 pass' hpass' with hmem | hdone
  · rcases List.mem_cons.mp hmem with rfl | hmem
    · exact Or.inr hspent
    · exact Or.inl hmem
  · exact Or.inr hdone

/-- With the cursor, the target is left behind. -/
theorem Tried.passed (h : v.Tried cfg p i []) (hpos : v.editor.pos = some i)
    (hi : i ∈ v.editing.code) : v.Clear cfg p v.passed := by
  obtain ⟨hclear, hspent⟩ := h
  intro k hk
  rcases mem_passed hpos hi hk with hk | rfl
  · exact hclear k hk
  · exact fun pass hpass => (hspent pass hpass).resolve_left (by simp)

/-- What has been tried has been tried as long as nothing is edited. -/
theorem Tried.untouched {e : Editing} {passes : List Pass}
    (h : v.Tried cfg p i passes) (he : v.editing.Untouched e) :
    (v.setEditing e).Tried cfg p i passes := by
  have hpos : (v.setEditing e).editor.pos = v.editor.pos := by
    change e.editor.pos = v.editing.editor.pos
    rw [he.editor]
  have hcode : (v.setEditing e).editing.code = v.editing.code := he.code
  have hpassed : (v.setEditing e).passed = v.passed := by
    rw [Visit.passed, Visit.passed, hpos, hcode]
  have hmethod : (v.setEditing e).editor.method = v.editor.method :=
    he.edited.method
  have hbody : (v.setEditing e).editor.body = v.editor.body := he.edited.body
  refine ⟨?_, ?_⟩
  · rw [hpassed]
    exact h.1.untouched he
  · rw [session_untouched he, hmethod, hbody]
    exact h.2

/-- What has been tried has been tried after a nested visit. -/
theorem Underway.tried_nested {passes : List Pass} (h : v.Underway cfg p s m)
    (ht : t.Rested cfg p) (hext : v.session.Extends t)
    (hprecedes : v.session.program.Precedes t.program) (hi : i ∈ v.editing.code)
    (htried : v.Tried cfg p i passes) :
    Tried cfg p { v with session := t } i passes := by
  have hcode :
      Editing.code (editing { v with session := t }) = v.editing.code :=
    h.code_nested ht.linked hext
  have hpassed : Visit.passed { v with session := t } = v.passed := by
    rw [Visit.passed, Visit.passed, hcode]
  refine ⟨?_,
    fun pass hpass => (htried.2 pass hpass).imp_right fun hspent => ?_⟩
  · rw [hpassed]
    exact h.clear_nested ht hext hprecedes htried.1
  · exact hspent.onward (h.onward hext hprecedes)
      h.sound.linked ht.linked h.rested.named (h.agree hext) hi hpass

/-- Where a visit ends with nothing left to do, its method is at rest. -/
theorem Underway.finished (hv : v.Underway cfg p s m)
    (hclear : v.Clear cfg p v.passed) (hmore : v.more = false) :
    (v.session.setProgress m .done).Rested cfg p := by
  refine hv.rested.finish hv.origin hv.extend hv.fresh hv.led
    fun b hb i hi pass hpass => ?_
  obtain rfl : v.editor.body = b := Option.some.inj (hv.body.symm.trans hb)
  have hspent := hclear i (by
    rw [hv.toSteady.passed_end hmore, List.take_length]
    exact hi) pass hpass
  rwa [hv.method] at hspent

/-- A visit leads where its calls have led. -/
theorem Underway.spreads (hv : v.Underway cfg p s m) :
    s.Spreads cfg p (Optimizer.left m v.session) where
  busy := by
    intro c hc
    change (v.session.setProgress m .done).progressOf c = .inProgress at hc
    rw [Session.progressOf_setProgress] at hc
    split at hc
    · cases hc
    · next hcm => exact (hv.busyOnly c hc).resolve_left hcm
  led := by
    intro root hroot c hnew hc
    obtain rfl : m = root := congrArg Prod.fst (Option.some.inj hroot)
    change (v.session.setProgress m .done).progressOf c ≠ .notVisited at hc
    by_cases hcm : c = m
    · exact Or.inl hcm
    · rw [Session.progressOf_setProgress, if_neg hcm] at hc
      exact hv.led c hnew hc

end Visit

/-! ### The law -/

/-- Methods come to rest. -/
def resting (cfg : InlineSettings) (p : Program) : Law σ where
  ready s := s.Rested cfg p
  returns s t := t.Rested cfg p ∧ s.Extends t ∧ s.program.Precedes t.program ∧
    s.Spreads cfg p t
  broken _ := True
  during s m
    | .scanning changed, v =>
        v.Underway cfg p s m ∧ (changed = false → v.Clear cfg p v.passed)
    | .offering changed rest, v => v.Underway cfg p s m ∧
      ∃ (i : InstrId) (passes : List Pass), v.Offers i ∧ v.editor.pos = some i ∧
        passes ⊆ Pass.standard ∧ rest = passes.map (Pass.rule cfg) ∧
        (changed = false → v.Tried cfg p i passes)

section Resting

variable {cfg : InlineSettings} {p : Program} {s t : Session σ} {m c : MethodId}
  {v : Visit σ} {i : InstrId} {passes : List Pass} {pass : Pass}
  {changed : Bool} {o : Optimizer σ} {n : Nat}

/-- The next rule has its turn, and nothing has changed in the body. -/
theorem rests_quiet (hv : v.Underway cfg p s m) (hi : v.Offers i)
    (hpos : v.editor.pos = some i) (hpasses : passes ⊆ Pass.standard)
    (htried : changed = false → v.Tried cfg p i passes) (name : String) :
    (resting cfg p).Applies s m changed name (passes.map (Pass.rule cfg))
    (.ok (), v) :=
  Law.applies_quiet hv.clean ⟨hv, i, passes, hi, hpos, hpasses, rfl, htried⟩

/-- A change ends the offer. -/
theorem rests_fired {e : Editing} (stats : Stats) (hv : v.Underway cfg p s m)
    (he : v.editing.Evolves e) (hdirty : e.editor.dirty = true)
    (hnamed : e.program.Named)
    (htraced : ∀ d ∈ Inline.callees cfg e.program v.editor.body, cfg.policy 0 p
      (some d) = true → Reaches cfg p m d) (name : String)
    {rest : List (Rule σ)} : (resting cfg p).Applies s m changed name rest
    (.ok (), ⟨{ v.session with program := e.program, stats }, e.editor⟩) :=
  Law.applies_fired hdirty ⟨hv.evolved he hnamed htraced stats name,
    fun h => by cases h⟩

/-- Local passes leave nothing behind. -/
theorem resting_local (hv : v.Underway cfg p s m) (hi : v.Offers i)
    (hpos : v.editor.pos = some i) (hpasses : pass :: passes ⊆ Pass.standard)
    (hinline : pass ≠ .inlineFunctionCall)
    (htried : changed = false → v.Tried cfg p i (pass :: passes))
    (name : String) :
    (resting cfg p).Applies s m changed name (passes.map (Pass.rule cfg))
    ((pass.rule cfg).apply (o.optimize n) v) := by
  have hstep := Pass.rule_step cfg (o.optimize n) hv.sound hi.1 hi.2 pass
  have hidle : ((pass.rule cfg).apply (o.optimize n) v).2.editor.dirty = false →
      v.session.program.Idle v.editor.body i pass :=
    idle_of_clean hv.sound hi.1 hi.2
  generalize (pass.rule cfg).apply (o.optimize n) v = r at hstep hidle
  cases hstep with
  | @quiet _ e he =>
      have hclean : (v.setEditing e).editor.dirty = false :=
        (hv.toSteady.untouched he).clean
      have hpos' : (v.setEditing e).editor.pos = some i := by
        change e.editor.pos = some i
        rw [he.editor]
        exact hpos
      have hrest : passes ⊆ Pass.standard :=
        fun _ h => hpasses (List.mem_cons_of_mem _ h)
      refine rests_quiet (hv.untouched he) (hi.untouched he) hpos' hrest
        (fun hc => ?_) name
      have hspent :
          v.session.Spent cfg p v.editor.method v.editor.body i pass :=
        ⟨hidle hclean, fun h => absurd h hinline⟩
      exact ((htried hc).spent hspent).untouched he
  | @fires _ e he heffect =>
      refine rests_fired v.session.stats hv he.toEvolves he.dirty
        (heffect.named hv.sound hi.2 hv.rested.named) ?_ name
      exact hv.rested.toTraced.effect
        (e := v.editing) rfl hv.sound hi.2 hv.body heffect
  | inlines => exact absurd rfl hinline

/-- What the callee's visit returns to. -/
theorem resting_call (hfixed : cfg.policy.Fixed)
    (hcalls : (resting cfg p).Calls (o.optimize n)) (hv : v.Underway cfg p s m)
    (hi : v.Offers i) (hcallee : Inline.callee? cfg v.editing i = some c)
    (hyes : Inline.approved cfg c v.session = true) (ht : o.optimize n (some c)
      (Inline.consulted cfg c v.session) = (.ok (), t)) : t.Rested cfg p ∧
    v.session.Extends t ∧ v.session.program.Precedes t.program ∧
    Visit.Underway cfg p s m { v with session := t } := by
  have hmeets := hcalls c _ (hv.rested.asked hfixed c)
  rw [ht] at hmeets
  obtain ⟨hrested, hext, hprecedes, hspread⟩ := hmeets
  have hext' : v.session.Extends t := by
    have hasked : v.session.Extends (Inline.consulted cfg c v.session) :=
      Session.extends_of_eq rfl rfl
    exact hasked.trans hext
  have hmc : Reaches cfg p m c := by
    have hmem : c ∈ Inline.callees cfg v.session.program v.editor.body :=
      Inline.callee_mem_callees hi.2 (Inline.calleeOf_of_callee? hcallee)
    rw [hv.rested.approved hfixed] at hyes
    exact hv.rested.traced m _ hv.body c hmem hyes
  refine ⟨hrested, hext', hprecedes,
    hv.nested hrested hext' hprecedes hspread.busy ?_⟩
  intro d hnew hd
  by_cases hc : v.session.progressOf c = .notVisited
  · rcases hspread.led c (Optimizer.head?_of_optimize ht hc) d hnew hd with rfl
      | hcd
    · exact hmc
    · exact hmc.trans hcd
  · rcases Optimizer.optimize_ok ht with ⟨-, rfl⟩ | ⟨hnew', -⟩
    · exact absurd hnew hd
    · exact absurd hnew' hc

/-- A call that has not been taken in is left for a reason. -/
theorem leaves_of_callee (hcallee : Inline.callee? cfg v.editing i = some c)
    (hinstr : t.program.instr i = v.session.program.instr i)
    (hwhy : cfg.policy 0 p (some c) = true → (t.program.next i).isSome →
      t.progressOf c = .inProgress ∨
        t.progressOf c = .done ∧ (Unfit cfg t.program c ∨ Reaches cfg p c m)) :
    t.Leaves cfg p m i := by
  intro d hd _ hyes hnext
  have hc := Inline.calleeOf_of_callee? hcallee
  rw [hinstr] at hd
  have hdc : some d = some c := hd.symm.trans hc
  cases hdc
  exact hwhy hyes hnext

/-- A nested visit that changes nothing in the body, in a session that may be a
later one. -/
theorem rests_nested (hv : v.Underway cfg p s m) (hi : v.Offers i)
    (hpos : v.editor.pos = some i) (hpasses : passes ⊆ Pass.standard)
    (htried : changed = false → v.Tried cfg p i (.inlineFunctionCall :: passes))
    (ht : t.Rested cfg p) (hext : v.session.Extends t)
    (hprecedes : v.session.program.Precedes t.program)
    (hvt : Visit.Underway cfg p s m { v with session := t })
    (hleaves : t.Leaves cfg p m i) (name : String) :
    (resting cfg p).Applies s m changed name (passes.map (Pass.rule cfg))
    (.ok (), { v with session := t }) := by
  refine rests_quiet hvt (hv.toWithin.offers_nested ht.linked hext hi)
    hpos hpasses (fun hc => ?_) name
  refine (hv.tried_nested ht hext hprecedes hi.2 (htried hc)).spent
    ⟨Program.idle_inline, fun _ => ?_⟩
  change t.Leaves cfg p v.editor.method i
  rwa [hv.method]

/-- The policy has been asked, and that is all. -/
theorem rests_asked (hfixed : cfg.policy.Fixed) (hv : v.Underway cfg p s m)
    (hi : v.Offers i) (hpos : v.editor.pos = some i)
    (hpasses : passes ⊆ Pass.standard)
    (htried : changed = false → v.Tried cfg p i (.inlineFunctionCall :: passes))
    (stats : Stats) (hcallee : Inline.callee? cfg v.editing i = some c)
    (hno : cfg.policy 0 p (some c) = true → v.session.program.next i = none)
    (name : String) :
    (resting cfg p).Applies s m changed name (passes.map (Pass.rule cfg))
    (.ok (), { v with
      session := { Inline.consulted cfg c v.session with stats } }) := by
  have hrested := (hv.rested.asked hfixed c).counted stats
  have hext :
      v.session.Extends { Inline.consulted cfg c v.session with stats } :=
    Session.extends_of_eq rfl rfl
  refine rests_nested hv hi hpos hpasses htried hrested hext (.refl _)
    (hv.nested hrested hext (.refl _) (fun _ hc => hc) ?_) ?_ name
  · exact fun d hnew hd => absurd hnew hd
  · refine leaves_of_callee hcallee rfl fun hyes hnext => ?_
    have hnext' : (v.session.program.next i).isSome = true := hnext
    rw [hno hyes] at hnext'
    cases hnext'

/-- A call is left after its callee's visit: the callee is in progress, or has
nothing that could be taken in. -/
theorem leaves_of_spared (hv : v.Underway cfg p s m) (hi : v.Offers i)
    (hext : v.session.Extends t)
    (hcallee : Inline.callee? cfg v.editing i = some c)
    (hopt : o.optimize n (some c) (Inline.consulted cfg c v.session) =
      (.ok (), t))
    (hspared : t.progressOf c = .inProgress ∨
      (t.program.method c).body = none ∨
      ∃ b, (t.program.method c).body = some b ∧
        Inline.callsItself cfg t.program c b = true) :
    t.Leaves cfg p m i := by
  have hinstr := (hv.agree hext).instr_eq hv.sound.linked hi.2
  refine leaves_of_callee hcallee hinstr fun _ _ => ?_
  cases hstage : t.progressOf c with
  | inProgress => exact Or.inl rfl
  | notVisited =>
      rcases Optimizer.optimize_ok hopt with ⟨hvisited, rfl⟩ | ⟨-, hdone⟩
      · exact absurd hstage hvisited
      · rw [hdone] at hstage
        cases hstage
  | done =>
      refine Or.inr ⟨rfl, Or.inl ?_⟩
      rcases hspared with hbusy | hnone | ⟨b, hbody, hself⟩
      · rw [hbusy] at hstage
        cases hstage
      · exact Or.inl hnone
      · exact Or.inr ⟨b, hbody, Inline.callsItself_iff.mp hself⟩

/-- A call that is taken in ends the offer, if the copying goes through. -/
theorem rests_takenIn {b : BodyId} {anchor : InstrId}
    (hv : v.Underway cfg p s m) (hi : v.Offers i)
    (hcallee : Inline.callee? cfg v.editing i = some c)
    (hyes : cfg.policy 0 p (some c) = true)
    (hnext : v.editing.nextInstruction = some anchor) (ht : t.Rested cfg p)
    (hext : v.session.Extends t)
    (hvt : Visit.Underway cfg p s m { v with session := t })
    (hbody : (t.program.method c).body = some b) (name : String)
    {rest : List (Rule σ)} :
    (resting cfg p).Applies s m changed name rest
    (Inline.takeIn i b anchor { v with session := t }) := by
  obtain ⟨hv₁, hi₁, hnext₁, hother⟩ :=
    hv.toWithin.taking hi hcallee hnext ht.toSound hext hbody
  obtain ⟨v₁, heq, hsession⟩ :=
    Inline.takeIn_replaces hv₁.sound hi₁.1 hi₁.2 hnext₁
  rcases heq with ⟨hstop, -⟩ | ⟨hok, hreplaces⟩
  · rw [hstop]
    exact ⟨Or.inl rfl, trivial⟩
  · rw [hok]
    have hv₁' : v₁ = ⟨{ t with
        program := v₁.editing.program, stats := v₁.session.stats },
        v₁.editing.editor⟩ := by
      obtain ⟨session, editor⟩ := v₁
      simp only at hsession
      rw [hsession]
      rfl
    rw [hv₁']
    refine rests_fired v₁.session.stats hvt hreplaces.evolves hreplaces.1
      (hreplaces.named hv₁.sound hi₁.2 hnext₁ ht.named) ?_ name
    have hcall : Inline.calleeOf cfg (t.program.instr i).bare = some c := by
      rw [(hv.agree hext).instr_eq hv.sound.linked hi.2]
      exact Inline.calleeOf_of_callee? hcallee
    refine ht.toTraced.taken hvt.body hbody ?_ hyes
    exact hreplaces.callees hv₁.sound hi₁.2 hnext₁ hother hcall

/-- The inliner leaves only calls behind that are left for a reason. -/
theorem resting_inline (hfixed : cfg.policy.Fixed) (hbudget : cfg.budget ≤ 0)
    (hcalls : (resting cfg p).Calls (o.optimize n)) (hv : v.Underway cfg p s m)
    (hi : v.Offers i) (hpos : v.editor.pos = some i)
    (hpasses : passes ⊆ Pass.standard)
    (htried : changed = false → v.Tried cfg p i (.inlineFunctionCall :: passes))
    (name : String) :
    (resting cfg p).Applies s m changed name (passes.map (Pass.rule cfg))
    (Inline.apply cfg (o.optimize n) v) := by
  cases hcallee : Inline.callee? cfg v.editing i with
  | none =>
      rw [Inline.apply_eq hi.1, hcallee]
      refine rests_nested hv hi hpos hpasses htried hv.rested (.refl _)
        (.refl _) hv (fun d hd hdm => ?_) name
      exact absurd ((Inline.eq_of_callee?_none hcallee hd).trans hv.method) hdm
  | some c =>
      have hanswer := hv.rested.approved hfixed c
      by_cases hyes : Inline.approved cfg c v.session = true
      · have hr : Inline.Inlines cfg (o.optimize n) v i
            (Inline.apply cfg (o.optimize n) v) :=
          Inline.apply_inlines hi.1
        generalize Inline.apply cfg (o.optimize n) v = r at hr
        cases hr with
        | none hnone =>
            rw [hcallee] at hnone
            cases hnone
        | @declined c' stats hcallee' hreason =>
            refine rests_asked hfixed hv hi hpos hpasses htried stats hcallee'
              (fun _ => ?_) name
            obtain rfl : c = c' := Option.some.inj (hcallee.symm.trans hcallee')
            rcases hreason with hno | hnone | hover
            · rw [hyes] at hno
              cases hno
            · rwa [hv.toWithin.nextInstruction hi] at hnone
            · simp [Inline.withinBudget, hbudget] at hover
        | @stopped c' e t hcallee' hopt =>
            have hmeets := hcalls c' _ (hv.rested.asked hfixed c')
            rw [hopt] at hmeets
            exact hmeets
        | @spared c' t hcallee' hopt hspared =>
            obtain rfl : c = c' := Option.some.inj (hcallee.symm.trans hcallee')
            obtain ⟨ht, hext, hprecedes, hvt⟩ :=
              resting_call hfixed hcalls hv hi hcallee hyes hopt
            exact rests_nested hv hi hpos hpasses htried ht hext hprecedes hvt
              (leaves_of_spared hv hi hext hcallee hopt hspared) name
        | @takenIn c' t anchor b hcallee' _ hnext _ hopt _ hbody =>
            obtain rfl : c = c' := Option.some.inj (hcallee.symm.trans hcallee')
            obtain ⟨ht, hext, -, hvt⟩ :=
              resting_call hfixed hcalls hv hi hcallee hyes hopt
            exact rests_takenIn hv hi hcallee (hanswer.symm.trans hyes) hnext
              ht hext hvt hbody name
      · rw [Inline.apply_eq hi.1, hcallee]
        simp only [if_neg hyes]
        refine rests_asked hfixed hv hi hpos hpasses htried v.session.stats
          hcallee (fun hpolicy => ?_) name
        rw [hanswer, hpolicy] at hyes
        exact absurd rfl hyes

/-- **Methods come to rest.** -/
theorem resting_obeyed (hfixed : cfg.policy.Fixed) (hbudget : cfg.budget ≤ 0) :
    (resting cfg p).Obeyed
    (Optimizer.ofPasses cfg Pass.standard : Optimizer σ) where
  unwatched := fun _ _ => rfl
  idle := fun {s} hs =>
    ⟨hs, .refl s, .refl _, fun _ hc => hc, fun _ _ _ hnew hc => absurd hnew hc⟩
  skip := by
    intro s m hs hm hbody
    have hstart := (Session.Extends.refl s).mark hm .inProgress (by simp)
    exact ⟨hs.skipped hm hbody, hstart.mark hm .done (by simp), .refl _,
      Session.spreads_skipped s m⟩
  start := by
    intro s m b hs hm hbody hsize
    refine ⟨Visit.underway_start hs hm hbody hsize, fun _ k hk => ?_⟩
    rw [show Visit.passed _ = 0 from rfl] at hk
    cases hk
  advance := by
    rintro s m changed v ⟨hv, hclear⟩ hmore
    obtain ⟨i, hi⟩ := hv.toSteady.offers hmore
    refine ⟨hv.advanced, i, Pass.standard, hi, hi.1, fun _ h => h, rfl,
      fun hc => ⟨?_, fun _ hpass => Or.inl hpass⟩⟩
    rw [hv.toSteady.passed_advanced hmore, Nat.add_sub_cancel]
    exact hclear hc
  apply := by
    rintro s m changed r rest v fuel hcalls - ⟨hv, i, passes, hi, hpos, hpasses,
      hrest, htried⟩
    cases passes with
    | nil => cases hrest
    | cons pass passes =>
        obtain ⟨rfl, rfl⟩ := List.cons.inj hrest
        by_cases hinline : pass = .inlineFunctionCall
        · subst hinline
          exact resting_inline hfixed hbudget hcalls hv hi hpos
            (fun _ h => hpasses (List.mem_cons_of_mem _ h)) htried _
        · exact resting_local hv hi hpos hpasses hinline htried _
  decline := by
    rintro s m changed v ⟨hv, i, passes, hi, hpos, -, hrest, htried⟩
    refine ⟨hv, fun hc => ?_⟩
    have hnil : passes = [] := by
      cases passes with
      | nil => rfl
      | cons => cases hrest
    subst hnil
    exact (htried hc).passed hpos hi.2
  restart := by
    rintro s m v ⟨hv, -⟩ -
    refine ⟨hv.advanced.restarted, fun _ k hk => ?_⟩
    rw [show Visit.passed _ = 0 from rfl] at hk
    cases hk
  finish := by
    rintro s m v ⟨hv, hclear⟩ hmore
    have hcount : Session.Extends (v.session.setProgress m .done)
        (Optimizer.left m v.session) :=
      Session.extends_of_eq rfl rfl
    have hext := (hv.extend.mark hv.fresh .done (by simp)).trans hcount
    exact ⟨(hv.finished (hclear rfl) hmore).counted _, hext, hv.precedes,
      hv.spreads⟩
  cut := fun _ => trivial
  refuse := fun _ => trivial

end Resting

end Bytecode
