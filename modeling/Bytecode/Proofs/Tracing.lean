import Bytecode.Proofs.Finished
import Bytecode.Proofs.EachReturn

/-!
# Where calls lead

A policy that looks at the declarations of methods only gives the same answers
all along a run, so the calls that it accepts can be followed in the program at
the start: `Reaches`.  When a call is taken in, calls are taken over that lead
where they have led before.  So every call that is found in a method in the
course of a run leads to a method that could be reached from it.

The main statement is `tracing_obeyed`.
-/

namespace Bytecode

variable {σ : Type}

/-! ### Policies that look at declarations -/

namespace Policy

/-- The policy looks at the declarations of methods only, whenever it is
asked. -/
def Fixed (policy : Policy) : Prop :=
  ∀ n k p q m, q.methods = p.methods → policy n q m = policy k p m

/-- The first answers of a policy, on one program. -/
def frozen (policy : Policy) (p : Program) : Policy := fun _ _ => policy 0 p

/-- A policy that sticks to its first answers gives one for each method. -/
theorem frozen_pure (policy : Policy) (p : Program) :
    Memo.Pure (policy.frozen p) :=
  fun _ _ _ _ _ => rfl

/-- Without limits the baseline policy does not look at bodies. -/
theorem baseline_fixed {limits : Limits} (hsize : limits.maxInstructions ≤ 0)
    (hlocals : limits.maxLocals ≤ 0) : (baseline limits).Fixed := by
  intro n k p q m hmethods
  cases m with
  | none => rfl
  | some m =>
      have hmethod : q.method m = p.method m := by
        simp only [Program.method, hmethods]
      simp only [baseline, hmethod, not_lt.mpr hsize, not_lt.mpr hlocals]
      simp

end Policy

namespace Inline

variable {cfg : InlineSettings} {p q : Program} {c d m : MethodId} {b : BodyId}
  {i : InstrId}

/-- A call of `c` leads to `d`, which the policy accepts. -/
def Leads (cfg : InlineSettings) (p : Program) (c d : MethodId) : Prop :=
  cfg.policy 0 p (some d) = true ∧ ∃ b, (p.method c).body = some b ∧
    d ∈ callees cfg p b

/-- Calls of `c` lead to `d`, directly or by way of other methods. -/
abbrev Reaches (cfg : InlineSettings) (p : Program) :
    MethodId → MethodId → Prop :=
  Relation.TransGen (Leads cfg p)

/-- What a memo answers that has been faithful to a policy. -/
theorem ask_of_fixed (hfixed : cfg.policy.Fixed)
    (hmethods : q.methods = p.methods) (memo : Memo Recent) (m : MethodId) :
    memo.ask cfg.policy q (some m) =
    memo.ask (cfg.policy.frozen p) q (some m) := by
  simp only [Memo.ask, Policy.frozen,
    hfixed memo.consulted 0 p q (some m) hmethods]

/-- The callee of a call in a body is a callee of the body. -/
theorem callee_mem_callees (hi : i ∈ p.code b)
    (hd : calleeOf cfg (p.instr i).bare = some d) : d ∈ callees cfg p b := by
  rw [callees, Multiset.mem_filterMap]
  exact ⟨_, Multiset.mem_coe.mpr (List.mem_map.mpr ⟨i, hi, rfl⟩), hd⟩

end Inline

open Inline (Leads Reaches)

/-! ### Sessions -/

namespace Session

variable {s t : Session σ} {c d m : MethodId} {b k : BodyId} {i : InstrId}
  {cfg : InlineSettings} {p q : Program}

/-- The program comes from `p`, and its calls lead where those of `p` have
led. -/
structure Traced (cfg : InlineSettings) (p : Program) (s : Session σ) :
    Prop extends s.Sound where
  methods : s.program.methods = p.methods
  faithful : s.memo.Faithful (cfg.policy.frozen p)
  /-- Calls that have been taken over lead where they have led before. -/
  traced : ∀ m b, (s.program.method m).body = some b →
    ∀ d ∈ Inline.callees cfg s.program b, cfg.policy 0 p (some d) = true →
    Reaches cfg p m d

theorem Traced.method (h : s.Traced cfg p) (m : MethodId) :
    s.program.method m = p.method m := by
  simp only [Program.method, h.methods]

theorem Traced.asked (h : s.Traced cfg p) (hfixed : cfg.policy.Fixed)
    (c : MethodId) : (Inline.consulted cfg c s).Traced cfg p where
  linked := h.linked
  unshared := h.unshared
  methods := h.methods
  faithful := by
    change (s.memo.ask cfg.policy s.program (some c)).2.Faithful _
    rw [Inline.ask_of_fixed hfixed h.methods]
    exact h.faithful.ask (Policy.frozen_pure _ _) _ _
  traced := h.traced

theorem Traced.counted (h : s.Traced cfg p) (stats : Stats) :
    Traced cfg p { s with stats } :=
  ⟨⟨h.linked, h.unshared⟩, h.methods, h.faithful, h.traced⟩

theorem Traced.marked (h : s.Traced cfg p) (m : MethodId) (x : Progress) :
    (s.setProgress m x).Traced cfg p :=
  ⟨⟨h.linked, h.unshared⟩, h.methods, h.faithful, h.traced⟩

/-- Whom the policy is asked about it answers as at the beginning. -/
theorem Traced.approved (h : s.Traced cfg p) (hfixed : cfg.policy.Fixed)
    (c : MethodId) : Inline.approved cfg c s = cfg.policy 0 p (some c) := by
  rw [Inline.approved, Inline.ask_of_fixed hfixed h.methods,
    Memo.ask_of_faithful h.faithful]
  rfl

/-- The body of a method that is in progress has been changed. -/
theorem Traced.rework (h : s.Traced cfg p) (ht : Reworked m b s t)
    (hmemo : t.memo = s.memo) (htraced : ∀ d ∈ Inline.callees cfg t.program b,
      cfg.policy 0 p (some d) = true → Reaches cfg p m d) : t.Traced cfg p where
  linked := ht.linked
  unshared := by
    intro m₁ m₂ k h₁ h₂
    rw [ht.changed.method] at h₁ h₂
    exact h.unshared m₁ m₂ k h₁ h₂
  methods := ht.changed.methods.trans h.methods
  faithful := by
    rw [hmemo]
    exact h.faithful
  traced := by
    intro k c hbody d hd
    rw [ht.changed.method] at hbody
    by_cases hcb : c = b
    · subst hcb
      rw [h.unshared m k c ht.body hbody]
      exact htraced d hd
    · rw [Inline.callees_agree
        (ht.changed.agreeOn h.linked hcb) h.linked ht.linked] at hd
      exact h.traced k c hbody d hd

/-- A local pass adds no calls. -/
theorem Traced.effect (h : s.Traced cfg p) {e : Editing} {pass : Pass}
    (hprogram : e.program = s.program) (he : e.Sound) (hi : i ∈ e.code)
    (hbody : (s.program.method m).body = some e.editor.body)
    (heffect : e.Effect i pass q) :
    ∀ d ∈ Inline.callees cfg q e.editor.body, cfg.policy 0 p (some d) = true →
      Reaches cfg p m d := by
  intro d hd hyes
  have hle : Inline.callees cfg q e.editor.body ≤
      Inline.callees cfg e.program e.editor.body :=
    Inline.callees_effect heffect he hi
  rw [hprogram] at hle
  exact h.traced m _ hbody d (Multiset.mem_of_le hle hd) hyes

/-- The calls that come with a callee lead where its own lead. -/
theorem Traced.taken (h : s.Traced cfg p)
    (hm : (s.program.method m).body = some k)
    (hc : (s.program.method c).body = some b)
    (htaken : ∃ others, Inline.callees cfg s.program k = c ::ₘ others ∧
      Inline.callees cfg q k ≤ others + Inline.callees cfg s.program b)
    (hyes : cfg.policy 0 p (some c) = true) :
    ∀ d ∈ Inline.callees cfg q k, cfg.policy 0 p (some d) = true →
      Reaches cfg p m d := by
  obtain ⟨others, hbefore, hafter⟩ := htaken
  intro d hd hdyes
  rcases Multiset.mem_add.mp (Multiset.mem_of_le hafter hd) with hd | hd
  · apply h.traced m k hm d _ hdyes
    rw [hbefore]
    exact Multiset.mem_cons_of_mem hd
  · have hmc : Reaches cfg p m c := by
      apply h.traced m k hm c _ hyes
      rw [hbefore]
      exact Multiset.mem_cons_self _ _
    exact hmc.trans (h.traced c b hc d hd hdyes)

end Session

/-! ### Visits -/

namespace Visit

variable {v : Visit σ} {s t : Session σ} {c m : MethodId} {i : InstrId}
  {cfg : InlineSettings} {p : Program}

/-- The visit of `m`, begun in session `s`, is going on; no method is in
progress besides `m` and those that were when it began. -/
structure OnTrack (cfg : InlineSettings) (p : Program) (s : Session σ)
    (m : MethodId) (v : Visit σ) : Prop extends Within s m v where
  traced : v.session.Traced cfg p
  closed : v.session.program.NoDangling
  busyOnly : ∀ c, v.session.progressOf c = .inProgress → c = m ∨
    s.progressOf c = .inProgress

theorem OnTrack.advanced (h : v.OnTrack cfg p s m) :
    v.advanced.OnTrack cfg p s m :=
  ⟨h.toWithin.advanced, h.traced, h.closed, h.busyOnly⟩

theorem OnTrack.restarted (h : v.OnTrack cfg p s m) :
    v.restarted.OnTrack cfg p s m :=
  ⟨h.toWithin.restarted, h.traced, h.closed, h.busyOnly⟩

/-- With the same program, an edit leaves the session as it is. -/
theorem setEditing_session {e : Editing} (he : e.program = v.session.program) :
    (v.setEditing e).session = v.session := by
  rw [setEditing, he]

theorem OnTrack.untouched {e : Editing} (h : v.OnTrack cfg p s m)
    (he : v.editing.Untouched e) : (v.setEditing e).OnTrack cfg p s m := by
  have hsession : (v.setEditing e).session = v.session :=
    setEditing_session he.program
  refine ⟨h.toWithin.untouched he, ?_, ?_, ?_⟩
  · rw [hsession]
    exact h.traced
  · rw [hsession]
    exact h.closed
  · rw [hsession]
    exact h.busyOnly

/-- The memo has been asked, and calls may have been counted. -/
theorem OnTrack.asked (h : v.OnTrack cfg p s m) (hfixed : cfg.policy.Fixed)
    (c : MethodId) (stats : Stats) : OnTrack cfg p s m { v with
      session := { Inline.consulted cfg c v.session with stats } } :=
  ⟨h.toWithin.noting _ _, (h.traced.asked hfixed c).counted stats, h.closed,
    h.busyOnly⟩

/-- Another method has been visited in between. -/
theorem OnTrack.nested (h : v.OnTrack cfg p s m) (ht : t.Traced cfg p)
    (hclosed : t.program.NoDangling) (hext : v.session.Extends t) (hbusy : ∀ c,
      t.progressOf c = .inProgress → v.session.progressOf c = .inProgress) :
    OnTrack cfg p s m { v with session := t } :=
  ⟨h.toWithin.nested ht.linked ht.unshared hext, ht, hclosed,
    fun c hc => h.busyOnly c (hbusy c hc)⟩

/-- The body has been changed. -/
theorem OnTrack.evolved {e : Editing} (h : v.OnTrack cfg p s m)
    (he : v.editing.Evolves e) (hclosed : e.program.Closed v.editor.body)
    (htraced : ∀ d ∈ Inline.callees cfg e.program v.editor.body, cfg.policy 0 p
      (some d) = true → Reaches cfg p m d) (stats : Stats) (name : String) :
    (Visit.taken ⟨{ v.session with program := e.program, stats }, e.editor⟩
      name).rewound.OnTrack cfg p s m where
  toWithin := h.toWithin.evolved he stats name
  traced :=
    h.traced.rework (t := { v.session with program := e.program, stats := _ })
    ⟨h.busy, h.body, he.changed, he.sound.linked, rfl⟩ rfl htraced
  closed := h.closed.change h.sound.linked he.sound.linked he.changed hclosed
  busyOnly := h.busyOnly

end Visit

/-! ### The law -/

/-- Calls lead where they have led at the start. -/
def tracing (cfg : InlineSettings) (p : Program) : Law σ where
  ready s := s.Traced cfg p ∧ s.program.NoDangling
  returns s t := (t.Traced cfg p ∧ t.program.NoDangling) ∧ s.Extends t ∧
    ∀ c, t.progressOf c = .inProgress → s.progressOf c = .inProgress
  broken _ := True
  during s m
    | .scanning _, v => v.OnTrack cfg p s m
    | .offering _ _, v => v.OnTrack cfg p s m ∧ ∃ i, v.Offers i

section Tracing

variable {cfg : InlineSettings} {p : Program} {s t : Session σ} {m c : MethodId}
  {v : Visit σ} {i : InstrId} {changed : Bool} {passes : List Pass}
  {rest : List (Rule σ)} {optimize : Option MethodId → SessionM σ Unit}

/-- What the callee's visit returns to. -/
theorem tracing_call (hfixed : cfg.policy.Fixed)
    (hcalls : (tracing cfg p).Calls optimize) (hv : v.OnTrack cfg p s m)
    (ht : optimize (some c) (Inline.consulted cfg c v.session) = (.ok (), t)) :
    Visit.OnTrack cfg p s m { v with session := t } ∧ v.session.Extends t := by
  have hmeets := hcalls c _ ⟨hv.traced.asked hfixed c, hv.closed⟩
  rw [ht] at hmeets
  obtain ⟨⟨htraced, hclosed⟩, hext, hbusy⟩ := hmeets
  have hext' : v.session.Extends t := by
    have hasked : v.session.Extends (Inline.consulted cfg c v.session) :=
      Session.extends_of_eq rfl rfl
    exact hasked.trans hext
  exact ⟨hv.nested htraced hclosed hext' hbusy, hext'⟩

/-- After the callee has been taken in, the visit goes on. -/
theorem tracing_taken (hv : v.OnTrack cfg p s m) (hi : v.Offers i)
    {anchor : InstrId} {b : BodyId}
    (hcall : Inline.calleeOf cfg (v.session.program.instr i).bare = some c)
    (hyes : cfg.policy 0 p (some c) = true)
    (hnext : v.session.program.next i = some anchor)
    (hother : b ≠ v.editor.body)
    (hbody : (v.session.program.method c).body = some b) {v' : Visit σ}
    (hreplaces : Inline.Replaces i b anchor v.editing v'.editing)
    (hsession : v'.session = { v.session with
      program := v'.session.program, stats := v'.session.stats })
    (name : String) : (v'.taken name).rewound.OnTrack cfg p s m := by
  have hv' : v' = ⟨{ v.session with
      program := v'.editing.program, stats := v'.session.stats },
      v'.editing.editor⟩ := by
    obtain ⟨session, editor⟩ := v'
    simp only at hsession
    rw [hsession]
    rfl
  rw [hv']
  refine hv.evolved hreplaces.evolves ?_ ?_ v'.session.stats name
  · exact closed_replaces hv.sound hi.2 hnext hother (hv.closed m _ hv.body)
      (hv.closed c b hbody) hreplaces
  · exact hv.traced.taken hv.body hbody
      (hreplaces.callees hv.sound hi.2 hnext hother hcall) hyes

theorem tracing_inlines (hfixed : cfg.policy.Fixed)
    (hcalls : (tracing cfg p).Calls optimize) (hv : v.OnTrack cfg p s m)
    (hi : v.Offers i) {r : Except Fault Unit × Visit σ}
    (hr : Inline.Inlines cfg optimize v i r) (name : String) :
    (tracing cfg p).Applies s m changed name rest r := by
  have hquiet : ∀ {v' : Visit σ}, v'.OnTrack cfg p s m → v'.Offers i →
      (tracing cfg p).Applies s m changed name rest (.ok (), v') :=
    fun hv' hi' => Law.applies_quiet hv'.clean ⟨hv', i, hi'⟩
  cases hr with
  | none => exact hquiet hv hi
  | declined stats => exact hquiet (hv.asked hfixed _ stats) hi
  | @stopped c _ _ _ hopt =>
      have hmeets := hcalls c _ ⟨hv.traced.asked hfixed c, hv.closed⟩
      rw [hopt] at hmeets
      exact hmeets
  | spared _ hopt =>
      obtain ⟨hvt, hext⟩ := tracing_call hfixed hcalls hv hopt
      exact hquiet hvt (hv.offers_nested hvt.sound.linked hext hi)
  | @takenIn c t anchor b hcallee hyes hnext _ hopt _ hbody =>
      obtain ⟨hvt, hext⟩ := tracing_call hfixed hcalls hv hopt
      obtain ⟨hv₁, hi₁, hnext₁, hother⟩ :=
        hv.taking hi hcallee hnext hvt.session hext hbody
      obtain ⟨v₁, heq, hsession⟩ :=
        Inline.takeIn_replaces hv₁.sound hi₁.1 hi₁.2 hnext₁
      rcases heq with ⟨hstop, -⟩ | ⟨hok, hreplaces⟩
      · rw [hstop]
        exact ⟨Or.inl rfl, trivial⟩
      · rw [hok]
        refine Law.applies_fired hreplaces.1 ?_
        have hcall : Inline.calleeOf cfg (t.program.instr i).bare = some c := by
          have hp : v.session.program.WellLinked := hv.sound.linked
          have hmem : i ∈ (v.session.program.body v.editor.body).code := by
            rw [← hp.code]
            exact hi.2
          rw [(hv.agree hext).instr i hmem]
          exact Inline.calleeOf_of_callee? hcallee
        rw [hv.traced.approved hfixed] at hyes
        exact tracing_taken hvt hi₁ hcall hyes hnext₁ hother hbody hreplaces
          hsession name

theorem tracing_passStep (hfixed : cfg.policy.Fixed)
    (hcalls : (tracing cfg p).Calls optimize) (hv : v.OnTrack cfg p s m)
    (hi : v.Offers i) {pass : Pass} {r : Except Fault Unit × Visit σ}
    (hr : PassStep cfg optimize v i pass r) (name : String) :
    (tracing cfg p).Applies s m changed name rest r := by
  cases hr with
  | quiet he =>
      have hv' := hv.untouched he
      exact Law.applies_quiet hv'.clean ⟨hv', i, hi.untouched he⟩
  | fires he heffect =>
      refine Law.applies_fired he.dirty
        (hv.evolved he.toEvolves ?_ ?_ v.session.stats name)
      · exact heffect.closed hv.sound hi.2 (hv.closed m _ hv.body)
      · exact hv.traced.effect
          (e := v.editing) rfl hv.sound hi.2 hv.body heffect
  | inlines hr => exact tracing_inlines hfixed hcalls hv hi hr name

/-- **Calls lead where they have led at the start.** -/
theorem tracing_obeyed (hfixed : cfg.policy.Fixed) (passes : List Pass) :
    (tracing cfg p).Obeyed (Optimizer.ofPasses cfg passes : Optimizer σ) where
  unwatched := fun _ _ => rfl
  idle := fun {s} hs => ⟨hs, .refl s, fun _ hc => hc⟩
  skip := by
    intro s m hs hm _
    have hmark := (Session.Extends.refl s).mark hm .inProgress (by simp)
    refine ⟨⟨(hs.1.marked m _).marked m _, hs.2⟩, hmark.mark hm .done (by simp),
      fun c hc => ?_⟩
    rw [Session.progressOf_setProgress] at hc
    split at hc
    · cases hc
    · next hcm => rwa [Session.progressOf_setProgress, if_neg hcm] at hc
  start := by
    intro s m b hs hm hbody hsize
    refine ⟨Visit.within_start hs.1.linked hs.1.unshared hm hbody hsize,
      hs.1.marked m _, hs.2, ?_⟩
    intro c hc
    rw [Session.progressOf_setProgress] at hc
    split at hc
    · next hcm => exact Or.inl hcm
    · exact Or.inr hc
  advance := fun hv hmore => ⟨hv.advanced, hv.toSteady.offers hmore⟩
  apply := by
    rintro s m changed r rest v fuel hcalls hr ⟨hv, i, hi⟩
    obtain ⟨pass, -, rfl⟩ := List.mem_map.mp hr
    exact tracing_passStep hfixed hcalls hv hi
      (Pass.rule_step cfg _ hv.sound hi.1 hi.2 pass) _
  decline := fun h => h.1
  restart := fun hv _ => hv.advanced.restarted
  finish := by
    intro s m v hv _
    have hcount : Session.Extends (v.session.setProgress m .done)
        (Optimizer.left m v.session) :=
      Session.extends_of_eq rfl rfl
    refine ⟨⟨(hv.traced.marked m .done).counted _, hv.closed⟩,
      (hv.extend.mark hv.fresh .done (by simp)).trans hcount, fun c hc => ?_⟩
    change (v.session.setProgress m .done).progressOf c = .inProgress at hc
    rw [Session.progressOf_setProgress] at hc
    split at hc
    · cases hc
    · next hcm => exact (hv.busyOnly c hc).resolve_left hcm
  cut := fun _ => trivial
  refuse := fun _ => trivial

end Tracing

end Bytecode
