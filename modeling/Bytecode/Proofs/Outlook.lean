import Mathlib.Algebra.BigOperators.Group.Finset.Basic
import Bytecode.Proofs.Ranking
import Bytecode.Proofs.Renaming
import Bytecode.Proofs.Tracing

/-!
# What becomes of methods

An outlook foretells what becomes of each method: whether its visit succeeds,
the form of its body then, and what its visit adds to the counts besides the
visits of callees.  A visit that begins where the outlook is right about all
methods that its calls lead to finds callees as foretold, whether they have been
visited before it or are visited on demand.

The main statement is `Visit.Watched.called`.
-/

namespace Bytecode

/-! ### What is counted -/

/-- What is counted in the course of a run. -/
inductive Counter where
  | methods
  | inlined
  | refused
  | fired (rule : String)
  deriving DecidableEq

/-- The count that is asked for. -/
def Stats.tally (x : Stats) : Counter → ℤ
  | .methods => x.methods
  | .inlined => x.inlined
  | .refused => x.refused
  | .fired rule => x.fired.count rule

/-- A change by a rule is counted under its name. -/
theorem Stats.tally_bump (x : Stats) (name : String) (k : Counter) :
    tally { x with fired := x.fired.bump name } k =
      x.tally k + if k = .fired name then 1 else 0 := by
  cases k with
  | fired rule =>
      simp only [tally, Tally.count_bump, Counter.fired.injEq]
      split <;> simp
  | _ => simp [tally]

/-! ### Outlooks -/

/-- What becomes of each method. -/
structure Outlook where
  methods : Finset MethodId
  /-- The visit of the method succeeds. -/
  fine : MethodId → Prop
  /-- The form of its body after the visit. -/
  form : MethodId → List (Opcode × (Operand ⊕ Option Nat)) × Body
  /-- What its visit adds to the counts, visits of callees apart. -/
  cost : MethodId → Counter → ℤ

open Inline (Reaches)

variable {σ τ : Type}

namespace Session

variable {s t : Session σ} {c m : MethodId} {p : Program} {o : Outlook}
  {cfg : InlineSettings}

/-- The body of a method reads as in `p` until the method is visited, and as
foretold when its visit is over. -/
structure Foretold (p : Program) (o : Outlook) (s : Session σ) (c : MethodId) :
    Prop where
  fresh : s.progressOf c = .notVisited → ∀ b, (p.method c).body = some b →
    s.program.form b = p.form b
  done : s.progressOf c = .done → o.fine c ∧ ∀ b, (p.method c).body = some b →
    s.program.form b = o.form c

/-- A method in progress costs nothing any more. -/
theorem foretold_busy (h : s.progressOf c = .inProgress) :
    s.Foretold p o c := by
  constructor
  · rw [h]
    exact fun hno => by cases hno
  · rw [h]
    exact fun hno => by cases hno

/-- What is foretold depends on progress and forms only. -/
theorem Foretold.congr (h : s.Foretold p o c)
    (hprogress : t.progressOf c = s.progressOf c)
    (hform : ∀ b, (p.method c).body = some b →
      t.program.form b = s.program.form b) : t.Foretold p o c where
  fresh := by
    intro hfresh b hb
    rw [hform b hb]
    exact h.fresh (hprogress ▸ hfresh) b hb
  done := by
    intro hdone
    obtain ⟨hfine, hdone⟩ := h.done (hprogress ▸ hdone)
    refine ⟨hfine, fun b hb => ?_⟩
    rw [hform b hb]
    exact hdone b hb

/-- Only `m` and methods that calls of `m` lead to have come further. -/
def MarksBelow (cfg : InlineSettings) (p : Program) (m : MethodId)
    (s t : Session σ) : Prop :=
  ∀ c, t.progressOf c ≠ s.progressOf c → c = m ∨ Reaches cfg p m c

theorem marksBelow_refl (s : Session σ) : s.MarksBelow cfg p m s :=
  fun _ hc => absurd rfl hc

/-- A method may be marked on the way. -/
theorem MarksBelow.mark (h : s.MarksBelow cfg p m t) (x : Progress) :
    s.MarksBelow cfg p m (t.setProgress m x) := by
  intro c hc
  rw [progressOf_setProgress] at hc
  split at hc
  · next hcm => exact Or.inl hcm
  · exact h c hc

/-- A callee has been visited. -/
theorem MarksBelow.nested {r : Session σ} (h : r.MarksBelow cfg p m s)
    (ht : s.MarksBelow cfg p c t) (hc : Reaches cfg p m c) :
    r.MarksBelow cfg p m t := by
  intro d hd
  by_cases hsame : t.progressOf d = s.progressOf d
  · exact h d (by rwa [← hsame])
  · rcases ht d hsame with rfl | hcd
    · exact Or.inr hc
    · exact Or.inr (hc.trans hcd)

/-- What has been counted besides what has been foretold for the visits that are
over. -/
def excess (o : Outlook) (s : Session σ) (k : Counter) : ℤ :=
  s.stats.tally k - ∑ c ∈ o.methods with s.progressOf c = .done, o.cost c k

/-- Without progress only counting changes the excess. -/
theorem excess_of_progress (h : t.progress = s.progress) (k : Counter) :
    t.excess o k - s.excess o k = t.stats.tally k - s.stats.tally k := by
  have hsame : ∀ c, t.progressOf c = s.progressOf c := fun c => by
    rw [progressOf, progressOf, h]
  rw [excess, excess]
  simp only [hsame]
  omega

/-- Beginning a visit changes no excess. -/
theorem excess_started (h : s.progressOf m = .notVisited) (k : Counter) :
    (s.setProgress m .inProgress).excess o k = s.excess o k := by
  rw [excess, excess]
  congr 2
  refine Finset.filter_congr fun c _ => ?_
  rw [progressOf_setProgress]
  split
  · next hcm =>
      rw [hcm, h]
      simp
  · rfl

/-- Finishing a method lowers the excess by its cost. -/
theorem excess_done (hm : m ∈ o.methods) (h : s.progressOf m ≠ .done)
    (k : Counter) :
    (s.setProgress m .done).excess o k = s.excess o k - o.cost m k := by
  have hinsert :
      (o.methods.filter fun c => (s.setProgress m .done).progressOf c = .done) =
      insert m (o.methods.filter fun c => s.progressOf c = .done) := by
    ext c
    rw [Finset.mem_insert, Finset.mem_filter, Finset.mem_filter,
      progressOf_setProgress]
    by_cases hcm : c = m
    · simp [hcm, hm]
    · simp [hcm]
  have hout : m ∉ o.methods.filter fun c => s.progressOf c = .done :=
    fun hmem => h (Finset.mem_filter.mp hmem).2
  have hstats : (s.setProgress m .done).stats = s.stats := rfl
  rw [excess, excess, hinsert, Finset.sum_insert hout, hstats]
  omega

end Session

namespace Outlook

/-- What a visit of `m` that begins in session `s` comes to, if the outlook is
right. -/
def Foresees (o : Outlook) (cfg : InlineSettings) (p : Program) (m : MethodId)
    (s : Session σ) : Except Fault Unit × Session σ → Prop
  | (.ok _, t) => o.fine m ∧ (∀ c, t.Foretold p o c) ∧ (∀ k,
      t.excess o k = s.excess o k) ∧ s.MarksBelow cfg p m t
  | (.error e, _) => e = .outOfFuel ∨ ¬ o.fine m

/-- The outlook is right about visits of `m`, whenever they begin. -/
def Predicts (o : Outlook) (cfg : InlineSettings) (passes : List Pass)
    (p : Program) (m : MethodId) : Prop :=
  ∀ {σ : Type} (n : Nat) (s : Session σ), (tracing cfg p).ready s →
    (∀ c, s.Foretold p o c) →
    (∀ c, c = m ∨ Reaches cfg p m c → s.progressOf c ≠ .inProgress) →
    o.Foresees cfg p m s ((Optimizer.ofPasses cfg passes).optimize n (some m) s)

end Outlook

/-- A first visit of `m` may begin in session `s`, which is as foretold: the
outlook is right about the methods that calls of `m` lead to, none of which is
in progress. -/
structure Session.Clear (cfg : InlineSettings) (passes : List Pass)
    (p : Program) (o : Outlook) (m : MethodId) (s : Session σ) : Prop where
  fixed : cfg.policy.Fixed
  acyclic : ∀ c, ¬ Reaches cfg p c c
  ready : (tracing cfg p).ready s
  foretold : ∀ c, s.Foretold p o c
  fresh : s.progressOf m = .notVisited
  predicts : ∀ c, Reaches cfg p m c → o.Predicts cfg passes p c
  free : ∀ c, Reaches cfg p m c → s.progressOf c ≠ .inProgress

namespace Visit

variable {s t : Session σ} {v v' : Visit σ} {m c : MethodId} {b : BodyId}
  {i anchor : InstrId} {p : Program} {o : Outlook} {cfg : InlineSettings}
  {passes : List Pass} {k : Counter}

/-- The visit of `m`, begun in session `s`, is going on, and other methods are
as foretold. -/
structure Watched (cfg : InlineSettings) (p : Program) (o : Outlook)
    (s : Session σ) (m : MethodId) (v : Visit σ) :
    Prop extends OnTrack cfg p s m v where
  foretold : ∀ c, v.session.Foretold p o c
  marked : s.MarksBelow cfg p m v.session

/-- An instruction is on offer, and the anchor is the one in front of it. -/
structure Poised (v : Visit σ) (i : InstrId) : Prop where
  offers : v.Offers i
  anchor : v.editor.anchor = v.session.program.prev i

/-- The program of a watched visit is well linked. -/
theorem Watched.linked (h : v.Watched cfg p o s m) :
    v.session.program.WellLinked := h.sound.linked

/-- A watched visit works on the body of its method. -/
theorem Watched.bodyOf (h : v.Watched cfg p o s m) :
    (p.method m).body = some v.editor.body := by
  rw [← h.traced.method]
  exact h.body

/-- That body is closed. -/
theorem Watched.closedBody (h : v.Watched cfg p o s m) :
    v.session.program.Closed v.editor.body :=
  h.closed m _ h.body

/-- So are all others. -/
theorem Watched.closedOf (h : v.Watched cfg p o s m)
    (hb : (p.method c).body = some b) : v.session.program.Closed b := by
  rw [← h.traced.method] at hb
  exact h.closed c b hb

/-- A visit begins to be watched. -/
theorem watched_start (hs : s.Clear cfg passes p o m)
    (hb : (p.method m).body = some b) (hsize : s.program.size b ≠ 0) :
    Watched cfg p o s m ⟨s.setProgress m .inProgress,
      { method := m, body := b }⟩ := by
  rw [← hs.ready.1.method] at hb
  refine ⟨(tracing_obeyed hs.fixed passes).start hs.ready hs.fresh hb hsize,
    fun c => ?_, (Session.marksBelow_refl s).mark _⟩
  by_cases hcm : c = m
  · apply Session.foretold_busy
    rw [Session.progressOf_setProgress, if_pos hcm]
  · refine (hs.foretold c).congr ?_ fun _ _ => rfl
    rw [Session.progressOf_setProgress, if_neg hcm]

/-- A watched visit that moves on is watched. -/
theorem Watched.advanced (h : v.Watched cfg p o s m) :
    v.advanced.Watched cfg p o s m :=
  ⟨h.toOnTrack.advanced, h.foretold, h.marked⟩

/-- A watched visit that begins again is watched. -/
theorem Watched.restarted (h : v.Watched cfg p o s m) :
    v.restarted.Watched cfg p o s m :=
  ⟨h.toOnTrack.restarted, h.foretold, h.marked⟩

/-- A visit is watched as long as nothing is edited. -/
theorem Watched.untouched {e : Editing} (h : v.Watched cfg p o s m)
    (he : v.editing.Untouched e) : (v.setEditing e).Watched cfg p o s m := by
  have hsession : (v.setEditing e).session = v.session :=
    setEditing_session he.program
  refine ⟨h.toOnTrack.untouched he, ?_, ?_⟩
  · rw [hsession]
    exact h.foretold
  · rw [hsession]
    exact h.marked

/-- A visit is poised as long as nothing is edited. -/
theorem Poised.untouched {e : Editing} (h : v.Poised i)
    (he : v.editing.Untouched e) : (v.setEditing e).Poised i := by
  refine ⟨h.offers.untouched he, ?_⟩
  rw [setEditing_session he.program]
  change e.editor.anchor = _
  rw [he.editor]
  exact h.anchor

/-- A policy that is asked leaves a visit watched. -/
theorem Watched.asked (h : v.Watched cfg p o s m) (hfixed : cfg.policy.Fixed)
    (c : MethodId) (stats : Stats) : Watched cfg p o s m { v with
      session := { Inline.consulted cfg c v.session with stats } } :=
  ⟨h.toOnTrack.asked hfixed c stats,
    fun d => (h.foretold d).congr rfl fun _ _ => rfl, h.marked⟩

/-- A poised visit has an anchor. -/
theorem Poised.anchored (h : v.Poised i) (hp : v.session.program.WellLinked) :
    v.editing.Anchored := by
  intro k hk
  have hk' : v.session.program.prev i = some k := h.anchor.symm.trans hk
  rw [hp.prev h.offers.2] at hk'
  refine ⟨mem_of_elemBefore? hk', fun htarget => ?_⟩
  have hik : i = k := Option.some.inj (h.offers.1.symm.trans htarget)
  exact elemBefore?_ne (hp.nodup_code _) hk' h.offers.2 hik.symm

/-- The body has been changed, and other methods have been left alone. -/
theorem Watched.fired (h : v.Watched cfg p o s m) (he :
      v.editing.Evolves v'.editing) (hsession : v'.session = { v.session with
      program := v'.session.program, stats := v'.session.stats })
    {name : String} (htrack : (v'.taken name).rewound.OnTrack cfg p s m) :
    (v'.taken name).rewound.Watched cfg p o s m := by
  have hprogress : ∀ c, (v'.taken name).rewound.session.progressOf c =
      v.session.progressOf c := by
    intro c
    change v'.session.progressOf c = _
    rw [hsession]
    rfl
  refine ⟨htrack, fun c => ?_, fun c hc => h.marked c (hprogress c ▸ hc)⟩
  by_cases hcm : c = m
  · subst hcm
    apply Session.foretold_busy
    rw [hprogress, h.busy]
  · refine (h.foretold c).congr (hprogress c) fun b hb => ?_
    have hbb : b ≠ v.editor.body := by
      rintro rfl
      rw [← h.traced.method] at hb
      exact hcm (h.unshared m c _ h.body hb)
    exact Program.form_agree h.linked he.sound.linked
      (he.changed.agreeOn h.linked hbb)

/-- The visit of the callee `c` has led to session `t`, and the visit of the
caller goes on. -/
structure Returned (cfg : InlineSettings) (p : Program) (o : Outlook)
    (s : Session σ) (m : MethodId) (v : Visit σ) (i : InstrId) (c : MethodId)
    (t : Session σ) : Prop where
  fine : o.fine c
  watched : Watched cfg p o s m { v with session := t }
  extend : v.session.Extends t
  done : t.progressOf c = .done
  excess : ∀ k, t.excess o k = v.session.excess o k
  callee : Inline.callee? cfg (Visit.editing { v with session := t }) i = some c
  next : t.program.next i = v.session.program.next i

/-- **A callee's visit in between** comes to what is foretold. -/
theorem Watched.called (h : v.Watched cfg p o s m)
    (hs : s.Clear cfg passes p o m) (hi : v.Offers i)
    (hcallee : Inline.callee? cfg v.editing i = some c)
    (hyes : cfg.policy 0 p (some c) = true) (n : Nat) :
    match (Optimizer.ofPasses cfg passes).optimize n (some c)
    (Inline.consulted cfg c v.session) with
    | (.ok _, t) => Returned cfg p o s m v i c t
    | (.error e, _) => e = .outOfFuel ∨ ¬ o.fine c := by
  have hreach : Reaches cfg p m c := h.traced.traced m _ h.body c
    (Inline.callee_mem_callees hi.2 (Inline.calleeOf_of_callee? hcallee)) hyes
  have hfree : ∀ d, d = c ∨ Reaches cfg p c d →
      v.session.progressOf d ≠ .inProgress := by
    intro d hd hbusy
    have hmd : Reaches cfg p m d := by
      rcases hd with rfl | hd
      · exact hreach
      · exact hreach.trans hd
    rcases h.busyOnly d hbusy with rfl | hbusy
    · exact hs.acyclic _ hmd
    · exact hs.free d hmd hbusy
  have hasked := h.asked hs.fixed c v.session.stats
  have hforesees := hs.predicts c hreach n (Inline.consulted cfg c v.session)
    ⟨hasked.traced, hasked.closed⟩ hasked.foretold hfree
  generalize hr : (Optimizer.ofPasses cfg passes).optimize n (some c)
    (Inline.consulted cfg c v.session) = r at hforesees
  obtain ⟨e | ⟨⟩, t⟩ := r
  · exact hforesees
  · obtain ⟨hfine, hforetold, hexcess, hmarks⟩ := hforesees
    obtain ⟨htrack, hext⟩ := tracing_call hs.fixed
      ((tracing_obeyed hs.fixed passes).calls n) h.toOnTrack hr
    refine ⟨hfine, ⟨htrack, hforetold, h.marked.nested hmarks hreach⟩, hext, ?_,
      hexcess, ?_, ?_⟩
    · exact Optimizer.optimize_done hr (hfree c (Or.inl rfl))
    · have hinstr : t.program.instr i = v.session.program.instr i :=
        (h.agree hext).instr_eq h.linked hi.2
      rw [← hcallee, Inline.callee?, Inline.callee?]
      simp only [editing, hinstr]
      rfl
    · exact h.next_nested htrack.sound.linked hext hi

/-- No callee that the policy accepts calls itself. -/
theorem Watched.callsItself (h : v.Watched cfg p o s m)
    (hs : s.Clear cfg passes p o m) (hyes : cfg.policy 0 p (some c) = true)
    (hb : (v.session.program.method c).body = some b) :
    Inline.callsItself cfg v.session.program c b = false := by
  by_contra hself
  have hmem := Inline.callsItself_iff.mp (Bool.not_eq_false _ ▸ hself)
  exact hs.acyclic c (h.traced.traced c b hb c hmem hyes)

/-- The call of `c` on offer has been taken in, and the visit goes on. -/
structure TookIn (cfg : InlineSettings) (p : Program) (s : Session σ)
    (m : MethodId) (i : InstrId) (b : BodyId) (anchor : InstrId)
    (v v' : Visit σ) : Prop where
  ok : Inline.takeIn i b anchor v = (.ok (), v')
  replaces : Inline.Replaces i b anchor v.editing v'.editing
  session : v'.session = { v.session with
    program := v'.session.program, stats := v'.session.stats }
  stats : v'.session.stats =
    { v.session.stats with inlined := v.session.stats.inlined + 1 }
  spliced : ∃ nop inner a, Inline.Spliced v.editor.body b i anchor nop inner a
    v.session.program v'.session.program
  track : ∀ name, (v'.taken name).rewound.OnTrack cfg p s m

/-- Taking in goes through, or stops at an access without a form. -/
theorem Watched.takeIn (h : v.Watched cfg p o s m) (hi : v.Offers i)
    (hcallee : Inline.callee? cfg v.editing i = some c)
    (hyes : cfg.policy 0 p (some c) = true)
    (hnext : v.session.program.next i = some anchor)
    (hbody : (p.method c).body = some b) :
    (∃ v', Inline.takeIn i b anchor v = (.error .absent, v') ∧
      Inline.Blocked v.session.program v.editor.body b) ∨
    ∃ v', TookIn cfg p s m i b anchor v v' := by
  have hcb : (v.session.program.method c).body = some b := by
    rwa [h.traced.method]
  have hother : b ≠ v.editor.body := by
    rintro rfl
    have hcm := h.unshared m c _ h.body hcb
    exact Inline.callee?_ne hcallee (hcm.trans h.method.symm)
  obtain ⟨v', heq, hsession⟩ :=
    Inline.takeIn_replaces (b := b) h.sound hi.1 hi.2 hnext
  rcases heq with ⟨hstop, hblocked⟩ | ⟨hok, hreplaces⟩
  · exact Or.inl ⟨v', hstop,
      (Inline.blocked_renewed h.linked hi.2 hother).mp hblocked⟩
  · refine Or.inr
      ⟨v', hok, hreplaces, hsession, Inline.stats_takeIn hok, ?_, ?_⟩
    · exact hreplaces.spliced h.sound hi.2 hnext hother h.closedBody
        (h.closedOf hbody)
    · exact fun name =>
        tracing_taken h.toOnTrack hi (Inline.calleeOf_of_callee? hcallee)
        hyes hnext hother hcb hreplaces hsession name

end Visit

end Bytecode
