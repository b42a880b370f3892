import Bytecode.Proofs.Contents
import Bytecode.Proofs.Settling

/-!
# The rank of a visit

What brings a visit to its end is told in three numbers, in this order: the
methods that calls can lead to and that have not been visited, a load that goes
down with every call that is taken in, and the weight of the body.  The load is
left open here. A call settles if its visit has such a load, whatever the visits
of callees do: they come first in the rank, and there are only finitely many
methods to visit.
-/

namespace Bytecode

variable {σ : Type}

/-! ### Methods that are still to be visited -/

theorem countP_lt_of_imp {α : Type} {l : List α} {f g : α → Bool}
    (h : ∀ x ∈ l, f x → g x) {x : α} (hx : x ∈ l) (hf : f x = false)
    (hg : g x = true) : l.countP f < l.countP g := by
  obtain ⟨pre, post, rfl⟩ := List.append_of_mem hx
  have hpre :=
    List.countP_mono_left (l := pre) fun y hy => h y (List.mem_append_left _ hy)
  have hpost := List.countP_mono_left (l := post) fun y hy =>
    h y (List.mem_append_right _ (List.mem_cons_of_mem _ hy))
  rw [List.countP_append, List.countP_append,
    List.countP_cons_of_neg (by simp [hf]), List.countP_cons_of_pos hg]
  omega

namespace Session

variable {s s' : Session σ} {methods : List MethodId} {c m : MethodId}

/-- How many of the given methods have not been visited. -/
def unvisited (methods : List MethodId) (s : Session σ) : Nat :=
  methods.countP fun m => s.progressOf m = .notVisited

theorem Extends.notVisited (h : s.Extends s')
    (hc : s'.progressOf c = .notVisited) : s.progressOf c = .notVisited := by
  by_contra hne
  rw [h.progress c hne] at hc
  exact hne hc

/-- A visit of one of the methods leaves fewer of them. -/
theorem Extends.unvisited_lt (h : s.Extends s') (hc : c ∈ methods)
    (hs : s.progressOf c = .notVisited) (hs' : s'.progressOf c ≠ .notVisited) :
    s'.unvisited methods < s.unvisited methods := by
  apply countP_lt_of_imp _ hc (by simpa using hs') (by simpa using hs)
  intro d _ hd
  simpa using h.notVisited (by simpa using hd)

theorem unvisited_congr (h : s'.progress = s.progress) :
    s'.unvisited methods = s.unvisited methods :=
  List.countP_congr fun m _ => by rw [progressOf, progressOf, h]

theorem extends_started (hm : s.progressOf m = .notVisited) :
    s.Extends (s.setProgress m .inProgress) :=
  (Extends.refl s).mark hm _ (by simp)

end Session

theorem Visit.Within.unvisited_le {s : Session σ} {m : MethodId} {v : Visit σ}
    (h : v.Within s m) (methods : List MethodId) : v.session.unvisited methods ≤
    (s.setProgress m .inProgress).unvisited methods := by
  apply List.countP_mono_left
  intro c _ hc
  have hc : v.session.progressOf c = .notVisited := by simpa using hc
  have hcm : c ≠ m := by
    rintro rfl
    rw [h.busy] at hc
    cases hc
  simpa [Session.progressOf_setProgress, hcm] using h.extend.notVisited hc

/-- A call that comes back has found the method visited, or has visited it. -/
theorem Optimizer.optimize_ok {o : Optimizer σ} {n : Nat} {m : MethodId}
    {s s' : Session σ} (h : o.optimize n (some m) s = (.ok (), s')) :
    s.progressOf m ≠ .notVisited ∧ s' = s ∨
    s.progressOf m = .notVisited ∧ s'.progressOf m = .done := by
  cases n with
  | zero => cases h
  | succ n =>
      rw [optimize_succ] at h
      split at h
      · next hm =>
          refine Or.inr ⟨hm, ?_⟩
          split at h
          · cases h
            rw [Session.progressOf_setProgress, if_pos rfl]
          · split at h
            · cases h
              rw [Session.progressOf_setProgress, if_pos rfl]
            · split at h
              · cases h
              · next s₁ _ =>
                  cases h
                  change (s₁.setProgress m .done).progressOf m = .done
                  rw [Session.progressOf_setProgress, if_pos rfl]
      · next hm =>
          cases h
          exact Or.inl ⟨hm, rfl⟩

/-- A method that has been visited and is not in progress is done. -/
theorem Session.done_of {s : Session σ} {m : MethodId}
    (h : s.progressOf m ≠ .notVisited) (h' : s.progressOf m ≠ .inProgress) :
    s.progressOf m = .done := by
  cases hstage : s.progressOf m with
  | notVisited => exact absurd hstage h
  | inProgress => exact absurd hstage h'
  | done => rfl

/-- A call that comes back has seen to it that the method is done, unless its
visit is going on. -/
theorem Optimizer.optimize_done {o : Optimizer σ} {n : Nat} {m : MethodId}
    {s s' : Session σ} (h : o.optimize n (some m) s = (.ok (), s'))
    (hm : s.progressOf m ≠ .inProgress) : s'.progressOf m = .done := by
  rcases optimize_ok h with ⟨hvisited, rfl⟩ | ⟨-, hdone⟩
  · exact Session.done_of hvisited hm
  · exact hdone

namespace Law

variable {l : Law σ} {ω : Type} {lt : ω → ω → Prop} {bad : Fault → Prop}

/-- Calls of the given methods settle while at most `u` of them have not been
visited. -/
def SettlesUpTo (l : Law σ) (o : Optimizer σ) (bad : Fault → Prop)
    (methods : List MethodId) (u : Nat) : Prop :=
  ∀ c ∈ methods, ∀ t, l.ready t → t.unvisited methods ≤ u →
    Settles (fun _ _ => True) bad fun n => o.optimize n (some c) t

/-- **All calls settle** if visits descend wherever the calls of callees
settle. -/
theorem settles_calls {o : Optimizer σ} {methods : List MethodId}
    (h : l.Obeyed o) {rank : Visit σ → ω} (hd : ∀ {u s m},
      l.SettlesUpTo o bad methods u → l.ready s → s.progressOf m = .notVisited →
      (s.setProgress m .inProgress).unvisited methods ≤ u →
      l.Descends o s m lt rank bad) {s : Session σ} (hs : l.ready s)
    (m : MethodId) :
    Settles (fun _ _ => True) bad fun n => o.optimize n (some m) s := by
  have hall : ∀ u, l.SettlesUpTo o bad methods u := by
    intro u
    have hfewer : ∀ {c : MethodId} {t : Session σ}, c ∈ methods →
        t.progressOf c = .notVisited →
        (t.setProgress c .inProgress).unvisited methods <
        t.unvisited methods := by
      intro c t hc hnew
      apply (Session.extends_started hnew).unvisited_lt hc hnew
      rw [Session.progressOf_setProgress, if_pos rfl]
      simp
    induction u with
    | zero =>
        intro c hc t ht hu
        have hvisited : t.progressOf c = .notVisited →
            l.Descends o t c lt rank bad := by
          intro hnew
          exact absurd ((hfewer hc hnew).trans_le hu) (Nat.not_lt_zero _)
        exact settles_optimize h ht hvisited
    | succ u ih =>
        intro c hc t ht hu
        exact settles_optimize h ht fun hnew =>
          hd ih ht hnew (Nat.le_of_lt_succ ((hfewer hc hnew).trans_le hu))
  exact settles_optimize h hs fun hnew => hd (hall _) hs hnew le_rfl

/-! ### Loads -/

/-- The order of the methods to visit, the load and the weight. -/
def Below (lt : ω → ω → Prop) :
    Nat × ω × Nat × Nat × Nat → Nat × ω × Nat × Nat × Nat → Prop :=
  Prod.Lex (· < ·) (Prod.Lex lt Program.Lighter)

theorem wellFounded_below (hwf : WellFounded lt) : WellFounded (Below lt) :=
  WellFounded.prod_lex wellFounded_lt
    (WellFounded.prod_lex hwf Program.wellFounded_lighter)

/-- The call of `c` on offer is about to be taken in, `c` having been
visited. -/
structure Taking (cfg : InlineSettings) (v : Visit σ) (i : InstrId)
    (c : MethodId) (b : BodyId) (anchor : InstrId) : Prop where
  offers : v.Offers i
  callee : Inline.callee? cfg v.editing i = some c
  next : v.session.program.next i = some anchor
  budget : Inline.withinBudget cfg v.editor = true
  visited : v.session.progressOf c ≠ .notVisited
  open_ : ¬ Inline.Spared cfg c v.session
  body : (v.session.program.method c).body = some b

/-- A load of the visits of `m`: what rules do besides taking calls in does not
add to it, and a call that is taken in lowers it. -/
structure Loads (l : Law σ) (cfg : InlineSettings) (passes : List Pass)
    (s : Session σ) (m : MethodId) (lt : ω → ω → Prop) (load : Visit σ → ω) :
    Prop where
  wf : WellFounded lt
  within : ∀ {p v}, l.during s m p v → v.Within s m
  offers : ∀ {changed rest v}, l.during s m (.offering changed rest) v →
    ∃ i, v.Offers i
  /-- The callee can be visited from here. -/
  ready : ∀ {changed rest v c i}, l.during s m (.offering changed rest) v →
    Inline.callee? cfg v.editing i = some c →
    l.ready (Inline.consulted cfg c v.session)
  unmoved : ∀ {v v' : Visit σ}, v'.session.program = v.session.program →
    v'.session.progress = v.session.progress →
    v'.session.memo = v.session.memo → v'.editor.body = v.editor.body →
    v'.editor.inlined = v.editor.inlined → load v' = load v
  effect : ∀ {changed rest v i pass e}, l.during s m (.offering changed rest)
    v → v.Offers i → v.editing.Changed e → v.editing.Effect i pass e.program →
    lt (load (v.setEditing e)) (load v) ∨ load (v.setEditing e) = load v
  asked : ∀ {changed rest v i c}, l.during s m (.offering changed rest) v →
    Inline.callee? cfg v.editing i = some c →
    lt (load { v with session := Inline.consulted cfg c v.session }) (load v) ∨
      load { v with session := Inline.consulted cfg c v.session } = load v
  taken : ∀ {changed rest v i c b anchor v'}, .inlineFunctionCall ∈ passes →
    l.during s m (.offering changed rest) v → Taking cfg { v with
      session := Inline.consulted cfg c v.session } i c b anchor →
    Inline.approved cfg c v.session = true →
    Inline.Replaces i b anchor v.editing (Visit.editing v') →
    v'.session.progress = v.session.progress → v'.session.memo =
    (Inline.consulted cfg c v.session).memo → lt (load v') (load v)

section Descends

variable {cfg : InlineSettings} {passes : List Pass} {s : Session σ}
  {m : MethodId} {load : Visit σ → ω} {methods : List MethodId} {u : Nat}
  {changed : Bool} {rest : List (Rule σ)} {v : Visit σ} {i : InstrId}

/-- The rank of a visit. -/
def rankOf (methods : List MethodId) (load : Visit σ → ω) (v : Visit σ) :
    Nat × ω × Nat × Nat × Nat :=
  (v.session.unvisited methods, load v, v.session.program.weight v.editor.body)

/-- What is to be shown of a rule that has come back. -/
def Lower (lt : ω → ω → Prop) (methods : List MethodId) (load : Visit σ → ω)
    (v v' : Visit σ) : Prop :=
  Below lt (rankOf methods load v') (rankOf methods load v) ∨
    rankOf methods load v' = rankOf methods load v ∧ v'.ahead = v.ahead ∧
    v'.editor.dirty = false

theorem lower_of_unvisited {v' : Visit σ}
    (h : v'.session.unvisited methods < v.session.unvisited methods) :
    Lower lt methods load v v' :=
  Or.inl (Prod.Lex.left _ _ h)

/-- Nothing but the memo and the counts has changed. -/
theorem lower_of_quiet {v' : Visit σ}
    (hload : lt (load v') (load v) ∨ load v' = load v)
    (hprogram : v'.session.program = v.session.program)
    (hprogress : v'.session.progress = v.session.progress)
    (hbody : v'.editor.body = v.editor.body)
    (hpos : v'.editor.pos = v.editor.pos) (hclean : v'.editor.dirty = false) :
    Lower lt methods load v v' := by
  have hunvisited :
      v'.session.unvisited methods = v.session.unvisited methods :=
    Session.unvisited_congr hprogress
  have hahead : v'.ahead = v.ahead := by
    refine Visit.ahead_congr ?_ hpos
    change v'.session.program.code v'.editor.body =
      v.session.program.code v.editor.body
    rw [hprogram, hbody]
  rw [Lower, rankOf, rankOf, hunvisited, hprogram, hbody]
  rcases hload with hload | hload
  · exact Or.inl (Prod.Lex.right _ (Prod.Lex.left _ _ hload))
  · exact Or.inr ⟨by rw [hload], hahead, hclean⟩

theorem Loads.effect_lower (hl : l.Loads cfg passes s m lt load)
    (hv : l.during s m (.offering changed rest) v) (hi : v.Offers i)
    {e : Editing} {pass : Pass} (he : v.editing.Changed e)
    (heffect : v.editing.Effect i pass e.program) :
    Lower lt methods load v (v.setEditing e) := by
  have hlighter := heffect.lighter (hl.within hv).sound hi.2
  have hweight : Program.Lighter (e.program.weight e.editor.body)
      (v.editing.program.weight v.editing.editor.body) := by
    rw [he.body]
    exact hlighter
  left
  rw [rankOf, rankOf]
  apply Prod.Lex.right
  rcases hl.effect hv hi he heffect with hload | hload
  · exact Prod.Lex.left _ _ hload
  · rw [hload]
    exact Prod.Lex.right _ hweight

theorem callee_mem (hmethods : ∀ ref c, cfg.resolve ref = some c → c ∈ methods)
    {e : Editing} {c : MethodId} (hcallee : Inline.callee? cfg e i = some c) :
    c ∈ methods := by
  rw [Inline.callee?] at hcallee
  split at hcallee
  · exact hmethods _ _ (Option.filter_eq_some_iff.mp hcallee).1
  · cases hcallee

variable {o : Optimizer σ} {n : Nat} (hl : l.Loads cfg passes s m lt load)
  (hframe : ∀ n, frame.Calls (o.optimize n))
  (hmethods : ∀ ref c, cfg.resolve ref = some c → c ∈ methods)

include hl hframe hmethods

/-- The callee's visit has visited a method for the first time, or has changed
nothing. -/
theorem Loads.called_lower (hv : l.during s m (.offering changed rest) v)
    {c : MethodId} (hcallee : Inline.callee? cfg v.editing i = some c)
    {t : Session σ} (hopt : o.optimize n
      (some c) (Inline.consulted cfg c v.session) = (.ok (), t)) :
    t.unvisited methods < v.session.unvisited methods ∨ v.session.progressOf c ≠
    .notVisited ∧ t = Inline.consulted cfg c v.session := by
  obtain ⟨-, hext⟩ := nested_call (hframe n) (hl.within hv) hopt
  rcases Optimizer.optimize_ok hopt with ⟨hvisited, rfl⟩ | ⟨hnew, hdone⟩
  · exact Or.inr ⟨hvisited, rfl⟩
  · exact Or.inl (hext.unvisited_lt (callee_mem hmethods hcallee) hnew
      (by rw [hdone]; simp))

/-- An application of the inliner that comes back has lowered the rank, or
changed nothing that matters; only the callee's visit can run out of fuel. -/
theorem Loads.inlines_lower (hinline : .inlineFunctionCall ∈ passes)
    (hv : l.during s m (.offering changed rest) v) (hi : v.Offers i)
    (hfuel : ∀ c, Inline.callee? cfg v.editing i = some c → (o.optimize n
      (some c) (Inline.consulted cfg c v.session)).1 ≠ .error .outOfFuel)
    {r : Except Fault Unit × Visit σ}
    (hr : Inline.Inlines cfg (o.optimize n) v i r) :
    (∀ a v', r = (.ok a, v') → Lower lt methods load v v') ∧
    ∀ e, r.1 = .error e → e ≠ .outOfFuel := by
  have hwithin := hl.within hv
  have hconsulted : ∀ {c} (stats : Stats),
      Inline.callee? cfg v.editing i = some c → Lower lt methods load v { v with
        session := { Inline.consulted cfg c v.session with stats } } := by
    intro c stats hcallee
    refine lower_of_quiet ?_ rfl rfl rfl rfl hwithin.clean
    have hstats : load { v with
        session := { Inline.consulted cfg c v.session with stats } } =
        load { v with session := Inline.consulted cfg c v.session } :=
      hl.unmoved rfl rfl rfl rfl rfl
    rw [hstats]
    exact hl.asked hv hcallee
  have hback : ∀ {w : Visit σ}, Lower lt methods load v w → (∀ (a : Unit) v',
      ((.ok (), w) : Except Fault Unit × Visit σ) = (.ok a, v') →
      Lower lt methods load v v') ∧
      ∀ e, (.ok () : Except Fault Unit) = .error e → e ≠ .outOfFuel := by
    intro w hw
    exact ⟨fun a v' heq => (by cases heq; exact hw), fun e he => (by cases he)⟩
  cases hr with
  | none => exact hback (Or.inr ⟨rfl, rfl, hwithin.clean⟩)
  | declined stats hcallee => exact hback (hconsulted stats hcallee)
  | stopped hcallee hopt =>
      refine ⟨fun a v' heq => (by cases heq), fun e he => ?_⟩
      rintro rfl
      cases he
      exact hfuel _ hcallee (by rw [hopt])
  | spared hcallee hopt =>
      apply hback
      rcases hl.called_lower hframe hmethods hv hcallee hopt with hlow
        | ⟨-, rfl⟩
      · exact lower_of_unvisited hlow
      · exact hconsulted _ hcallee
  | @takenIn c t anchor b hcallee hyes hnext hbudget hopt hspared hbody =>
      obtain ⟨ht, hext⟩ := nested_call (hframe n) hwithin hopt
      obtain ⟨hv₁, hi₁, hnext₁, -⟩ :=
        hwithin.taking hi hcallee hnext ht hext hbody
      obtain ⟨v₁, heq, hsession⟩ :=
        Inline.takeIn_replaces hv₁.sound hi₁.1 hi₁.2 hnext₁
      rcases heq with ⟨hstop, -⟩ | ⟨hgo, hreplaces⟩
      · rw [hstop]
        exact ⟨fun a v' heq => (by cases heq), fun e he => (by cases he; simp)⟩
      · rw [hgo]
        apply hback
        rcases hl.called_lower hframe hmethods hv hcallee hopt with hlow
          | ⟨hvisited, rfl⟩
        · apply lower_of_unvisited
          rw [hsession]
          exact hlow
        · left
          have htaken := hl.taken hinline hv ⟨hi₁, hcallee, hnext₁, hbudget,
            hvisited, hspared, hbody⟩
            hyes hreplaces (by rw [hsession]; rfl) (by rw [hsession])
          have hunvisited :
              v₁.session.unvisited methods = v.session.unvisited methods := by
            apply Session.unvisited_congr
            rw [hsession]
            rfl
          rw [rankOf, rankOf, hunvisited]
          exact Prod.Lex.right _ (Prod.Lex.left _ _ htaken)

/-- An application of the inliner settles if the visit of the callee does. -/
theorem Loads.inline_settles (hinline : .inlineFunctionCall ∈ passes)
    (hcalls : l.SettlesUpTo o (· ≠ .outOfFuel) methods u)
    (hv : l.during s m (.offering changed rest) v)
    (hu : v.session.unvisited methods ≤ u) (hi : v.Offers i) :
    Settles (fun _ v' => Lower lt methods load v v') (· ≠ .outOfFuel) fun n =>
    Inline.apply cfg (o.optimize n) v := by
  -- The fuel from which on the callee's visit, if there is one, gives the same
  -- answer.
  obtain ⟨n, hn⟩ : ∃ n, ∀ c, Inline.callee? cfg v.editing i = some c →
      (o.optimize n (some c) (Inline.consulted cfg c v.session)).1 ≠
      .error .outOfFuel ∧
      ∀ k, n ≤ k → o.optimize k (some c) (Inline.consulted cfg c v.session) =
      o.optimize n (some c) (Inline.consulted cfg c v.session) := by
    cases hcallee : Inline.callee? cfg v.editing i with
    | none => exact ⟨0, fun c hc => by cases hc⟩
    | some c =>
        obtain ⟨n, r, hn, -, hfail⟩ :=
          hcalls c (callee_mem hmethods hcallee) _ (hl.ready hv hcallee) hu
        refine ⟨n, fun c' hc' => ?_⟩
        cases hc'
        refine ⟨fun hfuel => ?_, fun k hk => (hn k hk).trans (hn n le_rfl).symm⟩
        rw [show o.optimize n (some c) _ = r from hn n le_rfl] at hfuel
        exact hfail _ hfuel rfl
  have hlower := hl.inlines_lower hframe hmethods hinline hv hi
    (fun c hc => (hn c hc).1) (Inline.apply_inlines hi.1)
  exact ⟨n, Inline.apply cfg (o.optimize n) v, fun k hk =>
    Inline.apply_congr hi.1 fun c hc => (hn c hc).2 k hk, hlower.1, hlower.2⟩

/-- **A load makes visits descend** as long as the visits of callees settle. -/
theorem Loads.descends (hrules : o.rules = passes.map (Pass.rule cfg))
    (hcalls : l.SettlesUpTo o (· ≠ .outOfFuel) methods u)
    (hu : (s.setProgress m .inProgress).unvisited methods ≤ u) :
    l.Descends o s m (Below lt) (rankOf methods load) (· ≠ .outOfFuel) where
  wf := wellFounded_below hl.wf
  failing := by
    intro c e he
    cases e with
    | outOfFuel => exact absurd rfl he
    | _ => simp [Fault.within]
  steady := fun hv => (hl.within hv).toSteady
  unmoved := by
    intro v v' hprogram hprogress hmemo hbody hinlined
    rw [rankOf, rankOf, Session.unvisited_congr hprogress, hprogram, hbody,
      hl.unmoved hprogram hprogress hmemo hbody hinlined]
  apply := by
    intro changed r rest v hr hv
    rw [hrules] at hr
    obtain ⟨pass, hpass, rfl⟩ := List.mem_map.mp hr
    obtain ⟨i, hi⟩ := hl.offers hv
    by_cases hinline : pass = .inlineFunctionCall
    · subst hinline
      exact hl.inline_settles hframe hmethods hpass hcalls hv
        (((hl.within hv).unvisited_le methods).trans hu) hi
    · have halone :=
        fun n => Pass.rule_alone cfg hinline (o.optimize n) (o.optimize 0) v
      have hstep :=
        Pass.rule_step cfg (o.optimize 0) (hl.within hv).sound hi.1 hi.2 pass
      generalize (pass.rule cfg).apply _ v = r at hstep halone
      cases hstep with
      | @quiet _ e he =>
          have hinlined : e.editor.inlined = v.editing.editor.inlined :=
            he.edited.inlined
          refine settles_of_eq halone
            (lower_of_quiet ?_ he.program rfl he.edited.body ?_ ?_)
          · exact Or.inr (hl.unmoved he.program rfl rfl he.edited.body hinlined)
          · change e.editor.pos = v.editing.editor.pos
            rw [he.editor]
          · exact ((hl.within hv).toSteady.untouched he).clean
      | fires he heffect =>
          exact settles_of_eq halone (hl.effect_lower hv hi he heffect)
      | inlines => exact absurd rfl hinline

end Descends

end Law

end Bytecode
