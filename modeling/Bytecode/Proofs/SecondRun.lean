import Bytecode.Proofs.Leaving
import Bytecode.Proofs.NeverFails
import Bytecode.Proofs.Termination

/-!
# A second run

Where all passes are idle in all bodies and no call is left that could be taken
in, a run comes to its end and changes nothing.  A first run leaves a program
like that, unless two of its methods call each other: while one of them is in
progress, a call of it that has got into the other is passed over, and whether
it is depends on where the run came from.

The main statement is `second_run_rests`; it would fail without the exception,
and for methods that share a body: `second_run_fires`.
-/

namespace Bytecode

variable {σ : Type}

open Inline (Leads Reaches Unfit)

/-! ### Programs at rest -/

/-- No pass has anything to do in any body, nor does the inliner with any
call. -/
structure Program.Resting (cfg : InlineSettings) (q : Program) : Prop where
  idle : ∀ m b, (q.method m).body = some b →
    ∀ i ∈ q.code b, ∀ pass ∈ Pass.standard, q.Idle b i pass
  unfit : ∀ m b, (q.method m).body = some b → ∀ i ∈ q.code b, ∀ d,
    Inline.calleeOf cfg (q.instr i).bare = some d → d ≠ m →
    ∀ n, cfg.policy n q (some d) = true → (q.next i).isSome → Unfit cfg q d

/-- A session in which nothing has changed. -/
structure Session.Still (cfg : InlineSettings) (q : Program) (s : Session σ) :
    Prop extends s.Sound where
  program : s.program = q
  /-- Whom the memo accepts the policy has accepted. -/
  accepted : ∀ m, (some m, true) ∈ s.memo.recent →
    ∃ n, cfg.policy n q (some m) = true

/-- As many passes have fired in both sessions. -/
structure Session.SameFired (s t : Session σ) : Prop where
  fired : t.stats.fired = s.stats.fired
  inlined : t.stats.inlined = s.stats.inlined

theorem Session.SameFired.refl (s : Session σ) : s.SameFired s := ⟨rfl, rfl⟩

theorem Session.SameFired.trans {s t u : Session σ} (h : s.SameFired t)
    (h' : t.SameFired u) : s.SameFired u :=
  ⟨h'.fired.trans h.fired, h'.inlined.trans h.inlined⟩

/-- A method that may be inlined is one that the policy has accepted. -/
theorem Session.Still.accepts {cfg : InlineSettings} {q : Program}
    {s : Session σ} {c : MethodId} (h : s.Still cfg q)
    (hyes : Inline.approved cfg c s = true) :
    ∃ n, cfg.policy n q (some c) = true := by
  rw [Inline.approved, Memo.ask_fst] at hyes
  cases hlook : s.memo.recent.lookup (some c) with
  | none =>
      rw [hlook, h.program] at hyes
      exact ⟨_, hyes⟩
  | some yes =>
      rw [hlook] at hyes
      obtain rfl : yes = true := hyes
      exact h.accepted c (Memo.mem_of_lookup hlook)

/-- Asking the policy changes nothing else. -/
theorem Session.Still.asked {cfg : InlineSettings} {q : Program} {s : Session σ}
    (h : s.Still cfg q) (c : MethodId) :
    (Inline.consulted cfg c s).Still cfg q where
  linked := h.linked
  unshared := h.unshared
  program := h.program
  accepted := by
    intro m hm
    rcases Memo.mem_ask hm with heq | hm
    · obtain ⟨hmc, hyes⟩ := Prod.mk.inj heq
      rw [Option.some.inj hmc]
      exact h.accepts hyes.symm
    · exact h.accepted m hm

/-- Nothing changes. -/
def still (cfg : InlineSettings) (q : Program) : Law σ where
  ready s := s.Still cfg q
  returns s t := t.Still cfg q ∧ s.Extends t ∧ s.SameFired t
  broken _ := True
  during s m
    | .scanning _, v =>
        v.Within s m ∧ v.session.Still cfg q ∧ s.SameFired v.session
    | .offering _ _, v => (v.Within s m ∧ v.session.Still cfg q ∧
        s.SameFired v.session) ∧ ∃ i, v.Offers i

section Still

variable {cfg : InlineSettings} {q : Program} {s t : Session σ} {m c : MethodId}
  {v : Visit σ} {i : InstrId} {pass : Pass}
  {optimize : Option MethodId → SessionM σ Unit}

/-- A call that the inliner finds in a program at rest has a callee that stays
out. -/
theorem spared_of_resting (hq : q.Resting cfg) (hv : v.Within s m)
    (hstill : v.session.Still cfg q) (hi : v.Offers i)
    (hcallee : Inline.callee? cfg v.editing i = some c)
    (hyes : Inline.approved cfg c v.session = true)
    (hnext : v.editing.nextInstruction ≠ none) (ht : t.program = q) :
    Inline.Spared cfg c t := by
  have hprogram : v.session.program = q := hstill.program
  have hbody : (q.method m).body = some v.editor.body := by
    rw [← hprogram]
    exact hv.body
  have hmem : i ∈ q.code v.editor.body := by
    rw [← hprogram]
    exact hi.2
  have hcall : Inline.calleeOf cfg (q.instr i).bare = some c := by
    rw [← hprogram]
    exact Inline.calleeOf_of_callee? hcallee
  have hcm : c ≠ m := by
    rw [← hv.method]
    exact Inline.callee?_ne hcallee
  obtain ⟨n, haccepts⟩ := hstill.accepts hyes
  have hsome : (q.next i).isSome := by
    rw [hv.nextInstruction hi, hprogram] at hnext
    exact Option.isSome_iff_ne_none.mpr hnext
  rcases hq.unfit m _ hbody i hmem c hcall hcm n haccepts hsome with hnone
    | ⟨b, hb, hself⟩
  · exact Or.inr (Or.inl (by rw [ht]; exact hnone))
  · refine Or.inr (Or.inr ⟨b, by rw [ht]; exact hb, ?_⟩)
    rw [ht]
    exact Inline.callsItself_iff.mpr hself

/-- What an application of a pass in a program at rest leads to: a later session
with the same program, or the callee's visit has been broken off. -/
theorem still_pass (hq : q.Resting cfg) (hbudget : cfg.budget ≤ 0)
    (hcalls : (still cfg q).Calls optimize) (hv : v.Within s m)
    (hstill : v.session.Still cfg q) (hi : v.Offers i)
    (hpass : pass ∈ Pass.standard) :
    (∃ v', (pass.rule cfg).apply optimize v = (.ok (), v') ∧ v'.Within s m ∧
      v'.Offers i ∧ v'.session.Still cfg q ∧ v.session.SameFired v'.session) ∨
    ∃ e c t,
    (pass.rule cfg).apply optimize v = (.error e, { v with session := t }) ∧
    optimize (some c) (Inline.consulted cfg c v.session) = (.error e, t) := by
  have hprogram : v.session.program = q := hstill.program
  by_cases hinline : pass = .inlineFunctionCall
  · subst hinline
    have happly : (Pass.inlineFunctionCall.rule cfg).apply optimize v =
        Inline.apply cfg optimize v := rfl
    rw [happly, Inline.apply_eq hi.1]
    -- The policy has been asked, and that is all.
    have hasked : ∀ c, (Visit.Within s m { v with
        session := Inline.consulted cfg c v.session }) ∧
        Visit.Offers { v with session := Inline.consulted cfg c v.session } i :=
      fun c => ⟨hv.noting _ _, hi⟩
    cases hcallee : Inline.callee? cfg v.editing i with
    | none => exact Or.inl ⟨v, rfl, hv, hi, hstill, .refl _⟩
    | some c =>
        simp only
        split
        · next hyes =>
            cases hnext : v.editing.nextInstruction with
            | none => exact Or.inl ⟨_, rfl, (hasked c).1, (hasked c).2,
                hstill.asked c, ⟨rfl, rfl⟩⟩
            | some anchor =>
                simp only [Inline.withinBudget, decide_eq_true hbudget,
                  Bool.true_or, if_true]
                have hmeets := hcalls c _ (hstill.asked c)
                rcases hopt : optimize (some c)
                  (Inline.consulted cfg c v.session) with ⟨e | ⟨⟩, t⟩
                · exact Or.inr ⟨e, c, t, rfl, hopt⟩
                · rw [hopt] at hmeets
                  obtain ⟨ht, hext, hfired⟩ := hmeets
                  have hext' : v.session.Extends t := by
                    have hsame :
                        v.session.Extends (Inline.consulted cfg c v.session) :=
                      Session.extends_of_eq rfl rfl
                    exact hsame.trans hext
                  have hspared := spared_of_resting hq hv hstill hi hcallee hyes
                    (by rw [hnext]; simp) ht.program
                  have hgoal : ∀ x : Except Fault Unit × Visit σ, x = (.ok (),
                      { v with session := t }) → (∃ v', x = (.ok (), v') ∧
                        v'.Within s m ∧ v'.Offers i ∧ v'.session.Still cfg q ∧
                        v.session.SameFired v'.session) ∨
                      ∃ e c' t', x = (.error e, { v with session := t' }) ∧
                      optimize (some c') (Inline.consulted cfg c' v.session) =
                      (.error e, t') :=
                    fun x hx =>
                      Or.inl ⟨_, hx, hv.nested ht.linked ht.unshared hext',
                        hv.offers_nested ht.linked hext' hi, ht,
                        ⟨hfired.fired, hfired.inlined⟩⟩
                  apply hgoal
                  simp only
                  rcases hspared with hbusy | hnone | ⟨b, hb, hself⟩
                  · rw [if_pos hbusy]
                  · rw [hnone]
                    split <;> rfl
                  · rw [hb]
                    simp only [hself, if_true]
                    split <;> rfl
        · exact Or.inl ⟨_, rfl, (hasked c).1, (hasked c).2, hstill.asked c,
            ⟨rfl, rfl⟩⟩
  · have hstep := Pass.rule_step cfg optimize hv.sound hi.1 hi.2 pass
    generalize (pass.rule cfg).apply optimize v = r at hstep
    cases hstep with
    | @quiet _ e he =>
        refine Or.inl ⟨_, rfl, hv.untouched he, hi.untouched he, ?_⟩
        rw [Visit.session_untouched he]
        exact ⟨hstill, .refl _⟩
    | fires _ heffect =>
        have hbody : (q.method m).body = some v.editor.body := by
          rw [← hprogram]
          exact hv.body
        have hmem : i ∈ q.code v.editor.body := by
          rw [← hprogram]
          exact hi.2
        have hidle := hq.idle m _ hbody i hmem pass hpass
        rw [← hprogram] at hidle
        exact absurd heffect (hidle v.editor rfl _)
    | inlines => exact absurd rfl hinline

/-- **Nothing changes** in a program at rest. -/
theorem still_obeyed (hq : q.Resting cfg) (hbudget : cfg.budget ≤ 0) :
    (still cfg q).Obeyed
    (Optimizer.ofPasses cfg Pass.standard : Optimizer σ) where
  unwatched := fun _ _ => rfl
  idle := fun {s} hs => ⟨hs, .refl s, .refl s⟩
  skip := by
    intro s m hs hm _
    have hmark := (Session.Extends.refl s).mark hm .inProgress (by simp)
    exact ⟨⟨⟨hs.linked, hs.unshared⟩, hs.program, hs.accepted⟩,
      hmark.mark hm .done (by simp), ⟨rfl, rfl⟩⟩
  start := fun {s m b} hs hm hbody hsize =>
    ⟨Visit.within_start hs.linked hs.unshared hm hbody hsize,
      ⟨⟨hs.linked, hs.unshared⟩, hs.program, hs.accepted⟩, ⟨rfl, rfl⟩⟩
  advance := fun ⟨hv, hstill, hfired⟩ hmore =>
    ⟨⟨hv.advanced, hstill, hfired⟩, hv.toSteady.offers hmore⟩
  apply := by
    rintro s m changed r rest v fuel hcalls hr ⟨⟨hv, hstill, hfired⟩, i, hi⟩
    obtain ⟨pass, hpass, rfl⟩ := List.mem_map.mp hr
    rcases still_pass hq hbudget hcalls hv hstill hi hpass with
      ⟨v', heq, hv', hi', hstill', hfired'⟩ | ⟨e, c, t, heq, hopt⟩
    · rw [heq]
      exact Law.applies_quiet hv'.clean
        ⟨⟨hv', hstill', hfired.trans hfired'⟩, i, hi'⟩
    · have hmeets := hcalls c _ (hstill.asked c)
      rw [hopt] at hmeets
      rw [heq]
      exact hmeets
  decline := fun h => h.1
  restart :=
    fun ⟨hv, hstill, hfired⟩ _ => ⟨hv.advanced.restarted, hstill, hfired⟩
  finish := fun {s m v} ⟨hv, hstill, hfired⟩ _ =>
    ⟨⟨⟨hstill.linked, hstill.unshared⟩, hstill.program, hstill.accepted⟩,
      (hv.extend.mark hv.fresh .done (by simp)).trans
      (Session.extends_of_eq rfl rfl), ⟨hfired.fired, hfired.inlined⟩⟩
  cut := fun _ => trivial
  refuse := fun _ => trivial

theorem still_harmless (hq : q.Resting cfg) (hbudget : cfg.budget ≤ 0)
    (fuel : Nat) (hfine : ∀ m (s : Session σ), (still cfg q).ready s → Unfailing
      ((Optimizer.ofPasses cfg Pass.standard).optimize fuel (some m) s).1) :
    (still cfg q).Harmless (Optimizer.ofPasses cfg Pass.standard : Optimizer σ)
    fuel := by
  rintro s m changed r rest v hr ⟨⟨hv, hstill, -⟩, i, hi⟩
  obtain ⟨pass, hpass, rfl⟩ := List.mem_map.mp hr
  have hcalls := (still_obeyed (σ := σ) hq hbudget).calls fuel
  rcases still_pass hq hbudget hcalls hv hstill hi hpass with
    ⟨v', heq, -⟩ | ⟨e, c, t, heq, hopt⟩
  · rw [heq]
    exact unfailing_ok ()
  · have hcall := hfine c _ (hstill.asked c)
    rw [heq]
    rwa [hopt] at hcall

/-- There is no load in a program at rest, as no call is ever taken in. -/
theorem still_loads (hq : q.Resting cfg) (s : Session σ) (m : MethodId) :
    (still cfg q).Loads cfg Pass.standard s m (· < ·) fun _ => 0 where
  wf := wellFounded_lt
  within := by
    intro p v hv
    cases p with
    | scanning => exact hv.1
    | offering => exact hv.1.1
  offers := fun hv => hv.2
  ready := fun hv _ => hv.1.2.1.asked _
  unmoved := fun _ _ _ _ _ => rfl
  effect := fun _ _ _ _ => Or.inr rfl
  asked := fun _ _ => Or.inr rfl
  taken := by
    rintro changed rest v i c b anchor v' - ⟨⟨hv, hstill, -⟩, -⟩
      htaking hyes - - -
    refine absurd ?_ htaking.open_
    refine spared_of_resting hq hv hstill htaking.offers htaking.callee hyes ?_
      hstill.program
    rw [hv.nextInstruction htaking.offers]
    have hnext : v.session.program.next i = some anchor := htaking.next
    rw [hnext]
    simp

end Still

namespace Optimizer

section Runs

variable {cfg : InlineSettings} {p q : Program} {s t : Session σ}
  {ms : List MethodId} {fuel : Nat}

/-- A run over a program at rest comes to its end and leaves the program as it
is. -/
theorem run_resting (hq : q.Resting cfg) (hbudget : cfg.budget ≤ 0)
    (hs : s.Still cfg q) (ms : List MethodId) :
    ∃ n, ∀ k, n ≤ k → ∃ t, (ofPasses cfg Pass.standard).run k ms s =
      (.ok (), t) ∧ t.program = q ∧ s.SameFired t := by
  have hobeyed :
      (still cfg q).Obeyed (ofPasses cfg Pass.standard : Optimizer σ) :=
    still_obeyed hq hbudget
  have hcount : ∀ (s : Session σ) f, s.Still cfg q → (s.count f).Still cfg q :=
    fun s f hs => ⟨⟨hs.linked, hs.unshared⟩, hs.program, hs.accepted⟩
  have hcalls : ∀ k m (s : Session σ), s.Still cfg q →
      Meets (fun _ t => t.Still cfg q) (fun _ => True)
      ((ofPasses cfg Pass.standard).optimize k (some m) s) :=
    fun k m s hs =>
      (hobeyed.calls k m s hs).mono (fun _ _ ht => ht.1) fun _ ht => ht
  obtain ⟨methods, hmethods⟩ := cfg.exists_methods
  obtain ⟨n, r, hn, -, hfail⟩ := settles_of_loads hobeyed
    (fun _ _ ht => ht.1) hcount (still_loads hq) hmethods hs .start (.run ms)
  refine ⟨n, fun k hk => ?_⟩
  have hfine : Unfailing ((ofPasses cfg Pass.standard).run k ms s).1 :=
    unfailing_perform hcount (hcalls k) (fun m s hs => hobeyed.unfailing
      (still_harmless hq hbudget) k m s hs) hs (.run ms) (by simp)
  have hended :
      ((ofPasses cfg Pass.standard).run k ms s).1 ≠ .error .outOfFuel := by
    have hrun : (ofPasses cfg Pass.standard).run k ms s = r := hn k hk
    rw [hrun]
    exact fun hr => hfail _ hr rfl
  have hstart : (s.count fun t =>
      { t with before := t.before + s.program.instrCount ms }).Still cfg q ∧
      s.SameFired (s.count
        fun t => { t with before := t.before + s.program.instrCount ms }) :=
    ⟨hcount _ _ hs, rfl, rfl⟩
  have hforM : Meets (fun _ t => t.Still cfg q ∧ s.SameFired t) (fun _ => True)
      ((ms.forM fun m => (ofPasses cfg Pass.standard).optimize k (some m) :
        SessionM σ Unit) (s.count fun t =>
          { t with before := t.before + s.program.instrCount ms })) := by
    refine Law.meets_forM (fun m s₁ hs₁ => ?_) ms hstart
    exact (hobeyed.calls k m s₁ hs₁.1).mono
      (fun _ _ ht => ⟨ht.1, hs₁.2.trans ht.2.2⟩) fun _ _ => trivial
  rw [run_apply] at hfine hended ⊢
  generalize (ms.forM fun m => (ofPasses cfg Pass.standard).optimize k
    (some m) : SessionM σ Unit) _ = x at hforM hfine hended
  obtain ⟨e | ⟨⟩, t⟩ := x
  · obtain rfl := hfine e rfl
    exact absurd rfl hended
  · exact ⟨_, rfl, hforM.1.program, hforM.2.fired, hforM.2.inlined⟩

/-! ### The first run -/

/-- After calls one after the other, their methods are done and no method is in
progress. -/
theorem rested_forM (hfixed : cfg.policy.Fixed) (hbudget : cfg.budget ≤ 0)
    (hs : s.Rested cfg p) (hidle : ∀ m, s.progressOf m ≠ .inProgress)
    (hrun : (ms.forM fun m => (ofPasses cfg Pass.standard).optimize fuel
      (some m) : SessionM σ Unit) s = (.ok (), t)) :
    t.Rested cfg p ∧ (∀ m, t.progressOf m ≠ .inProgress) ∧ s.Extends t ∧
    ∀ m ∈ ms, t.progressOf m = .done := by
  induction ms generalizing s with
  | nil =>
      obtain ⟨-, rfl⟩ := Prod.mk.inj hrun
      exact ⟨hs, hidle, .refl s, fun m hm => by cases hm⟩
  | cons m ms ih =>
      have hobeyed :
          (resting cfg p).Obeyed (ofPasses cfg Pass.standard : Optimizer σ) :=
        resting_obeyed hfixed hbudget
      have hmeets := hobeyed.calls fuel m s hs
      change ((ofPasses cfg Pass.standard).optimize fuel (some m) >>= fun _ =>
        ms.forM fun m => (ofPasses cfg Pass.standard).optimize fuel (some m) :
          SessionM σ Unit) s = (.ok (), t) at hrun
      rw [bind_apply] at hrun
      rcases hcall :
        (ofPasses cfg Pass.standard).optimize fuel (some m) s with ⟨e | ⟨⟩, s₁⟩
      · rw [hcall] at hrun
        cases hrun
      · rw [hcall] at hrun hmeets
        obtain ⟨hs₁, hext, -, hspread⟩ := hmeets
        have hidle₁ : ∀ c, s₁.progressOf c ≠ .inProgress :=
          fun c hc => hidle c (hspread.busy c hc)
        obtain ⟨ht, hidle', hext', hdone⟩ := ih hs₁ hidle₁ hrun
        refine ⟨ht, hidle', hext.trans hext', fun c hc => ?_⟩
        rcases List.mem_cons.mp hc with rfl | hc
        · have hdone₁ : s₁.progressOf c = .done := optimize_done hcall (hidle c)
          rw [hext'.progress c (by rw [hdone₁]; simp), hdone₁]
        · exact hdone c hc

/-- A call that could be taken in has been left, though its caller and its
callee are on a circle of calls of `p`. -/
def LeftOnCircle (cfg : InlineSettings) (p q : Program) : Prop :=
  ∃ c d b i, (q.method c).body = some b ∧ i ∈ q.code b ∧ Inline.calleeOf cfg
    (q.instr i).bare = some d ∧ d ≠ c ∧ cfg.policy 0 q (some d) = true ∧
    (q.next i).isSome ∧ ¬ Unfit cfg q d ∧ Reaches cfg p c d ∧ Reaches cfg p d c

/-- When all methods are done, the program is at rest, or a call on a circle has
been left. -/
theorem resting_of_rested (hfixed : cfg.policy.Fixed) (ht : t.Rested cfg p)
    (hidle : ∀ m, t.progressOf m ≠ .inProgress) (hdone : ∀ m b,
      (t.program.method m).body = some b → t.progressOf m = .done) :
    t.program.Resting cfg ∨ LeftOnCircle cfg p t.program := by
  by_cases hcircle : LeftOnCircle cfg p t.program
  · exact Or.inr hcircle
  · refine Or.inl ⟨fun m b hb i hi pass hpass =>
      (ht.spent m b (hdone m b hb) hb i hi pass hpass).1, ?_⟩
    intro m b hb i hi d hd hdm n hyes hnext
    have hyes₀ : cfg.policy 0 t.program (some d) = true := by
      rwa [hfixed n 0 t.program t.program (some d) rfl] at hyes
    have hyes' : cfg.policy 0 p (some d) = true := by
      rwa [hfixed 0 0 p t.program (some d) ht.methods] at hyes₀
    have hspent :=
      ht.spent m b (hdone m b hb) hb i hi .inlineFunctionCall (by decide)
    rcases hspent.2 rfl d hd hdm hyes' hnext with hbusy | ⟨-, hunfit | hback⟩
    · exact absurd hbusy (hidle d)
    · exact hunfit
    · by_contra hfit
      have hmem : d ∈ Inline.callees cfg t.program b :=
        Inline.callee_mem_callees hi hd
      exact hcircle ⟨m, d, b, i, hb, hi, hd, hdm, hyes₀, hnext, hfit,
        ht.traced m b hb d hmem hyes', hback⟩

/-- A session for a run over `p`. -/
def fresh (p : Program) (capacity : Int) (client : σ) : Session σ :=
  { program := p, memo := .ofCapacity capacity, client }

theorem rested_fresh (hp : p.WellLinked) (hshare : p.Unshared)
    (hnamed : p.Named) (capacity : Int) (client : σ) :
    (fresh p capacity client).Rested cfg p where
  linked := hp
  unshared := hshare
  methods := rfl
  named := hnamed
  faithful := by
    intro e he
    cases he
  traced := fun m b hb d hd hyes => .single ⟨hyes, b, hb, hd⟩
  spent := by
    intro c b hc
    cases hc

theorem still_fresh (hp : q.WellLinked) (hshare : q.Unshared) (capacity : Int)
    (client : σ) : (fresh q capacity client).Still cfg q where
  linked := hp
  unshared := hshare
  program := rfl
  accepted := by
    intro m hm
    cases hm

/-- **A second run finds nothing to do.**  A run of the standard passes over all
methods, with the baseline policy, without limits and without a budget, has come
to its end.  Then a second run over the program that it has left comes to its
end as well, no pass fires in it, and it leaves the program as it is; unless the
first run has left a call that could be taken in, of a method that calls
back. -/
theorem second_run_rests {limits : Policy.Limits} {capacity capacity' : Int}
    {client client' : σ} (hp : p.WellLinked) (hshare : p.Unshared)
    (hnamed : p.Named) (hpolicy : cfg.policy = .baseline limits)
    (hsize : limits.maxInstructions ≤ 0) (hlocals : limits.maxLocals ≤ 0)
    (hbudget : cfg.budget ≤ 0)
    (hall : ∀ m b, (p.method m).body = some b → m ∈ ms)
    (hrun : (ofPasses cfg Pass.standard).run fuel ms
      (fresh p capacity client) = (.ok (), s)) :
    (∃ n, ∀ k, n ≤ k → ∃ t, (ofPasses cfg Pass.standard).run k ms
      (fresh s.program capacity' client') = (.ok (), t) ∧
      t.program = s.program ∧ t.stats.fired = [] ∧ t.stats.inlined = 0) ∨
    LeftOnCircle cfg p s.program := by
  have hfixed : cfg.policy.Fixed := by
    rw [hpolicy]
    exact Policy.baseline_fixed hsize hlocals
  have hstart : (fresh p capacity client).Rested cfg p :=
    rested_fresh hp hshare hnamed capacity client
  rw [run_apply] at hrun
  generalize hforM : (ms.forM fun m => (ofPasses cfg Pass.standard).optimize
    fuel (some m) : SessionM σ Unit) _ = x at hrun
  obtain ⟨e | ⟨⟩, s₁⟩ := x
  · cases hrun
  · obtain ⟨-, rfl⟩ := Prod.mk.inj hrun
    obtain ⟨hs₁, hidle, hext, hdone⟩ := rested_forM hfixed hbudget
      (hstart.counted _) (fun m hm => by cases hm) hforM
    have hdone' : ∀ m b, (s₁.program.method m).body = some b →
        s₁.progressOf m = .done := by
      intro m b hb
      rw [hext.method] at hb
      exact hdone m (hall m b hb)
    rcases resting_of_rested hfixed hs₁ hidle hdone' with hrest | hleft
    · obtain ⟨n, hn⟩ := run_resting hrest hbudget
        (still_fresh hs₁.linked hs₁.unshared capacity' client') ms
      refine Or.inl ⟨n, fun k hk => ?_⟩
      obtain ⟨t, ht, hprogram, hfired⟩ := hn k hk
      exact ⟨t, ht, hprogram, hfired.fired, hfired.inlined⟩
    · exact Or.inr hleft

end Runs

/-- Every call in `evenAndOdd` may be taken in. -/
def inlineEvenAndOdd : InlineSettings :=
  { inlineShort with policy := .baseline {} }

/-- What the first run leaves of `evenAndOdd` is at rest although methods call
each other: one of them calls itself by then, and no other method is called. -/
theorem second_run_rests_evenAndOdd :
    evenAndOdd.WellLinked ∧ evenAndOdd.Unshared ∧ evenAndOdd.Named ∧
    ∃ s, (ofPasses inlineEvenAndOdd Pass.standard).run 40 [⟨0⟩, ⟨1⟩,
      ⟨2⟩] (fresh evenAndOdd 3 ()) = (.ok (), s) ∧ s.stats.inlined = 1 ∧
    ∃ n, ∀ k, n ≤ k → ∃ t, (ofPasses inlineEvenAndOdd Pass.standard).run k [⟨0⟩,
      ⟨1⟩, ⟨2⟩] (fresh s.program 3 ()) = (.ok (), t) ∧ t.program = s.program ∧
    t.stats.fired = [] ∧ t.stats.inlined = 0 := by
  have hp : evenAndOdd.WellLinked := by decide
  have hshare : evenAndOdd.Unshared := by decide
  have hnamed : evenAndOdd.Named := by decide
  -- the run is evaluated once for all that is read off from its end
  obtain ⟨hok, heven, hunfit, hinlined⟩ :
      let first := (ofPasses inlineEvenAndOdd Pass.standard).run 40 [⟨0⟩,
        ⟨1⟩, ⟨2⟩]
        (fresh evenAndOdd 3 ())
      first.1 = .ok () ∧
        (∀ n < first.2.program.methods.size,
          ∀ b ∈ (first.2.program.method ⟨n⟩).body,
          ∀ i ∈ first.2.program.code b,
            ∀ d ∈ Inline.calleeOf inlineEvenAndOdd (first.2.program.instr
              i).bare, d = ⟨1⟩) ∧
        Unfit inlineEvenAndOdd first.2.program ⟨1⟩ ∧
          first.2.stats.inlined = 1 := by decide +kernel
  have hall : ∀ m b, (evenAndOdd.method m).body = some b →
      m ∈ [⟨0⟩, ⟨1⟩, ⟨2⟩] := by
    have hthree : ∀ n < evenAndOdd.methods.size, (⟨n⟩ : MethodId) ∈ [⟨0⟩, ⟨1⟩,
        ⟨2⟩] := by decide
    exact fun m b hb => hthree m.index (Program.index_lt_of_body hb)
  rcases hrun : (ofPasses inlineEvenAndOdd Pass.standard).run 40 [⟨0⟩, ⟨1⟩, ⟨2⟩]
      (fresh evenAndOdd 3 ()) with ⟨x, s⟩
  rw [hrun] at hok heven hunfit hinlined
  obtain rfl : x = .ok () := hok
  refine ⟨hp, hshare, hnamed, s, rfl, hinlined, ?_⟩
  refine (second_run_rests hp hshare hnamed rfl (by decide) (by decide)
    (by decide) hall hrun).resolve_right ?_
  rintro ⟨c, d, b, i, hb, hi, hd, -, -, -, hfit, -⟩
  obtain rfl : d = ⟨1⟩ :=
    heven c.index (Program.index_lt_of_body hb) b hb i hi d hd
  exact hfit hunfit

/-- A method that calls the first of two others, which call each other; the
second one calls itself as well. -/
def relay : Program where
  instrs := #[⟨.call, .method ⟨"", "relay", [], "void"⟩, some ⟨0⟩⟩,
    ⟨⟨0x70⟩, .absent, some ⟨0⟩⟩,
    ⟨.call, .method ⟨"", "loop", [], "void"⟩, some ⟨1⟩⟩,
    ⟨⟨0x70⟩, .absent, some ⟨1⟩⟩,
    ⟨.call, .method ⟨"", "loop", [], "void"⟩, some ⟨2⟩⟩,
    ⟨.call, .method ⟨"", "relay", [], "void"⟩, some ⟨2⟩⟩,
    ⟨⟨0x70⟩, .absent, some ⟨2⟩⟩]
  bodies := #[{ code := [⟨0⟩, ⟨1⟩] }, { code := [⟨2⟩, ⟨3⟩] },
    { code := [⟨4⟩, ⟨5⟩, ⟨6⟩] }]
  methods := #[{ name := "main", attrs := 1, body := some ⟨0⟩ },
    { name := "relay", attrs := 1, body := some ⟨1⟩ },
    { name := "loop", attrs := 1, body := some ⟨2⟩ }]

/-- Every call in `relay` may be taken in. -/
def inlineRelay : InlineSettings where
  resolution := some (.ofMethods relay [⟨0⟩, ⟨1⟩, ⟨2⟩])
  policy := .baseline {}

/-- Two methods with one body, in which the second one is called. -/
def twins : Program where
  instrs := #[⟨.pop, .absent, some ⟨0⟩⟩, ⟨.pop, .absent, some ⟨0⟩⟩,
    ⟨.call, .method ⟨"", "second", [], "void"⟩, some ⟨0⟩⟩,
    ⟨⟨0x52⟩, .target ⟨5⟩, some ⟨0⟩⟩, ⟨⟨0x70⟩, .absent, some ⟨0⟩⟩,
    ⟨.nop, .absent, some ⟨0⟩⟩, ⟨.pop, .absent, some ⟨0⟩⟩,
    ⟨.br, .target ⟨8⟩, some ⟨0⟩⟩, ⟨.pop, .absent, some ⟨0⟩⟩,
    ⟨⟨0x70⟩, .absent, some ⟨0⟩⟩]
  bodies := #[{ code := [⟨0⟩, ⟨1⟩, ⟨2⟩, ⟨3⟩, ⟨4⟩, ⟨5⟩, ⟨6⟩, ⟨7⟩, ⟨8⟩, ⟨9⟩] }]
  methods := #[{ name := "first", attrs := 1, body := some ⟨0⟩ },
    { name := "second", attrs := 1, body := some ⟨0⟩ }]

/-- Every call in `twins` may be taken in. -/
def inlineTwins : InlineSettings where
  resolution := some (.ofMethods twins [⟨0⟩, ⟨1⟩])
  policy := .baseline {}

/-- In the first run over `relay` the third method is visited while the second
one is in progress, so that its call of that method is left; in the second run
it is visited before, and the call is taken in.  The second run over `twins`
finds dead code. -/
theorem second_run_fires :
    (relay.WellLinked ∧ relay.Unshared ∧ relay.Named ∧
      let first := (ofPasses inlineRelay Pass.standard).run 60 [⟨0⟩,
        ⟨1⟩, ⟨2⟩] (fresh relay 3 ())
      let second := (ofPasses inlineRelay Pass.standard).run 60 [⟨0⟩, ⟨1⟩, ⟨2⟩]
        (fresh first.2.program 3 ())
      first.1 = .ok () ∧ second.1 = .ok () ∧ second.2.stats.inlined = 1 ∧
        second.2.program.contents ⟨2⟩ ≠ first.2.program.contents ⟨2⟩) ∧
    (twins.WellLinked ∧ twins.Named ∧
      let first := (ofPasses inlineTwins Pass.standard).run 60 [⟨0⟩, ⟨1⟩] (fresh
        twins 2 ())
      let second := (ofPasses inlineTwins Pass.standard).run 60 [⟨0⟩, ⟨1⟩]
        (fresh first.2.program 2 ())
      first.1 = .ok () ∧ second.1 = .ok () ∧ second.2.stats.fired ≠ [] ∧
        second.2.program.contents ⟨0⟩ ≠ first.2.program.contents ⟨0⟩) := by
  have hrelay : relay.WellLinked ∧ relay.Unshared ∧ relay.Named := by decide
  have htwins : twins.WellLinked ∧ twins.Named := by decide
  refine ⟨⟨hrelay.1, hrelay.2.1, hrelay.2.2, ?_⟩, ⟨htwins.1, htwins.2, ?_⟩⟩
  · decide +kernel
  · decide +kernel

end Optimizer

end Bytecode
