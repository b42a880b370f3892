import Mathlib
import Bytecode.Proofs.NeverFails
import Bytecode.Proofs.SideBySide
import Bytecode.Proofs.Termination

/-!
# Methods in any order

Where no accepted call leads back, methods can be ranked by how many others
their calls lead to. By induction on the rank there is an outlook that is right
about all of them, made from visits of each method on its own.  A run over a
list of methods therefore comes to what the outlook says, in whatever order the
methods are listed.

The main statement is `any_order`.
-/

namespace Bytecode

open Inline (Reaches)

variable {σ : Type}

/-! ### Ranks -/

namespace Inline

variable {cfg : InlineSettings} {p q : Program} {methods : Finset MethodId}
  {c d m : MethodId} {b k : BodyId}

open Classical in
/-- How many methods calls of `c` lead to. -/
noncomputable def rank (cfg : InlineSettings) (p : Program)
    (methods : Finset MethodId) (c : MethodId) : Nat :=
  (methods.filter fun d => Reaches cfg p c d).card

/-- Calls lead to methods that can be resolved to. -/
theorem Reaches.mem (hmethods : ∀ ref c, cfg.resolve ref = some c → c ∈ methods)
    (h : Reaches cfg p c d) : d ∈ methods := by
  obtain ⟨e, -, -, b, -, hd⟩ := Relation.TransGen.tail'_iff.mp h
  obtain ⟨i, -, -, hresolve⟩ := mem_callees.mp hd
  exact hmethods _ d hresolve

theorem rank_lt (hacyclic : ∀ c, ¬ Reaches cfg p c c)
    (hmethods : ∀ ref c, cfg.resolve ref = some c → c ∈ methods)
    (h : Reaches cfg p c d) : rank cfg p methods d < rank cfg p methods c := by
  classical
  apply Finset.card_lt_card
  rw [Finset.ssubset_iff_of_subset]
  · refine ⟨d, Finset.mem_filter.mpr ⟨Reaches.mem hmethods h, h⟩, fun hd => ?_⟩
    exact hacyclic d (Finset.mem_filter.mp hd).2
  · intro e he
    obtain ⟨he, hde⟩ := Finset.mem_filter.mp he
    exact Finset.mem_filter.mpr ⟨he, h.trans hde⟩

/-- The accepted calls of a body, each with the rank of its callee. -/
noncomputable def ranks (cfg : InlineSettings) (p : Program)
    (methods : Finset MethodId) (q : Program) (b : BodyId) : Multiset Nat :=
  ((callees cfg q b).filter fun d => cfg.policy 0 p (some d) = true).map
    (rank cfg p methods)

theorem ranks_le {q' : Program} (h : callees cfg q' k ≤ callees cfg q b) :
    ranks cfg p methods q' k ≤ ranks cfg p methods q b :=
  Multiset.map_le_map (Multiset.filter_le_filter _ h)

/-- An accepted call counts with the rank of its callee. -/
theorem ranks_cons {others : Multiset MethodId}
    (hyes : cfg.policy 0 p (some c) = true)
    (h : callees cfg q b = c ::ₘ others) :
    ranks cfg p methods q b = (others.filter fun d => cfg.policy 0 p (some d) =
      true).map (rank cfg p methods) + {rank cfg p methods c} := by
  rw [ranks, h, Multiset.filter_cons_of_pos
    (p := fun d => cfg.policy 0 p (some d) = true) _ hyes,
    Multiset.map_cons, ← Multiset.singleton_add, add_comm]

end Inline

section Loads

variable {cfg : InlineSettings} {passes : List Pass} {p : Program}
  {methods : Finset MethodId}

/-- **The ranks of the accepted calls are a load**: calls that come with a
callee are of lower rank than the call of it. -/
theorem ranks_load (hfixed : cfg.policy.Fixed)
    (hacyclic : ∀ c, ¬ Reaches cfg p c c)
    (hmethods : ∀ ref c, cfg.resolve ref = some c → c ∈ methods) (s : Session σ)
    (m : MethodId) :
    (tracing cfg p).Loads cfg passes s m Multiset.IsDershowitzMannaLT
    fun v => Inline.ranks cfg p methods v.session.program v.editor.body where
  wf := Multiset.wellFounded_isDershowitzMannaLT
  within := by
    intro p v hv
    cases p with
    | scanning => exact hv.toWithin
    | offering => exact hv.1.toWithin
  offers := fun hv => hv.2
  ready := fun hv _ => ⟨hv.1.traced.asked hfixed _, hv.1.closed⟩
  unmoved := by
    intro v v' hprogram _ _ hbody _
    rw [hprogram, hbody]
  effect := by
    intro changed rest v i pass e hv hi he heffect
    have hbody : (v.setEditing e).editor.body = v.editor.body := he.body
    rw [hbody]
    have hfewer : Inline.callees cfg e.program v.editing.editor.body ≤
        Inline.callees cfg v.editing.program v.editing.editor.body :=
      Inline.callees_effect heffect hv.1.sound hi.2
    exact lt_or_eq_of_le (Inline.ranks_le hfewer)
  asked := fun _ _ => Or.inr rfl
  taken := by
    intro changed rest v i c b anchor v' _ hv htaking hyes hreplaces _ _
    have hv := hv.1
    have hcb : b ≠ v.editor.body := by
      rintro rfl
      have hcm := hv.unshared m c _ hv.body htaking.body
      exact Inline.callee?_ne htaking.callee (hcm.trans hv.method.symm)
    have hbody : v'.editor.body = v.editor.body := hreplaces.evolves.body
    obtain ⟨others, hbefore, hafter⟩ :=
      hreplaces.callees hv.sound htaking.offers.2 htaking.next hcb
      (Inline.calleeOf_of_callee? htaking.callee)
    have hyes' : cfg.policy 0 p (some c) = true := by
      rwa [hv.traced.approved hfixed] at hyes
    have hgone :
        Inline.ranks cfg p methods v.session.program v.editor.body = _ :=
      Inline.ranks_cons hyes' hbefore
    rw [hbody, hgone]
    refine lt_of_replaced (Y := Inline.ranks cfg p methods v.session.program b)
      ?_ fun y hy => ?_
    · rw [Inline.ranks, Inline.ranks, ← Multiset.map_add, ← Multiset.filter_add]
      exact Multiset.map_le_map (Multiset.filter_le_filter _ hafter)
    · obtain ⟨d, hd, rfl⟩ := Multiset.mem_map.mp hy
      obtain ⟨hd, hdyes⟩ := Multiset.mem_filter.mp hd
      exact Inline.rank_lt hacyclic hmethods
        (hv.traced.traced c b htaking.body d hd hdyes)

variable (passes) in
/-- Requests come to an end where no accepted call leads back. -/
theorem settles_acyclic (hfixed : cfg.policy.Fixed)
    (hacyclic : ∀ c, ¬ Reaches cfg p c c)
    (hmethods : ∀ ref c, cfg.resolve ref = some c → c ∈ methods) {s : Session σ}
    (hs : (tracing cfg p).ready s) (q : Optimizer.Request) :
    Settles (fun _ _ => True) (· ≠ .outOfFuel) fun n =>
      q.perform (.ofPasses cfg passes) n s :=
  have hlist : ∀ ref c, cfg.resolve ref = some c → c ∈ methods.toList :=
    fun ref c hc => Finset.mem_toList.mpr (hmethods ref c hc)
  Optimizer.settles_of_loads (tracing_obeyed hfixed passes) (fun _ _ h => h.1)
    (fun _ _ h => ⟨h.1.counted _, h.2⟩)
    (ranks_load hfixed hacyclic hmethods) hlist hs .start q

end Loads

/-! ### The outlook -/

/-- The run of an optimiser has just begun. -/
structure Session.Begins (p : Program) (s : Session σ) : Prop where
  program : s.program = p
  progress : s.progress = []
  memo : s.memo.recent = []
  stats : s.stats = {}

section Outlook

variable {cfg : InlineSettings} {passes : List Pass} {p : Program}
  {s t : Session σ} {m c : MethodId} {o : Outlook}

theorem Session.Begins.notVisited (h : s.Begins p) (c : MethodId) :
    s.progressOf c = .notVisited := by
  rw [Session.progressOf, h.progress]
  rfl

/-- At the start calls lead where they lead. -/
theorem Session.Begins.ready (h : s.Begins p) (hp : p.WellLinked)
    (hshare : p.Unshared) (hclosed : p.NoDangling) (cfg : InlineSettings) :
    (tracing cfg p).ready s := by
  obtain ⟨rfl, -, hmemo, -⟩ := h
  refine ⟨⟨⟨hp, hshare⟩, rfl, fun e he => ?_, fun m b hb d hd hyes => ?_⟩,
    hclosed⟩
  · rw [hmemo] at he
    cases he
  · exact .single ⟨hyes, b, hb, hd⟩

theorem Session.Begins.foretold (h : s.Begins p) (o : Outlook) (c : MethodId) :
    s.Foretold p o c where
  fresh := fun _ _ _ => by rw [h.program]
  done := by
    rw [h.notVisited]
    exact fun hno => by cases hno

theorem Session.Begins.excess (h : s.Begins p) (o : Outlook) (k : Counter) :
    s.excess o k = 0 := by
  have hnone : o.methods.filter (fun c => s.progressOf c = .done) = ∅ :=
    Finset.filter_eq_empty_iff.mpr fun c _ => by simp [h.notVisited c]
  rw [Session.excess, hnone, h.stats]
  cases k <;> simp [Stats.tally, Tally.count]

/-- Costs can be told apart where parts are of lower rank. -/
theorem exists_cost {α κ : Type} (rank : α → Nat) (parts : α → Finset α)
    (total : α → κ → ℤ) (h : ∀ m, ∀ c ∈ parts m, rank c < rank m) :
    ∃ cost : α → κ → ℤ, ∀ m k, total m k = cost m k + ∑ c ∈ parts m,
      cost c k := by
  let step (m : α) (cost : ∀ c, rank c < rank m → κ → ℤ) : κ → ℤ := fun k =>
    total m k - ∑ c ∈ (parts m).attach, cost c.1 (h m c.1 c.2) k
  refine ⟨(measure rank).wf.fix step, fun m k => ?_⟩
  rw [WellFounded.fix_eq]
  change _ = total m k - ∑ c ∈ (parts m).attach,
    (measure rank).wf.fix step c.1 k + _
  rw [Finset.sum_attach (parts m) fun c => (measure rank).wf.fix step c k]
  omega

/-- Each method on its own: what its visit comes to with fuel enough. -/
theorem exists_alone (hfixed : cfg.policy.Fixed)
    (hacyclic : ∀ c, ¬ Reaches cfg p c c) {methods : Finset MethodId}
    (hmethods : ∀ ref c, cfg.resolve ref = some c → c ∈ methods)
    (hs : (tracing cfg p).ready s) (passes : List Pass) :
    ∃ alone : MethodId → Except Fault Unit × Session σ,
      ∀ m, (alone m).1 ≠ .error .outOfFuel ∧
      ∃ n, (Optimizer.ofPasses cfg passes).optimize n (some m) s = alone m := by
  have hall :
      ∀ m, ∃ r : Except Fault Unit × Session σ, r.1 ≠ .error .outOfFuel ∧
      ∃ n, (Optimizer.ofPasses cfg passes).optimize n (some m) s = r := by
    intro m
    obtain ⟨n, r, hn, -, hfail⟩ :=
      settles_acyclic passes hfixed hacyclic hmethods hs (.optimize (some m))
    exact ⟨r, fun hr => hfail _ hr rfl, n, hn n le_rfl⟩
  exact ⟨fun m => (hall m).choose, fun m => (hall m).choose_spec⟩

/-- What is foretold for `m` is what its visit comes to at the start of a
run. -/
structure Outlook.Records (o : Outlook) (cfg : InlineSettings) (p : Program)
    (m : MethodId) (r : Except Fault Unit × Session σ) : Prop where
  ended : r.1 ≠ .error .outOfFuel
  fine : o.fine m ↔ r.1 = .ok ()
  form : ∀ b, (p.method m).body = some b → o.form m = r.2.program.form b
  cost : ∃ parts : Finset MethodId, (∀ c, c ∈ parts ↔
    c ∈ o.methods ∧ r.2.progressOf c = .done ∧ Reaches cfg p m c) ∧
    ∀ k, r.2.stats.tally k = o.cost m k + ∑ c ∈ parts, o.cost c k

/-- No count is left over when a method has been visited on its own. -/
theorem Outlook.Records.excess {r : Except Fault Unit × Session σ}
    (h : o.Records cfg p m r) (hm : m ∈ o.methods)
    (hdone : r.2.progressOf m = .done) (hacyclic : ¬ Reaches cfg p m m)
    (hmarked : ∀ c, r.2.progressOf c = .done → c = m ∨ Reaches cfg p m c)
    (k : Counter) : r.2.excess o k = 0 := by
  obtain ⟨parts, hparts, hcost⟩ := h.cost
  have hsplit : o.methods.filter (fun c => r.2.progressOf c = .done) =
      insert m parts := by
    ext c
    rw [Finset.mem_filter, Finset.mem_insert, hparts]
    constructor
    · intro hc
      rcases hmarked c hc.2 with hcm | hmc
      · exact Or.inl hcm
      · exact Or.inr ⟨hc.1, hc.2, hmc⟩
    · intro hc
      rcases hc with rfl | ⟨hc, hcdone, -⟩
      · exact ⟨hm, hdone⟩
      · exact ⟨hc, hcdone⟩
  have hout : m ∉ parts := fun hmem => hacyclic ((hparts m).mp hmem).2.2
  rw [Session.excess, hsplit, Finset.sum_insert hout, hcost]
  omega

/-- Nothing is to be done about a method that has been visited. -/
theorem foresees_visited (hforetold : ∀ c, s.Foretold p o c)
    (hdone : s.progressOf m = .done) (n : Nat) : o.Foresees cfg p m s
    ((Optimizer.ofPasses cfg passes).optimize n (some m) s) := by
  cases n with
  | zero => exact Or.inl rfl
  | succ n =>
      rw [Optimizer.optimize_succ, if_neg (by simp [hdone])]
      exact ⟨((hforetold m).done hdone).1, hforetold, fun _ => rfl,
        Session.marksBelow_refl s⟩

/-- **Whenever a method is visited, its visit comes to what it comes to at the
start.** -/
theorem Session.Begins.predicts (hs : s.Begins p)
    (hready : (tracing cfg p).ready s) (hfixed : cfg.policy.Fixed)
    (hacyclic : ∀ c, ¬ Reaches cfg p c c)
    (hbelow : ∀ c, Reaches cfg p m c → o.Predicts cfg passes p c)
    (hm : m ∈ o.methods) {N : Nat} (hr : o.Records cfg p m
      ((Optimizer.ofPasses cfg passes).optimize N (some m) s)) :
    o.Predicts cfg passes p m := by
  intro ρ n t hready' hforetold hfree
  by_cases hnew : t.progressOf m = .notVisited
  · let x : Comparison ρ σ :=
      { cfg, passes, start := p, outlook := o, method := m, left := t,
        right := s }
    have hstart : ∀ c, x.right.progressOf c = .notVisited := hs.notVisited
    have hx : x.Fair := {
      left := ⟨hfixed, hacyclic, hready', hforetold, hnew, hbelow,
        fun c hc => hfree c (Or.inr hc)⟩
      right := ⟨hfixed, hacyclic, hready, hs.foretold o, hstart m, hbelow,
        fun c _ => by simp [hstart c]⟩ }
    have hpaired : Paired _ ((Optimizer.ofPasses cfg passes).optimize n
        (some m) t) ((Optimizer.ofPasses cfg passes).optimize N (some m) s) :=
      hx.optimize hm n N
    generalize hl : (Optimizer.ofPasses cfg passes).optimize n (some m) t = l
      at hpaired ⊢
    generalize hr' : (Optimizer.ofPasses cfg passes).optimize N (some m) s = r
      at hpaired hr
    obtain ⟨e | ⟨⟩, t'⟩ := l
    · obtain ⟨e' | ⟨⟩, s'⟩ := r
      · refine Or.inr fun hfine => ?_
        cases hr.fine.mp hfine
      · exact Or.inl hpaired
    · obtain ⟨e' | ⟨⟩, s'⟩ := r
      · obtain rfl : e' = .outOfFuel := hpaired
        exact absurd rfl hr.ended
      · have hended : x.Ended t' s' := hpaired
        have hfine : o.fine m := hr.fine.mpr rfl
        refine ⟨hfine, fun c => ?_, fun k => ?_, hended.marked⟩
        · by_cases hcm : c = m
          · subst hcm
            refine ⟨fun hno => ?_, fun _ => ⟨hfine, fun b hb => ?_⟩⟩
            · rw [Optimizer.optimize_done hl (by simp [hnew])] at hno
              cases hno
            · exact (hended.form b hb).symm.trans (hr.form b hb).symm
          · exact hended.foretold c hcm
        · -- The visit at the start has left no count over, so this one leaves
          -- none either.
          have hdone : s'.progressOf m = .done :=
            Optimizer.optimize_done hr' (by simp [hs.notVisited m])
          have hzero : s'.excess o k = 0 := hr.excess hm hdone (hacyclic m)
            (fun c hc => hended.marked' c (by simp [hc, hstart c])) k
          have hbegin : x.right.excess x.outlook k = 0 := hs.excess o k
          have hgain := hended.gain k
          change t'.excess o k - t.excess o k =
            s'.excess o k - x.right.excess x.outlook k at hgain
          omega
  · exact foresees_visited hforetold
      (Session.done_of hnew (hfree m (Or.inl rfl))) n

/-- **There is an outlook** that is right about all methods. -/
theorem exists_outlook (hfixed : cfg.policy.Fixed)
    (hacyclic : ∀ c, ¬ Reaches cfg p c c) {methods : Finset MethodId}
    (hmethods : ∀ ref c, cfg.resolve ref = some c → c ∈ methods)
    (hs : s.Begins p) (hready : (tracing cfg p).ready s) (passes : List Pass) :
    ∃ o : Outlook, o.methods = methods ∧
      ∀ m ∈ methods, o.Predicts cfg passes p m := by
  classical
  obtain ⟨alone, halone⟩ := exists_alone hfixed hacyclic hmethods hready passes
  obtain ⟨cost, hcost⟩ := exists_cost (Inline.rank cfg p methods)
    (fun m => methods.filter fun c => (alone m).2.progressOf c = .done ∧
      Reaches cfg p m c) (fun m => (alone m).2.stats.tally) (fun m c hc =>
        Inline.rank_lt hacyclic hmethods (Finset.mem_filter.mp hc).2.2)
  let o : Outlook := {
    methods
    fine m := (alone m).1 = .ok ()
    form m := (alone m).2.program.form (((p.method m).body).getD ⟨0⟩)
    cost }
  refine ⟨o, rfl, fun m hm => ?_⟩
  obtain ⟨rank, hrank⟩ : ∃ rank, rank = Inline.rank cfg p methods m := ⟨_, rfl⟩
  induction rank using Nat.strong_induction_on generalizing m with
  | _ rank ih =>
      subst hrank
      obtain ⟨hended, n, hn⟩ := halone m
      refine hs.predicts (N := n) hready hfixed hacyclic (fun c hc => ?_) hm ?_
      · exact ih _ (Inline.rank_lt hacyclic hmethods hc) c
          (Inline.Reaches.mem hmethods hc) rfl
      · rw [hn]
        refine ⟨hended, Iff.rfl, fun b hb => ?_, _, fun c => ?_, hcost m⟩
        · change (alone m).2.program.form (((p.method m).body).getD ⟨0⟩) = _
          rw [hb, Option.getD_some]
        · rw [Finset.mem_filter]

end Outlook

/-! ### Runs -/

section Runs

variable {cfg : InlineSettings} {passes : List Pass} {p : Program}
  {s t : Session σ} {ms : List MethodId} {m c : MethodId} {o : Outlook}

/-- Between the visits of a run: the session is as foretold, and no visit is
going on. -/
structure Session.Between (cfg : InlineSettings) (p : Program) (o : Outlook)
    (s : Session σ) : Prop where
  ready : (tracing cfg p).ready s
  foretold : ∀ c, s.Foretold p o c
  idle : ∀ c, s.progressOf c ≠ .inProgress
  excess : ∀ k, s.excess o k = 0

/-- What visits of the methods of a list come to that begin in session `s`. -/
def Session.GoesThrough (cfg : InlineSettings) (p : Program) (o : Outlook)
    (ms : List MethodId) (s : Session σ) : Except Fault Unit × Session σ → Prop
  | (.ok _, t) => t.Between cfg p o ∧ s.Extends t ∧ ∀ m ∈ ms, o.fine m ∧
      t.progressOf m = .done
  | (.error e, _) => e = .outOfFuel ∨ ∃ m ∈ ms, ¬ o.fine m

/-- The methods are visited one after the other, as is foretold. -/
theorem Session.Between.visits (hs : s.Between cfg p o)
    (hfixed : cfg.policy.Fixed)
    (hpredicts : ∀ m ∈ ms, o.Predicts cfg passes p m) (n : Nat) :
    s.GoesThrough cfg p o ms
    ((ms.forM fun m => (Optimizer.ofPasses cfg passes).optimize n (some m) :
      SessionM σ Unit) s) := by
  induction ms generalizing s with
  | nil => exact ⟨hs, .refl s, fun m hm => by cases hm⟩
  | cons m ms ih =>
      have hforesees := hpredicts m List.mem_cons_self n s hs.ready hs.foretold
        fun c _ => hs.idle c
      have hreturns := (tracing_obeyed hfixed passes).calls n m s hs.ready
      change s.GoesThrough cfg p o (m :: ms)
        (((Optimizer.ofPasses cfg passes).optimize n (some m) >>= fun _ =>
          ms.forM fun m => (Optimizer.ofPasses cfg passes).optimize n (some m) :
            SessionM σ Unit) s)
      rw [bind_apply]
      generalize hr : (Optimizer.ofPasses cfg passes).optimize n (some m) s = r
        at hforesees hreturns
      obtain ⟨e | ⟨⟩, t⟩ := r
      · rcases hforesees with he | hno
        · exact Or.inl he
        · exact Or.inr ⟨m, List.mem_cons_self, hno⟩
      · obtain ⟨hfine, hforetold, hexcess, -⟩ := hforesees
        obtain ⟨hready, hext, hbusy⟩ := hreturns
        have ht : t.Between cfg p o := ⟨hready, hforetold, fun c hc => hs.idle c
          (hbusy c hc), fun k => (hexcess k).trans (hs.excess k)⟩
        have hdone : t.progressOf m = .done :=
          Optimizer.optimize_done hr (hs.idle m)
        have hrest := ih ht fun d hd => hpredicts d (List.mem_cons_of_mem _ hd)
        simp only
        generalize (ms.forM fun m => (Optimizer.ofPasses cfg passes).optimize n
          (some m) : SessionM σ Unit) t = r at hrest ⊢
        obtain ⟨e | ⟨⟩, u⟩ := r
        · rcases hrest with he | ⟨d, hd, hno⟩
          · exact Or.inl he
          · exact Or.inr ⟨d, List.mem_cons_of_mem _ hd, hno⟩
        · obtain ⟨hu, hext', hall⟩ := hrest
          refine ⟨hu, hext.trans hext', fun d hd => ?_⟩
          rcases List.mem_cons.mp hd with rfl | hd
          · exact ⟨hfine, (hext'.progress d (by simp [hdone])).trans hdone⟩
          · exact hall d hd

/-- **What a run comes to** depends on the outlook and on the methods of the
list only. -/
theorem Session.Begins.run (hs : s.Begins p) (hready : (tracing cfg p).ready s)
    (hfixed : cfg.policy.Fixed) (hmethods : o.methods = ms.toFinset)
    (hpredicts : ∀ m ∈ ms, o.Predicts cfg passes p m) {n : Nat}
    {r : Except Fault Unit × Session σ}
    (hr : (Optimizer.ofPasses cfg passes).run n ms s = r)
    (hended : r.1 ≠ .error .outOfFuel) :
    (r.1 = .ok () ↔ ∀ m ∈ ms, o.fine m) ∧ (r.1 = .ok () →
      (∀ m ∈ ms, ∀ b, (p.method m).body = some b → r.2.program.form b =
        o.form m) ∧ ∀ k, r.2.stats.tally k = ∑ c ∈ o.methods, o.cost c k) := by
  have hstart : Session.Between cfg p o (s.count
      fun t => { t with before := t.before + s.program.instrCount ms }) := by
    refine ⟨⟨hready.1.counted _, hready.2⟩, fun c => (hs.foretold o c).congr rfl
      fun _ _ => rfl, fun c => ?_, fun k => ?_⟩
    · change s.progressOf c ≠ .inProgress
      simp [hs.notVisited c]
    · rw [← hs.excess o k]
      cases k <;> rfl
  have hvisits := hstart.visits hfixed hpredicts n
  rw [Optimizer.run_apply] at hr
  generalize (ms.forM fun m => (Optimizer.ofPasses cfg passes).optimize n
    (some m) : SessionM σ Unit) _ = x at hvisits hr
  obtain ⟨e | ⟨⟩, t⟩ := x
  · obtain rfl : r = (.error e, t) := hr.symm
    obtain ⟨m, hm, hno⟩ := hvisits.resolve_left fun he => hended (by rw [he])
    exact ⟨⟨fun h => (by cases h), fun h => absurd (h m hm) hno⟩,
      fun h => (by cases h)⟩
  · obtain rfl : r = (.ok (), t.count fun x =>
      { x with after := x.after + t.program.instrCount ms }) := hr.symm
    obtain ⟨ht, -, hall⟩ := hvisits
    refine ⟨⟨fun _ m hm => (hall m hm).1, fun _ => rfl⟩, fun _ =>
      ⟨fun m hm => ((ht.foretold m).done (hall m hm).2).2, fun k => ?_⟩⟩
    have hfilter : o.methods.filter (fun c => t.progressOf c = .done) =
        o.methods := by
      refine Finset.filter_true_of_mem fun c hc => (hall c ?_).2
      rwa [hmethods, List.mem_toFinset] at hc
    have hzero := ht.excess k
    rw [Session.excess, hfilter] at hzero
    have hsame : (t.count fun x =>
        { x with after := x.after + t.program.instrCount ms }).stats.tally k =
        t.stats.tally k := by
      cases k <;> rfl
    rw [hsame]
    omega

end Runs

/-! ### Two orders -/

/-- Of how calls are resolved, passes see the results only. -/
theorem Pass.rule_resolves {cfg cfg' : InlineSettings}
    (hresolve : ∀ ref, cfg'.resolve ref = cfg.resolve ref)
    (hpolicy : cfg'.policy = cfg.policy) (hbudget : cfg'.budget = cfg.budget)
    (pass : Pass) : (pass.rule cfg' : Rule σ) = pass.rule cfg := by
  have hcallee : Inline.callee? cfg' = Inline.callee? cfg := by
    funext s call
    rw [Inline.callee?, Inline.callee?]
    simp only [hresolve]
  have hself : Inline.callsItself cfg' = Inline.callsItself cfg := by
    funext p m b
    rw [Inline.callsItself, Inline.callsItself]
    simp only [hresolve]
  have hasked : (Inline.approves cfg' : MethodId → VisitM σ Bool) =
      Inline.approves cfg := by
    funext m v
    rw [Inline.approves, Inline.approves, hpolicy]
  have hwithin : Inline.withinBudget cfg' = Inline.withinBudget cfg := by
    funext e
    rw [Inline.withinBudget, Inline.withinBudget, hbudget]
  have happly : (Inline.apply cfg' : _ → VisitM σ Unit) = Inline.apply cfg := by
    funext optimize
    rw [Inline.apply, Inline.apply, hcallee, hself, hasked, hwithin]
  cases pass with
  | inlineFunctionCall => rw [Pass.rule, Pass.rule, happly]
  | _ => rfl

section AnyOrder

variable {p : Program} {ms ms' : List MethodId} {policy : Policy} {budget : Int}
  {passes : List Pass} {s s' : Session σ}

/-- Passes that resolve calls among the given methods. -/
def among (p : Program) (policy : Policy) (budget : Int) (ms : List MethodId) :
    InlineSettings :=
  { resolution := some (.ofMethods p ms), policy, budget }

theorem ofPasses_perm (hkeys : (ms.map fun m => (p.method m).ref.key).Nodup)
    (hperm : ms.Perm ms') :
    (Optimizer.ofPasses (among p policy budget ms') passes : Optimizer σ) =
    .ofPasses (among p policy budget ms) passes := by
  have hrule : ∀ pass : Pass, (pass.rule (among p policy budget ms') : Rule σ) =
      pass.rule (among p policy budget ms) :=
    Pass.rule_resolves
      (fun ref => Resolution.resolve_perm hkeys hperm ref) rfl rfl
  rw [Optimizer.ofPasses, Optimizer.ofPasses, funext hrule]

/-- Runs do not fail in programs whose slots are numbered from zero. -/
theorem Session.Begins.unfailing (hs : s.Begins p) (hp : p.WellLinked)
    (hshare : p.Unshared) (hslots : p.SlotsFromZero) (cfg : InlineSettings)
    (passes : List Pass) (n : Nat) (ms : List MethodId) :
    Unfailing ((Optimizer.ofPasses cfg passes).run n ms s).1 := by
  obtain ⟨rfl, -, -, -⟩ := hs
  have ho := Optimizer.appliesPasses_ofPasses (σ := σ) cfg passes
  have hcount : ∀ (s : Session σ) f, counting.ready s →
      counting.ready (s.count f) :=
    fun _ _ h => ⟨⟨h.1.linked, h.1.unshared⟩, h.2⟩
  have hcalls : ∀ m (s : Session σ), counting.ready s →
      Meets (fun _ s' => counting.ready s') (counting (σ := σ)).broken
      ((Optimizer.ofPasses cfg passes).optimize n (some m) s) :=
    fun m s hs => ((counting_obeyed ho).calls n m s hs).mono
      (fun _ _ h => ⟨h.1.1, h.2⟩) fun _ h => h
  exact Optimizer.unfailing_perform hcount hcalls (unfailing_calls ho n)
    ⟨⟨hp, hshare⟩, hslots⟩ (.run ms) (by simp)

variable (passes) in
/-- **The order of methods does not matter.**  The methods of the list share no
bodies and have keys that differ, all branches stay within bodies, no accepted
call leads back, and the policy looks at declarations only, as the baseline does
without limits (`Policy.baseline_fixed`).  Any passes are applied in any order,
with any budget.  Two runs begin on that program, one over the list and one over
the same methods in another order, and each resolves calls in a table of its own
list.  With fuel enough, both come to an end, and they succeed or fail together;
where slots are numbered from zero they succeed.  Then every method has a body
of the same form in both, and the same has been counted: methods, calls inlined
and refused, and changes by each pass. -/
theorem any_order (hp : p.WellLinked) (hshare : p.Unshared)
    (hclosed : p.NoDangling)
    (hkeys : (ms.map fun m => (p.method m).ref.key).Nodup) (hperm : ms.Perm ms')
    (hfixed : policy.Fixed)
      (hacyclic : ∀ m, ¬ Reaches (among p policy budget ms) p m m)
    (hs : s.Begins p) (hs' : s'.Begins p) :
    ∃ n, ∀ fuel, n ≤ fuel →
      let r :=
        (Optimizer.ofPasses (among p policy budget ms) passes).run fuel ms s
      let r' :=
        (Optimizer.ofPasses (among p policy budget ms') passes).run fuel ms' s'
      r.1 ≠ .error .outOfFuel ∧ r'.1 ≠ .error .outOfFuel ∧
        (r'.1 = .ok () ↔ r.1 = .ok ()) ∧
      (p.SlotsFromZero → r.1 = .ok ()) ∧
      (r.1 = .ok () →
        (∀ m ∈ ms, ∀ b, (p.method m).body = some b →
          r'.2.program.form b = r.2.program.form b) ∧
        ∀ k, r'.2.stats.tally k = r.2.stats.tally k) := by
  have hmethods : ∀ ref c, (among p policy budget ms).resolve ref = some c →
      c ∈ ms.toFinset :=
    fun ref c hc => List.mem_toFinset.mpr (Resolution.mem_of_resolve hc)
  have hready := hs.ready hp hshare hclosed (among p policy budget ms)
  have hready' := hs'.ready hp hshare hclosed (among p policy budget ms)
  obtain ⟨o, ho, hpredicts⟩ :=
    exists_outlook hfixed hacyclic hmethods hs hready passes
  have hpredicts : ∀ m ∈ ms, o.Predicts (among p policy budget ms) passes p m :=
    fun m hm => hpredicts m (List.mem_toFinset.mpr hm)
  obtain ⟨n, r, hn, -, hfail⟩ :=
    settles_acyclic passes hfixed hacyclic hmethods hready (.run ms)
  obtain ⟨n', r', hn', -, hfail'⟩ :=
    settles_acyclic passes hfixed hacyclic hmethods hready' (.run ms')
  refine ⟨max n n', fun fuel hfuel => ?_⟩
  rw [ofPasses_perm hkeys hperm]
  have hrun : (Optimizer.ofPasses
      (among p policy budget ms) passes).run fuel ms s = r :=
    hn fuel (le_of_max_le_left hfuel)
  have hrun' : (Optimizer.ofPasses
      (among p policy budget ms) passes).run fuel ms' s' = r' :=
    hn' fuel (le_of_max_le_right hfuel)
  have hunfailing := fun hslots =>
    hs.unfailing hp hshare hslots (among p policy budget ms) passes fuel ms
  rw [hrun] at hunfailing
  simp only [hrun, hrun']
  have hended : r.1 ≠ .error .outOfFuel := fun heq => hfail _ heq rfl
  have hended' : r'.1 ≠ .error .outOfFuel := fun heq => hfail' _ heq rfl
  obtain ⟨hfine, hcomes⟩ := hs.run hready hfixed ho hpredicts hrun hended
  obtain ⟨hfine', hcomes'⟩ :=
    hs'.run hready' hfixed (ho.trans (List.toFinset_eq_of_perm _ _ hperm))
    (fun m hm => hpredicts m (hperm.mem_iff.mpr hm)) hrun' hended'
  have hboth : r'.1 = .ok () ↔ r.1 = .ok () := by
    rw [hfine, hfine']
    exact ⟨fun h m hm => h m (hperm.mem_iff.mp hm),
      fun h m hm => h m (hperm.mem_iff.mpr hm)⟩
  refine ⟨hended, hended', hboth, fun hslots => ?_, fun hok => ?_⟩
  · obtain ⟨e | ⟨⟩, t⟩ := r
    · obtain rfl := hunfailing hslots e rfl
      exact absurd rfl hended
    · rfl
  · obtain ⟨hform, htally⟩ := hcomes hok
    obtain ⟨hform', htally'⟩ := hcomes' (hboth.mpr hok)
    refine ⟨fun m hm b hb => ?_, fun k => (htally' k).trans (htally k).symm⟩
    rw [hform m hm b hb, hform' m (hperm.mem_iff.mp hm) b hb]

/-- A method that calls two others, the first of which calls the second. -/
def staircase : Program where
  instrs := #[⟨.call, .method ⟨"", "middle", [], "void"⟩, some ⟨0⟩⟩,
    ⟨.call, .method ⟨"", "bottom", [], "void"⟩, some ⟨0⟩⟩,
    ⟨⟨0x70⟩, .absent, some ⟨0⟩⟩,
    ⟨.call, .method ⟨"", "bottom", [], "void"⟩, some ⟨1⟩⟩,
    ⟨⟨0x70⟩, .absent, some ⟨1⟩⟩,
    ⟨.br, .target ⟨6⟩, some ⟨2⟩⟩, ⟨⟨0x70⟩, .absent, some ⟨2⟩⟩]
  bodies := #[{ code := [⟨0⟩, ⟨1⟩, ⟨2⟩] }, { code := [⟨3⟩, ⟨4⟩] },
    { code := [⟨5⟩, ⟨6⟩] }]
  methods := #[{ name := "top", body := some ⟨0⟩ },
    { name := "middle", attrs := 1, body := some ⟨1⟩ },
    { name := "bottom", attrs := 1, body := some ⟨2⟩ }]

/-- From the top each call asks for what it goes to, and from the bottom all of
that is there already.  All three calls are taken in either way. -/
theorem any_order_staircase :
    let cfg := among staircase (.baseline {}) 0 [⟨0⟩, ⟨1⟩, ⟨2⟩]
    let cfg' := among staircase (.baseline {}) 0 [⟨2⟩, ⟨1⟩, ⟨0⟩]
    let s : Session Unit := { program := staircase, client := () }
    staircase.WellLinked ∧ staircase.Unshared ∧ staircase.NoDangling ∧
      staircase.SlotsFromZero ∧
    (([⟨0⟩, ⟨1⟩, ⟨2⟩] : List MethodId).map
      fun m => (staircase.method m).ref.key).Nodup ∧
    (∀ m, ¬ Reaches cfg staircase m m) ∧
    ((Optimizer.ofPasses cfg Pass.standard).run 40
      [⟨0⟩, ⟨1⟩, ⟨2⟩] s).2.stats.inlined = 3 ∧
    ∃ n, ∀ fuel, n ≤ fuel →
      let r := (Optimizer.ofPasses cfg Pass.standard).run fuel [⟨0⟩, ⟨1⟩, ⟨2⟩] s
      let r' :=
        (Optimizer.ofPasses cfg' Pass.standard).run fuel [⟨2⟩, ⟨1⟩, ⟨0⟩] s
      r.1 = .ok () ∧ r'.1 = .ok () ∧
      (∀ m ∈ [⟨0⟩, ⟨1⟩, ⟨2⟩], ∀ b, (staircase.method m).body = some b →
        r'.2.program.form b = r.2.program.form b) ∧
      ∀ k, r'.2.stats.tally k = r.2.stats.tally k := by
  intro cfg cfg' s
  have hp : staircase.WellLinked := by decide
  have hshare : staircase.Unshared := by decide
  have hclosed : staircase.NoDangling := by decide
  have hslots : staircase.SlotsFromZero := by decide
  have hkeys : (([⟨0⟩, ⟨1⟩, ⟨2⟩] : List MethodId).map fun m =>
      (staircase.method m).ref.key).Nodup := by decide
  have hperm : ([⟨0⟩, ⟨1⟩, ⟨2⟩] : List MethodId).Perm [⟨2⟩, ⟨1⟩, ⟨0⟩] := by
    decide
  have hdown : ∀ c d, Inline.Leads cfg staircase c d → c.index < d.index := by
    intro c d hleads
    obtain ⟨-, b, hb, hd⟩ := hleads
    have hall : ∀ n < staircase.methods.size, ∀ b ∈ (staircase.method ⟨n⟩).body,
        ∀ x ∈ staircase.contents b, ∀ d ∈ Inline.calleeOf cfg x, n <
        d.index := by decide +kernel
    obtain ⟨x, hx, hd⟩ := (Multiset.mem_filterMap _ _).mp hd
    exact hall c.index (Program.index_lt_of_body hb) b hb x hx d hd
  have hacyclic : ∀ m, ¬ Reaches cfg staircase m m := by
    intro m hm
    have hlt := hm.lift MethodId.index hdown
    rw [Relation.transGen_eq_self] at hlt
    exact lt_irrefl _ hlt
  have hs : s.Begins staircase := ⟨rfl, rfl, rfl, rfl⟩
  obtain ⟨n, hn⟩ := any_order Pass.standard hp hshare hclosed hkeys hperm
    (Policy.baseline_fixed le_rfl le_rfl) hacyclic hs hs
  refine ⟨hp, hshare, hclosed, hslots, hkeys, hacyclic, by decide +kernel, n,
    fun fuel hfuel => ?_⟩
  obtain ⟨-, -, hboth, hok, hsame⟩ := hn fuel hfuel
  exact ⟨hok hslots, hboth.mpr (hok hslots), hsame (hok hslots)⟩

end AnyOrder

end Bytecode
