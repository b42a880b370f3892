import Mathlib
import Bytecode.Proofs.Finishing
import Bytecode.Proofs.Driver
import Bytecode.Proofs.Resolving

/-!
# Every request comes to an end

With a budget each visit takes in so many calls and no more.  Without one it is
the order in which methods are finished that keeps the inliner from going in
circles: where a call is taken in, the calls that come with it lead to methods
that have been finished later than the callee.

The main statement is `always_ends`: whatever an optimiser that applies the six
passes is asked, some fuel is enough to answer it.
-/

namespace Bytecode

variable {σ : Type}

/-- Calls lead to finitely many methods. -/
theorem InlineSettings.exists_methods (cfg : InlineSettings) :
    ∃ methods : List MethodId, ∀ ref m, cfg.resolve ref = some m →
      m ∈ methods := by
  cases hcfg : cfg.resolution with
  | none =>
      refine ⟨[], fun ref m hm => ?_⟩
      rw [resolve, hcfg] at hm
      cases hm
  | some t =>
      refine ⟨t.entries.map Prod.snd, fun ref m hm => ?_⟩
      rw [resolve, hcfg] at hm
      obtain ⟨r, -, hlook⟩ : ∃ r, ref = some r ∧
          t.entries.lookup r.key = some m :=
        Option.bind_eq_some_iff.mp hm
      exact List.mem_map_of_mem (Memo.mem_of_lookup hlook)

/-- A table leads to the methods that it has been made for. -/
theorem Resolution.mem_of_resolve {p : Program} {ms : List MethodId}
    {ref : Option MethodRef} {m : MethodId}
    (h : (ofMethods p ms).resolve ref = some m) : m ∈ ms := by
  cases ref with
  | none => cases h
  | some r =>
      obtain ⟨pre, post, rfl, -⟩ := resolve_ofMethods_iff.mp h
      simp

section Loads

variable {cfg : InlineSettings} {passes : List Pass} {methods : List MethodId}
  {s t : Session σ} {m c : MethodId} {b k : BodyId}

/-! ### With a budget -/

/-- How many calls may still be taken in. -/
def allowance (cfg : InlineSettings) (v : Visit σ) : Nat :=
  (cfg.budget - v.editor.inlined).toNat

theorem allowance_congr {v v' : Visit σ}
    (h : v'.editor.inlined = v.editor.inlined) :
    allowance cfg v' = allowance cfg v := by
  rw [allowance, allowance, h]

/-- What is left of the budget is a load. -/
theorem budget_loads (hguard : .inlineFunctionCall ∈ passes → 0 < cfg.budget)
    (s : Session σ) (m : MethodId) :
    frame.Loads cfg passes s m (· < ·) (allowance cfg) where
  wf := wellFounded_lt
  within := by
    intro p v hv
    cases p with
    | scanning => exact hv
    | offering => exact hv.1
  offers := fun hv => hv.2
  ready := fun hv _ => consulted_sound cfg hv.1.session _
  unmoved := fun _ _ _ _ hinlined => allowance_congr hinlined
  effect := fun _ _ he _ => Or.inr (allowance_congr he.inlined)
  asked := fun _ _ => Or.inr rfl
  taken := by
    intro changed rest v i c b anchor v' hinline _ htaking _ hreplaces _ _
    have hpos := hguard hinline
    have hinlined : v'.editor.inlined = v.editor.inlined + 1 :=
      hreplaces.inlined
    have hbudget := htaking.budget
    simp only [Inline.withinBudget, Bool.or_eq_true, decide_eq_true_eq]
      at hbudget
    rw [allowance, allowance, hinlined]
    omega

/-! ### Without a budget -/

open Classical in
/-- The calls that may be taken in, each with the age of its callee. -/
noncomputable def ages (cfg : InlineSettings) (s : Session σ) (b : BodyId) :
    Multiset Nat :=
  ((Inline.callees cfg s.program b).filter (s.Open cfg)).map s.age

theorem lt_or_eq_of_le {M N : Multiset Nat} (h : M ≤ N) :
    M.IsDershowitzMannaLT N ∨ M = N := by
  obtain ⟨Z, rfl⟩ := Multiset.le_iff_exists_add.mp h
  by_cases hZ : Z = 0
  · subst hZ
    exact Or.inr (add_zero M).symm
  · exact Or.inl ⟨M, 0, Z, hZ, (add_zero M).symm, rfl,
      fun y hy => by simp at hy⟩

/-- Smaller numbers, or fewer of them, take the place of one. -/
theorem lt_of_replaced {M X Y : Multiset Nat} {a : Nat} (hM : M ≤ X + Y)
    (hY : ∀ y ∈ Y, y < a) : M.IsDershowitzMannaLT (X + {a}) := by
  have hlt : (X + Y).IsDershowitzMannaLT (X + {a}) :=
    ⟨X, Y, {a}, by simp, rfl, rfl,
      fun y hy => ⟨a, Multiset.mem_singleton_self _, hY y hy⟩⟩
  rcases lt_or_eq_of_le hM with hless | rfl
  · exact hless.trans hlt
  · exact hlt

theorem age_congr (h : t.progress = s.progress) : t.age = s.age := by
  funext d
  rw [Session.age, Session.age, Session.finished, Session.finished, h]

/-- Fewer calls, of which fewer may be taken in. -/
theorem ages_le (hprogress : t.progress = s.progress)
    (hcallees : Inline.callees cfg t.program k ≤ Inline.callees cfg s.program b)
    (hopen : ∀ d, t.Open cfg d → s.Open cfg d) :
    ages cfg t k ≤ ages cfg s b := by
  classical
  rw [ages, ages, age_congr hprogress]
  apply Multiset.map_le_map
  exact (Multiset.monotone_filter_right _ hopen).trans
    (Multiset.filter_le_filter _ hcallees)

theorem Open.congr (hprogram : t.program = s.program)
    (hprogress : t.progress = s.progress) (hmemo : t.memo = s.memo)
    {d : MethodId} (h : t.Open cfg d) : s.Open cfg d := by
  rwa [Session.Open, Session.Barred, Session.progressOf, hprogram, hprogress,
    hmemo] at h

/-- A callee that is taken in may be taken in. -/
theorem open_of_taking {v : Visit σ} {i anchor : InstrId}
    (htaking : Law.Taking cfg { v with
      session := Inline.consulted cfg c v.session } i c b anchor)
    (hyes : Inline.approved cfg c v.session = true) : v.session.Open cfg c := by
  obtain ⟨hbusy, hbody, hself⟩ : v.session.progressOf c ≠ .inProgress ∧
      (v.session.program.method c).body ≠ none ∧
      ∀ k, (v.session.program.method c).body = some k →
      c ∉ Inline.callees cfg v.session.program k := by
    refine ⟨fun h => htaking.open_ (Or.inl h),
      fun h => htaking.open_ (Or.inr (Or.inl h)), ?_⟩
    intro k hk hself
    exact htaking.open_
      (Or.inr (Or.inr ⟨k, hk, Inline.callsItself_iff.mpr hself⟩))
  have hvisited : v.session.progressOf c ≠ .notVisited := htaking.visited
  constructor
  · exact Session.done_of hvisited hbusy
  · rintro (hno | hnone | ⟨k, hk, hmem⟩)
    · rw [Inline.approved, hno] at hyes
      cases hyes
    · exact hbody hnone
    · exact hself k hk hmem

/-- A visit changes the body of its method, which is in progress. -/
theorem reworked_of_evolves {v v' : Visit σ} (hv : v.Within s m)
    (he : v.editing.Evolves v'.editing)
    (hprogress : v'.session.progress = v.session.progress) :
    Session.Reworked m v.editor.body v.session v'.session :=
  ⟨hv.busy, hv.body, he.changed, he.sound.linked, hprogress⟩

/-- When a call is taken in, calls of methods that have been finished later take
its place. -/
theorem ages_lt_of_taken (hs : s.Orderly cfg methods) (ht : s.Reworked m b t)
    (hopen : ∀ d, t.Open cfg d → s.Open cfg d) (hc : s.Open cfg c)
    (hbody : (s.program.method c).body = some k) {others : Multiset MethodId}
    (hbefore : Inline.callees cfg s.program b = c ::ₘ others)
    (hafter : Inline.callees cfg t.program b ≤
      others + Inline.callees cfg s.program k) :
    (ages cfg t b).IsDershowitzMannaLT (ages cfg s b) := by
  classical
  obtain ⟨X, hX⟩ : ∃ X, X = (others.filter (s.Open cfg)).map s.age := ⟨_, rfl⟩
  have hgone : ages cfg s b = X + {s.age c} := by
    rw [ages, hbefore, Multiset.filter_cons_of_pos _ hc, Multiset.map_cons, hX,
      ← Multiset.singleton_add, add_comm]
  have hle : ages cfg t b ≤ X + ages cfg s k := by
    rw [ages, ages, hX, ← Multiset.map_add, ← Multiset.filter_add,
      age_congr ht.progress]
    apply Multiset.map_le_map
    exact (Multiset.monotone_filter_right _ hopen).trans
      (Multiset.filter_le_filter _ hafter)
  have hlater : ∀ y ∈ ages cfg s k, y < s.age c := by
    intro y hy
    obtain ⟨d, hd, rfl⟩ := Multiset.mem_map.mp hy
    obtain ⟨hd, hdopen⟩ := Multiset.mem_filter.mp hd
    rcases hs.settled c k hc.1 hbody d hd with rfl | hlater
    · exact absurd (Or.inr (Or.inr ⟨k, hbody, hd⟩)) hdopen.2
    · exact hlater hdopen
  rw [hgone]
  exact lt_of_replaced hle hlater

/-- The calls that may be taken in are a load. -/
theorem calls_load (hmethods : ∀ ref c, cfg.resolve ref = some c → c ∈ methods)
    (s : Session σ) (m : MethodId) :
    (finishing cfg methods).Loads cfg passes s m Multiset.IsDershowitzMannaLT
    fun v => ages cfg v.session v.editor.body where
  wf := Multiset.wellFounded_isDershowitzMannaLT
  within := by
    intro p v hv
    cases p with
    | scanning => exact hv.1.toWithin
    | offering => exact hv.1.toWithin
  offers := by
    rintro changed rest v ⟨-, i, -, hi, -⟩
    exact ⟨i, hi⟩
  ready :=
    fun hv hcallee => hv.1.orderly.asked (Law.callee_mem hmethods hcallee)
  unmoved := by
    intro v v' hprogram hprogress hmemo hbody _
    rw [hbody]
    apply le_antisymm
    · exact ages_le hprogress (by rw [hprogram]) fun d =>
        Open.congr hprogram hprogress hmemo
    · exact ages_le hprogress.symm (by rw [hprogram]) fun d =>
        Open.congr hprogram.symm hprogress.symm hmemo.symm
  effect := by
    rintro changed rest v i pass e ⟨hv, -⟩ hi he heffect
    have hworked :
        Session.Reworked m v.editor.body v.session (v.setEditing e).session :=
      reworked_of_evolves hv.toWithin he.toEvolves rfl
    have hbody : (v.setEditing e).editor.body = v.editor.body := he.body
    rw [hbody]
    have hfewer : Inline.callees cfg e.program v.editing.editor.body ≤
        Inline.callees cfg v.editing.program v.editing.editor.body :=
      Inline.callees_effect heffect hv.sound hi.2
    apply lt_or_eq_of_le
    exact ages_le rfl hfewer fun d => hworked.open hv.session fun _ hno => hno
  asked := by
    rintro changed rest v i c ⟨hv, -⟩ hcallee
    apply lt_or_eq_of_le
    exact ages_le rfl le_rfl fun d =>
      Session.Open.of_asked hv.orderly.firm (Law.callee_mem hmethods hcallee)
  taken := by
    rintro changed rest v i c b anchor v' - ⟨hv, -⟩
      htaking hyes hreplaces hprogress hmemo
    have hcb : b ≠ v.editor.body := by
      rintro rfl
      have hcm := hv.unshared m c _ hv.body htaking.body
      exact Inline.callee?_ne htaking.callee (hcm.trans hv.method.symm)
    have hworked := reworked_of_evolves hv.toWithin hreplaces.evolves hprogress
    have hbody : v'.editor.body = v.editor.body := hreplaces.evolves.body
    obtain ⟨others, hbefore, hafter⟩ :=
      hreplaces.callees hv.sound htaking.offers.2 htaking.next hcb
      (Inline.calleeOf_of_callee? htaking.callee)
    rw [hbody]
    refine ages_lt_of_taken hv.orderly hworked
      (fun d => hworked.open hv.session ?_)
      (open_of_taking htaking hyes) htaking.body hbefore hafter
    intro d hno
    rw [hmemo]
    exact hno.ask _ hv.orderly.firm (Law.callee_mem hmethods htaking.callee)

end Loads

/-! ### Requests -/

namespace Optimizer

section Requests

variable {o : Optimizer σ} {l : Law σ} {start s : Session σ}

/-- A run settles if the calls settle that it makes. -/
theorem settles_run {good : Session σ → Prop} {bad : Fault → Prop}
    (hcount : ∀ s f, good s → good (s.count f)) (hcalls : ∀ m s, good s →
      Settles (fun _ s' => good s') bad fun n => o.optimize n (some m) s)
    (ms : List MethodId) (hs : good s) :
    Settles (fun _ _ => True) bad fun n => o.run n ms s := by
  have hforM : ∀ s, good s → Settles (fun _ s' => good s') bad fun n =>
      ((ms.forM fun m => o.optimize n (some m) : SessionM σ Unit) s) := by
    induction ms with
    | nil => exact fun s hs => settles_of_eq (fun _ => rfl) hs
    | cons m ms ih =>
        exact fun s hs => (hcalls m s hs).andThen fun _ s' hs' => ih s' hs'
  have hmodify : ∀ (f : Session σ → Stats → Stats) s, good s →
      Settles (fun _ s' => good s') bad
      fun _ : Nat => ((modify fun s => s.count (f s) : SessionM σ Unit) s) :=
    fun f s hs => settles_of_eq (fun _ => rfl) (hcount s (f s) hs)
  apply (hmodify _ s hs).andThen
  intro _ s hs
  apply (hforM s hs).andThen
  intro _ s hs
  exact (hmodify _ s hs).mono fun _ _ _ => trivial

/-- A request settles if all calls do that the law allows for. -/
theorem settles_perform (h : l.Obeyed o)
    (hready : ∀ s s', l.returns s s' → l.ready s')
    (hcount : ∀ s f, l.ready s → l.ready (s.count f))
    (hcalls : ∀ m s, l.ready s → Settles (fun _ _ => True) (· ≠ .outOfFuel)
      fun n => o.optimize n (some m) s) (hs : l.ready s) (q : Request) :
    Settles (fun _ _ => True) (· ≠ .outOfFuel) fun n => q.perform o n s := by
  cases q with
  | run ms =>
      apply settles_run hcount _ ms hs
      intro m s hs
      exact ((hcalls m s hs).meets fun n => h.calls n m s hs).mono
        fun _ s' hs' => hready s s' hs'.2
  | optimize m =>
      cases m with
      | some m => exact hcalls m s hs
      | none =>
          refine ⟨1, (.error (.failed ["optimize nil method"] .invalidArgument),
            s), ?_, ?_, ?_⟩
          · intro n hn
            obtain ⟨n, rfl⟩ :=
              Nat.exists_eq_succ_of_ne_zero (Nat.one_le_iff_ne_zero.mp hn)
            rfl
          · intro a s' heq
            cases heq
          · intro e he
            cases he
            simp

/-- What a law asks for at the start it finds whenever a request has come
back. -/
theorem Served.ready (hs : Served o start s) (h : l.Obeyed o)
    (hready : ∀ s s', l.returns s s' → l.ready s')
    (hcount : ∀ s f, l.ready s → l.ready (s.count f)) (hstart : l.ready start) :
    l.ready s :=
  hs.kept hcount (fun _ _ => trivial)
    (fun fuel m s hs => (h.calls fuel m s hs).mono
      (fun _ s' => hready s s') fun _ _ => trivial) hstart

variable {cfg : InlineSettings} {passes : List Pass} {methods : List MethodId}

/-- A request settles if there is a load for all visits that it leads to. -/
theorem settles_of_loads {ω : Type} {lt : ω → ω → Prop} {load : Visit σ → ω}
    (h : l.Obeyed (ofPasses cfg passes))
    (hready : ∀ s s', l.returns s s' → l.ready s')
    (hcount : ∀ s f, l.ready s → l.ready (s.count f))
    (hl : ∀ s m, l.Loads cfg passes s m lt load)
    (hmethods : ∀ ref c, cfg.resolve ref = some c → c ∈ methods)
    (hstart : l.ready start) (hs : Served (ofPasses cfg passes) start s)
    (q : Request) : Settles (fun _ _ => True) (· ≠ .outOfFuel) fun n =>
    q.perform (ofPasses cfg passes) n s := by
  have hframe :
      ∀ n, frame.Calls ((ofPasses cfg passes : Optimizer σ).optimize n) :=
    (frame_obeyed (appliesPasses_ofPasses cfg passes)).calls
  have hcalls : ∀ m s, l.ready s →
      Settles (fun _ _ => True) (· ≠ .outOfFuel) fun n =>
      (ofPasses cfg passes).optimize n (some m) s := by
    intro m s hs
    exact Law.settles_calls h (fun {_ s m} hcalls _ _ hu =>
      (hl s m).descends hframe hmethods rfl hcalls hu) hs m
  exact settles_perform h hready hcount hcalls
    (hs.ready h hready hcount hstart) q

/-- At the start nothing has been finished. -/
theorem orderly_start (hp : start.program.WellLinked)
    (hshare : start.program.Unshared) (hnew : start.progress = [])
    (hfirm : start.memo.Firm cfg.policy methods)
    (hstops : ∀ m b, (start.program.method m).body = some b →
      start.program.Stops b) : start.Orderly cfg methods where
  linked := hp
  unshared := hshare
  stops := hstops
  firm := hfirm
  ledger := by
    intro m
    rw [Session.finished, Session.progressOf, hnew]
    simp
  settled := by
    intro c b hc
    rw [Session.progressOf, hnew] at hc
    cases hc

/-- **Every request comes to an end.**  An optimiser applies any of the six
passes in any order. It starts on a program whose methods share no bodies, and
its decision on each method is fixed: the policy is pure and the memo says
nothing else, or there is room in the memo for all methods that calls lead to.
If there is a budget, or if the bodies of all methods end stopped, then whatever
it has served so far, some fuel is enough for what it is asked next: with more
fuel it does the same, and it does not run out of it. -/
theorem always_ends (hp : start.program.WellLinked)
    (hshare : start.program.Unshared) (hnew : start.progress = [])
    (hfixed : Memo.Pure cfg.policy ∧ start.memo.Faithful cfg.policy ∨
      ∃ methods, (∀ ref m, cfg.resolve ref = some m → m ∈ methods) ∧
      start.memo.Roomy methods) (hguard : 0 < cfg.budget ∨
        ∀ m b, (start.program.method m).body = some b → start.program.Stops b)
    (hs : Served (ofPasses cfg passes) start s) (q : Request) :
    ∃ n r, (∀ fuel, n ≤ fuel → q.perform (ofPasses cfg passes) fuel s = r) ∧
      r.1 ≠ .error .outOfFuel := by
  have hends : Settles (fun _ _ => True) (· ≠ .outOfFuel) fun n =>
      q.perform (ofPasses cfg passes) n s := by
    by_cases hbudget : .inlineFunctionCall ∈ passes → 0 < cfg.budget
    · obtain ⟨methods, hmethods⟩ := cfg.exists_methods
      exact settles_of_loads (frame_obeyed (appliesPasses_ofPasses cfg passes))
        (fun _ _ h => h.1) (fun _ _ h => ⟨h.linked, h.unshared⟩)
        (budget_loads hbudget) hmethods ⟨hp, hshare⟩ hs q
    · obtain ⟨hinline, hnone⟩ := Classical.not_imp.mp hbudget
      have hstops := hguard.resolve_left hnone
      obtain ⟨methods, hmethods, hfirm⟩ : ∃ methods,
          (∀ ref m, cfg.resolve ref = some m → m ∈ methods) ∧
            start.memo.Firm cfg.policy methods := by
        rcases hfixed with hpure | ⟨methods, hmethods, hroomy⟩
        · obtain ⟨methods, hmethods⟩ := cfg.exists_methods
          exact ⟨methods, hmethods, Or.inl hpure⟩
        · exact ⟨methods, hmethods, Or.inr hroomy⟩
      exact settles_of_loads
        (finishing_obeyed (not_lt.mp hnone) hmethods hinline) (fun _ _ h => h.1)
        (fun _ _ h => h.counted _) (calls_load hmethods) hmethods
        (orderly_start hp hshare hnew hfirm hstops) hs q
  obtain ⟨n, r, hn, -, hfail⟩ := hends
  exact ⟨n, r, hn, fun hr => hfail _ hr rfl⟩

end Requests

/-- Two methods that call each other, and one that calls the first. -/
def evenAndOdd : Program where
  instrs := #[⟨.call, .method ⟨"", "even", [], "void"⟩, some ⟨0⟩⟩,
    ⟨⟨0x70⟩, .absent, some ⟨0⟩⟩,
    ⟨.call, .method ⟨"", "odd", [], "void"⟩, some ⟨1⟩⟩,
    ⟨⟨0x70⟩, .absent, some ⟨1⟩⟩,
    ⟨.call, .method ⟨"", "even", [], "void"⟩, some ⟨2⟩⟩,
    ⟨⟨0x70⟩, .absent, some ⟨2⟩⟩]
  bodies :=
    #[{ code := [⟨0⟩, ⟨1⟩] }, { code := [⟨2⟩, ⟨3⟩] }, { code := [⟨4⟩, ⟨5⟩] }]
  methods := #[{ name := "main", body := some ⟨0⟩ },
    { name := "even", attrs := 1, body := some ⟨1⟩ },
    { name := "odd", attrs := 1, body := some ⟨2⟩ }]

/-- Short methods may be inlined, as often as they are called. -/
def inlineShort : InlineSettings where
  resolution := some (.ofMethods evenAndOdd [⟨0⟩, ⟨1⟩, ⟨2⟩])
  policy := .baseline { maxInstructions := 4 }

/-- The run comes to an end although the methods call each other, and takes a
call in. -/
theorem always_ends_evenAndOdd : evenAndOdd.WellLinked ∧ evenAndOdd.Unshared ∧
    (Memo.ofCapacity 3 : Memo Recent).Roomy [⟨0⟩, ⟨1⟩, ⟨2⟩] ∧
    inlineShort.budget = 0 ∧
    (∀ m b, (evenAndOdd.method m).body = some b → evenAndOdd.Stops b) ∧
    ((Request.run [⟨0⟩, ⟨1⟩, ⟨2⟩]).perform (ofPasses inlineShort Pass.standard)
      40 { program := evenAndOdd, memo := .ofCapacity 3,
           client := () }).2.stats.inlined = 1 ∧
    ∃ n r, (∀ fuel, n ≤ fuel →
      (Request.run [⟨0⟩, ⟨1⟩, ⟨2⟩]).perform (ofPasses inlineShort Pass.standard)
      fuel { program := evenAndOdd, memo := .ofCapacity 3, client := () } = r) ∧
    r.1 ≠ .error .outOfFuel := by
  have hp : evenAndOdd.WellLinked := by decide
  have hshare : evenAndOdd.Unshared := by decide
  have hroomy : (Memo.ofCapacity 3 : Memo Recent).Roomy [⟨0⟩, ⟨1⟩, ⟨2⟩] :=
    Memo.roomy_empty rfl (by decide)
  have hmethods : ∀ ref m, inlineShort.resolve ref = some m →
      m ∈ [⟨0⟩, ⟨1⟩, ⟨2⟩] :=
    fun ref m hm => Resolution.mem_of_resolve hm
  have hstops : ∀ m b, (evenAndOdd.method m).body = some b →
      evenAndOdd.Stops b := by
    have hall : ∀ n < evenAndOdd.methods.size,
        ∀ b ∈ (evenAndOdd.method ⟨n⟩).body, evenAndOdd.Stops b := by decide
    exact fun m b hb => hall m.index (Program.index_lt_of_body hb) b hb
  have hstart : Served (ofPasses inlineShort Pass.standard)
      { program := evenAndOdd, memo := .ofCapacity 3, client := () }
      { program := evenAndOdd, memo := .ofCapacity 3, client := () } := .start
  have hends := always_ends hp hshare rfl (Or.inr ⟨_, hmethods, hroomy⟩)
    (Or.inr hstops) hstart (.run [⟨0⟩, ⟨1⟩, ⟨2⟩])
  exact ⟨hp, hshare, hroomy, rfl, hstops, by decide +kernel, hends⟩

end Optimizer

end Bytecode
