import Bytecode.Proofs.FixedPoint
import Bytecode.Proofs.MeaningKept
import Bytecode.Proofs.Outlook

/-!
# What the removal of dead code leaves

The pass looks at one instruction at a time: it deletes an instruction that is
not the first one and to which control passes from nowhere.  So code that is
dead but keeps itself alive, such as a loop that nothing enters, stays.  What
stays is the largest set of instructions that is supported: in which each one is
the first, or control passes to it from another one of the set, `live`.

Deleting such an instruction does not change how control passes between the
others, `flows_without`, so this set can be found in the code as it was before
the visit, `alive`.  A deletion never touches the set, and at the end of the
scan no other instruction is left.  The main statement is
`removeDeadCode_leaves`.
-/

namespace Bytecode

variable {σ : Type}

namespace Program

variable {p q : Program} {b : BodyId} {i j k : InstrId} {X : Set InstrId}

/-! ### How control passes in a body -/

/-- Control can pass from `j` to `i`: a branch goes to its target, and what
falls through goes on to the next instruction. -/
def Flows (p : Program) (b : BodyId) (j i : InstrId) : Prop :=
  j ∈ p.code b ∧ ((p.instr j).isBranch = true ∧ p.target? j = some i ∨
    (p.instr j).fallsThrough = true ∧ p.next j = some i)

instance : Decidable (p.Flows b j i) := inferInstanceAs (Decidable (_ ∧ _))

/-- Control flows to instructions of the body. -/
theorem Flows.mem (h : p.Flows b j i) (hp : p.WellLinked)
    (hclosed : p.Closed b) : i ∈ p.code b := by
  obtain ⟨hj, ⟨hbr, htarget⟩ | ⟨-, hnext⟩⟩ := h
  · obtain ⟨t, ht, hto⟩ := hclosed j hj hbr
    obtain rfl : t = i := Option.some.inj (hto.symm.trans htarget)
    exact ht
  · rw [hp.next hj] at hnext
    exact mem_of_elemAfter? hnext

/-- An instruction is unreached if control passes to it from nowhere. -/
theorem unreached_iff (hp : p.WellLinked) {e : Editor}
    (hi : i ∈ p.code e.body) :
    Editing.Unreached ⟨p, e⟩ i ↔ ∀ j, ¬ p.Flows e.body j i := by
  have hbranches : p.branchesTo e.body (some i) = [] ↔ ∀ j ∈ p.code e.body,
      (p.instr j).isBranch = true → p.target? j ≠ some i := by
    simp only [List.eq_nil_iff_forall_not_mem, mem_branchesTo, not_and, ne_eq]
  have hfront : ∀ j, p.prev i = some j ↔
      j ∈ p.code e.body ∧ p.next j = some i := by
    intro j
    rw [hp.prev hi]
    constructor
    · intro h
      have hj := mem_of_elemBefore? h
      rw [hp.next hj]
      exact ⟨hj, (elemBefore?_eq_some_iff (hp.nodup_code _) hi).mp h⟩
    · rintro ⟨hj, h⟩
      rw [hp.next hj] at h
      exact (elemBefore?_eq_some_iff (hp.nodup_code _) hi).mpr h
  rw [Editing.Unreached, hbranches]
  constructor
  · rintro ⟨hno, hfalls⟩ j ⟨hj, ⟨hbr, htarget⟩ | ⟨hft, hnext⟩⟩
    · exact hno j hj hbr htarget
    · rw [hfalls j ((hfront j).mpr ⟨hj, hnext⟩)] at hft
      cases hft
  · intro hno
    refine ⟨fun j hj hbr htarget => hno j ⟨hj, .inl ⟨hbr, htarget⟩⟩,
      fun j hj => ?_⟩
    obtain ⟨hjc, hnext⟩ := (hfront j).mp hj
    by_contra hft
    exact hno j ⟨hjc, .inr ⟨by simpa using hft, hnext⟩⟩

section Without

variable (hp : p.WellLinked) (hi : i ∈ p.code b) (hun : ∀ j, ¬ p.Flows b j i)

include hp hi hun

/-- The others are not touched when an instruction goes to which control passes
from nowhere. -/
theorem instr_without_unreached (hki : k ≠ i) :
    (p.without b i).instr k = p.instr k :=
  instr_without_of_not hp hi hki fun hk hbr htarget =>
    hun k ⟨hk, .inl ⟨hbr, htarget⟩⟩

/-- **Control passes between the others as before** when an instruction goes to
which control passes from nowhere. -/
theorem flows_without (hk : k ∈ p.code b) (hki : k ≠ i) :
    (p.without b i).Flows b k j ↔ p.Flows b k j := by
  have hinstr := instr_without_unreached hp hi hun hki
  have hmem : k ∈ (p.without b i).code b :=
    (mem_code_without hp hi).mpr ⟨hk, hki⟩
  have hnext : (p.instr k).fallsThrough = true →
      (p.without b i).next k = p.next k := by
    intro hft
    rw [next_without hp hi hk hki, if_neg]
    exact fun hnext => hun k ⟨hk, .inr ⟨hft, hnext⟩⟩
  rw [Flows, Flows, target?, target?, hinstr]
  simp only [hk, hmem, true_and]
  refine or_congr_right (and_congr_right fun hft => ?_)
  rw [hnext hft]

end Without

/-! ### What is alive -/

/-- A set of instructions of the body with the first one, in which control
passes to any other member from a member. -/
structure Supported (p : Program) (b : BodyId) (X : Set InstrId) : Prop where
  inside : ∀ i ∈ X, i ∈ p.code b
  entry : ∀ i, p.first? b = some i → i ∈ X
  source : ∀ i ∈ X, p.first? b ≠ some i → ∃ j ∈ X, p.Flows b j i

/-- The instructions that are in some supported set. -/
def live (p : Program) (b : BodyId) : Set InstrId := ⋃₀ {X | p.Supported b X}

/-- The first instruction is supported alone. -/
theorem supported_first (hp : p.WellLinked) (b : BodyId) :
    p.Supported b {i | p.first? b = some i} where
  inside := by
    intro i hi
    change p.first? b = some i at hi
    rw [hp.first?] at hi
    exact List.mem_of_head? hi
  entry := fun _ hi => hi
  source := fun _ hi hfirst => absurd hi hfirst

/-- What is live is supported. -/
theorem supported_live (hp : p.WellLinked) (b : BodyId) :
    p.Supported b (p.live b) where
  inside := by
    rintro i ⟨X, hX, hi⟩
    exact hX.inside i hi
  entry := fun _ hi => ⟨_, supported_first hp b, hi⟩
  source := by
    rintro i ⟨X, hX, hi⟩ hfirst
    obtain ⟨j, hj, hflows⟩ := hX.source i hi hfirst
    exact ⟨j, ⟨X, hX, hj⟩, hflows⟩

/-- Among the supported sets there is a largest one. -/
theorem isGreatest_live (hp : p.WellLinked) (b : BodyId) :
    IsGreatest {X | p.Supported b X} (p.live b) :=
  ⟨supported_live hp b, fun _ hX => Set.subset_sUnion_of_mem hX⟩

/-- Where control passes from what is alive, there it is alive. -/
theorem live_of_flows (hp : p.WellLinked) (hclosed : p.Closed b)
    (hj : j ∈ p.live b) (h : p.Flows b j i) : i ∈ p.live b := by
  have hlive := supported_live hp b
  refine ⟨insert i (p.live b), ⟨?_, fun k hk => Or.inr (hlive.entry k hk), ?_⟩,
    Or.inl rfl⟩
  · rintro k (rfl | hk)
    · exact h.mem hp hclosed
    · exact hlive.inside k hk
  · rintro k (rfl | hk) hfirst
    · exact ⟨j, Or.inr hj, h⟩
    · obtain ⟨l, hl, hflows⟩ := hlive.source k hk hfirst
      exact ⟨l, Or.inr hl, hflows⟩

/-- What can be reached from the first instruction is alive. -/
theorem live_of_reachable (hp : p.WellLinked) (hclosed : p.Closed b)
    {first : InstrId} (hfirst : p.first? b = some first)
    (h : Relation.ReflTransGen (p.Flows b) first i) : i ∈ p.live b := by
  induction h with
  | refl => exact (supported_live hp b).entry first hfirst
  | tail _ hflows ih => exact live_of_flows hp hclosed ih hflows

/-! ### Finding what is alive -/

/-- The first instruction and those to which control passes from an instruction
of the list. -/
def fed (p : Program) (b : BodyId) (l : List InstrId) : List InstrId :=
  l.filter fun i => p.first? b = some i ∨ ∃ j ∈ l, p.Flows b j i

/-- What is left of the code when what is not fed has been taken out often
enough. -/
def alive (p : Program) (b : BodyId) : List InstrId :=
  (p.fed b)^[(p.code b).length] (p.code b)

/-- The fed instructions stand in the order of the list. -/
theorem fed_sublist (l : List InstrId) : (p.fed b l).Sublist l :=
  List.filter_sublist

/-- A list gets shorter until all of it is fed. -/
theorem fed_iterate {n : Nat} {l : List InstrId} (hn : l.length ≤ n) :
    p.fed b ((p.fed b)^[n] l) = (p.fed b)^[n] l := by
  induction n generalizing l with
  | zero =>
      obtain rfl : l = [] := List.length_eq_zero_iff.mp (Nat.le_zero.mp hn)
      rfl
  | succ n ih =>
      rw [Function.iterate_succ_apply]
      rcases (fed_sublist l).length_le.eq_or_lt with hsame | hless
      · have hfixed : p.fed b l = l := (fed_sublist l).eq_of_length hsame
        rw [hfixed, Function.iterate_fixed hfixed, hfixed]
      · exact ih (by omega)

/-- The live instructions stand in the order of the code. -/
theorem alive_sublist : (p.alive b).Sublist (p.code b) :=
  Function.Iterate.rec (fun l : List InstrId => l.Sublist (p.code b)) (.refl _)
    (fun l h => (fed_sublist l).trans h) _

/-- Everything live is among them. -/
theorem mem_alive_of_live (hp : p.WellLinked) (hi : i ∈ p.live b) :
    i ∈ p.alive b := by
  have hlive := supported_live hp b
  -- what is alive is fed by what is alive
  have hstep : ∀ l : List InstrId, (∀ k ∈ p.live b, k ∈ l) →
      ∀ k ∈ p.live b, k ∈ p.fed b l := by
    intro l hl k hk
    refine List.mem_filter.mpr ⟨hl k hk, decide_eq_true ?_⟩
    by_cases hfirst : p.first? b = some k
    · exact Or.inl hfirst
    · obtain ⟨j, hj, hflows⟩ := hlive.source k hk hfirst
      exact Or.inr ⟨j, hl j hj, hflows⟩
  exact Function.Iterate.rec
    (fun l => ∀ k ∈ p.live b, k ∈ l) hlive.inside hstep _ i hi

/-- **What is alive can be found** by taking out what is not fed. -/
theorem mem_alive_iff (hp : p.WellLinked) : i ∈ p.alive b ↔ i ∈ p.live b := by
  refine ⟨fun hi => ⟨{k | k ∈ p.alive b}, ⟨?_, ?_, ?_⟩, hi⟩,
    mem_alive_of_live hp⟩
  · exact fun k hk => alive_sublist.subset hk
  · exact fun k hk => mem_alive_of_live hp ((supported_live hp b).entry k hk)
  · intro k hk hfirst
    change k ∈ p.alive b at hk
    rw [alive, ← fed_iterate le_rfl] at hk
    exact (of_decide_eq_true (List.mem_filter.mp hk).2).resolve_left hfirst

end Program

/-! ### Deletions -/

/-- From `s` to `t`, nothing but dead code has been removed from the body. -/
structure Session.Pruned (s : Session σ) (b : BodyId) (t : Session σ) :
    Prop where
  sublist : (t.program.code b).Sublist (s.program.code b)
  instr : ∀ i ∈ t.program.code b, t.program.instr i = s.program.instr i
  flows : ∀ i ∈ t.program.code b, ∀ j, t.program.Flows b i j ↔
    s.program.Flows b i j
  first : t.program.first? b = s.program.first? b
  live : ∀ i ∈ s.program.live b, i ∈ t.program.code b
  fired :
    t.stats.fired.count Pass.removeDeadCode.name + (t.program.code b).length =
    s.stats.fired.count Pass.removeDeadCode.name + (s.program.code b).length
  others : ∀ name ≠ Pass.removeDeadCode.name, t.stats.fired.count name =
    s.stats.fired.count name

namespace Session.Pruned

variable {s t u : Session σ} {b : BodyId} {i : InstrId}

/-- Where the program is the same, it is pruned by nothing. -/
theorem of_eq (hs : s.program.WellLinked) (hprogram : t.program = s.program)
    (hfired : t.stats.fired = s.stats.fired) : s.Pruned b t where
  sublist := by rw [hprogram]
  instr := fun i _ => by rw [hprogram]
  flows := fun i _ j => by rw [hprogram]
  first := by rw [hprogram]
  live := fun i hi => by
    rw [hprogram]
    exact (Program.supported_live hs b).inside i hi
  fired := by rw [hprogram, hfired]
  others := fun name _ => by rw [hfired]

/-- Neither stages nor the memo matter. -/
theorem congr (h : s.Pruned b t) (hprogram : u.program = t.program)
    (hfired : u.stats.fired = t.stats.fired) : s.Pruned b u := by
  obtain ⟨hsublist, hinstr, hflows, hfirst, hlive, hcount, hothers⟩ := h
  rw [← hprogram] at hsublist hinstr hflows hfirst hlive hcount
  rw [← hfired] at hcount hothers
  exact ⟨hsublist, hinstr, hflows, hfirst, hlive, hcount, hothers⟩

/-- One deletion more. -/
theorem delete (h : s.Pruned b t) (hs : s.program.WellLinked)
    (ht : t.program.WellLinked) (hi : i ∈ t.program.code b)
    (hfirst : t.program.first? b ≠ some i) (hun : ∀ j, ¬ t.program.Flows b j i)
    (hprogram : u.program = t.program.without b i)
    (hfired : u.stats.fired = t.stats.fired.bump Pass.removeDeadCode.name) :
    s.Pruned b u where
  sublist := by
    rw [hprogram, Program.code_without ht hi]
    exact List.erase_sublist.trans h.sublist
  instr := by
    intro k hk
    rw [hprogram, Program.mem_code_without ht hi] at hk
    rw [hprogram, Program.instr_without_unreached ht hi hun hk.2,
      h.instr k hk.1]
  flows := by
    intro k hk j
    rw [hprogram, Program.mem_code_without ht hi] at hk
    rw [hprogram, Program.flows_without ht hi hun hk.1 hk.2, h.flows k hk.1]
  first := by
          rw [hprogram, Program.first?_without ht hi, if_neg hfirst, h.first]
  live := by
    intro k hk
    rw [hprogram, Program.mem_code_without ht hi]
    refine ⟨h.live k hk, ?_⟩
    rintro rfl
    -- what keeps `k` alive is still there
    rw [h.first] at hfirst
    obtain ⟨j, hj, hflows⟩ := (Program.supported_live hs b).source k hk hfirst
    exact hun j ((h.flows j (h.live j hj) k).mpr hflows)
  fired := by
    have hlength := List.length_erase_add_one hi
    have hcount := h.fired
    rw [hprogram, hfired, Program.code_without ht hi, Tally.count_bump,
      if_pos rfl]
    omega
  others := by
    intro name hname
    rw [hfired, Tally.count_bump, if_neg hname, h.others name hname]
    rfl

/-- At a fixed point nothing but what is alive has been left. -/
theorem mem_iff (h : s.Pruned b t) (ht : t.program.WellLinked)
    (hfixed : t.program.FixedPoint b [.removeDeadCode]) :
    i ∈ t.program.code b ↔ i ∈ s.program.live b := by
  refine ⟨fun hi => ⟨{k | k ∈ t.program.code b}, ⟨?_, ?_, ?_⟩, hi⟩, h.live i⟩
  · exact fun k hk => h.sublist.subset hk
  · intro k hk
    rw [← h.first, ht.first?] at hk
    exact List.mem_of_head? hk
  · intro k hk hfirst
    rw [← h.first] at hfirst
    by_contra hnone
    refine hfixed k hk _ List.mem_cons_self
      { method := ⟨0⟩, body := b } rfl _ (.dead hfirst ?_)
    refine (Program.unreached_iff ht hk).mpr fun j hflows =>
      hnone ⟨j, hflows.1, ?_⟩
    exact (h.flows j hflows.1 k).mp hflows

end Session.Pruned

/-! ### The visit -/

/-- The visit of `m`, begun in `s`, has removed nothing but dead code. -/
structure Visit.Prunes (s : Session σ) (m : MethodId) (v : Visit σ) :
    Prop extends v.Steady where
  origin : s.program.WellLinked
  body : (v.session.program.method m).body = some v.editor.body
  pruned : s.Pruned v.editor.body v.session

/-- Nothing but dead code is removed from the body that is visited. -/
def pruning : Law σ where
  ready s := s.program.WellLinked
  returns s t := t.program.WellLinked ∧ s.OfLast t fun b => s.Pruned b t
  broken _ := True
  during s m
    | .scanning _, v => v.Prunes s m
    | .offering _ _, v => v.Prunes s m ∧ ∃ i, v.Offers i

section Pruning

variable {cfg : InlineSettings} {s : Session σ} {m : MethodId} {v : Visit σ}
  {i : InstrId} {changed : Bool} {rest : List (Rule σ)}
  {optimize : Option MethodId → SessionM σ Unit}
  {r : Except Fault Unit × Visit σ}

/-- Going on to the next instruction prunes nothing. -/
theorem Visit.Prunes.advanced (h : v.Prunes s m) : v.advanced.Prunes s m :=
  ⟨h.toSteady.advanced, h.origin, h.body, h.pruned.congr rfl rfl⟩

/-- Nor does starting over. -/
theorem Visit.Prunes.restarted (h : v.Prunes s m) : v.restarted.Prunes s m :=
  ⟨h.toSteady.restarted, h.origin, h.body, h.pruned.congr rfl rfl⟩

/-- Nor does looking. -/
theorem Visit.Prunes.untouched {e : Editing} (h : v.Prunes s m)
    (he : v.editing.Untouched e) : (v.setEditing e).Prunes s m := by
  have hbody : (v.setEditing e).editor.body = v.editor.body := he.edited.body
  refine ⟨h.toSteady.untouched he, h.origin, ?_, ?_⟩
  · rw [Visit.session_untouched he, hbody]
    exact h.body
  · rw [Visit.session_untouched he, hbody]
    exact h.pruned

/-- A firing is a deletion. -/
theorem pruning_passStep (h : v.Prunes s m) (hi : v.Offers i)
    (hr : PassStep cfg optimize v i .removeDeadCode r) :
    pruning.Applies s m changed Pass.removeDeadCode.name rest r := by
  cases hr with
  | quiet he =>
      exact Law.applies_quiet (h.toSteady.untouched he).clean ⟨h.untouched he,
        i, hi.untouched he⟩
  | @fires _ e he heffect =>
      have hp : v.session.program.WellLinked := h.sound.linked
      have hbody : e.editor.body = v.editor.body := he.body
      refine Law.applies_fired he.dirty ⟨?_, h.origin, ?_, ?_⟩
      · exact Visit.steady_rewound (v := v.setEditing e) he.sound
          (he.inside h.inside) _
      · change (e.program.method m).body = some e.editor.body
        rw [he.changed.method m, hbody]
        exact h.body
      · change s.Pruned e.editor.body _
        rw [hbody]
        generalize hq : e.program = q at heffect
        cases heffect with
        | dead hfirst hun =>
            exact h.pruned.delete h.origin hp hi.2 hfirst
              ((Program.unreached_iff hp hi.2).mp hun) hq rfl

/-- The removal of dead code prunes all along a visit. -/
theorem pruning_obeyed (cfg : InlineSettings) : pruning.Obeyed
    (Optimizer.ofPasses cfg [.removeDeadCode] : Optimizer σ) where
  unwatched := fun _ _ => rfl
  idle := fun hs => ⟨hs, Session.ofLast_refl _ _⟩
  skip := fun {s m} hs _ _ =>
    ⟨hs, Session.ofLast_done (t := s.setProgress m .inProgress) fun _ _ =>
      .of_eq hs rfl rfl⟩
  start := fun {s m _} hs _ hbody hsize =>
    ⟨Visit.steady_start (s := s.setProgress m .inProgress) hs m hsize, hs,
      hbody, .of_eq hs rfl rfl⟩
  advance := fun h hmore => ⟨h.advanced, h.toSteady.offers hmore⟩
  apply := by
    rintro s m changed r rest v fuel - hr ⟨h, i, hi⟩
    obtain rfl : r = Pass.removeDeadCode.rule cfg := List.mem_singleton.mp hr
    exact pruning_passStep h hi
      (Pass.rule_step cfg _ h.sound hi.1 hi.2 .removeDeadCode)
  decline := fun h => h.1
  restart := fun h _ => h.advanced.restarted
  finish := by
    intro s m v h _
    refine ⟨h.sound.linked,
      Session.ofLast_done (t := v.advanced.session) fun b hb => ?_⟩
    obtain rfl : v.editor.body = b := Option.some.inj (h.body.symm.trans hb)
    exact h.pruned.congr rfl rfl
  cut := fun _ => trivial
  refuse := fun _ => trivial

/-- It is the only pass that scans. -/
theorem pruning_scans (cfg : InlineSettings) :
    (pruning : Law σ).Scans cfg [.removeDeadCode] := by
  have hprunes : ∀ {s m p} {v : Visit σ}, pruning.during s m p v →
      v.Prunes s m := by
    intro s m p v hv
    cases p with
    | scanning => exact hv
    | offering => exact hv.1
  refine ⟨fun hv => (hprunes hv).toSteady, fun hv => (hprunes hv).body, ?_⟩
  intro s m changed pass rest v v' i fuel hpass hv hi happly hclean
  have hstep := Pass.rule_step cfg ((Optimizer.ofPasses cfg
    [.removeDeadCode]).optimize fuel) (hprunes hv).sound hi.1 hi.2 pass
  rw [happly] at hstep
  refine hstep.unmoved hclean fun hinline => ?_
  rw [hinline] at hpass
  simp at hpass

end Pruning

/-- A part of a list without repetition is told by its members. -/
theorem eq_filter_of_sublist {l l' : List InstrId} (hsub : l'.Sublist l)
    (hl : l.Nodup) : l' = l.filter fun i => decide (i ∈ l') := by
  have hself : (l'.filter fun i => decide (i ∈ l')) = l' :=
    List.filter_eq_self.mpr fun i hi => decide_eq_true hi
  have hfilter := hsub.filter fun i => decide (i ∈ l')
  rw [hself] at hfilter
  refine hfilter.eq_of_length_le
    (List.subperm_of_subset (hl.filter _) fun i hi => ?_).length_le
  exact of_decide_eq_true (List.mem_filter.mp hi).2

namespace Optimizer

/-- **What the removal of dead code leaves.**  An optimiser that has no other
pass is asked for a method that has not been visited and whose branches stay in
its body.  With enough fuel it comes back.  Then the instructions of the body
are the largest set which contains the first one and in which control passes to
any other from one of the set; they are in the order they had and what they
were.  All that can be reached from the first instruction is among them.  The
pass has fired once for each instruction that is not, and no other pass has
fired. -/
theorem removeDeadCode_leaves (cfg : InlineSettings) {s : Session σ}
    {m : MethodId} {b : BodyId} (hp : s.program.WellLinked)
    (hm : s.progressOf m = .notVisited)
    (hbody : (s.program.method m).body = some b)
    (hclosed : s.program.Closed b) : ∃ n t, (∀ fuel, n ≤ fuel →
      (ofPasses cfg [.removeDeadCode]).optimize fuel (some m) s = (.ok (), t)) ∧
      (t.program.method m).body = some b ∧
      IsGreatest {X | s.program.Supported b X} {i | i ∈ t.program.code b} ∧
      t.program.code b = s.program.alive b ∧
      (t.program.code b).Sublist (s.program.code b) ∧
      (∀ i ∈ t.program.code b, t.program.instr i = s.program.instr i) ∧
      (∀ first, s.program.first? b = some first → ∀ i, Relation.ReflTransGen
        (s.program.Flows b) first i → i ∈ t.program.code b) ∧
      t.stats.fired.count Pass.removeDeadCode.name =
      s.stats.fired.count Pass.removeDeadCode.name + ((s.program.code b).filter
        fun i => decide (i ∉ t.program.code b)).length ∧
      ∀ name ≠ Pass.removeDeadCode.name, t.stats.fired.count name =
      s.stats.fired.count name := by
  have hcleanUps : ∀ pass ∈ [Pass.removeDeadCode], pass ∈ Pass.cleanUps := by
    decide
  have hcleaning := cleaning_obeyed (σ := σ) cfg hcleanUps
  have hsettles := Law.settles_optimize (m := m) hcleaning hp fun _ =>
    cleaning_descends cfg hcleanUps s m
  have hobeyed :=
    (pruning_obeyed (σ := σ) cfg).scanned (pruning_scans cfg) fun _ hs => hs
  obtain ⟨n, ⟨e | ⟨⟩, t⟩, hn, hgood, hbad⟩ := (hsettles.meets fun fuel =>
    hcleaning.calls fuel m s hp).meets fun fuel => hobeyed.calls fuel m s hp
  · exact (hbad e rfl).elim
  · obtain ⟨⟨-, hcleaned⟩, ⟨ht, hpruned⟩, hfixed⟩ := hgood () t rfl
    have hbody' : (t.program.method m).body = some b := by
      rw [Program.method, hcleaned.methods]
      exact hbody
    replace hpruned := hpruned.of_optimize hm (hn n le_rfl) hbody'
    replace hfixed := hfixed.of_optimize hm (hn n le_rfl) hbody'
    have hmem : ∀ i, i ∈ t.program.code b ↔ i ∈ s.program.live b :=
      fun i => hpruned.mem_iff ht hfixed
    have hkept := eq_filter_of_sublist hpruned.sublist (hp.nodup_code b)
    refine ⟨n, t, hn, hbody', ?_, ?_, hpruned.sublist, hpruned.instr, ?_, ?_,
      hpruned.others⟩
    · rw [show {i | i ∈ t.program.code b} = s.program.live b from Set.ext hmem]
      exact Program.isGreatest_live hp b
    · rw [hkept, eq_filter_of_sublist Program.alive_sublist (hp.nodup_code b)]
      refine List.filter_congr fun i _ => decide_eq_decide.mpr ?_
      rw [hmem, Program.mem_alive_iff hp]
    · exact fun first hfirst i hi => (hmem i).mpr (Program.live_of_reachable hp
        hclosed hfirst hi)
    · have hfired := hpruned.fired
      have hparts := List.length_eq_length_filter_add (l := s.program.code b)
        fun i => decide (i ∈ t.program.code b)
      rw [← hkept] at hparts
      simp only [decide_not]
      omega

/-- A method that skips dead code, in which one instruction branches to
itself. -/
def skipping : Program where
  instrs := #[⟨⟨0x52⟩, .target ⟨1⟩, some ⟨0⟩⟩, ⟨.br, .target ⟨6⟩, some ⟨0⟩⟩,
    ⟨.nop, .absent, some ⟨0⟩⟩, ⟨.pop, .absent, some ⟨0⟩⟩,
    ⟨.br, .target ⟨4⟩, some ⟨0⟩⟩,
    ⟨.nop, .absent, some ⟨0⟩⟩, ⟨⟨0x70⟩, .absent, some ⟨0⟩⟩]
  bodies := #[{ code := [⟨0⟩, ⟨1⟩, ⟨2⟩, ⟨3⟩, ⟨4⟩, ⟨5⟩, ⟨6⟩] }]
  methods := #[{ name := "skipping", body := some ⟨0⟩ }]

/-- The branch to itself keeps itself alive, and the pass fires for the three
others that are dead. -/
theorem removeDeadCode_leaves_skipping :
    skipping.WellLinked ∧ skipping.Closed ⟨0⟩ ∧
    ∃ n t, (∀ fuel, n ≤ fuel →
        (ofPasses ⟨none, .never, 0⟩ [.removeDeadCode]).optimize fuel (some ⟨0⟩)
          { program := skipping, client := () } = (.ok (), t)) ∧
      t.program.code ⟨0⟩ = [⟨0⟩, ⟨1⟩, ⟨4⟩, ⟨6⟩] ∧
      t.stats.fired.count Pass.removeDeadCode.name = 3 := by
  have hp : skipping.WellLinked := by decide
  have hclosed : skipping.Closed ⟨0⟩ := by decide
  obtain ⟨n, t, hn, -, -, hcode, -, -, -, hfired, -⟩ :=
    removeDeadCode_leaves ⟨none, .never, 0⟩
    (s := { program := skipping, client := () }) (m := ⟨0⟩) hp rfl rfl hclosed
  have halive : skipping.alive ⟨0⟩ = [⟨0⟩, ⟨1⟩, ⟨4⟩, ⟨6⟩] := by decide
  have hleft : t.program.code ⟨0⟩ = [⟨0⟩, ⟨1⟩, ⟨4⟩, ⟨6⟩] := hcode.trans halive
  refine ⟨hp, hclosed, n, t, hn, hleft, ?_⟩
  rw [hfired, hleft]
  decide

end Optimizer

end Bytecode
