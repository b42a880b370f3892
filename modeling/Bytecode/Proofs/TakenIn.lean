import Bytecode.Proofs.Decisions
import Bytecode.Proofs.EachReturn
import Bytecode.Proofs.Splicing

/-!
# What survives every inlining

A property of programs survives a run if it survives the local passes that are
run, and if it survives a candidate for inlining being taken in by its caller.
Candidates are the methods that the policy may accept, whatever has become of
their bodies; a memo that starts empty remembers no others.  The main statement
is `survives_request`.
-/

namespace Bytecode

variable {σ : Type} {cfg : InlineSettings} {candidate : MethodId → Prop}
  {passes : List Pass} {methods : Array Method} {I : Program → Prop}
  {s : Session σ} {m c : MethodId}

/-- The policy accepts candidates only, whatever has become of the bodies. -/
def InlineSettings.Accepts (cfg : InlineSettings) (candidate : MethodId → Prop)
    (methods : Array Method) : Prop :=
  ∀ n p m, p.methods = methods → cfg.policy n p (some m) = true → candidate m

/-- The property survives the passes, and candidates being taken in. -/
structure Survives (cfg : InlineSettings) (candidate : MethodId → Prop)
    (passes : List Pass) (I : Program → Prop) : Prop where
  effect : ∀ {e e' : Editing} {i : InstrId} {pass : Pass} {m : MethodId},
    pass ∈ passes → e.Sound → i ∈ e.code →
    (e.program.method m).body = some e.editor.body → e.program.NoDangling →
    e.Changed e' → e.Effect i pass e'.program → I e.program → I e'.program
  taken : ∀ {p q : Program} {b c : BodyId} {call anchor nop : InstrId} {inner :
    List InstrId} {f : InstrId → InstrId} {m d : MethodId}, p.WellLinked →
    p.NoDangling → (p.method m).body = some b → (p.method d).body = some c →
    c ≠ b → call ∈ p.code b → p.next call = some anchor →
    Inline.calleeOf cfg (p.instr call).bare = some d → candidate d →
    Inline.Spliced b c call anchor nop inner f p q → q.NoDangling → I p → I q

/-- The property holds, no branch dangles, and the memo has accepted candidates
only. -/
structure Session.Keeps (candidate : MethodId → Prop) (methods : Array Method)
    (I : Program → Prop) (s : Session σ) : Prop where
  closed : s.program.NoDangling
  kept : I s.program
  methods : s.program.methods = methods
  memo : ∀ m, (some m, true) ∈ s.memo.recent → candidate m

namespace Session.Keeps

variable (h : s.Keeps candidate methods I)
  (haccepts : cfg.Accepts candidate methods)

include h haccepts

/-- Only candidates are inlined. -/
theorem candidate_of_approved (hc : Inline.approved cfg c s = true) :
    candidate c := by
  rw [Inline.approved, Memo.ask_fst] at hc
  cases hlook : s.memo.recent.lookup (some c) with
  | none =>
      rw [hlook] at hc
      exact haccepts _ _ _ h.methods hc
  | some yes =>
      rw [hlook] at hc
      have hyes : yes = true := hc
      rw [hyes] at hlook
      exact h.memo c (Memo.mem_of_lookup hlook)

theorem consulted (c : MethodId) :
    (Inline.consulted cfg c s).Keeps candidate methods I where
  closed := h.closed
  kept := h.kept
  methods := h.methods
  memo := by
    intro m hm
    rcases Memo.mem_ask hm with heq | hm
    · obtain ⟨hmc, hyes⟩ := Prod.mk.inj heq
      rw [Option.some.inj hmc]
      exact h.candidate_of_approved haccepts hyes.symm
    · exact h.memo m hm

end Session.Keeps

namespace Optimizer

/-- The law of visits, with a property of programs that holds where passes
return. -/
def keeps (σ : Type) (candidate : MethodId → Prop) (methods : Array Method)
    (I : Program → Prop) : Law σ :=
  frame.keeping (fun s => s.Keeps candidate methods I) fun _ => True

section Step

variable {v : Visit σ} {i : InstrId} {optimize : Option MethodId →
    SessionM σ Unit} (haccepts : cfg.Accepts candidate methods)
  (hsurvives : Survives cfg candidate passes I) (hframe : frame.Calls optimize)
  (hcalls : (keeps σ candidate methods I).Calls optimize) (h : v.Within s m)
  (hi : v.Offers i) (hkeeps : v.session.Keeps candidate methods I)

include haccepts hsurvives hframe hcalls h hi hkeeps

theorem keeps_inlines {r : Except Fault Unit × Visit σ}
    (hr : Inline.Inlines cfg optimize v i r) : Meets (fun _ v =>
      v.session.Keeps candidate methods I) (fun _ => True) r := by
  have hready : ∀ c,
      (keeps σ candidate methods I).ready (Inline.consulted cfg c v.session) :=
    fun c => ⟨consulted_sound cfg h.session c, hkeeps.consulted haccepts c⟩
  cases hr with
  | none => exact hkeeps
  | @declined c stats =>
      obtain ⟨hclosed, hkept, hmethods, hmemo⟩ := hkeeps.consulted haccepts c
      exact ⟨hclosed, hkept, hmethods, hmemo⟩
  | @stopped c e t _ hopt =>
      have hmeets := hcalls c _ (hready c)
      rw [hopt] at hmeets
      exact ⟨hmeets.1, trivial⟩
  | @spared c t _ hopt =>
      have hmeets := hcalls c _ (hready c)
      rw [hopt] at hmeets
      exact hmeets.2
  | @takenIn c t anchor b hcallee happroved hnext _ hopt _ hbody =>
      have hmeets := hcalls c _ (hready c)
      rw [hopt] at hmeets
      obtain ⟨-, hdone⟩ := hmeets
      obtain ⟨ht, hext⟩ := nested_call hframe h hopt
      obtain ⟨hv, hiv, hnext', hcb⟩ := h.taking hi hcallee hnext ht hext hbody
      obtain ⟨v', heq, hsession⟩ :=
        Inline.takeIn_replaces hv.sound hiv.1 hiv.2 hnext'
      rcases heq with ⟨hstop, -⟩ | ⟨hok, hrep⟩
      · rw [hstop]
        exact ⟨Or.inl rfl, trivial⟩
      · rw [hok]
        have hp : v.session.program.WellLinked := h.sound.linked
        have hinstr : t.program.instr i = v.session.program.instr i :=
          (h.agree hext).instr i (by rw [← hp.code]; exact hi.2)
        have hm := Inline.calleeOf_of_callee? hcallee
        rw [← hinstr] at hm
        obtain ⟨nop, inner, f, hspliced⟩ :=
          hrep.spliced hv.sound hiv.2 hnext' hcb
          (hdone.closed m _ hv.body) (hdone.closed c b hbody)
        have hclosed := closed_replaces hv.sound hiv.2 hnext' hcb
          (hdone.closed m _ hv.body) (hdone.closed c b hbody) hrep
        have hq :=
          hdone.closed.change ht.linked hspliced.linked hspliced.changed hclosed
        refine ⟨hq, ?_, hspliced.changed.methods.trans hdone.methods, ?_⟩
        · exact hsurvives.taken ht.linked hdone.closed hv.body hbody hcb
            hiv.2 hnext' hm (hkeeps.candidate_of_approved haccepts happroved)
            hspliced hq hdone.kept
        · rw [hsession]
          exact hdone.memo

theorem keeps_passStep {pass : Pass} (hpass : pass ∈ passes)
    {r : Except Fault Unit × Visit σ} (hr : PassStep cfg optimize v i pass r) :
    Meets (fun _ v => v.session.Keeps candidate methods I) (fun _ =>
      True) r := by
  cases hr with
  | @quiet _ e he =>
      have hprogram : e.program = v.session.program := he.program
      refine ⟨?_, ?_, ?_, hkeeps.memo⟩
      · change e.program.NoDangling
        rw [hprogram]
        exact hkeeps.closed
      · change I e.program
        rw [hprogram]
        exact hkeeps.kept
      · change e.program.methods = methods
        rw [hprogram]
        exact hkeeps.methods
  | @fires _ e he heffect =>
      have hbody : (v.session.program.method m).body = some v.editor.body :=
        h.body
      have hclosed := heffect.closed h.sound hi.2 (hkeeps.closed m _ hbody)
      exact
        ⟨hkeeps.closed.change h.sound.linked he.sound.linked he.changed hclosed,
          hsurvives.effect hpass h.sound hi.2 hbody hkeeps.closed he heffect
          hkeeps.kept, he.changed.methods.trans hkeeps.methods, hkeeps.memo⟩
  | inlines hr =>
      exact keeps_inlines haccepts hsurvives hframe hcalls h hi hkeeps hr

end Step

section Requests

variable (haccepts : cfg.Accepts candidate methods)
  (hsurvives : Survives cfg candidate passes I)

include haccepts hsurvives

theorem keeps_obeyed :
    (keeps σ candidate methods I).Obeyed (ofPasses cfg passes) := by
  have hframe := frame_obeyed (appliesPasses_ofPasses (σ := σ) cfg passes)
  refine hframe.keeping (fun _ _ _ h => ⟨h.closed, h.kept, h.methods, h.memo⟩)
    (fun _ _ h => ⟨h.closed, h.kept, h.methods, h.memo⟩) (fun _ => trivial) ?_
  rintro s m changed r rest v fuel hcalls hr ⟨⟨h, i, hi⟩, hkeeps⟩
  obtain ⟨pass, hpass, rfl⟩ := List.mem_map.mp hr
  have hstep := Pass.rule_step cfg
    ((ofPasses cfg passes).optimize fuel) h.sound hi.1 hi.2 pass
  exact keeps_passStep haccepts hsurvives
    (hframe.calls fuel) hcalls h hi hkeeps hpass hstep

/-- **What survives the passes survives every request** that comes back. -/
theorem survives_request {start : Session σ} (hp : start.program.WellLinked)
    (hshare : start.program.Unshared) (hmemo : start.memo.recent = [])
    (hmethods : start.program.methods = methods)
    (hclosed : start.program.NoDangling) (hI : I start.program)
    (hs : Served (ofPasses cfg passes) start s) (fuel : Nat) (q : Request)
    (hr : returned (q.perform (ofPasses cfg passes) fuel s).1 = true) :
    I (q.perform (ofPasses cfg passes) fuel s).2.program ∧
    (q.perform (ofPasses cfg passes) fuel s).2.program.methods = methods := by
  have hcount : ∀ (s : Session σ) (f : Stats → Stats),
      (keeps σ candidate methods I).ready s →
      (keeps σ candidate methods I).ready (s.count f) :=
    fun s f hs => ⟨⟨hs.1.linked, hs.1.unshared⟩, hs.2.closed, hs.2.kept,
      hs.2.methods, hs.2.memo⟩
  have hcalls : ∀ fuel m (s : Session σ),
      (keeps σ candidate methods I).ready s →
      Meets (fun _ s' => (keeps σ candidate methods I).ready s') (fun _ => True)
      ((ofPasses cfg passes).optimize fuel (some m) s) :=
    fun fuel m s hs =>
      ((keeps_obeyed haccepts hsurvives).calls fuel m s hs).mono
      (fun _ s' h => ⟨h.1.1, h.2⟩) fun _ _ => trivial
  have hstart : (keeps σ candidate methods I).ready start := by
    refine ⟨⟨hp, hshare⟩, hclosed, hI, hmethods, fun m hm => ?_⟩
    rw [hmemo] at hm
    cases hm
  have hready := hs.kept hcount (fun _ _ => trivial) hcalls hstart
  obtain ⟨-, hkept⟩ :=
    (perform_kept hcount (fun _ _ => trivial) fuel (hcalls fuel) hready q).2 hr
  exact ⟨hkept.kept, hkept.methods⟩

end Requests

/-- What the baseline policy may accept, however large bodies may be or
become. -/
def Inlinable (limits : Policy.Limits) (p : Program) (m : MethodId) : Prop :=
  Policy.baseline { exclude := limits.exclude } 0 p (some m) = true

instance (limits : Policy.Limits) (p : Program) :
    DecidablePred (Inlinable limits p) :=
  fun _ => inferInstanceAs (Decidable (_ = true))

/-- The baseline policy looks at what methods declare, which stays as it is. -/
theorem accepts_baseline {limits : Policy.Limits}
    (hpolicy : cfg.policy = Policy.baseline limits) (p : Program) :
    cfg.Accepts (Inlinable limits p) p.methods := by
  intro n q m hmethods h
  rw [hpolicy, Policy.baseline] at h
  rw [Inlinable, Policy.baseline]
  simp only [Program.method, hmethods] at h ⊢
  split at h
  · cases h
  · rw [Bool.and_eq_true, Bool.and_eq_true] at h ⊢
    exact ⟨⟨h.1.1, rfl⟩, rfl⟩

end Optimizer

end Bytecode
