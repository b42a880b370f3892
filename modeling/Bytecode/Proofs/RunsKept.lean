import Bytecode.Proofs.OneFrame
import Bytecode.Proofs.StackDepth
import Bytecode.Proofs.TakenIn

/-!
# Runs are kept

An optimiser that inlines changes no run, as long as every method that may be
inlined writes its slots before it reads them: `runs_kept`.  Otherwise it may.
A callee that relies on slots that are set to zero finds what its last run has
left there if the call stands in a loop, `loop_forgets_zeros`.
-/

namespace Bytecode

variable {σ : Type} {cfg : InlineSettings} {candidate : MethodId → Prop}
  {p q r : Program}

/-- The methods of `p` run in `q` as they do in `p`, and candidates write their
slots first. -/
structure RunsKept (cfg : InlineSettings) (candidate : MethodId → Prop)
    (p q : Program) : Prop where
  methods : q.methods = p.methods
  follows : ∀ m b, (p.method m).body = some b → Follows cfg b p q
  first : ∀ m b, candidate m → (p.method m).body = some b → WritesFirst q b

/-- A candidate has been taken in. -/
theorem RunsKept.inlining {b c : BodyId} {call anchor nop : InstrId}
    {inner : List InstrId} {f : InstrId → InstrId}
    (h : RunsKept cfg candidate p q)
    (hi : Inline.Inlining cfg b c call anchor nop inner f q r) :
    RunsKept cfg candidate p r where
  methods := hi.changed.methods.trans h.methods
  follows := by
    intro m d hd
    have hd' : (q.method m).body = some d := by rwa [Program.method, h.methods]
    exact (h.follows m d hd).trans (hi.follows (hi.bodies m d hd'))
  first := by
    intro m d hm hd
    have hd' : (q.method m).body = some d := by rwa [Program.method, h.methods]
    have hclosed : q.Closed d := hi.bodies m d hd'
    have hfirst : WritesFirst q d := h.first m d hm hd
    by_cases hdb : d = b
    · subst hdb
      exact hi.toSpliced.writesFirst hi.before hi.mem hi.next hi.call_kind
        hclosed (hi.closed_of_entered hi.entered) hfirst hi.first
    · exact hfirst.agree hi.before hi.linked hclosed
        (hi.changed.agreeOn hi.before hdb)

/-- Runs survive inlining, if candidates are methods that the baseline policy
accepts. -/
theorem runsKept_survives
    (haccepts : ∀ m, candidate m → Policy.baseline {} 0 p (some m) = true) :
    Survives cfg candidate [.inlineFunctionCall]
    (RunsKept cfg candidate p) where
  effect := by
    intro e e' i pass m hpass _ _ _ _ _ heffect _
    rw [List.mem_singleton] at hpass
    subst hpass
    cases heffect
  taken := by
    intro q r b c call anchor nop inner f m d hq hclosed _ hc hcb hcall hnext hd
      hcand hspliced _ h
    have hmethod : q.method d = p.method d := by
      rw [Program.method, h.methods, Program.method]
    have hyes : Policy.baseline {} 0 q (some d) = true := by
      have hp := haccepts d hcand
      rw [Policy.baseline, ← hmethod] at hp
      rw [Policy.baseline]
      exact hp
    have hentered : entered? cfg q (q.instr call) = some c := by
      rw [entered?, hd, Option.bind_some, if_pos hyes, hc]
    exact h.inlining ⟨hspliced, hq, hcall, hnext, hcb, hclosed, hentered,
      h.first d c hcand (hmethod ▸ hc)⟩

namespace Optimizer

theorem baseline_of_inlinable {limits : Policy.Limits} {m : MethodId}
    (h : Inlinable limits p m) : Policy.baseline {} 0 p (some m) = true := by
  rw [Inlinable, Policy.baseline] at h
  rw [Policy.baseline]
  split at h
  · cases h
  · simp only [Bool.and_eq_true] at h ⊢
    exact ⟨⟨⟨h.1.1.1, rfl⟩, rfl⟩, rfl⟩

/-- **Inlining keeps what a program does.**  An optimiser that inlines, with the
baseline policy, starts on a program in which no branch dangles and each method
that may be inlined writes its slots before it reads them.  Whatever has been
asked of the optimiser, and whatever it is asked next: when the request has come
back, runs of each method come to what they came to at first. -/
theorem runs_kept {limits : Policy.Limits} {start s : Session σ}
    (hp : start.program.WellLinked) (hshare : start.program.Unshared)
    (hclosed : start.program.NoDangling) (hmemo : start.memo.recent = [])
    (hpolicy : cfg.policy = Policy.baseline limits)
    (hfirst : ∀ m b, Inlinable limits start.program m →
      (start.program.method m).body = some b → WritesFirst start.program b)
    (hs : Served (ofPasses cfg [.inlineFunctionCall]) start s) (fuel : Nat)
    (q : Request) (hr : returned
      (q.perform (ofPasses cfg [.inlineFunctionCall]) fuel s).1 = true)
    (m : MethodId) (b : BodyId) (hb : (start.program.method m).body = some b) :
    Follows cfg b start.program
    (q.perform (ofPasses cfg [.inlineFunctionCall]) fuel s).2.program := by
  have hstart : RunsKept cfg
      (Inlinable limits start.program) start.program start.program :=
    ⟨rfl, fun _ b _ => .refl cfg b _, hfirst⟩
  have hkept := survives_request (accepts_baseline hpolicy start.program)
    (runsKept_survives fun _ => baseline_of_inlinable)
    hp hshare hmemo rfl hclosed hstart hs fuel q hr
  exact hkept.1.follows m b hb

/-! ### A call in a loop -/

/-- A loop that calls a method twice; the code of that method is `mark`. -/
def loopOfMark (mark : List InstrId) : Program where
  instrs := #[⟨.call, .method ⟨"", "mark", [], "void"⟩, some ⟨0⟩⟩,
    ⟨⟨0x06⟩, .absent, some ⟨0⟩⟩, ⟨⟨0x22⟩, .int32 1, some ⟨0⟩⟩,
    ⟨⟨0x0a⟩, .absent, some ⟨0⟩⟩, ⟨⟨0x54⟩, .target ⟨0⟩, some ⟨0⟩⟩,
    ⟨⟨0x70⟩, .absent, some ⟨0⟩⟩, ⟨⟨0x06⟩, .absent, some ⟨1⟩⟩,
    ⟨⟨0x43⟩, .field ⟨"", "log", "int32"⟩, some ⟨1⟩⟩,
    ⟨⟨0x22⟩, .int32 1, some ⟨1⟩⟩,
    ⟨⟨0x0a⟩, .absent, some ⟨1⟩⟩, ⟨⟨0x70⟩, .absent, some ⟨1⟩⟩]
  bodies := #[{ code := [⟨0⟩, ⟨1⟩, ⟨2⟩, ⟨3⟩, ⟨4⟩, ⟨5⟩],
                locals := #[⟨0, "int32", ""⟩], maxStack := 2 },
    { code := mark, locals := #[⟨0, "int32", ""⟩], maxStack := 1 }]
  methods := #[{ name := "main", attrs := 1, body := some ⟨0⟩ },
    { name := "mark", attrs := 1, body := some ⟨1⟩ }]

/-- A constant is put into the slot, which is then written down. -/
def storesFirst : List InstrId := [⟨8⟩, ⟨9⟩, ⟨6⟩, ⟨7⟩, ⟨10⟩]

/-- The slot is written down, and then a constant is put into it. -/
def loadsFirst : List InstrId := [⟨6⟩, ⟨7⟩, ⟨8⟩, ⟨9⟩, ⟨10⟩]

/-- How deep the stack is at the places of the method, if it loads first. -/
def depthInMark (a : Option InstrId) : Int :=
  if a = some ⟨7⟩ ∨ a = some ⟨9⟩ then 1 else 0

/-- The baseline policy; the method with the loop is not to be inlined
itself. -/
def inlineInLoop : InlineSettings where
  resolution := some (.ofMethods (loopOfMark []) [⟨0⟩, ⟨1⟩])
  policy := .baseline { exclude := ["main"] }

/-- The session after a run over both methods. -/
def ranLoopOfMark (mark : List InstrId) : Except Fault Unit × Session Unit :=
  (Request.run [⟨0⟩, ⟨1⟩]).perform (ofPasses inlineInLoop [.inlineFunctionCall])
    40 { program := loopOfMark mark, client := () }

/-- A world of integers.  Slots hold 0 at first, and what is stored to fields is
written down. -/
def writesDown : World Int (List Int) where
  initial _ _ := 0
  takes op _ := if op = ⟨0x43⟩ then 1 else 0
  act op o vs g :=
    if op = ⟨0x43⟩ then some ([], g ++ vs)
    else match o with
      | .int32 v => some ([v.toInt], g)
      | _ => none
  test _ vs := vs = [0]

/-- What has been written down after `n` steps of the first method, and how the
run has ended. -/
def wroteDown (p : Program) (n : Nat) :
    Option (List Int × Option (Finish Int)) :=
  (steps (writesDown.step inlineInLoop p) n (writesDown.start p ⟨0⟩
    (fun _ => none) [])).map fun K => (K.shared, World.finish? p K)

/-- The method that is called stores first. -/
theorem runs_kept_storesFirst :
    (loopOfMark storesFirst).WellLinked ∧ (loopOfMark storesFirst).Unshared ∧
    (loopOfMark storesFirst).NoDangling ∧
    (∀ m b, Inlinable { exclude := ["main"] } (loopOfMark storesFirst) m →
      ((loopOfMark storesFirst).method m).body = some b →
      WritesFirst (loopOfMark storesFirst) b) ∧
    (ranLoopOfMark storesFirst).2.stats.inlined = 1 ∧ ∀ m b,
    ((loopOfMark storesFirst).method m).body = some b → Follows inlineInLoop b
    (loopOfMark storesFirst) (ranLoopOfMark storesFirst).2.program := by
  have hp : (loopOfMark storesFirst).WellLinked := by decide
  have hshare : (loopOfMark storesFirst).Unshared := by decide
  have hclosed : (loopOfMark storesFirst).NoDangling := by decide
  have honly : ∀ k < 2, Inlinable { exclude := ["main"] }
      (loopOfMark storesFirst) ⟨k⟩ → k = 1 := by
    decide +kernel
  have hfirst :
      ∀ m b, Inlinable { exclude := ["main"] } (loopOfMark storesFirst) m →
      ((loopOfMark storesFirst).method m).body = some b →
      WritesFirst (loopOfMark storesFirst) b := by
    intro m b hm hb
    obtain rfl : m = ⟨1⟩ :=
      congrArg MethodId.mk (honly _ (Program.index_lt_of_body hb) hm)
    obtain rfl : ⟨1⟩ = b := Option.some.inj hb
    have hcovers : ∀ i ∈ (loopOfMark storesFirst).code ⟨1⟩,
        ∀ n ∈ ((loopOfMark storesFirst).instr i).localIndex?,
        (((loopOfMark storesFirst).body ⟨1⟩).localAt? n).isSome ∧
        (((loopOfMark storesFirst).instr i).Reads n →
          Covers (loopOfMark storesFirst) ⟨1⟩ n [some ⟨8⟩, some ⟨9⟩] ∧
          some i ∉ [some ⟨8⟩, some ⟨9⟩]) := by
      decide +kernel
    exact .of_covers hp (hclosed ⟨1⟩ _ hb) hcovers
  have hstart : Served (ofPasses inlineInLoop [.inlineFunctionCall])
      { program := loopOfMark storesFirst, client := () }
      { program := loopOfMark storesFirst, client := () } :=
    .start
  obtain ⟨hinlined, hr⟩ : (ranLoopOfMark storesFirst).2.stats.inlined = 1 ∧
      returned (ranLoopOfMark storesFirst).1 = true := by decide +kernel
  refine ⟨hp, hshare, hclosed, hfirst, hinlined, fun m b hb => ?_⟩
  rw [ranLoopOfMark] at hr ⊢
  exact runs_kept hp hshare hclosed rfl rfl hfirst hstart 40 _ hr m b hb

/-- **A call in a loop finds what its last run has left**, if the method that is
called reads a slot before it writes it: twice 0 was written down, and now it is
0 and 1. -/
theorem loop_forgets_zeros :
    (loopOfMark loadsFirst).WellLinked ∧ (loopOfMark loadsFirst).Unshared ∧
    (loopOfMark loadsFirst).NoDangling ∧
    Inlinable { exclude := ["main"] } (loopOfMark loadsFirst) ⟨1⟩ ∧
    (∀ k < 2, ((loopOfMark loadsFirst).body ⟨k⟩).initLocals = true) ∧
    (∀ k < 2, ∀ i ∈ (loopOfMark loadsFirst).code ⟨k⟩,
      ∀ n ∈ ((loopOfMark loadsFirst).instr i).localIndex?,
      (((loopOfMark loadsFirst).body ⟨k⟩).localAt? n).isSome) ∧
    (∀ i n, Comes (fun _ => 0) (loopOfMark loadsFirst) ⟨1⟩ (some i) n →
      ((loopOfMark loadsFirst).instr i).kind = .ret → n = 0) ∧
    returned (ranLoopOfMark loadsFirst).1 = true ∧
    (ranLoopOfMark loadsFirst).2.stats.inlined = 1 ∧ ¬ Follows inlineInLoop ⟨0⟩
    (loopOfMark loadsFirst) (ranLoopOfMark loadsFirst).2.program := by
  have hp : (loopOfMark loadsFirst).WellLinked := by decide
  have hclosed : (loopOfMark loadsFirst).NoDangling := by decide
  -- the run is evaluated once for all that is read off from its end
  obtain ⟨hreturned, hinlined, hafter⟩ : returned (ranLoopOfMark loadsFirst).1 =
      true ∧ (ranLoopOfMark loadsFirst).2.stats.inlined = 1 ∧
      wroteDown (ranLoopOfMark loadsFirst).2.program 18 =
      some ([0, 1], some (.returned [])) := by
    decide +kernel
  refine ⟨hp, by decide, hclosed, by decide +kernel, by decide,
    by decide +kernel,
    fun i n hcomes hret => ?_, hreturned, hinlined, fun hfollows => ?_⟩
  · have hbody : (loopOfMark loadsFirst).Closed ⟨1⟩ := hclosed ⟨1⟩ _ rfl
    have hlabels : Labels (fun _ =>
        0) (loopOfMark loadsFirst) ⟨1⟩ depthInMark := by decide +kernel
    have hempty : ∀ i ∈ (loopOfMark loadsFirst).code ⟨1⟩,
        ((loopOfMark loadsFirst).instr i).kind = .ret →
        depthInMark (some i) = 0 := by
      decide +kernel
    rw [hcomes.eq_label hp hbody hlabels]
    exact hempty i (inside_some.mp (hcomes.inside hp hbody)) hret
  · have hbefore : wroteDown (loopOfMark loadsFirst) 20 =
        some ([0, 0], some (.returned [])) := by
      decide +kernel
    obtain ⟨K, hK, heq⟩ := Option.map_eq_some_iff.mp hbefore
    obtain ⟨K', hK', heq'⟩ := Option.map_eq_some_iff.mp hafter
    obtain ⟨hlog, hend⟩ := Prod.mk.inj heq
    obtain ⟨hlog', hend'⟩ := Prod.mk.inj heq'
    have hsame := (hfollows.ends hK hend hK' hend').2
    rw [hlog, hlog'] at hsame
    exact absurd hsame (by decide)

end Optimizer

end Bytecode
