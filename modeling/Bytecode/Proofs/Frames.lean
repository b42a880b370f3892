import Bytecode.Proofs.Callees
import Bytecode.Proofs.StackDepth

/-!
# Calls in frames of their own

A call of a method that is static, without parameters and without result runs
the body of the method in a frame of its own: the stack is empty, and each slot
holds what a slot of its type holds at first.  At a return the frame goes, and
the caller goes on behind the call with its stack and its slots as they were.
All other calls, and whatever else instructions do to values and to the state
that methods share, is up to a `World`.

A run is a partial function: it has no step once it has come to its end, and
none when it goes wrong.  Programs where values are missing on the stack, slots
are not declared or a callee returns with values on the stack go wrong, and so
does one that takes the address of a slot, as an address is no value here.
-/

namespace Bytecode

/-- What instructions do to values and to the state that all methods share.
They take values from the stack and leave values there, and do not see what lies
below. -/
structure World (V G : Type) where
  /-- What a slot of a type holds when its method is entered, with slots set to
  zero or not. -/
  initial : Bool → String → V
  /-- How many values an instruction takes. -/
  takes : Opcode → Operand → Nat
  /-- What an instruction makes of the values it has taken and of the shared
  state. -/
  act : Opcode → Operand → List V → G → Option (List V × G)
  /-- Whether a conditional branch is taken. -/
  test : Opcode → List V → Bool

/-- A method at work. -/
structure Frame (V : Type) where
  body : BodyId
  /-- The instruction to be carried out, or the call that has not returned
  yet. -/
  place : Option InstrId
  stack : List V
  slots : Int → Option V
  args : Operand → Option V

/-- The frames, the innermost first, and the state that all methods share. -/
structure Configuration (V G : Type) where
  frames : List (Frame V)
  shared : G

/-- What has become of a frame and of the shared state. -/
structure Work (V G : Type) where
  jumps : Bool
  slots : Int → Option V
  stack : List V
  shared : G

/-- How a run ends. -/
inductive Finish (V : Type) where
  | returned (stack : List V)
  | thrown (v : V)
  deriving DecidableEq

/-- The first values of a stack and those below. -/
def takeTop {V : Type} (n : Nat) (stack : List V) : Option (List V × List V) :=
  if n ≤ stack.length then some (stack.take n, stack.drop n) else none

/-- The top of the stack is moved to slot `n`, which has to be there. -/
def popInto {V : Type} (slots : Int → Option V) (n : Int) (stack : List V) :
    Option ((Int → Option V) × List V) :=
  match stack with
  | [] => none
  | v :: rest => (slots n).map fun _ => (Function.update slots n (some v), rest)

/-- Where control goes from `i`. -/
def Program.goes (p : Program) (i : InstrId) (jumps : Bool) :
    Option (Option InstrId) :=
  if jumps then (p.target? i).map some else some (p.next i)

/-- The body that a call runs in a frame of its own. -/
def entered? (cfg : InlineSettings) (p : Program) (x : Instr) : Option BodyId :=
  (Inline.calleeOf cfg x.bare).bind fun m =>
    if Policy.baseline {} 0 p (some m) then (p.method m).body else none

namespace World

variable {V G : Type}

/-- What an instruction does within its frame.  `0x20` loads an argument. -/
def work (W : World V G) (x : Instr) (args : Operand → Option V)
    (slots : Int → Option V) (stack : List V) (g : G) : Option (Work V G) :=
  match x.kind with
  | .nop => some ⟨false, slots, stack, g⟩
  | .branch => some ⟨true, slots, stack, g⟩
  | .conditionalBranch =>
    (takeTop x.op.operandCount stack).map fun (vs, rest) =>
      ⟨W.test x.op vs, slots, rest, g⟩
  | .loadLocal =>
    (x.localIndex?.bind slots).map fun v => ⟨false, slots, v :: stack, g⟩
  | .storeLocal =>
    (x.localIndex?.bind fun n => popInto slots n stack).map fun (slots, rest) =>
      ⟨false, slots, rest, g⟩
  | .call | .other =>
    if x.op.byte = 0x20 then
      (args x.operand).map fun v => ⟨false, slots, v :: stack, g⟩
    else (takeTop (W.takes x.op x.operand) stack).bind fun (vs, rest) =>
      (W.act x.op x.operand vs g).map fun (rs, g) =>
        ⟨false, slots, rs ++ rest, g⟩
  | .ret | .throws | .loadLocalAddress => none

/-- The frame of a method that is entered. -/
def enter (W : World V G) (p : Program) (b : BodyId)
    (args : Operand → Option V) : Frame V where
  body := b
  place := p.first? b
  stack := []
  slots n :=
    ((p.body b).localAt? n).map fun l => W.initial (p.body b).initLocals l.type
  args := args

/-- A method is entered, and no other is at work. -/
def start (W : World V G) (p : Program) (b : BodyId) (args : Operand → Option V)
    (g : G) : Configuration V G :=
  ⟨[W.enter p b args], g⟩

/-- One step of the innermost frame. -/
def step (W : World V G) (cfg : InlineSettings) (p : Program)
    (K : Configuration V G) : Option (Configuration V G) :=
  match K.frames with
  | [] => none
  | F :: rest => F.place.bind fun i =>
    if (p.instr i).kind = .ret then
      match F.stack, rest with
      | [], F' :: rest => F'.place.map fun k => ⟨{ F' with
          place := p.next k } :: rest, K.shared⟩
      | _, _ => none
    else match entered? cfg p (p.instr i) with
      | some c => some ⟨W.enter p c (fun _ => none) :: F :: rest, K.shared⟩
      | none =>
          (W.work (p.instr i) F.args F.slots F.stack K.shared).bind fun w =>
        (p.goes i w.jumps).map fun a =>
          ⟨{ F with place := a, stack := w.stack, slots := w.slots } :: rest,
            w.shared⟩

/-- The end that a run has come to. -/
def finish? (p : Program) (K : Configuration V G) : Option (Finish V) :=
  match K.frames with
  | [] => none
  | F :: rest => F.place.bind fun i =>
    match (p.instr i).kind, F.stack, rest with
    | .ret, stack, [] => some (.returned stack)
    | .throws, v :: _, _ => some (.thrown v)
    | _, _, _ => none

end World

/-- `n` steps of a partial function. -/
def steps {S : Type} (next : S → Option S) : Nat → S → Option S
  | 0, s => some s
  | n + 1, s => (next s).bind (steps next n)

/-- Runs of the body in `q` come to what runs in `p` come to: in every world,
whatever the arguments and the shared state are at first, each shared state of
the run in `p` is one of the run in `q`, the run ends in the same way, and it
goes on for ever if it does in `p`. -/
structure Follows (cfg : InlineSettings) (b : BodyId) (p q : Program) :
    Prop where
  reaches : ∀ {V G : Type} (W : World V G) (args : Operand →
    Option V) (g : G) (n : Nat) (K : Configuration V G),
    steps (W.step cfg p) n (W.start p b args g) = some K →
    ∃ m K', steps (W.step cfg q) m (W.start q b args g) = some K' ∧ K'.shared =
    K.shared ∧ ∀ x, World.finish? p K = some x → World.finish? q K' = some x
  lasts : ∀ {V G : Type} (W : World V G) (args : Operand → Option V) (g : G),
    (∀ n, (steps (W.step cfg p) n (W.start p b args g)).isSome) →
    ∀ n, (steps (W.step cfg q) n (W.start q b args g)).isSome

theorem Follows.refl (cfg : InlineSettings) (b : BodyId) (p : Program) :
    Follows cfg b p p where
  reaches := fun _ _ _ n K h => ⟨n, K, h, rfl, fun _ hx => hx⟩
  lasts := fun _ _ _ h => h

theorem Follows.trans {cfg : InlineSettings} {b : BodyId} {p q r : Program}
    (h : Follows cfg b p q) (h' : Follows cfg b q r) : Follows cfg b p r where
  reaches := by
    intro V G W args g n K hK
    obtain ⟨m, K', hK', hshared, hfinish⟩ := h.reaches W args g n K hK
    obtain ⟨m', K'', hK'', hshared', hfinish'⟩ := h'.reaches W args g m K' hK'
    exact ⟨m', K'', hK'', hshared'.trans hshared,
      fun x hx => hfinish' x (hfinish x hx)⟩
  lasts := fun W args g hn => h'.lasts W args g (h.lasts W args g hn)

/-! ### Steps one by one -/

section Step

variable {V G : Type} {W : World V G} {cfg : InlineSettings} {p : Program}
  {K K₁ : Configuration V G}

/-- The kinds of steps. -/
inductive Step (W : World V G) (cfg : InlineSettings) (p : Program) :
    Configuration V G → Configuration V G → Prop
  | work {F : Frame V} {rest : List (Frame V)} {i : InstrId}
    {g : G} {w : Work V G} {a : Option InstrId} : F.place = some i →
    (p.instr i).kind ≠ .ret → entered? cfg p (p.instr i) = none → W.work
    (p.instr i) F.args F.slots F.stack g = some w → p.goes i w.jumps = some a →
    Step W cfg p ⟨F :: rest, g⟩ ⟨{ F with
      place := a, stack := w.stack, slots := w.slots } :: rest, w.shared⟩
  | enter {F : Frame V} {rest : List (Frame V)} {i : InstrId} {g : G}
      {c : BodyId} : F.place = some i → entered? cfg p (p.instr i) = some c →
      Step W cfg p ⟨F :: rest, g⟩ ⟨W.enter p c (fun _ => none) :: F :: rest, g⟩
  | leave {F F' : Frame V} {rest : List (Frame V)} {i k : InstrId} {g : G} :
    F.place = some i → (p.instr i).kind = .ret → F.stack =
    [] → F'.place = some k →
    Step W cfg p ⟨F :: F' :: rest, g⟩ ⟨{ F' with place := p.next k } :: rest, g⟩

/-- Only calls are entered. -/
theorem kind_of_entered {x : Instr} {c : BodyId}
    (h : entered? cfg p x = some c) : x.kind = .call := by
  by_contra hno
  rw [entered?, Inline.calleeOf_eq_none hno] at h
  cases h

theorem step_iff : W.step cfg p K = some K₁ ↔ Step W cfg p K K₁ := by
  obtain ⟨frames, g⟩ := K
  constructor
  · intro h
    rw [World.step] at h
    cases frames with
    | nil => cases h
    | cons F rest =>
        obtain ⟨i, hi, h⟩ := Option.bind_eq_some_iff.mp h
        split at h
        · next hret =>
            cases hstack : F.stack with
            | cons v stack =>
                rw [hstack] at h
                cases h
            | nil =>
                rw [hstack] at h
                cases rest with
                | nil => cases h
                | cons F' rest =>
                    obtain ⟨k, hk, rfl⟩ := Option.map_eq_some_iff.mp h
                    exact .leave hi hret hstack hk
        · next hret =>
            split at h
            · next c hc =>
                cases h
                exact .enter hi hc
            · next hc =>
                obtain ⟨w, hw, h⟩ := Option.bind_eq_some_iff.mp h
                obtain ⟨a, ha, rfl⟩ := Option.map_eq_some_iff.mp h
                exact .work hi hret hc hw ha
  · intro h
    cases h with
    | work hi hret hc hw ha =>
        simp only [World.step, hi, Option.bind_some, if_neg hret, hc, hw, ha,
          Option.map_some]
    | @enter F rest i _ c hi hc =>
        have hret : (p.instr i).kind ≠ .ret := by
          rw [kind_of_entered hc]
          simp
        simp only [World.step, hi, Option.bind_some, if_neg hret, hc]
    | leave hi hret hstack hk =>
        simp only [World.step, hi, Option.bind_some, if_pos hret, hstack, hk,
          Option.map_some]

/-- A run ends when the outermost method returns, or with a throw. -/
theorem finish_iff {F : Frame V} {rest : List (Frame V)} {g : G}
    {o : Finish V} :
    World.finish? p ⟨F :: rest, g⟩ = some o ↔ ∃ i, F.place = some i ∧
    ((p.instr i).kind = .ret ∧ rest = [] ∧ o = .returned F.stack ∨
      (p.instr i).kind = .throws ∧ ∃ v below, F.stack = v :: below ∧
      o = .thrown v) := by
  rw [World.finish?, Option.bind_eq_some_iff]
  refine exists_congr fun i => and_congr_right fun _ => ?_
  constructor
  · intro h
    cases hkind : (p.instr i).kind with
    | ret =>
        simp only [hkind] at h
        cases rest with
        | nil =>
            cases h
            exact Or.inl ⟨rfl, rfl, rfl⟩
        | cons => cases h
    | throws =>
        simp only [hkind] at h
        cases hstack : F.stack with
        | nil => simp [hstack] at h
        | cons v below =>
            simp only [hstack, Option.some.injEq] at h
            exact Or.inr ⟨rfl, v, below, rfl, h.symm⟩
    | _ => simp [hkind] at h
  · rintro (⟨hkind, rfl, rfl⟩ | ⟨hkind, v, below, hstack, rfl⟩)
    · rw [hkind]
    · rw [hkind, hstack]

/-- A run that has come to its end has no step. -/
theorem step_of_finish {o : Finish V} (h : World.finish? p K = some o) :
    W.step cfg p K = none := by
  obtain ⟨frames, g⟩ := K
  cases frames with
  | nil => cases h
  | cons F rest =>
      obtain ⟨i, hi, h⟩ := finish_iff.mp h
      by_contra hsome
      obtain ⟨K₁, hK⟩ := Option.ne_none_iff_exists'.mp hsome
      rw [step_iff] at hK
      rcases h with ⟨hret, rfl, -⟩ | ⟨hthrows, -⟩
      · cases hK with
        | work hj hno =>
            cases hi.symm.trans hj
            exact hno hret
        | enter hj hc =>
            cases hi.symm.trans hj
            rw [kind_of_entered hc] at hret
            cases hret
      · cases hK with
        | work hj _ _ hw =>
            cases hi.symm.trans hj
            simp [World.work, hthrows] at hw
        | enter hj hc =>
            cases hi.symm.trans hj
            rw [kind_of_entered hc] at hthrows
            cases hthrows
        | leave hj hret =>
            cases hi.symm.trans hj
            rw [hret] at hthrows
            cases hthrows

end Step

/-- A run comes to a stop at one place at most. -/
theorem steps_stop {S : Type} {next : S → Option S} {s a b : S} {m n : Nat}
    (ha : steps next m s = some a) (hb : steps next n s = some b)
    (hstop : next a = none) (hstop' : next b = none) : a = b := by
  induction m generalizing n s with
  | zero =>
      cases ha
      cases n with
      | zero => exact Option.some.inj hb
      | succ n =>
          rw [steps, hstop] at hb
          cases hb
  | succ m ih =>
      obtain ⟨s', hs', ha⟩ := Option.bind_eq_some_iff.mp ha
      cases n with
      | zero =>
          cases hb
          rw [hstop'] at hs'
          cases hs'
      | succ n =>
          rw [steps, hs'] at hb
          exact ih ha hb

/-- Runs that follow one that ends do not end in another way. -/
theorem Follows.ends {V G : Type} {W : World V G} {cfg : InlineSettings}
    {b : BodyId} {p q : Program} {args : Operand → Option V} {g : G} {m n : Nat}
    {K K' : Configuration V G} {o o' : Finish V} (h : Follows cfg b p q)
    (hK : steps (W.step cfg p) n (W.start p b args g) = some K)
    (ho : World.finish? p K = some o)
    (hK' : steps (W.step cfg q) m (W.start q b args g) = some K')
    (ho' : World.finish? q K' = some o') : o' = o ∧ K'.shared = K.shared := by
  obtain ⟨m', K'', hK'', hshared, hfinish⟩ := h.reaches W args g n K hK
  cases steps_stop hK' hK'' (step_of_finish ho') (step_of_finish (hfinish o ho))
  exact ⟨Option.some.inj (ho'.symm.trans (hfinish o ho)), hshared⟩

end Bytecode
