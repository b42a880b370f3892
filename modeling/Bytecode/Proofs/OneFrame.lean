import Bytecode.Proofs.Frames
import Bytecode.Proofs.EachReturn
import Bytecode.Proofs.WritesFirst

/-!
# Two frames in one

After a callee has been taken in, the frame of the caller does what two frames
did before.  A configuration of the old program and one of the new program are
`Related` if their frames correspond one to one, except that the frame of the
callee and the frame of the caller below it, at the call, correspond to one
frame: its stack is the two stacks one on top of the other, and its slots are
those of the caller and, as far as they have been written, those of the callee.

Each step of the old program is matched by one of the new program, or by none if
a return stands in last position; then there is one frame less than before.  The
main statement is `Inlining.follows`.
-/

namespace Bytecode

variable {V G : Type} {W : World V G} {cfg : InlineSettings} {p q : Program}
  {b c : BodyId} {i k : InstrId} {a : Option InstrId} {n : Int} {x y : Instr}

/-! ### Simulation with pauses -/

section Simulation

variable {S T : Type} {next : S → Option S} {next' : T → Option T}
  {R : S → T → Prop} {rank : S → Nat}

/-- One step is taken first. -/
theorem steps_succ {s : S} {n : Nat} :
    steps next (n + 1) s = (next s).bind (steps next n) := rfl

/-- Each step is matched by a step, or by none, and then the rank goes down. -/
def Matches (next : S → Option S) (next' : T → Option T) (R : S → T → Prop)
    (rank : S → Nat) : Prop :=
  ∀ ⦃s t s₁⦄, R s t → next s = some s₁ →
    (∃ t₁, next' t = some t₁ ∧ R s₁ t₁) ∨ R s₁ t ∧ rank s₁ < rank s

/-- What is reached on one side is matched on the other. -/
theorem Matches.reaches (h : Matches next next' R rank) {s s₁ : S} {t : T}
    {n : Nat} (hR : R s t) (hs : steps next n s = some s₁) :
    ∃ m t₁, steps next' m t = some t₁ ∧ R s₁ t₁ := by
  induction n generalizing s t with
  | zero =>
      cases hs
      exact ⟨0, t, rfl, hR⟩
  | succ n ih =>
      obtain ⟨s', hs', hs⟩ := Option.bind_eq_some_iff.mp hs
      rcases h hR hs' with ⟨t', ht', hR'⟩ | ⟨hR', -⟩
      · obtain ⟨m, t₁, ht, hR₁⟩ := ih hR' hs
        exact ⟨m + 1, t₁, by rw [steps_succ, ht', Option.bind_some, ht], hR₁⟩
      · exact ih hR' hs

/-- What goes on for ever is matched by what goes on for ever. -/
theorem Matches.lasts (h : Matches next next' R rank) {s : S} {t : T}
    (hR : R s t) (hs : ∀ n, (steps next n s).isSome) (m : Nat) :
    (steps next' m t).isSome := by
  induction m generalizing s t with
  | zero => rfl
  | succ m ih =>
      -- Pauses come to an end, as the rank goes down.
      induction hr : rank s using Nat.strongRecOn generalizing s with
      | ind r ihr =>
          obtain ⟨s₁, hs₁⟩ := Option.isSome_iff_exists.mp (hs 1)
          obtain ⟨s', hs', heq⟩ := Option.bind_eq_some_iff.mp hs₁
          have hlasts : ∀ n, (steps next n s').isSome := by
            intro n
            have hn := hs (n + 1)
            rwa [steps_succ, hs', Option.bind_some] at hn
          rcases h hR hs' with ⟨t', ht', hR'⟩ | ⟨hR', hlt⟩
          · rw [steps_succ, ht', Option.bind_some]
            exact ih hR' hlasts
          · exact ihr _ (hr ▸ hlt) hR' hlasts rfl

end Simulation

/-! ### What two instructions that do the same make of their frames -/

/-- Values are taken from the top, whatever is below. -/
theorem takeTop_append {m : Nat} {stack vs rest : List V}
    (h : takeTop m stack = some (vs, rest)) (below : List V) :
    takeTop m (stack ++ below) = some (vs, rest ++ below) := by
  rw [takeTop] at h ⊢
  split at h
  · next hm =>
      cases h
      rw [if_pos (by rw [List.length_append]; omega),
        List.take_append_of_le_length hm, List.drop_append_of_le_length hm]
  · cases h

/-- What an instruction has made of the slots of its frame, and what one that
does as it, at slots that have been moved, has made of the slots of its own. -/
inductive SlotsAfter (move : Int → Int) (x : Instr) (s s' : Int → Option V) :
    (Int → Option V) → (Int → Option V) → Prop
  | kept : (∀ n, ¬ x.Writes n) → SlotsAfter move x s s' s s'
  | written {n : Int} (v : V) : x.Writes n → (s n).isSome →
    SlotsAfter move x s s' (Function.update s n (some v))
    (Function.update s' (move n) (some v))

/-- Instructions that do the same work in moved slots. -/
theorem DoesAs.work {move : Int → Int} {known : Int → Prop}
    (h : DoesAs move known x y) {args args' : Operand → Option V}
    {s s' : Int → Option V} {stack : List V} {g : G} {w : Work V G}
    (hknown : ∀ n, (s n).isSome → known n)
    (hargs : ∀ o v, args o = some v → args' o = some v)
    (hload : ∀ n v, x.Reads n → s n = some v → s' (move n) = some v)
    (hstore : ∀ n, (s n).isSome → (s' (move n)).isSome)
    (hw : W.work x args s stack g = some w) (below : List V) :
    ∃ w', W.work y args' s' (stack ++ below) g = some w' ∧ w'.jumps = w.jumps ∧
      w'.stack = w.stack ++ below ∧ w'.shared = w.shared ∧
      SlotsAfter move x s s' w.slots w'.slots := by
  have hquiet : x.access? ≠ some .store → ∀ n, ¬ x.Writes n :=
    fun hno n hw => hno hw.1
  rw [World.work] at hw
  rw [World.work]
  simp only [h.kind]
  cases hk : x.kind with
  | nop =>
      simp only [hk, Option.some.injEq] at hw ⊢
      subst hw
      exact ⟨_, rfl, rfl, rfl, rfl,
        .kept (hquiet (by simp [Instr.access?, hk, Kind.access?]))⟩
  | branch =>
      simp only [hk, Option.some.injEq] at hw ⊢
      subst hw
      exact ⟨_, rfl, rfl, rfl, rfl,
        .kept (hquiet (by simp [Instr.access?, hk, Kind.access?]))⟩
  | conditionalBranch =>
      have hop := h.op (by rw [Instr.access?, hk]; rfl)
      simp only [hk] at hw ⊢
      obtain ⟨⟨vs, rest⟩, htake, rfl⟩ := Option.map_eq_some_iff.mp hw
      rw [hop, takeTop_append htake]
      exact ⟨_, rfl, rfl, rfl, rfl,
        .kept (hquiet (by simp [Instr.access?, hk, Kind.access?]))⟩
  | loadLocal =>
      simp only [hk] at hw ⊢
      obtain ⟨v, hv, rfl⟩ := Option.map_eq_some_iff.mp hw
      obtain ⟨n, hn, hv⟩ := Option.bind_eq_some_iff.mp hv
      have haccess : x.access? = some .load := by rw [Instr.access?, hk]; rfl
      have hslot := h.slot n hn (hknown n (by rw [hv]; rfl))
      rw [hslot, Option.bind_some, hload n v ⟨haccess, hn⟩ hv]
      exact ⟨_, rfl, rfl, rfl, rfl, .kept (hquiet (by simp [haccess]))⟩
  | storeLocal =>
      simp only [hk] at hw ⊢
      obtain ⟨⟨slots, rest⟩, hpop, rfl⟩ := Option.map_eq_some_iff.mp hw
      obtain ⟨n, hn, hpop⟩ := Option.bind_eq_some_iff.mp hpop
      have haccess : x.access? = some .store := by rw [Instr.access?, hk]; rfl
      cases stack with
      | nil => cases hpop
      | cons v stack =>
          obtain ⟨u, hu, heq⟩ := Option.map_eq_some_iff.mp hpop
          cases heq
          have hsome : (s n).isSome := by rw [hu]; rfl
          obtain ⟨u', hu'⟩ := Option.isSome_iff_exists.mp (hstore n hsome)
          rw [h.slot n hn (hknown n hsome), Option.bind_some, List.cons_append,
            popInto, hu']
          exact ⟨_, rfl, rfl, rfl, rfl, .written v ⟨haccess, hn⟩ hsome⟩
  | call | other =>
      have hno : x.access? = none := by rw [Instr.access?, hk]; rfl
      have hbr : x.isBranch = false := by
        rw [Instr.isBranch, Opcode.isBranch, show x.op.kind = _ from hk]
        rfl
      simp only [hk] at hw ⊢
      rw [h.op hno, h.operand hno hbr]
      split at hw
      · next harg =>
          obtain ⟨v, hv, rfl⟩ := Option.map_eq_some_iff.mp hw
          rw [if_pos harg, hargs _ _ hv]
          exact ⟨_, rfl, rfl, rfl, rfl, .kept (hquiet (by simp [hno]))⟩
      · next harg =>
          obtain ⟨⟨vs, rest⟩, htake, hact⟩ := Option.bind_eq_some_iff.mp hw
          obtain ⟨⟨rs, g'⟩, hresult, rfl⟩ := Option.map_eq_some_iff.mp hact
          have hresult : W.act x.op x.operand vs g = some (rs, g') := hresult
          rw [if_neg harg, takeTop_append htake, Option.bind_some]
          simp only [hresult, Option.map_some]
          exact ⟨_, rfl, rfl, (List.append_assoc _ _ _).symm, rfl,
            .kept (hquiet (by simp [hno]))⟩
  | ret | throws | loadLocalAddress =>
      simp only [hk] at hw
      cases hw

/-- No slot appears on the left. -/
theorem SlotsAfter.isSome_of_left {move : Int → Int}
    {s s' t t' : Int → Option V} (h : SlotsAfter move x s s' t t') {m : Int}
    (hm : (t m).isSome) : (s m).isSome := by
  cases h with
  | kept => exact hm
  | @written n v _ hsome =>
      by_cases hmn : m = n
      · rwa [hmn]
      · rwa [Function.update_of_ne hmn] at hm

/-- A slot on the right stays. -/
theorem SlotsAfter.isSome_right {move : Int → Int} {s s' t t' : Int → Option V}
    (h : SlotsAfter move x s s' t t') {m : Int} (hm : (s' m).isSome) :
    (t' m).isSome := by
  cases h with
  | kept => exact hm
  | @written n v _ _ =>
      by_cases hmn : m = move n
      · rw [hmn, Function.update_self]
        rfl
      · rwa [Function.update_of_ne hmn]

/-- Only branches jump, and what does not jump falls through. -/
theorem jumps_of_work {args : Operand → Option V} {s : Int → Option V}
    {stack : List V} {g : G} {w : Work V G}
    (hw : W.work x args s stack g = some w) :
    (w.jumps = true → x.isBranch = true) ∧
    (w.jumps = false → x.fallsThrough = true) := by
  have hfalls : x.fallsThrough = x.kind.fallsThrough := rfl
  have hbr : x.isBranch = x.kind.isBranch := rfl
  have hquiet : w.jumps = false → x.kind.fallsThrough = true → (w.jumps = true →
      x.isBranch = true) ∧ (w.jumps = false → x.fallsThrough = true) :=
    fun hj hkind => ⟨fun hj' => absurd (hj.symm.trans hj') (by simp),
      fun _ => hfalls.trans hkind⟩
  rw [World.work] at hw
  cases hk : x.kind with
  | nop =>
      simp only [hk, Option.some.injEq] at hw
      exact hquiet (by rw [← hw]) (by rw [hk]; rfl)
  | branch =>
      simp only [hk, Option.some.injEq] at hw
      rw [← hw]
      exact ⟨fun _ => by rw [hbr, hk]; rfl, fun hj => by cases hj⟩
  | conditionalBranch =>
      exact ⟨fun _ => by rw [hbr, hk]; rfl, fun _ => by rw [hfalls, hk]; rfl⟩
  | loadLocal | storeLocal =>
      simp only [hk] at hw
      obtain ⟨v, -, rfl⟩ := Option.map_eq_some_iff.mp hw
      exact hquiet rfl (by rw [hk]; rfl)
  | call | other =>
      simp only [hk] at hw
      split at hw
      · obtain ⟨v, -, rfl⟩ := Option.map_eq_some_iff.mp hw
        exact hquiet rfl (by rw [hk]; rfl)
      · obtain ⟨r, -, hact⟩ := Option.bind_eq_some_iff.mp hw
        obtain ⟨r', -, rfl⟩ := Option.map_eq_some_iff.mp hact
        exact hquiet rfl (by rw [hk]; rfl)
  | ret | throws | loadLocalAddress =>
      simp only [hk] at hw
      cases hw

/-- Control goes to the next instruction, or to the target of a branch. -/
theorem goes_cases {args : Operand → Option V} {s : Int → Option V}
    {stack : List V} {g : G} {w : Work V G}
    (hw : W.work (p.instr i) args s stack g = some w)
    (ha : p.goes i w.jumps = some a) :
    w.jumps = false ∧ (p.instr i).fallsThrough = true ∧ a = p.next i ∨
    w.jumps = true ∧ (p.instr i).isBranch = true ∧ ∃ t, p.target? i = some t ∧
    a = some t := by
  obtain ⟨hjump, hnext⟩ := jumps_of_work hw
  rw [Program.goes] at ha
  cases hj : w.jumps with
  | true =>
      rw [hj, if_pos rfl] at ha
      obtain ⟨t, ht, rfl⟩ := Option.map_eq_some_iff.mp ha
      exact Or.inr ⟨rfl, hjump hj, t, ht, rfl⟩
  | false =>
      rw [hj, if_neg (by simp)] at ha
      cases ha
      exact Or.inl ⟨rfl, hnext hj, rfl⟩

/-- An instruction leads where its work makes it go. -/
theorem leads_of_work {args : Operand → Option V} {s : Int → Option V}
    {stack : List V} {g : G} {w : Work V G}
    (hw : W.work (p.instr i) args s stack g = some w)
    (ha : p.goes i w.jumps = some a) : Leads p i a := by
  rcases goes_cases hw ha with ⟨-, hfalls, rfl⟩ | ⟨-, hbr, t, ht, rfl⟩
  · exact .falls hfalls
  · exact .jumps hbr ht

namespace Inline

variable {call anchor nop d : InstrId} {inner : List InstrId}
  {f : InstrId → InstrId}

/-- A call that is entered has been taken in, and its callee writes its slots
first. -/
structure Inlining (cfg : InlineSettings) (b c : BodyId)
    (call anchor nop : InstrId) (inner : List InstrId) (f : InstrId → InstrId)
    (p q : Program) : Prop extends Spliced b c call anchor nop inner f p q where
  before : p.WellLinked
  mem : call ∈ p.code b
  next : p.next call = some anchor
  other : c ≠ b
  bodies : p.NoDangling
  entered : entered? cfg p (p.instr call) = some c
  first : WritesFirst p c

/-- What becomes of the places of a body. -/
def renamed (b : BodyId) (call nop : InstrId) (d : BodyId) :
    InstrId → InstrId :=
  if d = b then moving call nop else id

/-- Only the call is renamed. -/
theorem renamed_of_ne {d : BodyId} (hkc : k ≠ call) :
    renamed b call nop d k = k := by
  rw [renamed]
  split
  · exact moving_of_ne hkc
  · rfl

/-- A frame of the same method in both programs. -/
structure SameFrame (b : BodyId) (call nop : InstrId) (p q : Program)
    (F F' : Frame V) : Prop where
  body : F'.body = F.body
  place : F'.place = F.place.map (renamed b call nop F.body)
  stack : F'.stack = F.stack
  args : F'.args = F.args
  slots : ∀ n v, F.slots n = some v → F'.slots n = some v
  closed : p.Closed F.body
  inside : Inside p F.body F.place
  declared : ∀ n, (F.slots n).isSome → ((p.body F.body).localAt? n).isSome
  room : ∀ n, ((q.body F.body).localAt? n).isSome → (F'.slots n).isSome

/-- The frame `F'` of the caller does the work of the frame `F` of the callee on
top of the frame `E` of the caller. -/
structure OneFrame (b c : BodyId) (call anchor : InstrId) (inner : List InstrId)
    (f : InstrId → InstrId) (p q : Program) (F E F' : Frame V) : Prop where
  callee : F.body = c
  caller : E.body = b
  body : F'.body = b
  atCall : E.place = some call
  place : F'.place = some (land anchor f F.place)
  inside : Inside p c F.place
  lands : ∀ d ∈ F.place, Lands p anchor inner f d
  stack : F'.stack = F.stack ++ E.stack
  noArgs : ∀ o, F.args o = none
  args : F'.args = E.args
  closed : p.Closed b
  callerSlots : ∀ n v, E.slots n = some v → F'.slots n = some v
  callerDeclared : ∀ n, (E.slots n).isSome → ((p.body b).localAt? n).isSome
  calleeSlots : inner ≠ [] → ∀ n v, F.slots n = some v → ¬ Stale p c n F.place →
    F'.slots ((p.body b).locals.size + n) = some v
  calleeDeclared : ∀ n, (F.slots n).isSome → ((p.body c).localAt? n).isSome
  room : ∀ n, ((q.body b).localAt? n).isSome → (F'.slots n).isSome

/-- Frames that wait for calls to return. -/
inductive Waiting (b c : BodyId) (call anchor nop : InstrId)
    (inner : List InstrId) (f : InstrId → InstrId) (p q : Program) :
    List (Frame V) → List (Frame V) → Prop
  | nil : Waiting b c call anchor nop inner f p q [] []
  | same {F F' : Frame V} {k : InstrId} {rest rest' : List (Frame V)} :
    SameFrame b call nop p q F F' → F.place = some k → (p.instr k).kind =
    .call → k ≠ call → Waiting b c call anchor nop inner f p q rest rest' →
    Waiting b c call anchor nop inner f p q (F :: rest) (F' :: rest')
  | one {F E F' : Frame V} {k : InstrId} {rest rest' : List (Frame V)} :
    OneFrame b c call anchor inner f p q F E F' → F.place = some k →
    (p.instr k).kind = .call →
    Waiting b c call anchor nop inner f p q rest rest' →
    Waiting b c call anchor nop inner f p q (F :: E :: rest) (F' :: rest')

/-- Configurations of the two programs that correspond. -/
inductive Related (b c : BodyId) (call anchor nop : InstrId)
    (inner : List InstrId) (f : InstrId → InstrId) (p q : Program) :
    Configuration V G → Configuration V G → Prop
  | same {F F' : Frame V}
    {rest rest' : List (Frame V)} {g : G} : SameFrame b call nop p q F F' →
    Waiting b c call anchor nop inner f p q rest rest' →
    Related b c call anchor nop inner f p q ⟨F :: rest, g⟩ ⟨F' :: rest', g⟩
  | one {F E F' : Frame V} {rest rest' : List (Frame V)} {g : G} :
    OneFrame b c call anchor inner f p q F E F' →
    Waiting b c call anchor nop inner f p q rest rest' →
    Related b c call anchor nop inner f p q ⟨F :: E :: rest, g⟩ ⟨F' :: rest', g⟩

/-- Frames that are the same are at the same place, off the call. -/
theorem SameFrame.stays {F F' : Frame V} (h : SameFrame b call nop p q F F')
    (hi : F.place = some i) (hic : i ≠ call) : F'.place = some i := by
  rw [h.place, hi, Option.map_some, renamed_of_ne hic]

/-- An instruction of the callee that is no return has a copy. -/
theorem OneFrame.copied {F E F' : Frame V}
    (h : OneFrame b c call anchor inner f p q F E F') (hi : F.place = some i)
    (hret : (p.instr i).kind ≠ .ret) : i ∈ inner ∧ F'.place = some (f i) := by
  refine ⟨(h.lands i hi).resolve_right fun hno => hret hno.1, ?_⟩
  rw [h.place, hi]
  rfl

namespace Inlining

variable (h : Inlining cfg b c call anchor nop inner f p q) {d : BodyId}
  {F E F' : Frame V}

include h

/-- What is inlined is a call. -/
theorem call_kind : (p.instr call).kind = .call := kind_of_entered h.entered

/-- A call does not follow itself. -/
theorem anchor_ne : anchor ≠ call := by
  rintro rfl
  exact h.before.next_ne h.mem h.next

/-- The bodies that calls enter are closed. -/
theorem closed_of_entered (hd : entered? cfg p x = some d) : p.Closed d := by
  obtain ⟨m, -, hm⟩ := Option.bind_eq_some_iff.mp hd
  split at hm
  · exact h.bodies m d hm
  · cases hm

/-- Calls enter what they entered before. -/
theorem entered_congr (hcallee : calleeOf cfg y.bare = calleeOf cfg x.bare) :
    entered? cfg q y = entered? cfg p x := by
  have hmethod : ∀ m, q.method m = p.method m := h.changed.method
  have hpolicy : ∀ m, Policy.baseline {} 0 q (some m) =
      Policy.baseline {} 0 p (some m) := by
    intro m
    rw [Policy.baseline, Policy.baseline, hmethod]
    rfl
  rw [entered?, entered?, hcallee]
  simp only [hmethod, hpolicy]

/-! ### Frames of the same method -/

section At

variable {k : InstrId} (hk : k ∈ p.code d) (hkc : k ≠ call)

include hk hkc

/-- Every other instruction is redirected. -/
theorem redirected :
    (p.instr k).Redirected (renamed b call nop d) (q.instr k) := by
  rw [renamed]
  split
  · next hdb => exact h.old k (hdb ▸ hk) hkc
  · next hdb =>
      rw [(h.changed.agreeOn h.before hdb).instr k (by rwa [← h.before.code])]
      exact .refl _

/-- What follows an instruction is renamed. -/
theorem next_renamed : q.next k = (p.next k).map (renamed b call nop d) := by
  rw [renamed]
  split
  · next hdb => exact h.next_old h.before h.mem h.next (hdb ▸ hk) hkc
  · next hdb =>
      have hagree := h.changed.agreeOn h.before hdb
      have hcode : q.code d = p.code d := by
        rw [h.linked.code, h.before.code, hagree.body]
      rw [h.linked.next (by rwa [hcode]), hcode, h.before.next hk,
        Option.map_id, id]

end At

/-- The frames of a method that is entered in both programs. -/
theorem same_enter (hclosed : p.Closed d) {args : Operand → Option V} :
    SameFrame b call nop p q (W.enter p d args) (W.enter q d args) where
  body := rfl
  place := by
    change q.first? d = (p.first? d).map (renamed b call nop d)
    rw [renamed]
    split
    · next hdb =>
        rw [hdb]
        exact h.first?_eq h.before h.mem h.next
    · next hdb =>
        have hagree := h.changed.agreeOn h.before hdb
        rw [h.linked.first?, h.before.first?, h.linked.code, h.before.code,
          hagree.body, Option.map_id, id]
  stack := rfl
  args := rfl
  slots := by
    intro n v hv
    obtain ⟨l, hl, rfl⟩ := Option.map_eq_some_iff.mp hv
    have hinit : (q.body d).initLocals = (p.body d).initLocals :=
      (congrArg Body.initLocals (h.rest d) :)
    have hlocal : (q.body d).localAt? n = some l := by
      by_cases hdb : d = b
      · rw [hdb] at hl ⊢
        exact h.localAt?_old hl
      · rwa [(h.changed.agreeOn h.before hdb).body]
    change ((q.body d).localAt? n).map _ = _
    rw [hlocal, hinit]
    rfl
  closed := hclosed
  inside := inside_first? h.before
  declared := by
    intro n hn
    rwa [World.enter, Option.isSome_map] at hn
  room := by
    intro n hn
    rwa [World.enter, Option.isSome_map]

/-- The same work is done in frames that are the same. -/
theorem same_work {g : G} {w : Work V G} (hF : SameFrame b call nop p q F F')
    (hi : F.place = some i) (hic : i ≠ call)
    (hw : W.work (p.instr i) F.args F.slots F.stack g = some w)
    (ha : p.goes i w.jumps = some a) :
    ∃ w' a', W.work (q.instr i) F'.args F'.slots F'.stack g = some w' ∧
      q.goes i w'.jumps = some a' ∧ w'.shared = w.shared ∧ SameFrame
      b call nop p q { F with place := a, stack := w.stack, slots := w.slots }
      { F' with place := a', stack := w'.stack, slots := w'.slots } := by
  have hmem : i ∈ p.code F.body := inside_some.mp (hi ▸ hF.inside)
  have hred := h.redirected hmem hic
  have hargs : ∀ o v, F.args o = some v → F'.args o = some v := by
    rw [hF.args]
    exact fun _ _ hv => hv
  have hstore : ∀ n, (F.slots n).isSome → (F'.slots n).isSome := by
    intro n hn
    obtain ⟨v, hv⟩ := Option.isSome_iff_exists.mp hn
    rw [hF.slots n v hv]
    rfl
  obtain ⟨w', hw', hjumps, hstack, hshared, hslots⟩ := hred.doesAs.work
    (fun _ _ => trivial) hargs (fun n v _ hv => hF.slots n v hv) hstore hw []
  rw [List.append_nil] at hw' hstack
  rw [← hF.stack] at hw'
  have hinside := inside_leads h.before hF.closed hmem (leads_of_work hw ha)
  have hgoes :
      q.goes i w'.jumps = some (a.map (renamed b call nop F.body)) := by
    rw [Program.goes, hjumps]
    rcases goes_cases hw ha with ⟨hj, -, rfl⟩ | ⟨hj, hbr, t, ht, rfl⟩
    · rw [hj, if_neg (by simp), h.next_renamed hmem hic]
    · have htarget : q.target? i =
          (p.target? i).map (renamed b call nop F.body) := hred.target hbr
      rw [hj, if_pos rfl, htarget, ht]
      rfl
  refine ⟨w', _, hw', hgoes, hshared, hF.body, rfl, hstack, hF.args,
    fun n v hv => ?_, hF.closed, hinside, fun n hn => hF.declared n
    (hslots.isSome_of_left hn), fun n hn => hslots.isSome_right (hF.room n hn)⟩
  change w'.slots n = some v
  change w.slots n = some v at hv
  generalize w'.slots = t' at hslots ⊢
  generalize w.slots = t at hslots hv
  cases hslots with
  | kept => exact hF.slots n v hv
  | @written m u _ _ =>
      by_cases hnm : n = m
      · rw [hnm, Function.update_self] at hv
        rw [hnm, ← hv]
        exact Function.update_self ..
      · rw [Function.update_of_ne hnm] at hv
        rw [Function.update_of_ne (by exact hnm)]
        exact hF.slots n v hv

/-! ### The frame that does the work of two -/

/-- The work of the callee is done in the frame of the caller. -/
theorem one_work {g : G} {w : Work V G}
    (hO : OneFrame b c call anchor inner f p q F E F') (hi : F.place = some i)
    (hret : (p.instr i).kind ≠ .ret)
    (hw : W.work (p.instr i) F.args F.slots F.stack g = some w)
    (ha : p.goes i w.jumps = some a) :
    ∃ w' a', W.work (q.instr (f i)) F'.args F'.slots F'.stack g = some w' ∧
      q.goes (f i) w'.jumps = some a' ∧ w'.shared = w.shared ∧
      OneFrame b c call anchor inner f p q
        { F with place := a, stack := w.stack, slots := w.slots } E
        { F' with place := a', stack := w'.stack, slots := w'.slots } := by
  have hinner := (hO.copied hi hret).1
  have hne := List.ne_nil_of_mem hinner
  have hleads := leads_of_work hw ha
  have hclosed := h.closed_of_entered h.entered
  have hmem : i ∈ p.code c := h.shape.mem hinner
  have hstale : ∀ n v, ¬ Stale p c n (some i) → F.slots n = some v →
      F'.slots ((p.body b).locals.size + n) = some v :=
    fun n v hno hv => hO.calleeSlots hne n v hv (by rwa [hi])
  have hargs : ∀ o v, F.args o = some v → F'.args o = some v := by
    intro o v hv
    rw [hO.noArgs] at hv
    cases hv
  have hstore : ∀ n, (F.slots n).isSome →
      (F'.slots ((p.body b).locals.size + n)).isSome := by
    intro n hn
    obtain ⟨l, hl⟩ := Option.isSome_iff_exists.mp (hO.calleeDeclared n hn)
    exact hO.room _ (by rw [h.localAt?_new hne hl]; rfl)
  obtain ⟨w', hw', hjumps, hstack, hshared, hslots⟩ :=
    (h.doesAs hinner hret).work hO.calleeDeclared hargs (fun n v hreads hv =>
      hstale n v (h.first.written i n hreads) hv) hstore hw E.stack
  rw [← hO.stack] at hw'
  have hgoes : q.goes (f i) w'.jumps = some (some (land anchor f a)) := by
    rw [Program.goes, hjumps]
    rcases goes_cases hw ha with ⟨hj, -, rfl⟩ | ⟨hj, hbr, t, ht, rfl⟩
    · rw [hj, if_neg (by simp), h.next_copy h.before h.mem h.next hinner]
    · have htarget : q.target? (f i) = (p.target? i).map f :=
        ((h.copy i hinner).of_branch hbr).2
      rw [hj, if_pos rfl, htarget, ht]
      rfl
  have hinside : Inside p c a := inside_leads h.before hclosed hmem hleads
  refine ⟨w', _, hw', hgoes, hshared, hO.callee, hO.caller, hO.body, hO.atCall,
    rfl, hinside,
    fun e he => h.shape.lands hinner (hinside e he), hstack, hO.noArgs, hO.args,
    hO.closed, fun n v hv => ?_, hO.callerDeclared, fun _ n v hv hno => ?_,
    fun n hn => hO.calleeDeclared n (hslots.isSome_of_left hn),
    fun n hn => hslots.isSome_right (hO.room n hn)⟩
  · -- The slots of the callee lie behind those of the caller.
    change w'.slots n = some v
    have hn := (Body.lt_of_localAt? (hO.callerDeclared n (by rw [hv]; rfl))).2
    generalize w'.slots = t' at hslots ⊢
    generalize w.slots = t at hslots
    cases hslots with
    | kept => exact hO.callerSlots n v hv
    | @written m u _ hm =>
        have hm := (Body.lt_of_localAt? (hO.calleeDeclared m hm)).1
        rw [Function.update_of_ne (by omega)]
        exact hO.callerSlots n v hv
  · change w'.slots _ = some v
    change w.slots n = some v at hv
    generalize w'.slots = t' at hslots ⊢
    generalize w.slots = t at hslots hv
    cases hslots with
    | kept hquiet =>
        exact hstale n v (fun hst => hno (hst.step (hquiet n) hleads)) hv
    | @written m u hwrites _ =>
        by_cases hnm : n = m
        · rw [hnm, Function.update_self] at hv
          rw [hnm, ← hv]
          exact Function.update_self ..
        · rw [Function.update_of_ne hnm] at hv
          rw [Function.update_of_ne (by omega)]
          refine hstale n v
            (fun hst => hno (hst.step (fun hw => hnm ?_) hleads)) hv
          exact Option.some.inj (hw.2.symm.trans hwrites.2)

/-! ### Calls and returns -/

/-- The call that has been taken in is carried out. -/
theorem one_enter (hF : SameFrame b call nop p q F F')
    (hi : F.place = some call) :
    OneFrame b c call anchor inner f p q (W.enter p c fun _ => none) F
    { F' with place := some (land anchor f (p.first? c)) } := by
  have hbody : F.body = b :=
    h.before.body_unique h.mem (inside_some.mp (hi ▸ hF.inside))
  refine ⟨rfl, hbody, hF.body.trans hbody, hi, rfl, inside_first? h.before,
    h.shape.lands_first h.before, hF.stack, fun _ => rfl, hF.args,
    hbody ▸ hF.closed, hF.slots, hbody ▸ hF.declared,
    fun _ n v _ hno => absurd .entry hno, fun n hn => ?_, hbody ▸ hF.room⟩
  rwa [World.enter, Option.isSome_map] at hn

/-- The callee has returned. -/
theorem same_return (hO : OneFrame b c call anchor inner f p q F E F')
    (hstack : F.stack = []) : SameFrame b call nop p q { E with
      place := some anchor } { F' with place := some anchor } where
  body := hO.body.trans hO.caller.symm
  place := by
    change some anchor = (some anchor).map _
    rw [Option.map_some, renamed_of_ne h.anchor_ne]
  stack := by
    change F'.stack = E.stack
    rw [hO.stack, hstack]
    rfl
  args := hO.args
  slots := hO.callerSlots
  closed := by
    change p.Closed E.body
    rw [hO.caller]
    exact hO.closed
  inside := by
    have hinside := inside_next h.before h.mem
    rw [h.next] at hinside
    change Inside p E.body _
    rwa [hO.caller]
  declared := by
    change ∀ n, _ → ((p.body E.body).localAt? n).isSome
    rw [hO.caller]
    exact hO.callerDeclared
  room := by
    change ∀ n, ((q.body E.body).localAt? n).isSome → _
    rw [hO.caller]
    exact hO.room

/-- A frame goes on behind a call that is not the one taken in. -/
theorem same_resume (hF : SameFrame b call nop p q F F') (hi : F.place = some i)
    (hic : i ≠ call) : SameFrame b call nop p q { F with
      place := p.next i } { F' with place := q.next i } := by
  have hmem : i ∈ p.code F.body := inside_some.mp (hi ▸ hF.inside)
  exact ⟨hF.body, h.next_renamed hmem hic, hF.stack, hF.args, hF.slots,
    hF.closed, inside_next h.before hmem, hF.declared, hF.room⟩

/-- The callee goes on behind a call of its own. -/
theorem one_resume (hO : OneFrame b c call anchor inner f p q F E F')
    (hi : F.place = some i) (hkind : (p.instr i).kind = .call) :
    OneFrame b c call anchor inner f p q { F with place := p.next i } E
    { F' with place := q.next (f i) } := by
  obtain ⟨hinner, -⟩ := hO.copied hi (by simp [hkind])
  have hinside : Inside p c (p.next i) :=
    inside_next h.before (h.shape.mem hinner)
  refine ⟨hO.callee, hO.caller, hO.body, hO.atCall,
    h.next_copy h.before h.mem h.next hinner, hinside,
    fun e he => h.shape.lands hinner (hinside e he), hO.stack, hO.noArgs,
    hO.args, hO.closed, hO.callerSlots, hO.callerDeclared,
    fun hne n v hv hno => ?_, hO.calleeDeclared, hO.room⟩
  refine hO.calleeSlots hne n v hv fun hst => hno ?_
  rw [hi] at hst
  refine hst.step (fun hwrites => ?_)
    (.falls (by rw [Instr.fallsThrough, hkind]; rfl))
  have haccess := hwrites.1
  rw [Instr.access?, hkind] at haccess
  cases haccess

/-- The nop is a step on the right only. -/
theorem at_nop (W : World V G) (g : G) {rest : List (Frame V)}
    (hF : SameFrame b call nop p q F F') (hi : F.place = some call) :
    Step W cfg q ⟨F' :: rest, g⟩
      ⟨{ F' with place := some (land anchor f (p.first? c)) } :: rest, g⟩ := by
  have hbody : F.body = b :=
    h.before.body_unique h.mem (inside_some.mp (hi ▸ hF.inside))
  have hplace : F'.place = some nop := by
    rw [hF.place, hi, Option.map_some, renamed, if_pos hbody, moving_self]
  have hkind : (q.instr nop).kind = .nop := by
    rw [Instr.kind, h.isNop]
    rfl
  have hno : entered? cfg q (q.instr nop) = none := by
    by_contra hsome
    obtain ⟨d, hd⟩ := Option.ne_none_iff_exists'.mp hsome
    rw [kind_of_entered hd] at hkind
    cases hkind
  have hw : W.work (q.instr nop) F'.args F'.slots F'.stack g =
      some ⟨false, F'.slots, F'.stack, g⟩ := by
    rw [World.work, hkind]
  refine .work hplace (by simp [hkind]) hno hw ?_
  rw [Program.goes, if_neg (by simp), h.next_nop h.before h.mem h.next]

/-- The copy of a return is a branch to the instruction behind the call. -/
theorem at_return (W : World V G) (g : G) {rest : List (Frame V)}
    (hO : OneFrame b c call anchor inner f p q F E F') (hi : F.place = some i)
    (hinner : i ∈ inner) (hret : (p.instr i).kind = .ret) :
    Step W cfg q ⟨F' :: rest, g⟩
      ⟨{ F' with place := some anchor } :: rest, g⟩ := by
  have hplace : F'.place = some (f i) := by
    rw [hO.place, hi]
    rfl
  have hcopy := h.copy i hinner
  have hkind := hcopy.kind_of_ret hret
  have hno : entered? cfg q (q.instr (f i)) = none := by
    by_contra hsome
    obtain ⟨d, hd⟩ := Option.ne_none_iff_exists'.mp hsome
    rw [kind_of_entered hd] at hkind
    cases hkind
  have hw : W.work (q.instr (f i)) F'.args F'.slots F'.stack g =
      some ⟨true, F'.slots, F'.stack, g⟩ := by
    rw [World.work, hkind]
  refine .work hplace (by simp [hkind]) hno hw ?_
  have htarget : q.target? (f i) = some anchor := (hcopy.of_ret hret).2
  rw [Program.goes, if_pos rfl, htarget]
  rfl

/-- **Each step is matched**, if not by a step, then by a pause after which
there is one frame less. -/
theorem matched : Matches (W.step cfg p) (W.step cfg q)
    (Related b c call anchor nop inner f p q) fun K => K.frames.length := by
  intro K K' K₁ hR hK
  rw [step_iff] at hK
  cases hR with
  | @same F F' rest rest' g hF hwait =>
      cases hK with
      | @work _ _ i _ w a hi hret hno hw ha =>
          have hic : i ≠ call := by
            rintro rfl
            rw [h.entered] at hno
            cases hno
          have hred := h.redirected (inside_some.mp (hi ▸ hF.inside)) hic
          obtain ⟨w', a', hw', ha', hshared, hsame⟩ :=
            h.same_work hF hi hic hw ha
          refine Or.inl ⟨_,
            step_iff.mpr (.work (hF.stays hi hic) ?_ ?_ hw' ha'), ?_⟩
          · rwa [hred.doesAs.kind]
          · rwa [h.entered_congr (congrArg _ (bare_congr hred.op hred.operand))]
          · rw [hshared]
            exact .same hsame hwait
      | @enter _ _ i _ d hi hd =>
          by_cases hic : i = call
          · subst hic
            cases h.entered.symm.trans hd
            exact Or.inl ⟨_, step_iff.mpr (h.at_nop W g hF hi),
              .one (h.one_enter hF hi) hwait⟩
          · have hred := h.redirected (inside_some.mp (hi ▸ hF.inside)) hic
            have hd' : entered? cfg q (q.instr i) = some d := by
              rwa [h.entered_congr
                (congrArg _ (bare_congr hred.op hred.operand))]
            exact Or.inl ⟨_, step_iff.mpr (.enter (hF.stays hi hic) hd'),
              .same (h.same_enter (h.closed_of_entered hd))
                (.same hF hi (kind_of_entered hd) hic hwait)⟩
      | @leave _ F₁ rest i k _ hi hret hstack hk =>
          have hic : i ≠ call := by
            rintro rfl
            rw [h.call_kind] at hret
            cases hret
          have hred := h.redirected (inside_some.mp (hi ▸ hF.inside)) hic
          have hret' : (q.instr i).kind = .ret := by rwa [hred.doesAs.kind]
          have hstack' : F'.stack = [] := hF.stack.trans hstack
          cases hwait with
          | @same _ F₁' k' _ rest' hF₁ hk' hkind hkc hwait =>
              cases hk.symm.trans hk'
              exact Or.inl ⟨_,
                step_iff.mpr (.leave (hF.stays hi hic) hret' hstack'
                  (hF₁.stays hk hkc)), .same (h.same_resume hF₁ hk hkc) hwait⟩
          | @one _ E F₁' k' rest rest' hO hk' hkind hwait =>
              cases hk.symm.trans hk'
              have hcopied := (hO.copied hk (by simp [hkind])).2
              exact Or.inl ⟨_, step_iff.mpr (.leave (hF.stays hi hic)
                hret' hstack' hcopied), .one (h.one_resume hO hk hkind) hwait⟩
  | @one F E F' rest rest' g hO hwait =>
      cases hK with
      | @work _ _ i _ w a hi hret hno hw ha =>
          obtain ⟨hinner, hplace⟩ := hO.copied hi hret
          obtain ⟨w', a', hw', ha', hshared, hone⟩ :=
            h.one_work hO hi hret hw ha
          refine Or.inl ⟨_, step_iff.mpr (.work hplace ?_ ?_ hw' ha'), ?_⟩
          · rwa [(h.copy i hinner).kind hret]
          · rwa [h.entered_congr (h.copy i hinner).calleeOf]
          · rw [hshared]
            exact .one hone hwait
      | @enter _ _ i _ d hi hd =>
          have hkind := kind_of_entered hd
          obtain ⟨hinner, hplace⟩ := hO.copied hi (by simp [hkind])
          have hd' : entered? cfg q (q.instr (f i)) = some d := by
            rwa [h.entered_congr (h.copy i hinner).calleeOf]
          exact Or.inl ⟨_, step_iff.mpr (.enter hplace hd'), .same
            (h.same_enter (h.closed_of_entered hd)) (.one hO hi hkind hwait)⟩
      | @leave _ _ _ i k _ hi hret hstack hk =>
          cases hO.atCall.symm.trans hk
          rw [h.next]
          have hsame := h.same_return hO hstack
          rcases hO.lands i hi with hinner | ⟨-, hlast⟩
          · exact Or.inl ⟨_, step_iff.mpr (h.at_return W g hO hi hinner hret),
              .same hsame hwait⟩
          · refine Or.inr ⟨?_, Nat.lt_succ_self _⟩
            have hplace : F'.place = some anchor := by
              rw [hO.place, hi]
              exact congrArg some hlast
            have hstay : { F' with place := some anchor } = F' := by
              rw [← hplace]
            rw [hstay] at hsame
            exact .same hsame hwait

/-- Runs that have come to an end have come to the same end. -/
theorem finishes {K K' : Configuration V G} {o : Finish V}
    (hR : Related b c call anchor nop inner f p q K K')
    (ho : World.finish? p K = some o) : World.finish? q K' = some o := by
  cases hR with
  | @same F F' rest rest' g hF hwait =>
      obtain ⟨i, hi, ho⟩ := finish_iff.mp ho
      have hic : i ≠ call := by
        rintro rfl
        rcases ho with ⟨hkind, -⟩ | ⟨hkind, -⟩
        · rw [h.call_kind] at hkind
          cases hkind
        · rw [h.call_kind] at hkind
          cases hkind
      have hkind :=
        (h.redirected (inside_some.mp (hi ▸ hF.inside)) hic).doesAs.kind
      refine finish_iff.mpr ⟨i, hF.stays hi hic, ?_⟩
      rw [hkind, hF.stack]
      refine ho.imp_left fun ⟨hret, hrest, ho⟩ => ⟨hret, ?_, ho⟩
      subst hrest
      cases hwait
      rfl
  | @one F E F' rest rest' g hO hwait =>
      obtain ⟨i, hi, ho⟩ := finish_iff.mp ho
      rcases ho with ⟨-, hrest, -⟩ | ⟨hthrows, v, below, hstack, ho⟩
      · cases hrest
      · have hret : (p.instr i).kind ≠ .ret := by simp [hthrows]
        obtain ⟨hinner, hplace⟩ := hO.copied hi hret
        refine finish_iff.mpr ⟨f i, hplace,
          Or.inr ⟨?_, v, below ++ E.stack, ?_, ho⟩⟩
        · rwa [(h.copy i hinner).kind hret]
        · rw [hO.stack, hstack]
          rfl

/-- **Inlining keeps what a program does.** -/
theorem follows (hd : p.Closed d) : Follows cfg d p q where
  reaches := by
    intro V G W args g n K hK
    have hstart : Related b c call anchor nop inner f p q (W.start p d args g)
        (W.start q d args g) := .same (h.same_enter hd) .nil
    obtain ⟨m, K', hK', hR⟩ := h.matched.reaches hstart hK
    refine ⟨m, K', hK', ?_, fun o ho => h.finishes hR ho⟩
    cases hR with
    | same | one => rfl
  lasts := by
    intro V G W args g hlasts
    have hstart : Related b c call anchor nop inner f p q (W.start p d args g)
        (W.start q d args g) := .same (h.same_enter hd) .nil
    exact h.matched.lasts hstart hlasts

end Inlining

end Inline

end Bytecode
