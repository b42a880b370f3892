import Bytecode.Proofs.Callees
import Bytecode.Proofs.Closed

/-!
# What the copy loop makes of the code

Where control went in the callee, it goes between the copies: there is one map
from the instructions of the callee to the places that stand for them.  A return
in last position has no copy, and the anchor stands for it.

`Spread` says what the loop makes of the body from any round on.  One round,
`Round`, links a copy and sends to it the branches that waited for the original;
`Spread.cons` puts a round in front of the rest of the loop, and
`CopyRun.spread` follows the loop to its end.
-/

namespace Bytecode

/-! ### Redirected instructions and copies -/

/-- `y` is `x`, but where `x` goes to `t`, it goes to `g t`. -/
structure Instr.Redirected (g : InstrId → InstrId) (x y : Instr) : Prop where
  op : y.op = x.op
  operand : x.isBranch = false → y.operand = x.operand
  target : x.isBranch = true → y.target? = x.target?.map g

namespace Instr.Redirected

variable {f g : InstrId → InstrId} {x y z : Instr}

/-- Redirecting leaves a branch a branch. -/
theorem isBranch (h : x.Redirected g y) : y.isBranch = x.isBranch := by
  rw [Instr.isBranch, h.op, Instr.isBranch]

/-- An instruction is redirected along the identity. -/
theorem refl (x : Instr) : x.Redirected id x :=
  ⟨rfl, fun _ => rfl, fun _ => by simp⟩

/-- Redirections compose. -/
theorem trans (h : x.Redirected f y) (h' : y.Redirected g z) :
    x.Redirected (g ∘ f) z where
  op := h'.op.trans h.op
  operand := fun hbr => (h'.operand (by rwa [h.isBranch])).trans (h.operand hbr)
  target := by
    intro hbr
    rw [h'.target (by rwa [h.isBranch]), h.target hbr, Option.map_map]

/-- Only where the branch goes matters. -/
theorem congr (h : x.Redirected f y)
    (hfg : x.isBranch = true → ∀ t ∈ x.target?, g t = f t) :
    x.Redirected g y where
  op := h.op
  operand := h.operand
  target := by
    intro hbr
    rw [h.target hbr]
    exact Option.map_congr fun t ht => (hfg hbr t ht).symm

end Instr.Redirected

/-- Sends `i` to `j` and leaves everything else where it is. -/
def moving (i j : InstrId) (t : InstrId) : InstrId := if t = i then j else t

/-- The moved target is moved. -/
theorem moving_self {i j : InstrId} : moving i j i = j := if_pos rfl

/-- Every other target stays. -/
theorem moving_of_ne {i j t : InstrId} (h : t ≠ i) :
    moving i j t = t := if_neg h

/-- Redirecting references in a body redirects each of its instructions. -/
theorem Program.redirected_redirect {p : Program} {b : BodyId} {i j k : InstrId}
    (hp : p.WellLinked) (hk : k ∈ p.code b) : (p.instr k).Redirected
    (moving i j) ((p.redirect b (some i) (some j)).instr k) where
  op := Program.op_redirect hp k
  operand := by
    intro hbr
    rw [Program.instr_redirect_of_not hp]
    intro _ hbr'
    rw [hbr] at hbr'
    cases hbr'
  target := by
    intro hbr
    have htarget : (p.redirect b (some i) (some j)).target? k =
        if p.target? k = some i then some j else p.target? k :=
      Program.target?_redirect hp hk hbr
    rw [Program.target?, Program.target?] at htarget
    rw [htarget]
    cases (p.instr k).target? with
    | none => rfl
    | some t =>
        rw [Option.map_some, moving]
        simp only [Option.some.injEq]
        split
        · rfl
        · rfl

namespace Inline

open Editing

/-- `y` is the copy of `x` in a body with the given slots.  Where `x` goes to
`t`, the copy goes to `f t`; where `x` returns, the copy goes to the anchor; and
slots are counted from `base` on. -/
inductive IsCopy (slots : Body) (base : Nat) (anchor : InstrId)
    (f : InstrId → InstrId) (x y : Instr) : Prop
  | exit : x.kind = .ret → y.op = .br → y.target? = some anchor →
      IsCopy slots base anchor f x y
  | branch : x.isBranch = true → y.op = x.op → y.target? = x.target?.map f →
      IsCopy slots base anchor f x y
  | access {a : Access} {n : Int} {l : Local} : x.access? = some a →
    x.localIndex? = some n → slots.localAt? (base + n) = some l →
    a.encode l = some (y.op, y.operand) → IsCopy slots base anchor f x y
  | plain : x.kind ≠ .ret → x.isBranch = false →
      (∀ n ∈ x.localIndex?, slots.localAt? (base + n) = none) → y.op = x.op →
      y.operand = x.operand → IsCopy slots base anchor f x y

variable {s s' : Editing} {x y z : Instr} {base : Nat} {anchor call i : InstrId}
  {slots : Body} {f g : InstrId → InstrId} {copies : List (InstrId × InstrId)}
  {op : Opcode} {o : Operand} {code : List InstrId} {b c : BodyId}

/-- What accesses no slot names no slot. -/
theorem localIndex?_of_access? (h : x.access? = none) :
    x.localIndex? = none := by
  rw [Instr.localIndex?, h]
  rfl

/-- The copy as it is made: its branches go to copies, as far as there are
any. -/
theorem isCopy_of_copyOf (h : copyOf s x base anchor copies = .ok (op, o))
    (w : Option BodyId) :
    IsCopy (s.program.body s.editor.body).frame base anchor
    (fun t => (copies.lookup t).getD t) x ⟨op, o, w⟩ := by
  rw [copyOf] at h
  split at h
  · next hret =>
      cases h
      exact .exit hret rfl rfl
  · next hret =>
      split at h
      · next hbr =>
          split at h
          · next k hk =>
              cases h
              obtain ⟨t, ht, hlook⟩ := Option.bind_eq_some_iff.mp hk
              refine .branch hbr rfl ?_
              rw [ht, Option.map_some, hlook]
              rfl
          · next hnone =>
              cases h
              refine .branch hbr rfl ?_
              change x.target? = _
              cases ht : x.target? with
              | none => rfl
              | some t =>
                  rw [Option.map_some, Option.bind_eq_none_iff.mp hnone t ht]
                  rfl
      · next hbr =>
          have hbr : x.isBranch = false := by simpa using hbr
          simp only at h
          split at h
          · next a l ha hplace =>
              split at h
              · next y hy =>
                  cases h
                  obtain ⟨n, hn, hl⟩ := Option.bind_eq_some_iff.mp hplace
                  exact .access ha hn hl hy
              · cases h
          · next hnot =>
              cases h
              refine .plain hret hbr (fun n hn => ?_) rfl rfl
              cases hl :
                (s.program.body s.editor.body).frame.localAt? (base + n) with
              | none => rfl
              | some l =>
                  cases ha : x.access? with
                  | none =>
                      rw [localIndex?_of_access? ha] at hn
                      cases hn
                  | some a =>
                      rw [Option.mem_def.mp hn] at hnot
                      exact absurd hl (hnot a l ha)

/-- A copy that is redirected is a copy still. -/
theorem IsCopy.redirected (h : IsCopy slots base anchor f x y)
    (hyz : y.Redirected g z) (hanchor : g anchor = anchor) :
    IsCopy slots base anchor (g ∘ f) x z := by
  cases h with
  | exit hret hop htarget =>
      refine .exit hret (hyz.op.trans hop) ?_
      rw [hyz.target, htarget, Option.map_some, hanchor]
      rw [Instr.isBranch, hop]
      rfl
  | branch hbr hop htarget =>
      refine .branch hbr (hyz.op.trans hop) ?_
      rw [hyz.target, htarget, Option.map_map]
      rwa [Instr.isBranch, hop]
  | access ha hn hl henc =>
      refine .access ha hn hl ?_
      have hbr : y.isBranch = false :=
        isBranch_of_access (Access.kind_of_encode henc)
      rwa [hyz.op, hyz.operand hbr]
  | plain hret hbr hslot hop ho =>
      have hbr' : y.isBranch = false := by rwa [Instr.isBranch, hop]
      exact .plain hret hbr hslot (hyz.op.trans hop)
        ((hyz.operand hbr').trans ho)

namespace IsCopy

variable (h : IsCopy slots base anchor f x y)

include h

/-- The copy of a return jumps to the anchor. -/
theorem of_ret (hret : x.kind = .ret) :
    y.op = .br ∧ y.target? = some anchor := by
  cases h with
  | exit _ hop htarget => exact ⟨hop, htarget⟩
  | branch hbr =>
      rw [Instr.isBranch, Opcode.isBranch, show x.op.kind = .ret from hret]
        at hbr
      cases hbr
  | access ha =>
      rw [Instr.access?, hret] at ha
      cases ha
  | plain hno => exact absurd hret hno

/-- The copy of a branch jumps to the copy of its target. -/
theorem of_branch (hbr : x.isBranch = true) :
    y.op = x.op ∧ y.target? = x.target?.map f := by
  cases h with
  | exit hret =>
      rw [Instr.isBranch, Opcode.isBranch, show x.op.kind = .ret from hret]
        at hbr
      cases hbr
  | branch _ hop htarget => exact ⟨hop, htarget⟩
  | access ha =>
      rw [isBranch_of_access ha] at hbr
      cases hbr
  | plain _ hno =>
      rw [hno] at hbr
      cases hbr

/-- The copy of a return is a branch. -/
theorem kind_of_ret (hret : x.kind = .ret) : y.kind = .branch := by
  rw [Instr.kind, (h.of_ret hret).1]
  rfl

/-- Any other copy is of the same kind. -/
theorem kind (hret : x.kind ≠ .ret) : y.kind = x.kind := by
  cases h with
  | exit hx => exact absurd hx hret
  | branch _ hop => exact congrArg Opcode.kind hop
  | access ha _ _ henc =>
      exact Kind.eq_of_access? ha (Access.kind_of_encode henc)
  | plain _ _ _ hop => exact congrArg Opcode.kind hop

/-- A copy is a call only if the original is one, and then leads to the same
method. -/
theorem calleeOf {cfg : InlineSettings} :
    calleeOf cfg y.bare = calleeOf cfg x.bare := by
  by_cases hcall : x.kind = .call
  · cases h with
    | exit hret =>
        rw [hret] at hcall
        cases hcall
    | branch hbr => exact absurd hcall (kind_ne_call_of_isBranch hbr)
    | access ha =>
        rw [Instr.access?, hcall] at ha
        cases ha
    | plain _ _ _ hop ho => rw [bare_congr hop fun _ => ho]
  · rw [calleeOf_eq_none hcall, calleeOf_eq_none]
    by_cases hret : x.kind = .ret
    · rw [h.kind_of_ret hret]
      simp
    · rwa [h.kind hret]

end IsCopy

/-! ### The copy loop -/

/-- The instructions that get a copy: all but a return in last position. -/
def copiedCode (p : Program) : List InstrId → List InstrId
  | [] => []
  | i :: rest =>
      if rest = [] ∧ (p.instr i).kind = .ret then [] else i :: copiedCode p rest

/-- What is copied depends on the kinds of the instructions only. -/
theorem copiedCode_congr {p q : Program}
    (h : ∀ i ∈ code, (q.instr i).kind = (p.instr i).kind) :
    copiedCode q code = copiedCode p code := by
  induction code with
  | nil => rfl
  | cons i rest ih =>
      rw [copiedCode, copiedCode, h i List.mem_cons_self,
        ih fun k hk => h k (List.mem_cons_of_mem _ hk)]

/-- What gets no copy is a return in last position. -/
theorem copiedCode_cases (p : Program) (code : List InstrId) :
    copiedCode p code = code ∨
      ∃ r, code = copiedCode p code ++ [r] ∧ (p.instr r).kind = .ret := by
  induction code with
  | nil => exact Or.inl rfl
  | cons i rest ih =>
      rw [copiedCode]
      split
      · next hlast => exact Or.inr ⟨i, by rw [hlast.1]; rfl, hlast.2⟩
      · rcases ih with heq | ⟨r, heq, hret⟩
        · exact Or.inl (by rw [heq])
        · exact Or.inr ⟨r, by rw [List.cons_append, ← heq], hret⟩

/-- Only instructions of the code are copied. -/
theorem mem_of_mem_copiedCode {p : Program} {d : InstrId}
    (h : d ∈ copiedCode p code) : d ∈ code := by
  rcases copiedCode_cases p code with heq | ⟨r, heq, -⟩
  · rwa [heq] at h
  · rw [heq]
    exact List.mem_append_left _ h

/-- The instructions of a body that get a copy when it is taken in. -/
def copiedBody (p : Program) (c : BodyId) : List InstrId :=
  if AtOnce p c then [] else copiedCode p (p.code c)

/-- The same for the code of a body. -/
theorem copiedBody_congr {p q : Program} (hcode : q.code c = p.code c)
    (h : ∀ i ∈ p.code c, (q.instr i).kind = (p.instr i).kind) :
    copiedBody q c = copiedBody p c := by
  have honce : AtOnce q c ↔ AtOnce p c := by
    rw [AtOnce, AtOnce, hcode]
    exact forall₂_congr fun i hi => by rw [h i (List.mem_of_head? hi)]
  rw [copiedBody, copiedBody, hcode, copiedCode_congr h]
  simp only [honce]

/-- Of a body that does not return at once something is copied. -/
theorem copiedBody_ne_nil {p : Program} (h : ¬ AtOnce p c) :
    copiedBody p c ≠ [] := by
  intro hnil
  rw [copiedBody, if_neg h] at hnil
  apply h
  rcases copiedCode_cases p (p.code c) with heq | ⟨r, heq, hret⟩
  · rw [AtOnce, ← heq, hnil]
    simp
  · rw [AtOnce, heq, hnil]
    simpa using hret

/-- Nothing that is still to come stands in the body under edit. -/
theorem Originals.not_mem {k : InstrId} (ho : Originals c code copies s)
    (hs : s.Sound) (hk : k ∈ s.code) : k ∉ code := by
  intro hmem
  have hown := ho.owned k hmem
  rw [hs.linked.mem_code.mp hk] at hown
  exact ho.elsewhere (Option.some.inj hown).symm

/-- One round of the copy loop: a copy `j` of `i` stands in front of the anchor,
and branches that waited for `i` go there. -/
structure Round (base : Nat) (anchor i j : InstrId)
    (copies : List (InstrId × InstrId)) (s s₁ : Editing) : Prop where
  mem : ∀ k, k ∈ s₁.code ↔ k = j ∨ k ∈ s.code
  placed : ∀ pre post, s.code = pre ++ anchor :: post →
    s₁.code = pre ++ [j] ++ anchor :: post
  old : ∀ k ∈ s.code,
    (s.program.instr k).Redirected (moving i j) (s₁.program.instr k)
  copy : IsCopy (s.program.body s.editor.body).frame base anchor (moving i j ∘
    fun t => (copies.lookup t).getD t) (s.program.instr i) (s₁.program.instr j)
  frames : Program.SameFrames s.program s₁.program

/-- One round of the copying inserts the copy before the anchor and enters it in
the map. -/
theorem round_copied {s₁ : Editing} (hs : s.Sound) (hanchor : anchor ∈ s.code)
    (hi : i ∉ s.code)
    (hcopy : copyOf s (s.program.instr i) base anchor copies = .ok (op, o))
    (hs₁ : Edited s s₁)
    (hprog : s₁.program = copied s.program s.editor.body anchor i op o) :
    Round base anchor i (s.program.newInstr op o).1 copies s s₁ := by
  have hp := hs.linked
  have hmem : ∀ k, k ∈ s₁.code ↔
      k = (s.program.newInstr op o).1 ∨ k ∈ s.code := by
    intro k
    rw [Editing.code, hs₁.body, hprog, mem_code_copied hp hanchor]
  have hredirect : ∀ k ∈ s₁.code,
      ((s.program.withNew s.editor.body anchor op o).instr k).Redirected
        (moving i (s.program.newInstr op o).1) (s₁.program.instr k) := by
    intro k hk
    rw [hprog]
    apply Program.redirected_redirect (hp.withNew hanchor op o)
    rw [Program.mem_code_withNew hp hanchor]
    exact (hmem k).mp hk
  refine ⟨hmem, fun pre post hcut => ?_, fun k hk => ?_, ?_, ?_⟩
  · have hpre : anchor ∉ pre := by
      have hnodup := hp.nodup_code s.editor.body
      rw [show s.program.code s.editor.body = _ from hcut] at hnodup
      exact fun hmem =>
        List.disjoint_of_nodup_append hnodup hmem List.mem_cons_self
    rw [Editing.code, hs₁.body, hprog, code_copied hp hanchor,
      show s.program.code s.editor.body = _ from hcut, Program.placed,
      insertFront_cut hpre]
    simp
  · have hkj : k ≠ (s.program.newInstr op o).1 := by
      rintro rfl
      exact Program.not_has_newInstr op o (hp.has hk)
    have hstep := hredirect k ((hmem k).mpr (Or.inr hk))
    rwa [Program.instr_withNew, if_neg hkj] at hstep
  · have hstep := hredirect _ ((hmem _).mpr (Or.inl rfl))
    rw [Program.instr_withNew, if_pos rfl] at hstep
    exact (isCopy_of_copyOf hcopy _).redirected hstep
      (moving_of_ne fun hai => hi (hai ▸ hanchor))
  · rw [hprog]
    exact sameFrames_copied hp hanchor

/-- What the copy loop makes of the body from here on.  `f` sends each
instruction still to come to the place that stands for it. -/
structure Spread (base : Nat) (anchor : InstrId) (code : List InstrId)
    (copies : List (InstrId × InstrId)) (s s' : Editing)
    (f : InstrId → InstrId) : Prop where
  off : ∀ t, t ∉ code → f t = t
  last : ∀ d ∈ code, d ∉ copiedCode s.program code → f d = anchor
  placed : ∀ pre post, s.code = pre ++ anchor :: post →
    s'.code = pre ++ (copiedCode s.program code).map f ++ anchor :: post
  old : ∀ k ∈ s.code, (s.program.instr k).Redirected f (s'.program.instr k)
  copy : ∀ d ∈ copiedCode s.program code,
    IsCopy (s.program.body s.editor.body).frame base anchor (fun t =>
      (copies.lookup t).getD (f t)) (s.program.instr d) (s'.program.instr (f d))
  frames : Program.SameFrames s.program s'.program

section Cons

variable {s₁ : Editing} {rest : List InstrId} {j : InstrId} (hs : s.Sound)
  (hs₁ : s₁.Sound) (ho : Originals c (i :: rest) copies s)
  (ho₁ : Originals c rest ((i, j) :: copies) s₁)
  (hround : Round base anchor i j copies s s₁)
  (h : Spread base anchor rest ((i, j) :: copies) s₁ s' f)

include hs₁ ho₁ hround h

/-- What stands in the body stays where it is when the rest is spread. -/
theorem Spread.stays {k : InstrId} (hk : k = j ∨ k ∈ s.code) : f k = k :=
  h.off k (ho₁.not_mem hs₁ ((hround.mem k).mpr hk))

/-- First to the copy, then on with the rest. -/
theorem Spread.moving (t : InstrId) :
    (f ∘ moving i j) t = if t = i then j else f t := by
  rw [Function.comp_apply]
  by_cases hti : t = i
  · rw [if_pos hti, hti, moving_self, h.stays hs₁ ho₁ hround (Or.inl rfl)]
  · rw [if_neg hti, moving_of_ne hti]

include hs ho

/-- Copies that have been made stay, and what has none goes where the rest
goes. -/
theorem Spread.lookup (t : InstrId) :
    f (Bytecode.moving i j ((copies.lookup t).getD t)) =
      (copies.lookup t).getD (if t = i then j else f t) := by
  cases hlook : copies.lookup t with
  | none => exact h.moving hs₁ ho₁ hround t
  | some k =>
      have hk := ho.copied t k hlook
      have hki : k ≠ i := fun hki => ho.not_mem hs hk (hki ▸ List.mem_cons_self)
      rw [Option.getD_some, Option.getD_some, moving_of_ne hki]
      exact h.stays hs₁ ho₁ hround (Or.inr hk)

/-- A copy has been linked, and the rest of the code is spread behind it. -/
theorem Spread.cons (hnd : (i :: rest).Nodup) (hfresh : copies.lookup i = none)
    (hmore : rest = [] → (s.program.instr i).kind ≠ .ret)
    (hbody : s₁.editor.body = s.editor.body)
    (hsame : ∀ k ∈ i :: rest, s₁.program.instr k = s.program.instr k)
    (hanchor : anchor ∈ s.code) :
    Spread base anchor (i :: rest) copies s s' (fun t => if t = i then j else
        f t) := by
  have hout := List.nodup_cons.mp hnd
  have hcopied : copiedCode s₁.program rest = copiedCode s.program rest :=
    copiedCode_congr fun k hk => by rw [hsame k (List.mem_cons_of_mem _ hk)]
  have hcons :
      copiedCode s.program (i :: rest) = i :: copiedCode s.program rest := by
    rw [copiedCode, if_neg]
    rintro ⟨hnil, hret⟩
    exact hmore hnil hret
  have hne : ∀ d ∈ copiedCode s.program rest, d ≠ i := by
    rintro d hd rfl
    exact hout.1 (mem_of_mem_copiedCode hd)
  refine ⟨?_, ?_, ?_, ?_, ?_, hround.frames.trans h.frames⟩
  · intro t ht
    rw [List.mem_cons, not_or] at ht
    rw [if_neg ht.1, h.off t ht.2]
  · intro d hd hno
    rw [hcons, List.mem_cons, not_or] at hno
    rw [if_neg hno.1]
    exact h.last d ((List.mem_cons.mp hd).resolve_left hno.1)
      (by rw [hcopied]; exact hno.2)
  · intro pre post hcut
    have hmap : (copiedCode s.program rest).map (fun t => if t = i then j else
        f t) = (copiedCode s.program rest).map f :=
      List.map_congr_left fun d hd => if_neg (hne d hd)
    rw [h.placed _ _ (hround.placed pre post hcut), hcopied, hcons,
      List.map_cons, if_pos rfl, hmap]
    simp
  · intro k hk
    have hk₁ := (hround.mem k).mpr (Or.inr hk)
    exact ((hround.old k hk).trans (h.old k hk₁)).congr
      fun _ t _ => (h.moving hs₁ ho₁ hround t).symm
  · rw [hcons]
    intro d hd
    rcases List.mem_cons.mp hd with rfl | hd
    · -- The copy has been made with the copies there were; it is redirected
      -- twice.
      have hcopy :=
        hround.copy.redirected (h.old j ((hround.mem j).mpr (Or.inl rfl)))
        (h.stays hs₁ ho₁ hround (Or.inr hanchor))
      rw [if_pos rfl]
      convert hcopy using 1
      funext t
      exact (h.lookup hs hs₁ ho ho₁ hround t).symm
    · have hcopy := h.copy d (by rwa [hcopied])
      rw [hsame d (List.mem_cons_of_mem _ (mem_of_mem_copiedCode hd)), hbody,
        hround.frames s.editor.body] at hcopy
      rw [if_neg (hne d hd)]
      convert hcopy using 1
      funext t
      rw [List.lookup_cons]
      by_cases hti : t = i
      · rw [hti, hfresh]
        simp
      · have hbeq : (t == i) = false := by simpa using hti
        rw [hbeq, if_neg hti]

end Cons

/-- **The copy loop spreads the code.** -/
theorem CopyRun.spread (hrun : CopyRun base anchor code copies s s')
    (hs : s.Sound) (hanchor : anchor ∈ s.code) (ho : Originals c code copies s)
    (hnd : code.Nodup) (hfresh : ∀ i ∈ code, copies.lookup i = none) :
    ∃ f, Spread base anchor code copies s s' f := by
  induction hrun with
  | stop =>
      refine ⟨id, fun _ _ => rfl, fun d hd => (by cases hd),
        fun pre post hcut => ?_,
        fun k _ => .refl _, fun d hd => (by cases hd), .refl _⟩
      simpa [copiedCode] using hcut
  | @exit i copies s s' hret hs₁ hprog =>
      have hnone : copiedCode s.program [i] = [] := by simp [copiedCode, hret]
      refine ⟨moving i anchor, ?_, ?_, ?_, ?_, ?_, ?_⟩
      · intro t ht
        exact moving_of_ne (by simpa using ht)
      · intro d hd _
        rw [List.mem_singleton.mp hd, moving_self]
      · intro pre post hcut
        rw [hnone, Editing.code, hs₁.body, hprog, Program.code_redirect]
        simpa using hcut
      · intro k hk
        rw [hprog]
        exact Program.redirected_redirect hs.linked hk
      · rw [hnone]
        exact fun d hd => by cases hd
      · rw [hprog]
        exact Program.sameFrames_redirect _ _ _
  | @copy i rest copies s s₁ s' op o hmore hcopy hs₁ hprog _ ih =>
      have hi : i ∉ s.code := fun hi => ho.not_mem hs hi List.mem_cons_self
      have hround := round_copied hs hanchor hi hcopy hs₁ hprog
      have ho₁ := ho.step hs₁ hround.mem
      have hout := List.nodup_cons.mp hnd
      obtain ⟨f, hf⟩ :=
        ih hs₁.sound ((hround.mem anchor).mpr (Or.inr hanchor)) ho₁ hout.2 (by
        intro k hk
        have hbeq : (k == i) = false := by
          simpa using fun hki : k = i => hout.1 (hki ▸ hk)
        rw [List.lookup_cons, hbeq]
        exact hfresh k (List.mem_cons_of_mem _ hk))
      exact ⟨_, hf.cons hs hs₁.sound ho ho₁ hround hnd
        (hfresh i List.mem_cons_self) hmore hs₁.body (fun k hk =>
          hs₁.changed.instr k c (ho.owned k hk) ho.elsewhere) hanchor⟩

end Inline

end Bytecode
