import Bytecode.Proofs.Forms

/-!
# Changes under other names

What a pass does to a body does not depend on the names of the instructions.  If
one body comes from another by renaming, then a change of the one is a change of
the other under the new names, and the bodies come from each other by renaming
again: the instructions that stay keep the names that they have been given, and
new ones are named after each other.

The main statements are `Editing.Effect.along` for the local passes and
`Inline.Spliced.along` for a call that is taken in.
-/

namespace Bytecode

/-- Two instructions that say the same under names `f` are redirected, and say
the same under names `g`. -/
theorem Instr.Redirected.along {x x' y y' : Instr} {f g a b : InstrId → InstrId}
    (h : x.Redirected f y) (hx : x.Redirected a x') (hy : y.Redirected b y')
    (hfg : x.isBranch = true → ∀ t ∈ x.target?, g (a t) = b (f t)) :
    x'.Redirected g y' where
  op := by rw [hy.op, h.op, hx.op]
  operand := by
    intro hbr
    rw [hx.isBranch] at hbr
    rw [hy.operand (by rwa [h.isBranch]), h.operand hbr, hx.operand hbr]
  target := by
    intro hbr
    rw [hx.isBranch] at hbr
    rw [hy.target (by rwa [h.isBranch]), h.target hbr, hx.target hbr,
      Option.map_map, Option.map_map]
    exact Option.map_congr fun t ht => (hfg hbr t ht).symm

namespace Program

variable {p q : Program} {b : BodyId} {i k t mark : InstrId}
  {f : InstrId → InstrId} {op : Opcode} {o : Operand}

/-- Naming a fresh instruction leaves the names of a body as they are. -/
theorem update_fresh (hp : p.WellLinked) (f : InstrId → InstrId) (j : InstrId)
    (hk : k ∈ p.code b) : Function.update f (p.newInstr op o).1 j k = f k := by
  refine Function.update_of_ne ?_ _ _
  rintro rfl
  exact hp.newInstr_not_mem hk

namespace Renames

variable (h : Renames f b p q) (hp : p.WellLinked) (hq : q.WellLinked)

include h hp hq

/-- An instruction cuts the code at the same place under its new name. -/
theorem exists_cut (hi : i ∈ p.code b) :
    ∃ pre post, p.code b = pre ++ i :: post ∧ i ∉ pre ∧
      q.code b = pre.map f ++ f i :: post.map f ∧ f i ∉ pre.map f := by
  obtain ⟨pre, post, hcut, hpre, -⟩ := Bytecode.exists_cut (hp.nodup_code b) hi
  refine ⟨pre, post, hcut, hpre,
    by rw [h.code, hcut, List.map_append, List.map_cons], ?_⟩
  intro hmem
  obtain ⟨k, hk, hki⟩ := List.mem_map.mp hmem
  rw [h.inj hq (by rw [hcut]; exact List.mem_append_left _ hk) hi hki] at hk
  exact hpre hk

omit hp in
/-- Where an instruction is passed over for another, it is under new names as
well. -/
theorem moving_eq {g : InstrId → InstrId} {j j' : InstrId} (hi : i ∈ p.code b)
    (ht : t ∈ p.code b) (hj : g j = j') (hg : t ≠ i → g t = f t) :
    g (moving i j t) = moving (f i) j' (f t) := by
  by_cases hti : t = i
  · rw [hti, moving_self, moving_self, hj]
  · rw [moving_of_ne hti, moving_of_ne fun heq => hti (h.inj hq ht hi heq),
      hg hti]

/-- An instruction is taken out. -/
theorem without (hclosed : p.Closed b) (hi : i ∈ p.code b) :
    Renames f b (p.without b i) (q.without b (f i)) where
  code := by
    obtain ⟨pre, post, hcut, hpre, hcut', hpre'⟩ := h.exists_cut hp hq hi
    rw [code_without hq (h.mem hi), code_without hp hi, hcut', erase_cut hpre',
      hcut, erase_cut hpre, List.map_append]
  instr := by
    intro k hk
    obtain ⟨hk, hki⟩ := (mem_code_without hp hi).mp hk
    have hfk := h.mem hk
    have hfki : f k ≠ f i := fun heq => hki (h.inj hq hk hi heq)
    have hkk := h.instr k hk
    refine ⟨?_, fun hbr => ?_, fun hbr => ?_⟩
    · rw [op_without hq (h.mem hi), op_without hp hi, hkk.op]
    · rw [isBranch_without hp hi] at hbr
      rw [instr_without_of_not hq (h.mem hi) hfki,
        instr_without_of_not hp hi hki, hkk.operand hbr]
      · rw [hbr]
        exact fun _ hno => by cases hno
      · rw [hkk.isBranch, hbr]
        exact fun _ hno => by cases hno
    · rw [isBranch_without hp hi] at hbr
      obtain ⟨t, ht, htarget⟩ := hclosed k hk hbr
      have hfbr : (q.instr (f k)).isBranch = true := by rwa [hkk.isBranch]
      change (q.without b (f i)).target? (f k) =
        ((p.without b i).target? k).map f
      rw [target?_without hq (h.mem hi) hfk hfki hfbr,
        target?_without hp hi hk hki hbr,
        h.target? hk hbr, htarget, Option.map_some]
      simp only [Option.some.injEq]
      by_cases hti : t = i
      · rw [if_pos hti, if_pos (by rw [hti]), h.next hq hp hi]
      · rw [if_neg hti, if_neg fun heq => hti (h.inj hq ht hi heq),
          Option.map_some]
  frame := by
    rw [sameFrames_without hq (h.mem hi), sameFrames_without hp hi, h.frame]

/-- A fresh instruction that is no branch takes the place of another. -/
theorem renewed (hclosed : p.Closed b) (hi : i ∈ p.code b)
    (hop : op.isBranch = false) (o : Operand) :
    ∃ g, Renames g b (p.renewed b i op o) (q.renewed b (f i) op o) ∧
      g (p.newInstr op o).1 = (q.newInstr op o).1 ∧
      ∀ k ∈ p.code b, g k = f k := by
  refine ⟨Function.update f (p.newInstr op o).1 (q.newInstr op o).1,
    ⟨?_, fun k hk => ?_, ?_⟩,
    Function.update_self _ _ _, fun k hk => update_fresh hp f _ hk⟩
  · obtain ⟨pre, post, hcut, hpre, hcut', hpre'⟩ := h.exists_cut hp hq hi
    have hsame : (p.code b).map (Function.update f
        (p.newInstr op o).1 (q.newInstr op o).1) = (p.code b).map f :=
      List.map_congr_left fun k hk => update_fresh hp f _ hk
    rw [hcut, List.map_append, List.map_append] at hsame
    obtain ⟨hsame₁, hsame₂⟩ := List.append_inj hsame (by simp)
    rw [code_renewed hq (h.mem hi), code_renewed hp hi, hcut',
      replace_cut hpre', hcut, replace_cut hpre, List.map_append, List.map_cons,
      Function.update_self, hsame₁, (List.cons.inj hsame₂).2]
  · rcases (mem_code_renewed hp hi op o).mp hk with rfl | ⟨hk, hki⟩
    · rw [Function.update_self]
      have hself := op_renewed_self hp hi op o
      refine ⟨?_, fun _ => ?_, fun hbr => ?_⟩
      · rw [op_renewed_self hq (h.mem hi), hself]
      · rw [Inline.operand_renewed_self hq (h.mem hi) hop,
          Inline.operand_renewed_self hp hi hop]
      · rw [Instr.isBranch, hself, hop] at hbr
        cases hbr
    · have hfki : f k ≠ f i := fun heq => hki (h.inj hq hk hi heq)
      rw [update_fresh hp f _ hk]
      refine (h.instr k hk).along (Inline.redirected_renewed hp hi hk hki op o)
        (Inline.redirected_renewed hq (h.mem hi) (h.mem hk) hfki op o)
        fun hbr t ht => ?_
      obtain ⟨t', ht', htarget⟩ := hclosed k hk hbr
      obtain rfl : t' = t := Option.some.inj (htarget.symm.trans ht)
      exact h.moving_eq hq hi ht' (Function.update_self _ _ _) fun _ =>
        update_fresh hp f _ ht'
  · rw [sameFrames_renewed hq (h.mem hi), sameFrames_renewed hp hi, h.frame]

/-- A fresh instruction that is no branch is linked in front of a mark. -/
theorem withNew (hclosed : p.Closed b) (hmark : mark ∈ p.code b)
    (hop : op.isBranch = false) (o : Operand) :
    ∃ g, Renames g b (p.withNew b mark op o) (q.withNew b (f mark) op o) ∧
      ∀ k ∈ p.code b, g k = f k := by
  refine ⟨Function.update f (p.newInstr op o).1 (q.newInstr op o).1,
    ⟨?_, fun k hk => ?_, ?_⟩, fun k hk => update_fresh hp f _ hk⟩
  · obtain ⟨pre, post, hcut, hpre, hcut', hpre'⟩ := h.exists_cut hp hq hmark
    have hsame : (p.code b).map (Function.update f
        (p.newInstr op o).1 (q.newInstr op o).1) = (p.code b).map f :=
      List.map_congr_left fun k hk => update_fresh hp f _ hk
    rw [code_withNew hq (h.mem hmark), code_withNew hp hmark, placed, placed,
      hcut', insertFront_cut hpre']
    rw [hcut, List.map_append, List.map_append] at hsame
    obtain ⟨hsame₁, hsame₂⟩ := List.append_inj hsame (by simp)
    rw [hcut, insertFront_cut hpre, List.map_append, List.map_cons,
      Function.update_self, hsame₁, hsame₂, List.map_cons]
  · rcases (mem_code_withNew hp hmark op o).mp hk with rfl | hk
    · rw [Function.update_self, instr_withNew, if_pos rfl, instr_withNew,
        if_pos rfl]
      refine ⟨rfl, fun _ => rfl, fun hbr => ?_⟩
      rw [Instr.isBranch, hop] at hbr
      cases hbr
    · have hold : ∀ {r : Program}, r.WellLinked → ∀ {c j : InstrId},
          j ∈ r.code b → (r.withNew b c op o).instr j = r.instr j := by
        intro r hr c j hj
        rw [instr_withNew, if_neg]
        rintro rfl
        exact hr.newInstr_not_mem hj
      rw [update_fresh hp f _ hk, hold hq (h.mem hk), hold hp hk]
      refine (h.instr k hk).congr fun hbr t ht => ?_
      obtain ⟨t', ht', htarget⟩ := hclosed k hk hbr
      obtain rfl : t' = t := Option.some.inj (htarget.symm.trans ht)
      exact update_fresh hp f _ ht'
  · rw [sameFrames_withNew hq (h.mem hmark),
      sameFrames_withNew hp hmark, h.frame]

omit h hq hp in
/-- Pops are linked in front of a mark. -/
theorem withPops (h : Renames f b p q) (hp : p.WellLinked) (hq : q.WellLinked)
    (hclosed : p.Closed b) (hmark : mark ∈ p.code b) (n : Nat) :
    ∃ g, Renames g b (Program.withPops b mark n p)
      (Program.withPops b (f mark) n q) ∧ ∀ k ∈ p.code b, g k = f k := by
  induction n generalizing p q f with
  | zero => exact ⟨f, h, fun _ _ => rfl⟩
  | succ n ih =>
      obtain ⟨g, hg, hsame⟩ := h.withNew hp hq hclosed hmark
        (show Opcode.pop.isBranch = false from rfl) .absent
      have hmem : ∀ k ∈ p.code b, k ∈ (p.withNew b mark .pop .absent).code b :=
        fun k hk => (mem_code_withNew hp hmark _ _).mpr (Or.inr hk)
      have hclosed' : (p.withNew b mark .pop .absent).Closed b := by
        have hpops := hclosed.withPops hp hmark 1
        exact hpops
      obtain ⟨g', hg', hsame'⟩ := ih hg (hp.withNew hmark _ _)
        (hq.withNew (h.mem hmark) _ _) hclosed' (hmem mark hmark)
      rw [hsame mark hmark] at hg'
      exact ⟨g', hg', fun k hk => (hsame' k (hmem k hk)).trans (hsame k hk)⟩

/-- A branch is sent to another place. -/
theorem setTarget (hi : i ∈ p.code b) (hbr : (p.instr i).isBranch = true) :
    Renames f b (p.setTarget i (some t)) (q.setTarget (f i) (some (f t))) where
  code := by
    have hcode : ∀ {r : Program} {j u : InstrId},
        (r.setTarget j (some u)).code b = r.code b :=
      fun {_ j _} => code_setTargets [j]
    rw [hcode, hcode, h.code]
  instr := by
    intro k hk
    have hk : k ∈ p.code b := by
      rwa [show (p.setTarget i (some t)).code b = p.code b
        from code_setTargets [i]] at hk
    rw [instr_setTarget (hq.has (h.mem hi)), instr_setTarget (hp.has hi)]
    by_cases hki : k = i
    · subst hki
      rw [if_pos rfl, if_pos rfl]
      exact ⟨(h.instr k hi).op,
        fun hno => absurd (hbr.symm.trans hno) (by simp), fun _ => rfl⟩
    · rw [if_neg hki, if_neg fun heq => hki (h.inj hq hk hi heq)]
      exact h.instr k hk
  frame := h.frame

end Renames

end Program

namespace Editing

variable {s s' : Editing} {i : InstrId} {pass : Pass} {r r' : Program}
  {f : InstrId → InstrId}

/-- A pass has one effect at most. -/
theorem Effect.unique (h : s.Effect i pass r) (h' : s.Effect i pass r') :
    r' = r := by
  cases h with
  | exit _ ht =>
      cases h' with
      | exit _ ht' => rw [Option.some.inj (ht.symm.trans ht')]
  | jump _ _ _ hcount =>
      cases h' with
      | jump => rfl
      | pops _ _ _ hcount' => cases hcount.symm.trans hcount'
  | pops _ _ _ hcount =>
      cases h' with
      | jump _ _ _ hcount' => cases hcount.symm.trans hcount'
      | pops _ _ _ hcount' => rw [Nat.succ.inj (hcount.symm.trans hcount')]
  | nop =>
      cases h' with
      | nop => rfl
  | dead =>
      cases h' with
      | dead => rfl
  | chain _ hmid _ _ hend =>
      cases h' with
      | chain _ hmid' _ _ hend' =>
          obtain rfl := Option.some.inj (hmid.symm.trans hmid')
          rw [Option.some.inj (hend.symm.trans hend')]

section Along

variable {p q : Program} {e : Editor} (hp : p.WellLinked) (hq : q.WellLinked)
  (hclosed : p.Closed e.body) (h : Program.Renames f e.body p q)
  (hi : i ∈ p.code e.body)

include hp hq hclosed h hi

theorem Deletable.along (hd : Deletable ⟨p, e⟩ i) : Deletable ⟨q, e⟩ (f i) := by
  rw [Deletable, h.next hq hp hi, Option.isSome_map,
    h.branchesTo_nil hq hclosed hi]
  exact hd

theorem Unreached.along (hun : Unreached ⟨p, e⟩ i) :
    Unreached ⟨q, e⟩ (f i) := by
  rw [Unreached, h.prev hq hp hi, h.branchesTo_nil hq hclosed hi]
  refine ⟨hun.1, fun j hj => ?_⟩
  obtain ⟨k, hk, rfl⟩ := Option.map_eq_some_iff.mp hj
  have hmem : k ∈ p.code e.body := mem_of_elemBefore? (hp.prev hi ▸ hk)
  rw [Instr.fallsThrough, h.kind hmem]
  exact hun.2 k hk

/-- **Local passes do the same under other names.** -/
theorem Effect.along (he : Effect ⟨p, e⟩ i pass r) :
    ∃ r' g, Effect ⟨q, e⟩ (f i) pass r' ∧ Program.Renames g e.body r r' ∧
      ∀ k ∈ p.code e.body, k ≠ i → g k = f k := by
  have hii := h.instr i hi
  have htarget : ∀ {t}, (p.instr i).isBranch = true → p.target? i = some t →
      t ∈ p.code e.body ∧ q.target? (f i) = some (f t) := by
    intro t hbr ht
    obtain ⟨u, hu, hto⟩ := hclosed i hi hbr
    obtain rfl : u = t := Option.some.inj (hto.symm.trans ht)
    exact ⟨hu, by rw [h.target? hi hbr, ht, Option.map_some]⟩
  have hnext : ∀ {n}, p.next i = some n → q.next (f i) = some (f n) := by
    intro n hn
    rw [h.next hq hp hi, hn, Option.map_some]
  have hwithout := h.without hp hq hclosed hi
  cases he with
  | @exit t hkind ht hexit =>
      have hbr : (p.instr i).isBranch = true := by
        rw [Instr.isBranch, Opcode.isBranch,
          show (p.instr i).op.kind = .branch from hkind]
        rfl
      obtain ⟨htc, ht'⟩ := htarget hbr ht
      have hop : (p.instr t).op.isBranch = false := by
        rw [Opcode.isBranch]
        rcases hexit with hkind | hkind
        · rw [show (p.instr t).op.kind = .ret from hkind]
          rfl
        · rw [show (p.instr t).op.kind = .throws from hkind]
          rfl
      have hcopy := h.instr t htc
      obtain ⟨g, hg, -, hsame⟩ :=
        h.renewed hp hq hclosed hi hop (p.instr t).operand
      have heffect : Effect ⟨q, e⟩ (f i) .branchToReturn
          (q.renewed e.body (f i) (q.instr (f t)).op (q.instr (f t)).operand) :=
        .exit ((h.kind hi).trans hkind) ht' (by rwa [h.kind htc])
      rw [hcopy.op, hcopy.operand hop] at heffect
      exact ⟨_, g, heffect, hg, fun k hk _ => hsame k hk⟩
  | jump hbr hn ht hk =>
      exact ⟨_, f, .jump (hii.isBranch.trans hbr) (hnext hn) (htarget hbr ht).2
        (by rw [hii.op]; exact hk), hwithout, fun _ _ _ => rfl⟩
  | @pops n k hbr hn ht hk =>
      obtain ⟨g, hg, hnew, hsame⟩ :=
        h.renewed hp hq hclosed hi
          (show Opcode.pop.isBranch = false from rfl) .absent
      have hpop : (p.newInstr .pop .absent).1 ∈
          (p.renewed e.body i .pop .absent).code e.body :=
        (Program.mem_code_renewed hp hi _ _).mpr (Or.inl rfl)
      obtain ⟨g', hg', hsame'⟩ := hg.withPops (hp.renewed hi _ _)
        (hq.renewed (h.mem hi) _ _) (hclosed.renewed hp hi rfl _) hpop k
      rw [hnew] at hg'
      refine ⟨_, g', .pops (hii.isBranch.trans hbr) (hnext hn)
        (htarget hbr ht).2 (by rw [hii.op]; exact hk), hg', fun c hc hci => ?_⟩
      rw [hsame' c ((Program.mem_code_renewed hp hi _ _).mpr
        (Or.inr ⟨hc, hci⟩)), hsame c hc]
  | nop hkind hd =>
      exact ⟨_, f, .nop ((h.kind hi).trans hkind)
        (Deletable.along hp hq hclosed h hi hd), hwithout, fun _ _ _ => rfl⟩
  | dead hfirst hun =>
      refine ⟨_, f, .dead (fun hfi => hfirst ?_)
        (Unreached.along hp hq hclosed h hi hun), hwithout, fun _ _ _ => rfl⟩
      rw [h.first? hq hp] at hfi
      obtain ⟨k, hk, hki⟩ := Option.map_eq_some_iff.mp hfi
      have hmem : k ∈ p.code e.body := List.mem_of_head? (hp.first? e.body ▸ hk)
      rwa [h.inj hq hmem hi hki] at hk
  | @chain mid t hbr hmid hne hkind hend =>
      obtain ⟨hmidc, hmid'⟩ := htarget hbr hmid
      have hlen :=
        Program.length_le_of_has (hp.nodup_code e.body) fun k hk => hp.has hk
      have hlen' :=
        Program.length_le_of_has (hq.nodup_code e.body) fun k hk => hq.has hk
      rw [h.code, List.length_map] at hlen'
      have hend' : Peephole.chainEnd? q (q.instrs.size + 1) [f i] (f mid) =
          (Peephole.chainEnd? p (p.instrs.size + 1) [i] mid).map f :=
        h.chainEnd? hq hclosed (List.nodup_singleton i)
          (fun k hk => by rwa [List.mem_singleton.mp hk])
          hmidc (by simp; omega) (by simp; omega)
      rw [show Peephole.chainEnd? p (p.instrs.size + 1) [i] mid = some t
        from hend] at hend'
      refine ⟨_, f, .chain (hii.isBranch.trans hbr) hmid' (fun heq => hne ?_)
        ((h.kind hmidc).trans hkind) hend', h.setTarget hp hq hi hbr,
        fun _ _ _ => rfl⟩
      exact h.inj hq hmidc hi heq

end Along

end Editing

namespace Inline

open Program (Renames)

/-! ### Copies -/

section Copies

variable {x x' y y' : Instr} {slots : Body} {base : Nat}
  {anchor anchor' : InstrId} {f f' g h : InstrId → InstrId}

/-- The copy of what is neither a return nor a branch does not depend on
places. -/
theorem IsCopy.unique (hy : IsCopy slots base anchor f x y)
    (hy' : IsCopy slots base anchor' f' x' y') (hop : x'.op = x.op)
    (ho : x'.operand = x.operand) (hret : x.kind ≠ .ret)
    (hbr : x.isBranch = false) : y'.op = y.op ∧ y'.operand = y.operand := by
  have haccess : x'.access? = x.access? := by
    rw [Instr.access?, Instr.access?, Instr.kind, Instr.kind, hop]
  have hlocal : x'.localIndex? = x.localIndex? := by
    rw [Instr.localIndex?, Instr.localIndex?, haccess, hop, ho]
  cases hy with
  | exit hret' => exact absurd hret' hret
  | branch hbr' =>
      rw [hbr] at hbr'
      cases hbr'
  | access ha hn hl henc =>
      cases hy' with
      | exit hret' => exact absurd (by rwa [Instr.kind, hop] at hret') hret
      | branch hbr' =>
          rw [Instr.isBranch, hop, ← Instr.isBranch, hbr] at hbr'
          cases hbr'
      | access ha' hn' hl' henc' =>
          obtain rfl := Option.some.inj ((haccess.trans ha).symm.trans ha')
          obtain rfl := Option.some.inj ((hlocal.trans hn).symm.trans hn')
          obtain rfl := Option.some.inj (hl.symm.trans hl')
          exact Prod.mk.inj (Option.some.inj (henc'.symm.trans henc))
      | plain _ _ hslot =>
          rw [hslot _ (hlocal.trans hn)] at hl
          cases hl
  | plain _ _ hslot hyop hyo =>
      cases hy' with
      | exit hret' => exact absurd (by rwa [Instr.kind, hop] at hret') hret
      | branch hbr' =>
          rw [Instr.isBranch, hop, ← Instr.isBranch, hbr] at hbr'
          cases hbr'
      | access _ hn' hl' =>
          rw [hslot _ (hlocal.symm.trans hn')] at hl'
          cases hl'
      | plain _ _ _ hyop' hyo' =>
          exact ⟨by rw [hyop', hop, hyop], by rw [hyo', ho, hyo]⟩

/-- Copies of what says the same say the same. -/
theorem IsCopy.along (hy : IsCopy slots base anchor f x y)
    (hy' : IsCopy slots base anchor' f' x' y') (hx : x.Redirected h x')
    (hanchor : g anchor = anchor')
    (htarget : x.isBranch = true → ∀ t ∈ x.target?, g (f t) = f' (h t)) :
    y.Redirected g y' := by
  by_cases hret : x.kind = .ret
  · obtain ⟨hop, hto⟩ := hy.of_ret hret
    obtain ⟨hop', hto'⟩ := hy'.of_ret (by rwa [Instr.kind, hx.op])
    refine ⟨hop'.trans hop.symm, fun hbr => ?_,
      fun _ => by rw [hto', hto, Option.map_some, hanchor]⟩
    rw [Instr.isBranch, hop] at hbr
    cases hbr
  · by_cases hbr : x.isBranch = true
    · obtain ⟨hop, hto⟩ := hy.of_branch hbr
      obtain ⟨hop', hto'⟩ := hy'.of_branch (by rwa [hx.isBranch])
      refine ⟨by rw [hop', hop, hx.op], fun hno => ?_, fun _ => ?_⟩
      · rw [Instr.isBranch, hop, ← Instr.isBranch, hbr] at hno
        cases hno
      · rw [hto', hto, hx.target hbr, Option.map_map, Option.map_map]
        exact Option.map_congr fun t ht => (htarget hbr t ht).symm
    · have hbr' : x.isBranch = false := by simpa using hbr
      obtain ⟨hop, ho⟩ := hy.unique hy' hx.op (hx.operand hbr') hret hbr'
      refine ⟨hop, fun _ => ho, fun hno => ?_⟩
      have hkind := hy.kind hret
      rw [Instr.isBranch, Opcode.isBranch, show y.op.kind = x.op.kind
        from hkind, ← Opcode.isBranch, ← Instr.isBranch, hbr'] at hno
      cases hno

/-- What has a copy is no access without a form. -/
theorem IsCopy.not_formless (hy : IsCopy slots base anchor f x y) :
    ¬ Formless slots base x := by
  rintro ⟨a, n, l, ha, hn, hl, hnone⟩
  cases hy with
  | exit hret =>
      rw [Instr.access?, hret] at ha
      cases ha
  | branch hbr =>
      rw [isBranch_of_access ha] at hbr
      cases hbr
  | access ha' hn' hl' henc =>
      obtain rfl := Option.some.inj (ha.symm.trans ha')
      obtain rfl := Option.some.inj (hn.symm.trans hn')
      obtain rfl := Option.some.inj (hl.symm.trans hl')
      rw [hnone] at henc
      cases henc
  | plain _ _ hslot =>
      rw [hslot n hn] at hl
      cases hl

end Copies

/-! ### The body of a callee -/

section Callee

variable {p q : Program} {b c : BodyId} {f h : InstrId → InstrId}
  {call anchor nop : InstrId} {inner : List InstrId}

theorem copiedCode_map {code : List InstrId}
    (hkind : ∀ i ∈ code, (q.instr (h i)).kind = (p.instr i).kind) :
    copiedCode q (code.map h) = (copiedCode p code).map h := by
  induction code with
  | nil => rfl
  | cons i rest ih =>
      rw [List.map_cons, copiedCode, copiedCode, hkind i List.mem_cons_self,
        ih fun k hk => hkind k (List.mem_cons_of_mem _ hk)]
      simp only [List.map_eq_nil_iff]
      split <;> rfl

theorem atOnce_iff (hc : Renames h c p q) : AtOnce q c ↔ AtOnce p c := by
  rw [AtOnce, AtOnce, hc.code, List.head?_map]
  constructor
  · intro hret i hi
    rw [← hc.kind (List.mem_of_head? hi)]
    exact hret (h i) (Option.mem_map_of_mem h hi)
  · intro hret j hj
    obtain ⟨i, hi, rfl⟩ := Option.map_eq_some_iff.mp hj
    rw [hc.kind (List.mem_of_head? hi)]
    exact hret i hi

/-- The copies are made of the same instructions. -/
theorem copiedBody_map (hc : Renames h c p q) :
    copiedBody q c = (copiedBody p c).map h := by
  rw [copiedBody, copiedBody, hc.code, copiedCode_map fun i hi => hc.kind hi]
  simp only [atOnce_iff hc]
  split <;> rfl

theorem widened_eq (hb : (q.body b).frame = (p.body b).frame)
    (hc : Renames h c p q) :
    widened (q.body b) (q.body c) = widened (p.body b) (p.body c) := by
  change widened (q.body b).frame (q.body c).frame =
    widened (p.body b).frame (p.body c).frame
  rw [hb, hc.frame]

theorem size_locals_eq (hb : (q.body b).frame = (p.body b).frame) :
    (q.body b).locals.size = (p.body b).locals.size := by
  change (q.body b).frame.locals.size = (p.body b).frame.locals.size
  rw [hb]

/-- Whether a callee has accesses without a form does not depend on names. -/
theorem blocked_iff (hb : (q.body b).frame = (p.body b).frame)
    (hc : Renames h c p q) : Blocked q b c ↔ Blocked p b c := by
  rw [Blocked, Blocked, atOnce_iff hc, widened_eq hb hc, size_locals_eq hb]
  refine and_congr_right fun _ => ?_
  constructor
  · rintro ⟨d', hd', hnone⟩
    obtain ⟨d, hd, rfl⟩ := hc.exists_of_mem hd'
    exact ⟨d, hd, hnone.congr (hc.instr d hd).op (hc.instr d hd).operand⟩
  · rintro ⟨d, hd, hnone⟩
    refine ⟨h d, hc.mem hd, hnone.congr (hc.instr d hd).op.symm fun hbr => ?_⟩
    rw [(hc.instr d hd).isBranch] at hbr
    exact ((hc.instr d hd).operand hbr).symm

/-- Nor does it depend on the call. -/
theorem blocked_renewed (hp : p.WellLinked) (hcall : call ∈ p.code b)
    (hc : c ≠ b) :
    Blocked (p.renewed b call .nop .absent) b c ↔ Blocked p b c := by
  refine blocked_iff (h := id)
    (Program.sameFrames_renewed hp hcall .nop .absent b) ?_
  have hagree := (Program.changedIn_renewed hp hcall .nop .absent).agreeOn hp hc
  exact (Program.renames_refl p c).agree hp hp hp (hp.renewed hcall _ _)
    (.refl _ _) hagree

/-- Where something is copied, the slots of the callee come with it. -/
theorem Spliced.frame_widened (hs : Spliced b c call anchor nop inner f p q)
    (hinner : inner ≠ []) :
    (q.body b).frame = widened (p.body b) (p.body c) := by
  obtain ⟨ls, hls, hsame⟩ := hs.slots
  rw [hsame hinner] at hls
  rw [widened, ← hls]
  exact congrArg (fun x : Body => { x with locals := (q.body b).locals })
    (hs.rest b)

theorem Spliced.frame_bare (hs : Spliced b c call anchor nop inner f p q)
    (hinner : inner = []) : (q.body b).frame = (p.body b).frame := by
  rw [Body.frame, Body.frame, ← hs.bare hinner]
  exact congrArg (fun x : Body => { x with locals := (q.body b).locals })
    (hs.rest b)

/-- Where a call has been taken in, nothing has been in the way. -/
theorem Spliced.not_blocked (hs : Spliced b c call anchor nop inner f p q) :
    ¬ Blocked p b c := by
  rintro ⟨honce, d, hd, hnone⟩
  have hinner : inner ≠ [] := by
    rw [hs.exact]
    exact copiedBody_ne_nil honce
  obtain ⟨e, he⟩ := List.exists_mem_of_ne_nil _ hinner
  rcases hs.shape.lands he hd with hmem | ⟨hret, -⟩
  · have hcopy := hs.copy d hmem
    rw [hs.frame_widened hinner] at hcopy
    exact hcopy.not_formless hnone
  · obtain ⟨a, -, -, ha, -⟩ := hnone
    rw [Instr.access?, hret] at ha
    cases ha

end Callee

/-! ### Taking in -/

section TakingIn

variable {p p' q q' : Program} {b c : BodyId} {call anchor nop nop' : InstrId}
  {inner inner' : List InstrId} {f h a a' : InstrId → InstrId}

/-- **A call is taken in in the same way under other names.** -/
theorem Spliced.along (hs : Spliced b c call anchor nop inner a p p')
    (hs' : Spliced b c (f call) (f anchor) nop' inner' a' q q')
    (hp : p.WellLinked) (hq : q.WellLinked) (hclosed : p.Closed b)
    (hcallee : p.Closed c) (hb : Renames f b p q) (hc : Renames h c p q)
    (hcall : call ∈ p.code b) (hnext : p.next call = some anchor) :
    ∃ g, Renames g b p' q' ∧ ∀ k ∈ p.code b, k ≠ call → g k = f k := by
  have hinner : inner' = inner.map h := by
    rw [hs'.exact, hs.exact, copiedBody_map hc]
  obtain ⟨pre, post, hcut, hnew⟩ := hs.cut hp hcall hnext
  have hnew' : q'.code b = pre.map f ++ (nop' :: inner'.map a') ++
      f anchor :: post.map f :=
    by simpa using hs'.code (pre.map f) (post.map f)
         (by rw [hb.code, hcut]; simp)
  obtain ⟨g, hg⟩ : ∃ g, q'.code b = (p'.code b).map g :=
    exists_map_eq (hs.linked.nodup_code b) (by
    rw [hnew, hnew', hinner]
    simp)
  -- The new names, read off the codes.
  have hread := hg
  rw [hnew, hnew', hinner, List.map_append, List.map_append] at hread
  obtain ⟨hfront, hback⟩ := List.append_inj hread (by simp)
  obtain ⟨hpre, hmid⟩ := List.append_inj hfront (by simp)
  rw [List.map_cons, List.cons.injEq] at hmid hback
  obtain ⟨hnop, hcopies⟩ := hmid
  obtain ⟨hanchor, hpost⟩ := hback
  rw [List.map_map, List.map_map] at hcopies
  have hcopy : ∀ d ∈ inner, g (a d) = a' (h d) :=
    fun d hd => (List.map_inj_left.mp hcopies d hd).symm
  have hold : ∀ k ∈ p.code b, k ≠ call → g k = f k := by
    intro k hk hkc
    rw [hcut] at hk
    rcases List.mem_append.mp hk with hk | hk
    · exact (List.map_inj_left.mp hpre k hk).symm
    · rcases List.mem_cons.mp ((List.mem_cons.mp hk).resolve_left hkc) with rfl
        | hk
      · exact hanchor.symm
      · exact (List.map_inj_left.mp hpost k hk).symm
  have hframe : (q'.body b).frame = (p'.body b).frame := by
    by_cases hnil : inner = []
    · rw [hs'.frame_bare (by rw [hinner, hnil, List.map_nil]),
        hs.frame_bare hnil, hb.frame]
    · rw [hs'.frame_widened (by rwa [hinner, Ne, List.map_eq_nil_iff]),
        hs.frame_widened hnil, widened_eq hb.frame hc]
  refine ⟨g, ⟨hg, fun k hk => ?_, hframe⟩, hold⟩
  rcases hs.mem_cases hp hcall hnext hk with ⟨hk, hkc⟩ | rfl | ⟨d, hd, rfl⟩
  · rw [hold k hk hkc]
    have hfk : f k ≠ f call := fun heq => hkc (hb.inj hq hk hcall heq)
    refine (hb.instr k hk).along (hs.old k hk hkc)
      (hs'.old (f k) (hb.mem hk) hfk) fun hbr t ht => ?_
    obtain ⟨t', ht', htarget⟩ := hclosed k hk hbr
    obtain rfl : t' = t := Option.some.inj (htarget.symm.trans ht)
    exact hb.moving_eq hq hcall ht' hnop.symm (hold t' ht')
  · rw [← hnop]
    refine ⟨hs'.isNop.trans hs.isNop.symm,
      fun _ => hs'.blank.trans hs.blank.symm, fun hbr => ?_⟩
    rw [Instr.isBranch, hs.isNop] at hbr
    cases hbr
  · have hdc := hs.shape.mem hd
    have hcopy' := hs'.copy (h d) (by rw [hinner]; exact List.mem_map_of_mem hd)
    rw [hframe, size_locals_eq hb.frame] at hcopy'
    rw [hcopy d hd]
    refine (hs.copy d hd).along hcopy' (hc.instr d hdc) hanchor.symm
      fun hbr t ht => ?_
    obtain ⟨t', ht', htarget⟩ := hcallee d hdc hbr
    obtain rfl : t' = t := Option.some.inj (htarget.symm.trans ht)
    -- Where a copy goes there is a copy as well, or the anchor stands for a
    -- last return.
    rcases hs.shape with heq | ⟨r, rest, heq, -, hr, hrest⟩
    · exact hcopy t' (by rwa [← heq])
    · rw [heq, hrest (List.ne_nil_of_mem hd), List.mem_append,
        List.mem_singleton] at ht'
      rcases ht' with ht' | rfl
      · exact hcopy t' ht'
      · have hcode : q.code c = inner' ++ [h t'] := by
          rw [hc.code, heq, hrest (List.ne_nil_of_mem hd), hinner,
            List.map_append, List.map_cons, List.map_nil]
        rcases hs'.shape with heq' | ⟨r', rest', heq', -, hr', -⟩
        · rw [heq'] at hcode
          simp at hcode
        · obtain ⟨rfl, -⟩ :=
            List.cons.inj (List.append_cancel_left (hcode.symm.trans heq'))
          rw [hr, hr', hanchor]

end TakingIn

end Inline

end Bytecode
