import Bytecode.Proofs.Copying
import Bytecode.Proofs.Execution

/-!
# Inlining, spelled out

Taking in a call puts a nop in the place of the call and copies of the callee's
instructions between that nop and the instruction behind it.  `Spliced` says
what has become of each instruction: those of the caller stay and go where they
went, but to the nop in place of the call; each copy does what its original
does, at its own slots, and goes where the places of the callee have gone.  The
main statement is `Replaces.spliced`; the last section reads off the neighbours
in the new code.
-/

namespace Bytecode

/-- A body as far as inlining leaves it alone. -/
def Body.shell (x : Body) : Body := { x with code := [], locals := #[] }

namespace Inline

open Editing

variable {s s' : Editing} {x y : Instr} {base : Nat} {anchor call i : InstrId}
  {f : InstrId → InstrId} {b c : BodyId}

/-- What is copied of a body, and how the places of its instructions come out:
`inner` is copied, and if there is more, then a return that goes to the anchor.
Behind a return in the very first place nothing is ever reached. -/
def Shape (p : Program) (c : BodyId) (anchor : InstrId) (inner : List InstrId)
    (f : InstrId → InstrId) : Prop :=
  p.code c = inner ∨ ∃ r rest, p.code c = inner ++ r :: rest ∧
    (p.instr r).kind = .ret ∧ f r = anchor ∧ (inner ≠ [] → rest = [])

/-- The code of body `c` has been copied in front of the anchor, as far as it is
`inner`.  `f` sends the instructions of the callee to the places that stand for
them and leaves everything else where it is. -/
structure Infused (b c : BodyId) (anchor : InstrId) (inner : List InstrId)
    (f : InstrId → InstrId) (p q : Program) : Prop where
  exact : inner = copiedBody p c
  shape : Shape p c anchor inner f
  off : ∀ t, t ∉ p.code c → f t = t
  code : ∀ pre post, p.code b = pre ++ anchor :: post →
    q.code b = pre ++ inner.map f ++ anchor :: post
  old : ∀ k ∈ p.code b, (p.instr k).Redirected f (q.instr k)
  copy : ∀ d ∈ inner, IsCopy (q.body b).frame (p.body b).locals.size anchor f
    (p.instr d) (q.instr (f d))
  slots : ∃ ls, (q.body b).locals = (p.body b).locals ++
    (slotsFrom (p.body b).locals.size ls).toArray ∧
    (inner ≠ [] → ls = (p.body c).locals.toList)
  bare : inner = [] → (q.body b).locals = (p.body b).locals
  rest : ∀ d, (q.body d).shell = (p.body d).shell

/-- Code that is taken in is infused. -/
theorem TakesIn.infused (htake : TakesIn c anchor s s') (hs : s.Sound)
    (hanchor : anchor ∈ s.code) (hc : c ≠ s.editor.body)
    (hclosed : s.program.Closed s.editor.body) (hcallee : s.program.Closed c) :
    ∃ inner f, Infused s.editor.body c anchor inner f s.program s'.program := by
  have hp := hs.linked
  cases htake with
  | nothing hret heq =>
      subst heq
      have hstay : ∀ t, t ∉ s'.program.code c →
          (if s'.program.first? c = some t then anchor else t) = t := by
        intro t ht
        refine if_neg fun hfirst => ht ?_
        rw [hp.first?] at hfirst
        exact List.mem_of_head? hfirst
      refine ⟨[], fun t => if s'.program.first? c = some t then anchor else t,
        (if_pos hret).symm, ?_, hstay, fun pre post hcut => by simpa using hcut,
        fun k hk => ?_, fun d hd => (by cases hd), ⟨[], by simp [slotsFrom],
          fun hne => absurd rfl hne⟩, fun _ => rfl, fun d => rfl⟩
      · cases hcode : s'.program.code c with
        | nil => exact Or.inl hcode
        | cons r rest =>
            refine Or.inr ⟨r, rest, hcode, hret r (by rw [hcode]; rfl),
              if_pos ?_, fun hne => absurd rfl hne⟩
            rw [hp.first?, hcode]
            rfl
      · -- Branches of the caller do not go to the callee.
        refine (Instr.Redirected.refl _).congr fun hbr t' ht' => ?_
        obtain ⟨t, ht, htarget⟩ := hclosed k hk hbr
        have htt : t' = t := Option.some.inj (ht'.symm.trans htarget)
        rw [htt]
        exact hstay t fun htc => hc (hp.body_unique ht htc)
  | @copies s₁ hslots hrun honce =>
      obtain ⟨f, hf⟩ := hrun.spread hslots.sound (by rwa [hslots.code])
        (hslots.originals hs hc hcallee) (hp.nodup_code c) fun _ _ => rfl
      have hcopied : copiedCode s₁.program (s.program.code c) =
          copiedCode s.program (s.program.code c) :=
        copiedCode_congr fun k _ => by rw [hslots.instr]
      have hframe := hf.frames s.editor.body
      have hslots' : (s'.program.body s.editor.body).locals =
          (s₁.program.body s.editor.body).locals := hf.frames.locals _
      have hexact :
          copiedCode s.program (s.program.code c) = copiedBody s.program c :=
        (if_neg honce).symm
      refine ⟨copiedCode s.program (s.program.code c), f, hexact, ?_, hf.off,
        fun pre post hcut => ?_, fun k hk => ?_, fun d hd => ?_,
        ⟨_, ?_, fun _ => rfl⟩, fun hnil => absurd (hexact.symm.trans hnil)
        (copiedBody_ne_nil honce), fun d => ?_⟩
      · rcases copiedCode_cases s.program (s.program.code c) with heq
          | ⟨r, heq, hret⟩
        · exact Or.inl heq.symm
        · refine Or.inr ⟨r, [], heq, hret, ?_, fun _ => rfl⟩
          have hnd := hp.nodup_code c
          rw [heq] at hnd
          refine hf.last r (by rw [heq]; simp) ?_
          rw [hcopied]
          exact fun hr =>
            List.disjoint_of_nodup_append hnd hr List.mem_cons_self
      · have hplaced := hf.placed pre post (by rw [hslots.code]; exact hcut)
        rw [hcopied, Editing.code, hrun.edited.body, hslots.body] at hplaced
        exact hplaced
      · have hold := hf.old k (by rw [hslots.code]; exact hk)
        rwa [hslots.instr] at hold
      · have hcopy := hf.copy d (by rwa [hcopied])
        rw [hslots.instr, hslots.body, ← hframe] at hcopy
        exact hcopy
      · rw [hslots', hslots.slots]
      · have hshell : (s'.program.body d).shell = (s₁.program.body d).shell :=
          congrArg (fun x : Body => { x with locals := #[] }) (hf.frames d)
        rw [hshell]
        by_cases hd : d = s.editor.body
        · rw [hd, hslots.slots]
          rfl
        · rw [hslots.changed.body d hd]

/-- The call has given way to a nop, and the code of body `c`, as far as it is
`inner`, has been copied behind it. -/
structure Spliced (b c : BodyId) (call anchor nop : InstrId)
    (inner : List InstrId) (f : InstrId → InstrId) (p q : Program) : Prop where
  linked : q.WellLinked
  changed : Program.ChangedIn b p q
  exact : inner = copiedBody p c
  shape : Shape p c anchor inner f
  code : ∀ pre post, p.code b = pre ++ call :: anchor :: post →
    q.code b = pre ++ nop :: inner.map f ++ anchor :: post
  isNop : (q.instr nop).op = .nop
  blank : (q.instr nop).operand = .absent
  old : ∀ k ∈ p.code b, k ≠ call →
    (p.instr k).Redirected (moving call nop) (q.instr k)
  copy : ∀ d ∈ inner, IsCopy (q.body b).frame (p.body b).locals.size anchor f
    (p.instr d) (q.instr (f d))
  slots : ∃ ls, (q.body b).locals = (p.body b).locals ++
    (slotsFrom (p.body b).locals.size ls).toArray ∧
    (inner ≠ [] → ls = (p.body c).locals.toList)
  bare : inner = [] → (q.body b).locals = (p.body b).locals
  rest : ∀ d, (q.body d).shell = (p.body d).shell

section Renewed

variable {p q : Program} {inner : List InstrId} (hp : p.WellLinked)
  (hi : i ∈ p.code b)

include hp hi

/-- The operand of a renewed instruction. -/
theorem operand_renewed_self {op : Opcode} (hop : op.isBranch = false)
    (o : Operand) :
    ((p.renewed b i op o).instr (p.newInstr op o).1).operand = o := by
  have hi' : i ∈ (p.newInstr op o).2.code b := by rwa [hp.code_newInstr]
  have hself :
      (p.newInstr op o).2.instr (p.newInstr op o).1 = ⟨op, o, none⟩ := by
    rw [Program.instr_newInstr, if_pos rfl]
  rw [Program.renewed, Program.operand_exchange_of_not (hp.newInstr op o) hi'
    (Program.has_newInstr op o) (Program.owner_fresh op o), hself]
  intro _ hbr
  rw [hself, Instr.isBranch, hop] at hbr
  cases hbr

/-- The other instructions of a body in which one has been exchanged. -/
theorem redirected_renewed {k : InstrId} (hk : k ∈ p.code b) (hki : k ≠ i)
    (op : Opcode) (o : Operand) : (p.instr k).Redirected
    (moving i (p.newInstr op o).1) ((p.renewed b i op o).instr k) := by
  have hnew := hp.newInstr op o
  have hi' : i ∈ (p.newInstr op o).2.code b := by rwa [hp.code_newInstr]
  have hfree := Program.owner_fresh (p := p) op o
  have hhas := Program.has_newInstr (p := p) op o
  have hkj : k ≠ (p.newInstr op o).1 := by
    rintro rfl
    exact Program.not_has_newInstr op o (hp.has hk)
  have hswap : ((p.newInstr op o).2.swap b i (p.newInstr op o).1).instr k =
      p.instr k := by
    rw [Program.instr_swap hnew hi' hhas hfree, if_neg hkj, if_neg hki,
      Program.instr_newInstr_of_has op o (hp.has hk)]
  rw [← hswap]
  refine Program.redirected_redirect (hnew.swap hi' hhas hfree) ?_
  have hmem := (Program.mem_code_renewed hp hi op o).mpr (Or.inr ⟨hk, hki⟩)
  rwa [Program.renewed, Program.exchange, Program.code_redirect] at hmem

/-- A nop in the place of the call, and then the copies. -/
theorem Infused.spliced (hc : c ≠ b) (hclosed : p.Closed b)
    (hlinked : (p.renewed b i .nop .absent).WellLinked)
    (hagree : p.AgreeOn c (p.renewed b i .nop .absent)) (hq : q.WellLinked)
    (hchanged : Program.ChangedIn b p q)
    (h : Infused b c anchor inner f (p.renewed b i .nop .absent) q) :
    Spliced b c i anchor (p.newInstr .nop .absent).1 inner f p q := by
  have hcode : (p.renewed b i .nop .absent).code c = p.code c := by
    rw [hlinked.code, hp.code, hagree.body]
  have hinstr : ∀ d ∈ p.code c, (p.renewed b i .nop .absent).instr d =
      p.instr d :=
    fun d hd => hagree.instr d (by rwa [← hp.code])
  have hframes := Program.sameFrames_renewed hp hi .nop .absent
  have hlocals :
      ((p.renewed b i .nop .absent).body b).locals = (p.body b).locals :=
    hframes.locals b
  have hclosed' :=
    hclosed.renewed hp hi (show Opcode.nop.isBranch = false from rfl) .absent
  have hstay : ∀ t ∈ (p.renewed b i .nop .absent).code b, f t = t :=
    fun t ht => h.off t fun htc => hc (hlinked.body_unique ht htc)
  have hnop := (Program.mem_code_renewed hp hi .nop .absent).mpr (Or.inl rfl)
  have hop := Program.op_renewed_self hp hi .nop .absent
  refine ⟨hq, hchanged, ?_, ?_, fun pre post hcut => ?_, ?_, ?_,
    fun k hk hki => ?_,
    fun d hd => ?_, ?_, fun hnil => (h.bare hnil).trans hlocals, fun d => ?_⟩
  · rw [h.exact]
    exact copiedBody_congr hcode fun d hd => by rw [hinstr d hd]
  · rcases h.shape with heq | ⟨r, rest, heq, hret, hr⟩
    · exact Or.inl (hcode.symm.trans heq)
    · have hmem : r ∈ p.code c := by
        rw [← hcode, heq]
        simp
      rw [hinstr r hmem] at hret
      exact Or.inr ⟨r, rest, hcode.symm.trans heq, hret, hr⟩
  · have hpre : i ∉ pre := by
      have hnodup := hp.nodup_code b
      rw [hcut] at hnodup
      exact fun hmem =>
        List.disjoint_of_nodup_append hnodup hmem List.mem_cons_self
    have hi' : i ∈ (p.newInstr .nop .absent).2.code b := by
      rwa [hp.code_newInstr]
    have hnew : (p.renewed b i .nop .absent).code b =
        (pre ++ [(p.newInstr .nop .absent).1]) ++ anchor :: post := by
      rw [Program.renewed, Program.code_exchange (hp.newInstr _ _) hi',
        hp.code_newInstr, hcut, replace_cut hpre]
      simp
    rw [h.code _ _ hnew]
    simp
  · rw [(h.old _ hnop).op, hop]
  · rw [(h.old _ hnop).operand (by rw [Instr.isBranch, hop]; rfl),
      operand_renewed_self hp hi rfl]
  · have hmem :=
      (Program.mem_code_renewed hp hi .nop .absent).mpr (Or.inr ⟨hk, hki⟩)
    have hstep := redirected_renewed hp hi hk hki .nop .absent
    refine (hstep.trans (h.old k hmem)).congr fun hbr t ht => ?_
    -- Branches of the caller go to what stands in the caller then.
    obtain ⟨t', ht', htarget⟩ := hclosed' k hmem (by rwa [hstep.isBranch])
    rw [Program.target?, hstep.target hbr, ht, Option.map_some] at htarget
    rw [Function.comp_apply, Option.some.inj htarget, hstay t' ht']
  · have hmem : d ∈ p.code c := by
      rw [← hcode]
      rcases h.shape with heq | ⟨r, rest, heq, -⟩
      · rwa [heq]
      · rw [heq]
        exact List.mem_append_left _ hd
    have hcopy := h.copy d hd
    rwa [hlocals, hinstr d hmem] at hcopy
  · obtain ⟨ls, hls, hsame⟩ := h.slots
    rw [hlocals] at hls
    rw [hagree.body] at hsame
    exact ⟨ls, hls, hsame⟩
  · rw [h.rest d]
    exact congrArg (fun x : Body => { x with locals := #[] }) (hframes d)

end Renewed

/-- **Inlining, spelled out.**  The call gives way to a nop, and behind it stand
copies of what the callee does. -/
theorem Replaces.spliced (h : Replaces call c anchor s s') (hs : s.Sound)
    (hcall : call ∈ s.code) (hnext : s.program.next call = some anchor)
    (hc : c ≠ s.editor.body) (hclosed : s.program.Closed s.editor.body)
    (hcallee : s.program.Closed c) : ∃ nop inner f,
      Spliced s.editor.body c call anchor nop inner f s.program s'.program := by
  have hevolves := h.evolves
  obtain ⟨t, ht, htake⟩ := h.cleared hs hcall hnext
  have hp := hs.linked
  have hagree := ht.changed.agreeOn hp hc
  have hlinked := ht.sound.linked
  have hclosed' : t.program.Closed t.editor.body := by
    rw [ht.program, ht.body]
    exact hclosed.renewed hp hcall rfl .absent
  obtain ⟨inner, f, hin⟩ := htake.infused ht.sound ht.anchor
    (by rwa [ht.body]) hclosed' (hcallee.agree hp hlinked hagree)
  rw [ht.body, ht.program] at hin
  rw [ht.program] at hagree hlinked
  exact ⟨_, inner, f, hin.spliced hp hcall hc hclosed hlinked hagree
    hevolves.sound.linked hevolves.changed⟩

/-! ### The slots of the caller and of the callee -/

section Slots

variable {p q : Program} {nop : InstrId} {inner : List InstrId} {n : Int}
  {l : Local} (h : Spliced b c call anchor nop inner f p q)

include h

/-- The locals of the caller stay. -/
theorem Spliced.localAt?_old (hl : (p.body b).localAt? n = some l) :
    (q.body b).localAt? n = some l := by
  obtain ⟨k, rfl, hk⟩ := Body.localAt?_eq_some.mp hl
  obtain ⟨ls, hls, -⟩ := h.slots
  refine Body.localAt?_eq_some.mpr ⟨k, rfl, ?_⟩
  rw [hls, Array.getElem?_append, if_pos (Array.getElem?_eq_some_iff.mp hk).1,
    hk]

/-- The slots of the callee stand behind those of the caller. -/
theorem Spliced.localAt?_new (hinner : inner ≠ [])
    (hl : (p.body c).localAt? n = some l) :
    (q.body b).localAt? ((p.body b).locals.size + n) =
    some ⟨(p.body b).locals.size + n, l.type, l.name⟩ := by
  obtain ⟨k, rfl, hk⟩ := Body.localAt?_eq_some.mp hl
  obtain ⟨ls, hls, heq⟩ := h.slots
  refine Body.localAt?_eq_some.mpr ⟨(p.body b).locals.size + k, by omega, ?_⟩
  rw [hls, Array.getElem?_append, if_neg (by omega), Nat.add_sub_cancel_left,
    List.getElem?_toArray, getElem?_slotsFrom, heq hinner,
    Array.getElem?_toList, hk, Option.map_some, Nat.cast_add]

end Slots

/-! ### Neighbours in the new code -/

/-- Where control comes to that has come to the place `a` of the callee. -/
def land (anchor : InstrId) (f : InstrId → InstrId) (a : Option InstrId) :
    InstrId := a.elim anchor f

/-- The instruction has a copy, or it is a return for which the anchor
stands. -/
def Lands (p : Program) (anchor : InstrId) (inner : List InstrId)
    (f : InstrId → InstrId) (d : InstrId) : Prop :=
  d ∈ inner ∨ (p.instr d).kind = .ret ∧ f d = anchor

namespace Shape

variable {p : Program} {inner : List InstrId} {d : InstrId}
  (h : Shape p c anchor inner f)

include h

/-- What is copied is code of the callee. -/
theorem mem (hd : d ∈ inner) : d ∈ p.code c := by
  rcases h with heq | ⟨r, rest, heq, -⟩
  · rwa [heq]
  · rw [heq]
    exact List.mem_append_left _ hd

/-- A call lands at the first instruction of the callee. -/
theorem lands_first (hp : p.WellLinked) :
    ∀ d ∈ p.first? c, Lands p anchor inner f d := by
  intro d hd
  rw [hp.first?] at hd
  rcases h with heq | ⟨r, rest, heq, hret, hr, -⟩
  · rw [heq] at hd
    exact Or.inl (List.mem_of_head? hd)
  · rw [heq, List.head?_append, Option.mem_def, Option.or_eq_some_iff] at hd
    rcases hd with hd | ⟨-, hd⟩
    · exact Or.inl (List.mem_of_head? hd)
    · cases hd
      exact Or.inr ⟨hret, hr⟩

/-- Where anything is copied, everything lands. -/
theorem lands {e : InstrId} (he : e ∈ inner) (hd : d ∈ p.code c) :
    Lands p anchor inner f d := by
  rcases h with heq | ⟨r, rest, heq, hret, hr, hrest⟩
  · rw [heq] at hd
    exact Or.inl hd
  · rw [heq, hrest (List.ne_nil_of_mem he), List.mem_append, List.mem_singleton]
      at hd
    rcases hd with hd | rfl
    · exact Or.inl hd
    · exact Or.inr ⟨hret, hr⟩

/-- It lands at the first copy, or behind all of them. -/
theorem land_first (hp : p.WellLinked) (post : List InstrId) :
    (inner.map f ++ anchor :: post).head? =
    some (land anchor f (p.first? c)) := by
  rw [hp.first?]
  rcases h with heq | ⟨r, rest, heq, -, hr, -⟩
  · rw [heq]
    cases inner <;> rfl
  · rw [heq]
    cases inner with
    | nil => simp [land, hr]
    | cons i inner => rfl

/-- What follows a copy is the copy of what follows, or comes behind all of
them. -/
theorem land_next (hp : p.WellLinked) (hd : d ∈ inner) :
    some (land anchor f (p.next d)) =
    ((elemAfter? d inner).map f).or (some anchor) := by
  rw [hp.next (h.mem hd)]
  have hnd := hp.nodup_code c
  rcases h with heq | ⟨r, rest, heq, -, hr, hrest⟩
  · rw [heq]
    cases elemAfter? d inner <;> rfl
  · rw [heq, hrest (List.ne_nil_of_mem hd)] at hnd ⊢
    rw [elemAfter?_append_left (List.nodup_append.mp hnd).1 hd]
    cases elemAfter? d inner with
    | none => simp [land, hr]
    | some y => rfl

end Shape

namespace Spliced

variable {p q : Program} {nop k d : InstrId} {inner : List InstrId}
  (h : Spliced b c call anchor nop inner f p q) (hp : p.WellLinked)
  (hcall : call ∈ p.code b) (hnext : p.next call = some anchor)

include h hp hcall hnext

/-- Where the code of the caller is cut. -/
theorem cut : ∃ pre post, p.code b = pre ++ call :: anchor :: post ∧
    q.code b = pre ++ (nop :: inner.map f) ++ anchor :: post := by
  rw [hp.next hcall] at hnext
  obtain ⟨pre, post, hcut⟩ :=
    (elemAfter?_eq_some_iff (hp.nodup_code b)).mp hnext
  exact ⟨pre, post, hcut, by rw [h.code _ _ hcut]⟩

/-- The nop is in the new body. -/
theorem nop_mem : nop ∈ q.code b := by
  obtain ⟨pre, post, -, hq⟩ := h.cut hp hcall hnext
  rw [hq]
  simp

/-- The copies are in the new body. -/
theorem copy_mem (hd : d ∈ inner) : f d ∈ q.code b := by
  obtain ⟨pre, post, -, hq⟩ := h.cut hp hcall hnext
  rw [hq]
  simp only [List.mem_append, List.mem_cons, List.mem_map]
  exact Or.inl (Or.inr (Or.inr ⟨d, hd, rfl⟩))

/-- Everything else of the caller is in the new body. -/
theorem old_mem (hk : k ∈ p.code b) (hkc : k ≠ call) : k ∈ q.code b := by
  obtain ⟨pre, post, hcut, hq⟩ := h.cut hp hcall hnext
  rw [hcut] at hk
  rw [hq]
  simp only [List.mem_append, List.mem_cons] at hk ⊢
  rcases hk with hk | hk | hk
  · exact Or.inl (Or.inl hk)
  · exact absurd hk hkc
  · exact Or.inr hk

/-- What is in the new body was there, or is the nop or a copy. -/
theorem mem_cases (hk : k ∈ q.code b) :
    (k ∈ p.code b ∧ k ≠ call) ∨ k = nop ∨ ∃ d ∈ inner, k = f d := by
  obtain ⟨pre, post, hcut, hq⟩ := h.cut hp hcall hnext
  have hnd := hp.nodup_code b
  rw [hcut] at hnd ⊢
  rw [hq] at hk
  simp only [List.mem_append, List.mem_cons, List.mem_map] at hk ⊢
  rcases hk with (hk | hk | ⟨d, hd, rfl⟩) | hk
  · refine Or.inl ⟨Or.inl hk, ?_⟩
    rintro rfl
    exact List.disjoint_of_nodup_append hnd hk List.mem_cons_self
  · exact Or.inr (Or.inl hk)
  · exact Or.inr (Or.inr ⟨d, hd, rfl⟩)
  · refine Or.inl ⟨Or.inr (Or.inr hk), ?_⟩
    rintro rfl
    exact (List.nodup_cons.mp (List.nodup_append.mp hnd).2.1).1
      (List.mem_cons.mpr hk)

/-- The nop leads to the code of the callee. -/
theorem next_nop : q.next nop = some (land anchor f (p.first? c)) := by
  obtain ⟨pre, post, -, hq⟩ := h.cut hp hcall hnext
  have hnd := h.linked.nodup_code b
  rw [h.linked.next (h.nop_mem hp hcall hnext), hq]
  rw [hq, List.append_assoc] at hnd
  have hout : nop ∉ pre :=
    fun hmem => List.disjoint_of_nodup_append hnd hmem List.mem_cons_self
  rw [List.append_assoc, List.cons_append, elemAfter?_cut hout]
  exact h.shape.land_first hp post

/-- A copy leads to the copy of what follows. -/
theorem next_copy (hd : d ∈ inner) :
    q.next (f d) = some (land anchor f (p.next d)) := by
  obtain ⟨pre, post, -, hq⟩ := h.cut hp hcall hnext
  have hnd := h.linked.nodup_code b
  rw [h.linked.next (h.copy_mem hp hcall hnext hd), hq, h.shape.land_next hp hd]
  rw [hq] at hnd
  obtain ⟨hfront, -, hsep⟩ := List.nodup_append.mp hnd
  obtain ⟨-, hcopies, hsep'⟩ := List.nodup_append.mp hfront
  have hfd : f d ∈ inner.map f := List.mem_map_of_mem hd
  have hpre : f d ∉ pre :=
    fun hmem => hsep' _ hmem _ (List.mem_cons_of_mem _ hfd) rfl
  have hnop : nop ≠ f d := fun heq => (List.nodup_cons.mp hcopies).1 (heq ▸ hfd)
  have hinj : ∀ y ∈ inner, f y = f d → y = d :=
    fun y hy => List.inj_on_of_nodup_map (List.nodup_cons.mp hcopies).2 hy hd
  rw [List.append_assoc, elemAfter?_append_right hpre, List.cons_append,
    elemAfter?, if_neg hnop, elemAfter?_append_left
    (List.nodup_cons.mp hcopies).2 hfd, elemAfter?_map hinj]
  rfl

/-- Everything else leads where it did, the nop standing for the call. -/
theorem next_old (hk : k ∈ p.code b) (hkc : k ≠ call) :
    q.next k = (p.next k).map (moving call nop) := by
  obtain ⟨pre, post, hcut, hq⟩ := h.cut hp hcall hnext
  have hndq := h.linked.nodup_code b
  have hnd := hp.nodup_code b
  rw [h.linked.next (h.old_mem hp hcall hnext hk hkc), hp.next hk, hcut, hq]
  rw [hq] at hndq
  rw [hcut] at hnd hk
  obtain ⟨hpre, hrest, hsep⟩ := List.nodup_append.mp hnd
  have hstay : ∀ a : Option InstrId, (∀ y ∈ a, y ≠ call) →
      a.map (moving call nop) = a := by
    intro a ha
    cases a with
    | none => rfl
    | some y => rw [Option.map_some, moving_of_ne (ha y rfl)]
  rcases List.mem_append.mp hk with hk | hk
  · rw [List.append_assoc, elemAfter?_append_left hpre hk,
      elemAfter?_append_left hpre hk]
    cases hy : elemAfter? k pre with
    | none => simp [moving_self]
    | some y =>
        have hyc : y ≠ call := fun hyc =>
          hsep y (mem_of_elemAfter? hy) call List.mem_cons_self hyc
        simp [moving_of_ne hyc]
  · have hk' : k ∈ anchor :: post := (List.mem_cons.mp hk).resolve_left hkc
    have hpre' : k ∉ pre := fun hmem => hsep k hmem k hk rfl
    have hfront : k ∉ pre ++ (nop :: inner.map f) :=
      fun hmem => List.disjoint_of_nodup_append hndq hmem hk'
    have hskip :
        elemAfter? k (call :: anchor :: post) = elemAfter? k (anchor :: post) :=
      if_neg (Ne.symm hkc)
    rw [elemAfter?_append_right hfront, elemAfter?_append_right hpre', hskip]
    refine (hstay _ fun y hy hyc => ?_).symm
    rw [hyc] at hy
    exact (List.nodup_cons.mp hrest).1 (mem_of_elemAfter? hy)

/-- The first instruction is the same, the nop standing for the call. -/
theorem first?_eq : q.first? b = (p.first? b).map (moving call nop) := by
  obtain ⟨pre, post, hcut, hq⟩ := h.cut hp hcall hnext
  have hnd := hp.nodup_code b
  rw [h.linked.first?, hp.first?, hq, hcut]
  rw [hcut] at hnd
  cases pre with
  | nil => simp [moving_self]
  | cons y pre =>
      have hyc : y ≠ call :=
        fun hyc => (List.nodup_cons.mp hnd).1 (by simp [hyc])
      simp [moving_of_ne hyc]

/-! ### Where control goes in the new code -/

/-- The nop leads nowhere else. -/
theorem leads_nop {a : Option InstrId} (hleads : Leads q nop a) :
    a = some (land anchor f (p.first? c)) := by
  cases hleads with
  | falls => exact h.next_nop hp hcall hnext
  | jumps hbr =>
      rw [Instr.isBranch, h.isNop] at hbr
      cases hbr

/-- What was in the caller leads where it did. -/
theorem leads_old {a : Option InstrId} (hclosed : p.Closed b)
    (hk : k ∈ p.code b) (hkc : k ≠ call) (hleads : Leads q k a) :
    ∃ c, Leads p k c ∧ a = c.map (moving call nop) := by
  have hold := h.old k hk hkc
  refine leads_map hold.op (h.next_old hp hcall hnext hk hkc)
    (fun hbr => ?_) hleads
  obtain ⟨t, -, ht⟩ := hclosed k hk hbr
  refine ⟨t, _, ht, ?_, rfl⟩
  have htarget := hold.target hbr
  rwa [show (p.instr k).target? = some t from ht] at htarget

/-- A copy leads to where its original leads to, or it stands for a return and
leads to the instruction behind the call. -/
theorem leads_copy {a : Option InstrId} (hd : d ∈ inner)
    (hleads : Leads q (f d) a) :
    (∃ c, Leads p d c ∧ a = some (land anchor f c)) ∨
    (p.instr d).kind = .ret ∧ a = some anchor := by
  have hcopy := h.copy d hd
  by_cases hret : (p.instr d).kind = .ret
  · refine Or.inr ⟨hret, ?_⟩
    cases hleads with
    | falls hfalls =>
        rw [Instr.fallsThrough, hcopy.kind_of_ret hret] at hfalls
        cases hfalls
    | jumps _ ht => exact ht.symm.trans (hcopy.of_ret hret).2
  · have hkind := hcopy.kind hret
    refine Or.inl ?_
    cases hleads with
    | falls hfalls =>
        rw [Instr.fallsThrough, hkind] at hfalls
        exact ⟨_, .falls hfalls, h.next_copy hp hcall hnext hd⟩
    | jumps hbr ht =>
        have hbr : (p.instr d).isBranch = true := by
          rw [Instr.isBranch, Opcode.isBranch] at hbr ⊢
          rwa [show (p.instr d).op.kind = (q.instr (f d)).op.kind
            from hkind.symm]
        obtain ⟨t, ht', heq⟩ :=
          Option.map_eq_some_iff.mp ((hcopy.of_branch hbr).2.symm.trans ht)
        exact ⟨some t, .jumps hbr ht', by rw [← heq]; rfl⟩

end Spliced

end Inline

end Bytecode
