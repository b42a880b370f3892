import Bytecode.Proofs.Firing

/-!
# Taking in the body of a callee

The copy loop of the inliner goes through the instructions of the callee.  Each
round links a copy in front of the anchor and hands it the branches that wait
for the original; a return in last position hands them to the anchor instead.
`CopyRun` is the loop as a relation between editor states, one rule for each
kind of round, and `TakesIn` the whole step from the call to the copied body.  A
callee whose slots are numbered below zero can stop the loop half-way; nothing
is said about the state that is left then.
-/

namespace Bytecode

/-- The forms of a direct access. -/
theorem Access.forms_of_direct {l : Local} {base short long : UInt8}
    {op : Opcode} {o : Operand}
    (h : encode.direct l base short long = some (op, o)) :
    (∃ n : Nat, n < 4 ∧ l.index = n ∧ op = ⟨base + n.toUInt8⟩) ∨
    (op = ⟨short⟩ ∨ op = ⟨long⟩) ∧ o = .slot l := by
  rw [encode.direct] at h
  split at h
  · cases h
  · split at h
    · cases h
      exact Or.inl ⟨l.index.toNat, by omega, by omega, rfl⟩
    · split at h
      · cases h
        exact Or.inr ⟨Or.inl rfl, rfl⟩
      · cases h
        exact Or.inr ⟨Or.inr rfl, rfl⟩

/-- The role of an access is the same in all its forms. -/
theorem Access.kind_of_encode {a : Access} {l : Local} {op : Opcode}
    {o : Operand} (h : a.encode l = some (op, o)) :
    op.kind.access? = some a := by
  cases a with
  | address =>
      rw [encode] at h
      split at h
      · cases h
        rfl
      · cases h
        rfl
  | load =>
      rcases forms_of_direct h with ⟨n, hn, -, rfl⟩ | ⟨rfl | rfl, -⟩
      · interval_cases n <;> rfl
      · rfl
      · rfl
  | store =>
      rcases forms_of_direct h with ⟨n, hn, -, rfl⟩ | ⟨rfl | rfl, -⟩
      · interval_cases n <;> rfl
      · rfl
      · rfl

/-- An access addresses the slot it has been made for. -/
theorem Access.localIndex?_of_encode {a : Access} {l : Local} {x : Instr}
    (h : a.encode l = some (x.op, x.operand)) :
    x.localIndex? = some l.index := by
  have haccess : x.access? = some a := kind_of_encode h
  have hplain : Instr.embeddedSlot? x.op = none → x.operand = .slot l →
      x.localIndex? = some l.index := by
    intro hop ho
    simp [Instr.localIndex?, haccess, hop, ho, Operand.slot?]
  have hdirect : ∀ {n : Int}, Instr.embeddedSlot? x.op = some n → l.index = n →
      x.localIndex? = some l.index := by
    intro n hop hn
    simp [Instr.localIndex?, haccess, hop, hn]
  cases a with
  | address =>
      rw [encode] at h
      split at h
      · obtain ⟨hop, ho⟩ := Prod.mk.inj (Option.some.inj h)
        exact hplain (by rw [← hop]; rfl) ho.symm
      · obtain ⟨hop, ho⟩ := Prod.mk.inj (Option.some.inj h)
        exact hplain (by rw [← hop]; rfl) ho.symm
  | load =>
      rcases forms_of_direct h with ⟨n, hn, hl, hop⟩ | ⟨hop | hop, ho⟩
      · refine hdirect ?_ hl
        rw [hop]
        interval_cases n <;> rfl
      · exact hplain (by rw [hop]; rfl) ho
      · exact hplain (by rw [hop]; rfl) ho
  | store =>
      rcases forms_of_direct h with ⟨n, hn, hl, hop⟩ | ⟨hop | hop, ho⟩
      · refine hdirect ?_ hl
        rw [hop]
        interval_cases n <;> rfl
      · exact hplain (by rw [hop]; rfl) ho
      · exact hplain (by rw [hop]; rfl) ho

/-- A kind is known by how it gets at slots. -/
theorem Kind.eq_of_access? {k k' : Kind} {a : Access} (h : k.access? = some a)
    (h' : k'.access? = some a) : k' = k := by
  cases k <;> cases h <;> cases k' <;> cases h' <;> rfl

namespace Inline

open Editing

variable {s s' : Editing} {x : Instr} {base : Nat} {anchor i : InstrId}
  {copies : List (InstrId × InstrId)} {op : Opcode} {o : Operand}

/-- The copy of an instruction, by what the instruction is. -/
inductive CopyOf (x : Instr) (anchor : InstrId)
    (copies : List (InstrId × InstrId)) : Opcode → Operand → Prop
  | exit : x.kind = .ret → CopyOf x anchor copies .br (.target anchor)
  | backward {t c : InstrId} : x.isBranch = true → x.target? = some t →
      copies.lookup t = some c → CopyOf x anchor copies x.op (.target c)
  | forward : x.isBranch = true → (∀ t ∈ x.target?, copies.lookup t = none) →
      CopyOf x anchor copies x.op x.operand
  | access {op : Opcode} {o : Operand} : x.access?.isSome → op.kind = x.kind →
      CopyOf x anchor copies op o
  | plain : x.kind ≠ .ret → x.isBranch = false →
    CopyOf x anchor copies x.op x.operand

/-- A copy that is made is a copy. -/
theorem copyOf_ok (h : copyOf s x base anchor copies = .ok (op, o)) :
    CopyOf x anchor copies op o := by
  rw [copyOf] at h
  split at h
  · next hret =>
      cases h
      exact .exit hret
  · next hret =>
      split at h
      · next hbr =>
          split at h
          · next c hc =>
              cases h
              obtain ⟨t, ht, hlook⟩ := Option.bind_eq_some_iff.mp hc
              exact .backward hbr ht hlook
          · next hnone =>
              cases h
              exact .forward hbr (Option.bind_eq_none_iff.mp hnone)
      · next hbr =>
          have hplain : CopyOf x anchor copies x.op x.operand :=
            .plain hret (by simpa using hbr)
          simp only at h
          split at h
          · next a l ha _ =>
              split at h
              · next y hy =>
                  cases h
                  exact .access (by rw [ha]; rfl)
                    (Kind.eq_of_access? ha (Access.kind_of_encode hy))
              · cases h
          · cases h
            exact hplain

/-- An access is no branch. -/
theorem isBranch_of_access {a : Access} (h : x.access? = some a) :
    x.isBranch = false := by
  rw [Instr.access?] at h
  rw [Instr.isBranch, Opcode.isBranch]
  change x.kind.isBranch = false
  cases hk : x.kind <;> rw [hk] at h <;> first | rfl | cases h

/-- The access has no form for its slot, slots being counted from `base` on. -/
def Formless (slots : Body) (base : Nat) (x : Instr) : Prop :=
  ∃ a n l, x.access? = some a ∧ x.localIndex? = some n ∧
    slots.localAt? (base + n) = some l ∧ a.encode l = none

/-- Whether an instruction has a form depends on its opcode and operand. -/
theorem Formless.congr {slots : Body} {y : Instr} (h : Formless slots base y)
    (hop : y.op = x.op) (ho : x.isBranch = false → y.operand = x.operand) :
    Formless slots base x := by
  obtain ⟨a, n, l, ha, hn, hl, hnone⟩ := h
  have hx : x.access? = y.access? := by
    rw [Instr.access?, Instr.access?, Instr.kind, Instr.kind, hop]
  rw [← hx] at ha
  refine ⟨a, n, l, ha, ?_, hl, hnone⟩
  rw [← hn, Instr.localIndex?, Instr.localIndex?, hx, hop,
    ho (isBranch_of_access ha)]

/-- Only an access without a form cannot be copied. -/
theorem copyOf_error {e : Fault}
    (h : copyOf s x base anchor copies = .error e) :
    e = .absent ∧ Formless (s.program.body s.editor.body).frame base x := by
  rw [copyOf] at h
  split at h
  · cases h
  · split at h
    · split at h
      · cases h
      · cases h
    · simp only at h
      split at h
      · next a l ha hplace =>
          split at h
          · cases h
          · next hnone =>
              cases h
              obtain ⟨n, hn, hl⟩ := Option.bind_eq_some_iff.mp hplace
              exact ⟨rfl, a, n, l, ha, hn, hl, hnone⟩
      · cases h

/-- The program after a copy of `i` has been linked in front of the anchor and
has taken over the branches to `i`. -/
def copied (p : Program) (b : BodyId) (anchor i : InstrId) (op : Opcode)
    (o : Operand) : Program :=
  (p.withNew b anchor op o).redirect b (some i) (some (p.newInstr op o).1)

/-- The copy loop that comes to its end. -/
inductive CopyRun (base : Nat) (anchor : InstrId) :
    List InstrId → List (InstrId × InstrId) → Editing → Editing → Prop
  | stop {copies : List (InstrId × InstrId)} {s : Editing} : s.Sound →
      CopyRun base anchor [] copies s s
  | exit {i : InstrId} {copies : List (InstrId × InstrId)} {s s' : Editing} :
      (s.program.instr i).kind = .ret → Edited s s' →
      s'.program = s.program.redirect s.editor.body (some i) (some anchor) →
      CopyRun base anchor [i] copies s s'
  | copy {i : InstrId} {rest : List InstrId} {copies : List (InstrId × InstrId)}
    {s s₁ s' : Editing} {op : Opcode} {o : Operand} :
    (rest = [] → (s.program.instr i).kind ≠ .ret) → copyOf s
    (s.program.instr i) base anchor copies = .ok (op, o) → Edited s s₁ →
    s₁.program = copied s.program s.editor.body anchor i op o →
    CopyRun base anchor rest ((i, (s.program.newInstr op o).1) ::
      copies) s₁ s' → CopyRun base anchor (i :: rest) copies s s'

/-- Copying code is an edit. -/
theorem CopyRun.edited {code : List InstrId}
    (h : CopyRun base anchor code copies s s') : Edited s s' := by
  induction h with
  | stop hs => exact .refl hs
  | exit _ hs _ => exact hs
  | copy _ _ hs _ _ ih => exact hs.trans ih

section Copied

variable {p : Program} {b : BodyId} (h : p.WellLinked)
  (hanchor : anchor ∈ p.code b)

include h hanchor

/-- A copy stands in front of the anchor. -/
theorem code_copied :
    (copied p b anchor i op o).code b =
      Program.placed (some anchor) (p.newInstr op o).1 (p.code b) := by
  rw [copied, Program.code_redirect, Program.code_withNew h hanchor]

/-- The instructions with a copy. -/
theorem mem_code_copied {k : InstrId} : k ∈ (copied p b anchor i op o).code b ↔
    k = (p.newInstr op o).1 ∨ k ∈ p.code b := by
  rw [copied, Program.code_redirect, Program.mem_code_withNew h hanchor]

/-- A copy leaves slots. -/
theorem sameFrames_copied : Program.SameFrames p (copied p b anchor i op o) :=
  (Program.sameFrames_withNew h hanchor op o).trans
    (Program.sameFrames_redirect _ _ _)

end Copied

/-- The copy loop changes nothing but code. -/
theorem CopyRun.sameFrames {code : List InstrId}
    (h : CopyRun base anchor code copies s s') (hs : s.Sound)
    (hanchor : anchor ∈ s.code) : Program.SameFrames s.program s'.program := by
  induction h with
  | stop => exact .refl _
  | exit _ _ hprog =>
      rw [hprog]
      exact Program.sameFrames_redirect _ _ _
  | @copy i rest copies s s₁ s' op o _ _ hs₁ hprog _ ih =>
      have hanchor₁ : anchor ∈ s₁.code := by
        rw [Editing.code, hs₁.body, hprog, mem_code_copied hs.linked hanchor]
        exact Or.inr hanchor
      have hcopied : Program.SameFrames s.program s₁.program := by
        rw [hprog]
        exact sameFrames_copied hs.linked hanchor
      exact hcopied.trans (ih hs₁.sound hanchor₁)

/-- The copy loop comes to its end, or stops at an access without a form. -/
theorem copyCode_run (base : Nat) (code : List InstrId)
    (copies : List (InstrId × InstrId)) (h : s.Sound)
    (hanchor : anchor ∈ s.code) (hdirty : s.editor.dirty = true)
    (hcode : ∀ i ∈ code, s.program.Has i) :
    ∃ s', copyCode base anchor code copies s = (.error .absent, s') ∧
      (∃ d ∈ code, Formless
        (s.program.body s.editor.body).frame base (s.program.instr d)) ∨
      copyCode base anchor code copies s = (.ok (), s') ∧
      CopyRun base anchor code copies s s' ∧ s'.editor.dirty = true := by
  induction code generalizing s copies with
  | nil => exact ⟨s, Or.inr ⟨rfl, .stop h, hdirty⟩⟩
  | cons i rest ih =>
      rw [copyCode]
      split
      · next hlast =>
          obtain ⟨hrest, hret⟩ : rest = [] ∧
              (s.program.instr i).kind = .ret := by simpa using hlast
          subst hrest
          have hs := edited_retargetAll h (some i) (some anchor)
          obtain ⟨x, n, -, -, heq⟩ := retargetAll_eq h (some i) (some anchor)
          rw [heq] at hs ⊢
          exact ⟨_, Or.inr ⟨rfl, .exit hret hs rfl, by simp [hdirty]⟩⟩
      · next hlast =>
        have hmore : rest = [] → (s.program.instr i).kind ≠ .ret := by
          intro hrest hret
          simp [hrest, hret] at hlast
        split
        · next e herr =>
            obtain ⟨rfl, hnone⟩ := copyOf_error herr
            exact ⟨s, Or.inl ⟨rfl, i, List.mem_cons_self, hnone⟩⟩
        · next op o hcopy =>
            obtain ⟨s₁, heq₁, hs₁, hprog₁⟩ := changed_insert h hanchor op o
            have hs₂ := edited_retargetAll hs₁.sound (some i)
              (some (s.program.newInstr op o).1)
            obtain ⟨x, n, -, -, heq₂⟩ :=
              retargetAll_eq hs₁.sound (some i)
                (some (s.program.newInstr op o).1)
            rw [heq₂] at hs₂
            have hanchor₂ : anchor ∈
                (s₁.program.redirect s₁.editor.body (some i)
                  (some (s.program.newInstr op o).1)).code s₁.editor.body := by
              rw [Program.code_redirect, hprog₁, hs₁.body,
                Program.mem_code_withNew h.linked hanchor]
              exact Or.inr hanchor
            have hs₃ := hs₁.toEdited.trans hs₂
            obtain ⟨s', hrun⟩ := ih ((i, (s.program.newInstr op o).1) :: copies)
              hs₂.sound hanchor₂ (by simp [hs₁.dirty])
              fun k hk => hs₃.changed.has (hcode k (List.mem_cons_of_mem _ hk))
            refine ⟨s', ?_⟩
            simp only [heq₁]
            have hopen : s₁.retargetAll (some i) (some (s.newInstr op o).1) =
                _ := heq₂
            rw [hopen]
            have hprog₂ : s₁.program.redirect s₁.editor.body (some i)
                  (some (s.program.newInstr op o).1) =
                copied s.program s.editor.body anchor i op o := by
              rw [hprog₁, hs₁.body, copied]
            rcases hrun with ⟨hstop, d, hd, hnone⟩ | ⟨heq, hrun, hdirty'⟩
            · have hhas := hcode d (List.mem_cons_of_mem _ hd)
              have hframes : Program.SameFrames s.program
                  (copied s.program s.editor.body anchor i op o) :=
                sameFrames_copied h.linked hanchor
              refine Or.inl ⟨hstop, d, List.mem_cons_of_mem _ hd, ?_⟩
              rw [← hframes s.editor.body, ← hprog₂, ← hs₃.body]
              exact hnone.congr (hs₃.changed.op d hhas)
                (hs₃.changed.operand d hhas)
            · exact Or.inr ⟨heq, .copy hmore hcopy hs₃ hprog₂ hrun, hdirty'⟩

/-! ### The slots -/

/-- The slots of a list, numbered from `base` on. -/
def slotsFrom : Nat → List Local → List Local
  | _, [] => []
  | base, l :: ls => ⟨base, l.type, l.name⟩ :: slotsFrom (base + 1) ls

/-- Slots are numbered from a base on. -/
theorem getElem?_slotsFrom (base : Nat) (ls : List Local) (k : Nat) :
    (slotsFrom base ls)[k]? = ls[k]?.map fun l =>
    ⟨(base + k : Nat), l.type, l.name⟩ := by
  induction ls generalizing base k with
  | nil => simp [slotsFrom]
  | cons l ls ih =>
      cases k with
      | zero => rfl
      | succ k =>
          rw [slotsFrom, List.getElem?_cons_succ, List.getElem?_cons_succ, ih]
          congr
          funext l
          congr 1
          omega

/-- Slots have been declared, and nothing else has changed. -/
structure SlotsAdded (ls : List Local) (s s' : Editing) :
    Prop extends Edited s s' where
  slots : s'.program.body s.editor.body = { s.program.body s.editor.body with
    locals := (s.program.body s.editor.body).locals ++
      (slotsFrom (s.program.body s.editor.body).locals.size ls).toArray }
  instrs : s'.program.instrs = s.program.instrs
  codes : ∀ c, s'.program.code c = s.program.code c
  dirty : s.editor.dirty = true → s'.editor.dirty = true
  fromZero : s.program.SlotsFromZero → s'.program.SlotsFromZero

/-- Adding locals one after the other adds all of them. -/
theorem slotsAdded (h : s.Sound) (ls : List Local) :
    SlotsAdded ls s (ls.foldl (fun s l => (s.addLocal l.type l.name).2) s) := by
  induction ls generalizing s with
  | nil => exact ⟨.refl h, by simp [slotsFrom], rfl, fun _ => rfl, id, id⟩
  | cons l ls ih =>
      have hs := edited_addLocal h l.type l.name
      have hrest := ih hs.sound
      have hbody : ∀ c, (s.addLocal l.type l.name).2.program.body c = _ :=
        Program.body_addLocal l.type l.name h.present
      refine ⟨hs.trans hrest.toEdited, ?_, hrest.instrs, fun c => ?_,
        fun _ => hrest.dirty rfl,
        fun hslots => hrest.fromZero (hslots.addLocal h.present l.type l.name)⟩
      · have hslots := hrest.slots
        rw [hs.body, hbody, if_pos rfl] at hslots
        rw [List.foldl_cons, hslots]
        simp [slotsFrom, Program.addLocal]
      · rw [List.foldl_cons, hrest.codes c, hs.sound.linked.code,
          h.linked.code, hbody]
        split
        · next hc => rw [hc]
        · rfl

/-- New slots leave instructions. -/
theorem SlotsAdded.instr {ls : List Local} (h : SlotsAdded ls s s')
    (k : InstrId) : s'.program.instr k = s.program.instr k := by
  rw [Program.instr, h.instrs]
  rfl

/-- New slots leave the code. -/
theorem SlotsAdded.code {ls : List Local} (h : SlotsAdded ls s s') :
    s'.code = s.code := by
  rw [Editing.code, h.body, h.codes]

/-- The body is empty or returns at once. -/
def AtOnce (p : Program) (b : BodyId) : Prop :=
  ∀ i ∈ (p.code b).head?, (p.instr i).kind = .ret

instance (p : Program) (b : BodyId) : Decidable (AtOnce p b) :=
  inferInstanceAs (Decidable (∀ i ∈ (p.code b).head?, (p.instr i).kind = .ret))

/-- What a body has besides its code, with slots like those of another body
behind its own. -/
def widened (x y : Body) : Body :=
  { x with code := [], locals := x.locals ++
             (slotsFrom x.locals.size y.locals.toList).toArray }

/-- The body `b` has been copied in front of the anchor; there was nothing to
copy if it is empty or returns at once. -/
inductive TakesIn (b : BodyId) (anchor : InstrId) (s s' : Editing) : Prop
  | nothing : AtOnce s.program b → s' = s → TakesIn b anchor s s'
  | copies {s₁ : Editing} : SlotsAdded (s.program.body b).locals.toList s s₁ →
    CopyRun (s.program.body s.editor.body).locals.size anchor (s.program.code b)
    [] s₁ s' → ¬ AtOnce s.program b → TakesIn b anchor s s'

/-- An access in the body `c` has no form for its slot in the body `b`. -/
def Blocked (p : Program) (b c : BodyId) : Prop :=
  ¬ AtOnce p c ∧ ∃ d ∈ p.code c,
    Formless (widened (p.body b) (p.body c)) (p.body b).locals.size (p.instr d)

/-- Where slots are numbered from zero, every access has a form. -/
theorem Blocked.low {p : Program} {b c : BodyId} (h : Blocked p b c) :
    ¬ p.SlotsFromZero := by
  obtain ⟨-, d, -, a, n, l, -, -, hl, hnone⟩ := h
  have hlow := Access.lt_zero_of_encode hnone
  intro hslots
  rcases Array.mem_append.mp (Body.mem_of_localAt? hl) with hold | hnew
  · have hzero := hslots b l hold
    omega
  · obtain ⟨k, hk⟩ := List.mem_iff_getElem?.mp (List.mem_toArray.mp hnew)
    rw [getElem?_slotsFrom] at hk
    obtain ⟨y, -, rfl⟩ := Option.map_eq_some_iff.mp hk
    exact absurd hlow (not_lt.mpr (Int.natCast_nonneg _))

/-- Taking code in is an edit. -/
theorem TakesIn.edited {b : BodyId} (hs : s.Sound) (h : TakesIn b anchor s s') :
    Edited s s' := by
  cases h with
  | nothing _ heq =>
      rw [heq]
      exact .refl hs
  | copies hslots hrun => exact hslots.toEdited.trans hrun.edited

/-- A body is taken in, unless something in it blocks that. -/
theorem copyBody_takesIn {b : BodyId} (h : s.Sound) (hanchor : anchor ∈ s.code)
    (hdirty : s.editor.dirty = true) :
    ∃ s', copyBody b anchor s = (.error .absent, s') ∧
      Blocked s.program s.editor.body b ∨ copyBody b anchor s = (.ok (), s') ∧
      TakesIn b anchor s s' ∧ s'.editor.dirty = true := by
  rw [copyBody]
  cases hcode : s.program.code b with
  | nil =>
      exact ⟨s, Or.inr ⟨rfl, .nothing (by simp [AtOnce, hcode]) rfl, hdirty⟩⟩
  | cons i rest =>
      simp only
      split
      · next hempty =>
          have hret : (s.program.instr i).kind = .ret := by
            have hsize : s.program.size b ≠ 0 := by
              rw [h.linked.size, hcode]
              simp
            simpa [hsize] using hempty
          refine ⟨s, Or.inr ⟨rfl, .nothing ?_ rfl, hdirty⟩⟩
          simpa [AtOnce, hcode] using hret
      · next hempty =>
        have honce : ¬ AtOnce s.program b := by
          intro hret
          exact hempty (by simp [hret i (by rw [hcode]; rfl)])
        rw [← Array.foldl_toList]
        have hslots := slotsAdded h (s.program.body b).locals.toList
        have hanchor₁ : anchor ∈ ((s.program.body b).locals.toList.foldl
            (fun s l => (s.addLocal l.type l.name).2) s).code := by
          rw [Editing.code, hslots.body, hslots.codes]
          exact hanchor
        obtain ⟨s', hrun⟩ :=
          copyCode_run (s.program.body s.editor.body).locals.size (i :: rest) []
          hslots.sound hanchor₁ (hslots.dirty hdirty)
          fun k hk => hslots.changed.has (h.linked.has (by rwa [hcode]))
        refine ⟨s', ?_⟩
        rcases hrun with ⟨hstop, d, hd, hnone⟩ | ⟨heq, hrun, hdirty'⟩
        · refine Or.inl ⟨hstop, honce, d, by rwa [hcode], ?_⟩
          rw [hslots.instr, hslots.body, hslots.slots] at hnone
          exact hnone
        · exact Or.inr
            ⟨heq, .copies hslots (by rw [hcode]; exact hrun) honce, hdirty'⟩

end Inline

end Bytecode
