import Bytecode.Proofs.CodeList

/-!
# Well linked programs

The code of the bodies and the owners of the instructions are two views of the
same links.  A program is well linked when they say the same: an instruction
stands in the code of a body, once, exactly when the body is its owner.  The
primitives that link, unlink and exchange single instructions keep the two
views together, and each is described here by what it does to the code of the
body and to the instruction it moves.

An edit of one body leaves the others alone.  `ChangedIn b p q` says that `q`
differs from `p` at most in the body `b`, and `AgreeOn c p q` that the two have
the same body `c` with the same instructions in it.
-/

namespace Bytecode

namespace Program

variable {p q r : Program} {b c : BodyId} {i j k : InstrId}

/-- The instruction has been made. -/
def Has (p : Program) (i : InstrId) : Prop := i.index < p.instrs.size

/-- Code and owners say the same, and no edit has been broken off. -/
structure WellLinked (p : Program) : Prop where
  unbroken : p.chain = none
  nodup : ∀ b, (p.body b).code.Nodup
  owned : ∀ b i, i ∈ (p.body b).code ↔ p.owner i = some b

/-! ### Looking up after a change -/

/-- What is read of an array after one element has been changed. -/
private theorem getD_modify {α : Type} (a : Array α) (n m : Nat) (f : α → α)
    (d : α) :
    (a.modify n f).getD m d = if m = n ∧ n < a.size then f (a.getD n d) else
        a.getD m d := by
  simp only [Array.getD_eq_getD_getElem?, Array.getElem?_modify]
  by_cases hmn : m = n
  · subst hmn
    by_cases hm : m < a.size
    · simp [hm]
    · simp [hm]
  · simp [hmn, Ne.symm hmn]

/-- Instructions are told apart by their numbers. -/
private theorem instrId_eq_iff {i k : InstrId} : k.index = i.index ↔ k = i := by
  cases i; cases k; simp

/-- Bodies are told apart by their numbers. -/
private theorem bodyId_eq_iff {b c : BodyId} : c.index = b.index ↔ c = b := by
  cases b; cases c; simp

/-- One instruction is changed and the others stay. -/
theorem instr_modifyInstr (hi : p.Has i) (f : Instr → Instr) (k : InstrId) :
    (p.modifyInstr i f).instr k = if k = i then f (p.instr i) else
        p.instr k := by
  have hi' : i.index < p.instrs.size := hi
  simp only [instr, modifyInstr, getD_modify, hi', and_true, instrId_eq_iff]

/-- One body is changed and the others stay. -/
theorem body_modifyBody (hb : b.index < p.bodies.size) (f : Body → Body)
    (c : BodyId) :
    (p.modifyBody b f).body c = if c = b then f (p.body b) else p.body c := by
  simp only [body, modifyBody, getD_modify, hb, and_true, bodyId_eq_iff]

@[simp] theorem instr_modifyBody (f : Body → Body) :
    (p.modifyBody b f).instr i = p.instr i := rfl

@[simp] theorem body_modifyInstr (f : Instr → Instr) :
    (p.modifyInstr i f).body b = p.body b := rfl

@[simp] theorem chain_modifyBody (f : Body → Body) :
    (p.modifyBody b f).chain = p.chain := rfl

@[simp] theorem chain_modifyInstr (f : Instr → Instr) :
    (p.modifyInstr i f).chain = p.chain := rfl

@[simp] theorem methods_modifyBody (f : Body → Body) :
    (p.modifyBody b f).methods = p.methods := rfl

@[simp] theorem methods_modifyInstr (f : Instr → Instr) :
    (p.modifyInstr i f).methods = p.methods := rfl

@[simp] theorem size_instrs_modifyInstr (f : Instr → Instr) :
    (p.modifyInstr i f).instrs.size = p.instrs.size := by
  simp [modifyInstr]

@[simp] theorem size_bodies_modifyBody (f : Body → Body) :
    (p.modifyBody b f).bodies.size = p.bodies.size := by
  simp [modifyBody]

@[simp] theorem instrs_modifyBody (f : Body → Body) :
    (p.modifyBody b f).instrs = p.instrs := rfl

@[simp] theorem bodies_modifyInstr (f : Instr → Instr) :
    (p.modifyInstr i f).bodies = p.bodies := rfl

/-- Nothing is stored about an instruction that has not been made. -/
theorem instr_of_not_has (hi : ¬ p.Has i) : p.instr i = default := by
  have hi' : ¬ i.index < p.instrs.size := hi
  simp only [instr, Array.getD, hi', dite_false]

/-- An instruction that is in a body is one of the program. -/
theorem has_of_owner (hi : p.owner i = some b) : p.Has i := by
  by_contra h
  rw [owner, instr_of_not_has h] at hi
  cases hi

/-- A branch is an instruction of the program. -/
theorem has_of_isBranch (hi : (p.instr i).isBranch = true) : p.Has i := by
  by_contra h
  rw [instr_of_not_has h] at hi
  cases hi

/-- There are no more instructions than have been made. -/
theorem length_le_of_has {l : List InstrId} (hl : l.Nodup)
    (h : ∀ i ∈ l, p.Has i) : l.length ≤ p.instrs.size := by
  have hnd : (l.map InstrId.index).Nodup :=
    hl.map fun i j hij => by cases i; cases j; simpa using hij
  have hsub : l.map InstrId.index ⊆ List.range p.instrs.size := by
    intro n hn
    obtain ⟨i, hi, rfl⟩ := List.mem_map.mp hn
    exact List.mem_range.mpr (h i hi)
  simpa using (List.subperm_of_subset hnd hsub).length_le

/-- A program is determined by what it stores. -/
theorem ext_of_instr (hchain : q.chain = p.chain)
    (hmethods : q.methods = p.methods) (hbodies : q.bodies = p.bodies)
    (hsize : q.instrs.size = p.instrs.size)
    (hinstr : ∀ i, q.instr i = p.instr i) : q = p := by
  have hinstrs : q.instrs = p.instrs := by
    apply Array.ext hsize
    intro n hn hn'
    have h := hinstr ⟨n⟩
    simpa only [instr, Array.getD_eq_getD_getElem?,
      Array.getElem?_eq_getElem hn,
      Array.getElem?_eq_getElem hn', Option.getD_some] using h
  cases p
  cases q
  simp_all

/-! ### The primitives -/

/-- Takes an instruction out of a body. -/
def unlink (p : Program) (b : BodyId) (i : InstrId) : Program :=
  (p.modifyInstr i fun x => { x with owner := none }).modifyBody b fun x =>
    { x with code := x.code.erase i }

/-- Puts `j` in the place of `i`. -/
def swap (p : Program) (b : BodyId) (i j : InstrId) : Program :=
  (p.unlink b i).link b j ((p.body b).code.replace i j)

namespace WellLinked

/-- The code of a body is what its list says. -/
theorem code (h : p.WellLinked) (b : BodyId) : p.code b = (p.body b).code := by
  rw [Program.code, h.unbroken]

/-- The instructions of a body are those that say so. -/
theorem mem_code (h : p.WellLinked) : i ∈ p.code b ↔ p.owner i = some b := by
  rw [h.code]
  exact h.owned b i

/-- No instruction is in a body twice. -/
theorem nodup_code (h : p.WellLinked) (b : BodyId) : (p.code b).Nodup := by
  rw [h.code]
  exact h.nodup b

/-- The instructions of a body are instructions of the program. -/
theorem has (h : p.WellLinked) (hi : i ∈ p.code b) : p.Has i :=
  has_of_owner (h.mem_code.mp hi)

/-- The first instruction of a body. -/
theorem first? (h : p.WellLinked) (b : BodyId) :
    p.first? b = (p.code b).head? := by
  rw [Program.first?, h.code, h.unbroken]

/-- The size of a body is the length of its code. -/
theorem size (h : p.WellLinked) (b : BodyId) :
    p.size b = (p.code b).length := by
  rw [Program.size, h.code, h.unbroken]

/-- The next instruction is the next of the code. -/
theorem next (h : p.WellLinked) (hi : i ∈ p.code b) :
    p.next i = elemAfter? i (p.code b) := by
  rw [h.code, Program.next, h.unbroken]
  simp [h.mem_code.mp hi]

/-- The previous instruction is the previous of the code. -/
theorem prev (h : p.WellLinked) (hi : i ∈ p.code b) :
    p.prev i = elemBefore? i (p.code b) := by
  rw [h.code, Program.prev, h.unbroken]
  simp [h.mem_code.mp hi]

/-- An instruction is linked into one body only. -/
theorem body_unique (h : p.WellLinked) (hb : i ∈ p.code b) (hc : i ∈ p.code c) :
    c = b := by
  have hb := h.mem_code.mp hb
  have hc := h.mem_code.mp hc
  exact Option.some.inj (hc.symm.trans hb)

/-- Only a body that has been made holds code. -/
theorem present (h : p.WellLinked) (hi : i ∈ p.code b) :
    b.index < p.bodies.size := by
  by_contra hb
  rw [h.code, body, Array.getD, dif_neg hb] at hi
  cases hi

end WellLinked

/-- Only bodies and instructions that have been made need to be looked at. -/
theorem wellLinked_iff : p.WellLinked ↔ p.chain = none ∧
    (∀ n < p.bodies.size, (p.body ⟨n⟩).code.Nodup ∧
      ∀ i ∈ (p.body ⟨n⟩).code, p.owner i = some ⟨n⟩) ∧
    ∀ n < p.instrs.size, ∀ b ∈ p.owner ⟨n⟩, ⟨n⟩ ∈ (p.body b).code := by
  constructor
  · intro h
    exact ⟨h.unbroken, fun n _ => ⟨h.nodup ⟨n⟩, fun i hi =>
      (h.owned ⟨n⟩ i).mp hi⟩, fun n _ b hb => (h.owned b ⟨n⟩).mpr hb⟩
  · rintro ⟨hchain, hbodies, hinstrs⟩
    have hbody : ∀ b, (p.body b).code.Nodup ∧
        ∀ i ∈ (p.body b).code, p.owner i = some b := by
      intro b
      by_cases hb : b.index < p.bodies.size
      · exact hbodies b.index hb
      · rw [body, Array.getD, dif_neg hb]
        exact ⟨List.nodup_nil, fun i hi => by cases hi⟩
    exact ⟨hchain, fun b => (hbody b).1, fun b i => ⟨(hbody b).2 i, fun hi =>
      hinstrs i.index (has_of_owner hi) b hi⟩⟩

instance : Decidable (p.Has i) := inferInstanceAs (Decidable (_ < _))

instance : Decidable p.WellLinked := decidable_of_iff' _ wellLinked_iff

/-! ### Differing in one body only -/

/-- `p` and `q` have the same body `c`, with the same instructions in it. -/
structure AgreeOn (c : BodyId) (p q : Program) : Prop where
  body : q.body c = p.body c
  instr : ∀ i ∈ (p.body c).code, q.instr i = p.instr i

/-- `q` comes from `p` by changes inside the body `b` and by making
instructions. The opcode of an instruction never changes, and its operand only
if it is a branch. -/
structure ChangedIn (b : BodyId) (p q : Program) : Prop where
  methods : q.methods = p.methods
  bodies : q.bodies.size = p.bodies.size
  body : ∀ c, c ≠ b → q.body c = p.body c
  grown : p.instrs.size ≤ q.instrs.size
  instr : ∀ i c, p.owner i = some c → c ≠ b → q.instr i = p.instr i
  op : ∀ i, p.Has i → (q.instr i).op = (p.instr i).op
  operand : ∀ i, p.Has i → (p.instr i).isBranch = false →
    (q.instr i).operand = (p.instr i).operand

theorem AgreeOn.refl (c : BodyId) (p : Program) : AgreeOn c p p :=
  ⟨rfl, fun _ _ => rfl⟩

theorem AgreeOn.trans (h : AgreeOn c p q) (h' : AgreeOn c q r) :
    AgreeOn c p r where
  body := h'.body.trans h.body
  instr := fun i hi => (h'.instr i (by rwa [h.body])).trans (h.instr i hi)

theorem AgreeOn.symm (h : AgreeOn c p q) : AgreeOn c q p where
  body := h.body.symm
  instr := fun i hi => (h.instr i (by rwa [← h.body])).symm

theorem ChangedIn.refl (b : BodyId) (p : Program) : ChangedIn b p p :=
  ⟨rfl, rfl, fun _ _ => rfl, le_rfl, fun _ _ _ _ => rfl, fun _ _ => rfl,
    fun _ _ _ => rfl⟩

/-- No instruction is lost. -/
theorem ChangedIn.has (h : ChangedIn b p q) (hi : p.Has i) : q.Has i :=
  lt_of_lt_of_le hi h.grown

/-- Branches stay branches. -/
theorem ChangedIn.isBranch (h : ChangedIn b p q) (hi : p.Has i) :
    (q.instr i).isBranch = (p.instr i).isBranch := by
  rw [Instr.isBranch, h.op i hi, Instr.isBranch]

/-- Instructions keep their kind. -/
theorem ChangedIn.kind (h : ChangedIn b p q) (hi : p.Has i) :
    (q.instr i).kind = (p.instr i).kind := by
  rw [Instr.kind, h.op i hi, Instr.kind]

/-- Changes of one body one after the other. -/
theorem ChangedIn.trans (h : ChangedIn b p q) (h' : ChangedIn b q r) :
    ChangedIn b p r where
  methods := h'.methods.trans h.methods
  bodies := h'.bodies.trans h.bodies
  body := fun c hc => (h'.body c hc).trans (h.body c hc)
  grown := h.grown.trans h'.grown
  instr := by
    intro i c hi hc
    have hq := h.instr i c hi hc
    rw [h'.instr i c (by rwa [owner, hq]) hc, hq]
  op := fun i hi => (h'.op i (h.has hi)).trans (h.op i hi)
  operand := fun i hi hbr =>
    (h'.operand i (h.has hi) (by rwa [h.isBranch hi])).trans
      (h.operand i hi hbr)

/-- A change of one body leaves every other. -/
theorem ChangedIn.agreeOn (h : ChangedIn b p q) (hp : p.WellLinked)
    (hc : c ≠ b) : AgreeOn c p q where
  body := h.body c hc
  instr := fun i hi => h.instr i c ((hp.owned c i).mp hi) hc

/-- Methods stay as they are. -/
theorem ChangedIn.method (h : ChangedIn b p q) (m : MethodId) :
    q.method m = p.method m := by
  simp only [Program.method, h.methods]

/-- What holds of every body, and of one that has changed again, holds of every
body. -/
theorem ChangedIn.each {P : Program → BodyId → Prop} (h : ChangedIn b p q)
    (hp : p.WellLinked) (hagree : ∀ c, AgreeOn c p q → P p c → P q c)
    (hall : ∀ m c, (p.method m).body = some c → P p c) (hb : P q b)
    (m : MethodId) (c : BodyId) (hc : (q.method m).body = some c) : P q c := by
  by_cases hcb : c = b
  · rwa [hcb]
  · rw [h.method] at hc
    exact hagree c (h.agreeOn hp hcb) (hall m c hc)

/-! ### Making an instruction -/

@[simp] theorem newInstr_fst (op : Opcode) (o : Operand) :
    (p.newInstr op o).1 = ⟨p.instrs.size⟩ := rfl

/-- A new instruction is in no body, and the others stay. -/
theorem instr_newInstr (op : Opcode) (o : Operand) (k : InstrId) :
    (p.newInstr op o).2.instr k =
      if k = (p.newInstr op o).1 then ⟨op, o, none⟩ else p.instr k := by
  simp only [newInstr, instr, Array.getD_eq_getD_getElem?, Array.getElem?_push,
    ← instrId_eq_iff]
  split <;> rfl

theorem has_newInstr (op : Opcode) (o : Operand) :
    (p.newInstr op o).2.Has (p.newInstr op o).1 := by
  simp [newInstr, Has]

/-- A new instruction was not there before. -/
theorem not_has_newInstr (op : Opcode) (o : Operand) :
    ¬ p.Has (p.newInstr op o).1 := by
  simp [newInstr, Has]

/-- An instruction that was there before is not the new one. -/
theorem instr_newInstr_of_has (op : Opcode) (o : Operand) (hk : p.Has k) :
    (p.newInstr op o).2.instr k = p.instr k := by
  rw [instr_newInstr, if_neg]
  rintro rfl
  exact not_has_newInstr op o hk

theorem owner_newInstr (op : Opcode) (o : Operand) (k : InstrId) :
    (p.newInstr op o).2.owner k = p.owner k := by
  simp only [owner, instr_newInstr]
  split
  · next h => rw [h, instr_of_not_has (not_has_newInstr op o)]; rfl
  · rfl

/-- A new instruction leaves all bodies well linked. -/
theorem WellLinked.newInstr (h : p.WellLinked) (op : Opcode) (o : Operand) :
    (p.newInstr op o).2.WellLinked where
  unbroken := h.unbroken
  nodup := h.nodup
  owned := fun b i => by
    rw [owner_newInstr]
    exact h.owned b i

/-- A new instruction changes no body. -/
theorem changedIn_newInstr (op : Opcode) (o : Operand) :
    ChangedIn b p (p.newInstr op o).2 where
  methods := rfl
  bodies := rfl
  body := fun _ _ => rfl
  grown := by simp [Program.newInstr]
  instr := fun i c hi _ => instr_newInstr_of_has op o (has_of_owner hi)
  op := fun i hi => by rw [instr_newInstr_of_has op o hi]
  operand := fun i hi _ => by rw [instr_newInstr_of_has op o hi]

/-! ### Taking an instruction out -/

/-- Removing an instruction of a body succeeds. -/
theorem remove_eq (h : p.WellLinked) (hi : i ∈ p.code b) :
    p.remove b (some i) = .ok (p.unlink b i) := by
  have ho := h.mem_code.mp hi
  simp [remove, linkedInto, ho, h.unbroken, unlink, bind, Except.bind, pure,
    Except.pure]

/-- An instruction that is removed has no owner any more. -/
theorem instr_unlink (hi : p.Has i) (k : InstrId) :
    (p.unlink b i).instr k = if k = i then { p.instr i with owner := none } else
        p.instr k := by
  simp only [unlink, instr_modifyBody, instr_modifyInstr hi]

/-- It is taken out of the code of its body. -/
theorem body_unlink (hb : b.index < p.bodies.size) (c : BodyId) :
    (p.unlink b i).body c =
    if c = b then { p.body b with code := (p.body b).code.erase i }
    else p.body c := by
  simp only [unlink]
  rw [body_modifyBody (by simpa using hb)]
  rfl

/-- Removing an instruction leaves all bodies well linked. -/
theorem WellLinked.unlink (h : p.WellLinked) (hi : i ∈ p.code b) :
    (p.unlink b i).WellLinked where
  unbroken := h.unbroken
  nodup := by
    intro c
    rw [body_unlink (h.present hi)]
    split
    · exact (h.nodup b).erase i
    · exact h.nodup c
  owned := by
    intro c k
    rw [body_unlink (h.present hi), owner, instr_unlink (h.has hi)]
    have ho := h.mem_code.mp hi
    by_cases hk : k = i
    · subst hk
      by_cases hc : c = b
      · simpa [hc] using (h.nodup b).not_mem_erase
      · have hne : k ∉ (p.body c).code := fun hkc =>
          hc (h.body_unique hi (by rwa [h.code]))
        simpa [hc] using hne
    · by_cases hc : c = b
      · subst hc
        simpa [hk, List.mem_erase_of_ne hk, owner] using h.owned c k
      · simpa [hk, hc, owner] using h.owned c k

/-- The code of the body without it. -/
theorem code_unlink (h : p.WellLinked) (hi : i ∈ p.code b) :
    (p.unlink b i).code b = (p.code b).erase i := by
  rw [(h.unlink hi).code, h.code, body_unlink (h.present hi), if_pos rfl]

/-- No other body is changed. -/
theorem changedIn_unlink (h : p.WellLinked) (hi : i ∈ p.code b) :
    ChangedIn b p (p.unlink b i) where
  methods := rfl
  bodies := by simp [Program.unlink]
  body := fun c hc => by rw [body_unlink (h.present hi), if_neg hc]
  grown := by simp [Program.unlink]
  instr := by
    intro k c hk hc
    rw [instr_unlink (h.has hi), if_neg]
    rintro rfl
    exact hc (h.body_unique hi (h.mem_code.mpr hk))
  op := by
    intro k _
    rw [instr_unlink (h.has hi)]
    split
    · next hk => rw [hk]
    · rfl
  operand := by
    intro k _ _
    rw [instr_unlink (h.has hi)]
    split
    · next hk => rw [hk]
    · rfl

/-! ### Putting an instruction in -/

/-- An instruction that is put in a body has it as its owner. -/
theorem instr_link (hj : p.Has j) (code : List InstrId) (k : InstrId) :
    (p.link b j code).instr k =
    if k = j then { p.instr j with owner := some b } else p.instr k := by
  simp only [link, instr_modifyBody, instr_modifyInstr hj]

/-- The body gets its new code. -/
theorem body_link (hb : b.index < p.bodies.size) (code : List InstrId)
    (c : BodyId) :
    (p.link b j code).body c = if c = b then { p.body b with code } else
        p.body c := by
  simp only [link]
  rw [body_modifyBody (by simpa using hb)]
  rfl

/-- Linking a free instruction into a code that has it besides the old ones. -/
theorem WellLinked.link (h : p.WellLinked) (hb : b.index < p.bodies.size)
    (hj : p.Has j) (hfree : p.owner j = none) {code : List InstrId}
    (hnd : code.Nodup) (hmem : ∀ k, k ∈ code ↔ k = j ∨ k ∈ p.code b) :
    (p.link b j code).WellLinked where
  unbroken := h.unbroken
  nodup := by
    intro c
    rw [body_link hb]
    split
    · exact hnd
    · exact h.nodup c
  owned := by
    intro c k
    rw [body_link hb, owner, instr_link hj]
    have hout : ∀ d, j ∉ (p.body d).code := fun d hd => by
      rw [(h.owned d j).mp hd] at hfree
      cases hfree
    by_cases hk : k = j
    · subst hk
      by_cases hc : c = b
      · simp [hc, hmem]
      · simpa [hc, Ne.symm hc] using hout c
    · by_cases hc : c = b
      · subst hc
        simpa [hk, hmem, h.code, owner] using h.owned c k
      · simpa [hk, hc, owner] using h.owned c k

/-- The code of the body is the new one. -/
theorem code_link (h : p.WellLinked) (hb : b.index < p.bodies.size)
    (code : List InstrId) : (p.link b j code).code b = code := by
  have hchain : (p.link b j code).chain = none := h.unbroken
  rw [Program.code, hchain, body_link hb, if_pos rfl]

/-- No other body is changed. -/
theorem changedIn_link (hb : b.index < p.bodies.size) (hj : p.Has j)
    (hfree : p.owner j = none) (code : List InstrId) :
    ChangedIn b p (p.link b j code) where
  methods := rfl
  bodies := by simp [Program.link]
  body := fun c hc => by rw [body_link hb, if_neg hc]
  grown := by simp [Program.link]
  instr := by
    intro k c hk hc
    rw [instr_link hj, if_neg]
    rintro rfl
    rw [hfree] at hk
    cases hk
  op := by
    intro k _
    rw [instr_link hj]
    split
    · next hk => rw [hk]
    · rfl
  operand := by
    intro k _ _
    rw [instr_link hj]
    split
    · next hk => rw [hk]
    · rfl

/-- The code with `j` in front of the mark, or at the end when there is no
mark. -/
def placed (mark : Option InstrId) (j : InstrId) (code : List InstrId) :
    List InstrId :=
  match mark with
  | none => code ++ [j]
  | some k => insertFront k j code

/-- Wherever an instruction is placed, the others are there as well. -/
theorem placed_perm {code : List InstrId} {mark : Option InstrId}
    (hnd : code.Nodup) (hmark : ∀ k ∈ mark, k ∈ code) :
    (placed mark j code).Perm (j :: code) := by
  cases mark with
  | none => exact List.perm_append_singleton j code
  | some k =>
      obtain ⟨pre, post, rfl, hpre, -⟩ := exists_cut hnd (hmark k rfl)
      rw [placed, insertFront_cut hpre]
      exact List.perm_middle

/-- Inserting a free instruction in front of one of a body succeeds. -/
theorem insertBefore_eq (h : p.WellLinked) (hfree : p.owner j = none)
    {mark : Option InstrId} (hmark : ∀ k ∈ mark, k ∈ p.code b) :
    p.insertBefore b mark (some j) =
    .ok (p.link b j (placed mark j (p.code b))) := by
  cases mark with
  | none =>
      simp [insertBefore, unlinked, hfree, h.unbroken, placed, h.code, bind,
        Except.bind, pure, Except.pure]
  | some k =>
      have hk := h.mem_code.mp (hmark k rfl)
      simp [insertBefore, unlinked, linkedInto, hfree, hk, h.unbroken, placed,
        h.code, bind, Except.bind, pure, Except.pure]

/-- Linking a free instruction in front of a mark. -/
theorem WellLinked.place (h : p.WellLinked) (hb : b.index < p.bodies.size)
    (hj : p.Has j) (hfree : p.owner j = none) {mark : Option InstrId}
    (hmark : ∀ k ∈ mark, k ∈ p.code b) :
    (p.link b j (placed mark j (p.code b))).WellLinked := by
  have hperm := placed_perm (j := j) (h.nodup_code b) hmark
  have hout : j ∉ p.code b := fun hj => by
    rw [h.mem_code.mp hj] at hfree
    cases hfree
  apply h.link hb hj hfree
  · exact hperm.nodup_iff.mpr (List.nodup_cons.mpr ⟨hout, h.nodup_code b⟩)
  · intro k
    rw [hperm.mem_iff, List.mem_cons]

/-! ### Exchanging an instruction -/

/-- A free instruction is not one of the body. -/
theorem WellLinked.ne_of_free (h : p.WellLinked) (hi : i ∈ p.code b)
    (hfree : p.owner j = none) : j ≠ i := by
  rintro rfl
  rw [h.mem_code.mp hi] at hfree
  cases hfree

/-- A free instruction stays free when another is removed. -/
theorem owner_unlink_of_free (h : p.WellLinked) (hi : i ∈ p.code b)
    (hfree : p.owner j = none) : (p.unlink b i).owner j = none := by
  rw [owner, instr_unlink (h.has hi), if_neg (h.ne_of_free hi hfree)]
  exact hfree

/-- Replacing an instruction of a body by a free one succeeds. -/
theorem replace_eq (h : p.WellLinked) (hi : i ∈ p.code b)
    (hfree : p.owner j = none) :
    p.replace b (some i) (some j) = .ok (p.swap b i j) := by
  have ho := h.mem_code.mp hi
  have hu := h.unlink hi
  have hj := owner_unlink_of_free h hi hfree
  obtain ⟨pre, post, hcut, hpre, hpost⟩ := exists_cut (h.nodup_code b) hi
  have hcode : (p.unlink b i).code b = pre ++ post := by
    rw [code_unlink h hi, hcut, erase_cut hpre]
  have hnext : p.next i = post.head? := by
    rw [h.next hi, hcut, elemAfter?_cut hpre]
  have hmark : ∀ k ∈ post.head?, k ∈ (p.unlink b i).code b := by
    intro k hk
    rw [hcode]
    exact List.mem_append_right _ (List.mem_of_head? hk)
  have hplaced :
      placed post.head? j (pre ++ post) = (p.body b).code.replace i j := by
    rw [← h.code, hcut, replace_cut hpre]
    cases post with
    | nil => simp [placed]
    | cons k post =>
        have hk : k ∉ pre := by
          intro hk
          have hnd := hu.nodup_code b
          rw [hcode] at hnd
          exact (List.disjoint_of_nodup_append hnd) hk List.mem_cons_self
        exact insertFront_cut hk
  have hinsert := insertBefore_eq hu hj hmark
  rw [hcode, hplaced] at hinsert
  simp only [replace, linkedInto, ho, unlinked, hfree, bind, Except.bind,
    if_true,
    Option.isSome_none, Bool.false_eq_true, if_false, hnext, remove_eq h hi]
  exact hinsert

/-- One instruction gets an owner and the other one loses it. -/
theorem instr_swap (h : p.WellLinked) (hi : i ∈ p.code b) (hj : p.Has j)
    (hfree : p.owner j = none) (k : InstrId) :
    (p.swap b i j).instr k = if k = j then { p.instr j with owner := some b }
      else if k = i then { p.instr i with owner := none } else p.instr k := by
  have hji := h.ne_of_free hi hfree
  have hj' : (p.unlink b i).Has j := by simpa [Has, unlink] using hj
  rw [swap, instr_link hj', instr_unlink (h.has hi), instr_unlink (h.has hi),
    if_neg hji]

theorem op_swap (h : p.WellLinked) (hi : i ∈ p.code b) (hj : p.Has j)
    (hfree : p.owner j = none) (k : InstrId) :
    ((p.swap b i j).instr k).op = (p.instr k).op := by
  rw [instr_swap h hi hj hfree]
  split
  · next hk => rw [hk]
  · split
    · next hk => rw [hk]
    · rfl

theorem operand_swap (h : p.WellLinked) (hi : i ∈ p.code b) (hj : p.Has j)
    (hfree : p.owner j = none) (k : InstrId) :
    ((p.swap b i j).instr k).operand = (p.instr k).operand := by
  rw [instr_swap h hi hj hfree]
  split
  · next hk => rw [hk]
  · split
    · next hk => rw [hk]
    · rfl

/-- Replacing an instruction leaves all bodies well linked. -/
theorem WellLinked.swap (h : p.WellLinked) (hi : i ∈ p.code b) (hj : p.Has j)
    (hfree : p.owner j = none) : (p.swap b i j).WellLinked := by
  have hout : j ∉ p.code b := fun hj => by
    rw [h.mem_code.mp hj] at hfree
    cases hfree
  obtain ⟨pre, post, hcut, hpre, hpost⟩ := exists_cut (h.nodup_code b) hi
  have hnd := h.nodup_code b
  rw [hcut] at hnd hout
  apply (h.unlink hi).link
  · simpa [Program.unlink] using h.present hi
  · simpa [Has, Program.unlink] using hj
  · exact owner_unlink_of_free h hi hfree
  · rw [← h.code, hcut, replace_cut hpre]
    grind
  · intro k
    rw [code_unlink h hi, ← h.code, hcut, replace_cut hpre, erase_cut hpre]
    simp only [List.mem_append, List.mem_cons]
    tauto

/-- The new instruction stands where the old one was. -/
theorem code_swap (h : p.WellLinked) (hi : i ∈ p.code b) :
    (p.swap b i j).code b = (p.code b).replace i j := by
  rw [Program.swap, code_link (h.unlink hi), h.code]
  simpa [Program.unlink] using h.present hi

/-- No other body is changed. -/
theorem changedIn_swap (h : p.WellLinked) (hi : i ∈ p.code b) (hj : p.Has j)
    (hfree : p.owner j = none) : ChangedIn b p (p.swap b i j) := by
  apply (changedIn_unlink h hi).trans
  apply changedIn_link
  · simpa [Program.unlink] using h.present hi
  · simpa [Has, Program.unlink] using hj
  · exact owner_unlink_of_free h hi hfree

/-! ### Declaring a slot -/

/-- A local is added to one body. -/
theorem body_addLocal (type name : String) (hb : b.index < p.bodies.size)
    (c : BodyId) : (p.addLocal b type name).2.body c = if c = b then { p.body b
      with locals := (p.body b).locals.push (p.addLocal b type name).1 }
      else p.body c := by
  simp only [addLocal]
  rw [body_modifyBody hb]

/-- No other body is changed. -/
theorem changedIn_addLocal (type name : String) (hb : b.index < p.bodies.size) :
    ChangedIn b p (p.addLocal b type name).2 where
  methods := rfl
  bodies := by simp [addLocal]
  body := fun c hc => by rw [body_addLocal type name hb, if_neg hc]
  grown := le_rfl
  instr := fun _ _ _ _ => rfl
  op := fun _ _ => rfl
  operand := fun _ _ _ => rfl

/-- A new local leaves all bodies well linked. -/
theorem WellLinked.addLocal (h : p.WellLinked) (type name : String)
    (hb : b.index < p.bodies.size) : (p.addLocal b type name).2.WellLinked := by
  have hcode :
      ∀ c, ((p.addLocal b type name).2.body c).code = (p.body c).code := by
    intro c
    rw [body_addLocal type name hb]
    split
    · next hc => rw [hc]
    · rfl
  exact ⟨h.unbroken, fun c => by rw [hcode]; exact h.nodup c,
    fun c i => by rw [hcode]; exact h.owned c i⟩

/-- A new local leaves the code. -/
theorem code_addLocal (h : p.WellLinked) (type name : String)
    (hb : b.index < p.bodies.size) :
    (p.addLocal b type name).2.code b = p.code b := by
  rw [(h.addLocal type name hb).code, h.code, body_addLocal type name hb,
    if_pos rfl]

end Program

end Bytecode
