import Mathlib
import Bytecode.Builder
import Bytecode.Proofs.Coherence

/-!
# Labels are bound to the next instruction

A builder is called in any order; a call that breaks a promise is refused and
changes nothing.  Along a sequence of calls two things are written down: which
branches have been emitted for which label, `branches`, and what has been
emitted since a label was marked, `Marked`.  The builder keeps just enough of
both.  A label without an instruction has the branches that wait for it, a
marked one of them is pending, and an instruction that is emitted is given to
all pending labels and to whatever waits for them, to itself if it is a branch
to one of them.

`Binds` says that a builder agrees with what has been written down, and there is
one lemma for each thing that a call can do to it.  The main statement is
`labels_bind`.
-/

namespace Bytecode.Builder

/-! ### Calls -/

/-- One call on a builder. -/
inductive Call where
  | emit (op : Opcode) (operand : Operand)
  | emitCall (m : Method)
  | emitBranchTo (op : Opcode) (t : Option InstrId)
  | declareLocal (type : String)
  | newLabel
  | mark (l : LabelId)
  | emitBranch (op : Opcode) (l : LabelId)

/-- What a call comes to: the instruction that it emits, if it emits one, and
the builder then. -/
def Call.outcome : Call → Builder → Except Fault (Option InstrId × Builder)
  | .emit op operand, b =>
      .ok (some (b.emit op operand).1, (b.emit op operand).2)
  | .emitCall m, b => .ok (some (b.emitCall m).1, (b.emitCall m).2)
  | .emitBranchTo op t, b => (b.emitBranchTo op t).map fun r => (some r.1, r.2)
  | .declareLocal type, b => .ok (none, (b.declareLocal type).2)
  | .newLabel, b => .ok (none, b.newLabel.2)
  | .mark l, b => (b.mark l).map fun b => (none, b)
  | .emitBranch op l, b => (b.emitBranch op l).map fun r => (some r.1, r.2)

/-- The instruction that a call emits. -/
def Call.emitted (c : Call) (b : Builder) : Option InstrId :=
  match c.outcome b with
  | .ok (i, _) => i
  | .error _ => none

/-- The builder after a call; one that is refused changes nothing. -/
def Call.perform (c : Call) (b : Builder) : Builder :=
  match c.outcome b with
  | .ok (_, b) => b
  | .error _ => b

/-- The branch that a call emits for a label, with the label. -/
def Call.branch (c : Call) (b : Builder) : List (InstrId × LabelId) :=
  match c with
  | .emitBranch _ l => (c.emitted b).toList.map fun i => (i, l)
  | _ => []

/-- The builder after calls. -/
def after (b : Builder) (cs : List Call) : Builder :=
  cs.foldl (fun b c => c.perform b) b

/-- The instructions that calls emit, in order. -/
def emits : Builder → List Call → List InstrId
  | _, [] => []
  | b, c :: cs => (c.emitted b).toList ++ (c.perform b).emits cs

/-- The branches that calls emit for labels, with their labels. -/
def branches : Builder → List Call → List (InstrId × LabelId)
  | _, [] => []
  | b, c :: cs => c.branch b ++ (c.perform b).branches cs

/-- Among the calls the label has been marked, and after that these instructions
have been emitted. -/
def Marked (b : Builder) (cs : List Call) (l : LabelId) (since : List InstrId) :
    Prop :=
  ∃ pre post, cs = pre ++ .mark l :: post ∧ ((b.after pre).mark l).isOk = true ∧
    (b.after (pre ++ [.mark l])).emits post = since

/-- The instruction a label is bound to. -/
def bound? (b : Builder) (l : LabelId) : Option InstrId :=
  b.labels[l.index]?.bind (·.target)

/-- The branches that wait for a label. -/
def waitingOf (b : Builder) (l : LabelId) : List InstrId :=
  (b.labels[l.index]?.map (·.waiting)).getD []

/-- The label has been made. -/
def Knows (b : Builder) (l : LabelId) : Prop := l.index < b.labels.size

/-- A builder on a body, before any call. -/
structure Fresh (b : Builder) : Prop where
  linked : b.program.WellLinked
  present : b.body.index < b.program.bodies.size
  labels : b.labels = #[]
  pending : b.pending = []

variable {b b' start : Builder} {l l' : LabelId} {i j k : InstrId} {op : Opcode}
  {o : Operand} {c : Call} {cs : List Call} {since : List InstrId} {p : Program}
  {body : BodyId}

/-- What has been emitted since labels were marked, after one call more. -/
def Call.marks (c : Call) (b : Builder) (marked : LabelId → List InstrId → Prop)
    (l : LabelId) (since : List InstrId) : Prop :=
  (∃ old, marked l old ∧ since = old ++ (c.emitted b).toList) ∨
    c = .mark l ∧ (b.mark l).isOk = true ∧ since = []

/-! ### One call more -/

/-- One more call is made after the others. -/
theorem after_append (b : Builder) (cs : List Call) (c : Call) :
    b.after (cs ++ [c]) = c.perform (b.after cs) := by
  rw [after, List.foldl_append]
  rfl

/-- One more call may add one instruction more. -/
theorem emits_append (b : Builder) (cs : List Call) (c : Call) :
    b.emits (cs ++ [c]) = b.emits cs ++ (c.emitted (b.after cs)).toList := by
  induction cs generalizing b with
  | nil => rw [List.nil_append, emits, emits, emits, List.append_nil,
      List.nil_append]; rfl
  | cons d cs ih =>
      rw [List.cons_append, emits, ih, emits, List.append_assoc]; rfl

/-- One more call may add one branch more. -/
theorem branches_append (b : Builder) (cs : List Call) (c : Call) :
    b.branches (cs ++ [c]) = b.branches cs ++ c.branch (b.after cs) := by
  induction cs generalizing b with
  | nil => rw [List.nil_append, branches, branches, branches, List.append_nil,
      List.nil_append]; rfl
  | cons d cs ih =>
      rw [List.cons_append, branches, ih, branches, List.append_assoc]; rfl

/-- What one more call makes of the marks. -/
theorem marked_append : start.Marked (cs ++ [c]) l since ↔
    c.marks (start.after cs) (start.Marked cs) l since := by
  constructor
  · rintro ⟨pre, post, heq, hok, rfl⟩
    rcases List.eq_nil_or_concat post with rfl | ⟨post, d, rfl⟩
    · obtain ⟨rfl, hc⟩ := List.append_inj' heq rfl
      exact Or.inr ⟨List.head_eq_of_cons_eq hc, hok, rfl⟩
    · rw [List.concat_eq_append, ← List.cons_append, ← List.append_assoc] at heq
      obtain ⟨rfl, hc⟩ := List.append_inj' heq rfl
      rw [List.head_eq_of_cons_eq hc, List.concat_eq_append, emits_append]
      refine Or.inl ⟨_, ⟨pre, post, rfl, hok, rfl⟩, ?_⟩
      rw [after, after, after, ← List.foldl_append]
      simp
  · rintro (⟨old, ⟨pre, post, rfl, hok, rfl⟩, rfl⟩ | ⟨rfl, hok, rfl⟩)
    · refine ⟨pre, post ++ [c], by simp, hok, ?_⟩
      rw [emits_append]
      rw [after, after, after, ← List.foldl_append]
      simp
    · exact ⟨cs, [], rfl, hok, rfl⟩

/-! ### Changing labels -/

/-- A label keeps its instruction if its target is kept. -/
theorem bound?_of_map {f : Label → Label}
    (h : b'.labels[l.index]? = b.labels[l.index]?.map f)
    (hf : ∀ x, (f x).target = x.target) : b'.bound? l = b.bound? l := by
  rw [bound?, h, bound?]
  cases b.labels[l.index]? with
  | none => rfl
  | some x => exact hf x

/-- A label keeps its branches if those that wait are kept. -/
theorem waitingOf_of_map {f : Label → Label}
    (h : b'.labels[l.index]? = b.labels[l.index]?.map f)
    (hf : ∀ x, (f x).waiting = x.waiting) : b'.waitingOf l = b.waitingOf l := by
  rw [waitingOf, h, waitingOf]
  cases b.labels[l.index]? with
  | none => rfl
  | some x => exact hf x

/-! ### Binding labels -/

/-- Labels that are bound have a target and nothing that waits. -/
theorem labels_bindAll (i : InstrId) (ls : List LabelId) (b : Builder)
    (n : Nat) : (ls.foldl (bind i) b).labels[n]? = b.labels[n]?.map fun x =>
      if ⟨n⟩ ∈ ls then { x with target := some i, waiting := [] } else x := by
  induction ls generalizing b with
  | nil => simp
  | cons l ls ih =>
      have hlabels : (bind i b l).labels = b.labels.modify l.index fun x =>
          { x with target := some i, waiting := [] } := rfl
      have hl : (⟨n⟩ : LabelId) = l ↔ l.index = n := by
        cases l
        simp [eq_comm]
      rw [List.foldl_cons, ih, hlabels, Array.getElem?_modify]
      simp only [List.mem_cons, hl]
      by_cases hn : l.index = n
      · cases b.labels[n]? <;> simp [hn]
      · simp [hn]

theorem body_bindAll (i : InstrId) (ls : List LabelId) (b : Builder) :
    (ls.foldl (bind i) b).body = b.body := by
  induction ls generalizing b with
  | nil => rfl
  | cons l ls ih => exact ih _

/-- Nothing waits for a label that is bound. -/
theorem waitingOf_bindAll (i : InstrId) (ls : List LabelId) (b : Builder)
    (l : LabelId) : (ls.foldl (bind i) b).waitingOf l = if l ∈ ls then [] else
        b.waitingOf l := by
  rw [waitingOf, labels_bindAll, waitingOf]
  by_cases hmem : l ∈ ls <;> cases b.labels[l.index]? <;> simp [hmem]

/-- All that waits for one of the labels goes to the instruction. -/
theorem program_bindAll (i : InstrId) (ls : List LabelId) (b : Builder) :
    ∃ ws, (ls.foldl (bind i) b).program = b.program.setTargets ws (some i) ∧
      ∀ k, k ∈ ws ↔ ∃ l ∈ ls, k ∈ b.waitingOf l := by
  induction ls generalizing b with
  | nil => exact ⟨[], rfl, by simp⟩
  | cons l ls ih =>
      obtain ⟨ws, hprogram, hws⟩ := ih (bind i b l)
      have hbind : ∀ l', (bind i b l).waitingOf l' = if l' ∈ [l] then [] else
          b.waitingOf l' :=
        waitingOf_bindAll i [l] b
      refine ⟨b.waitingOf l ++ ws, ?_, fun k => ?_⟩
      · rw [List.foldl_cons, hprogram, Program.setTargets, Program.setTargets,
          List.foldl_append]
        rfl
      · rw [List.mem_append, hws]
        constructor
        · rintro (hk | ⟨l', hl', hk⟩)
          · exact ⟨l, List.mem_cons_self, hk⟩
          · rw [hbind] at hk
            split at hk
            · cases hk
            · exact ⟨l', List.mem_cons_of_mem _ hl', hk⟩
        · rintro ⟨l', hl', hk⟩
          by_cases heq : l' = l
          · exact Or.inl (heq ▸ hk)
          · refine Or.inr ⟨l', (List.mem_cons.mp hl').resolve_left heq, ?_⟩
            rwa [hbind, if_neg (mt List.mem_singleton.mp heq)]

/-- The labels of a list are bound to one instruction. -/
theorem bound?_bindAll (i : InstrId) {ls : List LabelId}
    (hls : ∀ l ∈ ls, b.Knows l) (l : LabelId) :
    (ls.foldl (bind i) b).bound? l = if l ∈ ls then some i else b.bound? l := by
  simp only [bound?, labels_bindAll]
  by_cases hmem : l ∈ ls
  · rw [Array.getElem?_eq_getElem (hls l hmem)]
    simp [hmem]
  · cases b.labels[l.index]? <;> simp [hmem]

theorem knows_bindAll (i : InstrId) (ls : List LabelId) (b : Builder)
    (l : LabelId) : (ls.foldl (bind i) b).Knows l ↔ b.Knows l := by
  have hlabels := labels_bindAll i ls b l.index
  rw [Knows, Knows, ← not_iff_not, Nat.not_lt, Nat.not_lt,
    ← Array.getElem?_eq_none_iff,
    ← Array.getElem?_eq_none_iff, hlabels, Option.map_eq_none_iff]

/-! ### The builder and what has been written down -/

/-- The builder agrees with what has been emitted since labels were marked, with
the branches emitted for labels and with the code that the body then has. -/
structure Binds (marked : LabelId → List InstrId → Prop)
    (branches : List (InstrId × LabelId)) (code : List InstrId) (b : Builder) :
    Prop where
  linked : b.program.WellLinked
  present : b.body.index < b.program.bodies.size
  contents : b.program.code b.body = code
  /-- Labels that have been marked have been made. -/
  known : ∀ l since, marked l since → b.Knows l
  marks : ∀ l x, b.labels[l.index]? = some x →
    (x.marked = true ↔ ∃ since, marked l since)
  once : ∀ l since since', marked l since → marked l since' → since' = since
  pending : ∀ l, l ∈ b.pending ↔ marked l []
  bound : ∀ l i, b.bound? l = some i ↔ ∃ rest, marked l (i :: rest)
  inside : ∀ l i, b.bound? l = some i → i ∈ code
  /-- Labels that have been branched to have been made. -/
  used : ∀ i l, (i, l) ∈ branches → b.Knows l
  waiting : ∀ l i, i ∈ b.waitingOf l ↔ (i, l) ∈ branches ∧ b.bound? l = none
  emitted : ∀ i l, (i, l) ∈ branches → i ∈ code
  target : ∀ i l, (i, l) ∈ branches → b.program.target? i = b.bound? l
  single : ∀ i l l', (i, l) ∈ branches → (i, l') ∈ branches → l' = l

variable {marked : LabelId → List InstrId → Prop}
  {branched : List (InstrId × LabelId)} {code : List InstrId}

/-- A fresh builder binds nothing. -/
theorem Fresh.binds (h : b.Fresh) :
    Binds (fun _ _ => False) [] (b.program.code b.body) b where
  linked := h.linked
  present := h.present
  contents := rfl
  known := by simp
  marks := by simp [h.labels]
  once := by simp
  pending := by simp [h.pending]
  bound := by simp [bound?, h.labels]
  inside := by simp [bound?, h.labels]
  used := by simp
  waiting := by simp [waitingOf, h.labels]
  emitted := by simp
  target := by simp
  single := by simp

/-! ### Emitting -/

/-- The instruction that the next call to emit one makes. -/
def upcoming (b : Builder) : InstrId := ⟨b.program.instrs.size⟩

/-- The builder with one instruction more at the end of the body, given to no
label. -/
def grow (b : Builder) (op : Opcode) (operand : Operand) : Builder :=
  let (i, p) := b.program.newInstr op operand
  { b with program := p.link b.body i ((p.body b.body).code ++ [i]) }

/-- The builder with a branch to a label, which waits if the label has no
instruction. -/
def file (b : Builder) (l : LabelId) (i : InstrId) : Builder :=
  { b with
    labels :=
      if (b.bound? l).isNone then
        b.labels.modify l.index fun x => { x with waiting := x.waiting ++ [i] }
      else b.labels }

/-- The next instruction is known before it is made. -/
theorem newInstr_upcoming (b : Builder) (op : Opcode) (o : Operand) :
    (b.program.newInstr op o).1 = b.upcoming := rfl

/-- An instruction is made and put at the end of the body. -/
theorem instr_grow (b : Builder) (op : Opcode) (o : Operand) (k : InstrId) :
    (b.grow op o).program.instr k =
      if k = b.upcoming then ⟨op, o, some b.body⟩ else b.program.instr k := by
  have hnew := Program.instr_newInstr (p := b.program) op o
  refine (Program.instr_link (Program.has_newInstr op o) _ k).trans ?_
  rw [hnew, if_pos rfl, hnew, newInstr_upcoming]
  by_cases hk : k = b.upcoming
  · rw [if_pos hk, if_pos hk]
  · rw [if_neg hk, if_neg hk, if_neg hk]

/-- An instruction at the end changes nothing for the branches and labels before
it. -/
theorem Binds.grow (h : Binds marked branched code b) (op : Opcode)
    (o : Operand) : Binds marked branched (code ++ [b.upcoming]) (b.grow op o) ∧
    b.upcoming ∉ code := by
  have hlinked := h.linked.newInstr op o
  have hfree : (b.program.newInstr op o).2.owner b.upcoming = none := by
    rw [Program.owner_newInstr, Program.owner, ← newInstr_upcoming b op o,
      Program.instr_of_not_has (Program.not_has_newInstr op o)]
    rfl
  have hmark : ∀ k ∈ (none : Option InstrId),
      k ∈ (b.program.newInstr op o).2.code b.body := by
    simp
  have hplace := hlinked.place h.present (Program.has_newInstr op o) hfree hmark
  rw [hlinked.code] at hplace
  have hout : b.upcoming ∉ code := fun hmem =>
    Program.not_has_newInstr op o (h.linked.has (h.contents ▸ hmem))
  refine ⟨⟨hplace, ?_, ?_, h.known, h.marks, h.once, h.pending, h.bound, ?_,
    h.used, h.waiting, ?_, ?_, h.single⟩, hout⟩
  · simpa [Builder.grow, Program.link, Program.newInstr] using h.present
  · refine (Program.code_link hlinked h.present _).trans ?_
    rw [← h.contents, h.linked.code]
    rfl
  · exact fun l i hi => List.mem_append_left _ (h.inside l i hi)
  · exact fun i l hi => List.mem_append_left _ (h.emitted i l hi)
  · intro i l hi
    have hne : i ≠ b.upcoming := fun heq => hout (heq ▸ h.emitted i l hi)
    rw [Program.target?, instr_grow, if_neg hne]
    exact h.target i l hi

/-! ### Branching to a label -/

/-- A branch waits for a label that is not bound yet. -/
theorem labels_file (b : Builder) (l : LabelId) (i : InstrId) (l' : LabelId) :
    (b.file l i).labels[l'.index]? = b.labels[l'.index]?.map fun x =>
      if l' = l ∧ b.bound? l = none then { x with waiting := x.waiting ++ [i] }
      else x := by
  have hl : l' = l ↔ l.index = l'.index := by
    cases l
    cases l'
    simp [eq_comm]
  by_cases hbound : b.bound? l = none
  · rw [file, hbound, Option.isNone_none, if_pos rfl, Array.getElem?_modify]
    simp only [hl, and_true]
    split <;> simp
  · simp [file, hbound]

/-- Filing a branch binds no label. -/
theorem bound?_file (b : Builder) (l : LabelId) (i : InstrId) :
    (b.file l i).bound? = b.bound? := by
  funext l'
  apply bound?_of_map (labels_file b l i l')
  intro x
  split <;> rfl

theorem knows_file (b : Builder) (l : LabelId) (i : InstrId) (l' : LabelId) :
    (b.file l i).Knows l' ↔ b.Knows l' := by
  rw [Knows, Knows, file]
  split
  · rw [Array.size_modify]
  · rfl

/-- One branch more waits for a label that is not bound yet. -/
theorem waitingOf_file (hl : b.Knows l) (i : InstrId) (l' : LabelId) :
    (b.file l i).waitingOf l' =
    if l' = l ∧ b.bound? l = none then b.waitingOf l ++ [i]
    else b.waitingOf l' := by
  rw [waitingOf, labels_file, waitingOf, waitingOf]
  by_cases hfiled : l' = l ∧ b.bound? l = none
  · obtain ⟨rfl, hnone⟩ := hfiled
    rw [Array.getElem?_eq_getElem hl]
    simp [hnone]
  · simp [hfiled]

/-- A branch to a label waits for it or is pointed where the label is. -/
theorem Binds.file (h : Binds marked branched code b) (hl : b.Knows l)
    (hi : i ∈ code) (hnew : ∀ l', (i, l') ∉ branched)
    (htarget : b.program.target? i = b.bound? l) :
    Binds marked (branched ++ [(i, l)]) code (b.file l i) := by
  have hmem : ∀ k l', (k, l') ∈ branched ++ [(i, l)] ↔
      (k, l') ∈ branched ∨ k = i ∧ l' = l := by
    simp
  refine ⟨h.linked, h.present, h.contents, ?_, ?_, h.once, h.pending, ?_, ?_,
    ?_, ?_, ?_, ?_, ?_⟩
  · exact fun l' since hs => (knows_file b l i l').mpr (h.known l' since hs)
  · intro l' x hx
    rw [labels_file] at hx
    obtain ⟨y, hy, rfl⟩ := Option.map_eq_some_iff.mp hx
    rw [← h.marks l' y hy]
    split <;> rfl
  · rw [bound?_file]
    exact h.bound
  · rw [bound?_file]
    exact h.inside
  · intro k l' hk
    rw [knows_file]
    rcases (hmem k l').mp hk with hk | ⟨-, rfl⟩
    · exact h.used k l' hk
    · exact hl
  · intro l' k
    rw [waitingOf_file hl, bound?_file, hmem]
    by_cases hfiled : l' = l ∧ b.bound? l = none
    · obtain ⟨rfl, hnone⟩ := hfiled
      simp [h.waiting, hnone]
    · rw [if_neg hfiled, h.waiting]
      grind
  · intro k l' hk
    rcases (hmem k l').mp hk with hk | ⟨rfl, -⟩
    · exact h.emitted k l' hk
    · exact hi
  · intro k l' hk
    rw [bound?_file]
    rcases (hmem k l').mp hk with hk | ⟨rfl, rfl⟩
    · exact h.target k l' hk
    · exact htarget
  · intro k l₁ l₂ h₁ h₂
    rw [hmem] at h₁ h₂
    rcases h₁ with h₁ | ⟨rfl, rfl⟩ <;> rcases h₂ with h₂ | ⟨heq, rfl⟩
    · exact h.single k l₁ l₂ h₁ h₂
    · exact (hnew l₁ (heq ▸ h₁)).elim
    · exact (hnew l₂ h₂).elim
    · rfl

/-! ### Giving an instruction to the labels that are pending -/

/-- A label that is pending has no instruction. -/
theorem Binds.unbound_of_pending (h : Binds marked branched code b)
    (hl : l ∈ b.pending) : b.bound? l = none := by
  rw [Option.eq_none_iff_forall_ne_some]
  intro k hk
  obtain ⟨rest, hrest⟩ := (h.bound l k).mp hk
  cases h.once l _ _ ((h.pending l).mp hl) hrest

/-- The labels that are pending are bound to the next instruction. -/
theorem Binds.bound?_bindPending (h : Binds marked branched code b)
    (i : InstrId) (l : LabelId) :
    (b.bindPending i).bound? l = if l ∈ b.pending then some i else b.bound? l :=
  bound?_bindAll i (fun l hl => h.known l [] ((h.pending l).mp hl)) l

/-- Nothing waits for a label that was pending. -/
theorem waitingOf_bindPending (b : Builder) (i : InstrId) (l : LabelId) :
    (b.bindPending i).waitingOf l = if l ∈ b.pending then [] else
        b.waitingOf l :=
  waitingOf_bindAll i b.pending b l

theorem knows_bindPending (b : Builder) (i : InstrId) (l : LabelId) :
    (b.bindPending i).Knows l ↔ b.Knows l := knows_bindAll i b.pending b l

/-- The branches to the labels that are pending go to the instruction, and no
others. -/
theorem Binds.program_bindPending (h : Binds marked branched code b)
    (i : InstrId) :
    ∃ ws, (b.bindPending i).program = b.program.setTargets ws (some i) ∧
      (∀ k ∈ ws, b.program.Has k) ∧ ∀ k l, (k, l) ∈ branched →
      (k ∈ ws ↔ l ∈ b.pending) := by
  obtain ⟨ws, hprogram, hws⟩ := program_bindAll i b.pending b
  refine ⟨ws, hprogram, fun k hk => ?_, fun k l hkl => ?_⟩
  · obtain ⟨l, -, hkl⟩ := (hws k).mp hk
    exact h.linked.has (h.contents ▸ h.emitted k l ((h.waiting l k).mp hkl).1)
  · rw [hws]
    constructor
    · rintro ⟨l', hl', hkl'⟩
      rwa [← h.single k l l' hkl ((h.waiting l' k).mp hkl').1]
    · exact fun hl =>
        ⟨l, hl, (h.waiting l k).mpr ⟨hkl, h.unbound_of_pending hl⟩⟩

/-- The instruction comes last in all that has been emitted since a label was
marked. -/
theorem Binds.bindPending (h : Binds marked branched code b) (hi : i ∈ code) :
    Binds (fun l since => ∃ old, marked l old ∧
      since = old ++ [i]) branched code (b.bindPending i) := by
  obtain ⟨ws, hprogram, hhas, hws⟩ := h.program_bindPending i
  have hbound := h.bound?_bindPending i
  have hbody : (b.bindPending i).body = b.body := body_bindAll i b.pending b
  refine ⟨?_, ?_, ?_, ?_, ?_, ?_, ?_, ?_, ?_, ?_, ?_, h.emitted, ?_, h.single⟩
  · rw [hprogram]
    exact h.linked.setTargets hhas _
  · rw [hprogram, hbody, Program.bodies_setTargets]
    exact h.present
  · rw [hprogram, hbody, Program.code_setTargets]
    exact h.contents
  · rintro l since ⟨old, hold, -⟩
    exact (knows_bindPending b i l).mpr (h.known l old hold)
  · intro l x hx
    rw [Builder.bindPending, labels_bindAll] at hx
    obtain ⟨y, hy, rfl⟩ := Option.map_eq_some_iff.mp hx
    have hmarked : y.marked = true ↔ ∃ since, marked l since := h.marks l y hy
    trans y.marked = true
    · split <;> rfl
    · rw [hmarked]
      exact ⟨fun ⟨old, hold⟩ => ⟨old ++ [i], old, hold, rfl⟩,
        fun ⟨_, old, hold, _⟩ => ⟨old, hold⟩⟩
  · rintro l _ _ ⟨old, hold, rfl⟩ ⟨old', hold', rfl⟩
    rw [h.once l _ _ hold hold']
  · intro l
    constructor
    · intro hl
      cases hl
    · rintro ⟨old, -, hnil⟩
      simp at hnil
  · intro l k
    rw [hbound]
    by_cases hl : l ∈ b.pending
    · rw [if_pos hl]
      constructor
      · rintro ⟨⟩
        exact ⟨[], [], (h.pending l).mp hl, rfl⟩
      · rintro ⟨rest, old, hold, heq⟩
        rw [h.once l _ _ ((h.pending l).mp hl) hold] at heq
        cases heq
        rfl
    · rw [if_neg hl, h.bound]
      constructor
      · rintro ⟨rest, hrest⟩
        exact ⟨rest ++ [i], k :: rest, hrest, rfl⟩
      · rintro ⟨rest, old, hold, heq⟩
        cases old with
        | nil => exact (hl ((h.pending l).mpr hold)).elim
        | cons k' old =>
            obtain rfl : k = k' := (List.cons.inj heq).1
            exact ⟨old, hold⟩
  · intro l k hk
    rw [hbound] at hk
    split at hk
    · cases hk
      exact hi
    · exact h.inside l k hk
  · exact fun k l hk => (knows_bindPending b i l).mpr (h.used k l hk)
  · intro l k
    rw [waitingOf_bindPending, hbound]
    split
    · simp
    · exact h.waiting l k
  · intro k l hk
    rw [hprogram, Program.target?, Program.instr_setTargets hhas, hbound]
    by_cases hl : l ∈ b.pending
    · rw [if_pos ((hws k l hk).mpr hl), if_pos hl]
      rfl
    · rw [if_neg (mt (hws k l hk).mp hl), if_neg hl]
      exact h.target k l hk

/-! ### Calls that emit nothing -/

/-- A new label is neither marked nor bound. -/
theorem Binds.newLabel (h : Binds marked branched code b) :
    Binds marked branched code b.newLabel.2 := by
  have hnew : ∀ l : LabelId, b.newLabel.2.labels[l.index]? =
      if l.index = b.labels.size then some {}
      else b.labels[l.index]? := fun l =>
    Array.getElem?_push
  have hbound : b.newLabel.2.bound? = b.bound? := by
    funext l
    rw [bound?, hnew, bound?]
    split
    · next hl =>
        rw [hl, Array.getElem?_eq_none le_rfl]
        rfl
    · rfl
  have hwaiting : b.newLabel.2.waitingOf = b.waitingOf := by
    funext l
    rw [waitingOf, hnew, waitingOf]
    split
    · next hl =>
        rw [hl, Array.getElem?_eq_none le_rfl]
        rfl
    · rfl
  have hknows : ∀ l, b.Knows l → b.newLabel.2.Knows l := fun l hl => by
    rw [Knows, Builder.newLabel, Array.size_push]
    exact Nat.lt_succ_of_lt hl
  refine ⟨h.linked, h.present, h.contents,
    fun l since hs => hknows l (h.known l since hs), ?_, h.once, h.pending, ?_,
    ?_, fun i l hi => hknows l (h.used i l hi), ?_, h.emitted, ?_, h.single⟩
  · intro l x hx
    rw [hnew] at hx
    split at hx
    · next hl =>
        cases hx
        refine ⟨fun hmarked => (by cases hmarked), fun ⟨since, hs⟩ => ?_⟩
        have hlt : l.index < b.labels.size := h.known l since hs
        omega
    · exact h.marks l x hx
  · rw [hbound]
    exact h.bound
  · rw [hbound]
    exact h.inside
  · rw [hwaiting, hbound]
    exact h.waiting
  · rw [hbound]
    exact h.target

/-- A new local has nothing to do with labels. -/
theorem Binds.declareLocal (h : Binds marked branched code b) (type : String) :
    Binds marked branched code (b.declareLocal type).2 :=
  { h with
    linked := h.linked.addLocal type "" h.present
    present := by simpa [Builder.declareLocal, Program.addLocal] using h.present
    contents :=
      (Program.code_addLocal h.linked type "" h.present).trans h.contents }

/-- The builder with a label marked. -/
def marking (b : Builder) (l : LabelId) : Builder :=
  { b with
    labels := b.labels.modify l.index fun x => { x with marked := true }
    pending := b.pending ++ [l] }

/-- A label that can be marked has not been marked yet. -/
theorem mark_eq_ok (h : b.mark l = .ok b') :
    b' = b.marking l ∧ ∃ x, b.labels[l.index]? = some x ∧ x.marked = false := by
  rw [mark] at h
  split at h
  · cases h
  · next x hx =>
      split at h
      · cases h
      · next hmarked =>
          cases h
          exact ⟨rfl, x, hx, by simpa using hmarked⟩

/-- A label is refused a second mark. -/
theorem Binds.mark_refused_iff (h : Binds marked branched code b)
    (hl : b.Knows l) : b.mark l = .error (.misuse .labelMarkedTwice) ↔
    ∃ since, marked l since := by
  rw [← h.marks l _ (Array.getElem?_eq_getElem hl), mark,
    Array.getElem?_eq_getElem hl]
  dsimp only
  split <;> simp_all

/-- One label is marked and the others stay. -/
theorem labels_marking (b : Builder) (l l' : LabelId) :
    (b.marking l).labels[l'.index]? = b.labels[l'.index]?.map fun x =>
      if l' = l then { x with marked := true } else x := by
  have hl : l' = l ↔ l.index = l'.index := by
    cases l
    cases l'
    simp [eq_comm]
  rw [marking, Array.getElem?_modify]
  simp only [hl]
  split <;> simp

/-- A mark stands at the end of what there is. -/
theorem Binds.marking (h : Binds marked branched code b) {x : Label}
    (hx : b.labels[l.index]? = some x) (hmarked : x.marked = false) :
    Binds (fun l' since => marked l' since ∨ l' = l ∧
      since = []) branched code (b.marking l) := by
  have hout : ∀ since, ¬ marked l since := fun since hs => by
    rw [(h.marks l x hx).mpr ⟨since, hs⟩] at hmarked
    cases hmarked
  have hbound : (b.marking l).bound? = b.bound? := by
    funext l'
    apply bound?_of_map (labels_marking b l l')
    intro x
    split <;> rfl
  have hwaiting : (b.marking l).waitingOf = b.waitingOf := by
    funext l'
    apply waitingOf_of_map (labels_marking b l l')
    intro x
    split <;> rfl
  have hknows : ∀ l', (b.marking l).Knows l' ↔ b.Knows l' := fun l' => by
    rw [Knows, Knows, Builder.marking, Array.size_modify]
  refine ⟨h.linked, h.present, h.contents, ?_, ?_, ?_, ?_, ?_, ?_, ?_, ?_,
    h.emitted, ?_, h.single⟩
  · rintro l' since (hs | ⟨rfl, -⟩)
    · exact (hknows l').mpr (h.known l' since hs)
    · exact (hknows l').mpr (Array.getElem?_eq_some_iff.mp hx).1
  · intro l' x' hx'
    rw [labels_marking] at hx'
    obtain ⟨y, hy, rfl⟩ := Option.map_eq_some_iff.mp hx'
    by_cases hl : l' = l
    · rw [if_pos hl]
      exact ⟨fun _ => ⟨[], Or.inr ⟨hl, rfl⟩⟩, fun _ => rfl⟩
    · rw [if_neg hl, h.marks l' y hy]
      simp [hl]
  · rintro l' since since' (hs | ⟨rfl, rfl⟩) (hs' | ⟨heq, rfl⟩)
    · exact h.once l' since since' hs hs'
    · exact (hout since (heq ▸ hs)).elim
    · exact (hout since' hs').elim
    · rfl
  · intro l'
    rw [Builder.marking, List.mem_append, List.mem_singleton, h.pending]
    simp
  · rw [hbound]
    intro l' i
    rw [h.bound]
    simp
  · rw [hbound]
    exact h.inside
  · exact fun i l' hi => (hknows l').mpr (h.used i l' hi)
  · rw [hwaiting, hbound]
    exact h.waiting
  · rw [hbound]
    exact h.target

/-! ### A call -/

/-- Marks may be told in another way. -/
theorem Binds.congr {marked' : LabelId → List InstrId → Prop}
    (h : Binds marked branched code b)
    (hmarked : ∀ l since, marked' l since ↔ marked l since) :
    Binds marked' branched code b := by
  have heq : marked' = marked := by
    funext l since
    exact propext (hmarked l since)
  rwa [heq]

/-- An instruction stands behind all marks. -/
theorem Binds.emit (h : Binds marked branched code b) (op : Opcode)
    (o : Operand) : Binds (fun l since => ∃ old, marked l old ∧ since = old ++
      [b.upcoming]) branched (code ++ [b.upcoming]) (b.emit op o).2 :=
  (h.grow op o).1.bindPending (List.mem_append_right _ List.mem_cons_self)

/-- A branch to a known label can be emitted. -/
theorem emitBranch_eq (hop : op.isBranch = true) (hl : b.Knows l) :
    b.emitBranch op l = .ok (b.upcoming, ((b.grow op
      (.ofTarget (b.bound? l))).file l b.upcoming).bindPending b.upcoming) := by
  have hbound : b.bound? l = b.labels[l.index].target := by
    rw [bound?, Array.getElem?_eq_getElem hl]
    rfl
  have hgrown : (b.grow op (.ofTarget (b.bound? l))).bound? l =
      b.labels[l.index].target := hbound
  rw [emitBranch, hop, Array.getElem?_eq_getElem hl, file, hgrown, hbound]
  rfl

/-- A branch goes to its label, or waits for it. -/
theorem Binds.emitBranch (h : Binds marked branched code b) (op : Opcode)
    (hl : b.Knows l) :
    Binds (fun l since => ∃ old, marked l old ∧ since = old ++ [b.upcoming])
    (branched ++ [(b.upcoming, l)]) (code ++ [b.upcoming]) (((b.grow op
      (.ofTarget (b.bound? l))).file l b.upcoming).bindPending b.upcoming) := by
  obtain ⟨hgrow, hout⟩ := h.grow op (.ofTarget (b.bound? l))
  have hlast : b.upcoming ∈ code ++ [b.upcoming] :=
    List.mem_append_right _ List.mem_cons_self
  refine (hgrow.file hl hlast
    (fun l' hl' => hout (h.emitted _ l' hl')) ?_).bindPending hlast
  rw [Program.target?, instr_grow, if_pos rfl]
  exact Operand.target?_ofTarget _

/-- A call without an instruction may be a mark. -/
theorem Call.marks_of_quiet (h : c.emitted b = none) :
    c.marks b marked l since ↔
    marked l since ∨ c = .mark l ∧ (b.mark l).isOk = true ∧ since = [] := by
  simp [marks, h]

/-- A call with an instruction puts it behind all marks. -/
theorem Call.marks_of_loud (h : c.emitted b = some i) :
    c.marks b marked l since ↔ ∃ old, marked l old ∧ since = old ++ [i] := by
  rw [marks, h, Option.toList_some, or_iff_left]
  rintro ⟨rfl, hok, -⟩
  rw [emitted, outcome] at h
  cases hm : b.mark l <;> rw [hm] at h <;> cases h

/-- What is refused or emits nothing, and is not a mark, changes nothing that is
written down. -/
theorem Binds.quiet (h : Binds marked branched code b')
    (hc : c.emitted b = none)
    (hmark : ∀ l, c = .mark l → (b.mark l).isOk = false) :
    Binds (c.marks b marked) (branched ++ c.branch b) (code ++
      (c.emitted b).toList) b' := by
  have hbranch : c.branch b = [] := by
    cases c <;> first | rfl | (rw [Call.branch, hc]; rfl)
  rw [hc, hbranch, Option.toList_none, List.append_nil, List.append_nil]
  refine h.congr fun l since => (Call.marks_of_quiet hc).trans (or_iff_left ?_)
  rintro ⟨heq, hok, -⟩
  rw [hmark l heq] at hok
  cases hok

/-- What emits an instruction has it behind all that has been written down. -/
theorem Binds.loud (hc : c.emitted b = some i)
    (h : Binds (fun l since => ∃ old, marked l old ∧ since = old ++ [i])
      (branched ++ c.branch b) (code ++ [i]) b') :
    Binds (c.marks b marked) (branched ++ c.branch b) (code ++
      (c.emitted b).toList) b' := by
  rw [hc, Option.toList_some]
  exact h.congr fun l since => Call.marks_of_loud hc

/-- A call that fails emits nothing. -/
theorem Call.emitted_of_error {e : Fault} (h : c.outcome b = .error e) :
    c.emitted b = none := by
  rw [emitted, h]

/-- A call that fails changes nothing. -/
theorem Call.perform_of_error {e : Fault} (h : c.outcome b = .error e) :
    c.perform b = b := by
  rw [perform, h]

theorem Call.emitted_of_ok {r : Option InstrId}
    (h : c.outcome b = .ok (r, b')) : c.emitted b = r := by
  rw [emitted, h]

theorem Call.perform_of_ok {r : Option InstrId}
    (h : c.outcome b = .ok (r, b')) : c.perform b = b' := by
  rw [perform, h]

/-- A branch is emitted to a known label only. -/
theorem emitBranch_eq_ok {r : InstrId × Builder}
    (h : b.emitBranch op l = .ok r) : b.Knows l ∧ r = (b.upcoming, ((b.grow op
      (.ofTarget (b.bound? l))).file l b.upcoming).bindPending b.upcoming) := by
  by_cases hop : op.isBranch = true
  · rcases Nat.lt_or_ge l.index b.labels.size with hl | hl
    · rw [emitBranch_eq hop hl] at h
      exact ⟨hl, (Except.ok.inj h).symm⟩
    · simp [Builder.emitBranch, hop, Array.getElem?_eq_none hl] at h
  · simp [Builder.emitBranch, hop] at h

/-- What one call does to all that has been written down. -/
theorem Binds.step (h : Binds marked branched code b) (c : Call) :
    Binds (c.marks b marked) (branched ++ c.branch b) (code ++
      (c.emitted b).toList) (c.perform b) := by
  rcases hout : c.outcome b with e | ⟨r, b'⟩
  · rw [Call.perform_of_error hout]
    refine h.quiet (Call.emitted_of_error hout) ?_
    rintro l rfl
    rw [Call.outcome] at hout
    cases hm : b.mark l <;> rw [hm] at hout
    · rfl
    · cases hout
  · have hemitted := Call.emitted_of_ok hout
    rw [Call.perform_of_ok hout]
    cases c with
    | emit op o =>
        cases hout
        refine .loud hemitted ?_
        rw [Call.branch.eq_def, List.append_nil]
        exact h.emit op o
    | emitCall m =>
        cases hout
        refine .loud hemitted ?_
        rw [Call.branch.eq_def, List.append_nil]
        exact h.emit _ _
    | emitBranchTo op t =>
        rw [Call.outcome, emitBranchTo] at hout
        split at hout <;> cases hout
        refine .loud hemitted ?_
        rw [Call.branch.eq_def, List.append_nil]
        exact h.emit op _
    | declareLocal type =>
        cases hout
        exact (h.declareLocal type).quiet hemitted (by simp)
    | newLabel =>
        cases hout
        exact h.newLabel.quiet hemitted (by simp)
    | mark l =>
        cases hm : b.mark l with
        | error e =>
            rw [Call.outcome, hm] at hout
            cases hout
        | ok b'' =>
            rw [Call.outcome, hm] at hout
            cases hout
            obtain ⟨rfl, x, hx, hmarked⟩ := mark_eq_ok hm
            rw [hemitted, Call.branch.eq_def, Option.toList_none,
              List.append_nil, List.append_nil]
            refine (h.marking hx hmarked).congr fun l' since =>
              (Call.marks_of_quiet hemitted).trans ?_
            have hok : (b.mark l).isOk = true := by
              rw [hm]
              rfl
            constructor
            · rintro (hs | ⟨heq, -, rfl⟩)
              · exact Or.inl hs
              · cases heq
                exact Or.inr ⟨rfl, rfl⟩
            · rintro (hs | ⟨rfl, rfl⟩)
              · exact Or.inl hs
              · exact Or.inr ⟨rfl, hok, rfl⟩
    | emitBranch op l =>
        cases hm : b.emitBranch op l with
        | error e =>
            rw [Call.outcome, hm] at hout
            cases hout
        | ok q =>
            rw [Call.outcome, hm] at hout
            cases hout
            obtain ⟨hl, rfl⟩ := emitBranch_eq_ok hm
            refine .loud hemitted ?_
            rw [Call.branch, hemitted]
            exact h.emitBranch op hl

/-- What calls have done to a fresh builder. -/
theorem Fresh.binds_after (h : start.Fresh) (cs : List Call) :
    Binds (start.Marked cs) (start.branches cs)
      (start.program.code start.body ++ start.emits cs) (start.after cs) := by
  induction cs using List.reverseRecOn with
  | nil =>
      rw [emits, List.append_nil]
      refine h.binds.congr fun l since => ⟨?_, False.elim⟩
      rintro ⟨pre, post, heq, -⟩
      simp at heq
  | append_singleton cs c ih =>
      rw [after_append, branches_append, emits_append, ← List.append_assoc]
      exact (ih.step c).congr fun l since => marked_append

/-! ### Finishing -/

/-- No label of a list is unbound if each is bound. -/
theorem unbound?_eq_none_iff (b : Builder) (n : Nat) (ls : List LabelId) :
    b.unbound? n ls = .ok none ↔ ∀ l ∈ ls, b.bound? l ≠ none := by
  induction ls generalizing n with
  | nil => simp [unbound?]
  | cons l ls ih =>
      rw [List.forall_mem_cons, unbound?, bound?]
      cases b.labels[l.index]? with
      | none => simp
      | some x => cases hx : x.target <;> simp [hx, ih]

/-- Known labels can be asked whether they are bound. -/
theorem unbound?_of_known {ls : List LabelId} (h : ∀ l ∈ ls, b.Knows l)
    (n : Nat) : ∃ r, b.unbound? n ls = .ok r := by
  induction ls generalizing n with
  | nil => exact ⟨none, rfl⟩
  | cons l ls ih =>
      rw [List.forall_mem_cons] at h
      rw [unbound?, Array.getElem?_eq_getElem h.1]
      dsimp only
      split
      · exact ⟨some n, rfl⟩
      · exact ih h.2 (n + 1)

/-- A body can be finished if all labels are bound. -/
theorem finish_eq_ok_iff (b : Builder) (ls : List LabelId) :
    b.finish ls = .ok () ↔ b.pending = [] ∧ ∀ l ∈ ls, b.bound? l ≠ none := by
  rw [← unbound?_eq_none_iff b 0 ls, finish]
  cases hpending : b.pending with
  | cons l rest => simp
  | nil =>
      rcases hr : b.unbound? 0 ls with e | (_ | n) <;>
        simp [Bind.bind, Except.bind]

/-- On labels that have been made, finishing fails with a text and in no other
way. -/
theorem finish_of_known {ls : List LabelId} (h : ∀ l ∈ ls, b.Knows l) :
    (∃ text, b.finish ls = .error (.text text)) ↔ b.finish ls ≠ .ok () := by
  constructor
  · rintro ⟨text, htext⟩ hok
    rw [htext] at hok
    cases hok
  intro hfail
  rw [finish] at hfail ⊢
  split
  · exact ⟨_, rfl⟩
  · next hnil =>
      rw [if_neg hnil] at hfail
      obtain ⟨r, hr⟩ := unbound?_of_known h 0
      rw [hr] at hfail ⊢
      cases r with
      | none => exact (hfail rfl).elim
      | some n => exact ⟨_, rfl⟩

/-! ### Labels and calls -/

/-- The call is refused, and changes nothing. -/
def Call.Refused (c : Call) (b : Builder) (m : Misuse) : Prop :=
  c.outcome b = .error (.misuse m) ∧ c.perform b = b

/-- A call is refused if that is its outcome. -/
theorem Call.refused_iff {m : Misuse} :
    c.Refused b m ↔ c.outcome b = .error (.misuse m) :=
  ⟨And.left, fun h => ⟨h, perform_of_error h⟩⟩

/-- Only a label that is marked already is refused. -/
theorem Binds.refused_iff (h : Binds marked branched code b) (hl : b.Knows l) :
    (Call.mark l).Refused b .labelMarkedTwice ↔ ∃ since, marked l since := by
  rw [Call.refused_iff, ← h.mark_refused_iff hl, Call.outcome]
  cases b.mark l <;> simp [Except.map]

/-- **Whatever calls are made on a fresh builder, a label is bound to the first
instruction that is emitted after its mark, and the branches emitted for it, at
any time, go there.**

The code has what the calls have emitted behind what it had.  A label that has
not been marked is not bound.  As the branch that is the first instruction after
a mark is among the branches too, it goes to itself if it is for that label.  A
second mark and a branch with another opcode are refused. Finishing succeeds
only if all labels it is given are bound, and if these are all that branches
have been emitted for, each of these branches goes to an instruction of the
body.  It fails with an error exactly if a mark waits for an instruction or one
of the labels is not bound. -/
theorem labels_bind (h : start.Fresh) (cs : List Call) :
    let b := start.after cs
    b.program.code b.body = start.program.code start.body ++ start.emits cs ∧
    (∀ l since, start.Marked cs l since → b.bound? l = since.head?) ∧
    (∀ l, (∀ since, ¬ start.Marked cs l since) → b.bound? l = none) ∧
    (∀ i l, (i, l) ∈ start.branches cs → b.program.target? i = b.bound? l) ∧
    (∀ l, b.Knows l →
      ((Call.mark l).Refused b .labelMarkedTwice ↔
        ∃ since, start.Marked cs l since)) ∧
    (∀ op l t, op.isBranch = false →
      (Call.emitBranch op l).Refused b (.notABranch op.name) ∧
      (Call.emitBranchTo op t).Refused b (.notABranch op.name)) ∧
    ∀ ls, (b.finish ls = .ok () → (∀ i l, (i, l) ∈ start.branches cs → l ∈ ls) →
        ∀ i l, (i, l) ∈ start.branches cs →
          ∃ k ∈ b.program.code b.body, b.program.target? i = some k) ∧
      ((∀ l ∈ ls, b.Knows l) → ((∃ text, b.finish ls = .error (.text text)) ↔
        (∃ l, start.Marked cs l []) ∨ ∃ l ∈ ls, b.bound? l = none)) := by
  intro b
  have hb : Binds (start.Marked cs) (start.branches cs) _ b := h.binds_after cs
  refine ⟨hb.contents, fun l since hs => ?_, fun l hno => ?_, hb.target,
    fun l hl => hb.refused_iff hl, fun op l t hop => ?_,
    fun ls => ⟨fun hok hall i l hi => ?_, fun hknown => ?_⟩⟩
  · cases since with
    | nil => exact hb.unbound_of_pending ((hb.pending l).mpr hs)
    | cons i rest => exact (hb.bound l i).mpr ⟨rest, hs⟩
  · rw [Option.eq_none_iff_forall_ne_some]
    intro i hi
    obtain ⟨rest, hs⟩ := (hb.bound l i).mp hi
    exact hno _ hs
  · rw [Call.refused_iff, Call.refused_iff, Call.outcome, Call.outcome,
      Builder.emitBranch, emitBranchTo, hop]
    exact ⟨rfl, rfl⟩
  · obtain ⟨k, hk⟩ := Option.ne_none_iff_exists'.mp
      (((finish_eq_ok_iff b ls).mp hok).2 l (hall i l hi))
    exact ⟨k, hb.contents ▸ hb.inside l k hk, (hb.target i l hi).trans hk⟩
  · rw [finish_of_known hknown, ne_eq, finish_eq_ok_iff, not_and_or,
      List.eq_nil_iff_forall_not_mem]
    simp only [hb.pending, not_forall, not_not, exists_prop]

/-- A builder on an empty body. -/
def blank : Builder where
  program := { bodies := #[{}] }
  body := ⟨0⟩

/-- A label that is branched to before it is marked and after it is bound, and
one that is branched to as soon as it is marked. -/
def loops : List Call :=
  [.newLabel, .newLabel, .emitBranch ⟨0x52⟩ ⟨0⟩, .mark ⟨0⟩, .mark ⟨1⟩,
    .emitBranch ⟨0x54⟩ ⟨1⟩, .emit .nop .absent, .emitBranch .br ⟨0⟩]

theorem fresh_blank : blank.Fresh := ⟨by decide +kernel, by decide, rfl, rfl⟩

theorem labels_bind_loops :
    let b := blank.after loops
    blank.Fresh ∧ b.program.code b.body = [⟨0⟩, ⟨1⟩, ⟨2⟩, ⟨3⟩] ∧
    blank.Marked loops ⟨0⟩ [⟨1⟩, ⟨2⟩, ⟨3⟩] ∧
      blank.Marked loops ⟨1⟩ [⟨1⟩, ⟨2⟩, ⟨3⟩] ∧
    b.program.target? ⟨0⟩ = some ⟨1⟩ ∧ b.program.target? ⟨1⟩ = some ⟨1⟩ ∧
    b.program.target? ⟨3⟩ = some ⟨1⟩ ∧ b.finish [⟨0⟩, ⟨1⟩] = .ok () := by
  intro b
  obtain ⟨hcode, hbound, -, htarget, -⟩ := labels_bind fresh_blank loops
  have hfirst : blank.Marked loops ⟨0⟩ [⟨1⟩, ⟨2⟩, ⟨3⟩] :=
    ⟨loops.take 3, loops.drop 4, rfl, by decide +kernel, by decide +kernel⟩
  have hsecond : blank.Marked loops ⟨1⟩ [⟨1⟩, ⟨2⟩, ⟨3⟩] :=
    ⟨loops.take 4, loops.drop 5, rfl, by decide +kernel, by decide +kernel⟩
  have hemits : blank.emits loops = [⟨0⟩, ⟨1⟩, ⟨2⟩, ⟨3⟩] := by decide +kernel
  have hbranches :
      blank.branches loops = [(⟨0⟩, ⟨0⟩), (⟨1⟩, ⟨1⟩), (⟨3⟩, ⟨0⟩)] := by
    decide +kernel
  rw [hbranches] at htarget
  refine ⟨fresh_blank, hcode.trans hemits, hfirst, hsecond, ?_, ?_, ?_,
    by decide +kernel⟩
  · exact (htarget _ ⟨0⟩ (by simp)).trans (hbound _ _ hfirst)
  · exact (htarget _ ⟨1⟩ (by simp)).trans (hbound _ _ hsecond)
  · exact (htarget _ ⟨0⟩ (by simp)).trans (hbound _ _ hfirst)

end Bytecode.Builder
