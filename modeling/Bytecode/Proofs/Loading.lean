import Mathlib
import Bytecode.Proofs.Storing

/-!
# What is loaded from a document

Loading puts new methods, bodies and instructions behind those a program has and
changes nothing else, `Program.Grows`.  `LoadedBody` and `LoadedMethod` say what
stands in a program for a stored body and a stored method, in terms that growth
preserves, and `LoadedType` and `LoadedModule` carry this up the tree.  Main
statements: `load_ok`, what loading gives, and `load_of_loadable`, when it gives
something.
-/

namespace Bytecode

namespace Program

/-- All that `p` holds is held by `q` under the same identifiers. -/
structure Grows (p q : Program) : Prop where
  instrs : p.instrs.toList <+: q.instrs.toList
  bodies : p.bodies.toList <+: q.bodies.toList
  methods : p.methods.toList <+: q.methods.toList
  chain : q.chain = p.chain

variable {p q r : Program}

theorem Grows.refl (p : Program) : p.Grows p :=
  ⟨List.prefix_rfl, List.prefix_rfl, List.prefix_rfl, rfl⟩

theorem Grows.trans (h : p.Grows q) (h' : q.Grows r) : p.Grows r :=
  ⟨h.instrs.trans h'.instrs, h.bodies.trans h'.bodies,
    h.methods.trans h'.methods, h'.chain.trans h.chain⟩

/-- What an array holds stays when it grows. -/
theorem getD_of_grown {α : Type} {xs ys : Array α} {n : Nat}
    (h : xs.toList <+: ys.toList) (hn : n < xs.size) (a : α) :
    ys.getD n a = xs.getD n a := by
  have hx : xs[n]? = some xs[n] := Array.getElem?_eq_getElem hn
  have hy := File.getElem?_of_grown h hx
  rw [Array.getElem?_toList] at hy
  rw [Array.getD_eq_getD_getElem?, Array.getD_eq_getD_getElem?, hx, hy]

/-- Instructions stay as they are. -/
theorem Grows.instr (h : p.Grows q) {i : InstrId}
    (hi : i.index < p.instrs.size) : q.instr i = p.instr i :=
  getD_of_grown h.instrs hi _

/-- Bodies stay as they are. -/
theorem Grows.body (h : p.Grows q) {b : BodyId} (hb : b.index < p.bodies.size) :
    q.body b = p.body b := getD_of_grown h.bodies hb _

/-- Methods stay as they are. -/
theorem Grows.method (h : p.Grows q) {m : MethodId}
    (hm : m.index < p.methods.size) : q.method m = p.method m :=
  getD_of_grown h.methods hm _

/-- There are as many instructions at least. -/
theorem Grows.size_instrs (h : p.Grows q) : p.instrs.size ≤ q.instrs.size :=
  h.instrs.length_le

/-- There are as many bodies at least. -/
theorem Grows.size_bodies (h : p.Grows q) : p.bodies.size ≤ q.bodies.size :=
  h.bodies.length_le

/-- There are as many methods at least. -/
theorem Grows.size_methods (h : p.Grows q) : p.methods.size ≤ q.methods.size :=
  h.methods.length_le

end Program

/-- The last element of an array is changed. -/
theorem modify_push_size {α : Type} (xs : Array α) (a : α) (f : α → α) :
    (xs.push a).modify xs.size f = xs.push (f a) := by
  apply Array.ext
  · simp
  · intro i _ hi
    rw [Array.size_push] at hi
    rw [Array.getElem_modify, Array.getElem_push, Array.getElem_push]
    by_cases h : i = xs.size
    · simp [h]
    · rw [if_neg (Ne.symm h), dif_pos (by omega), dif_pos (by omega)]

namespace File

variable {p q : Program} {d : Document} {b : BodyId} {m : MethodId}
  {us : List Unpacked} {type : TypeName}

/-- The branches lead to offsets inside the code. -/
def Inside (us : List Unpacked) : Prop :=
  ∀ u ∈ us, ∀ n ∈ u.branch, n < us.length

/-- All branches stay within the code. -/
theorem checkBranches_ok_iff {count : Nat} {x : Unit} :
    checkBranches count us = .ok x ↔ ∀ u ∈ us, ∀ n ∈ u.branch, n < count := by
  induction us with
  | nil => simp [checkBranches]
  | cons u us ih =>
      rw [checkBranches, List.forall_mem_cons]
      split
      · next n hn =>
          split
          · next hlt => simp [ih, hn, hlt]
          · next hlt => simp [hn, hlt]
      · next hn => simp [ih, hn]

/-- The instruction that an unpacked one becomes in body `b`, the code of which
starts with the instruction numbered `first`. -/
def Unpacked.placed (first : Nat) (b : BodyId) (u : Unpacked) : Instr where
  op := u.op
  operand := match u.branch with
    | some n => .target ⟨first + n⟩
    | none => u.operand
  owner := some b

/-- The body that a stored body becomes, the code of which starts with the
instruction numbered `first`. -/
def StoredBody.placed (first : Nat) (m : Option MethodId) (us : List Unpacked)
    (s : StoredBody) : Body where
  code := (List.range us.length).map fun n => ⟨first + n⟩
  locals := numbered s.locals
  maxStack := s.maxStack
  initLocals := s.initLocals
  method := m

/-- A new body with new code stands behind the others, and so do its
instructions. -/
theorem appendNew_newBody (y : Body) (xs : List (Opcode × Operand)) :
    (p.newBody y).2.appendNew (p.newBody y).1 xs = { p with
      instrs := p.instrs ++
        (xs.map fun x => (⟨x.1, x.2, some ⟨p.bodies.size⟩⟩ : Instr)).toArray
      bodies := p.bodies.push { y with
        code :=
          y.code ++ (List.range xs.length).map fun n => ⟨p.instrs.size + n⟩
        method := none } } := by
  simp only [Program.newBody, Program.appendNew, Program.modifyBody,
    modify_push_size]

/-- **Unpacking a body** succeeds if its code can be read and stays inside. -/
theorem unpackBody_ok_iff {s : StoredBody} : unpackBody d p s = .ok (b, q) ↔
    ∃ us, Reads d (numbered s.locals) s.code us ∧ Inside us ∧
    b = ⟨p.bodies.size⟩ ∧ q = { p with
        instrs := p.instrs ++
          (us.map (Unpacked.placed p.instrs.size ⟨p.bodies.size⟩)).toArray
        bodies := p.bodies.push (s.placed p.instrs.size none us) } := by
  have hplaced : ∀ us : List Unpacked,
      (p.newBody { maxStack := s.maxStack, initLocals := s.initLocals,
                   locals := numbered s.locals }).2.appendNew
      ⟨p.bodies.size⟩ (us.map fun x => (x.op, match x.branch with
          | some n => .target ⟨p.instrs.size + n⟩
          | none => x.operand)) =
      { p with
        instrs := p.instrs ++
          (us.map (Unpacked.placed p.instrs.size ⟨p.bodies.size⟩)).toArray
        bodies := p.bodies.push (s.placed p.instrs.size none us) } := by
    intro us
    refine (appendNew_newBody _ _).trans ?_
    simp only [List.map_map, List.length_map, List.nil_append]
    rfl
  constructor
  · intro h
    obtain ⟨us, hus, h⟩ := bind_ok_iff.mp h
    obtain ⟨_, hin, h⟩ := bind_ok_iff.mp h
    cases h
    exact ⟨us, unpackCode_ok_iff.mp hus, checkBranches_ok_iff.mp hin, rfl,
      hplaced us⟩
  · rintro ⟨us, hus, hin, rfl, rfl⟩
    refine bind_ok_iff.mpr ⟨us, unpackCode_ok_iff.mpr hus,
      bind_ok_iff.mpr ⟨(), checkBranches_ok_iff.mpr hin, ?_⟩⟩
    rw [← hplaced us]
    rfl

/-- The signature that a stored method declares. -/
def StoredMethod.signature (type : TypeName) (s : StoredMethod) : Method where
  name := s.name
  params := s.params
  returnType := if s.returnType = "" then voidType else s.returnType
  attrs := s.attrs
  declaring := some type

/-- The program with a method that has no body behind the others. -/
def withBare (p : Program) (x : Method) : Program :=
  { p with methods := p.methods.push x }

/-- The program with a method behind the others, with its body and the
instructions of that. -/
def withBody (p : Program) (x : Method) (s : StoredBody) (us : List Unpacked) :
    Program where
  instrs :=
    p.instrs ++ (us.map (Unpacked.placed p.instrs.size ⟨p.bodies.size⟩)).toArray
  bodies := p.bodies.push (s.placed p.instrs.size (some ⟨p.methods.size⟩) us)
  methods := p.methods.push { x with body := some ⟨p.bodies.size⟩ }
  chain := p.chain

/-- Attaching the last body to the last method, which has none, changes these
two. -/
theorem setBody_last (is : Array Instr) (bs : Array Body) (ms : Array Method)
    (c : Option Chain) {x : Method} (y : Body) (hx : x.body = none) :
    (⟨is, bs.push y, ms.push x, c⟩ : Program).setBody ⟨ms.size⟩
    (some ⟨bs.size⟩) = ⟨is, bs.push { y with method := some ⟨ms.size⟩ },
      ms.push { x with body := some ⟨bs.size⟩ }, c⟩ := by
  have hnone : ((⟨is, bs.push y, ms.push x, c⟩ : Program).method
      ⟨ms.size⟩).body = none := by
    simp [Program.method, hx]
  simp only [Program.setBody, hnone, Program.modifyMethod, Program.modifyBody,
    modify_push_size]

/-- **Loading a method** succeeds if it has no body or one that can be
unpacked. -/
theorem loadMethod_ok_iff {s : StoredMethod} :
    loadMethod d type s p = .ok (m, q) ↔ m = ⟨p.methods.size⟩ ∧
    ((s.body = none ∧ q = withBare p (s.signature type)) ∨
      ∃ x us, s.body = some x ∧ Reads d (numbered x.locals) x.code us ∧
      Inside us ∧ q = withBody p (s.signature type) x us) := by
  cases hs : s.body with
  | none =>
      have hload : loadMethod d type s p =
          .ok (⟨p.methods.size⟩, withBare p (s.signature type)) := by
        rw [loadMethod, hs]
        rfl
      rw [hload]
      simp only [Except.ok.injEq, Prod.mk.injEq, true_and, reduceCtorEq,
        false_and, exists_false, or_false]
      exact and_congr eq_comm eq_comm
  | some x =>
      have hset : ∀ us, (⟨p.instrs ++
          (us.map (Unpacked.placed p.instrs.size ⟨p.bodies.size⟩)).toArray,
          p.bodies.push (x.placed p.instrs.size none us), p.methods.push
          (s.signature type), p.chain⟩ : Program).setBody ⟨p.methods.size⟩
          (some ⟨p.bodies.size⟩) = withBody p (s.signature type) x us :=
        fun us => setBody_last _ _ _ _ _ rfl
      constructor
      · intro h
        rw [loadMethod, hs] at h
        obtain ⟨⟨b, r⟩, hr, h⟩ := bind_ok_iff.mp h
        obtain ⟨us, hus, hin, rfl, rfl⟩ :=
          unpackBody_ok_iff.mp (Fault.during_ok_iff.mp hr)
        cases h
        exact ⟨rfl, .inr ⟨x, us, rfl, hus, hin, hset us⟩⟩
      · rintro ⟨rfl, ⟨hnone, -⟩ | ⟨y, us, hy, hus, hin, rfl⟩⟩
        · cases hnone
        · obtain rfl := Option.some.inj hy
          rw [loadMethod, hs, ← hset us]
          exact bind_ok_iff.mpr ⟨_, Fault.during_ok_iff.mpr
            (unpackBody_ok_iff.mpr ⟨us, hus, hin, rfl, rfl⟩), rfl⟩

/-! ### What a program holds of a document -/

/-- Body `b` of the program is what the stored body `s` describes. -/
structure LoadedBody (d : Document) (q : Program) (s : StoredBody)
    (b : BodyId) : Prop where
  present : b.index < q.bodies.size
  unlinked : q.chain = none
  has : ∀ i ∈ (q.body b).code, i.index < q.instrs.size
  reads : Reads d (q.body b).locals s.code (unpacked q b)
  locals : (q.body b).locals = numbered s.locals
  maxStack : (q.body b).maxStack = s.maxStack
  initLocals : (q.body b).initLocals = s.initLocals

/-- Method `m` of the program is what the stored method `s` of a type
describes. -/
structure LoadedMethod (d : Document) (type : TypeName) (q : Program)
    (s : StoredMethod) (m : MethodId) : Prop where
  present : m.index < q.methods.size
  signature : { q.method m with body := none } = s.signature type
  bare : s.body = none → (q.method m).body = none
  body : ∀ x, s.body = some x → ∃ b, (q.method m).body = some b ∧
    LoadedBody d q x b

/-- The type `t` is what the stored type `s` describes. -/
structure LoadedType (d : Document) (q : Program) (s : StoredType)
    (t : TypeDef) : Prop where
  name : t.name = s.name
  methods : List.Forall₂ (LoadedMethod d s.name q) s.methods t.methods

/-- The module `x` is what the stored module `s` describes. -/
structure LoadedModule (d : Document) (q : Program) (s : StoredModule)
    (x : Module) : Prop where
  name : x.name = s.name
  types : List.Forall₂ (LoadedType d q) s.types x.types

/-- Without a broken chain the code of a body is its list. -/
theorem code_eq (hq : q.chain = none) (b : BodyId) :
    q.code b = (q.body b).code := by
  rw [Program.code, hq]

/-- Without a broken chain a body is linked as it stands. -/
theorem linkedBody_eq (hq : q.chain = none) (b : BodyId) :
    linkedBody q b = q.body b := by
  rw [linkedBody, code_eq hq]

/-- Without a broken chain the code is unpacked from the list. -/
theorem unpacked_eq (hq : q.chain = none) (b : BodyId) : unpacked q b =
    (q.body b).code.map fun i => .ofInstr (q.body b) (q.instr i) := by
  rw [unpacked, code_eq hq, linkedBody_eq hq]

/-- A loaded body stays loaded when the program grows. -/
theorem LoadedBody.grow {s : StoredBody} (h : LoadedBody d p s b)
    (hpq : p.Grows q) : LoadedBody d q s b := by
  have hbody := hpq.body h.present
  have hq : q.chain = none := hpq.chain.trans h.unlinked
  have hunpacked : unpacked q b = unpacked p b := by
    rw [unpacked_eq hq, unpacked_eq h.unlinked, hbody]
    refine List.map_congr_left fun i hi => ?_
    rw [hpq.instr (h.has i hi)]
  exact {
    present := Nat.lt_of_lt_of_le h.present hpq.size_bodies
    unlinked := hq
    has := fun i hi => Nat.lt_of_lt_of_le (h.has i (hbody ▸ hi)) hpq.size_instrs
    reads := by
      rw [hunpacked, hbody]
      exact h.reads
    locals := by
      rw [hbody]
      exact h.locals
    maxStack := by
      rw [hbody]
      exact h.maxStack
    initLocals := by
      rw [hbody]
      exact h.initLocals }

/-- A loaded method stays loaded when the program grows. -/
theorem LoadedMethod.grow {s : StoredMethod} (h : LoadedMethod d type p s m)
    (hpq : p.Grows q) : LoadedMethod d type q s m := by
  have hmethod := hpq.method h.present
  refine ⟨Nat.lt_of_lt_of_le h.present hpq.size_methods, hmethod ▸ h.signature,
    fun hs => hmethod ▸ h.bare hs, fun x hx => ?_⟩
  obtain ⟨b, hb, hbody⟩ := h.body x hx
  exact ⟨b, hmethod ▸ hb, hbody.grow hpq⟩

/-- A loaded type stays loaded when the program grows. -/
theorem LoadedType.grow {s : StoredType} {t : TypeDef} (h : LoadedType d p s t)
    (hpq : p.Grows q) : LoadedType d q s t :=
  ⟨h.name, h.methods.imp fun _ _ hm => hm.grow hpq⟩

/-- A loaded module stays loaded when the program grows. -/
theorem LoadedModule.grow {s : StoredModule} {x : Module}
    (h : LoadedModule d p s x) (hpq : p.Grows q) : LoadedModule d q s x :=
  ⟨h.name, h.types.imp fun _ _ ht => ht.grow hpq⟩

/-! ### Loading -/

/-- A method without a body makes the program grow. -/
theorem grows_withBare (p : Program) (x : Method) : p.Grows (withBare p x) where
  instrs := List.prefix_rfl
  bodies := List.prefix_rfl
  methods := by
    rw [withBare, Array.toList_push]
    exact List.prefix_append _ _
  chain := rfl

/-- A method with a body makes the program grow. -/
theorem grows_withBody (p : Program) (x : Method) (s : StoredBody)
    (us : List Unpacked) : p.Grows (withBody p x s us) where
  instrs := by
    rw [withBody, Array.toList_append]
    exact List.prefix_append _ _
  bodies := by
    rw [withBody, Array.toList_push]
    exact List.prefix_append _ _
  methods := by
    rw [withBody, Array.toList_push]
    exact List.prefix_append _ _
  chain := rfl

/-- Fresh instructions are found at their places. -/
theorem idxOf?_fresh {first count n : Nat} (hn : n < count) :
    ((List.range count).map
      fun n => (⟨first + n⟩ : InstrId)).idxOf? ⟨first + n⟩ = some n := by
  rw [List.idxOf?_eq_some_iff]
  refine ⟨by simpa using hn, by simp, fun k hk => ?_⟩
  simp
  omega

/-- An unpacked instruction that is tidy is found again in the code it has been
placed in. -/
theorem ofInstr_placed {u : Unpacked} {first count : Nat} {y : Body}
    (hu : u.Tidy) (hin : ∀ n ∈ u.branch, n < count)
    (hy : y.code = (List.range count).map fun n => ⟨first + n⟩) :
    Unpacked.ofInstr y (u.placed first b) = u := by
  obtain ⟨op, o, branch⟩ := u
  by_cases hs : op.shape = .target
  · obtain ⟨rfl, hsome⟩ := hu.branch hs
    obtain ⟨n, rfl⟩ := Option.isSome_iff_exists.mp hsome
    have hn : y.code.idxOf? ⟨first + n⟩ = some n := by
      rw [hy]
      exact idxOf?_fresh (hin n rfl)
    simp [Unpacked.ofInstr, Unpacked.placed, hs, Instr.target?,
      Operand.target?, hn]
  · obtain rfl : branch = none := hu.other hs
    simp [Unpacked.ofInstr, Unpacked.placed, hs]

/-- The new body of a program. -/
theorem body_withBody (p : Program) (x : Method) (s : StoredBody)
    (us : List Unpacked) : (withBody p x s us).body ⟨p.bodies.size⟩ =
    s.placed p.instrs.size (some ⟨p.methods.size⟩) us := by
  simp [Program.body, withBody]

/-- The new instructions of a program. -/
theorem instr_withBody (p : Program) (x : Method) (s : StoredBody)
    {us : List Unpacked} {n : Nat} (hn : n < us.length) :
    (withBody p x s us).instr ⟨p.instrs.size + n⟩ =
    us[n].placed p.instrs.size ⟨p.bodies.size⟩ := by
  simp [Program.instr, withBody, Array.getD_eq_getD_getElem?, hn]

/-- A new body is unpacked as it was stored. -/
theorem unpacked_withBody (hp : p.chain = none) (x : Method) (s : StoredBody)
    (hus : ∀ u ∈ us, u.Tidy) (hin : Inside us) :
    unpacked (withBody p x s us) ⟨p.bodies.size⟩ = us := by
  rw [unpacked_eq (q := withBody p x s us) hp, body_withBody]
  refine List.ext_getElem (by simp [StoredBody.placed]) fun n hn hn' => ?_
  simp only [StoredBody.placed, List.map_map, List.getElem_map,
    List.getElem_range, Function.comp_apply, instr_withBody p x s hn']
  exact ofInstr_placed (hus _ (List.getElem_mem hn'))
    (hin _ (List.getElem_mem hn')) rfl

/-- A new body is loaded as it was stored. -/
theorem loadedBody_withBody (hp : p.chain = none) (x : Method) {s : StoredBody}
    (hus : Reads d (numbered s.locals) s.code us) (hin : Inside us) :
    LoadedBody d (withBody p x s us) s ⟨p.bodies.size⟩ := by
  have hbody := body_withBody p x s us
  exact {
    present := by simp [withBody]
    unlinked := hp
    has := by
      intro i hi
      rw [hbody] at hi
      obtain ⟨n, hn, rfl⟩ := List.mem_map.mp hi
      simpa [withBody] using hn
    reads := by
      rw [unpacked_withBody hp x s (fun u hu => (hus.each u hu).2.1) hin, hbody]
      exact hus
    locals := by rw [hbody]; rfl
    maxStack := by rw [hbody]; rfl
    initLocals := by rw [hbody]; rfl }

/-- A method that has been loaded is as it was stored. -/
theorem loadMethod_ok {s : StoredMethod} (hp : p.chain = none)
    (h : loadMethod d type s p = .ok (m, q)) :
    p.Grows q ∧ LoadedMethod d type q s m := by
  obtain ⟨rfl, ⟨hs, rfl⟩ | ⟨x, us, hs, hus, hin, rfl⟩⟩ := loadMethod_ok_iff.mp h
  · have hmethod : (withBare p (s.signature type)).method ⟨p.methods.size⟩ =
        s.signature type := by
      simp [Program.method, withBare]
    refine ⟨grows_withBare p _, by simp [withBare], by rw [hmethod]; rfl,
      fun _ => by rw [hmethod]; rfl,
      fun x hx => absurd (hs.symm.trans hx) nofun⟩
  · have hmethod :
        (withBody p (s.signature type) x us).method ⟨p.methods.size⟩ =
        { s.signature type with body := some ⟨p.bodies.size⟩ } := by
      simp [Program.method, withBody]
    refine ⟨grows_withBody p _ x us, by simp [withBody], by rw [hmethod]; rfl,
      fun h => absurd (hs.symm.trans h) nofun, fun y hy => ?_⟩
    obtain rfl : x = y := Option.some.inj (hs.symm.trans hy)
    exact ⟨_, by rw [hmethod], loadedBody_withBody hp _ hus hin⟩

end File

/-- Steps that each make a state grow, and an element that outlasts growth, make
elements that all are there in the end. -/
theorem Threads.grown {α β : Type} {R : Program → α → β → Program → Prop}
    {L : Program → α → β → Prop} {p q : Program} {xs : List α} {ys : List β}
    (h : Threads R p xs ys q) (hp : p.chain = none)
    (hstep : ∀ {p x y q}, p.chain = none → R p x y q → p.Grows q ∧ L q x y)
    (hgrow : ∀ {p x y q}, L p x y → p.Grows q → L q x y) :
    p.Grows q ∧ List.Forall₂ (L q) xs ys := by
  induction h with
  | nil => exact ⟨.refl _, .nil⟩
  | cons hr _ ih =>
      obtain ⟨hgrows, hl⟩ := hstep hp hr
      obtain ⟨hgrows', hls⟩ := ih (hgrows.chain.trans hp)
      exact ⟨hgrows.trans hgrows', .cons (hgrow hl hgrows') hls⟩

namespace File

variable {p q : Program} {d : Document}

/-- A type that has been loaded is as it was stored. -/
theorem loadType_ok {s : StoredType} {t : TypeDef} (hp : p.chain = none)
    (h : loadType d s p = .ok (t, q)) : p.Grows q ∧ LoadedType d q s t := by
  obtain ⟨⟨ms, r⟩, hms, h⟩ := bind_ok_iff.mp h
  cases h
  obtain ⟨hgrows, hloaded⟩ :=
    (mapM_ok_iff.mp hms).grown hp loadMethod_ok LoadedMethod.grow
  exact ⟨hgrows, rfl, hloaded⟩

/-- A module that has been loaded is as it was stored. -/
theorem loadModule_ok {s : StoredModule} {x : Module} (hp : p.chain = none)
    (h : loadModule d s p = .ok (x, q)) : p.Grows q ∧ LoadedModule d q s x := by
  obtain ⟨⟨ts, r⟩, hts, h⟩ := bind_ok_iff.mp h
  cases h
  obtain ⟨hgrows, hloaded⟩ :=
    (mapM_ok_iff.mp hts).grown hp loadType_ok LoadedType.grow
  exact ⟨hgrows, rfl, hloaded⟩

/-- The assembly `a` is what a document describes. -/
structure Loaded (d : Document) (q : Program) (a : Assembly) : Prop where
  name : a.name = d.name
  version : a.version = d.version
  kind : a.kind = ⟨d.kind⟩
  modules : List.Forall₂ (LoadedModule d q) d.modules a.modules

/-- A kind that files may have. -/
def KnownKind (k : UInt8) : Prop :=
  k = AssemblyKind.library.code ∨ k = AssemblyKind.executable.code

/-- **Loading an assembly** succeeds if its kind is known and its modules can be
loaded. -/
theorem load_ok_iff {a : Assembly} : load d = .ok (a, q) ↔
    KnownKind d.kind ∧ ∃ ms, (d.modules.mapM (loadModule d)) {} = .ok (ms, q) ∧
    a = { name := d.name, version := d.version, kind := ⟨d.kind⟩,
          modules := ms } := by
  have hkind : (d.kind ≠ AssemblyKind.library.code &&
      d.kind ≠ AssemblyKind.executable.code) = true ↔ ¬ KnownKind d.kind := by
    simp [KnownKind, not_or]
  rw [load]
  by_cases hk : KnownKind d.kind
  · rw [if_neg (fun h => hkind.mp h hk)]
    simp only [hk, true_and]
    constructor
    · intro h
      obtain ⟨⟨ms, r⟩, hms, h⟩ := bind_ok_iff.mp h
      cases h
      exact ⟨ms, hms, rfl⟩
    · rintro ⟨ms, hms, rfl⟩
      exact bind_ok_iff.mpr ⟨_, hms, rfl⟩
  · rw [if_pos (hkind.mpr hk)]
    simp only [hk, false_and, iff_false]
    exact nofun

/-- What loading gives is what the document describes. -/
theorem load_ok {a : Assembly} (h : load d = .ok (a, q)) :
    KnownKind d.kind ∧ Loaded d q a := by
  obtain ⟨hkind, ms, hms, rfl⟩ := load_ok_iff.mp h
  exact ⟨hkind, rfl, rfl, rfl,
    ((mapM_ok_iff.mp hms).grown rfl loadModule_ok LoadedModule.grow).2⟩

/-- The stored body can be read. -/
def Loadable (d : Document) (s : StoredBody) : Prop :=
  ∃ us, Reads d (numbered s.locals) s.code us ∧ Inside us

/-- A method with a loadable body can be loaded. -/
theorem loadMethod_of_loadable (type : TypeName) {s : StoredMethod}
    (h : ∀ x, s.body = some x → Loadable d x) (p : Program) :
    ∃ m q, loadMethod d type s p = .ok (m, q) := by
  cases hs : s.body with
  | none => exact ⟨_, _, loadMethod_ok_iff.mpr ⟨rfl, .inl ⟨hs, rfl⟩⟩⟩
  | some x =>
      obtain ⟨us, hus, hin⟩ := h x hs
      exact ⟨_, _, loadMethod_ok_iff.mpr ⟨rfl, .inr ⟨x, us, hs, hus, hin, rfl⟩⟩⟩

/-- A type with loadable methods can be loaded. -/
theorem loadType_of_loadable {s : StoredType}
    (h : ∀ m ∈ s.methods, ∀ x, m.body = some x → Loadable d x) (p : Program) :
    ∃ t q, loadType d s p = .ok (t, q) := by
  obtain ⟨ms, q, hms⟩ := Threads.exists
    (fun m hm p => loadMethod_of_loadable s.name (h m hm) p) p
  exact ⟨_, q, bind_ok_iff.mpr ⟨_, mapM_ok_iff.mpr hms, rfl⟩⟩

/-- A module with loadable types can be loaded. -/
theorem loadModule_of_loadable {s : StoredModule}
    (h : ∀ t ∈ s.types, ∀ m ∈ t.methods, ∀ x, m.body = some x → Loadable d x)
    (p : Program) : ∃ y q, loadModule d s p = .ok (y, q) := by
  obtain ⟨ts, q, hts⟩ :=
    Threads.exists (fun t ht p => loadType_of_loadable (h t ht) p) p
  exact ⟨_, q, bind_ok_iff.mpr ⟨_, mapM_ok_iff.mpr hts, rfl⟩⟩

/-- A document of a known kind can be loaded if each of its bodies can be
read. -/
theorem load_of_loadable (hkind : KnownKind d.kind)
    (h : ∀ y ∈ d.modules, ∀ t ∈ y.types, ∀ m ∈ t.methods, ∀ x, m.body = some x →
      Loadable d x) : ∃ a q, load d = .ok (a, q) := by
  obtain ⟨ms, q, hms⟩ :=
    Threads.exists (fun y hy p => loadModule_of_loadable (h y hy) p) {}
  exact ⟨_, q, load_ok_iff.mpr ⟨hkind, ms, mapM_ok_iff.mpr hms, rfl⟩⟩

end File

end Bytecode
