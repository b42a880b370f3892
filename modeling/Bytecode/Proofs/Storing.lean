import Mathlib
import Bytecode.File
import Bytecode.Proofs.Packing

/-!
# What is stored of an assembly

Storing goes through the modules, types and methods of an assembly in order and
hands the tables on from one method to the next.  `Threads` is that way of going
through a list as a relation, and `StoresMethod`, `StoresType` and
`StoresModule` say what is stored at each level of the tree.  `store_ok_iff`:
these are what storing computes.
-/

namespace Bytecode

section Threads

variable {σ α β γ : Type} {R R' : σ → α → β → σ → Prop} {s s' : σ} {xs : List α}
  {ys : List β} {zs : List γ}

/-- The elements of a list are handled in order, each step handing a state on to
the next. -/
inductive Threads (R : σ → α → β → σ → Prop) : σ → List α → List β → σ → Prop
  | nil {s : σ} : Threads R s [] [] s
  | cons {s s₁ s' : σ} {x : α} {y : β} {xs : List α} {ys : List β} :
      R s x y s₁ → Threads R s₁ xs ys s' → Threads R s (x :: xs) (y :: ys) s'

/-- Mapping a list succeeds exactly if each element does in the state its
predecessors leave. -/
theorem mapM_ok_iff {f : α → StateT σ (Except Fault) β} :
    (xs.mapM f : StateT σ (Except Fault) (List β)) s = .ok (ys, s') ↔
      Threads (fun s x y s' => f x s = .ok (y, s')) s xs ys s' := by
  induction xs generalizing s ys with
  | nil =>
      constructor
      · intro h
        cases h
        exact .nil
      · intro h
        cases h
        rfl
  | cons x xs ih =>
      rw [List.mapM_cons]
      constructor
      · intro h
        obtain ⟨⟨y, s₁⟩, hy, h⟩ := bind_ok_iff.mp h
        obtain ⟨⟨ys, s₂⟩, hys, h⟩ := bind_ok_iff.mp h
        cases h
        exact .cons hy (ih.mp hys)
      · intro h
        cases h with
        | cons hy hys =>
            exact bind_ok_iff.mpr ⟨_, hy, bind_ok_iff.mpr ⟨_, ih.mpr hys, rfl⟩⟩

/-- Threading the state depends on the relation only. -/
theorem Threads.congr (h : ∀ s x y s', R s x y s' ↔ R' s x y s') :
    Threads R s xs ys s' ↔ Threads R' s xs ys s' := by
  have : R = R' := by
    funext s x y s'
    exact propext (h s x y s')
  rw [this]

/-- What holds behind a step holds in front of it as well, if every step lets
it. -/
theorem Threads.back {P : σ → Prop} (h : Threads R s xs ys s')
    (hstep : ∀ {s x y s'}, R s x y s' → P s' → P s) (hs : P s') : P s := by
  induction h with
  | nil => exact hs
  | cons hr _ ih => exact hstep hr (ih hs)

/-- What every step keeps is kept. -/
theorem Threads.kept {P : σ → Prop} (h : Threads R s xs ys s')
    (hstep : ∀ {s x y s'}, x ∈ xs → R s x y s' → P s → P s') (hs : P s) :
    P s' := by
  induction h with
  | nil => exact hs
  | cons hr _ ih =>
      exact ih (fun hx => hstep (List.mem_cons_of_mem _ hx))
        (hstep List.mem_cons_self hr hs)

/-- Every element can be handled in any state, so the list can. -/
theorem Threads.exists (h : ∀ x ∈ xs, ∀ s, ∃ y s', R s x y s') (s : σ) :
    ∃ ys s', Threads R s xs ys s' := by
  induction xs generalizing s with
  | nil => exact ⟨[], s, .nil⟩
  | cons x xs ih =>
      obtain ⟨y, s₁, hy⟩ := h x List.mem_cons_self s
      obtain ⟨ys, s', hys⟩ :=
        ih (fun x hx => h x (List.mem_cons_of_mem _ hx)) s₁
      exact ⟨y :: ys, s', .cons hy hys⟩

/-- Every element has been handled in some state. -/
theorem Threads.handled (h : Threads R s xs ys s') :
    ∀ x ∈ xs, ∃ s y s', R s x y s' := by
  induction h with
  | nil => exact nofun
  | cons hr _ ih =>
      intro x hx
      rcases List.mem_cons.mp hx with rfl | hx
      · exact ⟨_, _, _, hr⟩
      · exact ih x hx

/-- What is made of the elements one by one, in the light of a state that every
step has reached. -/
theorem Threads.each {P : σ → Prop} {Q : β → Prop} (h : Threads R s xs ys s')
    (hback : ∀ {s x y s'}, R s x y s' → P s' → P s)
    (hstep : ∀ {s x y s'}, x ∈ xs → R s x y s' → P s' → Q y) (hs : P s') :
    ∀ y ∈ ys, Q y := by
  induction h with
  | nil => exact nofun
  | @cons s s₁ s' x y xs ys hr hrest ih =>
      intro z hz
      rcases List.mem_cons.mp hz with rfl | hz
      · exact hstep List.mem_cons_self hr (hrest.back hback hs)
      · exact ih (fun hx => hstep (List.mem_cons_of_mem _ hx)) hs z hz

/-- A list that has been handled is handled a second time, from elements `zs`
that belong to the results: if each second step is like the first one, the
results and the states are the same. -/
theorem Threads.again {R' : σ → γ → β → σ → Prop} {P : σ → Prop}
    {L : β → γ → Prop} {S : α → γ → Prop} (h : Threads R s xs ys s')
    (hback : ∀ {s x y s'}, R s x y s' → P s' → P s) (hstep : ∀ {s x y s' z},
      x ∈ xs → R s x y s' → P s' → L y z → S x z ∧ R' s z y s') (hs : P s')
    (hzs : List.Forall₂ L ys zs) :
    List.Forall₂ S xs zs ∧ Threads R' s zs ys s' := by
  induction h generalizing zs with
  | nil =>
      cases hzs
      exact ⟨.nil, .nil⟩
  | @cons s s₁ s' x y xs ys hr hrest ih =>
      cases hzs with
      | cons hz hzs =>
          obtain ⟨hsame, hagain⟩ :=
            hstep List.mem_cons_self hr (hrest.back hback hs) hz
          obtain ⟨hsames, hagains⟩ :=
            ih (fun hx => hstep (List.mem_cons_of_mem _ hx)) hs hzs
          exact ⟨.cons hsame hsames, .cons hagain hagains⟩

end Threads

namespace File

variable {p : Program} {t t' : Tables} {m : MethodId} {b : BodyId}

/-- A body as the file knows it: its code is what the links say. -/
def linkedBody (p : Program) (b : BodyId) : Body :=
  { p.body b with code := p.code b }

/-- The instructions of a body, branches given by offsets. -/
def unpacked (p : Program) (b : BodyId) : List Unpacked :=
  (p.code b).map fun i => .ofInstr (linkedBody p b) (p.instr i)

/-- What is stored of a body. -/
structure StoresBody (p : Program) (b : BodyId) (t : Tables) (s : StoredBody)
    (t' : Tables) : Prop where
  code : Packs (linkedBody p b) t (unpacked p b) s.code t'
  maxStack : s.maxStack = (p.body b).maxStack
  initLocals : s.initLocals = (p.body b).initLocals
  locals : s.locals = (p.body b).locals.toList.map fun l => (l.type, l.name)

/-- Packing a body succeeds exactly with what `StoresBody` describes. -/
theorem packBody_ok_iff {s : StoredBody} :
    packBody p (linkedBody p b) t = .ok (s, t') ↔ StoresBody p b t s t' := by
  simp only [packBody, bind_ok_iff, Prod.exists, packCode_ok_iff]
  constructor
  · rintro ⟨_, _, ⟨code, hcode, rfl⟩, h⟩
    cases h
    exact ⟨hcode, rfl, rfl, rfl⟩
  · intro h
    refine ⟨s.code, t', ⟨s.code, h.code, rfl⟩, ?_⟩
    obtain ⟨_, _, _, _⟩ := s
    obtain ⟨-, rfl, rfl, rfl⟩ := h
    rfl

/-- What is stored of a method: of one without a body the signature alone. -/
structure StoresMethod (p : Program) (t : Tables) (m : MethodId)
    (s : StoredMethod) (t' : Tables) : Prop where
  name : s.name = (p.method m).name
  params : s.params = (p.method m).params
  returnType : s.returnType = if (p.method m).returnsVoid then "" else
      (p.method m).returnType
  attrs : s.attrs = (p.method m).attrs
  bare : (p.method m).body = none → s.body = none ∧ t' = t
  body : ∀ b, (p.method m).body = some b → ∃ x, s.body = some x ∧
    StoresBody p b t x t'

/-- The same for a method. -/
theorem storeMethod_ok_iff {s : StoredMethod} :
    storeMethod p m t = .ok (s, t') ↔ StoresMethod p t m s t' := by
  rw [storeMethod]
  cases hb : (p.method m).body with
  | none =>
      constructor
      · intro h
        cases h
        exact ⟨rfl, rfl, rfl, rfl, fun _ => ⟨rfl, rfl⟩,
          fun b h => absurd (hb.symm.trans h) (by simp)⟩
      · intro h
        obtain ⟨_, _, _, _, _⟩ := s
        obtain ⟨rfl, rfl, rfl, rfl, hbare, -⟩ := h
        obtain ⟨rfl, rfl⟩ := hbare hb
        rfl
  | some b =>
      simp only [bind_ok_iff, Prod.exists, Fault.during_ok_iff]
      constructor
      · rintro ⟨x, t₁, hx, h⟩
        cases h
        refine ⟨rfl, rfl, rfl, rfl, fun h => absurd (hb.symm.trans h) (by simp),
          fun c hc => ?_⟩
        obtain rfl : b = c := Option.some.inj (hb.symm.trans hc)
        exact ⟨x, rfl, packBody_ok_iff.mp hx⟩
      · intro h
        obtain ⟨_, _, _, _, _⟩ := s
        obtain ⟨rfl, rfl, rfl, rfl, -, hbody⟩ := h
        obtain ⟨x, rfl, hx⟩ := hbody b hb
        exact ⟨x, t', packBody_ok_iff.mpr hx, rfl⟩

/-- What is stored of a type. -/
structure StoresType (p : Program) (t : Tables) (x : TypeDef) (s : StoredType)
    (t' : Tables) : Prop where
  name : s.name = x.name
  methods : Threads (StoresMethod p) t x.methods s.methods t'

/-- What is stored of a module. -/
structure StoresModule (p : Program) (t : Tables) (x : Module)
    (s : StoredModule) (t' : Tables) : Prop where
  name : s.name = x.name
  types : Threads (StoresType p) t x.types s.types t'

/-- The same for a type. -/
theorem storeType_ok_iff {x : TypeDef} {s : StoredType} :
    storeType p x t = .ok (s, t') ↔ StoresType p t x s t' := by
  have hmethods : ∀ {ss}, (x.methods.mapM (storeMethod p)) t = .ok (ss, t') ↔
      Threads (StoresMethod p) t x.methods ss t' :=
    mapM_ok_iff.trans (Threads.congr fun _ _ _ _ => storeMethod_ok_iff)
  constructor
  · intro h
    obtain ⟨⟨ss, t₁⟩, hss, h⟩ := bind_ok_iff.mp h
    cases h
    exact ⟨rfl, hmethods.mp hss⟩
  · rintro ⟨hname, hss⟩
    obtain ⟨_, _⟩ := s
    obtain rfl := hname
    exact bind_ok_iff.mpr ⟨_, hmethods.mpr hss, rfl⟩

/-- The same for a module. -/
theorem storeModule_ok_iff {x : Module} {s : StoredModule} :
    storeModule p x t = .ok (s, t') ↔ StoresModule p t x s t' := by
  have htypes : ∀ {ss}, (x.types.mapM (storeType p)) t = .ok (ss, t') ↔
      Threads (StoresType p) t x.types ss t' :=
    mapM_ok_iff.trans (Threads.congr fun _ _ _ _ => storeType_ok_iff)
  constructor
  · intro h
    obtain ⟨⟨ss, t₁⟩, hss, h⟩ := bind_ok_iff.mp h
    cases h
    exact ⟨rfl, htypes.mp hss⟩
  · rintro ⟨hname, hss⟩
    obtain ⟨_, _⟩ := s
    obtain rfl := hname
    exact bind_ok_iff.mpr ⟨_, htypes.mpr hss, rfl⟩

/-- What is stored of an assembly. -/
structure Stores (p : Program) (a : Assembly) (d : Document) : Prop where
  name : d.name = a.name
  version : d.version = a.version
  kind : d.kind = a.kind.code
  modules : Threads (StoresModule p) {} a.modules d.modules d.tables

/-- The same for the whole assembly. -/
theorem store_ok_iff {a : Assembly} {d : Document} :
    store p a = .ok d ↔ Stores p a d := by
  have hmodules : ∀ {ss t'}, (a.modules.mapM (storeModule p)) {} =
      .ok (ss, t') ↔ Threads (StoresModule p) {} a.modules ss t' :=
    mapM_ok_iff.trans (Threads.congr fun _ _ _ _ => storeModule_ok_iff)
  constructor
  · intro h
    obtain ⟨⟨ss, t'⟩, hss, h⟩ := bind_ok_iff.mp h
    cases h
    exact ⟨rfl, rfl, rfl, hmodules.mp hss⟩
  · rintro ⟨hname, hversion, hkind, hss⟩
    obtain ⟨_, _, _, _, _, _, _⟩ := d
    obtain rfl := hname
    obtain rfl := hversion
    obtain rfl := hkind
    exact bind_ok_iff.mpr ⟨_, hmodules.mpr hss, rfl⟩

/-! ### What can be stored -/

/-- A method can be stored if its body can. -/
theorem StoresMethod.exists
    (h : ∀ b, (p.method m).body = some b → ∀ t, ∃ s t', StoresBody p b t s t')
    (t : Tables) : ∃ s t', StoresMethod p t m s t' := by
  cases hb : (p.method m).body with
  | none =>
      exact ⟨⟨_, _, _, _, none⟩, t, rfl, rfl, rfl, rfl, fun _ => ⟨rfl, rfl⟩,
        fun b hb' => absurd (hb.symm.trans hb') nofun⟩
  | some b =>
      obtain ⟨x, t', hx⟩ := h b hb t
      refine ⟨⟨_, _, _, _, some x⟩, t', rfl, rfl, rfl, rfl,
        fun hb' => absurd (hb.symm.trans hb') nofun, fun c hc => ?_⟩
      obtain rfl : b = c := Option.some.inj (hb.symm.trans hc)
      exact ⟨x, rfl, hx⟩

section Assembly

variable {a : Assembly}

/-- The methods of an assembly are those of the types of its modules. -/
theorem mem_methods : m ∈ a.methods ↔
    ∃ y ∈ a.modules, ∃ x ∈ y.types, m ∈ x.methods := by
  simp [Assembly.methods, List.mem_flatMap]

/-- An assembly can be stored if its methods can. -/
theorem Stores.exists
    (h : ∀ m ∈ a.methods, ∀ t, ∃ s t', StoresMethod p t m s t') :
    ∃ d, Stores p a d := by
  have htype :
      ∀ y ∈ a.modules, ∀ x ∈ y.types, ∀ t, ∃ s t', StoresType p t x s t' := by
    intro y hy x hx t
    obtain ⟨ss, t', hss⟩ := Threads.exists
      (fun m hm => h m (mem_methods.mpr ⟨y, hy, x, hx, hm⟩)) t
    exact ⟨⟨_, ss⟩, t', rfl, hss⟩
  have hmodule : ∀ y ∈ a.modules, ∀ t, ∃ s t', StoresModule p t y s t' := by
    intro y hy t
    obtain ⟨ss, t', hss⟩ := Threads.exists (htype y hy) t
    exact ⟨⟨_, ss⟩, t', rfl, hss⟩
  obtain ⟨ss, t', hss⟩ := Threads.exists hmodule {}
  exact ⟨⟨a.name, a.version, a.kind.code, t'.strings.toList, t'.methods.toList,
    t'.fields.toList, ss⟩, rfl, rfl, rfl, hss⟩

/-- Every method of an assembly that has been stored has been stored. -/
theorem Stores.each {d : Document} (h : Stores p a d) :
    ∀ m ∈ a.methods, ∃ t s t', StoresMethod p t m s t' := by
  intro m hm
  obtain ⟨y, hy, x, hx, hm⟩ := mem_methods.mp hm
  obtain ⟨_, _, _, hmodule⟩ := h.modules.handled y hy
  obtain ⟨_, _, _, htype⟩ := hmodule.types.handled x hx
  exact htype.methods.handled m hm

end Assembly

/-! ### The tables while an assembly is stored -/

section Tables

variable {d : Document}

/-- Storing a method only adds to the tables. -/
theorem StoresMethod.within {s : StoredMethod} (h : StoresMethod p t m s t') :
    t.Within t' := by
  cases hb : (p.method m).body with
  | none =>
      rw [(h.bare hb).2]
      exact .refl t
  | some b =>
      obtain ⟨x, -, hx⟩ := h.body b hb
      exact hx.code.within

/-- If the tables after a method are within the document's, so are those
before. -/
theorem StoresMethod.back {s : StoredMethod} (h : StoresMethod p t m s t')
    (ht : t'.Within d.tables) : t.Within d.tables := h.within.trans ht

/-- The same for a type. -/
theorem StoresType.back {x : TypeDef} {s : StoredType}
    (h : StoresType p t x s t') (ht : t'.Within d.tables) : t.Within d.tables :=
  h.methods.back StoresMethod.back ht

/-- The same for a module. -/
theorem StoresModule.back {x : Module} {s : StoredModule}
    (h : StoresModule p t x s t') (ht : t'.Within d.tables) :
    t.Within d.tables := h.types.back StoresType.back ht

end Tables

end File

end Bytecode
