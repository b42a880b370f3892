import Mathlib
import Bytecode.Assembly
import Bytecode.Proofs.CodeList

/-!
# What a reference resolves to

References are looked up by their keys.  A key runs the parts of a reference
together with marks between them and does not mark off a part that holds such a
mark itself, so that different references may have one key.  Then a reference
leads to a method that it does not name, and methods that differ hide each
other.

A reference leads to the last method that has its key, and where the parts hold
no marks, `MethodRef.Plain`, this is a method that it names: `resolve_names`.

The table is made by the first lookup and dropped when a method is added.
Lookups, additions and changes to methods may come in any order: as long as
methods keep their names, what is found is what is there at that moment,
`resolves_to_last`.
-/

namespace Bytecode

namespace MethodRef

variable {r r' : MethodRef}

/-- The parts hold none of the marks by which they could be told apart in the
key. -/
structure Plain (r : MethodRef) : Prop where
  type : ':' ∉ r.type.toList
  name : '(' ∉ r.name.toList
  params : ∀ t ∈ r.params, ',' ∉ t.toList
  /-- One parameter without a type looks like none. -/
  typed : r.params ≠ [""]

/-- The reference has the declaring type, the name and the parameters of the
method. -/
structure Names (r : MethodRef) (m : Method) : Prop where
  type : r.type = m.declaring.elim "" TypeName.full
  name : r.name = m.name
  params : r.params = m.params.map (·.type)

instance (r : MethodRef) : Decidable r.Plain :=
  decidable_of_iff (':' ∉ r.type.toList ∧ '(' ∉ r.name.toList ∧
      (∀ t ∈ r.params, ',' ∉ t.toList) ∧ r.params ≠ [""])
    ⟨fun ⟨ht, hn, hp, hone⟩ => ⟨ht, hn, hp, hone⟩,
      fun h => ⟨h.type, h.name, h.params, h.typed⟩⟩

instance (r : MethodRef) (m : Method) : Decidable (r.Names m) :=
  decidable_of_iff (r.type = m.declaring.elim "" TypeName.full ∧
    r.name = m.name ∧ r.params = m.params.map (·.type))
    ⟨fun ⟨ht, hn, hp⟩ => ⟨ht, hn, hp⟩, fun h => ⟨h.type, h.name, h.params⟩⟩

/-- A reference names a method by type, name and parameters. -/
theorem names_iff {m : Method} : r.Names m ↔
    r.type = m.ref.type ∧ r.name = m.ref.name ∧ r.params = m.ref.params := by
  have htype : m.ref.type = m.declaring.elim "" TypeName.full := by
    rw [Method.ref]
    cases m.declaring <;> rfl
  rw [htype]
  exact ⟨fun h => ⟨h.type, h.name, h.params⟩, fun ⟨ht, hn, hp⟩ => ⟨ht, hn, hp⟩⟩

/-- The letters of a key, cut at the first mark behind the type and behind the
name. -/
theorem toList_key (r : MethodRef) :
    r.key.toList = r.type.toList ++ ':' :: (':' :: (r.name.toList ++ '(' ::
      ([','].intercalate (r.params.map String.toList) ++ [')']))) := by
  simp [key, String.toList_intercalate]

/-- Lists of texts are told apart by their characters. -/
theorem map_toList_injective : Function.Injective (List.map String.toList) :=
  List.map_injective_iff.mpr fun _ _ h => String.toList_injective h

/-- Parameters that hold no comma are told apart when they are run together. -/
theorem Plain.params_injective (h : r.Plain) (h' : r'.Plain)
    (heq : [','].intercalate (r.params.map String.toList) = [','].intercalate
      (r'.params.map String.toList)) : r.params = r'.params := by
  -- no parameters read as one that is empty, which is why that one is left out
  have hsplit : ∀ q : MethodRef, q.Plain →
      (([','].intercalate (q.params.map String.toList)).splitOn ',') =
        if q.params = [] then [[]] else q.params.map String.toList := by
    intro q hq
    by_cases hnil : q.params = []
    · rw [hnil, if_pos rfl]
      rfl
    · rw [if_neg hnil]
      refine List.splitOn_intercalate ',' (fun l hl => ?_) (by simpa using hnil)
      obtain ⟨t, ht, rfl⟩ := List.mem_map.mp hl
      exact hq.params t ht
  have hone : ∀ q : MethodRef, q.Plain → q.params.map String.toList ≠ [[]] := by
    intro q hq hq'
    have hmap : q.params.map String.toList = [""].map String.toList := hq'
    exact hq.typed (map_toList_injective hmap)
  have hparts := (hsplit r h).symm.trans
    ((congrArg (List.splitOn ',') heq).trans (hsplit r' h'))
  split_ifs at hparts with hr hr' hr'
  · rw [hr, hr']
  · exact absurd hparts.symm (hone r' h')
  · exact absurd hparts (hone r h)
  · exact map_toList_injective hparts

/-- Plain references with one key agree in everything that counts. -/
theorem Plain.key_injective (h : r.Plain) (h' : r'.Plain)
    (hkey : r.key = r'.key) :
    r.type = r'.type ∧ r.name = r'.name ∧ r.params = r'.params := by
  have hlist : r.key.toList = r'.key.toList := congrArg String.toList hkey
  rw [toList_key, toList_key] at hlist
  obtain ⟨htype, hrest⟩ := cut_unique h.type h'.type hlist
  obtain ⟨hname, hparams⟩ := cut_unique h.name h'.name (List.cons.inj hrest).2
  exact ⟨String.toList_injective htype, String.toList_injective hname,
    h.params_injective h' (List.append_cancel_right hparams)⟩

end MethodRef

variable {p : Program} {ms : List MethodId} {r : MethodRef} {m : MethodId}

/-- A table leads to the last method that has the key. -/
theorem Resolution.resolve_ofMethods_iff :
    (ofMethods p ms).resolve (some r) = some m ↔
      ∃ pre post, ms = pre ++ m :: post ∧ (p.method m).ref.key = r.key ∧
        ∀ d ∈ post, (p.method d).ref.key ≠ r.key := by
  have hlook : (ofMethods p ms).resolve (some r) =
      (ms.map fun m => ((p.method m).ref.key, m)).reverse.lookup r.key := rfl
  rw [hlook, List.lookup_eq_some_iff]
  constructor
  · rintro ⟨front, back, hcut, hno⟩
    have hcut' : ms.map (fun m => ((p.method m).ref.key, m))
        = back.reverse ++ (r.key, m) :: front.reverse := by
      rw [← List.reverse_reverse (ms.map _), hcut]
      simp
    obtain ⟨pre, rest, rfl, -, hrest⟩ := List.map_eq_append_iff.mp hcut'
    obtain ⟨c, post, rfl, hc, hpost⟩ := List.map_eq_cons_iff.mp hrest
    obtain ⟨hkey, rfl⟩ := Prod.mk.inj hc
    refine ⟨pre, post, rfl, hkey, fun d hd heq => ?_⟩
    have hmem : ((p.method d).ref.key, d) ∈ front := by
      rw [← List.mem_reverse, ← hpost]
      exact List.mem_map_of_mem hd
    simpa [heq] using hno _ hmem
  · rintro ⟨pre, post, rfl, hkey, hlast⟩
    refine ⟨(post.map fun m => ((p.method m).ref.key, m)).reverse,
      (pre.map fun m => ((p.method m).ref.key, m)).reverse, by simp [hkey], ?_⟩
    intro e he
    obtain ⟨d, hd, rfl⟩ := List.mem_map.mp (List.mem_reverse.mp he)
    simpa using (hlast d hd).symm

/-- A table leads nowhere if no method has the key. -/
theorem Resolution.resolve_eq_none_iff :
    (ofMethods p ms).resolve (some r) = none ↔
    ∀ m ∈ ms, (p.method m).ref.key ≠ r.key := by
  have hlook : (ofMethods p ms).resolve (some r) =
      (ms.map fun m => ((p.method m).ref.key, m)).reverse.lookup r.key := rfl
  rw [hlook, List.lookup_eq_none_iff]
  constructor
  · intro hno m hm heq
    have hmem :=
      List.mem_map_of_mem (f := fun m => ((p.method m).ref.key, m)) hm
    simpa [heq] using hno _ (List.mem_reverse.mpr hmem)
  · intro hno e he
    obtain ⟨m, hm, rfl⟩ := List.mem_map.mp (List.mem_reverse.mp he)
    exact bne_iff_ne.mpr (hno m hm).symm

/-- Methods that all have keys of their own are found by them. -/
theorem Resolution.resolve_of_distinct
    (hdistinct : ∀ d ∈ ms, (p.method d).ref.key = (p.method m).ref.key → d = m)
    (hm : m ∈ ms) :
    (ofMethods p ms).resolve (some (p.method m).ref) = some m := by
  induction ms using List.reverseRecOn with
  | nil => cases hm
  | append_singleton ms c ih =>
      by_cases hkey : (p.method c).ref.key = (p.method m).ref.key
      · have hcm := hdistinct c (by simp) hkey
        exact resolve_ofMethods_iff.mpr ⟨ms, [], by rw [hcm], rfl, by simp⟩
      · have hmem : m ∈ ms := by
          rcases List.mem_append.mp hm with hm | hm
          · exact hm
          · exact absurd (by rw [List.mem_singleton.mp hm]) hkey
        obtain ⟨pre, post, rfl, -, hlast⟩ := resolve_ofMethods_iff.mp
          (ih (fun d hd => hdistinct d (List.mem_append_left _ hd)) hmem)
        refine resolve_ofMethods_iff.mpr ⟨pre, post ++ [c], by simp, rfl,
          fun d hd => ?_⟩
        rcases List.mem_append.mp hd with hd | hd
        · exact hlast d hd
        · rwa [List.mem_singleton.mp hd]

/-- Where all keys differ, a table leads to the method of the list that has the
key. -/
theorem Resolution.resolve_iff_of_nodup
    (h : (ms.map fun m => (p.method m).ref.key).Nodup) :
    (ofMethods p ms).resolve (some r) = some m ↔
    m ∈ ms ∧ (p.method m).ref.key = r.key := by
  rw [resolve_ofMethods_iff]
  constructor
  · rintro ⟨pre, post, rfl, hkey, -⟩
    exact ⟨by simp, hkey⟩
  · rintro ⟨hm, hkey⟩
    obtain ⟨pre, post, rfl⟩ := List.append_of_mem hm
    refine ⟨pre, post, rfl, hkey, fun d hd heq => ?_⟩
    rw [List.map_append, List.map_cons] at h
    have hrest := (List.nodup_cons.mp h.of_append_right).1
    rw [hkey, ← heq] at hrest
    exact hrest (List.mem_map_of_mem hd)

/-- The order of methods does not matter where all keys differ. -/
theorem Resolution.resolve_perm {ms' : List MethodId}
    (h : (ms.map fun m => (p.method m).ref.key).Nodup) (hperm : ms.Perm ms')
    (ref : Option MethodRef) :
    (ofMethods p ms').resolve ref = (ofMethods p ms).resolve ref := by
  cases ref with
  | none => rfl
  | some r =>
      refine Option.ext fun m => ?_
      rw [resolve_iff_of_nodup h,
        resolve_iff_of_nodup ((hperm.map _).nodup_iff.mp h), hperm.mem_iff]

namespace Assembly

variable {a : Assembly}

/-- The table, if there is one, is the one of the methods as they are. -/
def Current (a : Assembly) (p : Program) : Prop :=
  ∀ t ∈ a.table, t = .ofMethods p a.methods

/-- A current index resolves as a scan does. -/
theorem resolve_eq (hcurrent : a.Current p) (r : MethodRef) :
    (a.resolve p (some r)).1 =
    (Resolution.ofMethods p a.methods).resolve (some r) := by
  rw [resolve]
  cases ht : a.table with
  | none => rfl
  | some t => rw [hcurrent t ht]

/-- Resolving leaves the index current. -/
theorem Current.resolve (hcurrent : a.Current p) (ref : Option MethodRef) :
    (a.resolve p ref).2.Current p := by
  cases ref with
  | none => exact hcurrent
  | some r =>
      rw [Assembly.resolve.eq_def]
      cases ht : a.table with
      | some t => exact hcurrent
      | none => exact fun _ hmem => (Option.mem_some_iff.mp hmem).symm

/-- A new index is current. -/
theorem current_reindex (a : Assembly) (p : Program) :
    (a.reindex p).Current p :=
  fun _ ht => (Option.mem_some_iff.mp ht).symm

/-- The index is current when a method has been added. -/
theorem current_addMethod {mod type : Nat} {a' : Assembly} {p' : Program}
    (h : a.addMethod p mod type m = some (a', p')) : a'.Current p' := by
  intro t ht
  rw [addMethod] at h
  simp only [Option.bind_eq_bind, Option.bind_eq_some_iff] at h
  obtain ⟨x, -, y, -, heq⟩ := h
  obtain ⟨rfl, -⟩ := Prod.mk.inj (Option.some.inj heq)
  cases ht

/-- A reference leads to a method with its key, and to one that it names where
both are plain.  Methods that differ are found by their own references if these
are plain. -/
theorem resolve_names (hcurrent : a.Current p) :
    (∀ r m, (a.resolve p (some r)).1 = some m →
      m ∈ a.methods ∧ (p.method m).ref.key = r.key ∧
      (r.Plain → (p.method m).ref.Plain → r.Names (p.method m))) ∧
    ((∀ m ∈ a.methods, (p.method m).ref.Plain) → (∀ m ∈ a.methods,
      ∀ d ∈ a.methods, (p.method d).ref.Names (p.method m) → d = m) →
      ∀ m ∈ a.methods, (a.resolve p (some (p.method m).ref)).1 = some m) := by
  constructor
  · intro r m hm
    rw [resolve_eq hcurrent] at hm
    obtain ⟨pre, post, hms, hkey, -⟩ := Resolution.resolve_ofMethods_iff.mp hm
    exact ⟨hms ▸ by simp, hkey, fun hr hplain => MethodRef.names_iff.mpr
      (hr.key_injective hplain hkey.symm)⟩
  · intro hplain hdiffer m hm
    rw [resolve_eq hcurrent]
    refine Resolution.resolve_of_distinct
      (fun d hd hkey => hdiffer m hm d hd ?_) hm
    exact MethodRef.names_iff.mpr
      ((hplain d hd).key_injective (hplain m hm) hkey)

/-- Two methods of one type and one name. -/
def overloads (ps qs : List Param) : Program where
  methods := #[
    { name := "Put", params := ps, attrs := 1,
      declaring := some ⟨"Lib", "Table"⟩ },
    { name := "Put", params := qs, attrs := 1,
      declaring := some ⟨"Lib", "Table"⟩ }]

/-- The assembly of the two. -/
def puts : Assembly where
  name := "Lib"
  modules := [⟨"Lib.dll", [⟨⟨"Lib", "Table"⟩, [⟨0⟩, ⟨1⟩]⟩]⟩]

/-- Overloads are told apart by their parameters. -/
theorem resolve_names_overloads :
    let p := overloads [⟨"entry", "Pair"⟩] [⟨"key", "int"⟩, ⟨"value", "text"⟩]
    let r : MethodRef := ⟨"Lib.Table", "Put", ["int", "text"], ""⟩
    puts.Current p ∧ (puts.resolve p (some r)).1 = some ⟨1⟩ ∧
      r.Names (p.method ⟨1⟩) ∧
    ∀ m ∈ puts.methods, (puts.resolve p (some (p.method m).ref)).1 =
      some m := by
  intro p r
  have hcurrent : puts.Current p := fun _ ht => by cases ht
  obtain ⟨hleads, hfinds⟩ := resolve_names hcurrent
  have hone : (puts.resolve p (some r)).1 = some ⟨1⟩ := by decide +kernel
  exact ⟨hcurrent, hone, (hleads r ⟨1⟩ hone).2.2 (by decide +kernel)
    (by decide +kernel), hfinds (by decide +kernel) (by decide +kernel)⟩

/-- A comma inside a type makes one parameter look like two: the reference of
the first method leads to the second, which it does not name. -/
theorem hides_overload :
    let p := overloads [⟨"entry", "Pair<int,text>"⟩] [⟨"key", "Pair<int"⟩,
      ⟨"value", "text>"⟩]
    puts.Current p ∧
    (∀ m ∈ puts.methods, ∀ d ∈ puts.methods, (p.method d).ref.Names
      (p.method m) → d = m) ∧
    (puts.resolve p (some (p.method ⟨0⟩).ref)).1 = some ⟨1⟩ ∧
    ¬ (p.method ⟨0⟩).ref.Names (p.method ⟨1⟩) :=
  ⟨fun _ ht => (by cases ht), by decide +kernel, by decide +kernel,
    by decide +kernel⟩

/-! ### Lookups and additions in any order -/

/-- One call on an assembly and its program. -/
inductive Call where
  | addModule (name : String)
  | addType (mod : Nat) (name : TypeName)
  | addMethod (mod type : Nat) (m : MethodId)
  | resolve (ref : Option MethodRef)
  | reindex
  | setBody (m : MethodId) (b : Option BodyId)

/-- Assembly and program after a call; nothing can be added to a module or type
that is not there. -/
def Call.perform : Call → Assembly × Program → Assembly × Program
  | .addModule name, (a, p) => (a.addModule name, p)
  | .addType mod name, (a, p) => (a.addType mod name, p)
  | .addMethod mod type m, (a, p) => (a.addMethod p mod type m).getD (a, p)
  | .resolve ref, (a, p) => ((a.resolve p ref).2, p)
  | .reindex, (a, p) => (a.reindex p, p)
  | .setBody m b, (a, p) => (a, p.setBody m b)

/-- The methods of the assembly keep what their keys are made of. -/
def KeepsNames (a : Assembly) (p q : Program) : Prop :=
  ∀ m ∈ a.methods, (q.method m).name = (p.method m).name ∧ (q.method m).params =
    (p.method m).params ∧ (q.method m).declaring = (p.method m).declaring

/-- What an assembly and its program can come to: by calls, and by changes that
leave the names of the methods in it alone.  Methods that are not in it yet may
change in any way. -/
inductive History (start : Assembly × Program) : Assembly × Program → Prop
  | start : History start start
  | call {s : Assembly × Program} (c : Call) : History start s → History start
    (c.perform s)
  | change {a : Assembly} {p q : Program} : History start
    (a, p) → a.KeepsNames p q → History start (a, q)

/-- Calls go on from a history. -/
theorem History.calls {start s : Assembly × Program} (h : History start s)
    (cs : List Call) : History start (cs.foldl (fun s c => c.perform s) s) := by
  induction cs generalizing s with
  | nil => exact h
  | cons c cs ih => exact ih (h.call c)

/-- A new module has no methods. -/
theorem methods_addModule (a : Assembly) (name : String) :
    (a.addModule name).methods = a.methods := by
  simp [methods, addModule]

/-- A list is flattened alike if the parts that have changed are. -/
theorem flatMap_modify {α β : Type} {g : α → α} {f : α → List β}
    (h : ∀ x, f (g x) = f x) (l : List α) (n : Nat) :
    (l.modify n g).flatMap f = l.flatMap f := by
  induction l generalizing n with
  | nil => cases n <;> rfl
  | cons x l ih =>
      cases n with
      | zero =>
          rw [List.modify_zero_cons, List.flatMap_cons, List.flatMap_cons, h]
      | succ n =>
          rw [List.modify_succ_cons, List.flatMap_cons, List.flatMap_cons, ih]

/-- A new type has no methods. -/
theorem methods_addType (a : Assembly) (mod : Nat) (name : TypeName) :
    (a.addType mod name).methods = a.methods :=
  flatMap_modify (fun x => by simp) a.modules mod

/-- A table does not notice changes that leave names alone. -/
theorem KeepsNames.ofMethods {q : Program} (h : a.KeepsNames p q) :
    Resolution.ofMethods q a.methods = Resolution.ofMethods p a.methods := by
  have hkeys : ∀ m ∈ a.methods, ((q.method m).ref.key, m) =
      ((p.method m).ref.key, m) := by
    intro m hm
    obtain ⟨hname, hparams, hdeclaring⟩ := h m hm
    rw [MethodRef.key, MethodRef.key, Method.ref, Method.ref, hname, hparams,
      hdeclaring]
  rw [Resolution.ofMethods, Resolution.ofMethods, List.map_congr_left hkeys]

/-- An index stays current as long as names do. -/
theorem KeepsNames.current {q : Program} (h : a.KeepsNames p q)
    (hcurrent : a.Current p) : a.Current q := by
  intro t ht
  rw [h.ofMethods]
  exact hcurrent t ht

/-- What a change leaves alone of each method, it leaves alone when a method is
stored. -/
theorem field_modifyMethod {α : Type} (field : Method → α) {f : Method → Method}
    (h : ∀ x, field (f x) = field x) (p : Program) (m d : MethodId) :
    field ((p.modifyMethod m f).method d) = field (p.method d) := by
  simp only [Program.method, Program.modifyMethod, Array.getD_eq_getD_getElem?,
    Array.getElem?_modify]
  split
  · cases p.methods[d.index]? with
    | none => rfl
    | some x => exact h x
  · rfl

/-- A new body is that of one method. -/
theorem methods_setBody (p : Program) (m : MethodId) (b : Option BodyId) :
    (p.setBody m b).methods =
    (p.modifyMethod m fun x => { x with body := b }).methods := by
  unfold Program.setBody
  cases (p.method m).body <;> cases b <;> rfl

/-- A new body changes no name. -/
theorem keepsNames_setBody (a : Assembly) (p : Program) (m : MethodId)
    (b : Option BodyId) : a.KeepsNames p (p.setBody m b) := by
  intro d _
  have hmethod : (p.setBody m b).method d =
      (p.modifyMethod m fun x => { x with body := b }).method d := by
    rw [Program.method, methods_setBody, Program.method]
  have hfield : ∀ {α : Type} (field : Method → α),
      (∀ x : Method, field { x with body := b } = field x) →
      field ((p.setBody m b).method d) = field (p.method d) := by
    intro α field hsame
    rw [hmethod]
    exact field_modifyMethod field hsame p m d
  exact ⟨hfield (·.name) fun _ => rfl,
    hfield (·.params) fun _ => rfl,
    hfield (·.declaring) fun _ => rfl⟩

theorem Current.perform (h : a.Current p) (c : Call) :
    (c.perform (a, p)).1.Current (c.perform (a, p)).2 := by
  cases c with
  | addModule name =>
      intro t ht
      rw [Call.perform, methods_addModule]
      exact h t ht
  | addType mod name =>
      intro t ht
      rw [Call.perform, methods_addType]
      exact h t ht
  | addMethod mod type m =>
      rw [Call.perform]
      cases hadd : a.addMethod p mod type m with
      | none => exact h
      | some s => exact current_addMethod hadd
  | resolve ref => exact h.resolve ref
  | reindex => exact current_reindex a p
  | setBody m b => exact (keepsNames_setBody a p m b).current h

theorem History.current {start s : Assembly × Program}
    (hstart : start.1.Current start.2) (h : History start s) :
    s.1.Current s.2 := by
  induction h with
  | start => exact hstart
  | call c _ ih => exact ih.perform c
  | change _ hkept ih => exact hkept.current ih

/-- **Lookups are never out of date.**  An assembly from which nothing has been
looked up is extended, asked, indexed anew and given other bodies, in any order,
while its methods keep their names.  Whenever a reference is looked up, the last
method in declaration order that has its key is found, and none only if there is
none. -/
theorem resolves_to_last {start : Assembly × Program}
    (hstart : start.1.table = none) (h : History start (a, p)) (r : MethodRef) :
    (∀ m, (a.resolve p (some r)).1 = some m ↔
      ∃ pre post, a.methods = pre ++ m :: post ∧ (p.method m).ref.key = r.key ∧
      ∀ d ∈ post, (p.method d).ref.key ≠ r.key) ∧
    ((a.resolve p (some r)).1 = none ↔
      ∀ m ∈ a.methods, (p.method m).ref.key ≠ r.key) := by
  have hcurrent : a.Current p :=
    h.current fun t ht => by rw [hstart] at ht; cases ht
  rw [resolve_eq hcurrent]
  exact ⟨fun m => Resolution.resolve_ofMethods_iff,
    Resolution.resolve_eq_none_iff⟩

/-- An assembly with two types of one name. -/
def twin : Assembly where
  name := "Lib"
  modules := [⟨"Lib.dll", [⟨⟨"Lib", "Table"⟩, []⟩, ⟨⟨"Lib", "Table"⟩, []⟩]⟩]

/-- Two methods with one signature, in no type yet. -/
def twins : Program where
  methods := #[{ name := "Put", attrs := 1 }, { name := "Put", attrs := 1 }]

/-- A method is added to the second type and found.  Then one with the same key
is added to the first type, which comes earlier in declaration order: the first
method is still found, also after the second one has been given a body and the
table has been made anew. -/
theorem resolves_to_last_twins :
    let put : MethodRef := ⟨"Lib.Table", "Put", [], "void"⟩
    let calls : List Call :=
      [.addMethod 0 1 ⟨0⟩, .resolve (some put), .addMethod 0 0 ⟨1⟩,
      .resolve (some put), .setBody ⟨1⟩ (some ⟨0⟩), .reindex]
    let s := calls.foldl (fun s c => c.perform s) (twin, twins)
    twin.table = none ∧ History (twin, twins) s ∧ s.1.methods = [⟨1⟩, ⟨0⟩] ∧
    (s.1.resolve s.2 (some put)).1 = some ⟨0⟩ := by
  intro put calls s
  have h : History (twin, twins) (s.1, s.2) := History.start.calls calls
  have hmethods : s.1.methods = [⟨1⟩, ⟨0⟩] := by decide +kernel
  refine ⟨rfl, h, hmethods, ((resolves_to_last rfl h put).1 ⟨0⟩).mpr ?_⟩
  exact ⟨[⟨1⟩], [], hmethods, by decide +kernel, by simp⟩

end Assembly

end Bytecode
