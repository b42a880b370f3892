import Bytecode.Proofs.Resolving
import Bytecode.Proofs.Visiting

/-!
# Who a body belongs to

A method knows its body, and a body knows the method it is attached to.  When a
method gets another body, the one it had is told, but not the method that had
the new one before.  So the method that a body names always has this body,
whereas a method may have a body that names another method, or none.

Methods and bodies agree as long as no body is attached to a method while
another one has it, and no longer.  The step lemma is `agrees_setBody_iff`, the
main statement `agrees_attachAll_iff`.
-/

namespace Bytecode

namespace Program

variable {p : Program} {m k : MethodId} {b c : BodyId} {o : Option BodyId}

/-! ### One call -/

/-- The methods and the bodies have been made. -/
def Attachable (p : Program) (m : MethodId) (o : Option BodyId) : Prop :=
  m.index < p.methods.size ∧ ∀ b ∈ o, b.index < p.bodies.size

instance : Decidable (p.Attachable m o) := inferInstanceAs (Decidable (_ ∧ _))

/-- Only the method that was given a body has changed. -/
theorem method_setBody (hm : m.index < p.methods.size) (o : Option BodyId)
    (k : MethodId) :
    (p.setBody m o).method k = if k = m then { p.method m with body := o } else
        p.method k := by
  have hmethod : (p.setBody m o).method k =
      (p.modifyMethod m fun x => { x with body := o }).method k := by
    rw [method, Assembly.methods_setBody, method]
  rw [hmethod]
  simp only [method, modifyMethod, Array.getD_eq_getD_getElem?,
    Array.getElem?_modify]
  by_cases hkm : k = m
  · subst hkm
    simp [hm]
  · have hne : m.index ≠ k.index :=
      fun heq => hkm (by cases k; cases m; simpa using heq.symm)
    rw [if_neg hkm, if_neg hne]

/-- A body is told that it is not attached any more; there is nothing to tell
one that has not been made. -/
theorem owner_detached (p : Program) (b c : BodyId) :
    ((p.modifyBody b fun x => { x with method := none }).body c).method =
      if c = b then none else (p.body c).method := by
  by_cases hb : b.index < p.bodies.size
  · rw [body_modifyBody hb]
    split <;> rfl
  · have hsame : (p.modifyBody b fun x => { x with method := none }).body c =
        p.body c := by
      simp only [body, modifyBody, Array.getD_eq_getD_getElem?,
        Array.getElem?_modify]
      split
      · next heq =>
          rw [← heq, Array.getElem?_eq_none (not_lt.mp hb), Option.map_none]
      · rfl
    rw [hsame]
    split
    · next heq =>
        rw [heq, body, Array.getD, dif_neg hb]
        rfl
    · rfl

/-- The body that the method has, if it has one, is told. -/
def released (p : Program) (m : MethodId) : Program :=
  match (p.method m).body with
  | some old => p.modifyBody old fun x => { x with method := none }
  | none => p

/-- A method's release clears the owner of its body, and of no other. -/
theorem owner_released (p : Program) (m : MethodId) (c : BodyId) :
    ((p.released m).body c).method =
    if (p.method m).body = some c then none else (p.body c).method := by
  rw [released]
  cases (p.method m).body with
  | none => simp
  | some old =>
      simp only
      rw [owner_detached]
      simp only [Option.some.injEq, eq_comm]

/-- It makes and loses no body. -/
theorem size_bodies_released (p : Program) (m : MethodId) :
    (p.released m).bodies.size = p.bodies.size := by
  rw [released]
  cases (p.method m).body with
  | none => rfl
  | some old => exact size_bodies_modifyBody _

/-- Giving a method a body is releasing its old one and linking the new. -/
theorem setBody_eq (p : Program) (m : MethodId) (o : Option BodyId) :
    p.setBody m o = match o with
      | some new => ((p.released m).modifyMethod m
          fun x => { x with body := o }).modifyBody new fun x =>
          { x with method := some m }
      | none =>
          (p.released m).modifyMethod m fun x => { x with body := o } := rfl

/-- The method that a body names after a call. -/
theorem owner_setBody (h : p.Attachable m o) (c : BodyId) :
    ((p.setBody m o).body c).method =
      if o = some c then some m
      else if (p.method m).body = some c then none else (p.body c).method := by
  rw [setBody_eq, ← owner_released]
  cases o with
  | none => rfl
  | some b =>
      have hb : b.index < ((p.released m).modifyMethod m
          fun x => { x with body := some b }).bodies.size := by
        change b.index < (p.released m).bodies.size
        rw [size_bodies_released]
        exact h.2 b rfl
      simp only [body_modifyBody hb, Option.some.injEq, eq_comm]
      split <;> rfl

/-- What could be attached still can. -/
theorem Attachable.setBody (h : p.Attachable k o) (m : MethodId)
    (o' : Option BodyId) : (p.setBody m o').Attachable k o := by
  refine ⟨?_, fun b hb => ?_⟩
  · rw [Assembly.methods_setBody, modifyMethod, Array.size_modify]
    exact h.1
  · have hsize : (p.setBody m o').bodies.size = p.bodies.size := by
      rw [setBody_eq, ← size_bodies_released p m]
      cases o' with
      | none => rfl
      | some new => exact size_bodies_modifyBody _
    rw [hsize]
    exact h.2 b hb

/-! ### The two sides -/

/-- The method that a body names has this body. -/
def Owned (p : Program) : Prop :=
  ∀ m b, (p.body b).method = some m → (p.method m).body = some b

/-- A method has a body if and only if the body names the method. -/
def Agrees (p : Program) : Prop :=
  ∀ m b, (p.method m).body = some b ↔ (p.body b).method = some m

/-- If links agree, each body that is in use has an owner. -/
theorem Agrees.owned (h : p.Agrees) : p.Owned := fun m b => (h m b).mpr

/-- Where they agree, no two methods have the same body. -/
theorem Agrees.unshared (h : p.Agrees) : p.Unshared := by
  intro m k b hm hk
  have hnamed : some m = some k := ((h m b).mp hm).symm.trans ((h k b).mp hk)
  exact (Option.some.inj hnamed).symm

/-- No other method has the body. -/
def Spare (p : Program) (m : MethodId) (o : Option BodyId) : Prop :=
  ∀ b, o = some b → ∀ k, k ≠ m → (p.method k).body ≠ some b

/-- **The method that a body names still has it** after a call. -/
theorem Owned.setBody (h : p.Owned) (ho : p.Attachable m o) :
    (p.setBody m o).Owned := by
  intro k b hk
  rw [owner_setBody ho] at hk
  rw [method_setBody ho.1]
  split at hk
  · next heq =>
      obtain rfl := Option.some.inj hk
      rw [if_pos rfl]
      exact heq
  · split at hk
    · cases hk
    · next hother =>
        have hkept := h k b hk
        rw [if_neg]
        · exact hkept
        · intro hkm
          subst hkm
          exact hother hkept

/-- **Agreement is kept by a call** if and only if no other method has the
body. -/
theorem agrees_setBody_iff (h : p.Agrees) (ho : p.Attachable m o) :
    (p.setBody m o).Agrees ↔ p.Spare m o := by
  constructor
  · intro hagrees b ho' k hkm hk
    subst ho'
    -- the other method still has the body, which names `m` now
    have hmine : ((p.setBody m (some b)).method k).body = some b := by
      rw [method_setBody ho.1, if_neg hkm]
      exact hk
    have hnamed := (hagrees k b).mp hmine
    rw [owner_setBody ho, if_pos rfl] at hnamed
    exact hkm (Option.some.inj hnamed).symm
  · intro hspare k b
    -- that a body's method has it is kept anyway, so what is left is that the
    -- body names its method
    refine ⟨fun hk => ?_, (h.owned.setBody ho) k b⟩
    rw [method_setBody ho.1] at hk
    rw [owner_setBody ho]
    split at hk
    · next hkm =>
        rw [if_pos hk, hkm]
    · next hkm =>
        have hother : o ≠ some b := fun heq => hspare b heq k hkm hk
        have hnamed := (h k b).mp hk
        rw [if_neg hother, if_neg]
        · exact hnamed
        · intro hm
          have hboth : some k = some m := hnamed.symm.trans ((h m b).mp hm)
          exact hkm (Option.some.inj hboth)

/-- Two methods have the body after a call that attaches it while another one
has it. -/
theorem Spare.of_unshared (ho : p.Attachable m o)
    (h : (p.setBody m o).Unshared) : p.Spare m o := by
  intro b ho' k hkm hk
  subst ho'
  have hmine : ((p.setBody m (some b)).method m).body = some b := by
    rw [method_setBody ho.1, if_pos rfl]
  have hother : ((p.setBody m (some b)).method k).body = some b := by
    rw [method_setBody ho.1, if_neg hkm]
    exact hk
  exact hkm (h m k b hmine hother)

end Program

/-! ### Calls one after the other -/

/-- A call that gives a method a body, or none. -/
structure Attachment where
  method : MethodId
  body : Option BodyId

namespace Program

variable {p : Program} {calls : List Attachment}

/-- The program after the calls. -/
def attachAll (p : Program) (calls : List Attachment) : Program :=
  calls.foldl (fun p c => p.setBody c.method c.body) p

/-- Each call gives its method a body that no other method has at that time. -/
def Exclusive (p : Program) : List Attachment → Prop
  | [] => True
  | c :: rest =>
      p.Spare c.method c.body ∧ (p.setBody c.method c.body).Exclusive rest

/-- No method has a body, and no body is attached. -/
def Detached (p : Program) : Prop :=
  (∀ m, (p.method m).body = none) ∧ ∀ b, (p.body b).method = none

/-- Nothing attached, nothing to disagree. -/
theorem Detached.agrees (h : p.Detached) : p.Agrees := by
  intro m b
  rw [h.1, h.2]
  simp

/-- Attaching bodies keeps each that is in use owned. -/
theorem owned_attachAll (h : p.Owned)
    (hcalls : ∀ c ∈ calls, p.Attachable c.method c.body) :
    (p.attachAll calls).Owned := by
  induction calls generalizing p with
  | nil => exact h
  | cons c rest ih =>
      obtain ⟨hc, hrest⟩ := List.forall_mem_cons.mp hcalls
      exact ih (h.setBody hc) fun d hd => (hrest d hd).setBody _ _

/-- Links agree after each call exactly if the calls share no body. -/
theorem agrees_take_iff (h : p.Agrees)
    (hcalls : ∀ c ∈ calls, p.Attachable c.method c.body) :
    (∀ n, (p.attachAll (calls.take n)).Agrees) ↔ p.Exclusive calls := by
  induction calls generalizing p with
  | nil => exact ⟨fun _ => trivial, fun _ n => by rwa [List.take_nil]⟩
  | cons c rest ih =>
      obtain ⟨hc, hrest⟩ := List.forall_mem_cons.mp hcalls
      have hstep := agrees_setBody_iff h hc
      have hrest' :
          ∀ d ∈ rest, (p.setBody c.method c.body).Attachable d.method d.body :=
        fun d hd => (hrest d hd).setBody _ _
      constructor
      · intro hall
        have hnext : (p.setBody c.method c.body).Agrees := hall 1
        exact ⟨hstep.mp hnext, (ih hnext hrest').mp fun n => hall (n + 1)⟩
      · intro hcalls' n
        obtain ⟨hspare, hexclusive⟩ := hcalls'
        cases n with
        | zero => exact h
        | succ n => exact (ih (hstep.mpr hspare) hrest').mpr hexclusive n

/-- If no body is ever shared, the calls are exclusive. -/
theorem exclusive_of_unshared
    (hcalls : ∀ c ∈ calls, p.Attachable c.method c.body)
    (h : ∀ n, (p.attachAll (calls.take n)).Unshared) : p.Exclusive calls := by
  induction calls generalizing p with
  | nil => trivial
  | cons c rest ih =>
      obtain ⟨hc, hrest⟩ := List.forall_mem_cons.mp hcalls
      have hnext : (p.setBody c.method c.body).Unshared := h 1
      exact ⟨.of_unshared hc hnext,
        ih (fun d hd => (hrest d hd).setBody _ _) fun n => h (n + 1)⟩

/-- A body is spare for a method exactly if no other method has it. -/
theorem spare_iff {m : MethodId} {o : Option BodyId} : p.Spare m o ↔
    ∀ b ∈ o, ∀ n < p.methods.size, ⟨n⟩ ≠ m → (p.method ⟨n⟩).body ≠ some b :=
  ⟨fun h b hb n _ hn => h b hb ⟨n⟩ hn,
    fun h b hb k hk hbody => h b hb k.index (index_lt_of_body hbody) hk hbody⟩

instance {m : MethodId} {o : Option BodyId} : Decidable (p.Spare m o) :=
  decidable_of_iff' _ spare_iff

instance decidableExclusive (p : Program) :
    (calls : List Attachment) → Decidable (p.Exclusive calls)
  | [] => isTrue trivial
  | c :: rest =>
    have := decidableExclusive (p.setBody c.method c.body) rest
    inferInstanceAs (Decidable (p.Spare c.method c.body ∧ _))

/-- A program is detached exactly if no method has a body and no body a
method. -/
theorem detached_iff :
    p.Detached ↔ (∀ n < p.methods.size, (p.method ⟨n⟩).body = none) ∧
    ∀ n < p.bodies.size, (p.body ⟨n⟩).method = none := by
  refine ⟨fun h => ⟨fun n _ => h.1 ⟨n⟩, fun n _ => h.2 ⟨n⟩⟩,
    fun h => ⟨fun m => ?_, fun b => ?_⟩⟩
  · by_cases hm : m.index < p.methods.size
    · exact h.1 m.index hm
    · rw [method, Array.getD, dif_neg hm]
      rfl
  · by_cases hb : b.index < p.bodies.size
    · exact h.2 b.index hb
    · rw [body, Array.getD, dif_neg hb]
      rfl

instance : Decidable p.Detached := decidable_of_iff' _ detached_iff

/-- **Methods and bodies agree as long as bodies are spare.**  Methods are given
bodies, or none, in any order, and neither the methods nor the bodies have been
attached before.  In every state reached, the method that a body names has this
body.  That a method has a body if and only if the body names it, in every state
reached, comes down to this: each body is given to a method while no other
method has it. So does that no two methods have the same body. -/
theorem agrees_attachAll_iff (hp : p.Detached)
    (hcalls : ∀ c ∈ calls, p.Attachable c.method c.body) :
    (∀ n, (p.attachAll (calls.take n)).Owned) ∧
    ((∀ n, (p.attachAll (calls.take n)).Agrees) ↔ p.Exclusive calls) ∧
    ((∀ n, (p.attachAll (calls.take n)).Unshared) ↔ p.Exclusive calls) := by
  have hagrees := hp.agrees
  have hiff := agrees_take_iff hagrees hcalls
  exact ⟨fun n => owned_attachAll hagrees.owned fun c hc => hcalls c
    (List.mem_of_mem_take hc), hiff, exclusive_of_unshared hcalls,
    fun hexclusive n => (hiff.mpr hexclusive n).unshared⟩

/-- Two methods and two bodies. -/
def unattached : Program where
  bodies := #[{}, {}]
  methods := #[{ name := "first" }, { name := "second" }]

/-- A body that is taken from the first method before the second one gets it,
and is replaced there before it goes back. -/
def handedOver : List Attachment :=
  [⟨⟨0⟩, some ⟨0⟩⟩, ⟨⟨0⟩, none⟩, ⟨⟨1⟩, some ⟨0⟩⟩, ⟨⟨1⟩, some ⟨1⟩⟩,
    ⟨⟨0⟩, some ⟨0⟩⟩]

/-- Methods and bodies agree all the way. -/
theorem agrees_attachAll_iff_handedOver : unattached.Detached ∧
    (∀ c ∈ handedOver, unattached.Attachable c.method c.body) ∧
    unattached.Exclusive handedOver ∧
    ∀ n, (unattached.attachAll (handedOver.take n)).Agrees := by
  have hp : unattached.Detached := by decide
  have hcalls : ∀ c ∈ handedOver, unattached.Attachable c.method c.body := by
    decide
  have hexclusive : unattached.Exclusive handedOver := by decide
  exact ⟨hp, hcalls, hexclusive,
    (agrees_attachAll_iff hp hcalls).2.1.mpr hexclusive⟩

/-- A body that the second method gets while the first one has it. -/
def shared : Program := unattached.attachAll [⟨⟨0⟩, some ⟨0⟩⟩, ⟨⟨1⟩, some ⟨0⟩⟩]

/-- Both methods have the body then, and it names the second one.  When the
first one is cleared, it names none. -/
theorem attachAll_shares_body : unattached.Detached ∧
    (shared.method ⟨0⟩).body = some ⟨0⟩ ∧ (shared.method ⟨1⟩).body = some ⟨0⟩ ∧
    (shared.body ⟨0⟩).method = some ⟨1⟩ ∧ ¬ shared.Agrees ∧ ¬ shared.Unshared ∧
    ((shared.setBody ⟨0⟩ none).method ⟨1⟩).body = some ⟨0⟩ ∧
    ((shared.setBody ⟨0⟩ none).body ⟨0⟩).method = none := by
  have hfirst : (shared.method ⟨0⟩).body = some ⟨0⟩ := by decide
  have hnamed : (shared.body ⟨0⟩).method = some ⟨1⟩ := by decide
  refine ⟨by decide, hfirst, by decide, hnamed, fun hagrees => ?_, by decide,
    by decide, by decide⟩
  have hback := (hagrees ⟨0⟩ ⟨0⟩).mp hfirst
  rw [hnamed] at hback
  exact absurd hback (by decide)

end Program

end Bytecode
