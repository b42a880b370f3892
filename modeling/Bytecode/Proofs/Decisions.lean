import Mathlib
import Bytecode.Policy
import Bytecode.Proofs.CodeList

/-!
# Decisions that stand

A policy may change its mind while a program changes, and whenever it is asked
again. Its decisions stand if it has one answer for each method, or if the memo
has room for every method that it is asked about: then a method that has been
refused once is refused for good.  Nothing is said about the cache of a memo but
what holds for all caches.
-/

namespace Bytecode.Memo

variable {C : Type} [Cache C] {memo : Memo C} {policy : Policy}
  {methods : List MethodId} {c d : MethodId} {m : Option MethodId} {p : Program}

/-- The answer on `d` is no, whatever becomes of the program and however often
the policy is asked until then. -/
def Refuses (memo : Memo C) (policy : Policy) (d : MethodId) : Prop :=
  ∀ n p, ({ memo with consulted := n }.ask policy p (some d)).1 = false

/-- The policy gives one answer for each method. -/
def Pure (policy : Policy) : Prop :=
  ∀ n k p q m, policy n p m = policy k q m

/-- What stands in the memo is what the policy says. -/
def Faithful (memo : Memo C) (policy : Policy) : Prop :=
  ∀ e ∈ memo.recent, ∀ n p, policy n p e.1 = e.2

/-- The memo has an entry for each method at most, and room for them all. -/
structure Roomy (memo : Memo C) (methods : List MethodId) : Prop where
  nodup : (memo.recent.map Prod.fst).Nodup
  known : ∀ e ∈ memo.recent, ∃ m ∈ methods, e.1 = some m
  room : methods.length ≤ memo.capacity

/-- Decisions stand. -/
def Firm (memo : Memo C) (policy : Policy) (methods : List MethodId) : Prop :=
  Pure policy ∧ memo.Faithful policy ∨ memo.Roomy methods

/-! ### One question -/

/-- A fresh memo remembers nothing. -/
@[simp] theorem recent_ofCapacity (n : Int) :
    (ofCapacity n : Memo C).recent = [] :=
  Cache.entries_empty _

/-- A fresh memo has the room that it was asked to have, and room for one at
least. -/
@[simp] theorem capacity_ofCapacity (n : Int) :
    (ofCapacity n : Memo C).capacity = max n.toNat 1 :=
  Cache.capacity_empty _

/-- A decision that is remembered is given, and its entry comes to the front. -/
theorem ask_of_known {yes : Bool} (h : memo.recent.lookup m = some yes)
    (policy : Policy) (p : Program) :
    (memo.ask policy p m).1 = yes ∧
      (memo.ask policy p m).2.consulted = memo.consulted ∧
      (memo.ask policy p m).2.recent =
        (m, yes) :: memo.recent.filter fun e => e.1 ≠ m := by
  have hget := Cache.get_fst memo.cache m
  have hentries := Cache.entries_get memo.cache m
  have hknown : (Cache.entries memo.cache).lookup m = some yes := h
  rw [hknown] at hget hentries
  rw [ask]
  generalize Cache.get memo.cache m = x at hget hentries
  obtain ⟨_, cache⟩ := x
  obtain rfl : _ = some yes := hget
  exact ⟨rfl, rfl, hentries⟩

/-- Otherwise the policy is consulted, and its decision is entered in front. -/
theorem ask_of_unknown (h : memo.recent.lookup m = none) (policy : Policy)
    (p : Program) :
    (memo.ask policy p m).1 = policy memo.consulted p m ∧
      (memo.ask policy p m).2.consulted = memo.consulted + 1 ∧
      (memo.ask policy p m).2.recent = ((m, policy memo.consulted p m) ::
        memo.recent.filter fun e => e.1 ≠ m).take memo.capacity := by
  have hget := Cache.get_fst memo.cache m
  have hentries := Cache.entries_get memo.cache m
  have hcapacity := Cache.capacity_get memo.cache m
  have hunknown : (Cache.entries memo.cache).lookup m = none := h
  rw [hunknown] at hget hentries
  rw [ask]
  generalize Cache.get memo.cache m = x at hget hentries hcapacity
  obtain ⟨_, cache⟩ := x
  obtain rfl : _ = none := hget
  have hadd := Cache.entries_add cache m (policy memo.consulted p m)
  rw [hentries, hcapacity] at hadd
  exact ⟨rfl, rfl, hadd⟩

/-- The answer of a memo. -/
theorem ask_fst : (memo.ask policy p m).1 =
    (memo.recent.lookup m).getD (policy memo.consulted p m) := by
  cases hlook : memo.recent.lookup m with
  | none => exact (ask_of_unknown hlook policy p).1
  | some yes => exact (ask_of_known hlook policy p).1

/-- A memo keeps its room. -/
@[simp] theorem capacity_ask :
    (memo.ask policy p m).2.capacity = memo.capacity := by
  have hget := Cache.capacity_get memo.cache m
  rw [ask]
  generalize Cache.get memo.cache m = x at hget
  obtain ⟨_ | yes, cache⟩ := x
  · exact (Cache.capacity_add _ _ _).trans hget
  · exact hget

theorem mem_of_lookup {α β : Type} [BEq α] [LawfulBEq α] {l : List (α × β)}
    {a : α} {y : β} (h : l.lookup a = some y) : (a, y) ∈ l := by
  induction l with
  | nil => cases h
  | cons e l ih =>
      rw [List.lookup_cons] at h
      split at h
      · next heq =>
          rw [eq_of_beq heq, ← Option.some.inj h]
          exact List.mem_cons_self
      · exact List.mem_cons_of_mem _ (ih h)

/-- What a memo holds after it has been asked is the answer, or has been there
before. -/
theorem mem_ask {e : Option MethodId × Bool}
    (h : e ∈ (memo.ask policy p (some c)).2.recent) :
    e = (some c, (memo.ask policy p (some c)).1) ∨ e ∈ memo.recent := by
  cases hlook : memo.recent.lookup (some c) with
  | none =>
      obtain ⟨hanswer, -, hrecent⟩ := ask_of_unknown hlook policy p
      rw [hrecent] at h
      rw [hanswer]
      exact (List.mem_cons.mp (List.mem_of_mem_take h)).imp_right fun h =>
        (List.mem_filter.mp h).1
  | some yes =>
      obtain ⟨hanswer, -, hrecent⟩ := ask_of_known hlook policy p
      rw [hrecent] at h
      rw [hanswer]
      exact (List.mem_cons.mp h).imp_right fun h => (List.mem_filter.mp h).1

/-! ### Pure policies -/

/-- A memo that has been faithful says what the policy says. -/
theorem ask_of_faithful (h : memo.Faithful policy) (p : Program)
    (c : MethodId) :
    (memo.ask policy p (some c)).1 = policy memo.consulted p (some c) := by
  rw [ask_fst]
  cases hlook : memo.recent.lookup (some c) with
  | none => rfl
  | some yes => exact (h _ (mem_of_lookup hlook) _ p).symm

/-- A memo stays faithful to a policy that gives one answer for each method. -/
theorem Faithful.ask (hpure : Pure policy) (h : memo.Faithful policy)
    (p : Program) (c : MethodId) :
    (memo.ask policy p (some c)).2.Faithful policy := by
  intro e he n q
  rcases mem_ask he with rfl | he
  · rw [ask_of_faithful h]
    exact hpure _ _ _ _ _
  · exact h e he n q

/-- A memo that has been faithful refuses whom the policy refuses. -/
theorem refuses_of_faithful (hpure : Pure policy) (h : memo.Faithful policy)
    (n : Nat) : memo.Refuses policy d ↔ policy n p (some d) = false := by
  have hall : ∀ k, Faithful { memo with consulted := k } policy := fun _ => h
  constructor
  · intro hno
    rw [← hno n p, ask_of_faithful (hall n)]
  · intro hno k q
    rw [ask_of_faithful (hall k), hpure _ n _ p]
    exact hno

/-! ### Roomy memos -/

/-- An empty memo is roomy if it is large enough. -/
theorem roomy_empty (hempty : memo.recent = [])
    (h : methods.length ≤ memo.capacity) : memo.Roomy methods where
  nodup := by
    rw [hempty]
    exact List.nodup_nil
  known := by
    intro e he
    rw [hempty] at he
    cases he
  room := h

/-- An entry moved or put in front is the only one for its method. -/
theorem Roomy.nodup_front (h : memo.Roomy methods) (c : MethodId) (yes : Bool) :
    (((some c, yes) :: memo.recent.filter fun e => e.1 ≠
      some c).map Prod.fst).Nodup := by
  rw [List.map_cons, List.nodup_cons]
  refine ⟨fun hmem => ?_, h.nodup.sublist (List.filter_sublist.map _)⟩
  obtain ⟨e, he, heq⟩ := List.mem_map.mp hmem
  have hne := (List.mem_filter.mp he).2
  rw [heq] at hne
  simp at hne

/-- Every entry is still for one of the methods. -/
theorem Roomy.known_front (h : memo.Roomy methods) (hc : c ∈ methods)
    (yes : Bool) :
    ∀ e ∈ (some c, yes) :: memo.recent.filter fun e => e.1 ≠ some c,
      ∃ m ∈ methods, e.1 = some m := by
  intro e he
  rcases List.mem_cons.mp he with rfl | he
  · exact ⟨c, hc, rfl⟩
  · exact h.known e (List.mem_filter.mp he).1

/-- There is room for an entry moved or put in front. -/
theorem Roomy.length_front (h : memo.Roomy methods) (hc : c ∈ methods)
    (yes : Bool) :
    ((some c, yes) :: memo.recent.filter fun e => e.1 ≠ some c).length ≤
    memo.capacity := by
  have hsub : ((some c, yes) :: memo.recent.filter fun e => e.1 ≠
      some c).map Prod.fst ⊆ methods.map some := by
    intro k hk
    obtain ⟨e, he, rfl⟩ := List.mem_map.mp hk
    obtain ⟨m, hm, heq⟩ := h.known_front hc yes e he
    exact List.mem_map.mpr ⟨m, hm, heq.symm⟩
  have hlength := ((h.nodup_front c yes).subperm hsub).length_le
  rw [List.length_map, List.length_map] at hlength
  exact hlength.trans h.room

/-- A roomy memo drops nothing. -/
theorem Roomy.recent_ask (h : memo.Roomy methods) (hc : c ∈ methods)
    (p : Program) : (memo.ask policy p (some c)).2.recent =
    (some c, (memo.ask policy p (some c)).1) ::
    memo.recent.filter fun e => e.1 ≠ some c := by
  cases hlook : memo.recent.lookup (some c) with
  | none =>
      obtain ⟨hanswer, -, hrecent⟩ := ask_of_unknown hlook policy p
      rw [hanswer, hrecent]
      apply List.take_of_length_le
      exact h.length_front hc _
  | some yes =>
      obtain ⟨hanswer, -, hrecent⟩ := ask_of_known hlook policy p
      rw [hanswer, hrecent]

/-- A roomy memo stays roomy. -/
theorem Roomy.ask (h : memo.Roomy methods) (hc : c ∈ methods) (p : Program) :
    (memo.ask policy p (some c)).2.Roomy methods where
  nodup := by
    rw [h.recent_ask hc]
    exact h.nodup_front c _
  known := by
    rw [h.recent_ask hc]
    exact h.known_front hc _
  room := by
    rw [capacity_ask]
    exact h.room

/-- A roomy memo remembers the new answer, and the others as before. -/
theorem Roomy.lookup_ask (h : memo.Roomy methods) (hc : c ∈ methods)
    (p : Program) : (memo.ask policy p (some c)).2.recent.lookup (some d) =
    if d = c then some (memo.ask policy p (some c)).1
    else memo.recent.lookup (some d) := by
  rw [h.recent_ask hc p, List.lookup_cons]
  by_cases hdc : d = c
  · simp [hdc]
  · have hbeq : (some d == some c) = false := by simpa using hdc
    rw [hbeq, if_neg hdc]
    rw [lookup_filter_ne, if_neg (by simpa using hdc)]

/-! ### Decisions that stand -/

/-- How often the policy has been asked does not matter to what is
remembered. -/
theorem Roomy.lookup_ask_consulted (h : memo.Roomy methods) (hc : c ∈ methods)
    (p : Program) (n : Nat) : ({ (memo.ask policy p (some c)).2 with
      consulted := n } : Memo C).recent.lookup (some d) =
    if d = c then some (memo.ask policy p (some c)).1
      else memo.recent.lookup (some d) :=
  h.lookup_ask hc p

variable (h : memo.Firm policy methods) (hc : c ∈ methods) (p)

include h hc

/-- Decisions that stand still do when the memo has been asked once more. -/
theorem Firm.ask : (memo.ask policy p (some c)).2.Firm policy methods := by
  rcases h with ⟨hpure, hfaithful⟩ | hroomy
  · exact Or.inl ⟨hpure, hfaithful.ask hpure p c⟩
  · exact Or.inr (hroomy.ask hc p)

/-- A refusal stands. -/
theorem Refuses.ask (hd : memo.Refuses policy d) :
    (memo.ask policy p (some c)).2.Refuses policy d := by
  rcases h with ⟨hpure, hfaithful⟩ | hroomy
  · rw [refuses_of_faithful (p := p) hpure (hfaithful.ask hpure p c) 0]
    exact (refuses_of_faithful hpure hfaithful 0).mp hd
  · intro n q
    have hq := hd n q
    rw [ask_fst] at hq ⊢
    rw [hroomy.lookup_ask_consulted hc p]
    split
    · next hdc =>
        have hp := hd memo.consulted p
        rw [hdc] at hp
        rw [Option.getD_some]
        exact hp
    · exact hq

/-- Who has been refused is refused from then on. -/
theorem refuses_of_ask (hno : (memo.ask policy p (some c)).1 = false) :
    (memo.ask policy p (some c)).2.Refuses policy c := by
  rcases h with ⟨hpure, hfaithful⟩ | hroomy
  · rw [refuses_of_faithful (p := p) hpure
      (hfaithful.ask hpure p c) memo.consulted, ← ask_of_faithful hfaithful]
    exact hno
  · intro n q
    rw [ask_fst, hroomy.lookup_ask_consulted hc p, if_pos rfl, Option.getD_some]
    exact hno

end Bytecode.Memo
