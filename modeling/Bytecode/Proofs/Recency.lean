import Mathlib
import Bytecode.Proofs.Decisions

/-!
# What a memo remembers

A memo is asked about one method after the other, and the policy behind it may
give another answer each time.  A question leads to a consultation if the memo
cannot answer without the policy.  After any questions the memo has the methods
that were asked about last, as many of them as it has room for, each with the
answer of its last consultation: `Remembers` says so, and `Remembers.put`
carries it over one more question, whether its method is remembered and moves to
the front or is not and pushes the last one out.

The main statement is `consults_unless_recent`.  It is about any cache, and so
two memos cannot be told apart by the caches that they keep their decisions in,
`Alike.ask`.
-/

namespace Bytecode.Memo

/-- A question to a memo, with the policy behind it and the program as they are
at that moment. -/
structure Question where
  policy : Program → Option MethodId → Bool
  program : Program
  method : Option MethodId

/-- What the policy says to a question if it is consulted. -/
def Question.judged (q : Question) : Bool := q.policy q.program q.method

/-- The different methods that have been asked about, the one asked about last
in front. -/
def latest (qs : List Question) : List (Option MethodId) :=
  (qs.map (·.method)).dedup.reverse

/-- Each method is listed once, at its last question. -/
theorem nodup_latest (qs : List Question) : (latest qs).Nodup :=
  List.nodup_reverse.mpr (List.nodup_dedup _)

/-- Duplicates are dropped from the front, so a new last entry moves to the
end. -/
theorem dedup_append_singleton (l : List (Option MethodId))
    (m : Option MethodId) :
    (l ++ [m]).dedup = l.dedup.filter (· ≠ m) ++ [m] := by
  induction l with
  | nil => rfl
  | cons k l ih =>
      rw [List.cons_append]
      by_cases hkl : k ∈ l
      · rw [List.dedup_cons_of_mem (List.mem_append_left _ hkl),
          List.dedup_cons_of_mem hkl, ih]
      · rw [List.dedup_cons_of_notMem hkl]
        by_cases hkm : k = m
        · rw [List.dedup_cons_of_mem (by simp [hkm]), ih,
            List.filter_cons_of_neg (by simp [hkm])]
        · rw [List.dedup_cons_of_notMem (by simp [hkl, hkm]), ih,
            List.filter_cons_of_pos (by simpa using hkm), List.cons_append]

/-- The method that was asked about last comes first. -/
theorem latest_append (qs : List Question) (q : Question) :
    latest (qs ++ [q]) = q.method :: (latest qs).filter (· ≠ q.method) := by
  rw [latest, List.map_append, List.map_singleton, dedup_append_singleton,
    List.reverse_append, List.reverse_singleton, List.singleton_append,
    ← List.filter_reverse, latest]

variable {C : Type} [Cache C] {memo : Memo C} {m : Option MethodId}
  {qs log : List Question} {q : Question} {n : Nat}

/-! ### Consultations -/

/-- The memo after a question. -/
def put (memo : Memo C) (q : Question) : Memo C :=
  (memo.ask (fun _ => q.policy) q.program q.method).2

/-- What the memo answers to a question. -/
def answer (memo : Memo C) (q : Question) : Bool :=
  (memo.ask (fun _ => q.policy) q.program q.method).1

/-- Asking a memo puts a question to it: the policy at that moment is the one
that has given so many answers. -/
theorem ask_eq_put (memo : Memo C) (policy : Policy) (p : Program)
    (m : Option MethodId) : memo.ask policy p m =
      (memo.answer ⟨policy memo.consulted, p, m⟩,
        memo.put ⟨policy memo.consulted, p, m⟩) := rfl

/-- The memo after questions, the oldest first. -/
def after (memo : Memo C) (qs : List Question) : Memo C := qs.foldl put memo

/-- The memo cannot answer without the policy: its answer depends on what the
policy says. -/
def Consults (memo : Memo C) (m : Option MethodId) : Prop :=
  ∃ policy policy' p, (memo.ask policy p m).1 ≠ (memo.ask policy' p m).1

/-- The policy is consulted exactly if there is no entry. -/
theorem consults_iff : memo.Consults m ↔ memo.recent.lookup m = none := by
  cases h : memo.recent.lookup m with
  | none =>
      refine ⟨fun _ => rfl, fun _ => ⟨.always, .never, default, ?_⟩⟩
      rw [(ask_of_unknown h _ _).1, (ask_of_unknown h _ _).1]
      simp [Policy.always, Policy.never]
  | some yes =>
      refine ⟨fun ⟨policy, policy', p, hne⟩ => ?_, fun hno => by cases hno⟩
      rw [(ask_of_known h _ _).1, (ask_of_known h _ _).1] at hne
      exact absurd rfl hne

instance (memo : Memo C) (m : Option MethodId) : Decidable (memo.Consults m) :=
  decidable_of_iff' _ consults_iff

/-- Those of the questions at which the policy is consulted, the oldest
first. -/
def consultations (memo : Memo C) : List Question → List Question
  | [] => []
  | q :: qs =>
    if memo.Consults q.method then q :: (memo.put q).consultations qs
    else (memo.put q).consultations qs

/-- A question is passed on exactly if it is not remembered. -/
theorem consultations_append (memo : Memo C) (qs : List Question)
    (q : Question) : memo.consultations (qs ++ [q]) = memo.consultations qs ++
    if (memo.after qs).Consults q.method then [q] else [] := by
  induction qs generalizing memo with
  | nil =>
      rw [List.nil_append, consultations, consultations, after, List.foldl_nil]
      split
      · rfl
      · rfl
  | cons k qs ih =>
      rw [List.cons_append, consultations, consultations, ih, after, after,
        List.foldl_cons]
      split
      · rfl
      · rfl

/-- Questions are put one after the other. -/
theorem after_append (memo : Memo C) (qs : List Question) (q : Question) :
    memo.after (qs ++ [q]) = (memo.after qs).put q := by
  rw [after, List.foldl_append]
  rfl

/-- The answer of the last consultation for a method. -/
def lastJudged (log : List Question) (m : Option MethodId) : Option Bool :=
  (log.reverse.find? fun q => q.method = m).map Question.judged

/-- The last judgement changes for the method in question only. -/
theorem lastJudged_append (log : List Question) (q : Question)
    (m : Option MethodId) :
    lastJudged (log ++ [q]) m = if q.method = m then some q.judged else
        lastJudged log m := by
  rw [lastJudged, lastJudged, List.reverse_append, List.reverse_singleton,
    List.singleton_append, List.find?_cons]
  by_cases h : q.method = m
  · simp [h]
  · simp [h]

/-! ### What is remembered -/

/-- The first places of a list do not change when an element behind them
goes. -/
theorem take_filter_ne {l : List (Option MethodId)} (h : m ∉ l.take n) :
    (l.filter (· ≠ m)).take n = l.take n := by
  induction l generalizing n with
  | nil => rfl
  | cons k l ih =>
      cases n with
      | zero => rfl
      | succ n =>
          rw [List.take_succ_cons, List.mem_cons, not_or] at h
          rw [List.filter_cons_of_pos (by simpa using Ne.symm h.1),
            List.take_succ_cons, List.take_succ_cons, ih h.2]

/-- When an element of the first places goes, one place less is left of them. -/
theorem filter_ne_take {l : List (Option MethodId)} (hl : l.Nodup)
    (h : m ∈ l.take (n + 1)) :
    (l.take (n + 1)).filter (· ≠ m) = (l.filter (· ≠ m)).take n := by
  induction l generalizing n with
  | nil => cases h
  | cons k l ih =>
      rw [List.nodup_cons] at hl
      rw [List.take_succ_cons] at h ⊢
      by_cases hk : k = m
      · have hm : m ∉ l := hk ▸ hl.1
        rw [List.filter_cons_of_neg (by simp [hk]),
          List.filter_cons_of_neg (by simp [hk])]
        rw [List.filter_eq_self.mpr, List.filter_eq_self.mpr]
        · exact fun k hk => by simpa using ne_of_mem_of_not_mem hk hm
        · exact fun k hk => by
            simpa using ne_of_mem_of_not_mem (List.mem_of_mem_take hk) hm
      · have hmem : m ∈ l.take n :=
          (List.mem_cons.mp h).resolve_left (Ne.symm hk)
        rw [List.filter_cons_of_pos (by simpa using hk),
          List.filter_cons_of_pos (by simpa using hk)]
        cases n with
        | zero => simp at hmem
        | succ n => rw [ih hl.2 hmem, List.take_succ_cons]

/-- What the memo holds after questions of which these were consultations. -/
structure Remembers (memo : Memo C) (qs log : List Question) : Prop where
  room : 0 < memo.capacity
  keys : memo.recent.map Prod.fst = (latest qs).take memo.capacity
  answers : ∀ m yes, memo.recent.lookup m = some yes →
    lastJudged log m = some yes
  count : memo.consulted = log.length

/-- A fresh memo remembers no question. -/
theorem remembers_ofCapacity (n : Int) :
    (ofCapacity n : Memo C).Remembers [] [] where
  room := by
    rw [capacity_ofCapacity]
    exact Nat.lt_of_lt_of_le Nat.one_pos (Nat.le_max_right _ _)
  keys := by simp [latest]
  answers := fun _ _ h => by
    rw [recent_ofCapacity] at h
    cases h
  count := rfl

/-- A question is passed on unless its method is among the most recent ones. -/
theorem Remembers.consults_iff (h : memo.Remembers qs log) :
    memo.Consults m ↔ m ∉ (latest qs).take memo.capacity := by
  rw [Memo.consults_iff, ← h.keys, List.lookup_eq_none_iff]
  constructor
  · intro hno hmem
    obtain ⟨e, he, heq⟩ := List.mem_map.mp hmem
    simpa [heq] using hno e he
  · intro hno e he
    exact bne_iff_ne.mpr fun heq => hno (heq ▸ List.mem_map_of_mem he)

/-- The answer is what was judged last. -/
theorem Remembers.answer_eq (h : memo.Remembers qs log) (q : Question) :
    lastJudged (log ++ if memo.Consults q.method then [q] else []) q.method =
      some (memo.answer q) := by
  cases hlook : memo.recent.lookup q.method with
  | none =>
      rw [if_pos (Memo.consults_iff.mpr hlook), lastJudged_append, if_pos rfl,
        answer, (ask_of_unknown hlook _ _).1]
      rfl
  | some yes =>
      have hno : ¬ memo.Consults q.method := by
        rw [Memo.consults_iff, hlook]
        simp
      rw [if_neg hno, List.append_nil, answer, (ask_of_known hlook _ _).1]
      exact h.answers _ _ hlook

/-- Entries are dropped by their method. -/
theorem map_fst_filter (l : List (Option MethodId × Bool))
    (m : Option MethodId) : (l.filter fun e => e.1 ≠ m).map Prod.fst =
    (l.map Prod.fst).filter (· ≠ m) := by
  rw [List.filter_map]
  rfl

/-- A memo keeps its room whatever it is asked. -/
@[simp] theorem capacity_put (memo : Memo C) (q : Question) :
    (memo.put q).capacity = memo.capacity := capacity_ask

/-- **One more question.** -/
theorem Remembers.put (h : memo.Remembers qs log) (q : Question) :
    (memo.put q).Remembers (qs ++ [q])
      (log ++ if memo.Consults q.method then [q] else []) := by
  obtain ⟨k, hk⟩ := Nat.exists_eq_add_of_lt h.room
  have hcapacity : memo.capacity = k + 1 := by omega
  have hroom : 0 < (memo.put q).capacity := by
    rw [capacity_put]
    exact h.room
  have hconsults := h.consults_iff (m := q.method)
  cases hlook : memo.recent.lookup q.method with
  | some yes =>
      have hno : ¬ memo.Consults q.method := by
        rw [Memo.consults_iff, hlook]
        simp
      have hmem : q.method ∈ (latest qs).take memo.capacity := by
        by_contra hout
        exact hno (hconsults.mpr hout)
      obtain ⟨-, hcount, hrecent⟩ :=
        ask_of_known hlook (fun _ => q.policy) q.program
      rw [if_neg hno, List.append_nil]
      refine ⟨hroom, ?_, fun m yes' hm => ?_, hcount.trans h.count⟩
      · rw [capacity_put, Memo.put, hrecent, latest_append, List.map_cons,
          map_fst_filter, h.keys, hcapacity, List.take_succ_cons]
        rw [hcapacity] at hmem
        rw [filter_ne_take (nodup_latest qs) hmem]
      · rw [Memo.put, hrecent] at hm
        by_cases hmq : m = q.method
        · rw [hmq, List.lookup_cons_self] at hm
          rw [hmq, ← hm]
          exact h.answers _ _ hlook
        · rw [List.lookup_cons, beq_false_of_ne hmq] at hm
          rw [lookup_filter_ne, if_neg hmq] at hm
          exact h.answers _ _ hm
  | none =>
      have hyes : memo.Consults q.method := Memo.consults_iff.mpr hlook
      have hout := hconsults.mp hyes
      obtain ⟨-, hcount, hrecent⟩ :=
        ask_of_unknown hlook (fun _ => q.policy) q.program
      rw [if_pos hyes]
      refine ⟨hroom, ?_, fun m yes hm => ?_, ?_⟩
      · rw [capacity_put, Memo.put, hrecent]
        rw [hcapacity] at hout ⊢
        have hkeys : (memo.recent.map Prod.fst).filter (· ≠ q.method) =
            (latest qs).take (k + 1) := by
          rw [h.keys, hcapacity, List.filter_eq_self]
          exact fun m hm => by simpa using ne_of_mem_of_not_mem hm hout
        have hfront : q.method ∉ (latest qs).take k := fun hm =>
          hout (List.take_subset_take_left _ (Nat.le_succ k) hm)
        rw [latest_append, List.map_take, List.map_cons, map_fst_filter, hkeys,
          List.take_succ_cons, List.take_succ_cons, take_filter_ne hfront,
          List.take_take, Nat.min_eq_left (Nat.le_succ k)]
      · rw [Memo.put, hrecent] at hm
        rw [lastJudged_append]
        have hm := (List.take_prefix _ _).lookup_eq_some hm
        by_cases hmq : m = q.method
        · rw [hmq, List.lookup_cons_self] at hm
          rw [if_pos hmq.symm]
          exact hm
        · rw [List.lookup_cons, beq_false_of_ne hmq] at hm
          rw [lookup_filter_ne, if_neg hmq] at hm
          rw [if_neg (Ne.symm hmq)]
          exact h.answers _ _ hm
      · rw [Memo.put, hcount, List.length_append, ← h.count]
        rfl

/-! ### Any questions -/

/-- What a memo remembers after any questions. -/
theorem remembers_after (n : Int) (qs : List Question) :
    ((ofCapacity n : Memo C).after qs).Remembers qs
      ((ofCapacity n : Memo C).consultations qs) := by
  induction qs using List.reverseRecOn with
  | nil => exact remembers_ofCapacity n
  | append_singleton qs q ih =>
      rw [after_append, consultations_append]
      exact ih.put q

/-- The room of a memo after any questions. -/
theorem capacity_after (n : Int) (qs : List Question) :
    ((ofCapacity n : Memo C).after qs).capacity = max n.toNat 1 := by
  induction qs using List.reverseRecOn with
  | nil => exact capacity_ofCapacity n
  | append_singleton qs q ih => rw [after_append, capacity_put, ih]

/-- Only questions that were put are passed on. -/
theorem mem_of_mem_consultations {memo : Memo C}
    (h : q ∈ memo.consultations qs) : q ∈ qs := by
  induction qs generalizing memo with
  | nil => cases h
  | cons k qs ih =>
      rw [consultations] at h
      split at h
      · exact (List.mem_cons.mp h).elim (fun hq => hq ▸ List.mem_cons_self)
          fun hq => List.mem_cons_of_mem _ (ih hq)
      · exact List.mem_cons_of_mem _ (ih h)

/-- With room for all methods each one is judged once. -/
theorem consultations_perm (n : Int) (qs : List Question)
    (h : (latest qs).length ≤ max n.toNat 1) :
    (((ofCapacity n : Memo C).consultations qs).map (·.method)).Perm
    (latest qs) := by
  induction qs using List.reverseRecOn with
  | nil => exact .refl _
  | append_singleton qs q ih =>
      have hconsults :=
        (remembers_after (C := C) n qs).consults_iff (m := q.method)
      rw [capacity_after] at hconsults
      rw [latest_append] at h ⊢
      rw [consultations_append, List.map_append]
      by_cases hmem : q.method ∈ latest qs
      · have hback : (q.method ::
            (latest qs).filter (· ≠ q.method)).Perm (latest qs) := by
          have herase := List.perm_cons_erase hmem
          rw [(nodup_latest qs).erase_eq_filter] at herase
          simpa [bne, beq_eq_decide] using herase.symm
        have hroom : (latest qs).length ≤ max n.toNat 1 := hback.length_eq ▸ h
        rw [List.take_of_length_le hroom] at hconsults
        rw [if_neg fun hyes => hconsults.mp hyes hmem, List.map_nil,
          List.append_nil]
        exact (ih hroom).trans hback.symm
      · have hall : (latest qs).filter (· ≠ q.method) = latest qs :=
          List.filter_eq_self.mpr fun m hm => by
            simpa using ne_of_mem_of_not_mem hm hmem
        rw [hall] at h ⊢
        have hroom : (latest qs).length ≤ max n.toNat 1 := Nat.le_of_succ_le h
        rw [List.take_of_length_le hroom] at hconsults
        rw [if_pos (hconsults.mpr hmem)]
        exact ((ih hroom).append_right _).trans (List.perm_append_singleton _ _)

/-- A verdict that depends on the method alone never goes out of date. -/
theorem lastJudged_of_pure {verdict : Option MethodId → Bool} {yes : Bool}
    (h : ∀ k ∈ log, k.judged = verdict k.method)
    (hlast : lastJudged log m = some yes) : yes = verdict m := by
  obtain ⟨k, hk, rfl⟩ := Option.map_eq_some_iff.mp hlast
  have hmethod : k.method = m := by simpa using List.find?_some hk
  rw [← hmethod]
  exact h k (List.mem_reverse.mp (List.mem_of_find?_eq_some hk))

/-- **A memo consults its policy unless it has been asked lately.**  Any
questions are put to a fresh memo over any cache, one after the other, and the
policy may say something else each time.  The memo consults the policy about a
method exactly if the method is not among those asked about last, as many as the
memo has room for, which is one at least.  It answers what the policy has said
at the last consultation for that method, and counts consultations.  So if there
is room for all methods asked about, each is judged exactly once; and a policy
that does not change its mind is answered for exactly. -/
theorem consults_unless_recent (n : Int) (qs : List Question) (q : Question) :
    (((ofCapacity n : Memo C).after qs).Consults q.method ↔
      q.method ∉ (latest qs).take (max n.toNat 1)) ∧
    lastJudged ((ofCapacity n : Memo C).consultations (qs ++ [q])) q.method =
    some (((ofCapacity n : Memo C).after qs).answer q) ∧
    ((ofCapacity n : Memo C).after qs).consulted =
    ((ofCapacity n : Memo C).consultations qs).length ∧
    ((latest qs).length ≤ max n.toNat 1 →
      (((ofCapacity n : Memo C).consultations qs).map (·.method)).Perm
      (latest qs)) ∧ ∀ verdict : Option MethodId → Bool,
    (∀ k ∈ qs ++ [q], k.judged = verdict k.method) →
    ((ofCapacity n : Memo C).after qs).answer q = verdict q.method := by
  have h := remembers_after (C := C) n qs
  have hanswer : lastJudged ((ofCapacity n : Memo C).consultations (qs ++
      [q])) q.method = some (((ofCapacity n : Memo C).after qs).answer q) := by
    rw [consultations_append]
    exact h.answer_eq q
  refine ⟨?_, hanswer, h.count, consultations_perm n qs,
    fun verdict hverdict => ?_⟩
  · rw [h.consults_iff, capacity_after]
  · exact lastJudged_of_pure
      (fun k hk => hverdict k (mem_of_mem_consultations hk)) hanswer

/-- A question about a method, with a policy that does not look at the
program. -/
def asking (verdict : Option MethodId → Bool) (m : Option MethodId) :
    Question :=
  ⟨fun _ => verdict, default, m⟩

/-- A memo that is asked for room for less than one decision remembers one: the
method asked about in between is enough for the first one to be judged anew, and
now it is declined. -/
example :
    let qs := [asking (fun _ => true) (some ⟨0⟩), asking (fun _ => true) none]
    let memo : Memo Recent := ofCapacity 0
    memo.consultations (qs ++ [asking (fun _ => false) (some ⟨0⟩)]) =
        qs ++ [asking (fun _ => false) (some ⟨0⟩)] ∧
      (memo.after qs).answer (asking (fun _ => false) (some ⟨0⟩)) = false :=
        ⟨rfl, rfl⟩

/-- Two methods and no method are judged once each, by a policy that accepts one
of them. -/
theorem consults_unless_recent_threeTimes :
    let verdict : Option MethodId → Bool := fun m => m = some ⟨1⟩
    let qs := [some ⟨1⟩, none, some ⟨1⟩, some ⟨0⟩, none].map (asking verdict)
    let q := asking verdict (some ⟨1⟩)
    let memo : Memo Recent := ofCapacity 3
    (latest qs).length ≤ max (Int.toNat 3) 1 ∧
    (∀ k ∈ qs ++ [q], k.judged = verdict k.method) ∧
    ((memo.consultations qs).map (·.method)).Perm [none, some ⟨0⟩, some ⟨1⟩] ∧
    (memo.after qs).consulted = 3 ∧ (memo.after qs).answer q = true := by
  intro verdict qs q memo
  obtain ⟨-, -, -, hperm, hpure⟩ := consults_unless_recent (C := Recent) 3 qs q
  have hroom : (latest qs).length ≤ max (Int.toNat 3) 1 := by decide
  have hverdict : ∀ k ∈ qs ++ [q], k.judged = verdict k.method := by
    intro k hk
    have hmap : k ∈ ([some ⟨1⟩, none, some ⟨1⟩, some ⟨0⟩, none, some ⟨1⟩]).map
        (asking verdict) := hk
    obtain ⟨m, -, rfl⟩ := List.mem_map.mp hmap
    rfl
  exact ⟨hroom, hverdict, hperm hroom, by decide, hpure verdict hverdict⟩

/-! ### One cache or another -/

variable {D : Type} [Cache D] {other : Memo D}

/-- Two memos remember the same, in caches of whatever kinds. -/
structure Alike (memo : Memo C) (other : Memo D) : Prop where
  recent : memo.recent = other.recent
  capacity : memo.capacity = other.capacity
  consulted : memo.consulted = other.consulted

/-- Fresh memos are alike. -/
theorem alike_ofCapacity (n : Int) :
    (ofCapacity n : Memo C).Alike (ofCapacity n : Memo D) where
  recent := by rw [recent_ofCapacity, recent_ofCapacity]
  capacity := by rw [capacity_ofCapacity, capacity_ofCapacity]
  consulted := rfl

/-- **The cache does not matter.**  Memos that are alike give one answer to a
question, and are alike after it. -/
theorem Alike.ask (h : memo.Alike other) (policy : Policy) (p : Program)
    (m : Option MethodId) :
    (memo.ask policy p m).1 = (other.ask policy p m).1 ∧
      (memo.ask policy p m).2.Alike (other.ask policy p m).2 := by
  have hroom :
      (memo.ask policy p m).2.capacity = (other.ask policy p m).2.capacity := by
    rw [capacity_ask, capacity_ask, h.capacity]
  cases hlook : memo.recent.lookup m with
  | none =>
      obtain ⟨hyes, hcount, hrecent⟩ := ask_of_unknown hlook policy p
      rw [h.recent] at hlook
      obtain ⟨hyes', hcount', hrecent'⟩ := ask_of_unknown hlook policy p
      rw [← h.consulted] at hyes' hcount' hrecent'
      rw [← h.recent, ← h.capacity] at hrecent'
      exact ⟨hyes.trans hyes'.symm, hrecent.trans hrecent'.symm, hroom,
        hcount.trans hcount'.symm⟩
  | some yes =>
      obtain ⟨hyes, hcount, hrecent⟩ := ask_of_known hlook policy p
      rw [h.recent] at hlook
      obtain ⟨hyes', hcount', hrecent'⟩ := ask_of_known hlook policy p
      rw [← h.consulted] at hcount'
      rw [← h.recent] at hrecent'
      exact ⟨hyes.trans hyes'.symm, hrecent.trans hrecent'.symm, hroom,
        hcount.trans hcount'.symm⟩

end Bytecode.Memo
