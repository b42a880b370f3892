import Bytecode.Proofs.Linking

/-!
# Edits of instruction lists

Appending, inserting, removing and replacing keep the lists of all bodies well
formed, whatever instructions they are called with.  An edit whose caller keeps
what is promised does to the list of its body what its name says, and any other
one is refused and changes nothing.

That a refusal comes before the first change cannot be seen of an edit that
answers with a program or a failure.  So `Edit.stepwise` goes through it as a
caller does who finds the program in the state that a failure leaves, and is
shown to come to the same.

Main statement: `lists_stay_well_formed`.
-/

namespace Bytecode

namespace Edit

/-- The instructions that an edit is called with. -/
def arguments : Edit → List InstrId
  | .append x | .remove x => x.toList
  | .insertBefore k x | .insertAfter k x | .replace k x => k.toList ++ x.toList

/-- An edit step by step, with the program as it is at the end or at the
failure.  Only a replacement has a step that changes the program before another
one that may fail. -/
def stepwise (e : Edit) (p : Program) (b : BodyId) :
    Except Misuse Unit × Program :=
  match e with
  | .replace old x =>
    match p.linkedInto b old, p.unlinked x with
    | .error m, _ => (.error m, p)
    | .ok _, .error m => (.error m, p)
    | .ok o, .ok _ =>
      match p.remove b (some o) with
      | .error m => (.error m, p)
      | .ok q =>
        match q.insertBefore b (p.next o) x with
        | .error m => (.error m, q)
        | .ok r => (.ok (), r)
  | e =>
    match e.apply p b with
    | .error m => (.error m, p)
    | .ok q => (.ok (), q)

/-- The caller of an edit keeps what is promised: what is put in is in no body,
and what is taken out, replaced or used as a mark is in the body under edit. -/
def Kept (e : Edit) (p : Program) (b : BodyId) : Prop :=
  match e with
  | .append x | .insertBefore none x | .insertAfter none x =>
      ∃ i ∈ x, p.owner i = none
  | .insertBefore (some k) x | .insertAfter (some k) x =>
    p.owner k = some b ∧ ∃ i ∈ x, p.owner i = none
  | .remove x => ∃ i ∈ x, p.owner i = some b
  | .replace old x =>
      (∃ k ∈ old, p.owner k = some b) ∧ ∃ i ∈ x, p.owner i = none

/-- What an edit does to the list of a body. -/
inductive Turns : Edit → List InstrId → List InstrId → Prop where
  | append (i : InstrId) (l : List InstrId) : Turns (.append (some i)) l
    (l ++ [i])
  | insertLast (i : InstrId) (l : List InstrId) : Turns
    (.insertBefore none (some i)) l (l ++ [i])
  | insertBefore (k i : InstrId) (pre post : List InstrId) : Turns
    (.insertBefore (some k) (some i)) (pre ++ k :: post) (pre ++ i :: k :: post)
  | insertFirst (i : InstrId) (l : List InstrId) : Turns
    (.insertAfter none (some i)) l (i :: l)
  | insertAfter (k i : InstrId) (pre post : List InstrId) : Turns
    (.insertAfter (some k) (some i)) (pre ++ k :: post) (pre ++ k :: i :: post)
  | remove (i : InstrId) (pre post : List InstrId) :
    Turns (.remove (some i)) (pre ++ i :: post) (pre ++ post)
  | replace (k i : InstrId) (pre post : List InstrId) :
    Turns (.replace (some k) (some i)) (pre ++ k :: post) (pre ++ i :: post)

end Edit

namespace Program

variable {p q : Program} {L : BodyId → List InstrId} {b : BodyId}
  {i k : InstrId} {e : Edit}

/-- The program has the body that is edited and the instructions that the edit
is called with. -/
def Knows (p : Program) (b : BodyId) (e : Edit) : Prop :=
  b.index < p.bodies.size ∧ ∀ i ∈ e.arguments, p.Has i

/-! ### Edits that are carried out -/

namespace Holds

/-- A list can be cut at any of its instructions. -/
theorem exists_cut (h : p.Holds L) (hk : p.owner k = some b) :
    ∃ pre post, L b = pre ++ k :: post :=
  List.append_of_mem ((h.owned b k).mpr hk)

/-- **An edit in order.**  If its caller keeps what is promised, an edit is
carried out and turns the list of its body into another one. -/
theorem edit (h : p.Holds L) (hknown : p.Knows b e) (hkept : e.Kept p b) :
    ∃ q l, e.apply p b = .ok q ∧ e.stepwise p b = (.ok (), q) ∧
      e.Turns (L b) l ∧ q.Holds (Function.update L b l) ∧ p.Relinked q := by
  obtain ⟨hb, hargs⟩ := hknown
  -- all edits but a replacement go the same way step by step
  have hone : ∀ {e : Edit} {q l}, e.apply p b = .ok q →
      e.stepwise p b = (match e.apply p b with
        | .error m => (.error m, p)
        | .ok q => (.ok (), q)) →
      e.Turns (L b) l → q.Holds (Function.update L b l) → p.Relinked q →
      ∃ q l, e.apply p b = .ok q ∧ e.stepwise p b = (.ok (), q) ∧
      e.Turns (L b) l ∧ q.Holds (Function.update L b l) ∧ p.Relinked q := by
    intro e q l happly hstep hturns hq hsame
    exact ⟨q, l, happly, by rw [hstep, happly], hturns, hq, hsame⟩
  have hend : L b = L b ++ [] := (List.append_nil _).symm
  have hfront : L b = [] ++ L b := rfl
  cases e with
  | append x =>
      obtain ⟨i, rfl, hi⟩ := hkept
      obtain ⟨q, happly, hq, hsame⟩ :=
        h.insert hb (hargs i (by simp [Edit.arguments])) hi hend
      exact hone happly rfl (.append i _) hq hsame
  | insertBefore mark x =>
      cases mark with
      | none =>
          obtain ⟨i, rfl, hi⟩ := hkept
          obtain ⟨q, happly, hq, hsame⟩ :=
            h.insert hb (hargs i (by simp [Edit.arguments])) hi hend
          exact hone happly rfl (.insertLast i _) hq hsame
      | some k =>
          obtain ⟨hk, i, rfl, hi⟩ := hkept
          obtain ⟨pre, post, hcut⟩ := h.exists_cut hk
          obtain ⟨q, happly, hq, hsame⟩ :=
            h.insert hb (hargs i (by simp [Edit.arguments])) hi hcut
          exact hone happly rfl (hcut ▸ .insertBefore k i pre post) hq hsame
  | insertAfter mark x =>
      cases mark with
      | none =>
          obtain ⟨i, rfl, hi⟩ := hkept
          obtain ⟨q, happly, hq, hsame⟩ :=
            h.insert hb (hargs i (by simp [Edit.arguments])) hi hfront
          rw [← h.first?] at happly
          exact hone happly rfl (.insertFirst i _) hq hsame
      | some k =>
          obtain ⟨hk, i, rfl, hi⟩ := hkept
          obtain ⟨pre, post, hcut⟩ := h.exists_cut hk
          have hbehind : L b = (pre ++ [k]) ++ post := by simpa using hcut
          obtain ⟨q, hinsert, hq, hsame⟩ :=
            h.insert hb (hargs i (by simp [Edit.arguments])) hi hbehind
          have happly :
              (Edit.insertAfter (some k) (some i)).apply p b = .ok q := by
            rw [← h.next hcut] at hinsert
            simpa [Edit.apply, insertAfter, linkedInto, hk, bind, Except.bind]
              using hinsert
          rw [List.append_assoc, List.singleton_append] at hq
          exact hone happly rfl (hcut ▸ .insertAfter k i pre post) hq hsame
  | remove x =>
      obtain ⟨i, rfl, hi⟩ := hkept
      obtain ⟨pre, post, hcut⟩ := h.exists_cut hi
      obtain ⟨q, happly, hq, -, hsame⟩ := h.remove hb hcut
      exact hone happly rfl (hcut ▸ .remove i pre post) hq hsame
  | replace old x =>
      obtain ⟨⟨k, rfl, hk⟩, i, rfl, hi⟩ := hkept
      obtain ⟨pre, post, hcut⟩ := h.exists_cut hk
      obtain ⟨q, hremove, hq, howner, hsame⟩ := h.remove hb hcut
      have hik : i ≠ k := by
        rintro rfl
        rw [hk] at hi
        cases hi
      have hfree : q.owner i = none := by
        rw [howner, Function.update_of_ne hik, hi]
      obtain ⟨r, hinsert, hr, hsame'⟩ :=
        hq.insert (b := b) (i := i) (hsame.bodies ▸ hb) (hsame.has
          (hargs i (by simp [Edit.arguments]))) hfree (Function.update_self ..)
      rw [Function.update_idem] at hr
      rw [← h.next hcut] at hinsert
      refine ⟨r, _, ?_, ?_, hcut ▸ .replace k i pre post, hr,
        hsame.trans hsame'⟩
      · simp [Edit.apply, replace, linkedInto, unlinked, hk, hi, hremove,
          hinsert, bind, Except.bind]
      · simp [Edit.stepwise, linkedInto, unlinked, hk, hi, hremove, hinsert]

end Holds

/-! ### Edits that are refused -/

/-- A mark that is not in the list is refused. -/
theorem linkedInto_refused {x : Option InstrId}
    (h : ¬ ∃ i ∈ x, p.owner i = some b) :
    p.linkedInto b x = .error .foreignInstruction := by
  cases x with
  | none => rfl
  | some i => simpa [linkedInto] using h

/-- An instruction that is in a list already is refused. -/
theorem unlinked_refused {x : Option InstrId}
    (h : ¬ ∃ i ∈ x, p.owner i = none) : ∃ m, p.unlinked x = .error m := by
  cases x with
  | none => exact ⟨_, rfl⟩
  | some i =>
      have hi : (p.owner i).isSome := by
        simpa [Option.isSome_iff_ne_none] using h
      exact ⟨.alreadyLinked, by simp [unlinked, hi]⟩

/-- So is an insertion for which either is missing. -/
theorem insertBefore_refused {mark x : Option InstrId}
    (h : ¬ ((∀ k ∈ mark, p.owner k = some b) ∧ ∃ i ∈ x, p.owner i = none)) :
    ∃ m, p.insertBefore b mark x = .error m := by
  by_cases hx : ∃ i ∈ x, p.owner i = none
  · obtain ⟨k, rfl, hk⟩ : ∃ k, mark = some k ∧ p.owner k ≠ some b := by
      by_contra hno
      exact h ⟨fun k hk => not_not.mp fun hkb => hno ⟨k, hk, hkb⟩, hx⟩
    obtain ⟨i, rfl, hi⟩ := hx
    have hmark : p.linkedInto b (some k) = .error .foreignInstruction :=
      linkedInto_refused (by simpa using hk)
    refine ⟨.foreignInstruction, ?_⟩
    cases hchain : p.chain <;>
      simp [insertBefore, unlinked, hi, hmark, hchain, bind, Except.bind]
  · obtain ⟨m, hm⟩ := unlinked_refused hx
    exact ⟨m, by simp [insertBefore, hm, bind, Except.bind]⟩

/-- **An edit out of order.**  If its caller breaks a promise, an edit is
refused and has changed nothing. -/
theorem edit_refused (h : ¬ e.Kept p b) :
    ∃ m, e.apply p b = .error m ∧ e.stepwise p b = (.error m, p) := by
  -- all edits but a replacement go the same way step by step
  have hone : ∀ {e : Edit} {m}, e.apply p b = .error m →
      e.stepwise p b = (match e.apply p b with
        | .error m => (.error m, p)
        | .ok q => (.ok (), q)) →
      ∃ m, e.apply p b = .error m ∧ e.stepwise p b = (.error m, p) := by
    intro e m happly hstep
    exact ⟨m, happly, by rw [hstep, happly]⟩
  cases e with
  | append x =>
      obtain ⟨m, hm⟩ : ∃ m, p.insertBefore b none x = .error m :=
        insertBefore_refused fun hk => h hk.2
      exact hone (e := .append x) hm rfl
  | insertBefore mark x =>
      obtain ⟨m, hm⟩ : ∃ m, p.insertBefore b mark x = .error m := by
        refine insertBefore_refused fun hk => h ?_
        cases mark with
        | none => exact hk.2
        | some k => exact ⟨hk.1 k rfl, hk.2⟩
      exact hone (e := .insertBefore mark x) hm rfl
  | insertAfter mark x =>
      obtain ⟨m, hm⟩ : ∃ m, p.insertAfter b mark x = .error m := by
        cases mark with
        | none => exact insertBefore_refused fun hk => h hk.2
        | some k =>
            by_cases hk : p.owner k = some b
            · obtain ⟨m, hm⟩ : ∃ m, p.insertBefore b (p.next k) x = .error m :=
                insertBefore_refused fun hx => h ⟨hk, hx.2⟩
              exact ⟨m,
                by simp [insertAfter, linkedInto, hk, hm, bind, Except.bind]⟩
            · exact ⟨.foreignInstruction,
                by simp [insertAfter, linkedInto, hk, bind, Except.bind]⟩
      exact hone (e := .insertAfter mark x) hm rfl
  | remove x =>
      have hm : p.remove b x = .error .foreignInstruction := by
        simp [remove, linkedInto_refused h, bind, Except.bind]
      exact hone (e := .remove x) hm rfl
  | replace old x =>
      by_cases hold : ∃ k ∈ old, p.owner k = some b
      · obtain ⟨m, hm⟩ := unlinked_refused fun hx => h ⟨hold, hx⟩
        obtain ⟨k, rfl, hk⟩ := hold
        refine ⟨m, ?_, ?_⟩
        · simp [Edit.apply, replace, linkedInto, hk, hm, bind, Except.bind]
        · simp [Edit.stepwise, linkedInto, hk, hm]
      · have hm := linkedInto_refused hold
        refine ⟨.foreignInstruction, ?_, ?_⟩
        · simp [Edit.apply, replace, hm, bind, Except.bind]
        · simp [Edit.stepwise, hm]

/-! ### Well formed lists -/

/-- Following the links forwards from a place visits the instructions of a list,
one after the other, and then ends. -/
inductive Visits (p : Program) : Option InstrId → List InstrId → Prop where
  | nil : Visits p none []
  | cons {i : InstrId} {l : List InstrId}
    (rest : Visits p (p.next i) l) : Visits p (some i) (i :: l)

/-- All instruction lists are well formed. -/
structure WellFormed (p : Program) : Prop where
  /-- From the first instruction of a body on, its code is visited. -/
  visited : ∀ b, p.Visits (p.first? b) (p.code b)
  distinct : ∀ b, (p.code b).Nodup
  counted : ∀ b, (p.code b).length = p.size b
  /-- The last instruction visited is the last one of the body. -/
  ended : ∀ b, (p.code b).getLast? = p.last? b
  inverse : ∀ i k, p.next i = some k ↔ p.prev k = some i
  owned : ∀ b i, p.owner i = some b ↔ i ∈ p.code b
  alone : ∀ i, p.owner i = none → p.next i = none ∧ p.prev i = none
  /-- There is an instruction at each position up to the size, and at no
  other. -/
  filled : ∀ b n, (p.at? b n).isSome ↔ 0 ≤ n ∧ n < p.size b
  /-- The position of an instruction is where it is found. -/
  placed : ∀ b i (n : Nat), p.at? b n = some i ↔
    p.owner i = some b ∧ p.offset? i = some n

/-- A walk through the links sees the list in its order. -/
theorem Holds.visits (h : p.Holds L) {pre post : List InstrId}
    (hcut : L b = pre ++ post) : p.Visits post.head? post := by
  induction post generalizing pre with
  | nil => exact .nil
  | cons i post ih =>
      rw [List.head?_cons]
      refine .cons ?_
      rw [h.next hcut]
      have hmoved : L b = (pre ++ [i]) ++ post := by simpa using hcut
      exact ih hmoved

/-- The two links are inverse to each other. -/
theorem Holds.next_iff (h : p.Holds L) :
    p.next i = some k ↔ p.prev k = some i := by
  constructor
  · intro hnext
    have hown : ∃ b, p.owner i = some b := by
      rw [← Option.ne_none_iff_exists']
      intro hfree
      rw [(h.alone hfree).1] at hnext
      cases hnext
    obtain ⟨b, hb⟩ := hown
    obtain ⟨pre, post, hcut⟩ := h.exists_cut hb
    obtain ⟨rest, rfl⟩ :=
      List.head?_eq_some_iff.mp ((h.next hcut).symm.trans hnext)
    have hcut' : L b = (pre ++ [i]) ++ k :: rest := by simpa using hcut
    rw [h.prev hcut', List.getLast?_concat]
  · intro hprev
    have hown : ∃ b, p.owner k = some b := by
      rw [← Option.ne_none_iff_exists']
      intro hfree
      rw [(h.alone hfree).2] at hprev
      cases hprev
    obtain ⟨b, hb⟩ := hown
    obtain ⟨pre, post, hcut⟩ := h.exists_cut hb
    obtain ⟨front, rfl⟩ :=
      List.getLast?_eq_some_iff.mp ((h.prev hcut).symm.trans hprev)
    have hcut' : L b = front ++ i :: (k :: post) := by simpa using hcut
    rw [h.next hcut', List.head?_cons]

/-- An instruction is found at its offset, and at no other. -/
theorem Holds.at?_iff (h : p.Holds L) (n : Nat) :
    p.at? b n = some i ↔ p.owner i = some b ∧ p.offset? i = some n := by
  have hat : p.at? b n = (L b)[n]? := by
    rw [at?, if_neg (by omega), h.code, Int.toNat_natCast]
  rw [hat]
  constructor
  · intro hi
    obtain ⟨hn, rfl⟩ := List.getElem?_eq_some_iff.mp hi
    have hcut : L b = (L b).take n ++ (L b)[n] :: (L b).drop (n + 1) := by
      rw [List.getElem_cons_drop, List.take_append_drop]
    refine ⟨(h.owned b _).mp (List.getElem_mem hn), ?_⟩
    rw [h.offset? hcut, List.length_take_of_le (by omega)]
  · rintro ⟨hown, hoff⟩
    obtain ⟨pre, post, hcut⟩ := h.exists_cut hown
    rw [h.offset? hcut, Option.some.injEq] at hoff
    rw [hcut, ← hoff, List.getElem?_append_right le_rfl]
    simp

/-- Whatever lists a program shows, they are well formed. -/
theorem Holds.wellFormed (h : p.Holds L) : p.WellFormed where
  visited := fun b => by
    rw [h.first?, h.code]
    have hcut : L b = [] ++ L b := rfl
    exact h.visits hcut
  distinct := fun b => h.code b ▸ h.nodup b
  counted := fun b => by rw [h.code, h.size]
  ended := fun b => by rw [h.code, h.last?]
  inverse := fun _ _ => h.next_iff
  owned := fun b i => by rw [h.code, h.owned b i]
  alone := fun _ => h.alone
  filled := fun b n => by
    rw [h.size, at?, h.code]
    split
    · simp
      omega
    · simp
      omega
  placed := fun _ _ n => h.at?_iff n

/-! ### Sequences of edits -/

/-- The program after edits of bodies, those that are refused included. -/
def edits (p : Program) (es : List (BodyId × Edit)) : Program :=
  es.foldl (fun p e => (p.edit (some e.1) e.2).2) p

/-- No instruction is in a body, and nothing else is noted, neither as code nor
as links. -/
structure Loose (p : Program) : Prop where
  free : ∀ i, p.owner i = none
  bare : (p.chain = none ∧ ∀ b, (p.body b).code = []) ∨ p.chain = some {}

/-- What becomes of an edit of the body `b`.  It is carried out if its caller
keeps what is promised: then it turns the list of `b`, and of nothing else, into
another one.  If not, it is refused and the program is as it was. -/
structure Carries (p : Program) (b : BodyId) (e : Edit) : Prop where
  done : e.Kept p b → ∃ q, p.edit (some b) e = (.ok (), q) ∧
    e.stepwise p b = (.ok (), q) ∧ e.Turns (p.code b) (q.code b) ∧
    (∀ c, c ≠ b → q.code c = p.code c) ∧ p.Relinked q
  refused : ¬ e.Kept p b → ∃ m, p.edit (some b) e = (.error (.misuse m), p) ∧
    e.stepwise p b = (.error m, p)

/-- Loose instructions are held by empty lists. -/
theorem Loose.holds (h : p.Loose) : p.Holds fun _ => [] := by
  refine ⟨⟨fun _ => List.nodup_nil, fun b i => by simp [h.free i]⟩,
    fun hc b => ?_, fun c hc b => ?_, fun c hc i _ => ?_⟩
  · rcases h.bare with ⟨-, hcode⟩ | hchain
    · exact hcode b
    · exact absurd (hchain.symm.trans hc) (by simp)
  · rcases h.bare with ⟨hnone, -⟩ | hchain
    · exact absurd (hnone.symm.trans hc) (by simp)
    · obtain rfl := Option.some.inj (hchain.symm.trans hc)
      exact .nil rfl rfl rfl
  · rcases h.bare with ⟨hnone, -⟩ | hchain
    · exact absurd (hnone.symm.trans hc) (by simp)
    · obtain rfl := Option.some.inj (hchain.symm.trans hc)
      exact ⟨rfl, rfl⟩

/-- What a client knows does not depend on the links. -/
theorem Knows.relinked (h : p.Knows b e) (hsame : p.Relinked q) : q.Knows b e :=
  ⟨hsame.bodies ▸ h.1, fun i hi => hsame.has (h.2 i hi)⟩

/-- Every edit with known instructions is done as on lists or refused. -/
theorem Holds.carries (h : p.Holds L) (hknown : p.Knows b e) :
    p.Carries b e where
  done := by
    intro hkept
    obtain ⟨q, l, happly, hstep, hturns, hq, hsame⟩ := h.edit hknown hkept
    refine ⟨q, by simp [Program.edit, happly], hstep, ?_, fun c hc => ?_, hsame⟩
    · rw [h.code, hq.code, Function.update_self]
      exact hturns
    · rw [hq.code, h.code, Function.update_of_ne hc]
  refused := by
    intro hkept
    obtain ⟨m, happly, hstep⟩ := edit_refused hkept
    exact ⟨m, by simp [Program.edit, happly], hstep⟩

/-- One edit leads from a program that shows lists to another one. -/
theorem Holds.after_edit (h : p.Holds L) (hknown : p.Knows b e) :
    ∃ L', (p.edit (some b) e).2.Holds L' ∧
      p.Relinked (p.edit (some b) e).2 := by
  by_cases hkept : e.Kept p b
  · obtain ⟨q, l, happly, -, -, hq, hsame⟩ := h.edit hknown hkept
    rw [Program.edit, happly]
    exact ⟨_, hq, hsame⟩
  · obtain ⟨m, happly, -⟩ := edit_refused hkept
    rw [Program.edit, happly]
    exact ⟨L, h, Relinked.refl p⟩

/-- A sequence of edits leads from a program that shows lists to another one. -/
theorem Holds.after_edits (h : p.Holds L) {es : List (BodyId × Edit)}
    (hknown : ∀ e ∈ es, p.Knows e.1 e.2) :
    ∃ L', (p.edits es).Holds L' ∧ p.Relinked (p.edits es) := by
  induction es generalizing p L with
  | nil => exact ⟨L, h, Relinked.refl p⟩
  | cons e es ih =>
      obtain ⟨L₁, h₁, hsame₁⟩ := h.after_edit (hknown e List.mem_cons_self)
      obtain ⟨L₂, h₂, hsame₂⟩ := ih h₁ fun e' he' =>
        (hknown e' (List.mem_cons_of_mem _ he')).relinked hsame₁
      exact ⟨L₂, h₂, hsame₁.trans hsame₂⟩

/-- **Instruction lists stay well formed.**  From instructions in no body on,
every sequence of appending, inserting, removing and replacing leads to well
formed lists, whether the links are kept as code or one by one.  The next edit
is carried out on the list of its body, or refused without having changed
anything. -/
theorem lists_stay_well_formed (start : p.Loose) (es : List (BodyId × Edit))
    (hknown : ∀ e ∈ es, p.Knows e.1 e.2) : (p.edits es).WellFormed ∧
    ∀ b e, p.Knows b e → (p.edits es).Carries b e := by
  obtain ⟨L, h, hsame⟩ := start.holds.after_edits hknown
  exact ⟨h.wellFormed, fun b e hknows => h.carries (hknows.relinked hsame)⟩

/-- Two bodies and three instructions that are in neither, with the links noted
one by one. -/
def scattered : Program where
  instrs :=
    #[⟨.nop, .absent, none⟩, ⟨.pop, .absent, none⟩, ⟨⟨0x70⟩, .absent, none⟩]
  bodies := #[{}, {}]
  chain := some {}

/-- Instructions pass from one body to the other; the second and the fourth edit
are refused. -/
def shuffle : List (BodyId × Edit) :=
  [(⟨0⟩, .append (some ⟨0⟩)), (⟨1⟩, .append (some ⟨0⟩)),
    (⟨0⟩, .insertBefore (some ⟨0⟩) (some ⟨1⟩)),
    (⟨1⟩, .replace (some ⟨0⟩) (some ⟨2⟩)),
    (⟨0⟩, .replace (some ⟨0⟩) (some ⟨2⟩)),
    (⟨1⟩, .insertAfter none (some ⟨0⟩)), (⟨0⟩, .remove (some ⟨1⟩))]

/-- Three loose instructions are moved back and forth between two lists. -/
theorem lists_stay_well_formed_shuffle :
    scattered.Loose ∧ (∀ e ∈ shuffle, scattered.Knows e.1 e.2) ∧
    (scattered.edits shuffle).WellFormed ∧ (scattered.edits shuffle).code ⟨0⟩ =
    [⟨2⟩] ∧ (scattered.edits shuffle).code ⟨1⟩ = [⟨0⟩] := by
  have hloose : scattered.Loose := by
    refine ⟨fun i => ?_, Or.inr rfl⟩
    by_cases hi : scattered.Has i
    · have hall : ∀ n < 3, scattered.owner ⟨n⟩ = none := by decide
      exact hall i.index hi
    · rw [owner, instr_of_not_has hi]
      rfl
  have hknown : ∀ e ∈ shuffle, scattered.Knows e.1 e.2 := by
    unfold Knows
    decide
  exact ⟨hloose, hknown, (lists_stay_well_formed hloose shuffle hknown).1,
    by decide, by decide⟩

end Program

end Bytecode
