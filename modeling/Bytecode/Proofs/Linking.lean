import Bytecode.Program.Edit
import Bytecode.Proofs.CodeList
import Bytecode.Proofs.Firing

/-!
# Lists of instructions

The links of a program are kept in one of two ways: as the code of its bodies,
or one by one as a chain once an edit has been broken off.

A chain notes each link by itself, so nothing but care keeps the links forwards,
the links back and the ends of the bodies together.  It is easiest to see that
they stay together when the ends of a body are taken for one more element, which
stands behind the last instruction and in front of the first.  Every body is
then a ring: to put an instruction between two neighbours, or to take one out
from between them, changes two links forwards and two links back, wherever in
the body that is.  `Spells c b l` says that the ring of `b` is the list `l`,
seam by seam.

`p.Holds L` says that a program, whichever way it keeps its links, shows the
list `L b` for each body `b`, and everything that can be asked about neighbours,
ends, sizes and positions is read off these lists.  Putting an instruction in at
a cut of a list and taking one out are the two steps that all edits are made of.
Main statements: `Holds.insert` and `Holds.remove`, which turn the lists that a
program shows into those it shows afterwards.
-/

namespace Bytecode.Chain

variable {c c' : Chain} {b d : BodyId} {i mark : InstrId}
  {l pre post : List InstrId}

/-- The place of an element of a ring: the two ends of a body are one. -/
def place (b : BodyId) : Option InstrId → BodyId ⊕ InstrId
  | none => .inl b
  | some i => .inr i

/-- Places are told apart by what is there. -/
@[simp] theorem place_inj {x y : Option InstrId} :
    place b x = place b y ↔ x = y := by
  cases x <;> cases y <;> simp [place]

/-- An instruction is at a place if it is there. -/
@[simp] theorem inr_eq_place {x : Option InstrId} :
    .inr i = place b x ↔ some i = x := by
  cases x <;> simp [place]

/-- A place is an instruction if that is there. -/
@[simp] theorem place_eq_inr {x : Option InstrId} :
    place b x = .inr i ↔ x = some i := by
  cases x <;> simp [place]

/-- Places of two bodies are different. -/
theorem place_ne {x y : Option InstrId} (hdb : d ≠ b) (h : ∀ i ∈ x, i ∉ y) :
    place d x ≠ place b y := by
  cases x with
  | none => cases y <;> simp [place, hdb]
  | some i =>
      cases y with
      | none => simp [place]
      | some k =>
          have hik : i ≠ k := fun hik => h i rfl (by rw [hik]; rfl)
          simpa [place] using hik

@[simp] theorem place_some (b : BodyId) (i : InstrId) :
    place b (some i) = .inr i := rfl

/-- What the chain has behind a place. -/
def succ (c : Chain) : BodyId ⊕ InstrId → Option InstrId
  | .inl b => c.firsts.lookup b
  | .inr i => c.after.lookup i

/-- What the chain has in front of a place. -/
def pred (c : Chain) : BodyId ⊕ InstrId → Option InstrId
  | .inl b => c.lasts.lookup b
  | .inr i => c.before.lookup i

/-! ### Notes -/

/-- What is looked up after something has been noted. -/
theorem lookup_note {κ β : Type} [DecidableEq κ] (l : List (κ × β)) (k k' : κ)
    (x : Option β) :
    (note l k x).lookup k' = if k' = k then x else l.lookup k' := by
  rw [note, List.lookup_append, lookup_filter_ne]
  by_cases hk' : k' = k
  · cases x <;> simp [hk']
  · have hne : (k' == k) = false := by simpa using hk'
    cases x <;> simp [List.lookup_cons, hne, hk']

/-- One instruction gets another that follows it. -/
@[simp] theorem succ_setNext (i : InstrId) (x : Option InstrId) :
    (c.setNext i x).succ = Function.update c.succ (.inr i) x := by
  funext z
  cases z <;> simp [succ, setNext, lookup_note, Function.update_apply]

/-- One body gets another first instruction. -/
@[simp] theorem succ_setFirst (b : BodyId) (x : Option InstrId) :
    (c.setFirst b x).succ = Function.update c.succ (.inl b) x := by
  funext z
  cases z <;> simp [succ, setFirst, lookup_note, Function.update_apply]

/-- One instruction gets another in front of it. -/
@[simp] theorem pred_setPrev (i : InstrId) (x : Option InstrId) :
    (c.setPrev i x).pred = Function.update c.pred (.inr i) x := by
  funext z
  cases z <;> simp [pred, setPrev, lookup_note, Function.update_apply]

/-- One body gets another last instruction. -/
@[simp] theorem pred_setLast (b : BodyId) (x : Option InstrId) :
    (c.setLast b x).pred = Function.update c.pred (.inl b) x := by
  funext z
  cases z <;> simp [pred, setLast, lookup_note, Function.update_apply]

@[simp] theorem succ_setPrev (i : InstrId) (x : Option InstrId) :
    (c.setPrev i x).succ = c.succ := rfl
@[simp] theorem succ_setLast (b : BodyId) (x : Option InstrId) :
    (c.setLast b x).succ = c.succ := rfl
@[simp] theorem succ_setSize (b : BodyId) (n : Nat) :
    (c.setSize b n).succ = c.succ := rfl
@[simp] theorem pred_setNext (i : InstrId) (x : Option InstrId) :
    (c.setNext i x).pred = c.pred := rfl
@[simp] theorem pred_setFirst (b : BodyId) (x : Option InstrId) :
    (c.setFirst b x).pred = c.pred := rfl
@[simp] theorem pred_setSize (b : BodyId) (n : Nat) :
    (c.setSize b n).pred = c.pred := rfl
@[simp] theorem size_setPrev (i : InstrId) (x : Option InstrId) :
    (c.setPrev i x).size = c.size := rfl
@[simp] theorem size_setNext (i : InstrId) (x : Option InstrId) :
    (c.setNext i x).size = c.size := rfl
@[simp] theorem size_setFirst (b : BodyId) (x : Option InstrId) :
    (c.setFirst b x).size = c.size := rfl
@[simp] theorem size_setLast (b : BodyId) (x : Option InstrId) :
    (c.setLast b x).size = c.size := rfl

@[simp] theorem size_setSize (b : BodyId) (n : Nat) :
    (c.setSize b n).size = Function.update c.size b n := by
  funext d
  simp only [size, setSize, lookup_note, Function.update_apply]
  split <;> simp

/-! ### The three primitives on rings -/

/-- `i` is put between the neighbours `x` and `y` in the ring of `b`. -/
structure PutsBetween (b : BodyId) (x y : Option InstrId) (i : InstrId)
    (c c' : Chain) : Prop where
  succ : c'.succ =
    Function.update (Function.update c.succ (.inr i) y) (place b x) (some i)
  pred : c'.pred =
    Function.update (Function.update c.pred (.inr i) x) (place b y) (some i)
  size : c'.size = Function.update c.size b (c.size b + 1)

/-- `i` is taken out from between its neighbours `x` and `y` in the ring of
`b`. -/
structure TakesOut (b : BodyId) (x y : Option InstrId) (i : InstrId)
    (c c' : Chain) : Prop where
  succ : c'.succ =
    Function.update (Function.update c.succ (place b x) y) (.inr i) none
  pred : c'.pred =
    Function.update (Function.update c.pred (place b y) x) (.inr i) none
  size : c'.size = Function.update c.size b (c.size b - 1)

section Untouched

variable {x y : Option InstrId} {z : BodyId ⊕ InstrId}

/-- The links at other places stay. -/
theorem PutsBetween.left (h : PutsBetween b x y i c c') (hi : z ≠ .inr i)
    (hx : z ≠ place b x) (hy : z ≠ place b y) :
    c'.succ z = c.succ z ∧ c'.pred z = c.pred z := by
  rw [h.succ, h.pred]
  simp [Function.update_of_ne, hi, hx, hy]

/-- The links at other places stay. -/
theorem TakesOut.left (h : TakesOut b x y i c c') (hi : z ≠ .inr i)
    (hx : z ≠ place b x) (hy : z ≠ place b y) :
    c'.succ z = c.succ z ∧ c'.pred z = c.pred z := by
  rw [h.succ, h.pred]
  simp [Function.update_of_ne, hi, hx, hy]

end Untouched

/-- An instruction with nothing behind it is put in front of the end. -/
theorem append_puts (hi : c.succ (.inr i) = none) :
    PutsBetween b (c.pred (.inl b)) none i c (c.append b i) := by
  have hkeep : Function.update c.succ (.inr i) none = c.succ := by
    rw [← hi, Function.update_eq_self]
  have hlast : c.lasts.lookup b = c.pred (.inl b) := rfl
  constructor
  · rw [hkeep]
    simp only [append, hlast]
    cases c.pred (.inl b) <;> simp [place]
  · simp only [append, hlast]
    cases c.pred (.inl b) <;> simp [place]
  · simp only [append, hlast]
    cases c.pred (.inl b) <;> simp

/-- An instruction is put in front of another one. -/
theorem insertBefore_puts (hi : mark ≠ i) : PutsBetween b (c.pred (.inr mark))
    (some mark) i c (c.insertBefore b mark i) := by
  have hfront : c.before.lookup mark = c.pred (.inr mark) := rfl
  have hkept : ((c.setPrev i (c.pred (.inr mark))).setNext i
      (some mark)).before.lookup mark = c.pred (.inr mark) := by
    simp [setPrev, setNext, lookup_note, hi, pred]
  simp only [insertBefore, hfront, hkept]
  cases c.pred (.inr mark) <;> constructor <;> simp [place]

/-- An instruction is taken out from between its neighbours. -/
theorem remove_takes (hi : c.pred (.inr i) ≠ some i) :
    TakesOut b (c.pred (.inr i)) (c.succ (.inr i)) i c (c.remove b i) := by
  have hfront : c.before.lookup i = c.pred (.inr i) := rfl
  have hbehind : c.after.lookup i = c.succ (.inr i) := rfl
  cases hx : c.pred (.inr i) with
  | none =>
      have hkept : (c.setFirst b (c.succ (.inr i))).after.lookup i =
          c.succ (.inr i) := rfl
      have hfront' : (c.setFirst b (c.succ (.inr i))).before.lookup i = none :=
        hx
      simp only [remove, hfront, hbehind, hx, hkept, hfront']
      cases c.succ (.inr i) <;> constructor <;> simp [place]
  | some k =>
      have hki : i ≠ k := fun h => hi (by rw [hx, h])
      have hkept :
          (c.setNext k (c.succ (.inr i))).after.lookup i = c.succ (.inr i) := by
        simp [setNext, lookup_note, hki, succ]
      have hfront' : (c.setNext k (c.succ (.inr i))).before.lookup i = some k :=
        hx
      simp only [remove, hfront, hbehind, hx, hkept, hfront']
      cases c.succ (.inr i) <;> constructor <;> simp [place]

/-! ### Cuts of a list -/

/-- Two cuts of a list are the same, or one lies behind the other. -/
theorem cut_cases {pre' post' : List InstrId}
    (h : pre ++ post = pre' ++ post') : (pre' = pre ∧ post' = post) ∨
    (∃ a, a ≠ [] ∧ pre' = pre ++ a ∧ post = a ++ post') ∨
    ∃ a, a ≠ [] ∧ pre = pre' ++ a ∧ post' = a ++ post := by
  rcases List.append_eq_append_iff.mp h with ⟨a, hpre', hpost⟩
    | ⟨a, hpre, hpost'⟩
  · by_cases ha : a = []
    · subst ha
      exact Or.inl ⟨by simpa using hpre', by simpa using hpost.symm⟩
    · exact Or.inr (Or.inl ⟨a, ha, hpre', hpost⟩)
  · by_cases ha : a = []
    · subst ha
      exact Or.inl ⟨by simpa using hpre.symm, by simpa using hpost'⟩
    · exact Or.inr (Or.inr ⟨a, ha, hpre, hpost'⟩)

/-- A list with more at its end has another last element. -/
theorem getLast?_append_ne {a : List InstrId} (hnd : (pre ++ a).Nodup)
    (ha : a ≠ []) : (pre ++ a).getLast? ≠ pre.getLast? := by
  intro h
  obtain ⟨front, z, rfl⟩ := (List.eq_nil_or_concat' a).resolve_left ha
  rw [← List.append_assoc, List.getLast?_concat] at h
  exact (List.disjoint_of_nodup_append hnd) (List.mem_of_getLast? h.symm)
    (by simp)

/-- A list with more at its head has another first element. -/
theorem head?_append_ne {a : List InstrId} (hnd : (a ++ post).Nodup)
    (ha : a ≠ []) : (a ++ post).head? ≠ post.head? := by
  intro h
  obtain ⟨z, rest, rfl⟩ := List.exists_cons_of_ne_nil ha
  exact (List.disjoint_of_nodup_append hnd) (by simp) (List.mem_of_head? h.symm)

/-- Different cuts of a list without repetition have different neighbours on
both sides. -/
theorem neighbours_ne {pre' post' : List InstrId} (hnd : (pre ++ post).Nodup)
    (h : pre ++ post = pre' ++ post') (hne : pre' ≠ pre) :
    pre'.getLast? ≠ pre.getLast? ∧ post'.head? ≠ post.head? := by
  rcases cut_cases h with ⟨hsame, -⟩ | ⟨a, ha, rfl, rfl⟩ | ⟨a, ha, rfl, rfl⟩
  · exact absurd hsame hne
  · obtain ⟨-, hback, -⟩ := List.nodup_append.mp hnd
    rw [← List.append_assoc] at hnd
    exact ⟨getLast?_append_ne (List.nodup_append.mp hnd).1 ha,
      (head?_append_ne hback ha).symm⟩
  · obtain ⟨hfront, -, -⟩ := List.nodup_append.mp hnd
    rw [List.append_assoc] at hnd
    exact ⟨(getLast?_append_ne hfront ha).symm,
      head?_append_ne (List.nodup_append.mp hnd).2.1 ha⟩

/-! ### Rings that are lists -/

/-- The ring of `b` is the list `l`: at each seam of the list, with the ends of
the body at the outer ones, the links forwards and back lead across it. -/
structure Spells (c : Chain) (b : BodyId) (l : List InstrId) : Prop where
  seam : ∀ pre post, l = pre ++ post → c.succ (place b pre.getLast?) =
    post.head? ∧ c.pred (place b post.head?) = pre.getLast?
  size : c.size b = l.length

namespace Spells

/-- The first instruction of a body that is spelled. -/
theorem first
    (h : c.Spells b l) : c.succ (.inl b) = l.head? := (h.seam [] l rfl).1

/-- The last instruction of a body that is spelled. -/
theorem last (h : c.Spells b l) : c.pred (.inl b) = l.getLast? :=
  (h.seam l [] (by simp)).2

/-- What follows an instruction of a body that is spelled. -/
theorem succ (h : c.Spells b (pre ++ i :: post)) :
    c.succ (.inr i) = post.head? := by
  simpa [place] using (h.seam (pre ++ [i]) post (by simp)).1

/-- What is in front of an instruction of a body that is spelled. -/
theorem pred (h : c.Spells b (pre ++ i :: post)) :
    c.pred (.inr i) = pre.getLast? :=
  (h.seam pre (i :: post) rfl).2

/-- The links forwards lead through what is left of the list. -/
theorem walk_after (h : c.Spells b l) {far : Nat} (hl : l = pre ++ post)
    (hfar : post.length ≤ far) : walk c.after far post.head? = post := by
  induction post generalizing pre far with
  | nil => cases far <;> rfl
  | cons i post ih =>
      cases far with
      | zero => simp at hfar
      | succ far =>
          subst hl
          have hsucc : c.after.lookup i = post.head? := h.succ
          rw [List.head?_cons, walk, hsucc]
          have hmoved : pre ++ i :: post = (pre ++ [i]) ++ post := by simp
          rw [ih hmoved (by simpa using hfar)]

/-- The links back lead through what is left of the list. -/
theorem walk_before (h : c.Spells b l) {far : Nat} (hl : l = pre ++ post)
    (hfar : pre.length ≤ far) :
    walk c.before far pre.getLast? = pre.reverse := by
  induction pre using List.reverseRecOn generalizing post far with
  | nil => cases far <;> rfl
  | append_singleton pre i ih =>
      cases far with
      | zero => simp at hfar
      | succ far =>
          rw [List.append_assoc, List.singleton_append] at hl
          subst hl
          have hpred : c.before.lookup i = pre.getLast? := h.pred
          rw [List.getLast?_concat, walk, hpred, List.reverse_concat]
          rw [ih rfl (by simpa using hfar)]

/-- A body without links has an empty ring. -/
theorem nil (hfirst : c.succ (.inl b) = none) (hlast : c.pred (.inl b) = none)
    (hsize : c.size b = 0) : c.Spells b [] where
  seam := by
    intro pre post h
    obtain ⟨rfl, rfl⟩ := List.append_eq_nil_iff.mp h.symm
    exact ⟨hfirst, hlast⟩
  size := hsize

/-- A ring stays as it is if its links do. -/
theorem elsewhere (h : c.Spells d l) (hsize : c'.size d = c.size d)
    (hleft : ∀ x, (∀ k ∈ x, k ∈ l) → c'.succ (place d x) = c.succ (place d x) ∧
      c'.pred (place d x) = c.pred (place d x)) : c'.Spells d l where
  seam := by
    rintro pre post rfl
    have hseam := h.seam pre post rfl
    have hpre := hleft pre.getLast? fun i hi =>
      List.mem_append_left _ (List.mem_of_getLast? hi)
    have hpost := hleft post.head? fun i hi =>
      List.mem_append_right _ (List.mem_of_head? hi)
    exact ⟨hpre.1.trans hseam.1, hpost.2.trans hseam.2⟩
  size := hsize.trans h.size

/-- A new element between two neighbours stands there in the list. -/
theorem insert (h : c.Spells b (pre ++ post)) (hnd : (pre ++ post).Nodup)
    (hi : i ∉ pre ++ post)
    (hputs : PutsBetween b pre.getLast? post.head? i c c') :
    c'.Spells b (pre ++ i :: post) where
  seam := by
    -- away from the two new seams the links are those of the old list
    have hkeep : ∀ pre' post', pre ++ post = pre' ++ post' → pre' ≠ pre →
        c'.succ (place b pre'.getLast?) = post'.head? ∧
          c'.pred (place b post'.head?) = pre'.getLast? := by
      intro pre' post' hcut hne
      obtain ⟨hx, hy⟩ := neighbours_ne hnd hcut hne
      have hxi : pre'.getLast? ≠ some i := fun h =>
        hi (hcut ▸ List.mem_append_left _ (List.mem_of_getLast? h))
      have hyi : post'.head? ≠ some i := fun h =>
        hi (hcut ▸ List.mem_append_right _ (List.mem_of_head? h))
      rw [hputs.succ, hputs.pred, ← place_some b]
      simpa only [Function.update_apply, place_inj, hx, hy, hxi, hyi, if_false]
        using h.seam pre' post' hcut
    intro pre' post' hcut
    rcases cut_cases hcut with ⟨rfl, rfl⟩ | ⟨a, ha, rfl, hpost⟩
      | ⟨a, ha, rfl, rfl⟩
    · have hback : some i ≠ post.head? := fun h =>
        hi (List.mem_append_right _ (List.mem_of_head? h.symm))
      rw [hputs.succ, hputs.pred]
      simp [hback]
    · obtain ⟨y, a, rfl⟩ := List.exists_cons_of_ne_nil ha
      rw [List.cons_append, List.cons.injEq] at hpost
      obtain ⟨rfl, rfl⟩ := hpost
      by_cases ha : a = []
      · subst ha
        have hfront : some i ≠ pre.getLast? := fun h =>
          hi (List.mem_append_left _ (List.mem_of_getLast? h.symm))
        rw [hputs.succ, hputs.pred]
        simp [Function.update_apply, hfront]
      · have hlast : (pre ++ i :: a).getLast? = (pre ++ a).getLast? := by
          rw [List.getLast?_append_of_ne_nil _ ha,
            List.getLast?_append_of_ne_nil _ (by simp),
            List.getLast?_cons_of_ne_nil ha]
        rw [hlast]
        exact hkeep (pre ++ a) post' (by simp) (by simpa using ha)
    · have hhead : (a ++ i :: post).head? = (a ++ post).head? := by
        rw [List.head?_append_of_ne_nil _ ha, List.head?_append_of_ne_nil _ ha]
      rw [hhead]
      exact hkeep pre' (a ++ post) (by simp) (by simpa using ha)
  size := by
    rw [hputs.size, Function.update_self, h.size]
    simp
    omega

/-- When an element is taken out, its neighbours become neighbours. -/
theorem remove (h : c.Spells b (pre ++ i :: post))
    (hnd : (pre ++ i :: post).Nodup)
    (htakes : TakesOut b pre.getLast? post.head? i c c') :
    c'.Spells b (pre ++ post) where
  seam := by
    have hi : i ∉ pre ++ post := (List.nodup_middle.mp hnd).notMem
    have hrest : (pre ++ post).Nodup := (List.nodup_middle.mp hnd).of_cons
    -- away from the closed seam the links are those of the old list
    have hkeep : ∀ pre' post' x y, pre ++ post = pre' ++ post' → pre' ≠ pre →
        x = pre'.getLast? → y = post'.head? →
        c.succ (place b x) = y ∧ c.pred (place b y) = x →
        c'.succ (place b x) = y ∧ c'.pred (place b y) = x := by
      rintro pre' post' x y hcut hne rfl rfl hold
      obtain ⟨hx, hy⟩ := neighbours_ne hrest hcut hne
      have hxi : pre'.getLast? ≠ some i := fun h =>
        hi (hcut ▸ List.mem_append_left _ (List.mem_of_getLast? h))
      have hyi : post'.head? ≠ some i := fun h =>
        hi (hcut ▸ List.mem_append_right _ (List.mem_of_head? h))
      rw [htakes.succ, htakes.pred, ← place_some b]
      simpa only [Function.update_apply, place_inj, hx, hy, hxi, hyi, if_false]
        using hold
    intro pre' post' hcut
    rcases cut_cases hcut with ⟨rfl, rfl⟩ | ⟨a, ha, rfl, rfl⟩
      | ⟨a, ha, rfl, rfl⟩
    · have hfront : some i ≠ pre'.getLast? := fun h =>
        hi (List.mem_append_left _ (List.mem_of_getLast? h.symm))
      have hback : some i ≠ post'.head? := fun h =>
        hi (List.mem_append_right _ (List.mem_of_head? h.symm))
      rw [htakes.succ, htakes.pred]
      simp [hfront.symm, hback.symm]
    · have hold := h.seam (pre ++ i :: a) post' (by simp)
      have hlast : (pre ++ i :: a).getLast? = (pre ++ a).getLast? := by
        rw [List.getLast?_append_of_ne_nil _ ha,
          List.getLast?_append_of_ne_nil _ (by simp),
          List.getLast?_cons_of_ne_nil ha]
      exact hkeep (pre ++ a) post' _ _ (by simp) (by simpa using ha) rfl rfl
        (hlast ▸ hold)
    · have hold := h.seam pre' (a ++ i :: post) (by simp)
      have hhead : (a ++ i :: post).head? = (a ++ post).head? := by
        rw [List.head?_append_of_ne_nil _ ha, List.head?_append_of_ne_nil _ ha]
      exact hkeep pre' (a ++ post) _ _ (by simp) (by simpa using ha) rfl rfl
        (hhead ▸ hold)
  size := by
    rw [htakes.size, Function.update_self, h.size]
    simp

end Spells

end Bytecode.Chain

namespace Bytecode

/-! ### Who owns what -/

section Owners

variable {owner : InstrId → Option BodyId} {L : BodyId → List InstrId}
  {b : BodyId} {i : InstrId} {pre post : List InstrId}

/-- The lists `L` have no repetition, and each has the instructions of its
body. -/
structure Owns (owner : InstrId → Option BodyId) (L : BodyId → List InstrId) :
    Prop where
  nodup : ∀ b, (L b).Nodup
  owned : ∀ b i, i ∈ L b ↔ owner i = some b

/-- A free instruction is in no list. -/
theorem Owns.notMem (h : Owns owner L) (hfree : owner i = none) (b : BodyId) :
    i ∉ L b := fun hi => by
  rw [(h.owned b i).mp hi] at hfree
  cases hfree

/-- An instruction is in one list at most. -/
theorem Owns.unique (h : Owns owner L) {d : BodyId} (hb : i ∈ L b)
    (hd : i ∈ L d) : d = b :=
  Option.some.inj (((h.owned d i).mp hd).symm.trans ((h.owned b i).mp hb))

/-- A free instruction is put in a list. -/
theorem Owns.insert (h : Owns owner L) (hcut : L b = pre ++ post)
    (hfree : owner i = none) : Owns (Function.update owner i (some b))
    (Function.update L b (pre ++ i :: post)) where
  nodup := by
    intro d
    by_cases hd : d = b
    · subst hd
      rw [Function.update_self, List.nodup_middle, ← hcut]
      exact List.nodup_cons.mpr ⟨h.notMem hfree d, h.nodup d⟩
    · rw [Function.update_of_ne hd]
      exact h.nodup d
  owned := by
    intro d k
    by_cases hk : k = i
    · subst hk
      by_cases hd : d = b
      · simp [hd]
      · simp [Function.update_of_ne hd, h.notMem hfree d, Ne.symm hd]
    · rw [Function.update_of_ne hk, ← h.owned d k]
      by_cases hd : d = b
      · simp [hd, hcut, hk]
      · rw [Function.update_of_ne hd]

/-- An instruction of a list is set free. -/
theorem Owns.remove (h : Owns owner L) (hcut : L b = pre ++ i :: post) : Owns
    (Function.update owner i none) (Function.update L b (pre ++ post)) where
  nodup := by
    intro d
    by_cases hd : d = b
    · subst hd
      have hnd := h.nodup d
      rw [hcut, List.nodup_middle] at hnd
      rw [Function.update_self]
      exact hnd.of_cons
    · rw [Function.update_of_ne hd]
      exact h.nodup d
  owned := by
    intro d k
    have hi : i ∈ L b := by simp [hcut]
    by_cases hk : k = i
    · subst hk
      by_cases hd : d = b
      · subst hd
        have hnd := h.nodup d
        rw [hcut, List.nodup_middle] at hnd
        simpa using hnd.notMem
      · have hout : k ∉ L d := fun hk => hd (h.unique hi hk)
        simpa [Function.update_of_ne hd] using hout
    · rw [Function.update_of_ne hk, ← h.owned d k]
      by_cases hd : d = b
      · simp [hd, hcut, hk]
      · rw [Function.update_of_ne hd]

end Owners

namespace Program

variable {p q r : Program} {L : BodyId → List InstrId} {b d : BodyId}
  {i k : InstrId} {pre post : List InstrId}

/-! ### Lists that a program shows -/

/-- The program shows the list `L b` for each body `b`, however it keeps its
links. -/
structure Holds (p : Program) (L : BodyId → List InstrId) :
    Prop extends Owns p.owner L where
  listed : p.chain = none → ∀ b, (p.body b).code = L b
  linked : ∀ c, p.chain = some c → ∀ b, c.Spells b (L b)
  loose : ∀ c, p.chain = some c → ∀ i, p.owner i = none →
    c.succ (.inr i) = none ∧ c.pred (.inr i) = none

namespace Holds

/-- Lists that are held are well linked. -/
theorem wellLinked (h : p.Holds L) (hchain : p.chain = none) :
    p.WellLinked where
  unbroken := hchain
  nodup := fun b => h.listed hchain b ▸ h.nodup b
  owned := fun b i => h.listed hchain b ▸ h.owned b i

/-- No list is longer than there are instructions. -/
theorem length_le (h : p.Holds L) (b : BodyId) : (L b).length ≤ p.instrs.size :=
  length_le_of_has (h.nodup b) fun i hi => has_of_owner ((h.owned b i).mp hi)

/-- The code of a body is its list. -/
theorem code (h : p.Holds L) (b : BodyId) : p.code b = L b := by
  unfold Program.code
  cases hchain : p.chain with
  | none => exact h.listed hchain b
  | some c =>
      have hs := h.linked c hchain b
      have hfirst : c.firsts.lookup b = (L b).head? := hs.first
      simp only [hfirst]
      have hcut : L b = [] ++ L b := rfl
      exact hs.walk_after hcut (h.length_le b)

/-- The first instruction of a body is that of its list. -/
theorem first? (h : p.Holds L) (b : BodyId) : p.first? b = (L b).head? := by
  unfold Program.first?
  cases hchain : p.chain with
  | none => rw [h.listed hchain b]
  | some c => exact (h.linked c hchain b).first

/-- The last instruction of a body is that of its list. -/
theorem last? (h : p.Holds L) (b : BodyId) : p.last? b = (L b).getLast? := by
  unfold Program.last?
  cases hchain : p.chain with
  | none => rw [h.listed hchain b]
  | some c => exact (h.linked c hchain b).last

/-- The size of a body is the length of its list. -/
theorem size (h : p.Holds L) (b : BodyId) : p.size b = (L b).length := by
  unfold Program.size
  cases hchain : p.chain with
  | none => rw [h.listed hchain b]
  | some c => exact (h.linked c hchain b).size

/-- What follows an instruction is what follows it in the list. -/
theorem next (h : p.Holds L) (hcut : L b = pre ++ i :: post) :
    p.next i = post.head? := by
  have hnd := h.nodup b
  rw [hcut, List.nodup_middle] at hnd
  have hpre : i ∉ pre := fun hi => hnd.notMem (List.mem_append_left _ hi)
  unfold Program.next
  cases hchain : p.chain with
  | none =>
      have hown : p.owner i = some b := (h.owned b i).mp (by simp [hcut])
      rw [hown, Option.bind_some, h.listed hchain b, hcut, elemAfter?_cut hpre]
  | some c =>
      exact (hcut ▸ h.linked c hchain b : c.Spells b (pre ++ i :: post)).succ

/-- What is in front of an instruction is what is in front of it in the list. -/
theorem prev (h : p.Holds L) (hcut : L b = pre ++ i :: post) :
    p.prev i = pre.getLast? := by
  have hnd := h.nodup b
  rw [hcut, List.nodup_middle] at hnd
  have hpre : i ∉ pre := fun hi => hnd.notMem (List.mem_append_left _ hi)
  unfold Program.prev
  cases hchain : p.chain with
  | none =>
      have hown : p.owner i = some b := (h.owned b i).mp (by simp [hcut])
      rw [hown, Option.bind_some, h.listed hchain b, hcut, elemBefore?_cut hpre]
  | some c =>
      exact (hcut ▸ h.linked c hchain b : c.Spells b (pre ++ i :: post)).pred

/-- The offset of an instruction is its place in the list. -/
theorem offset? (h : p.Holds L) (hcut : L b = pre ++ i :: post) :
    p.offset? i = some pre.length := by
  have hnd := h.nodup b
  rw [hcut, List.nodup_middle] at hnd
  have hpre : i ∉ pre := fun hi => hnd.notMem (List.mem_append_left _ hi)
  have hown : p.owner i = some b := (h.owned b i).mp (by simp [hcut])
  unfold Program.offset?
  cases hchain : p.chain with
  | none =>
      rw [hown, Option.bind_some, h.listed hchain b, hcut,
        List.idxOf?_eq_some_iff]
      refine ⟨by simp, by simp, fun j hj => ?_⟩
      rw [List.getElem_append_left hj]
      intro hji
      exact hpre (hji ▸ List.getElem_mem hj)
  | some c =>
      have hs : c.Spells b (pre ++ i :: post) := hcut ▸ h.linked c hchain b
      have hpred : c.before.lookup i = pre.getLast? := hs.pred
      have hfar : pre.length ≤ p.instrs.size := by
        have := h.length_le b
        rw [hcut, List.length_append] at this
        omega
      simp only [hown, hpred, Option.map_some, hs.walk_before rfl hfar,
        List.length_reverse]

/-- An instruction in no body has no neighbours. -/
theorem alone (h : p.Holds L) (hfree : p.owner i = none) :
    p.next i = none ∧ p.prev i = none := by
  unfold Program.next Program.prev
  cases hchain : p.chain with
  | none => simp [hfree]
  | some c => exact h.loose c hchain i hfree

end Holds

/-! ### The two steps -/

/-- `q` has the instructions, bodies and methods of `p`; they may be linked
differently. -/
structure Relinked (p q : Program) : Prop where
  methods : q.methods = p.methods
  instrs : q.instrs.size = p.instrs.size
  bodies : q.bodies.size = p.bodies.size
  instr : ∀ i, q.instr i = { p.instr i with owner := q.owner i }
  frames : SameFrames p q

theorem Relinked.refl (p : Program) : p.Relinked p :=
  ⟨rfl, rfl, rfl, fun _ => rfl, SameFrames.refl p⟩

theorem Relinked.trans (h : p.Relinked q) (h' : q.Relinked r) :
    p.Relinked r where
  methods := h'.methods.trans h.methods
  instrs := h'.instrs.trans h.instrs
  bodies := h'.bodies.trans h.bodies
  instr := fun i => by rw [h'.instr i, h.instr i]
  frames := h.frames.trans h'.frames

/-- No instruction is lost. -/
theorem Relinked.has (h : p.Relinked q) (hi : p.Has i) : q.Has i := by
  rwa [Has, h.instrs]

/-- Only the owner of one instruction is another one. -/
theorem relinked_of_instr {o : Option BodyId} (hmethods : q.methods = p.methods)
    (hinstrs : q.instrs.size = p.instrs.size)
    (hbodies : q.bodies.size = p.bodies.size) (hframes : SameFrames p q)
    (hinstr : ∀ k, q.instr k = if k = i then { p.instr i with owner := o } else
        p.instr k) : p.Relinked q ∧ q.owner = Function.update p.owner i o := by
  have howner : q.owner = Function.update p.owner i o := by
    funext k
    rw [owner, hinstr, Function.update_apply]
    split <;> rfl
  refine ⟨⟨hmethods, hinstrs, hbodies, fun k => ?_, hframes⟩, howner⟩
  rw [howner, hinstr, Function.update_apply]
  by_cases hk : k = i
  · simp [hk]
  · simp [hk, owner]

namespace Holds

/-- A chain in which only the ring of `b` has changed, around `i`, shows the
other lists as before. -/
theorem along {c c' : Chain} {x y : Option InstrId} {l : List InstrId}
    (h : p.Holds L) (hchain : p.chain = some c) (hchain' : q.chain = some c')
    (howns : Owns q.owner (Function.update L b l))
    (howner : ∀ k, k ≠ i → q.owner k = p.owner k) (hi : ∀ d, d ≠ b → i ∉ L d)
    (hx : ∀ k ∈ x, k ∈ L b) (hy : ∀ k ∈ y, k ∈ L b) (hring : c'.Spells b l)
    (hsize : c'.size = Function.update c.size b (c'.size b))
    (hleft : ∀ z, z ≠ .inr i → z ≠ Chain.place b x → z ≠ Chain.place b y →
      c'.succ z = c.succ z ∧ c'.pred z = c.pred z) (hloose : q.owner i = none →
        c'.succ (.inr i) = none ∧ c'.pred (.inr i) = none) :
    q.Holds (Function.update L b l) := by
  refine ⟨howns, fun hc => ?_, fun c₁ hc₁ d => ?_, fun c₁ hc₁ k hk => ?_⟩
  · exact absurd (hchain'.symm.trans hc) (by simp)
  · obtain rfl := Option.some.inj (hchain'.symm.trans hc₁)
    by_cases hd : d = b
    · subst hd
      rwa [Function.update_self]
    · rw [Function.update_of_ne hd]
      refine (h.linked c hchain d).elsewhere
        (by rw [hsize, Function.update_of_ne hd]) ?_
      intro z hz
      have happart : ∀ o : Option InstrId, (∀ k ∈ o, k ∈ L b) →
          Chain.place d z ≠ Chain.place b o :=
        fun o ho => Chain.place_ne hd fun k hk hk' =>
          hd (h.unique (ho k hk') (hz k hk))
      refine hleft _ (fun heq => ?_) (happart x hx) (happart y hy)
      exact hi d hd (hz i (Chain.place_eq_inr.mp heq))
  · obtain rfl := Option.some.inj (hchain'.symm.trans hc₁)
    by_cases hki : k = i
    · subst hki
      exact hloose hk
    · have hfree : p.owner k = none := (howner k hki).symm.trans hk
      have hout : ∀ o : Option InstrId, (∀ j ∈ o, j ∈ L b) →
          .inr k ≠ Chain.place b o := by
        intro o ho heq
        exact h.notMem hfree b (ho k (Chain.inr_eq_place.mp heq).symm)
      have hlinks := hleft (.inr k) (by simpa using hki) (hout x hx) (hout y hy)
      rw [hlinks.1, hlinks.2]
      exact h.loose c hchain k hfree

/-- **Putting in.**  A free instruction goes in front of what stands behind a
cut. -/
theorem insert (h : p.Holds L) (hb : b.index < p.bodies.size) (hi : p.Has i)
    (hfree : p.owner i = none) (hcut : L b = pre ++ post) :
    ∃ q, p.insertBefore b post.head? (some i) = .ok q ∧
      q.Holds (Function.update L b (pre ++ i :: post)) ∧ p.Relinked q := by
  have hnd : (pre ++ post).Nodup := hcut ▸ h.nodup b
  have hout : i ∉ pre ++ post := hcut ▸ h.notMem hfree b
  have hmark' : ∀ k ∈ post.head?, k ∈ L b := fun k hk =>
    hcut ▸ List.mem_append_right _ (List.mem_of_head? hk)
  have hmark : ∀ k ∈ post.head?, p.owner k = some b :=
    fun k hk => (h.owned b k).mp (hmark' k hk)
  cases hchain : p.chain with
  | none =>
      have hp := h.wellLinked hchain
      have hplaced : placed post.head? i (p.code b) = pre ++ i :: post := by
        rw [h.code, hcut]
        cases post with
        | nil => simp [placed]
        | cons k post =>
            rw [List.nodup_middle] at hnd
            exact insertFront_cut fun hk =>
              hnd.notMem (List.mem_append_left _ hk)
      obtain ⟨hsame, howner⟩ := relinked_of_instr (p := p) (q := p.link b i
        (pre ++ i :: post)) (o := some b) rfl (by simp [link]) (by simp [link])
        (sameFrames_link hb (pre ++ i :: post)) (instr_link hi _)
      refine ⟨_, insertBefore_eq hp hfree
        fun k hk => hp.mem_code.mpr (hmark k hk), ?_, ?_⟩
      · rw [hplaced]
        refine ⟨howner ▸ h.toOwns.insert hcut hfree, fun _ d => ?_,
          fun c hc => ?_, fun c hc => ?_⟩
        · rw [body_link hb, Function.update_apply]
          split
          · rfl
          · exact h.listed hchain d
        · exact absurd (hchain.symm.trans hc) (by simp)
        · exact absurd (hchain.symm.trans hc) (by simp)
      · rw [hplaced]
        exact hsame
  | some c =>
      have hs : c.Spells b (pre ++ post) := hcut ▸ h.linked c hchain b
      obtain ⟨c', hc', hputs⟩ : ∃ c', p.insertBefore b post.head? (some i) =
          .ok (p.linkAlong b i c') ∧
          Chain.PutsBetween b pre.getLast? post.head? i c c' := by
        cases post with
        | nil =>
            refine ⟨c.append b i, ?_, ?_⟩
            · simp [insertBefore, unlinked, hfree, hchain, bind, Except.bind,
                pure, Except.pure]
            · have hputs :=
                Chain.append_puts (b := b) (h.loose c hchain i hfree).1
              rwa [hs.last, List.append_nil] at hputs
        | cons k post =>
            refine ⟨c.insertBefore b k i, ?_, ?_⟩
            · have hk := hmark k rfl
              simp [insertBefore, unlinked, linkedInto, hfree, hk, hchain, bind,
                Except.bind, pure, Except.pure]
            · have hki : k ≠ i := fun hk => hout (by simp [hk])
              have hputs := Chain.insertBefore_puts (c := c) (b := b) hki
              rwa [hs.pred] at hputs
      obtain ⟨hsame, howner⟩ := relinked_of_instr (p := p)
        (q := p.linkAlong b i c') (o := some b) rfl (by simp [linkAlong])
        (by simp [linkAlong]) (fun _ => rfl) (instr_modifyInstr hi _)
      refine ⟨_, hc', h.along hchain rfl (howner ▸ h.toOwns.insert hcut hfree)
        (fun k hk => ?_) (fun d _ => h.notMem hfree d) (fun k hk => ?_) hmark'
        (hs.insert hnd hout hputs) (by rw [hputs.size, Function.update_self])
        (fun z => hputs.left) (fun ho => ?_), hsame⟩
      · rw [howner, Function.update_of_ne hk]
      · exact hcut ▸ List.mem_append_left _ (List.mem_of_getLast? hk)
      · rw [howner, Function.update_self] at ho
        cases ho

/-- **Taking out.**  The neighbours of an instruction close the gap it
leaves. -/
theorem remove (h : p.Holds L) (hb : b.index < p.bodies.size)
    (hcut : L b = pre ++ i :: post) : ∃ q, p.remove b (some i) = .ok q ∧
      q.Holds (Function.update L b (pre ++ post)) ∧
      q.owner = Function.update p.owner i none ∧ p.Relinked q := by
  have hmem : i ∈ L b := by simp [hcut]
  have hown : p.owner i = some b := (h.owned b i).mp hmem
  have hi : p.Has i := has_of_owner hown
  have hnd : (pre ++ i :: post).Nodup := hcut ▸ h.nodup b
  have hpre : i ∉ pre := fun hi =>
    (List.nodup_middle.mp hnd).notMem (List.mem_append_left _ hi)
  cases hchain : p.chain with
  | none =>
      have hp := h.wellLinked hchain
      have hcode : i ∈ p.code b := hp.mem_code.mpr hown
      obtain ⟨hsame, howner⟩ := relinked_of_instr (p := p) (q := p.unlink b i)
        (o := none) rfl (by simp [unlink]) (by simp [unlink])
        (sameFrames_unlink hb) (instr_unlink hi)
      refine ⟨_, remove_eq hp hcode, ⟨howner ▸ h.toOwns.remove hcut,
        fun _ d => ?_, fun c hc => ?_, fun c hc => ?_⟩, howner, hsame⟩
      · rw [body_unlink hb, Function.update_apply]
        split
        · rw [h.listed hchain b, hcut, erase_cut hpre]
        · exact h.listed hchain d
      · exact absurd (hchain.symm.trans hc) (by simp)
      · exact absurd (hchain.symm.trans hc) (by simp)
  | some c =>
      have hs : c.Spells b (pre ++ i :: post) := hcut ▸ h.linked c hchain b
      have htakes :
          Chain.TakesOut b pre.getLast? post.head? i c (c.remove b i) := by
        have hself : c.pred (.inr i) ≠ some i := by
          rw [hs.pred]
          exact fun hlast => hpre (List.mem_of_getLast? hlast)
        have := Chain.remove_takes (b := b) hself
        rwa [hs.pred, hs.succ] at this
      let q : Program :=
        { p.modifyInstr i fun x => { x with owner := none } with
        chain := some (c.remove b i) }
      have hq : p.remove b (some i) = .ok q := by
        simp [Program.remove, linkedInto, hown, hchain, bind, Except.bind, pure,
          Except.pure, q]
      obtain ⟨hsame, howner⟩ := relinked_of_instr (p := p) (q := q) (o := none)
        rfl (by simp [q]) (by simp [q]) (fun _ => rfl) (instr_modifyInstr hi _)
      refine ⟨q, hq, h.along hchain rfl (howner ▸ h.toOwns.remove hcut)
        (fun k hk => ?_) (fun d hd hmem' => hd (h.unique hmem hmem'))
        (fun k hk => ?_) (fun k hk => ?_) (hs.remove hnd htakes)
        (by rw [htakes.size, Function.update_self]) (fun z => htakes.left)
        (fun _ => ?_), howner, hsame⟩
      · rw [howner, Function.update_of_ne hk]
      · exact hcut ▸ List.mem_append_left _ (List.mem_of_getLast? hk)
      · exact hcut ▸ List.mem_append_right
          _ (List.mem_cons_of_mem _ (List.mem_of_head? hk))
      · rw [htakes.succ, htakes.pred]
        simp

end Holds

end Program

end Bytecode
