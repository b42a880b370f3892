import Mathlib
import Bytecode.Program.Edit

/-!
# Neighbours in a list without repetition

The neighbours of an instruction are found by looking for it in the code of its
body.  An instruction that stands once in the code cuts it into what comes in
front and what comes behind, and everything here is read off that cut: the
neighbours are the elements next to it, and removing, exchanging or inserting
an element changes the code at the cut and nowhere else.
-/

namespace Bytecode

variable {α : Type} {x y z : α} {l pre post : List α}

/-- An element of a list without repetition cuts the list in two. -/
theorem exists_cut (hl : l.Nodup) (hx : x ∈ l) :
    ∃ pre post, l = pre ++ x :: post ∧ x ∉ pre ∧ x ∉ post := by
  obtain ⟨pre, post, rfl⟩ := List.append_of_mem hx
  refine ⟨pre, post, rfl, ?_, ?_⟩
  · intro h
    exact (List.disjoint_of_nodup_append hl) h List.mem_cons_self
  · exact (List.nodup_cons.mp (List.nodup_append.mp hl).2.1).1

/-- The cut at an element is unique. -/
theorem cut_unique {pre' post' : List α} (hx : x ∉ pre) (hx' : x ∉ pre')
    (h : pre ++ x :: post = pre' ++ x :: post') :
    pre = pre' ∧ post = post' := by
  induction pre generalizing pre' with
  | nil =>
      cases pre' with
      | nil => simpa using h
      | cons y pre' =>
          have hxy : x = y := by simpa using congrArg List.head? h
          exact absurd (hxy ▸ List.mem_cons_self) hx'
  | cons y pre ih =>
      cases pre' with
      | nil =>
          have hxy : y = x := by simpa using congrArg List.head? h
          exact absurd (hxy ▸ List.mem_cons_self) hx
      | cons z pre' =>
          rw [List.mem_cons, not_or] at hx hx'
          simp only [List.cons_append, List.cons.injEq] at h
          obtain ⟨rfl, rfl⟩ := ih hx.2 hx'.2 h.2
          exact ⟨by rw [h.1], rfl⟩

variable [DecidableEq α]

/-- What follows an element is the head of the rest. -/
theorem elemAfter?_cut (hx : x ∉ pre) :
    elemAfter? x (pre ++ x :: post) = post.head? := by
  induction pre with
  | nil => simp [elemAfter?]
  | cons y pre ih =>
      rw [List.mem_cons, not_or] at hx
      simp [elemAfter?, Ne.symm hx.1, ih hx.2]

/-- What is in front of an element is the last of what comes before. -/
theorem elemBefore?_cut (hx : x ∉ pre) :
    elemBefore? x (pre ++ x :: post) = pre.getLast? := by
  induction pre with
  | nil => simp [elemBefore?]
  | cons y pre ih =>
      rw [List.mem_cons, not_or] at hx
      cases pre with
      | nil => simp [elemBefore?, Ne.symm hx.1]
      | cons z pre =>
          have hz : z ≠ x := fun h => hx.2 (h ▸ List.mem_cons_self)
          rw [List.cons_append, elemBefore?, if_neg (Ne.symm hx.1),
            if_neg (by simpa using hz), ih hx.2, List.getLast?_cons_cons]

/-- Nothing follows what is not there. -/
theorem elemAfter?_eq_none (hx : x ∉ l) : elemAfter? x l = none := by
  induction l with
  | nil => rfl
  | cons y l ih =>
      rw [List.mem_cons, not_or] at hx
      simp [elemAfter?, Ne.symm hx.1, ih hx.2]

/-- What follows an element is in the list. -/
theorem mem_of_elemAfter? (h : elemAfter? x l = some y) : y ∈ l := by
  induction l with
  | nil => simp [elemAfter?] at h
  | cons z l ih =>
      rw [elemAfter?] at h
      split at h
      · exact List.mem_cons_of_mem _ (List.mem_of_head? h)
      · exact List.mem_cons_of_mem _ (ih h)

/-- What is in front of an element is in the list. -/
theorem mem_of_elemBefore? (h : elemBefore? x l = some y) : y ∈ l := by
  induction l with
  | nil => simp [elemBefore?] at h
  | cons z l ih =>
      rw [elemBefore?] at h
      split at h
      · cases h
      · split at h
        · exact Option.some.inj h ▸ List.mem_cons_self
        · exact List.mem_cons_of_mem _ (ih h)

/-- No element follows itself. -/
theorem elemAfter?_ne (hl : l.Nodup) (h : elemAfter? x l = some y) : y ≠ x := by
  rintro rfl
  by_cases hy : y ∈ l
  · obtain ⟨pre, post, rfl, hpre, hpost⟩ := exists_cut hl hy
    rw [elemAfter?_cut hpre] at h
    exact hpost (List.mem_of_head? h)
  · rw [elemAfter?_eq_none hy] at h
    cases h

/-- No element is in front of itself. -/
theorem elemBefore?_ne (hl : l.Nodup) (h : elemBefore? x l = some y)
    (hx : x ∈ l) : y ≠ x := by
  rintro rfl
  obtain ⟨pre, post, rfl, hpre, -⟩ := exists_cut hl hx
  rw [elemBefore?_cut hpre] at h
  exact hpre (List.mem_of_getLast? h)

/-- `y` stands behind `x` exactly when `x` stands in front of `y`. -/
theorem elemAfter?_eq_some_iff (hl : l.Nodup) :
    elemAfter? x l = some y ↔ ∃ pre post, l = pre ++ x :: y :: post := by
  constructor
  · intro h
    have hx : x ∈ l := by
      by_contra hx
      rw [elemAfter?_eq_none hx] at h
      cases h
    obtain ⟨pre, post, rfl, hpre, -⟩ := exists_cut hl hx
    rw [elemAfter?_cut hpre] at h
    obtain ⟨rest, rfl⟩ := List.head?_eq_some_iff.mp h
    exact ⟨pre, rest, rfl⟩
  · rintro ⟨pre, post, rfl⟩
    rw [elemAfter?_cut]
    · rfl
    · intro h
      exact (List.disjoint_of_nodup_append hl) h List.mem_cons_self

/-- One element is in front of another if that follows it. -/
theorem elemBefore?_eq_some_iff (hl : l.Nodup) (hy : y ∈ l) :
    elemBefore? y l = some x ↔ elemAfter? x l = some y := by
  obtain ⟨pre, post, rfl, hpre, hpost⟩ := exists_cut hl hy
  rw [elemBefore?_cut hpre, elemAfter?_eq_some_iff hl]
  constructor
  · intro h
    obtain ⟨front, rfl⟩ := List.getLast?_eq_some_iff.mp h
    exact ⟨front, post, by simp⟩
  · rintro ⟨front, rest, h⟩
    have hfront : y ∉ front ++ [x] := by
      intro hmem
      have hnd : ((front ++ [x]) ++ y :: rest).Nodup := by
        rw [h] at hl
        simpa using hl
      exact (List.disjoint_of_nodup_append hnd) hmem List.mem_cons_self
    have hcut : pre ++ y :: post = (front ++ [x]) ++ y :: rest := by
      simpa using h
    rw [(cut_unique hpre hfront hcut).1]
    simp

/-- What is in front of another list does not matter. -/
theorem elemAfter?_append_right (hx : x ∉ pre) :
    elemAfter? x (pre ++ post) = elemAfter? x post := by
  induction pre with
  | nil => rfl
  | cons y pre ih =>
      rw [List.mem_cons, not_or] at hx
      rw [List.cons_append, elemAfter?, if_neg (Ne.symm hx.1), ih hx.2]

/-- What follows the last element is the head of the other list. -/
theorem elemAfter?_append_left (hl : pre.Nodup) (hx : x ∈ pre) :
    elemAfter? x (pre ++ post) = (elemAfter? x pre).or post.head? := by
  obtain ⟨front, back, rfl, hfront, -⟩ := exists_cut hl hx
  rw [elemAfter?_cut hfront, List.append_assoc, List.cons_append,
    elemAfter?_cut hfront, List.head?_append]

/-- Neighbours stay neighbours, behind. -/
theorem elemAfter?_map {β : Type} [DecidableEq β] {f : α → β}
    (hf : ∀ y ∈ l, f y = f x → y = x) :
    elemAfter? (f x) (l.map f) = (elemAfter? x l).map f := by
  induction l with
  | nil => rfl
  | cons y l ih =>
      have hrest := ih fun z hz => hf z (List.mem_cons_of_mem _ hz)
      by_cases hy : y = x
      · simp [elemAfter?, hy]
      · have hfy : f y ≠ f x := fun h => hy (hf y List.mem_cons_self h)
        simp [elemAfter?, hy, hfy, hrest]

/-- Neighbours stay neighbours, in front. -/
theorem elemBefore?_map {β : Type} [DecidableEq β] {f : α → β}
    (hf : ∀ y ∈ l, f y = f x → y = x) :
    elemBefore? (f x) (l.map f) = (elemBefore? x l).map f := by
  induction l with
  | nil => rfl
  | cons y l ih =>
      have hrest := ih fun z hz => hf z (List.mem_cons_of_mem _ hz)
      have hhead : (l.map f).head? = some (f x) ↔ l.head? = some x := by
        rw [List.head?_map, Option.map_eq_some_iff]
        constructor
        · rintro ⟨z, hz, hzx⟩
          rw [hz, hf z (List.mem_cons_of_mem _ (List.mem_of_head? hz)) hzx]
        · exact fun hz => ⟨x, hz, rfl⟩
      by_cases hy : y = x
      · simp [elemBefore?, hy]
      · have hfy : f y ≠ f x := fun h => hy (hf y List.mem_cons_self h)
        simp only [elemBefore?, List.map_cons, if_neg hy, if_neg hfy,
          hhead, hrest]
        split
        · rfl
        · rfl

/-- Elements keep their places. -/
theorem idxOf?_map {β : Type} [DecidableEq β] {f : α → β}
    (hf : ∀ y ∈ l, f y = f x → y = x) :
    (l.map f).idxOf? (f x) = l.idxOf? x := by
  induction l with
  | nil => rfl
  | cons y l ih =>
      have hrest := ih fun z hz => hf z (List.mem_cons_of_mem _ hz)
      have hbeq : (f y == f x) = (y == x) := by
        rw [Bool.eq_iff_iff, beq_iff_eq, beq_iff_eq]
        exact ⟨hf y List.mem_cons_self, fun hyx => by rw [hyx]⟩
      rw [List.map_cons, List.idxOf?_cons, List.idxOf?_cons, hrest, hbeq]

/-- Two elements at the same place are one. -/
theorem idxOf?_inj {n : Nat} (hx : l.idxOf? x = some n)
    (hy : l.idxOf? y = some n) : x = y := by
  obtain ⟨_, hx, -⟩ := List.idxOf?_eq_some_iff.mp hx
  obtain ⟨_, hy, -⟩ := List.idxOf?_eq_some_iff.mp hy
  exact hx.symm.trans hy

/-! ### Removing, exchanging and inserting an element -/

/-- An element is erased where the list is cut. -/
theorem erase_cut (hx : x ∉ pre) :
    (pre ++ x :: post).erase x = pre ++ post := by
  rw [List.erase_append_right _ hx, List.erase_cons_head]

/-- An element is replaced where the list is cut. -/
theorem replace_cut (hx : x ∉ pre) :
    (pre ++ x :: post).replace x z = pre ++ z :: post := by
  rw [List.replace_append_right hx, List.replace_cons_self]

/-- An element is inserted where the list is cut. -/
theorem insertFront_cut {x z : InstrId} {pre post : List InstrId}
    (hx : x ∉ pre) :
    Program.insertFront x z (pre ++ x :: post) = pre ++ z :: x :: post := by
  induction pre with
  | nil => simp [Program.insertFront]
  | cons y pre ih =>
      rw [List.mem_cons, not_or] at hx
      simp [Program.insertFront, Ne.symm hx.1, ih hx.2]

/-- What stood in front of a removed element now has its successor behind it. -/
theorem elemAfter?_erase (hl : l.Nodup) (hyx : y ≠ x) :
    elemAfter? y (l.erase x) =
    if elemAfter? y l = some x then elemAfter? x l else elemAfter? y l := by
  induction l with
  | nil => simp [elemAfter?]
  | cons w l ih =>
      obtain ⟨hw, hl⟩ := List.nodup_cons.mp hl
      by_cases hwx : w = x
      · subst hwx
        have hne : elemAfter? y l ≠ some w := fun h => hw (mem_of_elemAfter? h)
        simp [elemAfter?, Ne.symm hyx, hne]
      · rw [List.erase_cons_tail (by simpa using hwx)]
        by_cases hwy : w = y
        · subst hwy
          cases l with
          | nil => simp [elemAfter?]
          | cons v l =>
              by_cases hvx : v = x
              · simp [elemAfter?, hvx, hyx]
              · simp [elemAfter?, hvx, List.erase_cons_tail]
        · simp [elemAfter?, hwx, hwy, ih hl]

/-- The head of a list after an element has been erased. -/
theorem head?_erase :
    (l.erase x).head? = if l.head? = some x then elemAfter? x l else
        l.head? := by
  cases l with
  | nil => simp
  | cons w l =>
      by_cases hwx : w = x
      · simp [hwx, elemAfter?]
      · simp [hwx, List.erase_cons_tail]

/-- The head of a list after an element has been replaced. -/
theorem head?_replace (hx : x ∈ l) :
    (l.replace x z).head? = if l.head? = some x then some z else l.head? := by
  cases l with
  | nil => simp at hx
  | cons w l =>
      by_cases hwx : w = x
      · simp [hwx]
      · have hne : (x == w) = false := by simpa using Ne.symm hwx
        simp [hwx, List.replace_cons, hne]

/-- What stood in front of an exchanged element now has the new one behind
it. -/
theorem elemAfter?_replace (hl : l.Nodup) (hx : x ∈ l) (hz : z ∉ l)
    (hyx : y ≠ x) (hyz : y ≠ z) :
    elemAfter? y (l.replace x z) = if elemAfter? y l = some x then some z else
        elemAfter? y l := by
  obtain ⟨pre, post, rfl, hpre, hpost⟩ := exists_cut hl hx
  rw [replace_cut hpre]
  clear hx
  induction pre with
  | nil =>
      have hne : elemAfter? y post ≠ some x :=
        fun h => hpost (mem_of_elemAfter? h)
      simp [elemAfter?, Ne.symm hyx, Ne.symm hyz, hne]
  | cons w pre ih =>
      rw [List.mem_cons, not_or] at hpre
      rw [List.cons_append, List.mem_cons, not_or] at hz
      by_cases hwy : w = y
      · subst hwy
        cases pre with
        | nil => simp [elemAfter?]
        | cons v pre =>
            have hvx : v ≠ x := fun h => hpre.2 (h ▸ List.mem_cons_self)
            simp [elemAfter?, hvx]
      · simp only [List.cons_append, elemAfter?, if_neg hwy]
        exact ih (List.nodup_cons.mp hl).2 hz.2 hpre.2

/-- What followed the old element follows the new one. -/
theorem elemAfter?_replace_self (hl : l.Nodup) (hx : x ∈ l) (hz : z ∉ l) :
    elemAfter? z (l.replace x z) = elemAfter? x l := by
  obtain ⟨pre, post, rfl, hpre, -⟩ := exists_cut hl hx
  have hzpre : z ∉ pre := fun h => hz (List.mem_append_left _ h)
  rw [replace_cut hpre, elemAfter?_cut hzpre, elemAfter?_cut hpre]

/-! ### Lists of keys and values -/

/-- Nothing is found under a key whose entries have been taken out. -/
theorem lookup_filter_ne {κ β : Type} [BEq κ] [LawfulBEq κ] [DecidableEq κ]
    (l : List (κ × β)) (k k' : κ) : (l.filter fun e => e.1 ≠ k).lookup k' =
    if k' = k then none else l.lookup k' := by
  induction l with
  | nil => simp
  | cons e l ih =>
      obtain ⟨k₀, v⟩ := e
      rw [List.filter_cons]
      by_cases hk₀ : k₀ = k
      · subst hk₀
        by_cases hk' : k' = k₀
        · simpa [hk'] using ih
        · have hne : (k' == k₀) = false := by simpa using hk'
          simpa [hk', List.lookup_cons, hne] using ih
      · by_cases hk' : k' = k₀
        · subst hk'
          simp [hk₀]
        · have hne : (k' == k₀) = false := by simpa using hk'
          simpa [hk₀, List.lookup_cons, hne] using ih

end Bytecode
