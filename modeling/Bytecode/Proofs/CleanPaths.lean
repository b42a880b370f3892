import Mathlib
import Bytecode.Path

/-!
# Clean paths

Whatever the components of a path, all together they lead some steps up and from
there on through names: `Leads`.  Cleaning leaves just these, without the steps
up if the path starts at the root. Such components are left alone when a path is
made of them and cleaned again, `Cleaned.cleanComponents_ofComponents`, so a
clean path is determined by them.

Where two paths are joined, the steps up of the second take back names of the
first, and its names come behind what is left: `cleanComponents_join`.  A name
at the end of a path stands in the directory of the path, `dir_clean_append`.
-/

namespace Bytecode

namespace Text

variable {α : Type} [DecidableEq α] {separator : α} {l s : List α}

/-- There is one piece at least. -/
theorem pieces_ne_nil (separator : α) (s : List α) :
    pieces separator s ≠ [] := by
  cases s with
  | nil => exact List.cons_ne_nil _ _
  | cons c rest =>
      rw [pieces]
      split
      · exact List.cons_ne_nil _ _
      · split <;> exact List.cons_ne_nil _ _

/-- A list is cut at a separator wherever that stands. -/
theorem pieces_append (separator : α) (s t : List α) :
    pieces separator (s ++ separator :: t) = pieces separator s ++
    pieces separator t := by
  induction s with
  | nil => simp [pieces]
  | cons c rest ih =>
      rw [List.cons_append, pieces, pieces, ih]
      split
      · rfl
      · cases hrest : pieces separator rest with
        | nil => exact absurd hrest (pieces_ne_nil separator rest)
        | cons p more => rfl

/-- No piece has a separator in it. -/
theorem notMem_of_mem_pieces (hl : l ∈ pieces separator s) : separator ∉ l := by
  induction s generalizing l with
  | nil =>
      rw [List.mem_singleton.mp hl]
      exact List.not_mem_nil
  | cons c rest ih =>
      rw [pieces] at hl
      split at hl
      · rcases List.mem_cons.mp hl with rfl | hl
        · exact List.not_mem_nil
        · exact ih hl
      · next hc =>
          split at hl
          · next p more hrest =>
              rcases List.mem_cons.mp hl with rfl | hl
              · rw [List.mem_cons, not_or]
                exact ⟨Ne.symm hc, ih (hrest ▸ List.mem_cons_self)⟩
              · exact ih (hrest ▸ List.mem_cons_of_mem p hl)
          · next hrest => exact absurd hrest (pieces_ne_nil separator rest)

end Text

namespace Path

variable {a b c d s : String} {cs names stack : List String} {rooted : Bool}
  {n : Nat}

/-! ### Components -/

/-- The components of paths with a slash between them. -/
theorem components_append (a b : String) :
    components (a ++ "/" ++ b) = components a ++ components b := by
  rw [components, String.toList_append, String.toList_append, List.append_assoc]
  exact (congrArg (List.map String.ofList)
    (Text.pieces_append '/' a.toList b.toList)).trans List.map_append

/-- A text without a slash is one component. -/
theorem components_eq_singleton (hs : '/' ∉ s.toList) : components s = [s] := by
  rw [components, Text.pieces_eq_singleton hs, List.map_singleton,
    String.ofList_toList]

/-- No component has a slash in it. -/
theorem slash_notMem (hc : c ∈ components s) : '/' ∉ c.toList := by
  obtain ⟨l, hl, rfl⟩ := List.mem_map.mp hc
  rw [String.toList_ofList]
  exact Text.notMem_of_mem_pieces hl

/-- The components of a path that is made of them. -/
theorem components_intercalate (hne : cs ≠ [])
    (hcs : ∀ c ∈ cs, '/' ∉ c.toList) :
    components (String.intercalate "/" cs) = cs := by
  induction cs with
  | nil => exact absurd rfl hne
  | cons c rest ih =>
      have hc := components_eq_singleton (hcs c List.mem_cons_self)
      cases rest with
      | nil => exact hc
      | cons d rest =>
          rw [String.intercalate_cons_cons, components_append, hc,
            ih (List.cons_ne_nil _ _) fun e he => hcs e
            (List.mem_cons_of_mem c he)]
          rfl

/-- One component more. -/
theorem intercalate_concat (hne : cs ≠ []) (c : String) :
    String.intercalate "/" (cs ++ [c]) = String.intercalate "/" cs ++
    "/" ++ c := by
  induction cs with
  | nil => exact absurd rfl hne
  | cons d rest ih =>
      cases rest with
      | nil => rfl
      | cons e rest =>
          have htail := ih (List.cons_ne_nil _ _)
          rw [List.cons_append, List.cons_append, String.intercalate_cons_cons,
            ← List.cons_append, htail, String.intercalate_cons_cons]
          simp only [String.append_assoc]

/-- A path starts at the root if its first component is empty and not the only
one. -/
theorem isAbsolute_iff_components :
    isAbsolute s = true ↔ ∃ c rest, components s = "" :: c :: rest := by
  rw [isAbsolute, decide_eq_true_iff, components]
  cases hs : s.toList with
  | nil => simp [Text.pieces]
  | cons x rest =>
      rw [List.head?_cons, Option.some.injEq, Text.pieces]
      cases hrest : Text.pieces '/' rest with
      | nil => exact absurd hrest (Text.pieces_ne_nil '/' rest)
      | cons p more => by_cases hx : x = '/' <;> simp [hx]

/-- The head of a path tells whether it is absolute. -/
theorem isAbsolute_append (ha : a ≠ "") (b : String) :
    isAbsolute (a ++ b) = isAbsolute a := by
  rw [isAbsolute, isAbsolute, String.toList_append]
  cases hl : a.toList with
  | nil => exact absurd (String.toList_eq_nil_iff.mp hl) ha
  | cons c rest => rfl

theorem ne_empty_of_isAbsolute (h : isAbsolute s = true) : s ≠ "" := by
  rintro rfl
  exact absurd h (by decide)

theorem isAbsolute_slash (s : String) : isAbsolute ("/" ++ s) = true := by
  rw [isAbsolute, String.toList_append]
  rfl

/-! ### Where components lead -/

/-- A component that leads somewhere by itself: it is not empty, and not made of
one or two dots. -/
structure IsName (c : String) : Prop where
  ne_empty : c ≠ ""
  ne_dot : c ≠ "."
  ne_dots : c ≠ ".."
  plain : '/' ∉ c.toList

/-- A component with a character that is no dot is a name. -/
theorem isName_of_mem {x : Char} (hs : '/' ∉ s.toList) (hx : x ∈ s.toList)
    (hdot : x ≠ '.') : IsName s := by
  refine ⟨?_, ?_, ?_, hs⟩ <;> rintro rfl
  · exact List.not_mem_nil hx
  · exact hdot (List.mem_singleton.mp hx)
  · rcases List.mem_cons.mp hx with rfl | hx
    · exact hdot rfl
    · exact hdot (List.mem_singleton.mp hx)

/-- Components lead some steps up, and from there on through names. -/
inductive Leads :
    (components : List String) → (n : Nat) → (names : List String) → Prop
  | start : Leads [] 0 []
  | idle {c : String} {cs names : List String} {n : Nat} (h : Leads cs n names)
      (hc : c = "" ∨ c = ".") : Leads (cs ++ [c]) n names
  | name {c : String} {cs names : List String} {n : Nat} (h : Leads cs n names)
    (hc : IsName c) : Leads (cs ++ [c]) n (names ++ [c])
  | back {c : String} {cs names : List String} {n : Nat}
    (h : Leads cs n (names ++ [c])) : Leads (cs ++ [".."]) n names
  | up {cs : List String} {n : Nat} (h : Leads cs n []) : Leads (cs ++ [".."])
    (n + 1) []

/-- Whatever components a path has, it leads somewhere. -/
theorem exists_leads (hcs : ∀ c ∈ cs, '/' ∉ c.toList) :
    ∃ n names, Leads cs n names := by
  -- from the end, since the last component is the one that is put on top of the
  -- others
  induction cs using List.reverseRecOn with
  | nil => exact ⟨0, [], .start⟩
  | append_singleton cs c ih =>
      obtain ⟨n, names, h⟩ := ih fun d hd => hcs d (List.mem_append_left [c] hd)
      by_cases hidle : c = "" ∨ c = "."
      · exact ⟨n, names, h.idle hidle⟩
      by_cases hup : c = ".."
      · subst hup
        rcases List.eq_nil_or_concat names with rfl | ⟨below, top, rfl⟩
        · exact ⟨n + 1, [], h.up⟩
        · rw [List.concat_eq_append] at h
          exact ⟨n, below, h.back⟩
      · rw [not_or] at hidle
        have hplain := hcs c (List.mem_append_right cs List.mem_cons_self)
        exact ⟨n, names ++ [c], h.name ⟨hidle.1, hidle.2, hup, hplain⟩⟩

/-- A path leads through names. -/
theorem Leads.isName (h : Leads cs n names) : ∀ c ∈ names, IsName c := by
  induction h with
  | start => exact fun c hc => absurd hc List.not_mem_nil
  | idle _ _ ih => exact ih
  | name _ hname ih =>
      intro d hd
      rcases List.mem_append.mp hd with hd | hd
      · exact ih d hd
      · exact List.mem_singleton.mp hd ▸ hname
  | back _ ih => exact fun d hd => ih d (List.mem_append_left _ hd)
  | up _ ih => exact ih

/-- Steps up and then names lead where they say. -/
theorem leads_names (n : Nat) (hnames : ∀ c ∈ names, IsName c) :
    Leads (List.replicate n ".." ++ names) n names := by
  induction names using List.reverseRecOn with
  | nil =>
      rw [List.append_nil]
      induction n with
      | zero => exact .start
      | succ n ih =>
          rw [List.replicate_succ']
          exact .up ih
  | append_singleton names c ih =>
      rw [← List.append_assoc]
      exact .name (ih fun d hd => hnames d (List.mem_append_left [c] hd))
        (hnames c (List.mem_append_right names List.mem_cons_self))

/-! ### Components on a stack -/

/-- Empty components and dots are dropped. -/
theorem push_idle (hc : c = "" ∨ c = ".") : push rooted stack c = stack := by
  unfold push
  rw [if_pos (by simpa using hc)]

/-- All of them are dropped. -/
theorem foldl_push_idle (hcs : ∀ c ∈ cs, c = "" ∨ c = ".") :
    cs.foldl (push rooted) stack = stack := by
  induction cs with
  | nil => rfl
  | cons c rest ih =>
      rw [List.foldl_cons, push_idle (hcs c List.mem_cons_self),
        ih fun d hd => hcs d (List.mem_cons_of_mem c hd)]

/-- A name is put on the stack. -/
theorem push_name (hc : IsName c) : push rooted stack c = c :: stack := by
  unfold push
  rw [if_neg (by simp [hc.ne_empty, hc.ne_dot]), if_neg hc.ne_dots]

/-- Two dots take a name back. -/
theorem push_back (hc : IsName c) : push rooted (c :: stack) ".." = stack := by
  unfold push
  rw [if_neg (by decide), if_pos rfl]
  exact if_neg hc.ne_dots

/-- Without a name to take back, two dots lead up. -/
theorem push_up (n : Nat) :
    push false (List.replicate n "..") ".." = List.replicate (n + 1) ".." := by
  cases n <;> rfl

/-- From where there are only names, components lead down from what is left of
these. -/
theorem Leads.foldl_push_names (h : Leads cs n names)
    (hbase : ∀ c ∈ stack, IsName c) :
    cs.foldl (push true) stack = names.reverse ++ stack.drop n := by
  induction h with
  | start => rfl
  | idle _ hc ih => rw [List.foldl_concat, ih, push_idle hc]
  | name _ hc ih => rw [List.foldl_concat, ih, push_name hc,
      List.reverse_concat, List.cons_append]
  | back h ih =>
      have hc := h.isName _ (List.mem_append_right _ List.mem_cons_self)
      rw [List.foldl_concat, ih, List.reverse_concat, List.cons_append,
        push_back hc]
  | @up _ n h ih =>
      rw [List.foldl_concat, ih, List.reverse_nil, List.nil_append,
        List.nil_append, ← List.tail_drop]
      cases hleft : stack.drop n with
      | nil => rfl
      | cons c below => exact push_back (hbase c
          (List.drop_subset n stack (hleft ▸ List.mem_cons_self)))

/-- Components that do not start at the root keep their steps up. -/
theorem Leads.foldl_push (h : Leads cs n names) :
    cs.foldl (push false) [] = names.reverse ++ List.replicate n ".." := by
  induction h with
  | start => rfl
  | idle _ hc ih => rw [List.foldl_concat, ih, push_idle hc]
  | name _ hc ih => rw [List.foldl_concat, ih, push_name hc,
      List.reverse_concat, List.cons_append]
  | back h ih =>
      have hc := h.isName _ (List.mem_append_right _ List.mem_cons_self)
      rw [List.foldl_concat, ih, List.reverse_concat, List.cons_append,
        push_back hc]
  | up _ ih => rw [List.foldl_concat, ih, List.reverse_nil, List.nil_append,
      List.nil_append, push_up]

/-! ### What cleaning leaves -/

/-- Some steps up, none from the root on, and then names. -/
def Cleaned (rooted : Bool) (cs : List String) : Prop :=
  ∃ n names, cs = List.replicate n ".." ++ names ∧ (∀ c ∈ names, IsName c) ∧
    (rooted = true → n = 0)

/-- The path with the given components. -/
def ofComponents (rooted : Bool) (cs : List String) : String :=
  if rooted then "/" ++ String.intercalate "/" cs
  else if cs = [] then "."
  else String.intercalate "/" cs

/-- The stack in the end holds where the path leads. -/
theorem Leads.reverse_foldl_push (h : Leads cs n names) (rooted : Bool) :
    (cs.foldl (push rooted) []).reverse =
    List.replicate (if rooted then 0 else n) ".." ++ names := by
  cases rooted with
  | true =>
      rw [h.foldl_push_names fun c hc => absurd hc List.not_mem_nil]
      simp
  | false =>
      rw [h.foldl_push]
      simp

/-- The components that are left of a path. -/
theorem Leads.cleanComponents (h : Leads (components s) n names) :
    cleanComponents s =
    List.replicate (if isAbsolute s then 0 else n) ".." ++ names :=
  h.reverse_foldl_push (isAbsolute s)

/-- The components that are left are clean. -/
theorem cleaned_cleanComponents (s : String) :
    Cleaned (isAbsolute s) (cleanComponents s) := by
  obtain ⟨n, names, h⟩ :=
    exists_leads fun c (hc : c ∈ components s) => slash_notMem hc
  exact ⟨_, names, h.cleanComponents, h.isName, fun hroot => if_pos hroot⟩

/-- Clean components are neither empty nor have a slash in them. -/
theorem Cleaned.plain (h : Cleaned rooted cs) :
    ∀ c ∈ cs, c ≠ "" ∧ '/' ∉ c.toList := by
  obtain ⟨n, names, rfl, hnames, -⟩ := h
  intro c hc
  rcases List.mem_append.mp hc with hc | hc
  · rw [List.eq_of_mem_replicate hc]
    decide
  · exact ⟨(hnames c hc).ne_empty, (hnames c hc).plain⟩

/-- Clean components are left as they are. -/
theorem Cleaned.reverse_foldl_push (h : Cleaned rooted cs) :
    (cs.foldl (push rooted) []).reverse = cs := by
  obtain ⟨n, names, rfl, hnames, hn⟩ := h
  rw [(leads_names n hnames).reverse_foldl_push rooted]
  cases rooted with
  | true => rw [hn rfl]; rfl
  | false => rfl

/-! ### Clean paths -/

/-- A clean path is made of the components that are left. -/
theorem clean_eq (s : String) :
    clean s = ofComponents (isAbsolute s) (cleanComponents s) := by
  have hnil : String.intercalate "/" (cleanComponents s) = "" ↔
      cleanComponents s = [] := by
    constructor
    · intro h
      by_contra hne
      have hplain := (cleaned_cleanComponents s).plain
      have hback := components_intercalate hne fun c hc => (hplain c hc).2
      rw [h] at hback
      have hempty : "" ∈ cleanComponents s := hback ▸ List.mem_cons_self
      exact (hplain "" hempty).1 rfl
    · intro h
      rw [h]
      rfl
  rw [clean, ofComponents]
  simp only [hnil]

/-- A path of clean components is absolute if it is rooted. -/
theorem Cleaned.isAbsolute_ofComponents (h : Cleaned rooted cs) :
    isAbsolute (ofComponents rooted cs) = rooted := by
  rw [ofComponents]
  cases rooted with
  | true => exact isAbsolute_slash _
  | false =>
      cases cs with
      | nil => rfl
      | cons c rest =>
          obtain ⟨hne, hslash⟩ := h.plain c List.mem_cons_self
          have hfirst : isAbsolute c = false := by
            rw [isAbsolute, decide_eq_false_iff_not]
            exact fun hhead => hslash (List.mem_of_head? hhead)
          rw [if_neg (by decide), if_neg (List.cons_ne_nil c rest)]
          cases rest with
          | nil => exact hfirst
          | cons d rest =>
              rw [String.intercalate_cons_cons, String.append_assoc,
                isAbsolute_append hne, hfirst]

/-- Besides the components that it is made of, a path may have some that do
nothing. -/
theorem Cleaned.components_ofComponents (h : Cleaned rooted cs) :
    ∃ idle, (∀ c ∈ idle, c = "" ∨ c = ".") ∧
      components (ofComponents rooted cs) = idle ++ cs := by
  by_cases hne : cs = []
  · subst hne
    cases rooted with
    | true => exact ⟨["", ""], by decide, by decide⟩
    | false => exact ⟨["."], by decide, by decide⟩
  have hcomponents := components_intercalate hne fun c hc => (h.plain c hc).2
  cases rooted with
  | true =>
      have hroot := components_append "" (String.intercalate "/" cs)
      rw [String.empty_append, hcomponents] at hroot
      exact ⟨[""], by decide, hroot⟩
  | false =>
      refine ⟨[], nofun, ?_⟩
      rw [ofComponents, if_neg Bool.false_ne_true, if_neg hne, hcomponents]
      rfl

/-- Clean components are those of the path made of them. -/
theorem Cleaned.cleanComponents_ofComponents (h : Cleaned rooted cs) :
    cleanComponents (ofComponents rooted cs) = cs := by
  obtain ⟨idle, hidle, hcomponents⟩ := h.components_ofComponents
  rw [cleanComponents, h.isAbsolute_ofComponents, hcomponents,
    List.foldl_append, foldl_push_idle hidle, h.reverse_foldl_push]

/-- A path with clean components is clean. -/
theorem Cleaned.clean_ofComponents (h : Cleaned rooted cs) :
    clean (ofComponents rooted cs) = ofComponents rooted cs := by
  rw [clean_eq, h.isAbsolute_ofComponents, h.cleanComponents_ofComponents]

/-- Cleaning leaves a path absolute or relative. -/
theorem isAbsolute_clean (s : String) :
    isAbsolute (clean s) = isAbsolute s := by
  rw [clean_eq, (cleaned_cleanComponents s).isAbsolute_ofComponents]

/-- **Cleaning twice** is cleaning once. -/
theorem cleanComponents_clean (s : String) :
    cleanComponents (clean s) = cleanComponents s := by
  rw [clean_eq, (cleaned_cleanComponents s).cleanComponents_ofComponents]

/-- **Cleaning a clean path changes nothing.** -/
theorem clean_clean (s : String) : clean (clean s) = clean s := by
  rw [clean_eq, isAbsolute_clean, cleanComponents_clean, ← clean_eq]

/-- Paths from the root are equal once they are clean if their components
are. -/
theorem clean_eq_iff (h : isAbsolute a = isAbsolute b) :
    clean a = clean b ↔ cleanComponents a = cleanComponents b := by
  constructor
  · intro heq
    rw [← cleanComponents_clean a, heq, cleanComponents_clean]
  · intro heq
    rw [clean_eq, clean_eq, h, heq]

theorem clean_ne_empty (s : String) : clean s ≠ "" := by
  intro h
  have hroot := isAbsolute_clean s
  have hcomponents := cleanComponents_clean s
  rw [h] at hroot hcomponents
  have hdot := clean_eq s
  rw [← hroot, ← hcomponents, h] at hdot
  exact absurd hdot (by decide)

/-! ### Paths put together -/

/-- Two paths are joined with a slash. -/
theorem join_pair (ha : a ≠ "") (b : String) :
    join [a, b] = clean (a ++ "/" ++ b) := by
  rw [join, List.dropWhile_cons_of_neg (by simpa using ha)]
  rfl

/-- A joined path is absolute if its first part is. -/
theorem isAbsolute_join (ha : a ≠ "") (b : String) :
    isAbsolute (join [a, b]) = isAbsolute a := by
  rw [join_pair ha, isAbsolute_clean, String.append_assoc, isAbsolute_append ha]

/-- Components behind a path are put on what cleaning leaves of it. -/
theorem cleanComponents_append (ha : a ≠ "") (b : String) :
    cleanComponents (a ++ "/" ++ b) = ((components b).foldl
      (push (isAbsolute a)) (cleanComponents a).reverse).reverse := by
  rw [cleanComponents, components_append, String.append_assoc,
    isAbsolute_append ha,
    List.foldl_append, cleanComponents, List.reverse_reverse]

/-- A name is added to the components. -/
theorem cleanComponents_append_name (ha : a ≠ "") (hc : IsName c) :
    cleanComponents (a ++ "/" ++ c) = cleanComponents a ++ [c] := by
  rw [cleanComponents_append ha, components_eq_singleton hc.plain,
    List.foldl_cons, List.foldl_nil,
    push_name hc, List.reverse_cons, List.reverse_reverse]

/-- It does not matter whether a path is clean before something is put behind
it. -/
theorem clean_clean_append (ha : a ≠ "") (b : String) :
    clean (clean a ++ "/" ++ b) = clean (a ++ "/" ++ b) := by
  have hne := clean_ne_empty a
  have hroot :
      isAbsolute (clean a ++ "/" ++ b) = isAbsolute (a ++ "/" ++ b) := by
    rw [String.append_assoc, String.append_assoc, isAbsolute_append hne,
      isAbsolute_append ha, isAbsolute_clean]
  rw [clean_eq_iff hroot, cleanComponents_append hne, cleanComponents_append ha,
    isAbsolute_clean, cleanComponents_clean]

/-- A slash at the end makes no difference. -/
theorem clean_append_slash (ha : a ≠ "") : clean (a ++ "/") = clean a := by
  have hcomponents := cleanComponents_append ha ""
  rw [String.append_empty] at hcomponents
  rw [clean_eq_iff (isAbsolute_append ha "/"), hcomponents]
  exact List.reverse_reverse _

/-- How many steps up a path begins with once it is clean. -/
def stepsUp (s : String) : Nat :=
  ((cleanComponents s).takeWhile (· = "..")).length

/-- How far a relative path leads up. -/
theorem Leads.stepsUp (h : Leads (components s) n names)
    (hs : isAbsolute s = false) : stepsUp s = n := by
  have hups : ∀ c ∈ List.replicate n "..", decide (c = "..") = true := by
    intro c hc
    rw [List.eq_of_mem_replicate hc]
    rfl
  have hnames : names.takeWhile (· = "..") = [] := by
    cases names with
    | nil => rfl
    | cons c rest =>
        exact List.takeWhile_cons_of_neg
          (by simpa using (h.isName c List.mem_cons_self).ne_dots)
  rw [Path.stepsUp, h.cleanComponents, hs, if_neg Bool.false_ne_true,
    List.takeWhile_append_of_pos hups, hnames, List.append_nil]
  exact List.length_replicate

/-- **Steps up take back names** of a path from the root, and the names behind
them stay. -/
theorem cleanComponents_join (ha : isAbsolute a = true)
    (hb : isAbsolute b = false) :
    cleanComponents (join [a, b]) = (cleanComponents a).rdrop (stepsUp b) ++
    (cleanComponents b).drop (stepsUp b) := by
  have hne := ne_empty_of_isAbsolute ha
  obtain ⟨n, names, h⟩ :=
    exists_leads fun c (hc : c ∈ components b) => slash_notMem hc
  have hbase : ∀ c ∈ (cleanComponents a).reverse, IsName c := by
    obtain ⟨k, base, hcomponents, hnames, hk⟩ := cleaned_cleanComponents a
    rw [hcomponents, hk ha]
    exact fun c hc => hnames c (List.mem_reverse.mp hc)
  rw [join_pair hne, cleanComponents_clean, cleanComponents_append hne, ha,
    h.foldl_push_names hbase, List.reverse_append, List.reverse_reverse,
    h.stepsUp hb, List.rdrop_eq_reverse_drop_reverse, h.cleanComponents, hb,
    if_neg Bool.false_ne_true, List.drop_left' List.length_replicate]

/-- Two directories are no longer told apart from where enough steps have been
taken up. -/
theorem join_agree_iff (ha : isAbsolute a = true) (hb : isAbsolute b = true)
    (hs : isAbsolute s = false) :
    join [a, s] = join [b, s] ↔ (cleanComponents a).rdrop (stepsUp s) =
    (cleanComponents b).rdrop (stepsUp s) := by
  have hne := ne_empty_of_isAbsolute ha
  have hne' := ne_empty_of_isAbsolute hb
  have hroot : isAbsolute (a ++ "/" ++ s) = isAbsolute (b ++ "/" ++ s) := by
    rw [String.append_assoc, String.append_assoc, isAbsolute_append hne,
      isAbsolute_append hne', ha, hb]
  rw [join_pair hne, join_pair hne', clean_eq_iff hroot,
    ← cleanComponents_clean, ← cleanComponents_clean (b ++ "/" ++ s),
    ← join_pair hne, ← join_pair hne', cleanComponents_join ha hs,
    cleanComponents_join hb hs, List.append_left_inj]

/-! ### Directories -/

/-- What stands behind the last slash is not in the front of a path. -/
theorem front_append (a : String) (hb : '/' ∉ b.toList) :
    front (a ++ b) = front a := by
  have hskip : ∀ x ∈ b.toList.reverse, decide (x ≠ '/') = true := by
    intro x hx
    rw [decide_eq_true_iff]
    rintro rfl
    exact hb (List.mem_reverse.mp hx)
  rw [front, front, String.toList_append, List.reverse_append,
    List.dropWhile_append_of_pos hskip]

/-- What is in front of the last slash. -/
theorem front_append_slash (a : String) : front (a ++ "/") = a ++ "/" := by
  rw [front, String.toList_append]
  change String.ofList
    ((a.toList ++ ['/']).reverse.dropWhile (· ≠ '/')).reverse = _
  rw [List.reverse_append, List.reverse_singleton, List.singleton_append,
    List.dropWhile_cons_of_neg (by decide), List.reverse_cons,
    List.reverse_reverse, String.ofList_append, String.ofList_toList]

/-- Nothing is in front of a plain name. -/
theorem front_of_plain (hs : '/' ∉ s.toList) : front s = "" := by
  have h := front_append "" hs
  rwa [String.empty_append] at h

/-- A path is its front and what stands behind the last slash. -/
theorem exists_front (s : String) :
    ∃ last, s = front s ++ last ∧ '/' ∉ last.toList ∧
      (front s = "" ∨ ∃ d, front s = d ++ "/") := by
  by_cases hs : '/' ∈ s.toList
  · obtain ⟨a, b, hab, hb⟩ :=
      List.eq_append_cons_of_mem (List.mem_reverse.mpr hs)
    have hlist : s.toList = b.reverse ++ '/' :: a.reverse := by
      rw [← List.reverse_reverse s.toList, hab, List.reverse_append,
        List.reverse_cons]
      simp
    have heq :
        s = String.ofList b.reverse ++ "/" ++ String.ofList a.reverse := by
      rw [String.ext_iff, hlist]
      simp
    have hlast : '/' ∉ (String.ofList a.reverse).toList := by
      rw [String.toList_ofList, List.mem_reverse]
      exact hb
    have hfront : front s = String.ofList b.reverse ++ "/" := by
      rw [heq, front_append _ hlast, front_append_slash]
    exact ⟨_, by rw [hfront]; exact heq, hlast, .inr ⟨_, hfront⟩⟩
  · exact ⟨s, by rw [front_of_plain hs, String.empty_append], hs,
      .inl (front_of_plain hs)⟩

/-- **A name at the end of a path stands in its directory.** -/
theorem Cleaned.dir_ofComponents (hcs : Cleaned rooted cs) (hc : IsName c) :
    dir (ofComponents rooted (cs ++ [c])) = ofComponents rooted cs := by
  by_cases hne : cs = []
  · subst hne
    rw [dir, List.nil_append]
    cases rooted with
    | true =>
        rw [show ofComponents true [c] = "" ++ "/" ++ c from rfl,
          front_append _ hc.plain, front_append_slash]
        decide
    | false =>
        rw [show ofComponents false [c] = c from rfl, front_of_plain hc.plain]
        decide
  · have happend : ofComponents rooted (cs ++ [c]) = ofComponents rooted cs ++
        "/" ++ c := by
      rw [ofComponents, ofComponents, intercalate_concat hne, if_neg hne,
        if_neg (List.append_ne_nil_of_right_ne_nil cs (List.cons_ne_nil c []))]
      cases rooted with
      | true => simp only [if_true, String.append_assoc]
      | false => rfl
    have hfull : ofComponents rooted cs ≠ "" := by
      rw [← hcs.clean_ofComponents]
      exact clean_ne_empty _
    rw [dir, happend, front_append _ hc.plain, front_append_slash,
      clean_append_slash hfull, hcs.clean_ofComponents]

/-- The directory of a name in a directory. -/
theorem dir_clean_append (ha : a ≠ "") (hc : IsName c) :
    dir (clean (a ++ "/" ++ c)) = clean a := by
  have hroot : isAbsolute (a ++ "/" ++ c) = isAbsolute a := by
    rw [String.append_assoc, isAbsolute_append ha]
  rw [clean_eq, cleanComponents_append_name ha hc, hroot,
    (cleaned_cleanComponents a).dir_ofComponents hc, clean_eq]

end Path

end Bytecode
