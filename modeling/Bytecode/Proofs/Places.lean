import Mathlib
import Bytecode.Proofs.CodeList
import Bytecode.Workspace

/-!
# Places in a workspace

Where a path leads is known from its components alone: the tree only decides
whether anything on the way is missing or in the way (`FileTree.locate_eq`).  So
two paths that lead to one place can be told before anything has been written.

Writing to a path and taking away what is there change the contents of its place
only, and making directories changes no contents at all.  As no directory is
ever taken away, a path that could be followed once can be followed from then
on.  `ChangesOnly` says both, and is what commands are shown to keep.  Main
statement: `Workspace.ChangesOnly.find_file`, what is found at a path later on.
-/

namespace Bytecode

/-! ### Where paths lead -/

namespace Place

/-- Where one component leads. -/
def step (here : Place) (c : String) : Place :=
  if c = "" || c = "." then here
  else if c = ".." then here.dropLast
  else here ++ [c]

/-- Where a path leads from the directory `cwd`. -/
def ofPath (cwd : Place) (path : String) : Place :=
  (Path.components path).foldl step (if Path.isAbsolute path then [] else cwd)

/-- The path of a place, from the root. -/
def text (p : Place) : String := "/" ++ String.intercalate "/" p

end Place

namespace FileTree

variable {t u v : FileTree} {here p q cwd : Place} {path : String}
  {bytes : List UInt8} {F G : Place → Prop}

/-- Without links a path leads to the place its components spell. -/
theorem follow_eq {cs : List String} (h : t.follow here cs = .ok p) :
    p = cs.foldl Place.step here := by
  induction cs generalizing here with
  | nil => exact (Except.ok.inj h).symm
  | cons c rest ih =>
      rw [follow] at h
      rw [List.foldl_cons, Place.step]
      split at h
      · cases h
      · cases h
      · split at h
        · next hsame =>
            rw [if_pos hsame]
            exact ih h
        · next hsame =>
            rw [if_neg hsame]
            split at h
            · next hup =>
                rw [if_pos hup]
                exact ih h
            · next hup =>
                rw [if_neg hup]
                split at h
                · cases h
                · exact ih h

/-- **A path leads where its components lead.** -/
theorem locate_eq (h : t.locate cwd path = .ok p) :
    p = Place.ofPath cwd path := by
  rw [locate] at h
  split at h
  · cases h
  · split at h
    · cases h
    · split at h
      · cases h
      · exact follow_eq h

/-- Directories of one tree are directories of the other. -/
def Roots (t u : FileTree) : Prop :=
  ∀ q, t.node? q = some .directory → u.node? q = some .directory

/-- A tree with the same directories follows every path to the same place. -/
theorem Roots.follow (h : t.Roots u) {cs : List String}
    (hp : t.follow here cs = .ok p) : u.follow here cs = .ok p := by
  induction cs generalizing here with
  | nil => exact hp
  | cons c rest ih =>
      rw [FileTree.follow] at hp ⊢
      split at hp
      · cases hp
      · cases hp
      · next hnode =>
          simp only [h here hnode]
          split at hp
          · next hsame => rw [if_pos hsame]; exact ih hp
          · next hsame =>
              rw [if_neg hsame]
              split at hp
              · next hup => rw [if_pos hup]; exact ih hp
              · next hup =>
                  rw [if_neg hup]
                  split at hp
                  · cases hp
                  · next hshort => rw [if_neg hshort]; exact ih hp

/-- A path that can be followed can be followed in a tree with more
directories. -/
theorem Roots.locate (h : t.Roots u) (hp : t.locate cwd path = .ok p) :
    u.locate cwd path = .ok p := by
  rw [FileTree.locate] at hp ⊢
  split at hp
  · cases hp
  · next hplain =>
      rw [if_neg hplain]
      split at hp
      · cases hp
      · next hempty =>
          rw [if_neg hempty]
          split at hp
          · cases hp
          · next hlong =>
              rw [if_neg hlong]
              exact h.follow hp

/-! ### Contents -/

/-- What the file at a place contains, if there is one. -/
def contents (t : FileTree) (q : Place) : Option (List UInt8) :=
  match t.node? q with
  | some (.file bytes) => some bytes
  | _ => none

/-- A place has contents exactly if a file is there. -/
theorem contents_eq_some :
    t.contents q = some bytes ↔ t.node? q = some (.file bytes) := by
  rw [contents]
  split
  · next h => simp [h]
  · next hno => exact ⟨fun h => (by cases h), fun h => absurd h (hno bytes)⟩

/-- The second tree has the contents of the first, but for places in `F`, and
its directories. -/
structure ChangesOnly (F : Place → Prop) (t u : FileTree) : Prop where
  contents : ∀ q, ¬ F q → u.contents q = t.contents q
  roots : t.Roots u

/-- A tree that is left as it is has changed nowhere. -/
theorem ChangesOnly.refl (t : FileTree) : t.ChangesOnly F t :=
  ⟨fun _ _ => rfl, fun _ h => h⟩

/-- Changes in a region add up to changes in the region. -/
theorem ChangesOnly.trans (h : t.ChangesOnly F u) (h' : u.ChangesOnly F v) :
    t.ChangesOnly F v :=
  ⟨fun q hq => (h'.contents q hq).trans (h.contents q hq),
    fun q hq => h'.roots q (h.roots q hq)⟩

/-- They are changes in any larger region too. -/
theorem ChangesOnly.mono (h : t.ChangesOnly F u) (hFG : ∀ q, F q → G q) :
    t.ChangesOnly G u :=
  ⟨fun q hq => h.contents q fun hF => hq (hFG q hF), h.roots⟩

/-- At the root there is always a directory. -/
theorem ne_root_of_node? (hfree : t.node? p ≠ some .directory) : p ≠ [] := by
  rintro rfl
  exact hfree rfl

/-- What was put at a place is there. -/
theorem node?_put_self (n : Node) (hp : p ≠ []) :
    (t.put p n).node? p = some n := by
  simp [node?, put, hp]

/-- Nothing has changed elsewhere. -/
theorem node?_put_of_ne (n : Node) (hq : q ≠ p) :
    (t.put p n).node? q = t.node? q := by
  have hbeq : (q == p) = false := by simpa using hq
  rw [node?, node?, put]
  simp only [List.lookup_cons, hbeq, lookup_filter_ne, if_neg hq]

/-- A place is given contents. -/
theorem changesOnly_put_file (hfree : t.node? p ≠ some .directory)
    (bytes : List UInt8) : t.ChangesOnly (· = p) (t.put p (.file bytes)) where
  contents := by
    intro q hq
    rw [contents, contents, node?_put_of_ne _ hq]
  roots := by
    intro q hnode
    have hq : q ≠ p := fun hq => hfree (hq ▸ hnode)
    rw [node?_put_of_ne _ hq, hnode]

/-- A directory is made where nothing was. -/
theorem changesOnly_put_directory (hfree : t.node? p = none) :
    t.ChangesOnly F (t.put p .directory) := by
  have hp : p ≠ [] := ne_root_of_node? (t := t) (by simp [hfree])
  constructor
  · intro q _
    by_cases hq : q = p
    · subst hq
      rw [contents, contents, node?_put_self _ hp, hfree]
    · rw [contents, contents, node?_put_of_ne _ hq]
  · intro q hnode
    have hq : q ≠ p := by
      rintro rfl
      rw [hfree] at hnode
      cases hnode
    rw [node?_put_of_ne _ hq, hnode]

/-! ### Changes of a tree -/

/-- A file can be written where a path leads unless a directory is there. -/
theorem store_inv (h : t.store cwd path bytes = .ok u) :
    t.locate cwd path = .ok (Place.ofPath cwd path) ∧
      t.node? (Place.ofPath cwd path) ≠ some .directory ∧
      u = t.put (Place.ofPath cwd path) (.file bytes) := by
  rw [store] at h
  cases hp : t.locate cwd path with
  | error c =>
      rw [hp] at h
      cases h
  | ok p =>
      obtain rfl := locate_eq hp
      simp only [hp, bind, Except.bind] at h
      split at h
      · cases h
      · next hfree => exact ⟨rfl, hfree, (Except.ok.inj h).symm⟩

/-- **A file is written** at the place that its path leads to. -/
theorem changesOnly_store (h : t.store cwd path bytes = .ok u) :
    t.ChangesOnly (· = Place.ofPath cwd path) u ∧
      u.contents (Place.ofPath cwd path) = some bytes ∧
      ∃ p, u.locate cwd path = .ok p := by
  obtain ⟨hp, hfree, rfl⟩ := store_inv h
  have honly := changesOnly_put_file hfree bytes
  exact ⟨honly, contents_eq_some.mpr
    (node?_put_self _ (ne_root_of_node? hfree)), _, honly.roots.locate hp⟩

/-- A file is taken away. -/
theorem changesOnly_remove (t : FileTree) (cwd : Place) (path : String) :
    t.ChangesOnly (· = Place.ofPath cwd path) (t.remove cwd path) := by
  rw [remove]
  cases hp : t.locate cwd path with
  | error c => exact .refl t
  | ok p =>
      obtain rfl := locate_eq hp
      simp only
      split
      · next bytes hfile =>
          have hother : ∀ q, q ≠ Place.ofPath cwd path → node? ⟨t.nodes.filter
              fun e => e.1 ≠ Place.ofPath cwd path⟩ q = t.node? q := by
            intro q hq
            rw [node?, node?]
            simp only [lookup_filter_ne, if_neg hq]
          refine ⟨fun q hq => by rw [contents, contents, hother q hq],
            fun q hq => ?_⟩
          have hne : q ≠ Place.ofPath cwd path := by
            rintro rfl
            rw [hfile] at hq
            cases hq
          rw [hother q hne, hq]
      · exact .refl t

/-- A directory is there already, or it is made where nothing was. -/
theorem ensureDirectory_inv (h : t.ensureDirectory cwd path = .ok u) :
    u = t ∨ t.node? (Place.ofPath cwd path) = none ∧
    u = t.put (Place.ofPath cwd path) .directory := by
  rw [ensureDirectory] at h
  simp only at h
  split at h
  · cases h
  · next p hp =>
      obtain rfl := locate_eq hp
      split at h
      · exact .inl (Except.ok.inj h).symm
      · cases h
      · next hfree => exact .inr ⟨hfree, (Except.ok.inj h).symm⟩

/-- Directories are made one after the other. -/
theorem makeDirectories_induction {R : FileTree → FileTree → Prop}
    (hrefl : ∀ t, R t t) (htrans : ∀ {t u v}, R t u → R u v → R t v)
    (hstep : ∀ s ∈ stations path, ∀ {t u}, t.ensureDirectory cwd s = .ok u →
      R t u) (h : t.makeDirectories cwd path = .ok u) : R t u := by
  rw [makeDirectories] at h
  generalize stations path = ps at h hstep
  induction ps generalizing t with
  | nil =>
      obtain rfl := Except.ok.inj h
      exact hrefl t
  | cons p ps ih =>
      rw [List.foldlM_cons] at h
      cases hp : t.ensureDirectory cwd p with
      | error e =>
          rw [hp] at h
          cases h
      | ok v =>
          rw [hp] at h
          exact htrans (hstep p List.mem_cons_self hp)
            (ih h fun s hs => hstep s (List.mem_cons_of_mem p hs))

/-- Making directories changes no contents. -/
theorem changesOnly_makeDirectories (h : t.makeDirectories cwd path = .ok u) :
    t.ChangesOnly F u := by
  refine makeDirectories_induction .refl .trans (fun s _ t u hmade => ?_) h
  rcases ensureDirectory_inv hmade with rfl | ⟨hfree, rfl⟩
  · exact .refl u
  · exact changesOnly_put_directory hfree

end FileTree

/-! ### Changes of a workspace -/

namespace Workspace

variable {w w' w'' : Workspace} {path : String} {bytes bytes' : List UInt8}
  {F G : Place → Prop}

/-- The contents of a workspace change at places in `F` only, and its
directories stay. -/
structure ChangesOnly (F : Place → Prop) (w w' : Workspace) : Prop where
  cwd : w'.cwd = w.cwd
  files : w.files.ChangesOnly F w'.files

/-- A workspace that is left as it is has changed nowhere. -/
theorem ChangesOnly.refl (w : Workspace) : w.ChangesOnly F w :=
  ⟨rfl, .refl w.files⟩

/-- Changes of a workspace add up. -/
theorem ChangesOnly.trans (h : w.ChangesOnly F w') (h' : w'.ChangesOnly F w'') :
    w.ChangesOnly F w'' :=
  ⟨h'.cwd.trans h.cwd, h.files.trans h'.files⟩

/-- They are changes in any larger region too. -/
theorem ChangesOnly.mono (h : w.ChangesOnly F w') (hFG : ∀ q, F q → G q) :
    w.ChangesOnly G w' :=
  ⟨h.cwd, h.files.mono hFG⟩

/-- The place that a path leads to. -/
def placeOf (w : Workspace) (path : String) : Place := Place.ofPath w.cwd path

/-- Files are still found in the same places. -/
theorem ChangesOnly.placeOf (h : w.ChangesOnly F w') (path : String) :
    w'.placeOf path = w.placeOf path := by
  rw [Workspace.placeOf, Workspace.placeOf, h.cwd]

/-- A file is found where a path leads, if it can be followed. -/
theorem find_eq_file : w.find path = .file bytes ↔
    (∃ p, w.files.locate w.cwd path = .ok p) ∧
      w.files.contents (w.placeOf path) = some bytes := by
  rw [find]
  cases hp : w.files.locate w.cwd path with
  | error c => cases c <;> simp
  | ok p =>
      obtain rfl := FileTree.locate_eq hp
      rw [FileTree.contents_eq_some, placeOf]
      simp only [Except.ok.injEq, exists_eq', true_and]
      split
      · next h => simp [h]
      · next h => simp [h]
      · next bytes' h => simp [h]

/-- **What is found later** at a path where a file has been found once. -/
theorem ChangesOnly.find_file (h : w.ChangesOnly F w')
    (hfile : w.find path = .file bytes) : w'.find path = .file bytes' ↔
    w'.files.contents (w.placeOf path) = some bytes' := by
  obtain ⟨⟨p, hp⟩, -⟩ := find_eq_file.mp hfile
  rw [find_eq_file, h.placeOf, h.cwd]
  exact and_iff_right ⟨p, h.files.roots.locate hp⟩

/-- A file at a place that is not changed is found later on. -/
theorem ChangesOnly.find_kept (h : w.ChangesOnly F w')
    (hfile : w.find path = .file bytes) (hfree : ¬ F (w.placeOf path)) :
    w'.find path = .file bytes :=
  (h.find_file hfile).mpr
    ((h.files.contents _ hfree).trans (find_eq_file.mp hfile).2)

/-- Writing to a path changes what its place contains. -/
theorem changesOnly_store (w : Workspace) (path : String) (bytes : List UInt8) :
    w.ChangesOnly (· = w.placeOf path) (w.store path bytes).2 := by
  rw [store]
  split
  · next files h => exact ⟨rfl, (FileTree.changesOnly_store h).1⟩
  · exact .refl w

/-- What has been written to a path is found there. -/
theorem find_store {a : Unit} (h : w.store path bytes = (.ok a, w')) :
    w'.find path = .file bytes := by
  rw [store] at h
  split at h
  · next files hfiles =>
      obtain rfl := (Prod.mk.inj h).2
      obtain ⟨-, hcontents, hp⟩ := FileTree.changesOnly_store hfiles
      exact find_eq_file.mpr ⟨hp, hcontents⟩
  · cases (Prod.mk.inj h).1

/-- Making directories touches no file. -/
theorem changesOnly_makeDirectories (w : Workspace) (path : String) :
    w.ChangesOnly F (w.makeDirectories path).2 := by
  rw [makeDirectories]
  split
  · next files h => exact ⟨rfl, FileTree.changesOnly_makeDirectories h⟩
  · exact .refl w

/-- Removing a file touches that file only. -/
theorem changesOnly_remove (w : Workspace) (path : String) :
    w.ChangesOnly (· = w.placeOf path)
      { w with files := w.files.remove w.cwd path } :=
  ⟨rfl, FileTree.changesOnly_remove w.files w.cwd path⟩

end Workspace

/-! ### Logs -/

namespace Log

variable {log : Log} {w w' : Workspace} {F : Place → Prop}

/-- All that is new or different is a file at the place of the log, where there
was no directory. -/
structure Touches (log : Log) (w w' : Workspace) : Prop where
  cwd : w'.cwd = w.cwd
  files : ∀ q, w'.files.node? q = w.files.node? q ∨ log.hasFile = true ∧
    q = w.placeOf log.path ∧ w.files.node? q ≠ some .directory ∧
    ∃ bytes, w'.files.node? q = some (.file bytes)

/-- Nothing is touched when nothing is done. -/
theorem Touches.refl (log : Log) (w : Workspace) : log.Touches w w :=
  ⟨rfl, fun _ => .inl rfl⟩

/-- Writing the file of a log touches that file. -/
theorem touches_store (hfile : log.hasFile = true) (bytes : List UInt8)
    (w : Workspace) : log.Touches w (w.store log.path bytes).2 := by
  rw [Workspace.store]
  split
  · next files h =>
      obtain ⟨-, hfree, rfl⟩ := FileTree.store_inv h
      refine ⟨rfl, fun q => ?_⟩
      by_cases hq : q = w.placeOf log.path
      · subst hq
        exact .inr ⟨hfile, rfl, hfree, bytes,
          FileTree.node?_put_self _ (FileTree.ne_root_of_node? hfree)⟩
      · exact .inl (FileTree.node?_put_of_ne _ hq)
  · exact .refl log w

variable {α β : Type} {x : StateM Workspace α} {f : α → StateM Workspace β}

/-- What is done first leaves the workspace as it is. -/
theorem touches_look (hx : (x w).2 = w) (hf : ∀ a, log.Touches w (f a w).2) :
    log.Touches w ((x >>= f) w).2 := by
  change log.Touches w (f (x w).1 (x w).2).2
  rw [hx]
  exact hf _

/-- What is done then leaves the workspace as it is. -/
theorem touches_first (hx : log.Touches w (x w).2) (hf : ∀ a w, (f a w).2 = w) :
    log.Touches w ((x >>= f) w).2 := by
  change log.Touches w (f (x w).1 (x w).2).2
  rw [hf]
  exact hx

/-- What touches a log only changes the contents of its place only. -/
theorem Touches.changesOnly (h : log.Touches w w')
    (hlog : log.hasFile = true → F (w.placeOf log.path)) :
    w.ChangesOnly F w' where
  cwd := h.cwd
  files := by
    refine ⟨fun q hq => ?_, fun q hq => ?_⟩
    · rcases h.files q with hsame | ⟨hfile, rfl, -⟩
      · rw [FileTree.contents, FileTree.contents, hsame]
      · exact absurd (hlog hfile) hq
    · rcases h.files q with hsame | ⟨-, -, hfree, -⟩
      · rw [hsame, hq]
      · exact absurd hq hfree

end Log

/-- A logger that changes nothing in a workspace but the file of the log. -/
class Logger.Lawful [Logger (StateM Workspace)] : Prop where
  prepare : ∀ (log : Log) (w : Workspace), log.Touches w
    ((Logger.prepare log : StateM Workspace (Except Fault Unit)) w).2
  write : ∀ (log : Log) (s : Severity) (message : String) (w : Workspace),
    log.Touches w ((Logger.write log s message : StateM Workspace Unit) w).2

instance : Logger.Lawful where
  prepare log w := by
    change log.Touches w
      ((Log.prepare log : StateM Workspace (Except Fault Unit)) w).2
    rw [Log.prepare]
    split
    · next hfile =>
        refine Log.touches_look rfl fun found => ?_
        cases found with
        | missing =>
            exact Log.touches_first (Log.touches_store hfile [] w) fun r w => by
              cases r <;> rfl
        | _ => exact .refl log w
    · exact .refl log w
  write log s message w := by
    change log.Touches w ((Log.write log s message : StateM Workspace Unit) w).2
    rw [Log.write]
    split
    · next htells =>
        have hfile := (Bool.and_eq_true_iff.mp htells).1
        refine Log.touches_look rfl fun found => ?_
        cases found with
        | file bytes =>
            exact Log.touches_first (Log.touches_store hfile _ w) fun _ _ => rfl
        | _ => exact .refl log w
    · exact .refl log w

end Bytecode
