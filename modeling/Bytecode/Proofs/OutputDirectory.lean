import Mathlib
import Bytecode.Proofs.CleanPaths
import Bytecode.Proofs.KeptApart

/-!
# The output directory

The result of an input is written to a file that is named after the assembly.
Nothing keeps this name from being a path itself, so that the result may go
elsewhere than to the directory that has been chosen, as in `leaves_directory`.
`Output.dir_path` says where it goes: to where what stands in front of the last
slash of the name leads from the chosen directory.

Optimising an input touches nothing else but its log: what the tree `Adds` is
the one file of the result, directly in its directory, and directories on the
way there.  So all stays in the chosen directory if the name of the assembly is
not a path.  Main statement: `Command.stays_in_directory`.
-/

namespace Bytecode

/-! ### Where clean paths lead -/

/-- The directories that lead to a path are beginnings of it. -/
theorem FileTree.exists_take_of_mem_stations {path s : String}
    (h : s ∈ FileTree.stations path) :
    ∃ j, Path.components s = (Path.components path).take j ∧
      Path.isAbsolute s = Path.isAbsolute path := by
  rw [stations] at h
  obtain ⟨n, hn, rfl⟩ := List.mem_map.mp h
  obtain ⟨hlt, hfull⟩ := List.mem_filter.mp hn
  rw [List.mem_range] at hlt
  rw [List.getElem?_eq_getElem hlt, Option.any_some, decide_eq_true_iff]
    at hfull
  have hcomponents : Path.components
      (String.intercalate "/" ((Path.components path).take (n + 1))) =
      (Path.components path).take (n + 1) := by
    refine Path.components_intercalate (fun hnil => ?_) fun c hc =>
      Path.slash_notMem (List.mem_of_mem_take hc)
    rw [List.take_eq_nil_iff] at hnil
    rcases hnil with hnil | hnil
    · cases hnil
    · rw [hnil] at hlt
      exact absurd hlt (Nat.not_lt_zero n)
  refine ⟨n + 1, hcomponents, ?_⟩
  -- the last component is not empty, so that it is not just the one in front of
  -- the first slash
  rw [Bool.eq_iff_iff, Path.isAbsolute_iff_components,
    Path.isAbsolute_iff_components, hcomponents]
  generalize Path.components path = cs at hlt hfull
  rcases cs with - | ⟨c, - | ⟨d, rest⟩⟩
  · exact absurd hlt (Nat.not_lt_zero n)
  · simp
  · cases n with
    | zero =>
        simp at hfull
        simp [hfull]
    | succ n => simp

namespace Place

variable {cwd here : Place} {cs names : List String} {c s x : String} {n : Nat}
  {rooted : Bool}

/-- Empty components and dots lead nowhere. -/
theorem step_idle (hc : c = "" ∨ c = ".") : step here c = here := by
  rw [step, if_pos (by simpa using hc)]

/-- A name leads into a directory. -/
theorem step_name (hc : Path.IsName c) : step here c = here ++ [c] := by
  rw [step, if_neg (by simp [hc.ne_empty, hc.ne_dot]), if_neg hc.ne_dots]

/-- Two dots lead out of a directory. -/
theorem step_up (here : Place) : step here ".." = here.dropLast := by
  rw [step, if_neg (by decide), if_pos rfl]

/-- All of them together lead nowhere. -/
theorem foldl_step_idle (hcs : ∀ c ∈ cs, c = "" ∨ c = ".") :
    cs.foldl step here = here := by
  induction cs with
  | nil => rfl
  | cons c rest ih =>
      rw [List.foldl_cons, step_idle (hcs c List.mem_cons_self),
        ih fun d hd => hcs d (List.mem_cons_of_mem c hd)]

/-- A path leads up first and through names then. -/
theorem foldl_step (h : Path.Leads cs n names) (here : Place) :
    cs.foldl step here = here.rdrop n ++ names := by
  induction h with
  | start => simp
  | idle _ hc ih => rw [List.foldl_concat, ih, step_idle hc]
  | name _ hc ih => rw [List.foldl_concat, ih, step_name hc, List.append_assoc]
  | back _ ih => rw [List.foldl_concat, ih, step_up, ← List.append_assoc,
      List.dropLast_concat]
  | @up _ n _ ih =>
      rw [List.foldl_concat, ih, step_up, List.append_nil, List.append_nil,
        List.rdrop, List.rdrop,
        List.dropLast_eq_take, List.take_take, List.length_take]
      congr 1
      omega

/-- A path leads up from the directory where it starts, and from there on
through its names. -/
theorem ofPath_eq (cwd : Place) (s : String) : ofPath cwd s =
    if Path.isAbsolute s then Path.cleanComponents s
    else cwd.rdrop (Path.stepsUp s) ++
           (Path.cleanComponents s).drop (Path.stepsUp s) := by
  obtain ⟨n, names, h⟩ :=
    Path.exists_leads fun c (hc : c ∈ Path.components s) => Path.slash_notMem hc
  rw [ofPath, foldl_step h, h.cleanComponents]
  cases hroot : Path.isAbsolute s with
  | true => simp [List.rdrop]
  | false =>
      rw [h.stepsUp hroot]
      simp

/-- A clean path leads to the same place. -/
theorem ofPath_clean (cwd : Place) (s : String) :
    ofPath cwd (Path.clean s) = ofPath cwd s := by
  rw [ofPath_eq, ofPath_eq, Path.isAbsolute_clean, Path.stepsUp,
    Path.cleanComponents_clean]
  rfl

/-- A name in a directory leads into it. -/
theorem ofPath_append_name (ha : s ≠ "") (hc : Path.IsName c) :
    ofPath cwd (s ++ "/" ++ c) = ofPath cwd s ++ [c] := by
  rw [ofPath, Path.components_append, String.append_assoc,
    Path.isAbsolute_append ha, List.foldl_append,
    Path.components_eq_singleton hc.plain, List.foldl_cons, List.foldl_nil,
    step_name hc]
  rfl

/-- From clean components, one leads on the way to the last or back from the
first. -/
theorem foldl_step_take (hcs : Path.Cleaned rooted cs) (here : Place)
    (j : Nat) : (cs.take j).foldl step here <+: here ∨
    (cs.take j).foldl step here <+: cs.foldl step here := by
  obtain ⟨n, names, rfl, hnames, -⟩ := hcs
  rw [foldl_step (Path.leads_names n hnames), List.take_append,
    List.take_replicate, List.length_replicate, foldl_step
    (Path.leads_names _ fun c hc => hnames c (List.mem_of_mem_take hc))]
  -- the steps up lead back, the names behind them lead on
  rcases le_total j n with h | h
  · rw [Nat.sub_eq_zero_of_le h, List.take_zero, List.append_nil]
    exact .inl (List.take_prefix _ _)
  · rw [Nat.min_eq_right h]
    exact .inr ((List.prefix_append_right_inj _).mpr (List.take_prefix _ _))

/-- **The stations of a clean path** are on the way to where it leads, or back
from where it starts. -/
theorem ofPath_station (h : s ∈ FileTree.stations (Path.clean x)) :
    ofPath cwd s <+: ofPath cwd (Path.clean x) ∨ ofPath cwd s <+: cwd := by
  obtain ⟨j, hcomponents, hroot⟩ := FileTree.exists_take_of_mem_stations h
  have hcleaned := Path.cleaned_cleanComponents x
  obtain ⟨idle, hidle, hclean⟩ := hcleaned.components_ofComponents
  rw [← Path.clean_eq] at hclean
  have hstart :
      (if Path.isAbsolute (Path.clean x) then [] else cwd) <+: cwd := by
    split
    · exact List.nil_prefix
    · exact List.prefix_refl cwd
  rw [ofPath, ofPath, hroot, hcomponents, hclean, List.take_append,
    List.foldl_append, List.foldl_append, foldl_step_idle hidle,
    foldl_step_idle fun c hc => hidle c (List.mem_of_mem_take hc)]
  rcases foldl_step_take hcleaned (if Path.isAbsolute (Path.clean x) then []
    else cwd) (j - idle.length) with hback | hway
  · exact .inr (hback.trans hstart)
  · exact .inl hway

end Place

/-! ### What is added to a tree -/

namespace FileTree

variable {t u v : FileTree} {p q cwd : Place} {path : String}
  {bytes : List UInt8} {F D : Place → Prop}

/-- The second tree differs from the first in files at places in `F`, and in
directories at places in `D` where nothing was. -/
def Adds (F D : Place → Prop) (t u : FileTree) : Prop :=
  ∀ q, u.node? q = t.node? q ∨ (F q ∧ ∃ bytes, u.node? q = some (.file bytes)) ∨
    (D q ∧ t.node? q = none ∧ u.node? q = some .directory)

theorem Adds.refl (t : FileTree) : t.Adds F D t := fun _ => .inl rfl

/-- One addition after the other. -/
theorem Adds.trans (h : t.Adds F D u) (h' : u.Adds F D v) : t.Adds F D v := by
  intro q
  rcases h' q with hsame | hfile | ⟨hD, hnone, hmade⟩
  · rw [hsame]
    exact h q
  · exact .inr (.inl hfile)
  · rcases h q with hsame | ⟨-, bytes, hfile⟩ | ⟨-, -, hmade'⟩
    · exact .inr (.inr ⟨hD, hsame ▸ hnone, hmade⟩)
    · exact absurd (hnone.symm.trans hfile) nofun
    · exact absurd (hnone.symm.trans hmade') nofun

/-- A file that is written, or a directory that is made, is an addition. -/
theorem adds_put {n : Node} (hp : p ≠ [])
    (hn : (F p ∧ ∃ bytes, n = .file bytes) ∨
      (D p ∧ t.node? p = none ∧ n = .directory)) : t.Adds F D (t.put p n) := by
  intro q
  by_cases hq : q = p
  · subst hq
    rw [node?_put_self n hp]
    rcases hn with ⟨hF, bytes, rfl⟩ | ⟨hD, hfree, rfl⟩
    · exact .inr (.inl ⟨hF, bytes, rfl⟩)
    · exact .inr (.inr ⟨hD, hfree, rfl⟩)
  · exact .inl (node?_put_of_ne n hq)

/-- A file that is stored is an addition. -/
theorem adds_store (hF : F (Place.ofPath cwd path))
    (h : t.store cwd path bytes = .ok u) : t.Adds F D u := by
  obtain ⟨-, hfree, rfl⟩ := store_inv h
  exact adds_put (ne_root_of_node? hfree) (.inl ⟨hF, bytes, rfl⟩)

/-- Directories are made at the stations of a path. -/
theorem adds_makeDirectories (hD : ∀ s ∈ stations path, D (Place.ofPath cwd s))
    (h : t.makeDirectories cwd path = .ok u) : t.Adds F D u := by
  refine makeDirectories_induction .refl .trans (fun s hs t u hmade => ?_) h
  rcases ensureDirectory_inv hmade with rfl | ⟨hfree, rfl⟩
  · exact .refl u
  · exact adds_put (ne_root_of_node? (t := t) (by simp [hfree]))
      (.inr ⟨hD s hs, hfree, rfl⟩)

end FileTree

/-- What touches a log only adds its file at most. -/
theorem Log.Touches.adds {log : Log} {w w' : Workspace} {F D : Place → Prop}
    (h : log.Touches w w')
    (hlog : log.hasFile = true → F (w.placeOf log.path)) :
    w.files.Adds F D w'.files := by
  intro q
  rcases h.files q with hsame | ⟨hfile, rfl, -, hnew⟩
  · exact .inl hsame
  · exact .inr (.inl ⟨hlog hfile, hnew⟩)

/-! ### Where results go -/

namespace Output

variable {input dir suffix : String} {a : Assembly}

/-- The directory that has been chosen for the result of an input, or that of
the input. -/
def directory (input dir : String) : String :=
  if dir = "" then Path.dir input else Path.clean dir

/-- The directory of a result is clean. -/
theorem clean_directory (input dir : String) :
    Path.clean (directory input dir) = directory input dir := by
  rw [directory]
  split
  · exact Path.clean_clean _
  · exact Path.clean_clean _

/-- A result is in its directory, under its name. -/
theorem path_eq (input : String) (a : Assembly) (dir suffix : String) :
    path input a dir suffix =
    Path.clean (directory input dir ++ "/" ++ fileName a suffix) := by
  rw [path, directory]
  split
  · exact Path.join_pair (Path.clean_ne_empty _) _
  · next hdir => rw [Path.join_pair hdir, Path.clean_clean_append hdir]

/-- A file is named after the assembly: what stands behind the last slash of its
name is the beginning of a name. -/
theorem exists_leaf (hsuffix : '/' ∉ suffix.toList) (a : Assembly) :
    ∃ leaf, Path.IsName leaf ∧
      fileName a suffix = Path.front a.name ++ leaf := by
  obtain ⟨last, hname, hlast, -⟩ := Path.exists_front a.name
  obtain ⟨x, hx, hdot⟩ : ∃ x ∈ a.kind.extension.toList, x ≠ '.' := by
    rw [AssemblyKind.extension]
    split
    · exact ⟨'e', by decide, by decide⟩
    · exact ⟨'d', by decide, by decide⟩
  have hextension : '/' ∉ a.kind.extension.toList := by
    rw [AssemblyKind.extension]
    split <;> decide
  have hpart :
      '/' ∉ (if suffix = "" then defaultSuffix else suffix).toList := by
    split
    · decide
    · exact hsuffix
  refine ⟨last ++ "." ++ (if suffix = "" then defaultSuffix else suffix) ++
    "." ++ a.kind.extension, Path.isName_of_mem ?_ ?_ hdot, ?_⟩
  · simp only [String.toList_append, List.mem_append, not_or]
    exact ⟨⟨⟨⟨hlast, by decide⟩, hpart⟩, by decide⟩, hextension⟩
  · rw [String.toList_append]
    exact List.mem_append_right _ hx
  · rw [fileName]
    nth_rewrite 1 [hname]
    simp only [String.append_assoc]

/-- A result is a name in the directory where it goes. -/
theorem exists_path (hsuffix : '/' ∉ suffix.toList) (input : String)
    (a : Assembly) (dir : String) : ∃ d leaf, d ≠ "" ∧ Path.IsName leaf ∧
      path input a dir suffix = Path.clean (d ++ "/" ++ leaf) ∧ Path.clean d =
      Path.clean (directory input dir ++ "/" ++ Path.front a.name) := by
  obtain ⟨leaf, hleaf, hfile⟩ := exists_leaf hsuffix a
  obtain ⟨-, -, -, hfront⟩ := Path.exists_front a.name
  have hdir : directory input dir ≠ "" :=
    clean_directory input dir ▸ Path.clean_ne_empty _
  rw [path_eq, hfile]
  rcases hfront with hnone | ⟨d, hd⟩
  · refine ⟨directory input dir, leaf, hdir, hleaf, ?_, ?_⟩
    · rw [hnone, String.empty_append]
    · rw [hnone, String.append_empty, Path.clean_append_slash hdir]
  · have hne : directory input dir ++ "/" ++ d ≠ "" := by simp
    refine ⟨directory input dir ++ "/" ++ d, leaf, hne, hleaf, ?_, ?_⟩
    · rw [hd]
      simp only [String.append_assoc]
    · rw [hd, ← Path.clean_append_slash hne]
      simp only [String.append_assoc]

/-- **Where a result goes**: from the chosen directory, to where the front of
the name leads. -/
theorem dir_path (hsuffix : '/' ∉ suffix.toList) (input : String) (a : Assembly)
    (dir : String) : Path.dir (path input a dir suffix) =
    Path.clean (directory input dir ++ "/" ++ Path.front a.name) := by
  obtain ⟨d, leaf, hne, hleaf, hpath, hd⟩ := exists_path hsuffix input a dir
  rw [hpath, Path.dir_clean_append hne hleaf, hd]

/-- A plain name stays in the directory. -/
theorem dir_path_of_plain (hsuffix : '/' ∉ suffix.toList) (input : String)
    (dir : String) (hname : '/' ∉ a.name.toList) :
    Path.dir (path input a dir suffix) = directory input dir := by
  have hdir : directory input dir ≠ "" :=
    clean_directory input dir ▸ Path.clean_ne_empty _
  rw [dir_path hsuffix, Path.front_of_plain hname, String.append_empty,
    Path.clean_append_slash hdir, clean_directory]

/-- The place of a result is directly in its directory. -/
theorem exists_place (cwd : Place) (hsuffix : '/' ∉ suffix.toList)
    (input : String) (a : Assembly) (dir : String) :
    ∃ leaf, Place.ofPath cwd (path input a dir suffix) =
      Place.ofPath cwd (Path.dir (path input a dir suffix)) ++ [leaf] := by
  obtain ⟨d, leaf, hne, hleaf, hpath, -⟩ := exists_path hsuffix input a dir
  refine ⟨leaf, ?_⟩
  rw [hpath, Path.dir_clean_append hne hleaf, Place.ofPath_clean,
    Place.ofPath_append_name hne hleaf, Place.ofPath_clean]

end Output

/-- Optimising a file does not rename its assembly. -/
theorem assembly_of_optimize {c : Config} {input : String} {f g : File}
    {stats : Stats} (h : c.optimize input f = .ok (g, stats)) :
    g.assembly = f.assembly := by
  obtain ⟨passes, -, h⟩ := bind_ok_iff.mp h
  obtain ⟨_, -, h⟩ := bind_ok_iff.mp h
  exact congrArg (fun r => r.1.assembly) (Except.ok.inj h).symm

/-! ### Actions that add to a tree -/

section Adding

variable {m : Type → Type} [Monad m] [Host m] [Logger m]
  [Logger (StateM Workspace)] {κ : Type} [OnWorkspace m κ] {α β : Type}
  {x : ExceptT Fault m α} {f : α → ExceptT Fault m β} {cwd : Place}
  {F D : Place → Prop} {log : Log} {path : String} {k : κ} {w : Workspace}

open OnWorkspace

/-- Whatever comes of the action in the directory `cwd`, it adds files at places
in `F` and directories at places in `D` only. -/
def Adding (cwd : Place) (F D : Place → Prop) (x : ExceptT Fault m α) : Prop :=
  ∀ k w, w.cwd = cwd →
    (act x.run k w).2.cwd = cwd ∧ w.files.Adds F D (act x.run k w).2.files

/-- A result adds nothing. -/
theorem adding_result (r : Except Fault α) :
    Adding cwd F D (ExceptT.mk (pure r) : ExceptT Fault m α) := by
  intro k w hw
  rw [act_result]
  exact ⟨hw, .refl w.files⟩

/-- Nothing is done. -/
theorem adding_pure (a : α) : Adding cwd F D (pure a : ExceptT Fault m α) :=
  adding_result (.ok a)

/-- A failure adds nothing. -/
theorem adding_throw (e : Fault) :
    Adding cwd F D (throw e : ExceptT Fault m α) := adding_result (.error e)

/-- One action that adds after the other. -/
theorem Adding.bind (hx : Adding cwd F D x) (hf : ∀ a, Adding cwd F D (f a)) :
    Adding cwd F D (x >>= f) := by
  intro k w hw
  obtain ⟨hcwd, hadds⟩ := hx k w hw
  rw [act_bind_run]
  split
  · next a _ =>
      obtain ⟨hcwd', hadds'⟩ := hf a (act x.run k w).1.2 _ hcwd
      exact ⟨hcwd', hadds.trans hadds'⟩
  · exact ⟨hcwd, hadds⟩

/-- What has been computed is known of the value that is gone on with. -/
theorem Adding.result_bind {r : Except Fault α}
    (hf : ∀ a, r = .ok a → Adding cwd F D (f a)) :
    Adding cwd F D (ExceptT.mk (pure r) >>= f) := by
  intro k w hw
  rw [act_bind_run, act_result]
  cases r with
  | error e => exact ⟨hw, .refl w.files⟩
  | ok a => exact hf a rfl k w hw

/-- Something is done under a condition only. -/
theorem Adding.guarded {p : Prop} [Decidable p] {y : ExceptT Fault m Unit}
    {f : Unit → ExceptT Fault m β} (hy : Adding cwd F D y)
    (hf : ∀ u, Adding cwd F D (f u)) :
    Adding cwd F D (if p then y >>= f else f ()) := by
  split
  · exact hy.bind hf
  · exact hf ()

/-- A file is written where files may be added. -/
theorem adding_store (hF : F (Place.ofPath cwd path)) (bytes : List UInt8)
    (k : κ) (w : Workspace) (hw : w.cwd = cwd) :
    (act (Host.store path bytes : m _) k w).2.cwd = cwd ∧
    w.files.Adds F D (act (Host.store path bytes : m _) k w).2.files := by
  rw [act_store]
  refine ⟨(w.changesOnly_store path bytes).cwd.trans hw, ?_⟩
  rw [Workspace.store]
  split
  · next files h => exact FileTree.adds_store (hw ▸ hF) h
  · exact .refl w.files

/-- Directories are made where they may be added. -/
theorem adding_makeDirectories
    (hD : ∀ s ∈ FileTree.stations path, D (Place.ofPath cwd s)) : Adding cwd F D
    (ExceptT.mk (Host.makeDirectories path) : ExceptT Fault m Unit) := by
  intro k w hw
  change (act (Host.makeDirectories path : m _) k w).2.cwd = cwd ∧
    w.files.Adds F D (act (Host.makeDirectories path : m _) k w).2.files
  rw [act_makeDirectories]
  refine ⟨(w.changesOnly_makeDirectories (F := F) path).cwd.trans hw, ?_⟩
  rw [Workspace.makeDirectories]
  split
  · next files h => exact FileTree.adds_makeDirectories (hw ▸ hD) h
  · exact .refl w.files

variable [LawfulMonad m]

/-- An action goes on after something that adds nothing else. -/
theorem Adding.lift_bind {y : m α} (hy : ∀ k w, w.cwd = cwd →
      (act y k w).2.cwd = cwd ∧ w.files.Adds F D (act y k w).2.files)
    (hf : ∀ a, Adding cwd F D (f a)) : Adding cwd F D (liftM y >>= f) := by
  intro k w hw
  obtain ⟨hcwd, hadds⟩ := hy k w hw
  rw [act_lift_bind]
  obtain ⟨hcwd', hadds'⟩ := hf (act y k w).1.1 (act y k w).1.2 _ hcwd
  exact ⟨hcwd', hadds.trans hadds'⟩

/-- What an action is part of adds nothing. -/
theorem Adding.during (hx : Adding cwd F D x) (task : String) :
    Adding cwd F D (Fault.duringAction task x) := by
  intro k w hw
  rw [act_during]
  exact hx k w hw

/-! ### Optimising an input -/

/-- Writing an entry adds the file of the log at most. -/
theorem adding_write [Logger.Lawful]
    (hlog : log.hasFile = true → F (Place.ofPath cwd log.path)) (s : Severity)
    (message : String) : Adding cwd F D
    (liftM (Logger.write (m := m) log s message) : ExceptT Fault m Unit) := by
  intro k w hw
  have hact : (act (liftM (Logger.write (m := m) log s message) :
      ExceptT Fault m Unit).run k w).2 =
      ((Logger.write log s message : StateM Workspace Unit) w).2 := by
    change (act (Except.ok <$> Logger.write (m := m) log s message) k w).2 = _
    rw [map_eq_pure_bind, act_bind, act_pure, act_log]
  have htouches := Logger.Lawful.write log s message w
  rw [hact]
  refine ⟨htouches.cwd.trans hw, htouches.adds fun hfile => ?_⟩
  rw [Workspace.placeOf, hw]
  exact hlog hfile

/-- A file is written with the directories that lead to it. -/
theorem adding_writeFile [File.Codec] {g : File}
    (hF : F (Place.ofPath cwd path))
    (hD : ∀ s ∈ FileTree.stations (Path.dir path), D (Place.ofPath cwd s)) :
    Adding cwd F D (Command.writeFile path g : ExceptT Fault m Unit) := by
  rw [Command.writeFile]
  refine ((adding_makeDirectories hD).during _).bind fun _ =>
    .result_bind fun bytes _ => ?_
  refine .lift_bind (adding_store hF bytes) fun r => ?_
  split
  · exact adding_pure ()
  · exact adding_throw _

/-- **Optimising an input** adds to its log, and writes the result of the file
that is read. -/
theorem adds_optimizeFile [Logger.Lawful] [File.Codec] {c : Config}
    {input : String} (hlog : log.hasFile = true → F (w.placeOf log.path))
    (hF : ∀ f, File.ofFound input (w.find input) = .ok f →
      F (w.placeOf (c.outputPath input f)))
    (hD : ∀ f, File.ofFound input (w.find input) = .ok f →
      ∀ s ∈ FileTree.stations (Path.dir (c.outputPath input f)),
      D (w.placeOf s)) :
    w.files.Adds F D (act (Command.optimizeFile log c input :
      ExceptT Fault m Run).run k w).2.files := by
  rw [Command.optimizeFile, act_lift_bind, act_now, Command.readFile,
    bind_assoc, act_lift_bind, act_find]
  have hfind : ({ w with clock := w.clock + 1 } : Workspace).find input =
      w.find input := rfl
  simp only [hfind]
  suffices hrest :
      Adding w.cwd F D _ from (hrest k { w with clock := w.clock + 1 } rfl).2
  refine .result_bind fun f hf => ?_
  refine .guarded (adding_write hlog _ _) fun _ => .result_bind fun r hg => ?_
  obtain ⟨g, stats⟩ := r
  have houtput : c.outputPath input g = c.outputPath input f := by
    rw [Config.outputPath, Config.outputPath, assembly_of_optimize hg]
  refine .guarded (adding_write hlog _ _) fun _ =>
    (adding_write hlog _ _).bind fun _ => ?_
  rw [houtput]
  refine (adding_writeFile (hF f hf) (hD f hf)).bind fun _ =>
    (adding_write hlog _ _).bind fun _ => ?_
  refine .lift_bind (fun k w hw => ?_) fun _ => adding_pure _
  rw [act_freshName]
  exact ⟨hw, .refl w.files⟩

/-- The result of an input is to be written to the path. -/
def Config.SendsTo [File.Codec] (c : Config) (w : Workspace)
    (input output : String) : Prop :=
  ∃ f, File.ofFound input (w.find input) = .ok f ∧ output = c.outputPath input f

namespace Command

/-- **Results stay in a directory**, which is the chosen one unless the name of
an assembly is a path. Whatever comes of optimising an input, all that is new or
different is the log, the result, which is directly in its directory, and
directories on the way there. -/
theorem stays_in_directory [Logger.Lawful] [File.Codec] (log : Log) (c : Config)
    (input : String) (hsuffix : '/' ∉ c.suffix.toList) (k : κ) (w : Workspace) :
    (∀ a : Assembly, Path.dir (Output.path input a c.outputDir c.suffix) =
      Path.clean (Output.directory input c.outputDir ++
        "/" ++ Path.front a.name)) ∧ (∀ a : Assembly, '/' ∉ a.name.toList →
          Path.dir (Output.path input a c.outputDir c.suffix) =
          Output.directory input c.outputDir) ∧
    (∀ output, c.SendsTo w input output →
      ∃ leaf, w.placeOf output = w.placeOf (Path.dir output) ++ [leaf]) ∧
    w.files.Adds (fun q => (log.hasFile = true ∧ q = w.placeOf log.path) ∨
      ∃ output, c.SendsTo w input output ∧ q = w.placeOf output)
    (fun q => ∃ output, c.SendsTo w input output ∧
      (q <+: w.placeOf (Path.dir output) ∨ q <+: w.cwd)) (OnWorkspace.act
        (optimizeFile log c input : ExceptT Fault m Run).run k w).2.files := by
  refine ⟨fun a => Output.dir_path hsuffix input a c.outputDir,
    fun a => Output.dir_path_of_plain hsuffix input c.outputDir,
    fun output hsends => ?_, ?_⟩
  · obtain ⟨f, -, rfl⟩ := hsends
    exact Output.exists_place w.cwd hsuffix input f.assembly c.outputDir
  · exact adds_optimizeFile
      (fun hfile => .inl ⟨hfile, rfl⟩) (fun f hf => .inr ⟨_, ⟨f, hf, rfl⟩, rfl⟩)
      fun f hf s hs => ⟨_, ⟨f, hf, rfl⟩, Place.ofPath_station hs⟩

end Command

end Adding

namespace Command

/-- Two assemblies, one of which has a path for a name. -/
def inputsInside : Workspace where
  files := ⟨[(["in"], .directory),
    (["in", "App.exe"], .file (oneMethod 0 [0x41, 0x70, 0x70] [0x70])), (["in",
      "Up.exe"], .file (oneMethod 0 [0x2e, 0x2e, 0x2f, 0x55, 0x70] [0x70]))]⟩

/-- The configuration with results in `out`. -/
def intoOut : Config := { outDir := "out" }

/-- What is left after an input has been optimised. -/
def afterwards (input : String) : Workspace :=
  ((optimizeFile {} intoOut input : ExceptT Fault (StateM Workspace) Run)
    inputsInside).2

/-- The result of the one with a plain name is all that is new, with the
directory that it is in. -/
theorem stays_in_directory_inputsInside : '/' ∉ intoOut.suffix.toList ∧
    ∀ q, (afterwards "in/App.exe").files.node? q ≠ inputsInside.files.node? q →
      q = ["out"] ∨ ∃ leaf, q = ["out", leaf] := by
  have hsuffix : '/' ∉ intoOut.suffix.toList := by decide
  refine ⟨hsuffix, fun q hq => ?_⟩
  obtain ⟨-, hplain, hplace, hadds⟩ := stays_in_directory
    (m := StateM Workspace) {} intoOut "in/App.exe" hsuffix () inputsInside
  have hname :
      ((File.ofFound "in/App.exe" (inputsInside.find "in/App.exe")).toOption.map
        (·.assembly.name)) = some "App" := by decide +kernel
  have hout : ∀ output, intoOut.SendsTo inputsInside "in/App.exe" output →
      inputsInside.placeOf (Path.dir output) = ["out"] := by
    rintro output ⟨f, hf, houtput⟩
    rw [hf, Except.toOption, Option.map_some, Option.some.injEq] at hname
    rw [houtput, Config.outputPath, hplain f.assembly (hname ▸ by decide)]
    decide +kernel
  rcases hadds q with hsame | ⟨hlog | ⟨output, hsends, rfl⟩, -⟩
    | ⟨⟨output, hsends, hway⟩, hnone, -⟩
  · exact absurd hsame hq
  · exact absurd hlog.1 (by decide)
  · obtain ⟨leaf, hleaf⟩ := hplace output hsends
    exact .inr ⟨leaf, by rw [hleaf, hout output hsends]; rfl⟩
  · have hne : q ≠ [] := by
      rintro rfl
      exact absurd hnone nofun
    rcases hway with hway | hway
    · rw [hout output hsends, ← List.nil_append ["out"], List.prefix_concat_iff]
        at hway
      exact .inl (hway.resolve_right fun hnil => hne (List.prefix_nil.mp hnil))
    · exact absurd (List.prefix_nil.mp hway) hne

/-- The other result is beside the directory. -/
theorem leaves_directory :
    Output.directory "in/Up.exe" intoOut.outputDir = "out" ∧
    (((optimizeFile {} intoOut "in/Up.exe" : ExceptT Fault
      (StateM Workspace) Run) inputsInside).1.toOption.map (·.output)) =
    some "Up.inlined.exe" ∧ Path.dir "Up.inlined.exe" = "." ∧
    inputsInside.files.contents ["Up.inlined.exe"] = none ∧
    (afterwards "in/Up.exe").files.contents ["Up.inlined.exe"] ≠ none ∧
    (afterwards "in/Up.exe").files.node? ["out"] = none := by
  decide +kernel

end Command

end Bytecode
