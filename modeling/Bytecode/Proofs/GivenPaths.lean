import Mathlib
import Bytecode.Proofs.CleanPaths
import Bytecode.Proofs.KeptApart

/-!
# Paths given on the command line

A path given with an option takes the place of the one in the configuration.
From then on it is treated as if it had stood there: unless it starts at the
root, it is seen from the directory of the configuration, and from the working
directory only if there is no configuration.

So where a given path leads depends on which configuration has been found, as
`given_path_moves` shows.  `Config.SeeAlike` says for which paths two
configurations do not tell: those that are empty or start at the root, all paths
if no configuration has been found, and otherwise those that begin with so many
steps up that nothing is left of what the two directories differ in. Main
statement: `Config.given_paths_agree_iff`.
-/

namespace Bytecode.Config

variable {c c₁ c₂ : Config} {path cwd v : String} {w : Workspace}

/-! ### Configurations of commands -/

/-- A command works with the configuration, found somewhere or taken as it is by
default. -/
def Loaded [Toml.Parser] (c : Config) : Prop :=
  ∃ (w : Workspace) (common : CommonOptions) (start : String),
    ((Command.loadConfig common start : ExceptT Fault (StateM Workspace) Config)
      w).1 = .ok c

/-- A directory seen from the root, or none. -/
def IsSettled (dir : String) : Prop := dir = "" ∨ Path.isAbsolute dir = true

theorem isSettled_absolute (hcwd : Path.isAbsolute cwd = true) (path : String) :
    IsSettled (Path.absolute cwd path) := by
  rw [Path.absolute]
  split
  · next h => exact .inr ((Path.isAbsolute_clean path).trans h)
  · exact .inr ((Path.isAbsolute_join
      (Path.ne_empty_of_isAbsolute hcwd) path).trans hcwd)

theorem isSettled_of_ofFound [Toml.Parser] {found : Found}
    (hcwd : Path.isAbsolute cwd = true) (h : ofFound cwd path found = .ok c) :
    IsSettled c.dir := by
  cases found with
  | file bytes =>
      rw [ofFound] at h
      simp only at h
      split at h
      · cases h
      · obtain ⟨_, -, hc⟩ := bind_ok_iff.mp h
        simp only [pure, Except.pure, Except.ok.injEq] at hc
        have hdir : c.dir = Path.absolute cwd (Path.dir path) := by rw [← hc]
        rw [hdir]
        exact isSettled_absolute hcwd (Path.dir path)
  | _ =>
    rw [ofFound] at h
    cases h

theorem workingDirectory_apply (w : Workspace) :
    (liftM (Host.workingDirectory (m := StateM Workspace)) :
      ExceptT Fault (StateM Workspace) String) w = (.ok w.directory, w) :=
  rfl

theorem isSettled_of_loadFile [Toml.Parser] (h : ((loadFile path : ExceptT Fault
      (StateM Workspace) Config) w).1 = .ok c) : IsSettled c.dir := by
  have hcwd : Path.isAbsolute w.directory = true := Path.isAbsolute_slash _
  rw [loadFile, bind_apply, workingDirectory_apply] at h
  exact isSettled_of_ofFound hcwd h

theorem loadFirst_apply [Toml.Parser] (dir : String) (rest : List String)
    (w : Workspace) :
    (loadFirst (dir :: rest) : ExceptT Fault (StateM Workspace) (Option Config))
    w = match w.find (Path.join [dir, fileName]) with
      | .file _ | .directory =>
          (some <$> load dir : ExceptT Fault (StateM Workspace) _) w
      | .missing | .unavailable _ =>
          (loadFirst rest : ExceptT Fault (StateM Workspace) _) w := by
  rw [loadFirst, bind_apply]
  change ((match w.find (Path.join [dir, fileName]) with
    | .file _ | .directory => some <$> load dir
    | .missing | .unavailable _ => loadFirst rest :
    ExceptT Fault (StateM Workspace) (Option Config)) w) = _
  cases w.find (Path.join [dir, fileName]) <;> rfl

theorem isSettled_of_loadFirst [Toml.Parser] {dirs : List String}
    (h : ((loadFirst dirs : ExceptT Fault (StateM Workspace)
      (Option Config)) w).1 = .ok (some c)) : IsSettled c.dir := by
  induction dirs with
  | nil => cases h
  | cons dir rest ih =>
      have hload (h : ((some <$> load dir : ExceptT Fault (StateM Workspace)
          (Option Config)) w).1 = .ok (some c)) : IsSettled c.dir := by
        rw [map_eq_pure_bind, bind_apply] at h
        split at h
        · next c' _ hc' =>
            obtain rfl : c' = c := Option.some.inj (Except.ok.inj h)
            exact isSettled_of_loadFile (congrArg Prod.fst hc')
        · cases h
      rw [loadFirst_apply] at h
      split at h
      · exact hload h
      · exact hload h
      · exact ih h
      · exact ih h

/-- Configurations that are read are seen from the root. -/
theorem Loaded.isSettled [Toml.Parser] (h : Loaded c) : IsSettled c.dir := by
  obtain ⟨w, common, start, h⟩ := h
  rw [Command.loadConfig] at h
  split at h
  · exact isSettled_of_loadFile h
  · rw [bind_apply] at h
    split at h
    · next found _ hfound =>
        have hc : found.getD {} = c := Except.ok.inj h
        rw [findAndLoad, bind_apply, workingDirectory_apply] at hfound
        cases found with
        | none =>
            rw [← hc]
            exact .inl rfl
        | some c' =>
            rw [← hc]
            exact isSettled_of_loadFirst (congrArg Prod.fst hfound)
    · cases h

/-! ### Where a given path leads -/

/-- Two configurations do not tell where the path leads. -/
def SeeAlike (c₁ c₂ : Config) (v : String) : Prop :=
  v = "" ∨ Path.isAbsolute v = true ∨ (c₁.dir = "" ∧ c₂.dir = "") ∨
    (c₁.dir ≠ "" ∧ c₂.dir ≠ "" ∧ (Path.cleanComponents c₁.dir).rdrop
      (Path.stepsUp v) = (Path.cleanComponents c₂.dir).rdrop (Path.stepsUp v))

instance : Decidable (SeeAlike c₁ c₂ v) :=
  inferInstanceAs (Decidable (_ ∨ _ ∨ _ ∨ _))

/-- A path is seen from the directory of the configuration, if there is one. -/
theorem resolve_relative (hv : v ≠ "") (hroot : Path.isAbsolute v = false) :
    c.resolve v = if c.dir = "" then v else Path.join [c.dir, v] := by
  rw [resolve]
  simp [hv, hroot]

theorem isAbsolute_resolve (hv : v ≠ "") (hroot : Path.isAbsolute v = false)
    (h : IsSettled c.dir) :
    Path.isAbsolute (c.resolve v) = true ↔ c.dir ≠ "" := by
  rw [resolve_relative hv hroot]
  by_cases hdir : c.dir = ""
  · simp [hdir, hroot]
  · rw [if_neg hdir, Path.isAbsolute_join hdir]
    simp [hdir, h.resolve_left hdir]

theorem resolve_agree_iff (h₁ : IsSettled c₁.dir) (h₂ : IsSettled c₂.dir)
    (v : String) : c₁.resolve v = c₂.resolve v ↔ SeeAlike c₁ c₂ v := by
  by_cases hv : v = ""
  · simp [resolve, SeeAlike, hv]
  by_cases hroot : Path.isAbsolute v = true
  · simp [resolve, SeeAlike, hroot]
  rw [Bool.not_eq_true] at hroot
  rw [SeeAlike, hroot]
  have hsight₁ := isAbsolute_resolve hv hroot h₁
  have hsight₂ := isAbsolute_resolve hv hroot h₂
  by_cases hdir₁ : c₁.dir = "" <;> by_cases hdir₂ : c₂.dir = ""
  · simp [resolve_relative hv hroot, hdir₁, hdir₂]
  · have hne : c₁.resolve v ≠ c₂.resolve v :=
      fun heq => hsight₁.mp (heq ▸ hsight₂.mpr hdir₂) hdir₁
    simp [hne, hv, hdir₁, hdir₂]
  · have hne : c₁.resolve v ≠ c₂.resolve v :=
      fun heq => hsight₂.mp (heq ▸ hsight₁.mpr hdir₁) hdir₂
    simp [hne, hv, hdir₁, hdir₂]
  · rw [resolve_relative hv hroot, resolve_relative hv hroot, if_neg hdir₁,
      if_neg hdir₂,
      Path.join_agree_iff (h₁.resolve_left hdir₁) (h₂.resolve_left hdir₂) hroot]
    simp [hv, hdir₁, hdir₂]

/-- **When configurations do not tell** where a path given on the command line
leads.  Whatever two configurations have been loaded, the directory for results
is the same with both if it is given and they see it alike, and only then.  The
same holds of the journal. -/
theorem given_paths_agree_iff [Toml.Parser] (h₁ : Loaded c₁) (h₂ : Loaded c₂)
    (o : OptimizeOptions) : (∀ dir, o.outDir = some dir →
      ((c₁.override o).outputDir = (c₂.override o).outputDir ↔
        SeeAlike c₁ c₂ dir)) ∧ (∀ journal, o.journal = some journal →
          ((c₁.override o).journalPath = (c₂.override o).journalPath ↔
            SeeAlike c₁ c₂ journal)) := by
  refine ⟨fun dir hdir => ?_, fun journal hjournal => ?_⟩
  · have hgiven (c : Config) : (c.override o).outputDir = c.resolve dir := by
      rw [outputDir, override, hdir]
      rfl
    rw [hgiven, hgiven]
    exact resolve_agree_iff h₁.isSettled h₂.isSettled dir
  · have hgiven (c : Config) :
        (c.override o).journalPath = c.resolve journal := by
      rw [journalPath, override, hjournal]
      rfl
    rw [hgiven, hgiven]
    exact resolve_agree_iff h₁.isSettled h₂.isSettled journal

/-- Two empty configurations, each in a directory of its own. -/
def twoConfigs : Workspace where
  files := ⟨[(["a"], .directory), (["a", "inliner.toml"], .file []),
    (["b"], .directory), (["b", "inliner.toml"], .file [])]⟩

/-- What an empty configuration in a directory says. -/
def emptyIn (dir : String) : Config := { dir }

theorem loaded_emptyIn : Loaded (emptyIn "/a") ∧ Loaded (emptyIn "/b") :=
  ⟨⟨twoConfigs, {}, "a", by decide +kernel⟩,
    ⟨twoConfigs, {}, "b", by decide +kernel⟩⟩

/-- A directory is given that is beside both configurations, and a journal that
is in neither. -/
theorem given_paths_agree_iff_twoConfigs :
    (Loaded (emptyIn "/a") ∧ Loaded (emptyIn "/b")) ∧ ((emptyIn "/a").override
      { outDir := some "../out", journal := some "runs.db" }).outputDir =
    ((emptyIn "/b").override
      { outDir := some "../out", journal := some "runs.db" }).outputDir ∧
    ((emptyIn "/a").override
      { outDir := some "../out", journal := some "runs.db" }).journalPath ≠
    ((emptyIn "/b").override
      { outDir := some "../out", journal := some "runs.db" }).journalPath := by
  obtain ⟨hdir, hjournal⟩ :=
    given_paths_agree_iff loaded_emptyIn.1 loaded_emptyIn.2
    { outDir := some "../out", journal := some "runs.db" }
  refine ⟨loaded_emptyIn, (hdir "../out" rfl).mpr (by decide +kernel),
    fun heq => ?_⟩
  exact absurd ((hjournal "runs.db" rfl).mp heq) (by decide +kernel)

/-- The results of one command line go to different directories, and its runs to
different journals, depending on which configuration has been found. -/
theorem given_path_moves :
    ∃ c₁ c₂ o, Loaded c₁ ∧ Loaded c₂ ∧ o.outDir = some "out" ∧
      o.journal = some "runs.db" ∧ (c₁.override o).outputDir = "/a/out" ∧
      (c₂.override o).outputDir = "/b/out" ∧ (c₁.override o).journalPath =
      "/a/runs.db" ∧ (c₂.override o).journalPath = "/b/runs.db" :=
  ⟨emptyIn "/a", emptyIn "/b",
    { outDir := some "out", journal := some "runs.db" }, loaded_emptyIn.1,
    loaded_emptyIn.2, rfl, rfl, by decide +kernel, by decide +kernel,
    by decide +kernel, by decide +kernel⟩

end Bytecode.Config
