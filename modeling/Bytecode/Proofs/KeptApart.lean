import Mathlib
import Bytecode.Command
import Bytecode.Proofs.OwnFiles
import Bytecode.Proofs.Packing

/-!
# Inputs and results that are kept apart

Optimising reads each input only after the results of those before it have been
written, and does not look where a result goes.  So a result may be written over
an input, which is then lost, or over the result of another, as in
`input_overwritten`.

Where results go can be told from the files as they are at the beginning:
`Config.Yields` says which result an input has and at which path.  Inputs are
`KeptApart` if all are there, their results go to places of their own, and the
log and the files of the journal are elsewhere.  This stays so while the command
goes on (`KeptApart.later`), since nothing but results, log and journal is
written.  Main statement: `loses_nothing`, such inputs are kept and every one
has its own result in the end, whether or not a journal is kept.

Files are optimised in two monads, with a journal and without.  `OnWorkspace` is
what they have in common, and `Succeeds` takes actions in them apart.
-/

namespace Bytecode

/-! ### Actions on a workspace -/

/-- A monad in which every action acts on a workspace, and on a state beside
it. -/
class OnWorkspace (m : Type → Type) [Monad m] [Host m] [Logger m]
    [Logger (StateM Workspace)] (κ : outParam Type) where
  act {α : Type} : m α → κ → Workspace → (α × κ) × Workspace
  act_pure {α : Type} (a : α) (k : κ) (w : Workspace) :
    act (pure a) k w = ((a, k), w)
  act_bind {α β : Type} (x : m α) (f : α → m β) (k : κ) (w : Workspace) :
    act (x >>= f) k w = act (f (act x k w).1.1) (act x k w).1.2 (act x k w).2
  act_find (path : String) (k : κ) (w : Workspace) :
    act (Host.find path) k w = ((w.find path, k), w)
  act_store (path : String) (bytes : List UInt8) (k : κ) (w : Workspace) :
    act (Host.store path bytes) k w =
    (((w.store path bytes).1, k), (w.store path bytes).2)
  act_makeDirectories (path : String) (k : κ) (w : Workspace) :
    act (Host.makeDirectories path) k w =
      (((w.makeDirectories path).1, k), (w.makeDirectories path).2)
  act_print (text : String) (k : κ) (w : Workspace) : act
    (Host.print text) k w = (((), k), { w with printed := w.printed ++ text })
  act_now (k : κ) (w : Workspace) :
    act Host.now k w = ((w.clock, k), { w with clock := w.clock + 1 })
  act_freshName (k : κ) (w : Workspace) : act Host.freshName k w =
    ((Workspace.freshName w.named, k), { w with named := w.named + 1 })
  act_log (log : Log) (s : Severity) (message : String) (k : κ)
    (w : Workspace) : act (Logger.write log s message) k w =
    (((), k), ((Logger.write log s message : StateM Workspace Unit) w).2)

section

variable [Logger (StateM Workspace)]

instance : OnWorkspace (StateM Workspace) Unit where
  act x k w := (((x w).1, k), (x w).2)
  act_pure _ _ _ := rfl
  act_bind _ _ _ _ := rfl
  act_find _ _ _ := rfl
  act_store _ _ _ _ := rfl
  act_makeDirectories _ _ _ := rfl
  act_print _ _ _ := rfl
  act_now _ _ := rfl
  act_freshName _ _ := rfl
  act_log _ _ _ _ _ := rfl

instance {κ : Type} : OnWorkspace (StateT κ (StateM Workspace)) κ where
  act x k w := x k w
  act_pure _ _ _ := rfl
  act_bind _ _ _ _ := rfl
  act_find _ _ _ := rfl
  act_store _ _ _ _ := rfl
  act_makeDirectories _ _ _ := rfl
  act_print _ _ _ := rfl
  act_now _ _ := rfl
  act_freshName _ _ := rfl
  act_log _ _ _ _ _ := rfl

end

/-! ### Inputs and their results -/

/-- Where the result of an input goes, and what is written there. -/
def Config.written [File.Codec] (c : Config) (input : String)
    (bytes : List UInt8) : Except Fault (String × List UInt8) := do
  let f ← File.ofFound input (.file bytes)
  let (g, _) ← c.optimize input f
  let result ← g.optimizedBytes (c.outputPath input g)
  return (c.outputPath input g, result)

/-- An input has a result, and a path where it goes, with the files as they
are. -/
def Config.Yields [File.Codec] (c : Config) (w : Workspace)
    (input output : String) (result : List UInt8) : Prop :=
  ∃ bytes, w.find input = .file bytes ∧
    c.written input bytes = .ok (output, result)

/-- The result of one of the inputs goes to the place. -/
def Config.Reaches [File.Codec] (c : Config) (w : Workspace)
    (inputs : List String) (q : Place) : Prop :=
  ∃ i ∈ inputs, ∃ output result, c.Yields w i output result ∧
    q = w.placeOf output

/-- All inputs are there, their results go to places of their own, where no
input is, and neither inputs nor results are at places in `F`. -/
structure KeptApart [File.Codec] (c : Config) (F : Place → Prop) (w : Workspace)
    (inputs : List String) : Prop where
  there : ∀ i ∈ inputs, ∃ bytes, w.find i = .file bytes
  free : ∀ i ∈ inputs, ¬ F (w.placeOf i) ∧ ¬ c.Reaches w inputs (w.placeOf i)
  reached : ∀ q, c.Reaches w inputs q → ¬ F q
  distinct : inputs.Pairwise fun i j => ∀ output result output' result',
    c.Yields w i output result → c.Yields w j output' result' →
    w.placeOf output ≠ w.placeOf output'

section KeptApart

variable [File.Codec] {c : Config} {F G : Place → Prop} {w w' : Workspace}
  {inputs rest : List String} {i : String} {output : String}
  {result : List UInt8} {q : Place}

/-- What the later inputs reach is reached. -/
theorem Config.Reaches.tail (h : c.Reaches w rest q) :
    c.Reaches w (i :: rest) q := by
  obtain ⟨j, hj, h⟩ := h
  exact ⟨j, List.mem_cons_of_mem i hj, h⟩

/-- The later inputs are kept apart, too. -/
theorem KeptApart.tail (h : KeptApart c F w (i :: rest)) :
    KeptApart c F w rest where
  there j hj := h.there j (List.mem_cons_of_mem i hj)
  free j hj := by
    obtain ⟨hown, hreach⟩ := h.free j (List.mem_cons_of_mem i hj)
    exact ⟨hown, fun hr => hreach hr.tail⟩
  reached q hq := h.reached q hq.tail
  distinct := (List.pairwise_cons.mp h.distinct).2

/-- An input has the result that it had as long as its place is not changed. -/
theorem KeptApart.yields_later (h : KeptApart c F w inputs)
    (hlater : w.ChangesOnly G w') (hi : i ∈ inputs) (hG : ¬ G (w.placeOf i)) :
    c.Yields w' i output result ↔ c.Yields w i output result := by
  obtain ⟨bytes, hbytes⟩ := h.there i hi
  rw [Config.Yields, Config.Yields, hlater.find_kept hbytes hG, hbytes]

/-- What has been written does not reach the inputs to come. -/
theorem KeptApart.reaches_later (h : KeptApart c F w inputs)
    (hlater : w.ChangesOnly G w') (hG : ∀ i ∈ inputs, ¬ G (w.placeOf i)) :
    c.Reaches w' inputs q ↔ c.Reaches w inputs q := by
  refine exists_congr fun i => and_congr_right fun hi =>
    exists_congr fun output =>
    exists_congr fun result => ?_
  rw [h.yields_later hlater hi (hG i hi), hlater.placeOf]

/-- Inputs that are kept apart stay so as long as their places are not
changed. -/
theorem KeptApart.later (h : KeptApart c F w inputs)
    (hlater : w.ChangesOnly G w') (hG : ∀ i ∈ inputs, ¬ G (w.placeOf i)) :
    KeptApart c F w' inputs where
  there i hi := by
    obtain ⟨bytes, hbytes⟩ := h.there i hi
    exact ⟨bytes, hlater.find_kept hbytes (hG i hi)⟩
  free i hi := by
    rw [hlater.placeOf, h.reaches_later hlater hG]
    exact h.free i hi
  reached q hq := h.reached q ((h.reaches_later hlater hG).mp hq)
  distinct := h.distinct.imp_of_mem
    fun {i j} hi hj hne output result output' result' hy hy' => by
    rw [hlater.placeOf, hlater.placeOf]
    exact hne output result output' result' ((h.yields_later hlater hi
      (hG i hi)).mp hy) ((h.yields_later hlater hj (hG j hj)).mp hy')

end KeptApart

section Succeeds

variable {m : Type → Type} [Monad m] [Host m] [Logger m]
  [Logger (StateM Workspace)] {κ : Type} [OnWorkspace m κ] {α β : Type}
  {x : ExceptT Fault m α} {f : α → ExceptT Fault m β} {a : α} {b : β} {k k' : κ}
  {w w' : Workspace}

open OnWorkspace

/-- The action succeeds with a result. -/
def Succeeds (x : ExceptT Fault m α) (k : κ) (w : Workspace) (a : α) (k' : κ)
    (w' : Workspace) : Prop :=
  act x.run k w = ((.ok a, k'), w')

/-- What has failed ends an action; otherwise it goes on. -/
theorem act_bind_run (x : ExceptT Fault m α) (f : α → ExceptT Fault m β) (k : κ)
    (w : Workspace) : act (x >>= f).run k w = match (act x.run k w).1.1 with
      | .ok a => act (f a).run (act x.run k w).1.2 (act x.run k w).2
      | .error e => ((.error e, (act x.run k w).1.2), (act x.run k w).2) := by
  change act (x.run >>= ExceptT.bindCont f) k w = _
  rw [act_bind]
  cases (act x.run k w).1.1 with
  | error e => exact act_pure _ _ _
  | ok a => rfl

/-- A result leaves the workspace. -/
theorem act_result (r : Except Fault α) (k : κ) (w : Workspace) :
    act (ExceptT.mk (pure r) : ExceptT Fault m α).run k w = ((r, k), w) :=
  act_pure r k w

/-- Two actions succeed one after the other. -/
theorem Succeeds.of_bind (h : Succeeds (x >>= f) k w b k' w') :
    ∃ a k₁ w₁, Succeeds x k w a k₁ w₁ ∧ Succeeds (f a) k₁ w₁ b k' w' := by
  rw [Succeeds, act_bind_run] at h
  split at h
  · next a hx => exact ⟨a, _, _, Prod.ext (Prod.ext hx rfl) rfl, h⟩
  · cases h

/-- A result that succeeds is a value. -/
theorem Succeeds.of_result {r : Except Fault α}
    (h : Succeeds (ExceptT.mk (pure r) : ExceptT Fault m α) k w a k' w') :
    r = .ok a ∧ k' = k ∧ w' = w := by
  rw [Succeeds, act_result] at h
  cases h
  exact ⟨rfl, rfl, rfl⟩

/-- Nothing has been done. -/
theorem Succeeds.of_pure
    (h : Succeeds (pure b : ExceptT Fault m β) k w b k' w') : k' = k ∧ w' = w :=
  (Succeeds.of_result (r := .ok b) h).2

variable {F : Place → Prop}

/-- Something is done under a condition only, before an action goes on. -/
theorem Succeeds.of_guarded {p : Prop} [Decidable p] {y : ExceptT Fault m Unit}
    {f : Unit → ExceptT Fault m β}
    (h : Succeeds (if p then y >>= f else f ()) k w b k' w')
    (hy : ∀ k₁ w₁, Succeeds y k w () k₁ w₁ → k₁ = k ∧ w.ChangesOnly F w₁) :
    ∃ w₁, w.ChangesOnly F w₁ ∧ Succeeds (f ()) k w₁ b k' w' := by
  split at h
  · obtain ⟨u, k₁, w₁, hfirst, hrest⟩ := h.of_bind
    obtain ⟨rfl, honly⟩ := hy k₁ w₁ hfirst
    exact ⟨w₁, honly, hrest⟩
  · exact ⟨w, .refl w, h⟩

variable [LawfulMonad m]

/-- An action goes on after something that cannot fail. -/
theorem act_lift_bind (y : m α) (f : α → ExceptT Fault m β) (k : κ)
    (w : Workspace) : act (liftM y >>= f : ExceptT Fault m β).run k w =
    act (f (act y k w).1.1).run (act y k w).1.2 (act y k w).2 := by
  change act ((Except.ok <$> y : m (Except Fault α)) >>=
    ExceptT.bindCont f) k w = _
  rw [map_eq_pure_bind, act_bind, act_bind, act_pure]
  rfl

/-- What an action is part of is told with its failure. -/
theorem act_during (task : String) (x : ExceptT Fault m α) (k : κ)
    (w : Workspace) : act (Fault.duringAction task x).run k w =
    ((Fault.during task (act x.run k w).1.1, (act x.run k w).1.2),
      (act x.run k w).2) := by
  change act (Fault.during task <$> x.run) k w = _
  rw [map_eq_pure_bind, act_bind, act_pure]

/-- Something that cannot fail succeeds first. -/
theorem succeeds_lift_bind {y : m α} :
    Succeeds (liftM y >>= f) k w b k' w' ↔
      Succeeds (f (act y k w).1.1) (act y k w).1.2 (act y k w).2 b k' w' := by
  rw [Succeeds, act_lift_bind, Succeeds]

/-- A success does not tell what it has been part of. -/
theorem Succeeds.of_during {c : String}
    (h : Succeeds (Fault.duringAction c x) k w a k' w') :
    Succeeds x k w a k' w' := by
  rw [Succeeds, act_during] at h
  obtain ⟨hpair, rfl⟩ := Prod.mk.inj h
  obtain ⟨hok, rfl⟩ := Prod.mk.inj hpair
  exact Prod.ext (Prod.ext (Fault.during_ok_iff.mp hok) rfl) rfl

/-! ### Optimising one file -/

variable {cwd : Place} {log : Log} {c : Config} {path input : String} {g : File}

/-- The entries of a log go to its own file. -/
theorem Succeeds.of_write [Logger.Lawful] {s : Severity} {message : String}
    (hlog : log.hasFile = true → F (Place.ofPath cwd log.path))
    (hw : w.cwd = cwd) (h : Succeeds (liftM (Logger.write
      (m := m) log s message) : ExceptT Fault m Unit) k w () k' w') :
    k' = k ∧ w.ChangesOnly F w' := by
  rw [Succeeds] at h
  change act (Except.ok <$> Logger.write (m := m) log s message) k w = _ at h
  rw [map_eq_pure_bind, act_bind, act_pure, act_log] at h
  obtain ⟨hpair, rfl⟩ := Prod.mk.inj h
  refine ⟨(Prod.mk.inj hpair).2.symm, ?_⟩
  refine (Logger.Lawful.write log s message w).changesOnly fun hfile => ?_
  rw [Workspace.placeOf, hw]
  exact hlog hfile

/-- Making directories changes no file. -/
theorem Succeeds.of_makeDirectories {task : String} {u : Unit}
    (h : Succeeds (Fault.duringAction task (ExceptT.mk
      (Host.makeDirectories path)) : ExceptT Fault m Unit) k w u k' w') :
    k' = k ∧ w.ChangesOnly F w' := by
  have hmade : act (Host.makeDirectories path : m _) k w = ((.ok u, k'), w') :=
    h.of_during
  rw [act_makeDirectories] at hmade
  obtain ⟨hpair, rfl⟩ := Prod.mk.inj hmade
  exact ⟨(Prod.mk.inj hpair).2.symm, w.changesOnly_makeDirectories path⟩

/-- A file that has been written is found where it was to go. -/
theorem Succeeds.of_writeFile [File.Codec] {u : Unit} (h : Succeeds
      (Command.writeFile path g : ExceptT Fault m Unit) k w u k' w') :
    k' = k ∧ ∃ result, g.optimizedBytes path = .ok result ∧
    w.ChangesOnly (· = w.placeOf path) w' ∧ w'.find path = .file result := by
  rw [Command.writeFile] at h
  obtain ⟨_, k₁, w₁, hmake, hrest⟩ := h.of_bind
  obtain ⟨rfl, hmade⟩ := hmake.of_makeDirectories (F := (· = w.placeOf path))
  obtain ⟨result, k₂, w₂, hencode, hlast⟩ := hrest.of_bind
  obtain ⟨hresult, rfl, rfl⟩ := hencode.of_result
  rw [succeeds_lift_bind, act_store] at hlast
  have hstored := w₂.changesOnly_store path result
  cases hstore : w₂.store path result with
  | mk r w₃ =>
      rw [hstore] at hlast hstored
      cases r with
      | error e => exact absurd hlast.of_result.1 (by simp)
      | ok v =>
          obtain ⟨rfl, rfl⟩ := hlast.of_pure
          rw [hmade.placeOf] at hstored
          exact ⟨rfl, result, hresult, hmade.trans hstored,
            Workspace.find_store hstore⟩

/-- Only a file can be read as an assembly. -/
theorem Succeeds.of_readFile [File.Codec]
    (h : Succeeds (Command.readFile input : ExceptT Fault m File) k w g k' w') :
    k' = k ∧ w' = w ∧ ∃ bytes, w.find input = .file bytes ∧
    File.ofFound input (.file bytes) = .ok g := by
  rw [Command.readFile, succeeds_lift_bind, act_find] at h
  obtain ⟨hread, hk, hw⟩ := h.of_result
  refine ⟨hk, hw, ?_⟩
  simp only at hread
  cases hfind : w.find input with
  | file bytes => exact ⟨bytes, rfl, by rwa [hfind] at hread⟩
  | _ =>
    rw [hfind] at hread
    cases hread

/-- Looking at the clock changes no file. -/
theorem Succeeds.of_now {f : Instant → ExceptT Fault m β}
    (h : Succeeds (liftM (Host.now (m := m)) >>= f) k w b k' w') :
    ∃ t w₁, (∀ path, w₁.find path = w.find path) ∧ (∀ F, w.ChangesOnly F w₁) ∧
      Succeeds (f t) k w₁ b k' w' := by
  rw [succeeds_lift_bind, act_now] at h
  exact ⟨w.clock, { w with clock := w.clock + 1 }, fun _ => rfl,
    fun _ => ⟨rfl, .refl _⟩, h⟩

/-- Printing changes no file. -/
theorem Succeeds.of_print {text : String} {f : Unit → ExceptT Fault m β}
    (h : Succeeds (liftM (Host.print (m := m) text) >>= f) k w b k' w') :
    ∃ w₁, (∀ path, w₁.find path = w.find path) ∧ (∀ F, w.ChangesOnly F w₁) ∧
      Succeeds (f ()) k w₁ b k' w' := by
  rw [succeeds_lift_bind, act_print] at h
  exact ⟨{ w with printed := w.printed ++ text }, fun _ => rfl,
    fun _ => ⟨rfl, .refl _⟩, h⟩

/-- **Optimising one file** writes its result, and nothing else but the log. -/
theorem Succeeds.of_optimizeFile [Logger.Lawful] [File.Codec] {r : Run}
    (hlog : log.hasFile = true → F (Place.ofPath cwd log.path))
    (hw : w.cwd = cwd) (h : Succeeds
      (Command.optimizeFile log c input : ExceptT Fault m Run) k w r k' w') :
    k' = k ∧ ∃ output result, c.Yields w input output result ∧
    w.ChangesOnly (fun q => F q ∨ q = w.placeOf output) w' ∧
    (¬ F (w.placeOf output) → w'.find output = .file result) := by
  rw [Command.optimizeFile] at h
  obtain ⟨started, w₀, hfind, hsame, h₀⟩ := h.of_now
  obtain ⟨f, k₁, w₁, hread, h₁⟩ := h₀.of_bind
  obtain ⟨rfl, rfl, bytes, hfile, hf⟩ := hread.of_readFile
  rw [hfind] at hfile
  have hw₁ := (hsame F).cwd.trans hw
  obtain ⟨w₂, hfirst, h₂⟩ := h₁.of_guarded fun _ _ hy => hy.of_write hlog hw₁
  obtain ⟨⟨g, stats⟩, k₃, w₃, hoptimize, h₃⟩ := h₂.of_bind
  obtain ⟨hg, rfl, rfl⟩ := hoptimize.of_result
  have hw₂ := hfirst.cwd.trans hw₁
  obtain ⟨w₄, hsecond, h₄⟩ := h₃.of_guarded fun _ _ hy => hy.of_write hlog hw₂
  obtain ⟨_, k₅, w₅, htold, h₅⟩ := h₄.of_bind
  obtain ⟨rfl, hthird⟩ := htold.of_write hlog (hsecond.cwd.trans hw₂)
  -- until here only the log has been written
  have hbefore : w.ChangesOnly F w₅ :=
    (hsame F).trans (hfirst.trans (hsecond.trans hthird))
  obtain ⟨_, k₆, w₆, hwrite, h₆⟩ := h₅.of_bind
  obtain ⟨rfl, result, hresult, hput, hfound⟩ := hwrite.of_writeFile
  obtain ⟨_, k₇, w₇, hnoted, h₇⟩ := h₆.of_bind
  obtain ⟨rfl, hafter⟩ :=
    hnoted.of_write hlog (hput.cwd.trans (hbefore.cwd.trans hw))
  rw [succeeds_lift_bind, act_freshName] at h₇
  obtain ⟨-, rfl, rfl⟩ := h₇.of_result
  have hlast : w₆.ChangesOnly F { w₇ with named := w₇.named + 1 } :=
    ⟨hafter.cwd, hafter.files⟩
  rw [hbefore.placeOf] at hput
  refine ⟨rfl, c.outputPath input g, result, ⟨bytes, hfile, ?_⟩, ?_,
    fun hfree => ?_⟩
  · exact bind_ok_iff.mpr ⟨f, hf, bind_ok_iff.mpr ⟨(g, stats), hg,
      bind_ok_iff.mpr ⟨result, hresult, rfl⟩⟩⟩
  · exact ((hbefore.mono fun q hq => .inl hq).trans
      (hput.mono fun q hq => .inr hq)).trans (hlast.mono fun q hq => .inl hq)
  · refine hlast.find_kept hfound ?_
    rwa [hput.placeOf, hbefore.placeOf]

/-- **Optimising inputs that are kept apart** writes the result of each where it
is to go, and changes nothing else but what keeping the records changes. -/
theorem Succeeds.of_optimizeAll [Logger.Lawful] [File.Codec]
    {keep : Run → ExceptT Fault m Unit} {I : κ → Prop} {u : Unit}
    {inputs : List String}
    (hlog : log.hasFile = true → F (Place.ofPath cwd log.path))
    (hkeep : ∀ run k w k' w', w.cwd = cwd →
      I k → Succeeds (keep run) k w () k' w' → I k' ∧ w.ChangesOnly F w')
    (hw : w.cwd = cwd) (hapart : KeptApart c F w inputs) (hk : I k)
    (h : Succeeds (Command.optimizeAll log c keep inputs) k w u k' w') :
    I k' ∧ w.ChangesOnly (fun q => F q ∨ c.Reaches w inputs q) w' ∧
    ∀ i ∈ inputs, ∃ output result, c.Yields w i output result ∧
    w'.find output = .file result := by
  induction inputs generalizing k w with
  | nil =>
      obtain ⟨rfl, rfl⟩ := h.of_pure
      exact ⟨hk, .refl _, fun i hi => absurd hi List.not_mem_nil⟩
  | cons i rest ih =>
      rw [Command.optimizeAll] at h
      obtain ⟨run, k₁, w₁, hfile, h₁⟩ := h.of_bind
      obtain ⟨rfl, output, result, hyields, honly, hfound⟩ :=
        hfile.of_optimizeFile hlog hw
      obtain ⟨w₂, hfind, hsame, h₂⟩ := h₁.of_print
      obtain ⟨_, k₃, w₃, hrecord, h₃⟩ := h₂.of_bind
      have hwritten := honly.trans (hsame _)
      obtain ⟨hk₃, hkept⟩ := hkeep _ _ _ _ _ (hwritten.cwd.trans hw) hk hrecord
      have hreach : c.Reaches w (i :: rest) (w.placeOf output) :=
        ⟨i, List.mem_cons_self, output, result, hyields, rfl⟩
      have hfree := hapart.reached _ hreach
      have hfound' : w₃.find output = .file result := by
        refine hkept.find_kept ((hfind output).trans (hfound hfree)) ?_
        rwa [hwritten.placeOf]
      have hsofar := hwritten.trans (hkept.mono fun q hq => .inl hq)
      -- the inputs that are left are where nothing has been written yet
      have hleft :
          ∀ j ∈ rest, ¬ (F (w.placeOf j) ∨ w.placeOf j = w.placeOf output) := by
        rintro j hj (hown | heq)
        · exact (hapart.free j (List.mem_cons_of_mem i hj)).1 hown
        · exact (hapart.free j (List.mem_cons_of_mem i hj)).2 (heq ▸ hreach)
      obtain ⟨hk', hlast, hothers⟩ :=
        ih (hsofar.cwd.trans hw) (hapart.tail.later hsofar hleft) hk₃ h₃
      refine ⟨hk', (hsofar.mono ?_).trans (hlast.mono ?_), fun j hj => ?_⟩
      · rintro q (hown | rfl)
        · exact .inl hown
        · exact .inr hreach
      · rintro q (hown | hq)
        · exact .inl hown
        · exact .inr ((hapart.tail.reaches_later hsofar hleft).mp hq).tail
      · obtain rfl | hj := List.mem_cons.mp hj
        · refine ⟨output, result, hyields, hlast.find_kept hfound' ?_⟩
          rw [hsofar.placeOf, hapart.tail.reaches_later hsofar hleft]
          rintro (hown | ⟨j', hj', output', result', hyields', heq⟩)
          · exact hfree hown
          · exact (List.pairwise_cons.mp hapart.distinct).1 j' hj'
              _ _ _ _ hyields hyields' heq
        · obtain ⟨output', result', hyields', hfound⟩ := hothers j hj
          exact ⟨output', result', (hapart.tail.yields_later hsofar hj
            (hleft j hj)).mp hyields', hfound⟩

end Succeeds

/-! ### Commands in a workspace -/

section Commands

open OnWorkspace

variable {α : Type} {cwd : Place} {F : Place → Prop} {k k' : Unit}
  {w w' : Workspace} {a : α}

section

variable [Logger (StateM Workspace)]

/-- A command succeeds if it gives a value. -/
theorem succeeds_iff {x : ExceptT Fault (StateM Workspace) α} :
    Succeeds x k w a k' w' ↔ x w = (.ok a, w') := by
  refine ⟨fun h => ?_, fun h => ?_⟩
  · obtain ⟨hpair, hw⟩ := Prod.mk.inj h
    exact Prod.ext (Prod.mk.inj hpair).1 hw
  · change (((x w).1, k), (x w).2) = _
    rw [h]

/-- A command that succeeds has spared what it should. -/
theorem Spares.of_succeeds {P : α → Prop}
    {x : ExceptT Fault (StateM Workspace) α} (hx : Spares cwd F P x)
    (hw : w.cwd = cwd) (h : Succeeds x k w a k' w') :
    w.ChangesOnly F w' ∧ P a := by
  obtain ⟨honly, hP⟩ := hx w hw
  rw [succeeds_iff.mp h] at honly hP
  exact ⟨honly, hP a rfl⟩

/-- What is done with a journal is done between its opening and its closing,
which change its own files only. -/
theorem Succeeds.of_throughout {name : String}
    {t : Journal.Task (StateM Workspace) α}
    (hname : ∀ l, Journal.Location.ofText name = .ok l → l.StaysHome ∧
      (l.isVolatile = false → Database.OwnFiles cwd F
        (Database.Connection.pathOf cwd l.name))) (hw : w.cwd = cwd)
    (h : Succeeds (Journal.Connection.throughout name t) k w a k' w') :
    ∃ conn w₁ conn' w₂, w.ChangesOnly F w₁ ∧ conn.Within cwd F ∧
      Succeeds t conn w₁ a conn' w₂ ∧
      (w₂.cwd = cwd → conn'.Within cwd F → w₂.ChangesOnly F w') := by
  rw [Journal.Connection.throughout] at h
  obtain ⟨conn, k₁, w₁, hopen, h₁⟩ := h.of_bind
  obtain ⟨hopened, hconn⟩ :=
    (Journal.Connection.spares_openAt hname).of_succeeds hw hopen
  rw [succeeds_lift_bind] at h₁
  cases ht : t conn w₁ with
  | mk p w₂ =>
      obtain ⟨r, conn'⟩ := p
      have hrun : act (t.run.run conn) k₁ w₁ = (((r, conn'), k₁), w₂) := by
        change (((t conn w₁).1, k₁), (t conn w₁).2) = _
        rw [ht]
      rw [hrun] at h₁
      have h₂ := succeeds_lift_bind.mp h₁
      obtain ⟨rfl, -, rfl⟩ := h₂.of_result
      exact ⟨conn, w₁, conn', w₂, hopened, hconn, ht, fun hw₂ hwithin =>
        (Journal.Connection.stays_close conn' w₂ hw₂ hwithin).2⟩

end

/-- A result changes no file. -/
theorem spares_result {P : α → Prop} {r : Except Fault α}
    (h : ∀ a, r = .ok a → P a) :
    Spares cwd F P (ExceptT.mk (pure r) : ExceptT Fault (StateM Workspace) α) :=
  fun w _ => ⟨.refl w, h⟩

namespace Config

variable {c : Config}

/-- Loading a file changes none. -/
theorem spares_loadFile [Toml.Parser] (path : String) : Spares cwd F (fun _ =>
      True) (loadFile path : ExceptT Fault (StateM Workspace) Config) :=
  .look (fun _ => rfl) fun _ => .look (fun _ => rfl) fun _ =>
    spares_result fun _ _ => trivial

/-- Loading the first of several files changes none. -/
theorem spares_loadFirst [Toml.Parser] (dirs : List String) :
    Spares cwd F (fun _ => True)
    (loadFirst dirs : ExceptT Fault (StateM Workspace) (Option Config)) := by
  induction dirs with
  | nil => exact .pure trivial
  | cons dir rest ih =>
      rw [loadFirst]
      refine .look (fun _ => rfl) fun found => ?_
      have hload : Spares cwd F (fun _ => True) (some <$>
          load dir : ExceptT Fault (StateM Workspace) (Option Config)) :=
        (spares_loadFile _).bind fun _ _ => .pure trivial
      cases found with
      | file bytes => exact hload
      | directory => exact hload
      | missing => exact ih
      | unavailable reason => exact ih

/-- Finding a file and loading it changes none. -/
theorem spares_findAndLoad [Toml.Parser] (start : String) :
    Spares cwd F (fun _ => True)
      (findAndLoad start : ExceptT Fault (StateM Workspace) (Option Config)) :=
  .look (fun _ => rfl) fun _ => spares_loadFirst _

end Config

namespace Command

variable {common : CommonOptions} {o : OptimizeOptions} {c : Config}
  {first : String} {rest : List String}

/-- Looking for a configuration changes no file. -/
theorem spares_loadConfig [Toml.Parser] (common : CommonOptions)
    (start : String) : Spares cwd F (fun _ => True)
    (loadConfig common start : ExceptT Fault (StateM Workspace) Config) := by
  rw [loadConfig]
  split
  · exact Config.spares_loadFile _
  · exact (Config.spares_findAndLoad _).bind fun _ _ => .pure trivial

/-- The log that a command writes. -/
def logOf (common : CommonOptions) (c : Config) : Log where
  path := if common.logFile ≠ "" then common.logFile else c.logPath
  verbosity := if 0 ≤ common.verbosity then common.verbosity else c.verbosity

/-- Opening a log changes its own file only. -/
theorem spares_openLog [Logger (StateM Workspace)] [Logger.Lawful]
    (hlog : (logOf common c).hasFile = true →
      F (Place.ofPath cwd (logOf common c).path)) :
    Spares cwd F (· = logOf common c)
    (openLog common c : ExceptT Fault (StateM Workspace) Log) := by
  have hprepare : Spares cwd F (fun _ => True)
      (ExceptT.mk (Logger.prepare (logOf common c)) :
        ExceptT Fault (StateM Workspace) Unit) := by
    refine fun w hw => ⟨?_, fun _ _ => trivial⟩
    refine (Logger.Lawful.prepare (logOf common c) w).changesOnly
      fun hfile => ?_
    rw [Workspace.placeOf, hw]
    exact hlog hfile
  exact hprepare.bind fun _ _ => .pure rfl

/-- Records of runs are kept in the files of the journal. -/
theorem succeeds_optimizeRecorded [Logger (StateM Workspace)] [Logger.Lawful]
    [File.Codec] {log : Log} {journal : String} {inputs : List String}
    {u : Unit} (hname : ∀ l, Journal.Location.ofText journal = .ok l →
      l.StaysHome ∧ (l.isVolatile = false →
        Database.OwnFiles cwd F (Database.Connection.pathOf cwd l.name)))
    (hlog : log.hasFile = true → F (Place.ofPath cwd log.path))
    (hw : w.cwd = cwd) (hapart : KeptApart c F w inputs)
    (h : Succeeds (optimizeRecorded log c journal inputs : ExceptT Fault
      (StateM Workspace) Unit) k w u k' w') :
    w.ChangesOnly (fun q => F q ∨ c.Reaches w inputs q) w' ∧
    ∀ i ∈ inputs, ∃ output result, c.Yields w i output result ∧
    w'.find output = .file result := by
  obtain ⟨conn, w₁, conn', w₂, hopened, hconn, hall, hclosed⟩ :=
    h.of_throughout hname hw
  have hfree : ∀ i ∈ inputs, ¬ F (w.placeOf i) :=
    fun i hi => (hapart.free i hi).1
  have hreaches : ∀ q, c.Reaches w₁ inputs q ↔ c.Reaches w inputs q :=
    fun q => hapart.reaches_later hopened hfree
  have hw₁ := hopened.cwd.trans hw
  obtain ⟨hconn', honly, hresults⟩ := hall.of_optimizeAll (I :=
    Journal.Connection.Within cwd F) hlog (fun run k w k' w' hw hk hrecord => by
      have hstays := Journal.Connection.stays_record (some run) k w hw hk
      have hrecorded : (Journal.record (some run) : Journal.Task
          (StateM Workspace) Unit) k w = ((.ok (), k'), w') := hrecord.of_during
      rwa [hrecorded] at hstays)
    hw₁ (hapart.later hopened hfree) hconn
  have hclosed' := hclosed (honly.cwd.trans hw₁) hconn'
  refine ⟨?_, fun i hi => ?_⟩
  · refine ((hopened.mono fun q hq => .inl hq).trans
      (honly.mono fun q hq => ?_)).trans (hclosed'.mono fun q hq => .inl hq)
    exact hq.imp_right (hreaches q).mp
  · obtain ⟨output, result, hyields, hfound⟩ := hresults i hi
    have hyields' := (hapart.yields_later hopened hi (hfree i hi)).mp hyields
    refine ⟨output, result, hyields', hclosed'.find_kept hfound ?_⟩
    rw [honly.placeOf, hopened.placeOf]
    exact hapart.reached _ ⟨i, hi, output, result, hyields', rfl⟩

/-- The log and the files of the journal are at places in `F`, and the scripts
in the name of the journal bring no other file into play. -/
structure WritesWithin (common : CommonOptions) (o : OptimizeOptions)
    (c : Config) (cwd : Place) (F : Place → Prop) : Prop where
  log : (logOf common c).hasFile = true →
    F (Place.ofPath cwd (logOf common c).path)
  journal : (c.override o).journalPath ≠ "" → o.noJournal = false →
    ∀ l, Journal.Location.ofText (c.override o).journalPath = .ok l →
    l.StaysHome ∧ (l.isVolatile = false →
      Database.OwnFiles cwd F (Database.Connection.pathOf cwd l.name))

/-- **Optimising loses nothing** where inputs and results are kept apart, with
any codec, any reader of configurations and any logger that keeps to its file.
If the command succeeds, every input is found as it was, and its own result is
found at the path where it goes. -/
theorem loses_nothing [Logger (StateM Workspace)] [Logger.Lawful] [File.Codec]
    [Toml.Parser] (hload : ((loadConfig common
      (Path.dir first) : ExceptT Fault (StateM Workspace) Config) w).1 = .ok c)
    (hown : WritesWithin common o c w.cwd F)
    (hapart : KeptApart (c.override o) F w (first :: rest))
    (hrun : (optimize common o (first :: rest) : ExceptT Fault
      (StateM Workspace) Unit) w = (.ok (), w')) :
    ∀ i ∈ first :: rest, w'.find i = w.find i ∧
      ∃ output result, (c.override o).Yields w i output result ∧
      w'.find output = .file result := by
  have h : Succeeds (optimize common o (first :: rest)) () w () () w' :=
    succeeds_iff.mpr hrun
  rw [optimize] at h
  obtain ⟨c', k₁, w₁, hconfig, h₁⟩ := h.of_bind
  obtain rfl : c = c' := by
    rw [succeeds_iff.mp hconfig] at hload
    exact (Except.ok.inj hload).symm
  obtain ⟨hloaded, -⟩ :=
    (spares_loadConfig (F := F) common (Path.dir first)).of_succeeds rfl hconfig
  obtain ⟨log, k₂, w₂, hlog, h₂⟩ := h₁.of_bind
  obtain ⟨hopened, rfl⟩ :=
    (spares_openLog hown.log).of_succeeds hloaded.cwd hlog
  obtain ⟨_, k₃, w₃, hvalid, h₃⟩ := h₂.of_bind
  obtain ⟨-, rfl, rfl⟩ := hvalid.of_result
  have hstart := hloaded.trans hopened
  have hfree : ∀ i ∈ first :: rest, ¬ F (w.placeOf i) :=
    fun i hi => (hapart.free i hi).1
  have hapart₂ := hapart.later hstart hfree
  have hmain : w₃.ChangesOnly (fun q => F q ∨
      (c.override o).Reaches w₃ (first :: rest) q) w' ∧ ∀ i ∈ first :: rest,
      ∃ output result, (c.override o).Yields w₃ i output result ∧
      w'.find output = .file result := by
    split at h₃
    · next hjournal =>
        obtain ⟨hpath, hkept⟩ := Bool.and_eq_true_iff.mp hjournal
        exact succeeds_optimizeRecorded (hown.journal (of_decide_eq_true hpath)
          (by simpa using hkept)) hown.log hstart.cwd hapart₂ h₃
    · refine (h₃.of_optimizeAll (I := fun _ => True) hown.log
        (fun run k w k' w' hw hk hrecord => ?_) hstart.cwd hapart₂ trivial).2
      obtain ⟨-, rfl⟩ := hrecord.of_pure
      exact ⟨trivial, .refl _⟩
  intro i hi
  obtain ⟨output, result, hyields, hfound⟩ := hmain.2 i hi
  obtain ⟨bytes, hbytes⟩ := hapart.there i hi
  refine ⟨?_, output, result,
    (hapart.yields_later hstart hi (hfree i hi)).mp hyields, hfound⟩
  rw [hbytes]
  refine hmain.1.find_kept (hstart.find_kept hbytes (hfree i hi)) ?_
  rintro (hF | hreach)
  · exact (hapart₂.free i hi).1 hF
  · exact (hapart₂.free i hi).2 hreach

deriving instance DecidableEq for Policy.Limits, Config, Found

/-- A file whose assembly has the given name and one method. -/
def oneMethod (flags : UInt8) (name code : List UInt8) : List UInt8 :=
  File.magic ++ [1, 0, 0, 0, flags, 0, 0, 0, 0xa3, 1,
    0x60 + name.length.toUInt8] ++ name ++ [3, 1, 7, 0x81, 0xa2, 1, 0x61, 0x4d,
      2, 0x81, 0xa2, 2, 0x61, 0x54, 3, 0x81, 0xa3, 1, 0x61, 0x66,
      4, 1, 5, 0xa3, 1, 1, 2, 0xf5, 4, 0x40 + code.length.toUInt8] ++ code

/-- Two assemblies with names of their own. -/
def twoInputs : Workspace where
  files := ⟨[(["A.exe"], .file (oneMethod 0 [0x41] [0x00, 0x70])),
    (["B.exe"], .file (oneMethod 0 [0x42] [0x70]))]⟩

/-- The output of an input is the one that is written. -/
theorem output_eq {w : Workspace} {i output path : String}
    {bytes result : List UInt8} (hfind : w.find i = .file bytes)
    (hwritten : (c.written i bytes).toOption.map (·.1) = some path)
    (h : c.Yields w i output result) : output = path := by
  obtain ⟨bytes', hfind', hwritten'⟩ := h
  obtain rfl : bytes = bytes' := Found.file.inj (hfind.symm.trans hfind')
  rw [hwritten'] at hwritten
  exact Option.some.inj hwritten

/-- Both are kept, and each has its result beside it. -/
theorem loses_nothing_twoInputs :
    WritesWithin {} {} {} twoInputs.cwd (fun _ => False) ∧
    KeptApart {} (fun _ => False) twoInputs ["A.exe", "B.exe"] ∧
    ∃ w', (optimize {} {} ["A.exe", "B.exe"] :
      ExceptT Fault (StateM Workspace) Unit) twoInputs = (.ok (), w') ∧
    ∀ i ∈ ["A.exe", "B.exe"], w'.find i = twoInputs.find i ∧
    ∃ output result, ({} : Config).Yields twoInputs i output result ∧
    w'.find output = .file result := by
  have hload : ((loadConfig {} (Path.dir "A.exe") : ExceptT Fault
      (StateM Workspace) Config) twoInputs).1 = .ok {} := by decide +kernel
  have hown : WritesWithin {} {} {} twoInputs.cwd (fun _ => False) :=
    ⟨by decide, fun h => absurd rfl h⟩
  have hA : twoInputs.find "A.exe" =
      .file (oneMethod 0 [0x41] [0x00, 0x70]) := by decide +kernel
  have hB : twoInputs.find "B.exe" = .file (oneMethod 0 [0x42] [0x70]) := by
    decide +kernel
  have hgoesA : (({} : Config).written "A.exe" (oneMethod 0 [0x41] [0x00,
      0x70])).toOption.map (·.1) = some "A.inlined.exe" := by decide +kernel
  have hgoesB : (({} : Config).written "B.exe" (oneMethod 0 [0x42]
      [0x70])).toOption.map (·.1) = some "B.inlined.exe" := by decide +kernel
  have hreaches : ∀ q, ({} : Config).Reaches twoInputs ["A.exe", "B.exe"] q →
      q ∈ [["A.inlined.exe"], ["B.inlined.exe"]] := by
    rintro q ⟨i, hi, output, result, hyields, rfl⟩
    obtain rfl | rfl : i = "A.exe" ∨ i = "B.exe" := by simpa using hi
    · rw [output_eq hA hgoesA hyields]
      decide +kernel
    · rw [output_eq hB hgoesB hyields]
      decide +kernel
  have hapart : KeptApart {} (fun _ => False) twoInputs ["A.exe", "B.exe"] := by
    refine ⟨fun i hi => ?_, fun i hi => ⟨not_false, fun hr => ?_⟩,
      fun _ _ => not_false, ?_⟩
    · obtain rfl | rfl : i = "A.exe" ∨ i = "B.exe" := by simpa using hi
      · exact ⟨_, hA⟩
      · exact ⟨_, hB⟩
    · have hq := hreaches _ hr
      obtain rfl | rfl : i = "A.exe" ∨ i = "B.exe" := by simpa using hi
      · exact absurd hq (by decide +kernel)
      · exact absurd hq (by decide +kernel)
    · refine List.pairwise_pair.mpr fun output result output' result' h h' => ?_
      rw [output_eq hA hgoesA h, output_eq hB hgoesB h']
      decide +kernel
  have hrun : ((optimize {} {} ["A.exe", "B.exe"] : ExceptT Fault
      (StateM Workspace) Unit) twoInputs).1 = .ok () := by decide +kernel
  rcases hafter : (optimize {} {} ["A.exe", "B.exe"] : ExceptT Fault
    (StateM Workspace) Unit) twoInputs with ⟨r, w'⟩
  rw [hafter] at hrun
  obtain rfl : r = .ok () := hrun
  exact ⟨hown, hapart, w', rfl, loses_nothing hload hown hapart hafter⟩

/-- An assembly, and the result of an earlier run. -/
def earlierResult : Workspace where
  files := ⟨[(["App.exe"], .file (oneMethod 0 [0x41, 0x70, 0x70] [0x00, 0x70])),
    (["App.inlined.exe"], .file
      (oneMethod 3 [0x41, 0x70, 0x70] [0x00, 0x00, 0x70]))]⟩

/-- The command succeeds all the same, if both are among its inputs.  The second
result goes where the first input was, so that neither this input nor its own
result is found in the end. -/
theorem input_overwritten :
    ∃ w' result, (optimize {} {} ["App.inlined.exe", "App.exe"] :
      ExceptT Fault (StateM Workspace) Unit) earlierResult = (.ok (), w') ∧
      w'.find "App.inlined.exe" ≠ earlierResult.find "App.inlined.exe" ∧
      ({} : Config).Yields earlierResult "App.inlined.exe" "App.inlined.exe"
      result ∧ w'.find "App.inlined.exe" ≠ .file result := by
  -- the run, evaluated once; the flags in the headers tell the two results
  -- apart
  obtain ⟨hrun, hplace, hflags⟩ :
      let after := (optimize {} {} ["App.inlined.exe", "App.exe"] :
        ExceptT Fault (StateM Workspace) Unit) earlierResult
      after.1 = .ok () ∧
        after.2.placeOf "App.inlined.exe" = ["App.inlined.exe"] ∧
      (after.2.files.contents ["App.inlined.exe"]).map (·.take 9) =
        some (File.magic ++ [1, 0, 0, 0, 1]) := by
    decide +kernel
  have hfind : earlierResult.find "App.inlined.exe" =
      .file (oneMethod 3 [0x41, 0x70, 0x70] [0x00, 0x00, 0x70]) := by
    decide +kernel
  have hwritten : (({} : Config).written "App.inlined.exe"
      (oneMethod 3 [0x41, 0x70, 0x70] [0x00, 0x00, 0x70])).toOption.map
      (fun r => (r.1, r.2.take 9)) = some ("App.inlined.exe", File.magic ++
        [1, 0, 0, 0, 3]) := by decide +kernel
  rcases hafter : (optimize {} {} ["App.inlined.exe", "App.exe"] :
    ExceptT Fault (StateM Workspace) Unit) earlierResult with ⟨r, w'⟩
  rw [hafter] at hrun hplace hflags
  obtain rfl : r = .ok () := hrun
  have hleft : ∀ bytes, w'.find "App.inlined.exe" = .file bytes →
      bytes.take 9 = File.magic ++ [1, 0, 0, 0, 1] := by
    intro bytes hbytes
    rw [← hplace, (Workspace.find_eq_file.mp hbytes).2] at hflags
    exact Option.some.inj hflags
  cases hresult : ({} : Config).written "App.inlined.exe"
      (oneMethod 3 [0x41, 0x70, 0x70] [0x00, 0x00, 0x70]) with
  | error e =>
      rw [hresult] at hwritten
      cases hwritten
  | ok written =>
      obtain ⟨output, result⟩ := written
      rw [hresult] at hwritten
      obtain ⟨rfl, hflags⟩ := Prod.mk.inj (Option.some.inj hwritten)
      refine ⟨w', result, rfl, fun heq => ?_, ⟨_, hfind, hresult⟩,
        fun heq => ?_⟩
      · exact absurd (hleft _ (heq.trans hfind)) (by decide)
      · exact absurd (hflags.symm.trans (hleft _ heq)) (by decide)

end Command

end Commands

end Bytecode
