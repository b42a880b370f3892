import Mathlib
import Bytecode.Journal.Connection
import Bytecode.Proofs.Places
import Bytecode.Proofs.Connections

/-!
# A journal writes its own files

A database is kept in a file, with files beside it for what is to be undone, for
the log and for sharing the log.  A connection writes to these and to no others,
unless a statement brings another file into play: by attaching a database or by
copying one.  `Stays` says so of an action, whatever comes of it: the files of
the connection stay within a set of places, and only files at these are changed.

A journal carries out scripts that are fixed, `staysHome_schema`, and changes
that only insert rows, `stays_change`, besides the directives in its name.  Main
statements: `spares_openAt` and `stays_record`, opening a journal and recording
a run change the files of the journal only.
-/

namespace Bytecode

/-! ### Confined actions -/

section Confined

variable {κ ε α β : Type} {cwd : Place} {F : Place → Prop} {I : κ → Prop}

/-- Whatever comes of an action in the directory `cwd`, it keeps `I` and changes
files at places in `F` only. -/
def Confined (cwd : Place) (F : Place → Prop) (I : κ → Prop)
    (x : ExceptT ε (StateT κ (StateM Workspace)) α) : Prop :=
  ∀ c w, w.cwd = cwd → I c → I (x c w).1.2 ∧ w.ChangesOnly F (x c w).2

variable {x : ExceptT ε (StateT κ (StateM Workspace)) α}
  {f : α → ExceptT ε (StateT κ (StateM Workspace)) β}

/-- Nothing is done. -/
theorem Confined.pure (a : α) : Confined cwd F I
    (Pure.pure a : ExceptT ε (StateT κ (StateM Workspace)) α) :=
  fun _ w _ hc => ⟨hc, .refl w⟩

/-- An action that fails does nothing. -/
theorem Confined.throw (e : ε) :
    Confined cwd F I (throw e : ExceptT ε (StateT κ (StateM Workspace)) α) :=
  fun _ w _ hc => ⟨hc, .refl w⟩

/-- The second of two actions begins where the first one has ended. -/
theorem StateM.bind_apply {S : Type} (y : StateM S α) (g : α → StateM S β)
    (s : S) : (y >>= g) s = g (y s).1 (y s).2 := rfl

/-- One confined action after the other. -/
theorem Confined.bind (hx : Confined cwd F I x)
    (hf : ∀ a, Confined cwd F I (f a)) : Confined cwd F I (x >>= f) := by
  intro c w hw hc
  obtain ⟨hc', hw'⟩ := hx c w hw hc
  rw [Database.bind_run, StateM.bind_apply]
  generalize x c w = r at hc' hw' ⊢
  obtain ⟨⟨e | a, c'⟩, w'⟩ := r
  · exact ⟨hc', hw'⟩
  · obtain ⟨hc'', hw''⟩ := hf a c' w' (hw'.cwd.trans hw) hc'
    exact ⟨hc'', hw'.trans hw''⟩

/-- A result is only looked at. -/
theorem Confined.observed {ε' : Type}
    {y : StateT κ (StateM Workspace) (Except ε' α)} (h : Confined cwd F I
      (ExceptT.mk y : ExceptT ε' (StateT κ (StateM Workspace)) α)) :
    Confined cwd F I
    (liftM y : ExceptT ε (StateT κ (StateM Workspace)) (Except ε' α)) := h

/-- What has been computed is known of the value that an action goes on with. -/
theorem Confined.ofExcept_bind {r : Except ε α}
    (h : ∀ a, r = .ok a → Confined cwd F I (f a)) :
    Confined cwd F I ((ExceptT.mk (Pure.pure r) :
      ExceptT ε (StateT κ (StateM Workspace)) α) >>= f) := by
  cases r with
  | error e => exact fun _ w _ hc => ⟨hc, .refl w⟩
  | ok a => exact h a rfl

/-- Something is done under a condition only, before an action goes on. -/
theorem Confined.guarded {p : Prop} [Decidable p]
    {x : ExceptT ε (StateT κ (StateM Workspace)) Unit}
    {k : Unit → ExceptT ε (StateT κ (StateM Workspace)) α}
    (hx : Confined cwd F I x) (hk : ∀ u, Confined cwd F I (k u)) :
    Confined cwd F I (if p then x >>= k else k ()) := by
  split
  · exact hx.bind hk
  · exact hk ()

/-- What has been kept so far is known of a state that is read. -/
theorem Confined.get_bind {f : κ → ExceptT ε (StateT κ (StateM Workspace)) α}
    (h : ∀ c, I c → Confined cwd F I (f c)) :
    Confined cwd F I (get >>= f) :=
  fun c w hw hc => h c hc c w hw hc

/-- A state that satisfies the invariant is set. -/
theorem Confined.set {c : κ} (h : I c) : Confined cwd F I
    (MonadStateOf.set c : ExceptT ε (StateT κ (StateM Workspace)) PUnit) :=
  fun _ w _ _ => ⟨h, .refl w⟩

/-- The state is changed as the invariant allows. -/
theorem Confined.modify {g : κ → κ} (h : ∀ c, I c → I (g c)) : Confined cwd F I
    (modify g : ExceptT ε (StateT κ (StateM Workspace)) PUnit) :=
  fun c w _ hc => ⟨h c hc, .refl w⟩

/-- An action, and what is done if it fails. -/
theorem Confined.tryCatch
    {handle : ε → ExceptT ε (StateT κ (StateM Workspace)) α}
    (hx : Confined cwd F I x) (hhandle : ∀ e, Confined cwd F I (handle e)) :
    Confined cwd F I (tryCatch x handle) := by
  intro c w hw hc
  obtain ⟨hc', hw'⟩ := hx c w hw hc
  rw [Database.tryCatch_run, StateM.bind_apply]
  generalize x c w = r at hc' hw' ⊢
  obtain ⟨⟨e | a, c'⟩, w'⟩ := r
  · obtain ⟨hc'', hw''⟩ := hhandle e c' w' (hw'.cwd.trans hw) hc'
    exact ⟨hc'', hw'.trans hw''⟩
  · exact ⟨hc', hw'⟩

/-- The same is done for each element of a list. -/
theorem Confined.forM {l : List α}
    {f : α → ExceptT ε (StateT κ (StateM Workspace)) PUnit}
    (h : ∀ a ∈ l, Confined cwd F I (f a)) : Confined cwd F I (l.forM f) := by
  induction l with
  | nil => exact .pure ()
  | cons a l ih =>
      exact .bind (h a List.mem_cons_self) fun _ => ih fun b hb =>
        h b (List.mem_cons_of_mem _ hb)

/-- Whatever comes of a command in the directory `cwd`, it changes files at
places in `F` only, and what it gives satisfies `P`. -/
def Spares (cwd : Place) (F : Place → Prop) (P : α → Prop)
    (x : ExceptT ε (StateM Workspace) α) : Prop :=
  ∀ w, w.cwd = cwd → w.ChangesOnly F (x w).2 ∧ ∀ a, (x w).1 = .ok a → P a

/-- A command that only gives something. -/
theorem Spares.pure {P : α → Prop} {a : α} (h : P a) :
    Spares cwd F P (Pure.pure a : ExceptT ε (StateM Workspace) α) :=
  fun w _ => ⟨.refl w, fun b hb => by cases hb; exact h⟩

theorem Spares.throw {P : α → Prop} (e : ε) :
    Spares cwd F P (MonadExcept.throw e : ExceptT ε (StateM Workspace) α) :=
  fun w _ => ⟨.refl w, fun a ha => by cases ha⟩

/-- One command goes on with what another gives. -/
theorem Spares.bind {P : α → Prop} {Q : β → Prop}
    {x : ExceptT ε (StateM Workspace) α}
    {f : α → ExceptT ε (StateM Workspace) β} (hx : Spares cwd F P x)
    (hf : ∀ a, P a → Spares cwd F Q (f a)) : Spares cwd F Q (x >>= f) := by
  intro w hw
  obtain ⟨hw', hP⟩ := hx w hw
  change w.ChangesOnly F
    (match x w with | (a, w') => ExceptT.bindCont f a w').2 ∧
    ∀ b, (match x w with | (a, w') => ExceptT.bindCont f a w').1 = .ok b → Q b
  generalize x w = r at hw' hP ⊢
  obtain ⟨e | a, w'⟩ := r
  · exact ⟨hw', fun b hb => by cases hb⟩
  · obtain ⟨hw'', hQ⟩ := hf a (hP a rfl) w' (hw'.cwd.trans hw)
    exact ⟨hw'.trans hw'', hQ⟩

/-- Something is done under a condition only, before a command goes on. -/
theorem Spares.guarded {P : α → Prop} {p : Prop} [Decidable p]
    {x : ExceptT ε (StateM Workspace) Unit}
    {k : Unit → ExceptT ε (StateM Workspace) α}
    (hx : Spares cwd F (fun _ => True) x) (hk : ∀ u, Spares cwd F P (k u)) :
    Spares cwd F P (if p then x >>= k else k ()) := by
  split
  · exact hx.bind fun u _ => hk u
  · exact hk ()

/-- An action goes on after something has been looked at. -/
theorem bind_look {x : StateM Workspace α} {f : α → StateM Workspace β}
    {w : Workspace} (h : (x w).2 = w) : (x >>= f) w = f (x w).1 w := by
  change f (x w).1 (x w).2 = _
  rw [h]

/-- A command goes on after something has been looked at. -/
theorem Spares.look {x : StateM Workspace α}
    {f : α → ExceptT ε (StateM Workspace) β} {Q : β → Prop}
    (hx : ∀ w, (x w).2 = w) (hf : ∀ a, Spares cwd F Q (f a)) :
    Spares cwd F Q (liftM x >>= f) := by
  refine .bind (P := fun _ => True)
    (fun w hw => ⟨?_, fun _ _ => trivial⟩) fun a _ => hf a
  change w.ChangesOnly F (x w).2
  rw [hx]
  exact .refl w

/-- A command goes on after a file has been written, or has not. -/
theorem Spares.store {path : String} {bytes : List UInt8}
    {f : Except Cause Unit → ExceptT ε (StateM Workspace) β} {Q : β → Prop}
    (h : F (Place.ofPath cwd path)) (hf : ∀ r, Spares cwd F Q (f r)) :
    Spares cwd F Q (liftM (Host.store (m := StateM Workspace) path bytes) >>=
      f) := by
  refine .bind (P := fun _ => True)
    (fun w hw => ⟨?_, fun _ _ => trivial⟩) fun r _ => hf r
  refine (w.changesOnly_store path bytes).mono fun q hq => ?_
  rw [hq, Workspace.placeOf, hw]
  exact h

/-- An action that is carried out by itself. -/
theorem Confined.spares_run {ε' : Type} {c : κ} (hx : Confined cwd F I x)
    (hc : I c) : Spares cwd F (fun r => I r.2)
    (liftM (x.run.run c) : ExceptT ε' (StateM Workspace) (Except ε α × κ)) := by
  intro w hw
  obtain ⟨hc', hw'⟩ := hx c w hw hc
  refine ⟨hw', fun r hr => ?_⟩
  obtain rfl := Except.ok.inj hr
  exact hc'

end Confined

namespace Database

/-! ### Statements that bring no other file into play -/

/-- The statement brings no other file into play. -/
def Statement.staysHome : Statement → Bool
  | .attach _ _ | .vacuum _ (some _) => false
  | _ => true

/-- All of the statements that pieces spell, at most so many, stay home. -/
def Statement.allStayHome : Nat → List Token → Bool
  | 0, _ => true
  | fuel + 1, ts =>
    match Statement.next ts with
    | .ok (some (s, rest)) => s.staysHome && allStayHome fuel rest
    | _ => true

/-- All statements of a script stay home. -/
def staysHome (script : String) : Bool :=
  Statement.allStayHome ((Token.all script).length + 1) (Token.all script)

theorem staysHome_eq (script : String) : staysHome script =
    Statement.allStayHome ((Token.scan [] script.toList).length + 1)
    (Token.scan [] script.toList) := rfl

/-- The tables of a journal are made in its own files. -/
theorem staysHome_schema : staysHome Journal.schema = true := by
  rw [staysHome_eq]
  unfold Journal.schema
  simp only [String.toList_append]
  -- a literal is made of its characters by definition, so no bytes have to be
  -- read
  repeat rw [String.toList_ofList]
  decide +kernel

/-- Statements on rows stay home. -/
theorem Statement.staysHome_of_isOnRows {s : Statement}
    (h : s.isOnRows = true) : s.staysHome = true := by
  cases s with
  | insert _ | update _ | delete _ | select _ => rfl
  | _ => cases h

/-- The files that belong to the database at a path are at places in `F`. -/
structure OwnFiles (cwd : Bytecode.Place) (F : Bytecode.Place → Prop)
    (path : String) : Prop where
  file : F (Place.ofPath cwd path)
  undo : F (Place.ofPath cwd (Connection.undoPath path))
  log : F (Place.ofPath cwd (Connection.logPath path))
  shared : F (Place.ofPath cwd (Connection.sharedPath path))

namespace Connection

/-- The files of all databases of a connection are at places in `F`. -/
def Within (cwd : Bytecode.Place) (F : Bytecode.Place → Prop) (c : Connection) :
    Prop :=
  ∀ b ∈ c.backings, OwnFiles cwd F b.path

variable {α : Type} {cwd : Bytecode.Place} {F : Bytecode.Place → Prop}
  {c : Connection} {b : Backing} {path : String}

/-- An action that keeps the files of a connection within `F`, and changes none
elsewhere. -/
abbrev Stays (cwd : Bytecode.Place) (F : Bytecode.Place → Prop)
    (t : Task (StateM Workspace) α) : Prop :=
  Confined cwd F (Within cwd F) t

/-- A file stays in its place, whatever is known of it. -/
theorem Within.setBacking (h : c.Within cwd F) {n : Nat} {f : Backing → Backing}
    (hf : ∀ b, (f b).path = b.path) : (c.setBacking n f).Within cwd F := by
  intro b hb
  obtain ⟨b', hb', rfl⟩ := List.mem_map.mp hb
  split
  · rw [hf]
    exact h b' hb'
  · exact h b' hb'

theorem stays_ofExcept (r : Except Failure α) :
    Stays cwd F (ofExcept r : Task (StateM Workspace) α) :=
  fun _ w _ hc => ⟨hc, .refl w⟩

/-- A host is asked for something at places in `F`. -/
theorem stays_ask {x : StateM Workspace α}
    (h : ∀ w : Workspace, w.cwd = cwd → w.ChangesOnly F (x w).2) :
    Stays cwd F (ask x) :=
  fun _ w hw hc => ⟨hc, h w hw⟩

theorem stays_find (path : String) :
    Stays cwd F (ask (Host.find (m := StateM Workspace) path)) :=
  stays_ask fun w _ => .refl w

/-- Looking at a file changes none. -/
theorem stays_look (path : String) :
    Stays cwd F (look (m := StateM Workspace) path) := by
  refine .bind (stays_find path) fun found => ?_
  split <;> exact .pure _

/-- A file at a place in `F` is taken away. -/
theorem stays_remove (h : F (Place.ofPath cwd path)) :
    Stays cwd F (remove (m := StateM Workspace) path) := by
  refine stays_ask fun w hw => (w.changesOnly_remove path).mono fun q hq => ?_
  rw [hq, Workspace.placeOf, hw]
  exact h

/-- A file at a place in `F` is written. -/
theorem stays_store (h : F (Place.ofPath cwd path)) (bytes : List UInt8) :
    Stays cwd F (store (m := StateM Workspace) path bytes) := by
  refine .bind (stays_ask fun w hw => (w.changesOnly_store path bytes).mono
    fun q hq => ?_) fun r => ?_
  · rw [hq, Workspace.placeOf, hw]
    exact h
  · split
    · exact .pure _
    · exact .throw _

/-- A file of changes to undo is looked at, and is taken away in the end. -/
theorem stays_checkUndo (hb : OwnFiles cwd F b.path) (bytes : List UInt8) :
    Stays cwd F (checkUndo (m := StateM Workspace) b bytes) := by
  rw [checkUndo]
  refine .get_bind fun c hc => .bind (stays_look _) fun beside => ?_
  split
  · exact .pure _
  · split
    · exact .pure _
    · exact .throw _
  · split
    · split
      · exact .bind (stays_remove hb.undo) fun _ => .pure _
      · exact .pure _
    · split
      · exact .pure _
      · refine .guarded (.throw _) fun _ => ?_
        refine .guarded (stays_store hb.file _) fun _ => ?_
        exact .bind (stays_remove hb.undo) fun _ => .pure _

/-- A log is opened, and the file with which it is shared is made. -/
theorem stays_openLog (hb : OwnFiles cwd F b.path) :
    Stays cwd F (openLog (m := StateM Workspace) b) := by
  rw [openLog]
  refine .get_bind fun c hc => ?_
  refine .guarded (.throw _) fun _ => .bind (stays_look _) fun beside => ?_
  extract_lets rest
  have hrest : ∀ log, Stays cwd F (rest log) := by
    intro log
    have hopened : Stays cwd F (modify (m := Task (StateM Workspace)) fun c =>
        c.setBacking b.store
          ({ · with isLogOpen := true, isAhead := !log.pages.isEmpty })) :=
      .modify fun c hc => hc.setBacking fun _ => rfl
    simp only [rest]
    split
    · refine .bind (stays_look _) fun beside => ?_
      split
      · exact .bind (.modify fun c hc => Within.setBacking
          (c := { c with session := _ }) hc fun _ => rfl) fun _ => .pure _
      · exact .bind (stays_store hb.shared _) fun _ =>
          .bind hopened fun _ => .pure _
    · exact .bind hopened fun _ => .pure _
  split
  · exact .bind (.throw _) hrest
  · exact .bind (stays_ofExcept _) hrest
  · exact .bind (stays_store hb.log _) fun _ => .bind (.pure _) hrest

/-- A log that is left over is taken away, or is opened. -/
theorem stays_checkLog (hb : OwnFiles cwd F b.path) (isBlank : Bool) :
    Stays cwd F (checkLog (m := StateM Workspace) b isBlank) := by
  refine .bind (stays_look _) fun beside => ?_
  split
  · exact .pure _
  · exact .throw _
  · split
    · exact .bind (stays_remove hb.log) fun _ => .pure _
    · exact .bind (stays_openLog hb) fun _ => .pure _

/-- What a file holds is taken over. -/
theorem stays_install (b : Backing) (bytes : List UInt8) (pages : Pages) :
    Stays cwd F (install (m := StateM Workspace) b bytes pages) :=
  .modify fun c hc =>
    Within.setBacking (c := { c with session := _ }) hc fun _ => rfl

/-- A file is looked at with the files beside it. -/
theorem stays_shareBacking (hb : OwnFiles cwd F b.path) :
    Stays cwd F (shareBacking (m := StateM Workspace) b) := by
  have hinstall : ∀ (bytes : List UInt8) (r : Except Failure Pages),
      Stays cwd F (ofExcept r >>= install (m := StateM Workspace) b bytes) :=
    fun bytes r => .bind (stays_ofExcept _) fun _ => stays_install _ _ _
  rw [shareBacking]
  split
  · exact .pure _
  · refine .bind (stays_find _) fun found => ?_
    split
    · extract_lets followed
      have hfollowed : ∀ bytes, Stays cwd F (followed bytes) := by
        intro bytes
        simp -zeta only [followed]
        extract_lets logged installed
        have hlogged : ∀ u, Stays cwd F (logged u) := by
          intro u
          refine .get_bind fun c hc => ?_
          split
          · refine .bind (stays_openLog hb) fun log => ?_
            split
            · exact hinstall _ _
            · exact .pure _
          · exact .pure _
        have hinstalled : ∀ log?, Stays cwd F (installed log?) := by
          intro log?
          simp -zeta only [installed]
          split
          · exact hinstall _ _
          · split
            · exact .bind (stays_ofExcept _) fun _ =>
                .bind (stays_install _ _ _) hlogged
            · exact hlogged ()
        split
        · exact .bind (.pure _) hinstalled
        · exact .bind (stays_checkLog hb _) hinstalled
      split
      · exact .bind (.pure _) hfollowed
      · exact .bind (stays_checkUndo hb _) hfollowed
    · exact .throw _

/-- All files of a connection are looked at. -/
theorem stays_share (r : Reading) :
    Stays cwd F (share (m := StateM Workspace) r) := by
  rw [share]
  split
  · exact .pure _
  · refine .get_bind fun c hc => ?_
    extract_lets learn
    have hlearn : ∀ u, Stays cwd F (learn u) := by
      intro u
      simp only [learn]
      split
      · refine .get_bind fun c hc => .forM fun b hb => .get_bind fun c hc => ?_
        exact .bind (stays_ofExcept _) fun s => .modify fun c hc => hc
      · exact .pure _
    split
    · refine .get_bind fun c hc =>
        .bind (.forM fun b hb => stays_shareBacking (hc b hb)) fun _ => ?_
      exact .bind (.modify fun c hc => hc) hlearn
    · exact hlearn ()

/-- The file of changes to undo is dealt with as its mode says. -/
theorem stays_settleUndo (h : F (Place.ofPath cwd (undoPath path)))
    (mode : UndoMode) :
    Stays cwd F (settleUndo (m := StateM Workspace) path mode) := by
  cases mode with
  | delete => exact stays_remove h
  | persist => exact stays_store h _
  | truncate => exact stays_store h _
  | _ => exact .pure _

/-- A database is written to its file. -/
theorem stays_keepBacking (hb : OwnFiles cwd F b.path) :
    Stays cwd F (keepBacking (m := StateM Workspace) b) := by
  rw [keepBacking]
  refine .get_bind fun c hc => ?_
  have hset : ∀ (session : Session) (f : Backing → Backing),
      (∀ b, (f b).path = b.path) → Stays cwd F (set (m :=
        Task (StateM Workspace)) (setBacking { c with session } b.store f)) :=
    fun session f hf => .set (Within.setBacking (c := { c with session }) hc hf)
  simp only
  split
  · split
    · exact hset _ _ fun _ => rfl
    · refine .bind (stays_store hb.file _) fun _ =>
        .bind (stays_settleUndo hb.undo _) fun _ => ?_
      exact hset _ _ fun _ => rfl
  · exact .pure _

/-- Looking whether changes could be undone changes no file. -/
theorem stays_checkUndoable (b : Backing) :
    Stays cwd F (checkUndoable (m := StateM Workspace) b) := by
  rw [checkUndoable]
  refine .get_bind fun c hc => ?_
  simp only
  split
  · refine .bind (stays_find _) fun found => ?_
    split
    · exact .throw _
    · exact .throw _
    · exact .pure _
    · exact .pure _
  · exact .pure _

/-- At the end of a statement the files of the connection are written. -/
theorem stays_settle (before : Session) :
    Stays cwd F (settle (m := StateM Workspace) before) := by
  rw [settle]
  refine .bind (.tryCatch ?_ fun f => .bind (.modify fun c hc => hc) fun _ =>
    .throw _) fun _ => .get_bind fun c hc => ?_
  · refine .get_bind fun c hc => .bind (.forM fun b _ => stays_checkUndoable b)
      fun _ => .get_bind fun c hc => ?_
    split
    · exact .get_bind fun c hc => .forM fun b hb => stays_keepBacking (hc b hb)
    · exact .pure _
  · split
    · exact .modify fun c hc => hc
    · exact .pure _

/-- A log is written to its file and taken away. -/
theorem stays_closeLog (hb : OwnFiles cwd F b.path) :
    Stays cwd F (closeLog (m := StateM Workspace) b) := by
  have hclosed :
      ∀ u : Unit, Stays cwd F (modify (m := Task (StateM Workspace)) fun c =>
      c.setBacking b.store ({ · with isLogOpen := false, isAhead := false })) :=
    fun _ => .modify fun c hc => hc.setBacking fun _ => rfl
  have hremoved := (stays_remove hb.log).bind fun _ =>
    .guarded (p := b.sharesLog = true) (stays_remove hb.shared) hclosed
  rw [closeLog]
  simp only
  split
  · refine .get_bind fun c hc => .bind (stays_store hb.file _) fun _ => ?_
    exact .bind (.modify fun c hc => hc.setBacking fun _ => rfl) fun _ =>
      hremoved
  · exact hremoved

/-- A change of mode may take away files of the connection. -/
theorem stays_followUndo (d : Directive) :
    Stays cwd F (followUndo (m := StateM Workspace) d) := by
  rw [followUndo]
  refine .get_bind fun c hc => ?_
  split
  · split
    · exact .pure _
    · exact .pure _
    · exact .pure _
    · next b mode _ hfound _ =>
        have hb : OwnFiles cwd F b.path := by
          obtain ⟨n, -, hn⟩ := Option.bind_eq_some_iff.mp hfound
          exact hc b (List.mem_of_find?_eq_some hn)
        simp only
        split
        · exact .guarded (.throw _) fun _ => stays_closeLog hb
        · split
          · exact stays_remove hb.undo
          · exact .pure _
  · exact .pure _

/-- Looking for a directory changes no file. -/
theorem stays_checkDirectory (d : Directive) :
    Stays cwd F (checkDirectory (m := StateM Workspace) d) := by
  rw [checkDirectory]
  split
  · split
    · exact .pure _
    · exact .pure _
    · refine .bind (stays_find _) fun found => ?_
      split
      · exact .pure _
      · exact .pure _
      · exact .throw _
  · exact .pure _

/-- Each file of a connection is at its place. -/
theorem Within.owns (hc : c.Within cwd F) {n : Nat}
    (h : c.backing? n = some b) : OwnFiles cwd F b.path :=
  hc b (List.mem_of_find?_eq_some h)

/-- A database that is taken away may have a log to close. -/
theorem stays_detach (name : Expr) :
    Stays cwd F (detach (m := StateM Workspace) name) := by
  rw [detach]
  refine .get_bind fun c hc => .bind (stays_ofExcept _) fun r => ?_
  obtain ⟨n, session⟩ := r
  simp only
  refine .get_bind fun c hc => ?_
  have hleft :
      ∀ u : Unit, Stays cwd F (modify (m := Task (StateM Workspace)) fun c =>
      { c with session, backings := c.backings.filter fun b => b.store ≠ n }) :=
    fun _ => .modify fun c hc b hb => hc b (List.mem_of_mem_filter hb)
  split
  · next b hfound => exact .guarded (stays_closeLog (hc.owns hfound)) hleft
  · exact hleft ()

/-- A directive may take away files of the connection. -/
theorem stays_follow (s : Statement) :
    Stays cwd F (follow (m := StateM Workspace) s) := by
  cases s with
  | directive d =>
      exact .bind (stays_checkDirectory d) fun _ => stays_followUndo d
  | _ => exact .pure ()

/-- Making sense of a statement changes no file. -/
theorem stays_makeSense (args : List Value) (s : Statement) :
    Stays cwd F (makeSense (m := StateM Workspace) args s) := by
  refine .get_bind fun c hc => .bind (stays_ofExcept _) fun p => ?_
  split
  · exact .throw _
  · exact .pure p

/-- A statement that stays home brings no file into play. -/
theorem stays_bringIn {s : Statement} (hs : s.staysHome = true) :
    Stays cwd F (bringIn (m := StateM Workspace) s) := by
  unfold bringIn
  split
  · cases hs
  · exact stays_detach _
  · cases hs
  · exact .pure ()

/-- What is carried out ends with the files of the connection. -/
theorem stays_carryOut (before : Session) (p : Prepared) :
    Stays cwd F (carryOut (m := StateM Workspace) before p) := by
  refine .get_bind fun c hc => ?_
  simp only
  exact .bind (.set hc) fun _ => .bind (stays_settle _) fun _ =>
    .bind (stays_ofExcept _) fun _ => .pure _

/-- **A statement writes the files of the connection only**, unless it names
others. -/
theorem stays_perform (args : List Value) {s : Statement}
    (hs : s.staysHome = true) :
    Stays cwd F (perform (m := StateM Workspace) args s) :=
  .bind (stays_share _) fun _ => .bind (stays_follow s) fun _ =>
    .get_bind fun c _ => .bind (stays_makeSense args s) fun p =>
      .bind (stays_bringIn hs) fun _ => stays_carryOut c.session p

/-- So do statements one after the other. -/
theorem stays_performAll {fuel : Nat} {ts : List Token}
    (h : Statement.allStayHome fuel ts = true) :
    Stays cwd F (performAll (m := StateM Workspace) fuel ts) := by
  induction fuel generalizing ts with
  | zero => exact .pure _
  | succ fuel ih =>
      rw [Statement.allStayHome] at h
      rw [performAll]
      split at h
      · next s rest hnext =>
          obtain ⟨hs, hrest⟩ := Bool.and_eq_true_iff.mp h
          simp only [hnext]
          refine .bind (stays_perform [] hs) fun answer => ?_
          split
          · exact .throw _
          · exact ih hrest
      · next hnext =>
          split
          · exact .throw _
          · exact .pure _
          · next s rest hs => exact absurd hs (hnext s rest)

/-- **A script writes the files of the connection only**, unless it names
others. -/
theorem stays_script {text : String} (h : staysHome text = true) :
    Stays cwd F (script (m := StateM Workspace) text) :=
  stays_performAll h

/-- So does a statement with values for its places. -/
theorem stays_query {text : String}
    (h : ∀ s, Statement.ofText text = .ok s → s.staysHome = true)
    (args : List Value) :
    Stays cwd F (query (m := StateM Workspace) text args) := by
  rw [query]
  split
  · exact .throw _
  · next s hs => exact stays_perform args (h s hs)

/-- Closing a connection closes its logs. -/
theorem stays_close : Stays cwd F (close (m := StateM Workspace)) := by
  rw [close]
  refine .bind (.modify fun c hc => hc) fun _ => .get_bind fun c hc =>
    .forM fun b hb => ?_
  split
  · exact stays_closeLog (hc b hb)
  · exact .pure _

/-- Where the file of a database with a given name is, for someone in the
directory `cwd`. -/
def pathOf (cwd : Bytecode.Place) (name : String) : String :=
  Place.text ((Path.components name).foldl Place.step
    (if Path.isAbsolute name then []
    else Path.cleanComponents (Place.text cwd)))

/-- A path is resolved without a change, and to what its text says. -/
theorem resolve_apply (here cs : List String) (w : Workspace) :
    (resolve (m := StateM Workspace) here cs w).2 = w ∧
      ∀ found, (resolve (m := StateM Workspace) here cs w).1 = some found →
        found = cs.foldl Place.step here := by
  induction cs generalizing here with
  | nil => exact ⟨rfl, fun found h => (Option.some.inj h).symm⟩
  | cons c cs ih =>
      rw [resolve, List.foldl_cons, Place.step]
      split
      · exact ih here
      · split
        · exact ih here.dropLast
        · simp only
          split
          · exact ⟨rfl, fun found h => by cases h⟩
          · rw [bind_look rfl]
            generalize (Host.find (m := StateM Workspace) _ w).1 = found
            cases found with
            | unavailable reason => exact ⟨rfl, fun found h => by cases h⟩
            | _ => exact ih (here ++ [c])

/-- A file is located without a change, and at the path of its name. -/
theorem locate?_apply (name : String) (w : Workspace) :
    (locate? (m := StateM Workspace) name w).2 = w ∧
      ∀ path, (locate? (m := StateM Workspace) name w).1 = some path →
        path = pathOf w.cwd name := by
  obtain ⟨hsame, hfound⟩ := resolve_apply (if Path.isAbsolute name then [] else
    Path.cleanComponents (Host.workingDirectory (m := StateM Workspace) w).1)
      (Path.components name) w
  rw [locate?, bind_look rfl]
  simp only
  rw [bind_look hsame]
  generalize (resolve (m := StateM Workspace) _ _ w).1 = found at hfound
  split
  · exact ⟨rfl, fun path h => by cases h⟩
  · exact ⟨rfl, fun path h => by cases h⟩
  · next components _ =>
      refine ⟨rfl, fun path h => ?_⟩
      have hcomponents := hfound components rfl
      change (if Text.size (Place.text components) ≤
            maxPath then some (Place.text components)
        else none) = some path at h
      split at h
      · rw [← Option.some.inj h, hcomponents]
        rfl
      · cases h

end Connection

end Database

/-! ### Journals -/

namespace Journal

open Database (OwnFiles Failure)

variable {α : Type} {cwd : Place} {F : Place → Prop}

/-- The scripts that an address holds bring no other file into play. -/
structure Location.StaysHome (l : Location) : Prop where
  directives :
    ∀ text ∈ l.directives, Database.staysHome ("pragma " ++ text) = true
  opening : ∀ text, l.opening = .ok text → Database.staysHome text = true

namespace Connection

/-- The files of a journal are at places in `F`, and its transactions bring no
others into play. -/
structure Within (cwd : Place) (F : Place → Prop) (c : Connection) : Prop where
  link : c.link.Within cwd F
  opening : Database.staysHome c.opening = true

/-- An action that keeps the files of a journal within `F`, and changes none
elsewhere. -/
abbrev Stays (cwd : Place) (F : Place → Prop) (t : Task (StateM Workspace) α) :
    Prop :=
  Confined cwd F (Within cwd F) t

/-- Something is done with the database of a journal if that is open. -/
theorem onDatabase_apply (t : Database.Task (StateM Workspace) α)
    (c : Connection) (w : Workspace) : onDatabase t c w = if c.isOpen then
        (((t c.link w).1.1.mapError Failure.cause,
          { c with link := (t c.link w).1.2 }), (t c.link w).2)
      else ((.error closed, c), w) := by
  change (if !c.isOpen then _ else
      _ : StateT Connection (StateM Workspace) (Except Cause α)) c w = _
  cases hopen : c.isOpen with
  | true => rfl
  | false => rfl

/-- What stays within the files of a database stays within those of its
journal. -/
theorem stays_onDatabase {t : Database.Task (StateM Workspace) α}
    (ht : Database.Connection.Stays cwd F t) :
    Confined cwd F (Within cwd F) (ExceptT.mk (onDatabase t) :
      ExceptT Cause (StateT Connection (StateM Workspace)) α) := by
  intro c w hw hc
  obtain ⟨hlink, hw'⟩ := ht c.link w hw hc.link
  change Within cwd F (onDatabase t c w).1.2 ∧
    w.ChangesOnly F (onDatabase t c w).2
  rw [onDatabase_apply]
  split
  · exact ⟨⟨hlink, hc.opening⟩, hw'⟩
  · exact ⟨hc, .refl w⟩

theorem stays_during {x : StateT Connection (StateM Workspace) (Except Cause α)}
    (hx : Confined cwd F (Within cwd F)
      (ExceptT.mk x : ExceptT Cause (StateT Connection (StateM Workspace)) α))
    (task : String) : Stays cwd F (during task x) :=
  hx

/-- A script of a journal. -/
theorem stays_script {text : String} (h : Database.staysHome text = true)
    (task : String) : Stays cwd F (script (m := StateM Workspace) task text) :=
  stays_during (stays_onDatabase (Database.Connection.stays_script h)) task

/-- Closing a journal closes its connection. -/
theorem stays_close : Stays cwd F (close (m := StateM Workspace)) := by
  rw [close]
  refine .get_bind fun c hc => ?_
  split
  · refine .bind (.observed (stays_onDatabase Database.Connection.stays_close))
      fun _ => ?_
    exact .modify fun c hc => ⟨hc.link, hc.opening⟩
  · exact .pure _

/-- Opening a transaction. -/
theorem stays_begin : Confined cwd F (Within cwd F) (ExceptT.mk Engine.begin :
      ExceptT Cause (StateT Connection (StateM Workspace)) Unit) :=
  fun c w hw hc =>
    stays_onDatabase (Database.Connection.stays_script hc.opening) c w hw hc

/-- Recording a run changes the files of the journal only. -/
theorem stays_record (run : Option Run) :
    Stays cwd F (record run : Task (StateM Workspace) Unit) := by
  have hrollback : Confined cwd F (Within cwd F) (ExceptT.mk Engine.rollback :
      ExceptT Cause (StateT Connection (StateM Workspace)) Unit) :=
    stays_onDatabase (Database.Connection.stays_script (by decide +kernel))
  have hcommit : Confined cwd F (Within cwd F) (ExceptT.mk Engine.commit :
      ExceptT Cause (StateT Connection (StateM Workspace)) Unit) :=
    stays_onDatabase (Database.Connection.stays_script (by decide +kernel))
  have hchange :
      ∀ c, Confined cwd F (Within cwd F) (ExceptT.mk (Engine.change c) :
        ExceptT Cause (StateT Connection (StateM Workspace)) Unit) :=
    fun c => stays_onDatabase
      (.bind (Database.Connection.stays_query (fun s hs =>
        Database.Statement.staysHome_of_isOnRows (c.isOnRows s hs)) _) fun _ =>
          .pure _)
  rw [record]
  refine .ofExcept_bind fun r _ =>
    .bind (stays_during stays_begin _) fun _ => ?_
  refine .bind (.tryCatch (.forM fun c _ => stays_during (hchange c) _) fun f =>
    ?_) fun _ =>
    stays_during hcommit _
  exact .bind (.observed hrollback) fun _ => .throw _

/-- Preparing a journal, as its address says. -/
theorem stays_prepare {l : Location} (hdirectives : ∀ text ∈ l.directives,
      Database.staysHome ("pragma " ++ text) = true)
    (hopening : ∀ text, l.opening = .ok text → Database.staysHome text = true) :
    Stays cwd F (prepare (m := StateM Workspace) l) := by
  rw [prepare]
  refine .bind (.forM fun text htext => stays_script (hdirectives text htext) _)
    fun _ => ?_
  refine .ofExcept_bind fun opening hl => ?_
  refine .bind (.modify fun c hc => ⟨hc.link, hopening opening hl⟩) fun _ => ?_
  refine .bind (stays_script (by decide +kernel) _) fun _ => ?_
  exact stays_script Database.staysHome_schema _

/-- The file of a journal is made, if it is not there. -/
theorem spares_provide {path : String} (h : F (Place.ofPath cwd path))
    (mode : Mode) : Spares cwd F (fun _ =>
      True) (provide (m := StateM Workspace) mode path) := by
  rw [provide]
  refine .look (fun w => rfl) fun found => ?_
  split
  · exact .pure trivial
  · exact .throw _
  · exact .throw _
  · refine .guarded (.throw _) fun _ => .store h fun r => ?_
    split
    · exact .pure trivial
    · exact .throw _

/-- The file of a journal is located. -/
theorem spares_locate (name : String) :
    Spares cwd F (· = Database.Connection.pathOf cwd name)
      (locate (m := StateM Workspace) name) := by
  refine .bind (P := fun found => ∀ path, found = some path → path =
    Database.Connection.pathOf cwd name) (fun w hw => ?_) fun found hfound => ?_
  · obtain ⟨hsame, hpath⟩ := Database.Connection.locate?_apply name w
    rw [hw] at hpath
    refine ⟨?_, fun found h => ?_⟩
    · change w.ChangesOnly F
        (Database.Connection.locate? (m := StateM Workspace) name w).2
      rw [hsame]
      exact .refl w
    · obtain rfl := Except.ok.inj h
      exact hpath
  · split
    · exact .pure (hfound _ rfl)
    · exact .throw _

/-- Looking for what a file is to be made like changes no file. -/
theorem spares_checkLikeness (likeness : Option String) : Spares cwd F (fun _ =>
      True) (checkLikeness (m := StateM Workspace) likeness) := by
  cases likeness with
  | none => exact .pure trivial
  | some path =>
    refine .look (fun _ => rfl) fun found => ?_
    split
    · exact .pure trivial
    · exact .pure trivial
    · exact .throw _
    · exact .throw _

/-- Connecting to a journal makes its own file at most. -/
theorem spares_connect {l : Location} (h : l.isVolatile = false →
    OwnFiles cwd F (Database.Connection.pathOf cwd l.name)) :
    Spares cwd F (·.Within cwd F) (connect (m := StateM Workspace) l) := by
  rw [connect]
  simp only
  split
  · exact .pure fun b hb => by cases hb
  · next hkept =>
      have howns := h (by simpa using hkept)
      refine .bind (spares_locate l.name) fun path hpath => ?_
      subst hpath
      refine .bind (spares_checkLikeness _) fun _ _ =>
        .bind (spares_provide howns.file _) fun _ _ => .pure fun b hb => ?_
      obtain rfl := List.mem_singleton.mp hb
      exact howns

/-- **An open journal** changes its own files only, from its opening on. -/
theorem spares_openAt {name : String}
    (h : ∀ l, Location.ofText name = .ok l → l.StaysHome ∧ (l.isVolatile =
      false → OwnFiles cwd F (Database.Connection.pathOf cwd l.name))) :
    Spares cwd F (·.Within cwd F) (openAt (m := StateM Workspace) name) := by
  rw [openAt]
  cases hl : Location.ofText name with
  | error f => exact .throw f
  | ok l =>
      obtain ⟨hhome, howns⟩ := h l hl
      refine .bind (P := (· = l))
        (fun w _ => ⟨.refl w, fun a ha => (Except.ok.inj ha).symm⟩) ?_
      rintro _ rfl
      refine .bind (spares_connect howns) fun link hlink => ?_
      have hbegin : Database.staysHome "begin" = true := by decide +kernel
      have hstart : Within cwd F { name, link, opening := "begin" } :=
        ⟨hlink, hbegin⟩
      refine .bind
        ((stays_prepare hhome.directives hhome.opening).spares_run hstart) ?_
      rintro ⟨_ | f, c⟩ hc
      · exact .bind (stays_close.spares_run hc) fun _ _ => .throw _
      · exact .pure hc

end Connection

end Journal

end Bytecode
