import Mathlib
import Bytecode.Journal.Connection
import Bytecode.Proofs.Connections

/-!
# Journals in memory

A journal whose database is in no file asks nothing of its host, `Volatile`.  So
it can be said of it, in whatever monad it runs, what becomes of its
transactions.  Opening one notes the databases (`begin_run`), changes leave it
open or have undone it (`change_run`), and it ends with the databases as they
are or as they were (`commit_run`, `rollback_run`).

Main statements: `record_undone`, nothing is left of a run that could not be
recorded; `reads_find` and those beside it, asking changes nothing; and
`openAt_volatile`, a journal in memory is such a journal when it has been
opened.

Which rows a statement puts in or finds is not said here.
-/

namespace Bytecode.Journal

open Database (Statement Token Failure)

/-! ### The ends of transactions -/

/-- The text that closes a transaction. -/
theorem alone?_commit : Statement.alone? "commit" = some .commit := by
  have h : (Statement.alone? "commit").any (· matches .commit) = true := by
    decide +kernel
  obtain ⟨s, hs, hcommit⟩ := (Option.any_eq_true _ _).mp h
  split at hcommit
  · exact hs
  · cases hcommit

/-- The text that undoes a transaction. -/
theorem alone?_rollback : Statement.alone? "rollback" = some .rollback := by
  have h : (Statement.alone? "rollback").any (· matches .rollback) = true := by
    decide +kernel
  obtain ⟨s, hs, hrollback⟩ := (Option.any_eq_true _ _).mp h
  split at hrollback
  · exact hs
  · cases hrollback

namespace Connection

/-! ### What a journal asks for -/

/-- An open journal whose tables are in memory, or one that has been closed
outside a transaction. -/
structure Volatile (j : Connection) : Prop where
  backings : j.link.backings = []
  steady : j.link.session.Steady
  opening : ∃ b, Statement.alone? j.opening = some (.begin b)
  closed : j.isOpen = false → j.link.session.before = none

variable {m : Type → Type} [Monad m] [LawfulMonad m] {j : Connection} {α : Type}

/-- An open journal in memory stays one as long as its session is steady. -/
theorem Volatile.goesOn (hj : j.Volatile) (hopen : j.isOpen = true)
    {link : Database.Connection} (hbackings : link.backings = [])
    (hsteady : link.session.Steady) : Volatile { j with link } := by
  refine ⟨hbackings, hsteady, hj.opening, fun hclosed => ?_⟩
  rw [hopen] at hclosed
  cases hclosed

/-- What comes of something done with an open journal. -/
theorem onDatabase_run {t : Database.Task m α} {r : Except Failure α}
    {link : Database.Connection} (h : t j.link = pure (r, link))
    (hopen : j.isOpen = true) :
    (onDatabase t : StateT Connection m _) j =
      pure (r.mapError Failure.cause, { j with link }) := by
  have hrun : t.run.run j.link = pure (r, link) := h
  change (onDatabase t : StateT Connection m _).run j = _
  simp [onDatabase, hopen, hrun]

/-- Nothing is done with a closed journal. -/
theorem onDatabase_closed (t : Database.Task m α) (hclosed : j.isOpen = false) :
    (onDatabase t : StateT Connection m _) j = pure (.error closed, j) := by
  change (onDatabase t : StateT Connection m _).run j = _
  simp [onDatabase, hclosed]

variable [Host m]

/-- What comes of a script that opens a transaction or ends one. -/
theorem control_run (hj : j.Volatile) (hopen : j.isOpen = true) {text : String}
    {s : Statement} (hs : s.isPlain = true)
    (htext : Statement.alone? text = some s)
    {f : Database.Session → Except Failure Database.Session}
    (hprepare : ∀ t : Database.Session, t.prepare [] s = .ok (.ofControl f))
    (hmissing : (Database.Mention.ofStatement s).missing? = none)
    (hsteady : (j.link.session.after f).Steady) : ∃ j',
      (onDatabase (Database.Connection.script text) : StateT Connection m _) j =
      pure (((f j.link.session).map fun _ => ()).mapError Failure.cause, j') ∧
      j'.Volatile ∧
      j'.link.session.contents = (j.link.session.after f).contents ∧
      j'.link.session.saved = (j.link.session.after f).saved := by
  have hscript := Database.Connection.performAll_run (m := m) hj.backings
    (Statement.everyOf_of_alone? htext hs (Token.all text).length)
  rw [Database.Connection.performedAll_control htext hprepare hmissing]
    at hscript
  refine ⟨_, onDatabase_run hscript hopen, hj.goesOn hopen ?_ ?_, ?_, ?_⟩
  · exact Database.Connection.backings_settled
      (Database.Connection.backings_looking _ hj.backings)
  · exact Database.Connection.steady_settled hsteady
  · exact Database.Connection.contents_settled _
  · exact Database.Connection.saved_settled _

/-- Opening a transaction notes the databases, or it has failed. -/
theorem begin_run (hj : j.Volatile) (hidle : j.link.session.saved = none) :
    ∃ r j', (Engine.begin : StateT Connection m _) j = pure (r, j') ∧
      j'.Volatile ∧ j'.link.session.contents = j.link.session.contents ∧
      j'.link.session.saved = match r with
        | .ok _ => some j.link.session.contents
        | .error _ => none := by
  have hbegin : (Engine.begin : StateT Connection m _) j =
      onDatabase (Database.Connection.script j.opening) j := by
    change (get >>= fun c =>
      onDatabase (Database.Connection.script c.opening) :
        StateT Connection m _).run j = _
    simp
    rfl
  rw [hbegin]
  by_cases hopen : j.isOpen = true
  · obtain ⟨b, hb⟩ := hj.opening
    obtain ⟨hsteady, hcontents, hsaved⟩ := hj.steady.begin hidle b
    obtain ⟨j', hrun, hj', hcontents', hsaved'⟩ :=
      control_run (m := m) hj hopen rfl hb (fun _ => rfl) rfl hsteady
    refine ⟨_, j', hrun, hj', hcontents'.trans hcontents, ?_⟩
    rw [hsaved', hsaved]
    cases j.link.session.begin b <;> rfl
  · rw [onDatabase_closed _ (by simpa using hopen)]
    exact ⟨_, _, rfl, hj, rfl, hidle⟩

/-- Closing a transaction keeps the databases as they are, or it has failed and
the transaction is still open. -/
theorem commit_run (hj : j.Volatile) :
    ∃ r j', (Engine.commit : StateT Connection m _) j = pure (r, j') ∧
      j'.Volatile ∧ j'.link.session.contents = j.link.session.contents ∧
      j'.link.session.saved = match r with
        | .ok _ => none
        | .error _ => j.link.session.saved := by
  change ∃ r j', onDatabase (Database.Connection.script "commit") j =
    pure (r, j') ∧ _
  by_cases hopen : j.isOpen = true
  · obtain ⟨hsteady, hcontents, hsaved⟩ := hj.steady.commit
    obtain ⟨j', hrun, hj', hcontents', hsaved'⟩ := control_run (m := m) hj hopen
      rfl alone?_commit (fun _ => rfl) rfl hsteady
    refine ⟨_, j', hrun, hj', hcontents'.trans hcontents, ?_⟩
    rw [hsaved', hsaved]
    cases j.link.session.commit <;> rfl
  · rw [onDatabase_closed _ (by simpa using hopen)]
    exact ⟨_, _, rfl, hj, rfl, rfl⟩

/-- Undoing a transaction puts the databases back; without a transaction they
stay as they are. -/
theorem rollback_run (hj : j.Volatile) :
    ∃ r j', (Engine.rollback : StateT Connection m _) j = pure (r, j') ∧
      j'.Volatile ∧ j'.link.session.saved = none ∧
      j'.link.session.contents =
        j.link.session.saved.getD j.link.session.contents := by
  change ∃ r j', onDatabase (Database.Connection.script "rollback") j =
    pure (r, j') ∧ _
  by_cases hopen : j.isOpen = true
  · obtain ⟨hsteady, hsaved, hcontents⟩ := hj.steady.rollback
    obtain ⟨j', hrun, hj', hcontents', hsaved'⟩ := control_run (m := m) hj hopen
      rfl alone?_rollback (fun _ => rfl) rfl hsteady
    exact ⟨_, j', hrun, hj', hsaved'.trans hsaved, hcontents'.trans hcontents⟩
  · have hclosed : j.isOpen = false := by simpa using hopen
    have hidle : j.link.session.saved = none := by
      rw [Database.Session.saved, hj.closed hclosed, Option.map_none]
    rw [onDatabase_closed _ hclosed, hidle]
    exact ⟨_, _, rfl, hj, hidle, rfl⟩

/-- A change leaves the transaction open, or it has failed and the transaction
has been undone. -/
theorem change_run (hj : j.Volatile) (c : Change) :
    ∃ r j', (Engine.change c : StateT Connection m _) j = pure (r, j') ∧
      j'.Volatile ∧ j.link.session.Carries r j'.link.session := by
  change ∃ r j', onDatabase (do
    let _ ← Database.Connection.query c.statement c.values) j = pure (r, j') ∧ _
  by_cases hopen : j.isOpen = true
  · have hquery := Database.Connection.query_run (m := m) hj.backings
      (fun s hs => Statement.isPlain_of_isOnRows (c.isOnRows s hs)) c.values
    obtain ⟨hbackings, hcarries⟩ := Database.Connection.carries_queried
      hj.backings hj.steady c.isOnRows c.values
    rcases hqueried : Database.Connection.queried c.statement c.values j.link
      with ⟨r, link⟩
    rw [hqueried] at hquery hbackings hcarries
    have hrun : (do let _ ← Database.Connection.query c.statement c.values :
        Database.Task m Unit) j.link = pure (r.map fun _ => (), link) := by
      rw [Database.bind_run, hquery, pure_bind]
      cases r <;> rfl
    refine ⟨_, _, onDatabase_run hrun hopen,
      hj.goesOn hopen hbackings hcarries.steady, hcarries.told ?_⟩
    rintro e rfl
    exact ⟨e.cause, rfl⟩
  · rw [onDatabase_closed _ (by simpa using hopen)]
    exact ⟨_, _, rfl, hj, .refl hj.steady _⟩

/-- A question changes no database. -/
theorem ask_run (hj : j.Volatile) (q : Question) :
    ∃ r j', (Engine.ask q : StateT Connection m _) j = pure (r, j') ∧
      j'.Volatile ∧ j'.link.session.contents = j.link.session.contents ∧
      j'.link.session.saved = j.link.session.saved := by
  change ∃ r j', (onDatabase (do
    let a ← Database.Connection.query q.statement q.values
    ExceptT.mk (pure (replyOf a))) :
      StateT Connection m (Except Cause Reply)) j = pure (r, j') ∧ _
  by_cases hopen : j.isOpen = true
  · have honRows : ∀ s, Statement.ofText q.statement = .ok s →
        s.isOnRows = true := by
      intro s hs
      obtain ⟨x, rfl⟩ := q.isSelect s hs
      rfl
    have hquery := Database.Connection.query_run (m := m) hj.backings
      (fun s hs => Statement.isPlain_of_isOnRows (honRows s hs)) q.values
    obtain ⟨hbackings, hcarries⟩ := Database.Connection.carries_queried
      hj.backings hj.steady honRows q.values
    obtain ⟨hcontents, hsaved⟩ := Database.Connection.contents_queried
      q.isSelect q.values j.link
    rcases hqueried : Database.Connection.queried q.statement q.values j.link
      with ⟨r, link⟩
    rw [hqueried] at hquery hbackings hcarries hcontents hsaved
    have hrun : (do
        let a ← Database.Connection.query q.statement q.values
        ExceptT.mk (pure (replyOf a)) : Database.Task m Reply) j.link =
          pure (r.bind replyOf, link) := by
      rw [Database.bind_run, hquery, pure_bind]
      cases r <;> rfl
    exact ⟨_, _, onDatabase_run hrun hopen,
      hj.goesOn hopen hbackings hcarries.steady, hcontents, hsaved⟩
  · rw [onDatabase_closed _ (by simpa using hopen)]
    exact ⟨_, _, rfl, hj, rfl, rfl⟩

/-! ### Recording and asking -/

omit [LawfulMonad m] [Host m] in
/-- What an action is part of is told with its failure. -/
theorem during_run [LawfulMonad m] {task : String}
    {x : StateT Connection m (Except Cause α)} {j' : Connection}
    {r : Except Cause α} (h : x j = pure (r, j')) :
    (during task x : Task m α) j =
      pure (r.mapError fun c => .failed [task] c, j') := by
  change (x >>= fun r => pure (r.mapError _) : StateT Connection m _).run j = _
  rw [StateT.run_bind]
  change (x j >>= _) = _
  rw [h, pure_bind]
  rfl

/-- Changes leave the transaction open, or one of them has failed and the
transaction may have been undone. -/
theorem changes_run (hj : j.Volatile) (cs : List Change) :
    ∃ r j', (cs.forM fun c => during c.task (Engine.change c) : Task m Unit) j =
        pure (r, j') ∧
      j'.Volatile ∧ j.link.session.Carries r j'.link.session := by
  induction cs generalizing j with
  | nil => exact ⟨_, _, rfl, hj, .refl hj.steady _⟩
  | cons c cs ih =>
      obtain ⟨r, j', hrun, hj', hcarries⟩ := change_run (m := m) hj c
      change ∃ r j', (during c.task (Engine.change c) >>= fun _ => cs.forM _ :
        Task m Unit) j = pure (r, j') ∧ _
      rw [Database.bind_run, during_run hrun, pure_bind]
      cases r with
      | error e => exact ⟨_, _, rfl, hj', hcarries.told fun _ _ => ⟨_, rfl⟩⟩
      | ok a =>
          obtain ⟨r', j'', hrest, hj'', hcarries'⟩ := ih hj'
          refine ⟨r', j'', hrest, hj'', .andThen (a := a) ?_ hcarries'⟩
          exact hcarries.told fun e he => by cases he

/-- **Nothing is left of a run that could not be recorded.**  A transaction is
still open only if closing it has failed, and then it would go back to the
databases that there were. -/
theorem record_undone (hj : j.Volatile) (hidle : j.link.session.saved = none)
    (run : Option Run) :
    ∃ r j', (record run : Task m Unit) j = pure (r, j') ∧ j'.Volatile ∧
      match r with
      | .ok _ => j'.link.session.saved = none
      | .error f =>
        j'.link.session.saved = none ∧
            j'.link.session.contents = j.link.session.contents ∨
          (∃ c, f = .failed ["committing run"] c) ∧
            j'.link.session.saved = some j.link.session.contents := by
  unfold record
  rw [Database.bind_run]
  change ∃ r j', (pure (recordable run, j) >>= _) = pure (r, j') ∧ _
  rw [pure_bind]
  cases recordable run with
  | error f => exact ⟨_, _, rfl, hj, .inl ⟨hidle, rfl⟩⟩
  | ok x =>
      obtain ⟨r, j₁, hbegin, hj₁, hcontents₁, hsaved₁⟩ :=
        begin_run (m := m) hj hidle
      dsimp only
      rw [Database.bind_run, during_run hbegin, pure_bind]
      cases r with
      | error e => exact ⟨_, _, rfl, hj₁, .inl ⟨hsaved₁, hcontents₁⟩⟩
      | ok u =>
          obtain ⟨r, j₂, hchanges, hj₂, hcarries⟩ :=
            changes_run (m := m) hj₁ (changes x)
          change ∃ r j', (tryCatch ((changes x).forM _) _ >>= _ :
            Task m Unit) j₁ = pure (r, j') ∧ _
          rw [Database.bind_run, Database.tryCatch_run, hchanges, pure_bind]
          cases r with
          | ok u =>
              obtain hsaved₂ | ⟨⟨e, he⟩, -⟩ := hcarries.saved
              · obtain ⟨r, j₃, hcommit, hj₃, hcontents₃, hsaved₃⟩ :=
                  commit_run (m := m) hj₂
                dsimp only
                rw [pure_bind, during_run hcommit]
                refine ⟨_, _, rfl, hj₃, ?_⟩
                cases r with
                | ok u => exact hsaved₃
                | error c =>
                    refine .inr ⟨⟨c, rfl⟩, ?_⟩
                    exact hsaved₃.trans (hsaved₂.trans hsaved₁)
              · cases he
          | error f =>
              obtain ⟨r, j₃, hrollback, hj₃, hsaved₃, hcontents₃⟩ :=
                rollback_run (m := m) hj₂
              have hback : (do
                  let _ ←
                    (Engine.rollback : StateT Connection m (Except Cause Unit))
                  throw f : Task m Unit) j₂ = pure (.error f, j₃) := by
                rw [Database.bind_run, Database.lift_run]
                rw [hrollback, pure_bind, pure_bind]
                rfl
              dsimp only
              rw [hback, pure_bind]
              refine ⟨_, _, rfl, hj₃, .inl ⟨hsaved₃, ?_⟩⟩
              rw [hcontents₃]
              obtain hsaved₂ | ⟨-, hsaved₂, hcontents₂⟩ := hcarries.saved
              · rw [hsaved₂, hsaved₁, Option.getD_some]
              · rw [hsaved₂, Option.getD_none]
                exact hcontents₂ _ hsaved₁

/-- The action changes no database of a journal in memory. -/
def Reads (x : Task m α) : Prop :=
  ∀ j : Connection, j.Volatile → ∃ r j', x j = pure (r, j') ∧ j'.Volatile ∧
    j'.link.session.contents = j.link.session.contents ∧
    j'.link.session.saved = j.link.session.saved

namespace Reads

variable {β : Type} {x : Task m α} {f : α → Task m β}

omit [LawfulMonad m] [Host m] in
theorem ofExcept (r : Except Fault α) :
    Reads (ExceptT.mk (pure r) : Task m α) :=
  fun j hj => ⟨r, j, rfl, hj, rfl, rfl⟩

omit [Host m] in
/-- One reading after the other. -/
theorem bind (hx : Reads x) (hf : ∀ a, Reads (f a)) : Reads (x >>= f) := by
  intro j hj
  obtain ⟨r, j', hrun, hj', hcontents, hsaved⟩ := hx j hj
  rw [Database.bind_run, hrun, pure_bind]
  cases r with
  | error e => exact ⟨_, _, rfl, hj', hcontents, hsaved⟩
  | ok a =>
      obtain ⟨r, j'', hrun', hj'', hcontents', hsaved'⟩ := hf a j' hj'
      exact ⟨r, j'', hrun', hj'', hcontents'.trans hcontents,
        hsaved'.trans hsaved⟩

/-- A question only reads. -/
theorem ask (task : String) (q : Question) :
    Reads (during task (Engine.ask q) : Task m Reply) := by
  intro j hj
  obtain ⟨r, j', hrun, hj', hsame⟩ := ask_run (m := m) hj q
  exact ⟨_, j', during_run hrun, hj', hsame⟩

/-- Looking for counts only reads. -/
theorem countsOf (id : String) :
    Reads (countsOf id : Task m (List (String × Int))) :=
  .bind (.ask _ _) fun _ => .bind (.ofExcept _) fun _ => .ofExcept _

/-- Completing a run only reads. -/
theorem complete (r : Run) (id : String) : Reads (complete r id : Task m Run) :=
  .bind (.countsOf id) fun _ => .ofExcept _

end Reads

/-- **Asking** for a run changes nothing. -/
theorem reads_find (id : String) : Reads (find id : Task m Run) := by
  refine .bind (.ask _ _) fun reply => .bind (.ofExcept _) fun found => ?_
  cases found with
  | nil => exact .ofExcept _
  | cons r rest => exact .complete r _

/-- Asking for the latest runs changes nothing. -/
theorem reads_latest (limit : Int) :
    Reads (latest limit : Task m (List Run)) := by
  refine .bind (.ask _ _) fun reply => .bind (.ofExcept _) fun runs => ?_
  rw [← List.mapM'_eq_mapM]
  induction runs with
  | nil => exact .ofExcept _
  | cons r runs ih =>
      exact .bind (.complete r _) fun _ => .bind ih fun _ => .ofExcept _

/-- Asking for all counts changes nothing. -/
theorem reads_totals : Reads (totals : Task m (List (String × Int))) :=
  .bind (.ask _ _) fun _ => .bind (.ofExcept _) fun _ => .ofExcept _

/-! ### Opening -/

/-- A script that opens a journal leaves it without a transaction. -/
theorem script_run (hopen : j.isOpen = true) (hmem : j.link.backings = [])
    (hidle : j.link.session.Idle) (task : String) {text : String}
    (hall : Statement.everyOf Statement.isOpening ((Token.all text).length + 1)
      (Token.all text) = true) :
    ∃ r link, (script task text : Task m Unit) j = pure (r, { j with link }) ∧
      link.backings = [] ∧ link.session.Idle := by
  have hrun := Database.Connection.performAll_run (m := m) hmem
    (Statement.everyOf_mono (fun _ => Statement.isPlain_of_isOpening) hall)
  obtain ⟨hidle', hmem'⟩ :=
    Database.Connection.idle_performedAll hidle hmem hall
  exact ⟨_, _, during_run (onDatabase_run hrun hopen), hmem', hidle'⟩

/-- The tables of a journal are made by statements that open one. -/
theorem isOpening_schema : Statement.everyOf Statement.isOpening
    ((Token.all schema).length + 1) (Token.all schema) = true := by
  change Statement.everyOf Statement.isOpening ((Token.scan
    [] schema.toList).length + 1) (Token.scan [] schema.toList) = true
  unfold schema
  simp only [String.toList_append]
  repeat rw [String.toList_ofList]
  decide +kernel

/-- So is the time to wait for a lock set. -/
theorem isOpening_busy : Statement.everyOf Statement.isOpening
    ((Token.all "PRAGMA busy_timeout = 5000").length + 1)
    (Token.all "PRAGMA busy_timeout = 5000") = true := by
  decide +kernel

/-- Preparing a journal in memory opens no transaction. -/
theorem prepare_run {l : Location} (hopen : j.isOpen = true)
    (hmem : j.link.backings = []) (hidle : j.link.session.Idle)
    (hdirectives : l.directives = []) :
    ∃ r j', (prepare l : Task m Unit) j = pure (r, j') ∧ j'.isOpen = true ∧
      j'.link.backings = [] ∧ j'.link.session.Idle ∧
      (r = .ok () → l.opening = .ok j'.opening) := by
  unfold prepare
  rw [hdirectives]
  change ∃ r j', (pure () >>= fun _ => _ : Task m Unit) j = pure (r, j') ∧ _
  rw [Database.bind_run_ok (Database.pure_run () j), Database.bind_run]
  change ∃ r j', (pure (l.opening, j) >>= _) = pure (r, j') ∧ _
  rw [pure_bind]
  cases hl : l.opening with
  | error f => exact ⟨_, _, rfl, hopen, hmem, hidle, fun h => by cases h⟩
  | ok opening =>
      dsimp only
      rw [Database.bind_run_ok (Database.modify_run _ j)]
      obtain ⟨r, link, hrun, hmem', hidle'⟩ :=
        script_run (m := m) (j := { j with opening }) hopen hmem hidle
          "setting busy timeout" isOpening_busy
      cases r with
      | error f =>
          rw [Database.bind_run, hrun, pure_bind]
          exact ⟨_, _, rfl, hopen, hmem', hidle', fun h => by cases h⟩
      | ok u =>
          rw [Database.bind_run_ok hrun]
          obtain ⟨r, link', hrun', hmem'', hidle''⟩ :=
            script_run (m := m) (j := { j with opening, link }) hopen hmem'
              hidle' "creating tables" isOpening_schema
          exact ⟨r, _, hrun', hopen, hmem'', hidle'', fun _ => rfl⟩

/-- Closing a journal in memory asks nothing of the host. -/
theorem close_run (hmem : j.link.backings = []) :
    ∃ j', (close : Task m Unit) j = pure (.ok (), j') := by
  have hclose : (Database.Connection.close : Database.Task m Unit) j.link =
      pure (.ok (), { j.link with
        session := j.link.session.undone, isHeld := false }) := by
    unfold Database.Connection.close
    rw [Database.bind_run_ok (Database.modify_run _ _),
      Database.bind_run_ok (Database.get_run _)]
    dsimp only
    rw [hmem]
    rfl
  unfold close
  rw [Database.bind_run_ok (Database.get_run j), Database.ite_run]
  split
  · next hopen =>
      have hrun := onDatabase_run hclose hopen
      rw [Database.bind_run, Database.lift_run, hrun, pure_bind, pure_bind]
      exact ⟨_, Database.modify_run _ _⟩
  · exact ⟨j, rfl⟩

/-- **A journal in memory** is opened without asking the host for anything, and
no transaction is open then. -/
theorem openAt_volatile {name : String} {l : Location}
    (hl : Location.ofText name = .ok l) (hmem : l.isVolatile = true)
    (hdirectives : l.directives = [])
    (hopening : ∀ text, l.opening = .ok text →
      ∃ b, Statement.alone? text = some (.begin b)) :
    ∃ r, (openAt name : ExceptT Fault m Connection).run = pure r ∧
      ∀ j, r = .ok j → j.Volatile ∧ j.link.session.saved = none := by
  let session : Database.Session := { holdings := #[l.holding, {}] }
  let j : Connection := { name, link := { session }, opening := "begin" }
  have hnames : (Database.World.names {}).Nodup := by decide
  have hidle : session.Idle := ⟨hnames, rfl⟩
  obtain ⟨r, j', hrun, hopen, hmem', hidle', hsettled⟩ :=
    prepare_run (m := m) (j := j) rfl rfl hidle hdirectives
  have hconnect : (connect l : ExceptT Fault m Database.Connection).run =
      pure (.ok { session }) := by
    unfold connect
    simp only [hmem, if_true]
    rfl
  have hprepare : (prepare l : Task m Unit).run.run j = pure (r, j') := hrun
  unfold openAt
  rw [ExceptT.run_bind, hl, ExceptT.run_mk, pure_bind]
  dsimp only
  rw [ExceptT.run_bind, hconnect, pure_bind]
  dsimp only
  rw [ExceptT.run_bind, hprepare, liftM, monadLift_pure, ExceptT.run_pure,
    pure_bind]
  dsimp only
  cases r with
  | ok u =>
      refine ⟨.ok j', ExceptT.run_pure _, fun k hk => ?_⟩
      obtain rfl := Except.ok.inj hk
      refine ⟨⟨hmem', hidle'.steady, ?_, ?_⟩, hidle'.saved⟩
      · exact hopening _ (hsettled rfl)
      · intro hclosed
        rw [hopen] at hclosed
        cases hclosed
  | error f =>
      obtain ⟨j'', hclose⟩ := close_run (m := m) hmem'
      have hclose : (close : Task m Unit).run.run j' = pure (.ok (), j'') :=
        hclose
      dsimp only
      refine ⟨.error f, ?_, fun k hk => by cases hk⟩
      rw [ExceptT.run_bind, hclose, monadLift_pure, ExceptT.run_pure, pure_bind]
      rfl

/-- The name ":memory:" stands for a journal in memory. -/
theorem openAt_memory :
    ∃ r, (openAt ":memory:" : ExceptT Fault m Connection).run = pure r ∧
      ∀ j, r = .ok j → j.Volatile ∧ j.link.session.saved = none := by
  have h : ((Location.ofText ":memory:").toOption.any fun l =>
      l.isVolatile && l.directives.isEmpty && l.opening.toOption.all fun text =>
        (Statement.alone? text).any (· matches .begin _)) = true := by
    decide +kernel
  cases hl : Location.ofText ":memory:" with
  | error f =>
      rw [hl] at h
      cases h
  | ok l =>
      rw [hl] at h
      simp only [Except.toOption, Option.any_some, Bool.and_eq_true,
        List.isEmpty_iff] at h
      obtain ⟨⟨hmem, hdirectives⟩, hopening⟩ := h
      refine openAt_volatile hl hmem hdirectives fun text htext => ?_
      rw [htext] at hopening
      obtain ⟨s, hs, hbegin⟩ := (Option.any_eq_true _ _).mp hopening
      split at hbegin
      · next b => exact ⟨b, hs⟩
      · cases hbegin

end Connection

end Bytecode.Journal
