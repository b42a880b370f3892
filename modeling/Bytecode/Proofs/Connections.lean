import Mathlib
import Bytecode.Proofs.Transactions

/-!
# Connections without files

A connection whose databases are in no file does nothing but what its session
does.  So what comes of a statement on it is one computation, `performed`, in
whatever monad it runs, and so is a script, `performedAll`; the host is not
asked for anything (`perform_run`, `performAll_run`).  Both follow the steps of
an action one after the other, by what each of them comes to.

What becomes of transactions is known of sessions already, and is carried over:
by `carries_performed` for statements on rows, by `performedAll_control` for
statements that open a transaction or end one.  Statements that make tables
leave a connection without a transaction, `idle_performedAll`.
-/

namespace Bytecode.Database

/-! ### Actions on a connection -/

section Actions

variable {ε κ α β : Type} {m : Type → Type}

theorem ite_run (p : Prop) [Decidable p] (x y : ExceptT ε (StateT κ m) α)
    (c : κ) : (if p then x else y) c = if p then x c else y c := by
  split <;> rfl

variable [Monad m]

theorem pure_run (a : α) (c : κ) :
    (pure a : ExceptT ε (StateT κ m) α) c = pure (.ok a, c) := rfl

/-- What comes of an action followed by another. -/
theorem bind_run (x : ExceptT ε (StateT κ m) α)
    (f : α → ExceptT ε (StateT κ m) β) (c : κ) :
    (x >>= f) c = x c >>= fun r => match r.1 with
      | .ok a => f a r.2
      | .error e => pure (.error e, r.2) := by
  change (x c >>= fun r => ExceptT.bindCont f r.1 r.2) = _
  congr 1
  funext ⟨r, c'⟩
  cases r <;> rfl

/-- What comes of an action if its failure is caught. -/
theorem tryCatch_run (x : ExceptT ε (StateT κ m) α)
    (f : ε → ExceptT ε (StateT κ m) α) (c : κ) :
    (tryCatch x f : ExceptT ε (StateT κ m) α) c = x c >>= fun r =>
    match r.1 with
      | .ok a => pure (.ok a, r.2)
      | .error e => f e r.2 := by
  change (x c >>= fun r => (match r.1 with
    | .ok a => pure (.ok a)
    | .error e => f e : StateT κ m (Except ε α)) r.2) = _
  congr 1
  funext ⟨r, c'⟩
  cases r <;> rfl

/-- What comes of an action whose result is only looked at. -/
theorem lift_run (x : StateT κ m α) (c : κ) :
    (liftM x : ExceptT ε (StateT κ m) α) c =
      x c >>= fun r => pure (.ok r.1, r.2) := rfl

variable [LawfulMonad m]

/-- An action that has succeeded is followed by another. -/
theorem bind_run_ok {x : ExceptT ε (StateT κ m) α}
    {f : α → ExceptT ε (StateT κ m) β} {a : α} {c c' : κ}
    (hx : x c = pure (.ok a, c')) : (x >>= f) c = f a c' := by
  rw [bind_run, hx, pure_bind]

/-- The state is read. -/
theorem get_run (c : κ) :
    (get : ExceptT ε (StateT κ m) κ) c = pure (.ok c, c) := by
  change (pure (c, c) >>= fun r => pure (.ok r.1, r.2) : m (Except ε κ × κ)) = _
  rw [pure_bind]

/-- The state is set. -/
theorem set_run (c c' : κ) :
    (set c' : ExceptT ε (StateT κ m) PUnit) c = pure (.ok (), c') := by
  change (pure ((), c') >>= fun r => pure (.ok r.1, r.2) :
    m (Except ε PUnit × κ)) = _
  rw [pure_bind]

/-- The state is changed. -/
theorem modify_run (g : κ → κ) (c : κ) :
    (modify g : ExceptT ε (StateT κ m) PUnit) c = pure (.ok (), g c) := by
  change (pure ((), g c) >>= fun r => pure (.ok r.1, r.2) :
    m (Except ε PUnit × κ)) = _
  rw [pure_bind]

end Actions

namespace Statement

/-- The statement that a text spells, if it spells one and no more. -/
def alone? (text : String) : Option Statement :=
  match next (Token.all text) with
  | .ok (some (s, rest)) =>
    match next rest with
    | .ok none => some s
    | _ => none
  | _ => none

/-- All statements that are spelled, at most so many, satisfy `p`. -/
def everyOf (p : Statement → Bool) : Nat → List Token → Bool
  | 0, _ => true
  | fuel + 1, ts =>
    match next ts with
    | .ok (some (s, rest)) => p s && everyOf p fuel rest
    | _ => true

variable {p : Statement → Bool} {ts : List Token} {text : String}
  {s : Statement}

/-- A text that spells one statement has nothing behind it. -/
theorem next_of_alone? (h : alone? text = some s) :
    ∃ rest, next (Token.all text) = .ok (some (s, rest)) ∧
      next rest = .ok none := by
  unfold alone? at h
  split at h
  · next s' rest hnext =>
      split at h
      · next hrest =>
          obtain rfl := Option.some.inj h
          exact ⟨rest, hnext, hrest⟩
      · cases h
  · cases h

/-- Nothing is spelled. -/
theorem everyOf_done (h : next ts = .ok none) (fuel : Nat) :
    everyOf p fuel ts = true := by
  cases fuel with
  | zero => rfl
  | succ fuel =>
      unfold everyOf
      simp only [h]

/-- What a text spells alone is all that it spells. -/
theorem everyOf_of_alone? (h : alone? text = some s) (hs : p s = true)
    (fuel : Nat) : everyOf p (fuel + 1) (Token.all text) = true := by
  obtain ⟨rest, hnext, hrest⟩ := next_of_alone? h
  unfold everyOf
  simp only [hnext, hs, everyOf_done hrest, Bool.and_self]

end Statement

/-! ### Connections without files -/

namespace Connection

/-- A connection that has looked at its files, of which there are none. -/
def looking (r : Reading) (c : Connection) : Connection :=
  if r = .nothing || c.isHeld then c
  else { c with isHeld := c.session.inTransaction }

/-- A connection on which a statement has come to its end. -/
def settled (c : Connection) : Connection :=
  if c.session.inTransaction then c
  else
    let stores := c.session.world.stores.map Store.atRest
    { c with
      isHeld := false
      session := { c.session with world := { c.session.world with stores } } }

/-- What sense is made of a statement. -/
def madeOf (args : List Value) (s : Statement) (c : Connection) :
    Except Failure Prepared := do
  let p ← c.session.prepare args s
  match if args.isEmpty then (Mention.ofStatement s).missing? else none with
  | some f => throw f
  | none => return p

/-- What comes of carrying out what has been made of a statement. -/
def carried (p : Prepared) (c : Connection) :
    Except Failure Answer × Connection :=
  let (result, session) := c.session.run p
  (result.map fun rows => { columns := p.columns, rows },
    { c with session }.settled)

/-- What comes of a statement on a connection without files. -/
def performed (args : List Value) (s : Statement) (c : Connection) :
    Except Failure Answer × Connection :=
  let c := c.looking s.reading
  match c.madeOf args s with
  | .error f => (.error f, c)
  | .ok p => c.carried p

/-- What comes of a text that is to be one statement. -/
def queried (text : String) (args : List Value) (c : Connection) :
    Except Failure Answer × Connection :=
  match Statement.ofText text with
  | .error r => (.error (.refused r), c)
  | .ok s => performed args s c

/-- What comes of the statements that are spelled, at most so many. -/
def performedAll : Nat → List Token → Connection →
    Except Failure Unit × Connection
  | 0, _, c => (.ok (), c)
  | fuel + 1, ts, c =>
    match Statement.next ts with
    | .error r => (.error (.refused r), c)
    | .ok none => (.ok (), c)
    | .ok (some (s, rest)) =>
      match performed [] s c with
      | (.error f, c) => (.error f, c)
      | (.ok answer, c) =>
        match answer.rows.first with
        | .error (.failed f _) => (.error f, c)
        | _ => performedAll fuel rest c

variable {m : Type → Type} [Monad m] {c : Connection} {s : Session}

/-- Nothing comes of an empty script. -/
theorem performedAll_done {ts : List Token} (h : Statement.next ts = .ok none)
    (fuel : Nat) : performedAll fuel ts c = (.ok (), c) := by
  cases fuel with
  | zero => rfl
  | succ fuel =>
      unfold performedAll
      simp only [h]

theorem ofExcept_run {α : Type} (r : Except Failure α) :
    (ofExcept r : Task m α) c = pure (r, c) := rfl

/-- Most directives name no directory. -/
theorem checkDirectory_run [Host m] {d : Directive}
    (h : d.key ≠ "temp_store_directory") :
    checkDirectory (m := m) d c = pure (.ok (), c) := by
  unfold checkDirectory
  rw [if_neg h]
  rfl

variable [LawfulMonad m] [Host m]

theorem backings_looking (r : Reading) (h : c.backings = []) :
    (c.looking r).backings = [] := by
  unfold looking
  split
  · exact h
  · exact h

/-- Looking at no files leaves the session. -/
theorem session_looking (r : Reading) (c : Connection) :
    (c.looking r).session = c.session := by
  unfold looking
  split <;> rfl

/-- Without files there is nothing to look at. -/
theorem share_run (h : c.backings = []) (r : Reading) :
    share (m := m) r c = pure (.ok (), c.looking r) := by
  unfold share looking
  by_cases hr : r = .nothing
  · simp [hr, pure_run]
  · by_cases hheld : c.isHeld = true
    · simp [hr, hheld, h, bind_run, ite_run, get_run, pure_run]
    · simp [hr, hheld, h, bind_run, ite_run, get_run, pure_run, modify_run]

/-- Without files there is nothing to write. -/
theorem settle_run (h : c.backings = []) (before : Session) :
    settle (m := m) before c = pure (.ok (), c.settled) := by
  unfold settle settled
  by_cases hopen : c.session.inTransaction = true
  · simp [hopen, h, bind_run, tryCatch_run, ite_run, get_run, pure_run]
  · simp [hopen, h, bind_run, tryCatch_run, ite_run, get_run, pure_run,
      modify_run]
    rfl

/-- Without files there is nothing that a directive could take away. -/
theorem followUndo_run (h : c.backings = []) (d : Directive) :
    followUndo (m := m) d c = pure (.ok (), c) := by
  have hnone : ∀ n?, Option.bind n? c.backing? = none := by
    intro n?
    cases n? with
    | none => rfl
    | some n =>
        change c.backings.find? _ = none
        rw [h]
        rfl
  unfold followUndo
  rw [bind_run, get_run, pure_bind]
  dsimp only
  rw [ite_run]
  split
  · rw [hnone]
    rfl
  · rfl

/-- A plain statement takes away no files. -/
theorem follow_run (h : c.backings = []) {x : Statement}
    (hx : x.isPlain = true) : follow (m := m) x c = pure (.ok (), c) := by
  cases x with
  | directive d =>
      have hd : d.key ≠ "temp_store_directory" := of_decide_eq_true hx
      exact (bind_run_ok (checkDirectory_run hd)).trans (followUndo_run h d)
  | _ => rfl

omit [Host m] in
/-- Making sense of a statement only reads the connection. -/
theorem makeSense_run (args : List Value) (x : Statement) :
    makeSense (m := m) args x c = pure (c.madeOf args x, c) := by
  unfold makeSense madeOf
  rw [bind_run_ok (get_run c), bind_run, ofExcept_run, pure_bind]
  cases c.session.prepare args x with
  | error f => rfl
  | ok p =>
      dsimp only
      generalize (if args.isEmpty then (Mention.ofStatement x).missing?
        else none) = missing
      cases missing <;> rfl

omit [LawfulMonad m] in
/-- A plain statement brings no databases into play. -/
theorem bringIn_run {x : Statement} (hx : x.isPlain = true) :
    bringIn (m := m) x c = pure (.ok (), c) := by
  unfold bringIn
  split
  · cases hx
  · cases hx
  · cases hx
  · rfl

/-- Carrying out what has been made of a statement. -/
theorem carryOut_run (h : c.backings = []) (before : Session) (p : Prepared) :
    carryOut (m := m) before p c = pure (c.carried p) := by
  unfold carryOut carried
  rw [bind_run_ok (get_run c)]
  rcases c.session.run p with ⟨result, session⟩
  dsimp only
  have hsettle := settle_run (m := m) (c := { c with session }) h before
  rw [bind_run_ok (set_run c _), bind_run_ok hsettle, bind_run, ofExcept_run,
    pure_bind]
  cases result <;> rfl

/-- **A statement on a connection without files** is a computation that asks
nothing of the host. -/
theorem perform_run (h : c.backings = []) {x : Statement}
    (hx : x.isPlain = true) (args : List Value) :
    perform (m := m) args x c = pure (performed args x c) := by
  have hmem := backings_looking x.reading h
  unfold perform performed
  rw [bind_run_ok (share_run h _)]
  generalize c.looking x.reading = c at hmem
  rw [bind_run_ok (follow_run hmem hx), bind_run_ok (get_run c), bind_run,
    makeSense_run, pure_bind]
  dsimp only
  cases c.madeOf args x with
  | error f => rfl
  | ok p =>
      dsimp only
      rw [bind_run_ok (bringIn_run hx), carryOut_run hmem]

/-- A statement with values for its places. -/
theorem query_run (h : c.backings = []) {text : String}
    (hplain : ∀ x, Statement.ofText text = .ok x → x.isPlain = true)
    (args : List Value) :
    query (m := m) text args c = pure (queried text args c) := by
  unfold query queried
  cases hx : Statement.ofText text with
  | error r => rfl
  | ok x => exact perform_run h (hplain x hx) args

theorem backings_settled (h : c.backings = []) : c.settled.backings = [] := by
  unfold settled
  split
  · exact h
  · exact h

/-- The end of a statement leaves the databases. -/
theorem contents_settled (c : Connection) :
    c.settled.session.contents = c.session.contents := by
  unfold settled
  split
  · rfl
  · change (c.session.world.stores.map Store.atRest).map Store.atRest = _
    rw [Array.map_map]
    rfl

/-- The end of a statement leaves what is saved. -/
theorem saved_settled (c : Connection) :
    c.settled.session.saved = c.session.saved := by
  unfold settled
  split <;> rfl

/-- The end of a statement leaves a session steady. -/
theorem steady_settled (h : c.session.Steady) : c.settled.session.Steady := by
  unfold settled
  split
  · exact h
  · next hclosed =>
      refine ⟨?_, fun old hold => ?_⟩
      · exact c.session.world.names_atRest ▸ h.nodup
      · rw [Session.inTransaction, hold] at hclosed
        exact absurd rfl hclosed

/-- The end of a statement is not another step of the transaction. -/
theorem carries_settled {ε α : Type} {r : Except ε α}
    (h : s.Carries r c.session) : s.Carries r c.settled.session := by
  refine ⟨steady_settled h.steady, ?_⟩
  rw [saved_settled, contents_settled]
  exact h.saved

/-- A statement brings no files into play. -/
theorem backings_performed (h : c.backings = []) (args : List Value)
    (x : Statement) : (performed args x c).2.backings = [] := by
  have hlooking := backings_looking x.reading h
  unfold performed
  generalize c.looking x.reading = c at hlooking
  dsimp only
  cases c.madeOf args x with
  | error f => exact hlooking
  | ok p => exact backings_settled hlooking

/-- What has been made of a statement is what the session makes of it. -/
theorem prepare_of_madeOf {args : List Value} {x : Statement} {p : Prepared}
    (h : c.madeOf args x = .ok p) : c.session.prepare args x = .ok p := by
  unfold madeOf at h
  cases hp : c.session.prepare args x with
  | error f =>
      rw [hp] at h
      cases h
  | ok q =>
      rw [hp] at h
      simp only [bind, Except.bind] at h
      split at h
      · cases h
      · obtain rfl := Except.ok.inj h
        rfl

/-- A statement on rows carries the transaction of a connection on. -/
theorem carries_performed (hs : c.session.Steady) (args : List Value)
    {x : Statement} (hx : x.isOnRows = true) : c.session.Carries
    (performed args x c).1 (performed args x c).2.session := by
  have hsession := session_looking x.reading c
  unfold performed
  rw [← hsession] at hs ⊢
  generalize c.looking x.reading = c at hs
  dsimp only
  cases hp : c.madeOf args x with
  | error f => exact .refl hs _
  | ok p =>
      have hrun := Session.carries_onRows hs hx (prepare_of_madeOf hp)
      exact carries_settled (hrun.told fun e he =>
        ⟨e, congrArg (Except.map _) he⟩)

/-- A query on a connection changes no database. -/
theorem performed_select (args : List Value) (q : Query) (c : Connection) :
    (performed args (.select q) c).2.session.contents = c.session.contents ∧
      (performed args (.select q) c).2.session.saved = c.session.saved := by
  have hsession := session_looking (Statement.select q).reading c
  unfold performed
  rw [← hsession]
  generalize c.looking (Statement.select q).reading = c
  dsimp only
  cases hp : c.madeOf args (.select q) with
  | error f => exact ⟨rfl, rfl⟩
  | ok p =>
      have hrun : (c.session.run p).2 = c.session :=
        Session.run_select (prepare_of_madeOf hp)
      dsimp only
      unfold carried
      rw [contents_settled, saved_settled]
      exact ⟨congrArg Session.contents hrun, congrArg Session.saved hrun⟩

/-- A text that spells a statement on rows carries the transaction on. -/
theorem carries_queried (h : c.backings = []) (hs : c.session.Steady)
    {text : String} (hrows : ∀ x, Statement.ofText text = .ok x →
      x.isOnRows = true) (args : List Value) :
    (queried text args c).2.backings = [] ∧
      c.session.Carries (queried text args c).1
        (queried text args c).2.session := by
  unfold queried
  cases hx : Statement.ofText text with
  | error r => exact ⟨h, .refl hs _⟩
  | ok x =>
      exact ⟨backings_performed h args x,
        carries_performed hs args (hrows x hx)⟩

/-- A text that spells a query changes no database. -/
theorem contents_queried {text : String} (hselect : ∀ x,
      Statement.ofText text = .ok x → ∃ q, x = .select q) (args : List Value)
    (c : Connection) :
    (queried text args c).2.session.contents = c.session.contents ∧
      (queried text args c).2.session.saved = c.session.saved := by
  unfold queried
  cases hx : Statement.ofText text with
  | error r => exact ⟨rfl, rfl⟩
  | ok x =>
      obtain ⟨q, rfl⟩ := hselect x hx
      exact performed_select args q c

/-- A script on a connection without files is such a computation, too. -/
theorem performAll_run (h : c.backings = []) {fuel : Nat} {ts : List Token}
    (hplain : Statement.everyOf Statement.isPlain fuel ts = true) :
    performAll (m := m) fuel ts c = pure (performedAll fuel ts c) := by
  induction fuel generalizing ts c with
  | zero => rfl
  | succ fuel ih =>
      unfold Statement.everyOf at hplain
      unfold performAll performedAll
      cases hnext : Statement.next ts with
      | error r => rfl
      | ok found =>
          cases found with
          | none => rfl
          | some r =>
              obtain ⟨x, rest⟩ := r
              simp only [hnext] at hplain
              obtain ⟨hx, hrest⟩ := Bool.and_eq_true_iff.mp hplain
              have hbackings := backings_performed h [] x
              dsimp only
              rw [bind_run, perform_run h hx, pure_bind]
              rcases hperformed : performed [] x c with ⟨_ | answer, c'⟩
              · rfl
              · rw [hperformed] at hbackings
                dsimp only
                generalize answer.rows.first = first
                rcases first with (_ | ⟨f, extent⟩) | row
                · exact ih hbackings hrest
                · rfl
                · exact ih hbackings hrest

/-- What comes of a script that opens a transaction or ends one. -/
theorem performedAll_control {text : String} {x : Statement}
    (htext : Statement.alone? text = some x)
    {f : Session → Except Failure Session}
    (hprepare : ∀ t : Session, t.prepare [] x = .ok (.ofControl f))
    (hmissing : (Mention.ofStatement x).missing? = none) (fuel : Nat) :
    performedAll (fuel + 1) (Token.all text) c =
      ((f c.session).map fun _ => (),
        { c.looking x.reading with session := c.session.after f }.settled) := by
  obtain ⟨rest, hnext, hrest⟩ := Statement.next_of_alone? htext
  have hsession := session_looking x.reading c
  have hmade : (c.looking x.reading).madeOf [] x = .ok (.ofControl f) := by
    unfold madeOf
    rw [hprepare, List.isEmpty_nil, if_pos rfl, hmissing]
    rfl
  unfold performedAll performed carried Session.after
  simp only [hnext, hmade, hsession, Session.run, Session.checkWritable,
    Prepared.ofControl]
  cases f c.session with
  | ok t => exact performedAll_done hrest fuel
  | error e => rfl

end Connection

/-! ### Making tables -/

/-- The databases have the names that they had. -/
def World.SameNames (w w' : World) : Prop := w'.names = w.names

namespace World

instance : Std.Refl SameNames := ⟨fun _ => rfl⟩

instance : IsTrans World SameNames := ⟨fun _ _ _ h h' => Eq.trans h' h⟩

theorem Agrees.sameNames {w w' : World} (h : w.Agrees w') : w.SameNames w' :=
  h.names_eq

/-- A list of what is in a database has nothing to do with its name. -/
theorem sameNames_setSchema (w : World) (n : Nat) (schema : Schema) :
    w.SameNames (w.setSchema n schema) := by
  unfold SameNames names setSchema
  rw [← Array.toList_map, ← Array.toList_map]
  congr 1
  apply Array.ext_getElem?
  intro i
  simp only [Array.getElem?_map, Array.getElem?_modify]
  split
  · cases w.stores[i]? <;> rfl
  · rfl

end World

/-- Work that changes nothing but pages leaves the names. -/
theorem Work.Contained.sameNames {α : Type} {x : Work α} (h : x.Contained) :
    x.Keeps World.SameNames :=
  h.mono fun _ _ => World.Agrees.sameNames

/-- What has been kept so far is known of the databases that are looked at. -/
theorem Work.Keeps.get_bind {α : Type} {R : World → World → Prop}
    {f : World → Work α} (h : ∀ w, R w (f w w).2) :
    (MonadState.get >>= f).Keeps R := h

namespace Catalogue

/-- The header of a database is on its pages. -/
theorem start_contained (n : Nat) : (start n).Contained :=
  .bind .get fun _ => Work.editPages_contained _ _

/-- A row of the list is on pages. -/
theorem put_contained (n : Nat) (number : Int) (values : List Value) :
    (put n number values).Contained :=
  .bind .get fun _ => Work.editPages_contained _ _

/-- A new row of the list is on pages. -/
theorem append_contained (n : Nat) (values : List Value) :
    (append n values).Contained :=
  .bind .get fun _ => .bind (.ofFailing _) fun _ =>
    .bind (put_contained _ _ _) fun _ => .pure _

/-- A new tree is on pages. -/
theorem tree_contained (n : Nat) (kind : TreeKind) : (tree n kind).Contained :=
  Work.onPages_contained _ _

/-- The list is read again, which leaves the names of the databases. -/
theorem finish_sameNames (n : Nat) : (finish n).Keeps World.SameNames := by
  refine .bind (Work.editPages_contained _ _).sameNames fun _ =>
    .get_bind fun w => ?_
  unfold World.reload
  cases w.load n with
  | error f => exact refl _
  | ok schema => exact w.sameNames_setSchema n schema

end Catalogue

namespace Creation

/-- A table is made of trees and of rows of the list. -/
theorem makeTable_contained (n : Nat) (t : Table) (text : String) :
    (makeTable n t text).Contained := by
  refine .bind (Catalogue.start_contained n) fun _ =>
    .bind (Catalogue.tree_contained _ _) fun root =>
      .bind (Catalogue.append_contained _ _) fun number => ?_
  refine .bind (.forM fun i _ => ?_) fun _ =>
    .bind (Catalogue.put_contained _ _ _) fun _ => .pure root
  exact .bind (Catalogue.tree_contained _ _) fun _ =>
    .bind (Catalogue.append_contained _ _) fun _ => .pure _

/-- Making a table leaves the names of the databases. -/
theorem table_sameNames {w : World} {n : Nat} {name text : String}
    {t : TableText} {work : Work Unit} (h : table w n name t text = .ok work) :
    work.Keeps World.SameNames := by
  unfold table at h
  cases hnew : (definition w n).table name t with
  | error f =>
      rw [hnew] at h
      cases h
  | ok new =>
      simp only [hnew, bind, Except.bind] at h
      cases hunseen : new.unseen? with
      | some column =>
          rw [hunseen] at h
          cases h
      | none =>
          rw [hunseen] at h
          obtain rfl := Except.ok.inj h
          have hfinish := Catalogue.finish_sameNames n
          refine .bind (makeTable_contained _ _ _).sameNames fun _ => ?_
          exact .ite (.bind (makeTable_contained _ _ _).sameNames fun _ =>
            hfinish) hfinish

end Creation

namespace Session

variable {s : Session} {α : Type}

/-- No transaction is open, and no two databases have one name. -/
structure Idle (s : Session) : Prop where
  nodup : s.world.names.Nodup
  before : s.before = none

/-- Without a transaction there is nothing to agree with. -/
theorem Idle.steady (hs : s.Idle) : s.Steady :=
  ⟨hs.nodup, fun old hold => by rw [hs.before] at hold; cases hold⟩

theorem Idle.saved (hs : s.Idle) : s.saved = none := by
  rw [Session.saved, hs.before, Option.map_none]

/-- A step outside a transaction that leaves the names of the databases. -/
theorem Idle.attempt (hs : s.Idle) {work : Work α}
    (hwork : work.Keeps World.SameNames) : (s.attempt work).2.Idle := by
  unfold Session.attempt
  have hworld := hwork { s.world with pending := 0 }
  change World.SameNames _ (work.run { s.world with pending := 0 }).2 at hworld
  rcases hrun : work.run { s.world with pending := 0 } with ⟨result, world⟩
  rw [hrun] at hworld
  have hahead : Idle { s with world } :=
    ⟨(show world.names = s.world.names from hworld) ▸ hs.nodup, hs.before⟩
  have hleft : (s.without world).Idle := ⟨hs.nodup, hs.before⟩
  have hundone : (s.without world).undone.Idle := by
    unfold undone
    rw [hleft.before]
    exact hleft
  cases result with
  | ok a =>
      dsimp only
      split
      · exact hleft
      · exact hahead
  | error stop =>
      cases stop with
      | skip => exact hleft
      | failed f extent =>
          dsimp only
          split
          · exact hundone
          · cases extent with
            | rollback => exact hundone
            | abort => exact hleft
            | fail =>
                dsimp only
                split
                · exact hleft
                · exact hahead
            | ignore =>
                dsimp only
                split
                · exact hleft
                · exact hahead

end Session

/-- The statement makes a table, or sets how long to wait for a lock. -/
def Statement.isOpening : Statement → Bool
  | .createTable _ _ _ _ _ => true
  | .directive d => d.key = "busy_timeout"
  | _ => false

namespace Session

variable {s : Session} {args : List Value} {p : Prepared}

/-- A table is made outside a transaction, or is not made. -/
theorem Idle.createTable (hs : s.Idle) {isTemporary ifMissing : Bool}
    {name : TableName} {t : TableText} {text : String}
    (hp : s.prepare args (.createTable isTemporary ifMissing name t text) =
      .ok p) : (s.run p).2.Idle := by
  unfold Session.prepare prepareTable at hp
  cases hnamed : Creation.named s.world isTemporary ifMissing name with
  | error f =>
      rw [hnamed] at hp
      cases hp
  | ok r =>
      obtain ⟨n, isDone⟩ := r
      simp only [hnamed, bind, Except.bind] at hp
      split at hp
      · obtain rfl := Except.ok.inj hp
        exact hs
      · cases hwork : Creation.table s.world n name.name t text with
        | error f =>
            rw [hwork] at hp
            cases hp
        | ok work =>
            rw [hwork] at hp
            obtain rfl := Except.ok.inj hp
            unfold Session.run
            split
            · exact hs
            · exact hs.attempt (.bind (Creation.table_sameNames hwork)
                fun _ => .pure _)

/-- How long to wait for a lock has nothing to do with databases. -/
theorem Idle.wait (hs : s.Idle) {d : Directive} (hd : d.key = "busy_timeout")
    (hp : s.prepare args (.directive d) = .ok p) : (s.run p).2.Idle := by
  obtain rfl : Prepared.ofControl (·.direct d) = p := Except.ok.inj hp
  have hdirect : ∀ t, s.direct d = .ok t → t.Idle := by
    intro t ht
    unfold direct at ht
    rw [hd] at ht
    split at ht
    · cases ht
    · obtain rfl := Except.ok.inj ht
      exact hs
    · cases hvalue : d.value with
      | none =>
          rw [hvalue] at ht
          obtain rfl := Except.ok.inj ht
          exact hs
      | some value =>
          rw [hvalue] at ht
          obtain rfl := Except.ok.inj ht
          exact ⟨hs.nodup, hs.before⟩
  change Idle ((Prepared.ofControl (·.direct d)).run s).2
  unfold Prepared.ofControl
  dsimp only
  cases ht : s.direct d with
  | error f => exact hs
  | ok t => exact hdirect t ht

/-- What opens a journal opens no transaction. -/
theorem Idle.opening (hs : s.Idle) {x : Statement} (hx : x.isOpening = true)
    (hp : s.prepare args x = .ok p) : (s.run p).2.Idle := by
  cases x with
  | createTable _ _ _ _ _ => exact hs.createTable hp
  | directive d => exact hs.wait (of_decide_eq_true hx) hp
  | _ => cases hx

end Session

/-- What opens a journal asks for no file. -/
theorem Statement.isPlain_of_isOpening {s : Statement}
    (h : s.isOpening = true) : s.isPlain = true := by
  cases s with
  | createTable _ _ _ _ _ => rfl
  | directive d =>
      have hd : d.key = "busy_timeout" := of_decide_eq_true h
      exact decide_eq_true (by rw [hd]; decide)
  | _ => cases h

/-- What holds of every statement of a script can be weakened. -/
theorem Statement.everyOf_mono {p q : Statement → Bool}
    (hpq : ∀ s, p s = true → q s = true) {fuel : Nat} {ts : List Token}
    (h : everyOf p fuel ts = true) : everyOf q fuel ts = true := by
  induction fuel generalizing ts with
  | zero => rfl
  | succ fuel ih =>
      unfold everyOf at h ⊢
      split
      · next s rest hnext =>
          rw [hnext] at h
          obtain ⟨hs, hrest⟩ := Bool.and_eq_true_iff.mp h
          exact Bool.and_eq_true_iff.mpr ⟨hpq s hs, ih hrest⟩
      · rfl

namespace Connection

variable {c : Connection}

/-- The end of a statement opens no transaction. -/
theorem idle_settled (h : c.session.Idle) : c.settled.session.Idle := by
  unfold settled
  split
  · exact h
  · exact ⟨c.session.world.names_atRest ▸ h.nodup, h.before⟩

/-- A statement that opens a journal opens no transaction. -/
theorem idle_performed (h : c.session.Idle) (args : List Value)
    {x : Statement} (hx : x.isOpening = true) :
    (performed args x c).2.session.Idle := by
  have hsession := session_looking x.reading c
  unfold performed
  rw [← hsession] at h
  generalize c.looking x.reading = c at h
  dsimp only
  cases hp : c.madeOf args x with
  | error f => exact h
  | ok p => exact idle_settled (h.opening hx (prepare_of_madeOf hp))

/-- A script that opens a journal opens no transaction. -/
theorem idle_performedAll (h : c.session.Idle) (hmem : c.backings = [])
    {fuel : Nat} {ts : List Token}
    (hall : Statement.everyOf Statement.isOpening fuel ts = true) :
    (performedAll fuel ts c).2.session.Idle ∧
      (performedAll fuel ts c).2.backings = [] := by
  induction fuel generalizing ts c with
  | zero => exact ⟨h, hmem⟩
  | succ fuel ih =>
      unfold Statement.everyOf at hall
      unfold performedAll
      cases hnext : Statement.next ts with
      | error r => exact ⟨h, hmem⟩
      | ok found =>
          cases found with
          | none => exact ⟨h, hmem⟩
          | some r =>
              obtain ⟨x, rest⟩ := r
              simp only [hnext] at hall
              obtain ⟨hx, hrest⟩ := Bool.and_eq_true_iff.mp hall
              have hidle := idle_performed h [] hx
              have hbackings := backings_performed hmem [] x
              dsimp only
              rcases hperformed : performed [] x c with ⟨_ | answer, c'⟩
              · rw [hperformed] at hidle hbackings
                exact ⟨hidle, hbackings⟩
              · rw [hperformed] at hidle hbackings
                dsimp only
                generalize answer.rows.first = first
                rcases first with (_ | ⟨f, extent⟩) | row
                · exact ih hidle hbackings hrest
                · exact ⟨hidle, hbackings⟩
                · exact ih hidle hbackings hrest

end Connection

end Bytecode.Database
