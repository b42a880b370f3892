import Bytecode.Proofs.Clients
import Bytecode.Proofs.InPlace
import Bytecode.Proofs.Visiting

/-!
# Inlined calls on the books

How many calls have been inlined into a method is counted by the editor of its
visit and checked against the budget before the callee is visited; that visit
may have other methods visited and inline any number of calls into them.  All
inlined calls are counted by the session while the inliner is at work, and
changes by the inliner are counted by the driver after it has returned.

To compare the counts, the passes are made to keep an account.  It has an entry
for each change by the inliner, and a copy of the counts from each moment at
which a pass is about to be applied.  Keeping it changes nothing in a run.

Nothing is asked of the program: its code may be in any state, and methods may
share bodies. An edit, whether it goes through or fails, stays with the method
and the count of its editor (`Editing.InPlace`), and a method is visited once,
so the editor of that visit has counted all that has ever been inlined in visits
of the method.  `Session.Books` says so between visits and `Visit.OnBooks` in
the middle of one.  Since calls may fail in such programs, and the books are in
order then as well, the driver is gone through once more, with `Answers` for
what a call leaves however it ends.

The two counts differ by the calls that the inliner had replaced when it failed;
where methods share no bodies there are none (`Unbroken`).  The main statement
is `budget_kept`.
-/

namespace Bytecode

/-! ### The account -/

/-- The method in whose visit a call has been inlined, and the body that has
taken it in. -/
structure InlinedCall where
  method : MethodId
  body : BodyId
  deriving DecidableEq

/-- The counts, and what the account said at that moment. -/
structure Interim where
  stats : Stats
  /-- Where calls have been inlined, the latest first. -/
  inlinings : List InlinedCall
  /-- How often the inliner had failed when it had already replaced the call. -/
  unfinished : Nat

/-- What the inliner has done so far, and what was to be seen on the way. -/
structure Account where
  /-- Where calls have been inlined, the latest first. -/
  inlinings : List InlinedCall := []
  /-- How often the inliner has failed when it had already replaced the call. -/
  unfinished : Nat := 0
  interims : List Interim := []

/-- How often a rule has changed something. -/
def Stats.changesBy (x : Stats) (pass : Pass) : Nat := x.fired.count pass.name

namespace Account

/-- How many calls have been inlined in the visits of the method. -/
def into (a : Account) (m : MethodId) : Nat :=
  a.inlinings.countP fun e => e.method = m

/-- A pass is about to be applied. -/
def before (a : Account) (stats : Stats) : Account :=
  { a with interims := ⟨stats, a.inlinings, a.unfinished⟩ :: a.interims }

/-- A call has been inlined in the given place, and the inliner has ended with
that result. -/
def onceMore (a : Account) (place : InlinedCall) (result : Except Fault Unit) :
    Account :=
  { a with
    inlinings := place :: a.inlinings
    unfinished := if result.isOk then a.unfinished else a.unfinished + 1 }

/-- The pass of that name has been applied in the given place.  The first change
by the inliner is that it replaces the call. -/
def after (a : Account) (name : String) (place : InlinedCall) (changed : Bool)
    (result : Except Fault Unit) : Account :=
  if name = Pass.inlineFunctionCall.name ∧
      changed = true then a.onceMore place result else a

end Account

/-- The method of the visit and its body. -/
def Visit.place (v : Visit Account) : InlinedCall :=
  ⟨v.editor.method, v.editor.body⟩

/-- The counts have been copied down. -/
def Visit.copied (v : Visit Account) : Visit Account :=
  v.withClient (v.session.client.before v.session.stats)

/-- What the pass of that name has done in the given place has been entered. -/
def Visit.entered (v : Visit Account) (name : String) (place : InlinedCall)
    (result : Except Fault Unit) : Visit Account :=
  v.withClient (v.session.client.after name place v.editor.dirty result)

/-- The rule, made to keep an account. -/
def Rule.accounting (r : Rule Account) : Rule Account where
  name := r.name
  apply optimize v :=
    let (result, v') := r.apply optimize v.copied
    (result, v'.entered r.name v.place result)

/-- The optimiser whose passes keep an account. -/
def Optimizer.accounting (cfg : InlineSettings) (passes : List Pass) :
    Optimizer Account :=
  { rules := passes.map fun pass => (pass.rule cfg).accounting }

/-- A positive budget has not been exceeded in the visits of any method. -/
def Account.Affords (budget : Int) (inlinings : List InlinedCall) : Prop :=
  0 < budget → ∀ m, (inlinings.countP fun e => e.method = m : Nat) ≤ budget

/-- The counts agree with the inlinings, for which the budget suffices. -/
structure Interim.Tallies (budget : Int) (x : Interim) : Prop where
  inlined : x.stats.inlined = x.inlinings.length
  changes : x.stats.changesBy .inlineFunctionCall + x.unfinished =
    x.stats.inlined
  affords : Account.Affords budget x.inlinings

/-! ### On the books -/

namespace Session

variable {budget : Int} {s t u : Session Account} {m : MethodId}
  {place : InlinedCall}

/-- What is to be seen now. -/
def interim (s : Session Account) : Interim :=
  ⟨s.stats, s.client.inlinings, s.client.unfinished⟩

/-- The counts agree with the account now and did so whenever a pass was about
to be applied, calls have been inlined into the bodies of their methods, and
only if these have been visited. -/
structure Books (budget : Int) (s : Session Account) : Prop where
  now : s.interim.Tallies budget
  before : ∀ x ∈ s.client.interims, x.Tallies budget
  idle : ∀ m, s.progressOf m = .notVisited → s.client.into m = 0
  owned : ∀ e ∈ s.client.inlinings, (s.program.method e.method).body =
    some e.body

/-- What comes after a session, as long as the inliner does not fail: nothing
more is inlined in the visits of methods that have been visited. -/
structure Ensues (s t : Session Account) : Prop where
  methods : t.program.methods = s.program.methods
  visited : ∀ m, s.progressOf m ≠ .notVisited → t.progressOf m ≠ .notVisited
  settled : ∀ m, s.progressOf m ≠ .notVisited →
    t.client.into m = s.client.into m
  interims : ∀ x ∈ t.client.interims, x ∈ s.client.interims ∨
    x.unfinished = s.client.unfinished

theorem Ensues.refl (s : Session Account) : s.Ensues s :=
  ⟨rfl, fun _ h => h, fun _ _ => rfl, fun _ h => Or.inl h⟩

/-- Methods stay as they are. -/
theorem Ensues.method (h : s.Ensues t) (m : MethodId) :
    t.program.method m = s.program.method m := by
  rw [Program.method, Program.method, h.methods]

/-- What ensues from a state that has nothing unfinished. -/
theorem Ensues.trans (h : s.Ensues t)
    (hfinished : t.client.unfinished = s.client.unfinished) (h' : t.Ensues u) :
    s.Ensues u where
  methods := h'.methods.trans h.methods
  visited m hm := h'.visited m (h.visited m hm)
  settled m hm := (h'.settled m (h.visited m hm)).trans (h.settled m hm)
  interims x hx := by
    rcases h'.interims x hx with hx | hx
    · exact h.interims x hx
    · exact Or.inr (hx.trans hfinished)

/-- What the books are about has not changed. -/
structure Level (s t : Session Account) : Prop where
  methods : t.program.methods = s.program.methods
  progress : t.progress = s.progress
  inlined : t.stats.inlined = s.stats.inlined
  changes : t.stats.changesBy .inlineFunctionCall =
    s.stats.changesBy .inlineFunctionCall
  client : t.client = s.client

/-- Nothing has been visited. -/
theorem Level.progressOf (h : s.Level t) (m : MethodId) :
    t.progressOf m = s.progressOf m := by
  rw [Session.progressOf, Session.progressOf, h.progress]

/-- A level state ensues. -/
theorem Level.ensues (h : s.Level t) : s.Ensues t where
  methods := h.methods
  visited m hm := by rwa [h.progressOf]
  settled m _ := by rw [h.client]
  interims x hx := Or.inl (by rwa [h.client] at hx)

/-- The books are right in a level state. -/
theorem Books.level (h : s.Books budget) (hst : s.Level t) :
    t.Books budget where
  now := by
    rw [interim, hst.client]
    have hchanges :=
      (congrArg (· + s.client.unfinished) hst.changes).trans h.now.changes
    exact ⟨hst.inlined.trans h.now.inlined, hchanges.trans hst.inlined.symm,
      h.now.affords⟩
  before := by
    rw [hst.client]
    exact h.before
  idle := by
    intro m hm
    rw [hst.progressOf] at hm
    rw [hst.client]
    exact h.idle m hm
  owned := by
    rw [hst.client]
    intro e he
    rw [hst.ensues.method]
    exact h.owned e he

/-- The books do not tell how far a visited method is. -/
theorem Books.marked (h : s.Books budget) (m : MethodId) {x : Progress}
    (hx : x ≠ .notVisited) : (s.setProgress m x).Books budget where
  now := h.now
  before := h.before
  idle := by
    intro k hk
    rw [progressOf_setProgress] at hk
    split at hk
    · exact absurd hk hx
    · exact h.idle k hk
  owned := h.owned

/-- Marking a method is no visit. -/
theorem ensues_marked (s : Session Account) (m : MethodId) {x : Progress}
    (hx : x ≠ .notVisited) : s.Ensues (s.setProgress m x) where
  methods := rfl
  visited := by
    intro k hk
    rw [progressOf_setProgress]
    split
    · exact hx
    · exact hk
  settled _ _ := rfl
  interims _ h := Or.inl h

/-- The counts are copied down. -/
theorem Books.copied (h : s.Books budget) :
    Books budget { s with client := s.client.before s.stats } :=
  ⟨h.now, List.forall_mem_cons.mpr ⟨h.now, h.before⟩, h.idle, h.owned⟩

/-- Counting an unfinished copy is no visit. -/
theorem ensues_copied (s : Session Account) :
    s.Ensues { s with client := s.client.before s.stats } where
  methods := rfl
  visited _ h := h
  settled _ _ := rfl
  interims x hx := by
    rcases List.mem_cons.mp hx with rfl | hx
    · exact Or.inr rfl
    · exact Or.inl hx

/-- A call more has been inlined in the place, and has been counted twice: as
inlined, and as a change or as unfinished. -/
structure OnceMore (place : InlinedCall) (s t : Session Account) : Prop where
  methods : t.program.methods = s.program.methods
  progress : t.progress = s.progress
  inlined : t.stats.inlined = s.stats.inlined + 1
  changes : t.stats.changesBy .inlineFunctionCall + t.client.unfinished =
    s.stats.changesBy .inlineFunctionCall + s.client.unfinished + 1
  inlinings : t.client.inlinings = place :: s.client.inlinings
  interims : t.client.interims = s.client.interims

/-- A copy visits no method. -/
theorem OnceMore.progressOf (h : s.OnceMore place t) (m : MethodId) :
    t.progressOf m = s.progressOf m := by
  rw [Session.progressOf, Session.progressOf, h.progress]

/-- One copy more is in the method that has been copied into. -/
theorem OnceMore.into_self (h : s.OnceMore place t) :
    t.client.into place.method = s.client.into place.method + 1 := by
  rw [Account.into, h.inlinings, List.countP_cons_of_pos (by simp)]
  rfl

/-- The copies in other methods stay. -/
theorem OnceMore.into_of_ne (h : s.OnceMore place t) (hm : m ≠ place.method) :
    t.client.into m = s.client.into m := by
  rw [Account.into, h.inlinings,
    List.countP_cons_of_neg (by simpa using hm.symm)]
  rfl

/-- The books are right after one copy more. -/
theorem Books.onceMore (h : s.Books budget) (hst : s.OnceMore place t)
    (hafford : 0 < budget → (s.client.into place.method : Int) < budget)
    (hbusy : s.progressOf place.method ≠ .notVisited)
    (hbody : (s.program.method place.method).body = some place.body) :
    t.Books budget where
  now := by
    have hlength :
        t.interim.inlinings.length = s.interim.inlinings.length + 1 :=
      congrArg List.length hst.inlinings
    refine ⟨?_, ?_, fun hpos m => ?_⟩
    · rw [hlength, ← h.now.inlined]
      exact hst.inlined
    · exact hst.changes.trans
        ((congrArg (· + 1) h.now.changes).trans hst.inlined.symm)
    · by_cases hm : m = place.method
      · have hless := hafford hpos
        have hself := hst.into_self
        subst hm
        change (t.client.into place.method : Int) ≤ budget
        omega
      · have hle := h.now.affords hpos m
        have hother := hst.into_of_ne hm
        change (t.client.into m : Int) ≤ budget
        rw [hother]
        exact hle
  before := by
    rw [hst.interims]
    exact h.before
  idle := by
    intro m hm
    rw [hst.progressOf] at hm
    rw [hst.into_of_ne]
    · exact h.idle m hm
    · rintro rfl
      exact hbusy hm
  owned := by
    have hmethod : ∀ m, t.program.method m = s.program.method m := by
      intro m
      rw [Program.method, Program.method, hst.methods]
    rw [hst.inlinings]
    intro e he
    rw [hmethod]
    rcases List.mem_cons.mp he with rfl | he
    · exact hbody
    · exact h.owned e he

end Session

/-! ### In the middle of a visit -/

namespace Session

/-- A call that began in the one session has ended in the other, perhaps with a
failure. -/
structure Closes (budget : Int) (s t : Session Account) :
    Prop extends Ensues s t where
  books : t.Books budget

/-- A call that began in the one session has come back in the other without a
failure. -/
structure Returns (budget : Int) (s t : Session Account) :
    Prop extends Closes budget s t where
  finished : t.client.unfinished = s.client.unfinished

variable {budget : Int} {s t u : Session Account} {m : MethodId}

/-- A state returns to itself. -/
theorem Books.returns (h : s.Books budget) : s.Returns budget s :=
  ⟨⟨.refl s, h⟩, rfl⟩

/-- A state that returns can be closed as what comes after it. -/
theorem Returns.closes (h : s.Returns budget t) (h' : t.Closes budget u) :
    s.Closes budget u :=
  ⟨h.toEnsues.trans h.finished h'.toEnsues, h'.books⟩

/-- Returning one after the other. -/
theorem Returns.trans (h : s.Returns budget t) (h' : t.Returns budget u) :
    s.Returns budget u :=
  ⟨h.closes h'.toCloses, h'.finished.trans h.finished⟩

/-- A level state is a return. -/
theorem Books.returns_level (h : s.Books budget) (hst : s.Level t) :
    s.Returns budget t :=
  ⟨⟨hst.ensues, h.level hst⟩, by rw [hst.client]⟩

/-- So is a state with a method marked. -/
theorem Books.returns_marked (h : s.Books budget) (m : MethodId) {x : Progress}
    (hx : x ≠ .notVisited) : s.Returns budget (s.setProgress m x) :=
  ⟨⟨ensues_marked s m hx, h.marked m hx⟩, rfl⟩

end Session

namespace Visit

variable {budget : Int} {s t : Session Account} {m : MethodId}
  {v v' : Visit Account} {b : BodyId} {cfg : InlineSettings}

/-- The books in the middle of a visit that has begun in session `s`: its editor
has counted all calls that have ever been inlined in a visit of the method. -/
structure OnBooks (budget : Int) (s : Session Account) (v : Visit Account) :
    Prop where
  returns : s.Returns budget v.session
  spent : v.session.client.into v.editor.method = v.editor.inlined
  body : (v.session.program.method v.editor.method).body = some v.editor.body
  busy : v.session.progressOf v.editor.method ≠ .notVisited
  fresh : s.progressOf v.editor.method = .notVisited
  clean : v.editor.dirty = false

/-- The visit goes on in a session that has returned, with the same place and
count. -/
theorem OnBooks.onward (h : v.OnBooks budget s)
    (ht : v.session.Returns budget v'.session)
    (hmethod : v'.editor.method = v.editor.method)
    (hbody : v'.editor.body = v.editor.body)
    (hinlined : v'.editor.inlined = v.editor.inlined)
    (hclean : v'.editor.dirty = false) : v'.OnBooks budget s where
  returns := h.returns.trans ht
  spent := by
    rw [hmethod, hinlined, ht.settled _ h.busy]
    exact h.spent
  body := by
    rw [hmethod, hbody, ht.method]
    exact h.body
  busy := by
    rw [hmethod]
    exact ht.visited _ h.busy
  fresh := by
    rw [hmethod]
    exact h.fresh
  clean := hclean

/-- A visit begins with right books. -/
theorem onBooks_start (hs : s.Books budget) (hm : s.progressOf m = .notVisited)
    (hbody : (s.program.method m).body = some b) : OnBooks budget s
    ⟨s.setProgress m .inProgress, { method := m, body := b }⟩ where
  returns := hs.returns_marked m (by simp)
  spent := hs.idle m hm
  body := hbody
  busy := by
    rw [Session.progressOf_setProgress, if_pos rfl]
    simp
  fresh := hm
  clean := rfl

/-- The visit has moved on without touching the books. -/
theorem OnBooks.level (h : v.OnBooks budget s)
    (hlevel : v.session.Level v'.session)
    (hmethod : v'.editor.method = v.editor.method)
    (hbody : v'.editor.body = v.editor.body)
    (hinlined : v'.editor.inlined = v.editor.inlined)
    (hclean : v'.editor.dirty = false) : v'.OnBooks budget s :=
  h.onward (h.returns.books.returns_level hlevel) hmethod hbody hinlined hclean

/-- An account that has been advanced. -/
theorem OnBooks.advanced (h : v.OnBooks budget s) :
    v.advanced.OnBooks budget s :=
  h.level ⟨rfl, rfl, rfl, rfl, rfl⟩ rfl rfl rfl h.clean

/-- An account that has been restarted. -/
theorem OnBooks.restarted (h : v.OnBooks budget s) :
    v.restarted.OnBooks budget s :=
  h.level ⟨rfl, rfl, rfl, rfl, rfl⟩ rfl rfl rfl h.clean

/-- An account that has been rewound. -/
theorem OnBooks.rewound (h : v.OnBooks budget s) : v.rewound.OnBooks budget s :=
  h.level ⟨rfl, rfl, rfl, rfl, rfl⟩ rfl rfl rfl h.clean

/-- An account of a copy. -/
theorem OnBooks.copied (h : v.OnBooks budget s) : v.copied.OnBooks budget s :=
  h.onward ⟨⟨Session.ensues_copied v.session, h.returns.books.copied⟩, rfl⟩
    rfl rfl rfl h.clean

/-- Nothing is entered if nothing has changed. -/
theorem entered_of_clean (h : v.editor.dirty = false) (name : String)
    (place : InlinedCall) (result : Except Fault Unit) :
    v.entered name place result = v := by
  rw [entered, Account.after, if_neg (by simp [h])]
  rfl

/-- Only copies are entered. -/
theorem entered_of_ne {name : String} (h : name ≠ Pass.inlineFunctionCall.name)
    (place : InlinedCall) (result : Except Fault Unit) :
    v.entered name place result = v := by
  rw [entered, Account.after, if_neg (by simp [h])]
  rfl

/-- The budget allows for one call more. -/
theorem OnBooks.affords (h : v.OnBooks cfg.budget s)
    (hbudget : Inline.withinBudget cfg v.editor = true)
    (hpos : 0 < cfg.budget) :
    (v.session.client.into v.place.method : Int) < cfg.budget := by
  have hspent :
      (v.session.client.into v.place.method : Int) = v.editor.inlined :=
    congrArg Nat.cast h.spent
  rw [hspent]
  simpa [Inline.withinBudget, not_le.mpr hpos] using hbudget

/-- A call more has been inlined in the visit. -/
theorem OnBooks.closes (h : v.OnBooks cfg.budget s)
    (hbudget : Inline.withinBudget cfg v.editor = true)
    (ht : v.session.OnceMore v.place t) : s.Closes cfg.budget t where
  methods := ht.methods.trans h.returns.methods
  visited m hm := by
    rw [ht.progressOf]
    exact h.returns.visited m hm
  settled m hm := by
    refine (ht.into_of_ne ?_).trans (h.returns.settled m hm)
    rintro rfl
    exact hm h.fresh
  interims := by
    rw [ht.interims]
    exact h.returns.interims
  books := h.returns.books.onceMore ht (h.affords hbudget) h.busy h.body

/-- A call more has been inlined in the visit, which goes on. -/
theorem OnBooks.onceMore (h : v.OnBooks cfg.budget s)
    (hbudget : Inline.withinBudget cfg v.editor = true)
    (ht : v.session.OnceMore v.place v'.session)
    (hfinished : v'.session.client.unfinished = v.session.client.unfinished)
    (hmethod : v'.editor.method = v.editor.method)
    (hbody : v'.editor.body = v.editor.body)
    (hinlined : v'.editor.inlined = v.editor.inlined + 1)
    (hclean : v'.editor.dirty = false) : v'.OnBooks cfg.budget s where
  returns := ⟨h.closes hbudget ht, hfinished.trans h.returns.finished⟩
  spent := by
    rw [hmethod, hinlined, ← h.spent]
    exact ht.into_self
  body := by
    rw [hmethod, hbody, Program.method, ht.methods]
    exact h.body
  busy := by
    rw [hmethod, ht.progressOf]
    exact h.busy
  fresh := by
    rw [hmethod]
    exact h.fresh
  clean := hclean

end Visit

/-! ### The driver -/

namespace Optimizer

variable {cfg : InlineSettings} {passes : List Pass}

/-- A call that began in session `s` has ended, with the books in order. -/
def Answers {α : Type} (budget : Int) (s : Session Account) :
    Except Fault α × Session Account → Prop
  | (.ok _, t) => s.Returns budget t
  | (.error _, t) => s.Closes budget t

/-- A computation in a visit that began in session `s` has ended, with the books
in order. -/
def VisitAnswers {α : Type} (budget : Int) (s : Session Account) :
    Except Fault α × Visit Account → Prop
  | (.ok _, v) => v.OnBooks budget s
  | (.error _, v) => s.Closes budget v.session

/-- The books are in order when the pass of that name has been applied and the
driver has counted what it has done. -/
def Booked (budget : Int) (s : Session Account) (name : String) :
    Except Fault Unit × Visit Account → Prop
  | (.ok _, v) => (if v.editor.dirty then v.taken name else v).OnBooks budget s
  | (.error _, v) => s.Closes budget v.session

section Step

variable {s : Session Account} {v : Visit Account} {call anchor : InstrId}
  {b : BodyId} {optimize : Option MethodId → SessionM Account Unit}

/-- All calls keep the books in order. -/
def KeepBooks (budget : Int)
    (optimize : Option MethodId → SessionM Account Unit) : Prop :=
  ∀ m s, s.Books budget → Answers budget s (optimize (some m) s)

/-- A pass that has done nothing to be entered. -/
theorem booked_quiet {budget : Int} (h : v.OnBooks budget s) (name : String)
    (place : InlinedCall) (result : Except Fault Unit) :
    Booked budget s name (.ok (), v.entered name place result) := by
  rw [Visit.entered_of_clean h.clean, Booked, if_neg (by simp [h.clean])]
  exact h

/-- A pass that has failed leaves books that can be closed. -/
theorem booked_broken {budget : Int} (h : v.OnBooks budget s)
    {t : Session Account} (ht : v.session.Closes budget t) (name : String)
    (place : InlinedCall) (e : Fault) : Booked budget s name (.error e,
      Visit.entered { v with session := t } name place (.error e)) := by
  rw [Visit.entered_of_clean (v := { v with session := t }) h.clean]
  exact h.returns.closes ht

/-- A pass that works in its place is not entered. -/
theorem booked_local (hv : v.OnBooks cfg.budget s) {pass : Pass}
    (hpass : pass ≠ .inlineFunctionCall) :
    Booked cfg.budget s pass.name (((pass.rule cfg).apply optimize v).1,
      ((pass.rule cfg).apply optimize v).2.entered pass.name v.place
        ((pass.rule cfg).apply optimize v).1) := by
  obtain ⟨f, hf, heq⟩ := Pass.rule_inPlace (σ := Account) cfg hpass
  have hname : pass.name ≠ Pass.inlineFunctionCall.name := by
    cases pass <;> first | exact absurd rfl hpass | decide
  have hplace := hf v.editing
  have hlevel : v.session.Level (v.setEditing (f v.editing).2).session :=
    ⟨hplace.methods, rfl, rfl, rfl, rfl⟩
  rw [heq, Visit.tryEdit_apply, Visit.entered_of_ne hname]
  generalize f v.editing = x at hplace hlevel
  obtain ⟨e | ⟨⟩, edited⟩ := x
  · exact hv.returns.closes (hv.returns.books.returns_level hlevel).toCloses
  · rw [Booked]
    split
    · refine hv.level ⟨hplace.methods, rfl, rfl, ?_, rfl⟩
        hplace.method hplace.body hplace.inlined rfl
      refine (Tally.count_bump _ _ _).trans ?_
      rw [if_neg hname.symm]
      rfl
    · next hdirty =>
        exact hv.level hlevel hplace.method hplace.body hplace.inlined
          (by simpa using hdirty)

/-- The call has been replaced and counted, and the copy has gone through or
failed, which is entered. -/
theorem booked_counted {v' : Visit Account} (hv : v.OnBooks cfg.budget s)
    (hbudget : Inline.withinBudget cfg v.editor = true)
    (h : Inline.Counted v v') (r : Except Fault Unit) :
    Booked cfg.budget s Pass.inlineFunctionCall.name
    (r, v'.entered Pass.inlineFunctionCall.name v.place r) := by
  have hprogress : v'.session.progress = v.session.progress := by rw [h.session]
  have hinlined : v'.session.stats.inlined = v.session.stats.inlined + 1 := by
    rw [h.session]
  have hchanges : v'.session.stats.changesBy .inlineFunctionCall =
      v.session.stats.changesBy .inlineFunctionCall := by rw [h.session]; rfl
  have hclient : v'.session.client = v.session.client := by rw [h.session]
  rw [Visit.entered, Account.after, if_pos ⟨rfl, h.dirty⟩, hclient]
  cases r with
  | error e =>
      refine hv.closes hbudget ⟨h.methods, hprogress, hinlined, ?_, rfl, rfl⟩
      exact congrArg (· + (v.session.client.unfinished + 1)) hchanges
  | ok a =>
      have hdirty : (v'.withClient (v.session.client.onceMore v.place
          (.ok a))).editor.dirty = true := h.dirty
      rw [Booked, if_pos hdirty]
      refine hv.onceMore hbudget ⟨h.methods, hprogress, hinlined, ?_, rfl, rfl⟩
        rfl h.method h.body h.inlined rfl
      have hbump : (v'.session.stats.fired.bump
          Pass.inlineFunctionCall.name).count Pass.inlineFunctionCall.name =
          v.session.stats.changesBy .inlineFunctionCall + 1 := by
        rw [Tally.count_bump, if_pos rfl]
        exact congrArg (· + 1) hchanges
      refine (congrArg (· + v.session.client.unfinished) hbump).trans ?_
      omega

/-- The callee's visit leaves the books in order. -/
theorem answers_call (hcalls : KeepBooks cfg.budget optimize)
    (hv : v.OnBooks cfg.budget s) (c : MethodId) : Answers cfg.budget v.session
    (optimize (some c) (Inline.consulted cfg c v.session)) := by
  have hasked :
      v.session.Returns cfg.budget (Inline.consulted cfg c v.session) :=
    hv.returns.books.returns_level ⟨rfl, rfl, rfl, rfl, rfl⟩
  have hanswer := hcalls c _ hasked.books
  generalize optimize (some c) (Inline.consulted cfg c v.session) = x at hanswer
  obtain ⟨e | ⟨⟩, t⟩ := x
  · exact hasked.closes hanswer
  · exact hasked.trans hanswer

/-- The inliner may have other methods visited before it changes anything. -/
theorem booked_inline (hcalls : KeepBooks cfg.budget optimize)
    (hv : v.OnBooks cfg.budget s) :
    Booked cfg.budget s Pass.inlineFunctionCall.name
    ((Inline.apply cfg optimize v).1,
      (Inline.apply cfg optimize v).2.entered Pass.inlineFunctionCall.name
      v.place (Inline.apply cfg optimize v).1) := by
  cases htarget : v.editor.target with
  | none =>
      rw [Inline.apply_absent htarget]
      exact booked_broken hv hv.returns.books.returns.toCloses _ _ _
  | some call =>
      have hr :
          Inline.Inlines cfg optimize v call (Inline.apply cfg optimize v) :=
        Inline.apply_inlines htarget
      generalize hx : Inline.apply cfg optimize v = r at hr
      cases hr with
      | none => exact booked_quiet hv _ _ _
      | declined stats hcallee hreason =>
          obtain ⟨refused, heq⟩ := Inline.apply_declined htarget hcallee hreason
          rw [← hx, heq]
          refine booked_quiet ?_ _ _ _
          exact hv.level ⟨rfl, rfl, rfl, rfl, rfl⟩ rfl rfl rfl hv.clean
      | @stopped c e t hcallee hopt =>
          have hcall := answers_call hcalls hv c
          rw [hopt] at hcall
          exact booked_broken hv hcall _ _ _
      | @spared c t hcallee hopt =>
          have hcall := answers_call hcalls hv c
          rw [hopt] at hcall
          have hvt : Visit.OnBooks cfg.budget s { v with session := t } :=
            hv.onward hcall rfl rfl rfl hv.clean
          exact booked_quiet hvt _ _ _
      | @takenIn c t anchor b hcallee _ hnext hbudget hopt _ hbody =>
          have hcall := answers_call hcalls hv c
          rw [hopt] at hcall
          have hvt : Visit.OnBooks cfg.budget s { v with session := t } :=
            hv.onward hcall rfl rfl rfl hv.clean
          rcases Inline.takeIn_counted call b anchor { v with
            session := t } with
            ⟨e, s', heq, hplace, hdirty⟩ | hcounted
          · have hlevel :
                t.Level (Visit.setEditing { v with session := t } s').session :=
              ⟨hplace.methods, rfl, rfl, rfl, rfl⟩
            rw [heq]
            simp only
            rw [Visit.entered_of_clean (hdirty.trans hv.clean)]
            exact hvt.returns.closes
              (hvt.returns.books.returns_level hlevel).toCloses
          · exact booked_counted hvt hbudget hcounted _

/-- **One application** keeps the books in order. -/
theorem booked_apply (hcalls : KeepBooks cfg.budget optimize)
    (hv : v.OnBooks cfg.budget s) (pass : Pass) :
    Booked cfg.budget s pass.name (((pass.rule cfg).apply optimize v).1,
      ((pass.rule cfg).apply optimize v).2.entered pass.name v.place
      ((pass.rule cfg).apply optimize v).1) := by
  by_cases hpass : pass = .inlineFunctionCall
  · subst hpass
    exact booked_inline hcalls hv
  · exact booked_local hv hpass

end Step

section Driver

variable {budget : Int} {s : Session Account} {v : Visit Account} {m : MethodId}
  {optimize : Option MethodId → SessionM Account Unit}

theorem accounting_notify (e : Event) (v : Visit Account) :
    (accounting cfg passes).notify e v = (.ok (), v) := rfl

/-- An accountant offers what its rules offer. -/
theorem accounting_offer (optimize : Option MethodId → SessionM Account Unit)
    (v : Visit Account) : (accounting cfg passes).offer optimize v =
    (accounting cfg passes).offerTo optimize (accounting cfg passes).rules v :=
  rfl

/-- The application of a rule is entered in the books. -/
theorem booked_applyRule (passes : List Pass)
    (hcalls : KeepBooks cfg.budget optimize) (hv : v.OnBooks cfg.budget s)
    (pass : Pass) :
    Booked cfg.budget s pass.name ((accounting cfg passes).applyRule optimize
      (pass.rule cfg).accounting v) := by
  have hbooked := booked_apply hcalls hv.copied pass
  rw [applyRule]
  simp only [accounting_notify]
  change Booked cfg.budget s pass.name
    (((pass.rule cfg).apply optimize v.copied).1.mapError _,
      ((pass.rule cfg).apply optimize v.copied).2.entered pass.name
      v.copied.place ((pass.rule cfg).apply optimize v.copied).1)
  generalize (pass.rule cfg).apply optimize v.copied = x at hbooked
  obtain ⟨e | ⟨⟩, v'⟩ := x
  · exact hbooked
  · exact hbooked

/-- So are those of several rules to one instruction. -/
theorem answers_offerTo (passes : List Pass)
    (hcalls : KeepBooks cfg.budget optimize) {rules : List (Rule Account)}
    (hrules : ∀ r ∈ rules, r ∈ (accounting cfg passes).rules)
    (hv : v.OnBooks cfg.budget s) : VisitAnswers cfg.budget s
    ((accounting cfg passes).offerTo optimize rules v) := by
  induction rules generalizing v with
  | nil => exact hv
  | cons r rest ih =>
      obtain ⟨pass, -, rfl⟩ := List.mem_map.mp (hrules r List.mem_cons_self)
      have hbooked := booked_applyRule passes hcalls hv pass
      rw [offerTo_cons]
      generalize (accounting cfg passes).applyRule optimize
        (pass.rule cfg).accounting v = x at hbooked
      obtain ⟨e | ⟨⟩, v'⟩ := x
      · exact hbooked
      · rw [Booked] at hbooked
        simp only
        split
        · next hdirty =>
            rw [if_pos hdirty] at hbooked
            exact hbooked
        · next hdirty =>
            rw [if_neg hdirty] at hbooked
            exact ih (fun r hr => hrules r (List.mem_cons_of_mem _ hr)) hbooked

/-- So is a scan of a body. -/
theorem answers_scan (passes : List Pass)
    (hcalls : KeepBooks cfg.budget optimize) (steps : Nat) (changed : Bool)
    (hv : v.OnBooks cfg.budget s) : VisitAnswers cfg.budget s
    ((accounting cfg passes).scan optimize steps changed v) := by
  induction steps generalizing changed v with
  | zero => exact hv.returns.toCloses
  | succ steps ih =>
      rw [scan_succ]
      split
      · have hoffer :=
          answers_offerTo passes hcalls (fun _ hr => hr) hv.advanced
        rw [accounting_offer]
        generalize (accounting cfg passes).offerTo optimize
          (accounting cfg passes).rules v.advanced = x at hoffer
        obtain ⟨e | fired, v'⟩ := x
        · exact hoffer
        · have hv' : v'.OnBooks cfg.budget s := hoffer
          cases fired with
          | true => exact ih true hv'.rewound
          | false => exact ih changed hv'
      · cases changed with
        | true => exact ih false hv.advanced.restarted
        | false => exact hv.advanced

/-- **All calls keep the books in order**, whatever the program and however they
end. -/
theorem keepBooks_optimize (cfg : InlineSettings) (passes : List Pass)
    (fuel : Nat) :
    KeepBooks cfg.budget ((accounting cfg passes).optimize fuel) := by
  induction fuel with
  | zero => exact fun m s hs => hs.returns.toCloses
  | succ fuel ih =>
      intro m s hs
      have hmarked : ∀ x y : Progress, x ≠ .notVisited → y ≠ .notVisited →
          s.Returns cfg.budget ((s.setProgress m x).setProgress m y) :=
        fun x y hx hy =>
        (hs.returns_marked m hx).trans ((hs.marked m hx).returns_marked m hy)
      rw [optimize_succ]
      split
      · next hm =>
          cases hbody : (s.program.method m).body with
          | none => exact hmarked _ _ (by simp) (by simp)
          | some b =>
              simp only
              split
              · exact hmarked _ _ (by simp) (by simp)
              · have hscan := answers_scan passes ih fuel false
                  (Visit.onBooks_start hs hm hbody)
                rw [visit]
                simp only [accounting_notify]
                generalize (accounting cfg passes).scan
                  ((accounting cfg passes).optimize fuel)
                  fuel false ⟨s.setProgress m .inProgress,
                    { method := m, body := b }⟩ = x at hscan
                obtain ⟨e | ⟨⟩, v'⟩ := x
                · exact hscan
                · have hv' : v'.OnBooks cfg.budget s := hscan
                  have hdone := hv'.returns.trans
                    (hv'.returns.books.returns_marked m (x := .done) (by simp))
                  exact hdone.trans
                    (hdone.books.returns_level ⟨rfl, rfl, rfl, rfl, rfl⟩)
      · exact hs.returns

end Driver

/-! ### Requests -/

section Requests

variable {start s t : Session Account} {r : Except Fault Unit}

/-- An answer can be closed. -/
theorem Answers.closes {α : Type} {budget : Int}
    {x : Except Fault α × Session Account} (h : Answers budget s x) :
    s.Closes budget x.2 := by
  obtain ⟨e | a, t⟩ := x
  · exact h
  · exact h.toCloses

/-- An answer after a return. -/
theorem Answers.after {α : Type} {budget : Int}
    {x : Except Fault α × Session Account} (h : s.Returns budget t)
    (hx : Answers budget t x) : Answers budget s x := by
  obtain ⟨e | a, u⟩ := x
  · exact h.closes hx
  · exact h.trans hx

/-- One answer after the other. -/
theorem Answers.bind {α β : Type} {budget : Int} {x : SessionM Account α}
    {f : α → SessionM Account β} (h : Answers budget s (x s))
    (hf : ∀ a t, t.Books budget → Answers budget t (f a t)) :
    Answers budget s ((x >>= f) s) := by
  rw [bind_apply]
  generalize x s = y at h
  obtain ⟨e | a, t⟩ := y
  · exact h
  · exact Answers.after h (hf a t h.books)

/-- Requests one after the other are answered. -/
theorem answers_forM (cfg : InlineSettings) (passes : List Pass) (fuel : Nat)
    (ms : List MethodId) (hs : s.Books cfg.budget) : Answers cfg.budget s
    ((ms.forM fun m => (accounting cfg passes).optimize fuel (some m) :
      SessionM Account Unit) s) := by
  induction ms generalizing s with
  | nil => exact hs.returns
  | cons m ms ih =>
      exact Answers.bind
        (keepBooks_optimize cfg passes fuel m s hs) fun _ t ht => ih ht

/-- A request keeps the books in order, however it ends. -/
theorem answers_perform (cfg : InlineSettings) (passes : List Pass) (fuel : Nat)
    (q : Request) (hs : s.Books cfg.budget) :
    Answers cfg.budget s (q.perform (accounting cfg passes) fuel s) := by
  cases q with
  | run ms =>
      have hbefore : s.Returns cfg.budget (s.count
          fun t => { t with before := t.before + s.program.instrCount ms }) :=
        hs.returns_level ⟨rfl, rfl, rfl, rfl, rfl⟩
      have hcalls :=
        Answers.after hbefore (answers_forM cfg passes fuel ms hbefore.books)
      rw [Request.perform, run_apply]
      generalize (ms.forM fun m => (accounting cfg passes).optimize fuel
        (some m) : SessionM Account Unit) _ = x at hcalls
      obtain ⟨e | ⟨⟩, t⟩ := x
      · exact hcalls
      · have ht : s.Returns cfg.budget t := hcalls
        exact ht.trans (ht.books.returns_level ⟨rfl, rfl, rfl, rfl, rfl⟩)
  | optimize m =>
      cases m with
      | some m => exact keepBooks_optimize cfg passes fuel m s hs
      | none => cases fuel <;> exact hs.returns.toCloses

/-- The rules of the accountant do what those of the optimizer do. -/
theorem accounting_alike {τ : Type} (cfg : InlineSettings)
    (passes : List Pass) :
    List.Forall₂ Rule.Alike (ofPasses cfg passes : Optimizer τ).rules
    (accounting cfg passes).rules := by
  refine alike_ofPasses (fun pass => ?_) passes
  exact .of_notes rfl fun _ w => ⟨w.copied, fun h => h.client _, _, rfl⟩

/-- The accountant obeys the frame. -/
theorem frame_accounting (cfg : InlineSettings) (passes : List Pass) :
    frame.Obeyed (accounting cfg passes) := by
  refine frame_obeyed_of (fun _ _ => rfl) ?_
  intro r s m v i changed rest fuel hr hcalls h hi
  obtain ⟨pass, -, rfl⟩ := List.mem_map.mp hr
  have hcopied : v.copied.Within s m := h.withClient _
  have hstep := Pass.rule_step cfg
    ((accounting cfg passes).optimize fuel) hcopied.sound hi.1 hi.2 pass
  exact frame_withClient (frame_passStep hcalls hcopied hi hstep _) _

/-- Nothing is unfinished after a success. -/
theorem Answers.finished {budget : Int} {good : Unit → Session Account → Prop}
    {bad : Session Account → Prop} {x : Except Fault Unit × Session Account}
    (h : Answers budget s x) (hmeets : Meets good bad x)
    (hr : returned x.1 = true) :
    x.2.client.unfinished = s.client.unfinished := by
  obtain ⟨e | a, t⟩ := x
  · obtain ⟨rfl | rfl, -⟩ := hmeets <;> cases hr
  · exact Session.Returns.finished h

/-- The methods share no bodies, and the inliner has not failed when it had
replaced a call. -/
structure Unbroken (s : Session Account) : Prop where
  sound : s.Sound
  finished : s.client.unfinished = 0
  interims : ∀ x ∈ s.client.interims, x.unfinished = 0

/-- A request that comes back has left nothing unfinished. -/
theorem Unbroken.perform (h : Unbroken s) (passes : List Pass)
    (hs : s.Books cfg.budget) (fuel : Nat) (q : Request) :
    (∀ x ∈ (q.perform (accounting cfg passes) fuel s).2.client.interims,
      x.unfinished = 0) ∧
    (returned (q.perform (accounting cfg passes) fuel s).1 = true →
      Unbroken (q.perform (accounting cfg passes) fuel s).2) := by
  have hanswer := answers_perform cfg passes fuel q hs
  have hcalls : ∀ m s, Session.Sound s → Meets (fun _ s' => s'.Sound) (fun _ =>
      True) ((accounting cfg passes).optimize fuel (some m) s) := fun m s hs =>
    ((frame_accounting cfg passes).calls fuel m s hs).mono
      (fun _ _ h => h.1) fun _ h => h
  have hsizes : ∀ (s : Session Account) x y, s.Sound →
      (s.count fun t => { t with before := x, after := y }).Sound :=
    fun _ _ _ h =>
    ⟨h.linked, h.unshared⟩
  have hsound :=
    (perform_keeps hsizes (fun _ _ => trivial) fuel hcalls h.sound q).2
  have hfinished : returned (q.perform (accounting cfg passes) fuel s).1 =
      true → (q.perform (accounting cfg passes) fuel s).2.client.unfinished =
      s.client.unfinished := by
    cases q with
    | run ms => exact hanswer.finished (Law.meets_run hsizes hcalls ms h.sound)
    | optimize m =>
        cases m with
        | some m => exact hanswer.finished (hcalls m s h.sound)
        | none => cases fuel <;> exact fun _ => rfl
  have hinterims :
      ∀ x ∈ (q.perform (accounting cfg passes) fuel s).2.client.interims,
      x.unfinished = 0 := by
    intro x hx
    rcases hanswer.closes.interims x hx with hx | hx
    · exact h.interims x hx
    · exact hx.trans h.finished
  exact ⟨hinterims,
    fun hr => ⟨hsound hr, (hfinished hr).trans h.finished, hinterims⟩⟩

/-- The books of a session that has been reached by requests. -/
theorem Served.books (hs : Served (accounting cfg passes) start s)
    (hstart : start.Books cfg.budget) :
    s.Books cfg.budget ∧ s.program.methods = start.program.methods ∧
      (Unbroken start → Unbroken s) := by
  induction hs with
  | start => exact ⟨hstart, rfl, id⟩
  | request fuel q _ hr ih =>
      obtain ⟨hbooks, hmethods, hunbroken⟩ := ih
      have hcloses := (answers_perform cfg passes fuel q hbooks).closes
      exact ⟨hcloses.books, hcloses.methods.trans hmethods, fun h =>
        ((hunbroken h).perform passes hbooks fuel q).2 hr⟩

/-- Where methods share no bodies, the budget suffices for the bodies. -/
theorem affords_body {p : Program} {budget : Int} {inlinings : List InlinedCall}
    (hshare : p.Unshared) (haffords : Account.Affords budget inlinings)
    (howned : ∀ e ∈ inlinings, (p.method e.method).body = some e.body)
    (hpos : 0 < budget) (b : BodyId) :
    (inlinings.countP fun e => e.body = b : Nat) ≤ budget := by
  by_cases hsome : ∃ e ∈ inlinings, e.body = b
  · obtain ⟨e, he, rfl⟩ := hsome
    have hle : (inlinings.countP fun x => x.body = e.body) ≤
        inlinings.countP fun x => x.method = e.method := by
      apply List.countP_mono_left
      intro x hx hbody
      have hbody : x.body = e.body := by simpa using hbody
      have hmethod :=
        hshare e.method x.method e.body (howned e he) (hbody ▸ howned x hx)
      simpa using hmethod
    have hbudget := haffords hpos e.method
    omega
  · have hzero : (inlinings.countP fun e => e.body = b) = 0 := by
      simpa using hsome
    rw [hzero]
    exact hpos.le

/-- **The budget is kept and the counts agree.**  An optimiser with any passes,
any policy and any budget starts afresh on any program, and has served any
requests.  Whatever it is asked next, and whether or not that comes to an end:
whenever a pass was about to be applied and in the end, no more calls had been
inlined into a method than a positive budget allows, and the counts of inlined
calls and of changes by the inliner were the number of all calls inlined so far,
where calls that the inliner had replaced when it failed are added to the
changes.  Each call has been inlined into the body of its method.  A request
that comes back without a fault has left no call unfinished.  If the methods
share no bodies, nothing is left unfinished, so the counts agree, and the budget
is kept for each body.  An optimiser that keeps no account does the same. -/
theorem budget_kept (hstats : start.stats = {}) (hclient : start.client = {})
    (hs : Served (accounting cfg passes) start s) (fuel : Nat) (q : Request)
    (ht : q.perform (accounting cfg passes) fuel s = (r, t)) :
    (∀ x ∈ t.interim :: t.client.interims, x.Tallies cfg.budget) ∧
    (∀ e ∈ t.client.inlinings, (start.program.method e.method).body =
      some e.body) ∧ (r = .ok () → t.client.unfinished = s.client.unfinished) ∧
    (start.program.WellLinked → start.program.Unshared →
      (∀ x ∈ t.client.interims, x.unfinished = 0) ∧
      (returned r = true → t.client.unfinished = 0) ∧ (0 < cfg.budget → ∀ b,
        (t.client.inlinings.countP fun e => e.body = b : Nat) ≤ cfg.budget)) ∧
    ∀ (τ : Type) (u : Session τ), u.Alike s →
    Parallel Session.Alike (q.perform (ofPasses cfg passes) fuel u) (r, t) := by
  have hstart : start.Books cfg.budget := by
    refine ⟨⟨?_, ?_, ?_⟩, ?_, ?_, ?_⟩
    · rw [Session.interim, hstats, hclient]
      rfl
    · rw [Session.interim, hstats, hclient]
      rfl
    · rw [Session.interim, hclient]
      exact fun hpos _ => hpos.le
    · rw [hclient]
      exact fun x hx => by cases hx
    · rw [hclient]
      exact fun _ _ => rfl
    · rw [hclient]
      exact fun e he => by cases he
  obtain ⟨hbooks, hmethods, hunbroken⟩ := hs.books hstart
  have hanswer := answers_perform cfg passes fuel q hbooks
  have hparallel : ∀ (τ : Type) (u : Session τ), u.Alike s → Parallel
      Session.Alike (q.perform (ofPasses cfg passes) fuel u) (r, t) := by
    intro τ u hu
    rw [← ht]
    exact alike_perform (accounting_alike cfg passes) fuel q hu
  have hbroken := fun h => (hunbroken h).perform passes hbooks fuel q
  rw [ht] at hanswer hbroken
  have hcloses := hanswer.closes
  have howned : ∀ e ∈ t.client.inlinings, (start.program.method e.method).body =
      some e.body := by
    intro e he
    have h := hcloses.books.owned e he
    rwa [Program.method, hcloses.methods, hmethods] at h
  refine ⟨List.forall_mem_cons.mpr ⟨hcloses.books.now, hcloses.books.before⟩,
    howned, ?_, ?_, hparallel⟩
  · rintro rfl
    exact Session.Returns.finished hanswer
  · intro hp hshare
    have hfresh : Unbroken start := ⟨⟨hp, hshare⟩, by rw [hclient], by
      rw [hclient]
      exact fun x hx => by cases hx⟩
    obtain ⟨hinterims, hend⟩ := hbroken hfresh
    exact ⟨hinterims, fun hr => (hend hr).finished,
      affords_body hshare hcloses.books.now.affords howned⟩

end Requests

/-- A method that calls another one twice, which does the same with a third
one. -/
def twiceRelayed : Program where
  instrs := #[⟨.call, .method ⟨"", "relay", [], "void"⟩, some ⟨0⟩⟩,
    ⟨.call, .method ⟨"", "relay", [], "void"⟩, some ⟨0⟩⟩,
    ⟨⟨0x70⟩, .absent, some ⟨0⟩⟩,
    ⟨.call, .method ⟨"", "leaf", [], "void"⟩, some ⟨1⟩⟩,
    ⟨.call, .method ⟨"", "leaf", [], "void"⟩, some ⟨1⟩⟩,
    ⟨⟨0x70⟩, .absent, some ⟨1⟩⟩, ⟨⟨0x21⟩, .absent, some ⟨2⟩⟩,
    ⟨.pop, .absent, some ⟨2⟩⟩, ⟨⟨0x70⟩, .absent, some ⟨2⟩⟩]
  bodies := #[{ code := [⟨0⟩, ⟨1⟩, ⟨2⟩] }, { code := [⟨3⟩, ⟨4⟩, ⟨5⟩] },
    { code := [⟨6⟩, ⟨7⟩, ⟨8⟩] }]
  methods := #[{ name := "main", body := some ⟨0⟩ },
    { name := "relay", body := some ⟨1⟩ }, { name := "leaf", body := some ⟨2⟩ }]

/-- One call may be inlined into each method. -/
def inlineOnce : InlineSettings where
  resolution := some (.ofMethods twiceRelayed [⟨0⟩, ⟨1⟩, ⟨2⟩])
  policy := .always
  budget := 1

/-- One call is inlined into `relay` while the inliner is at work on `main`, and
then one into `main`, which leaves a copied call alone and the second one of its
own. -/
theorem budget_kept_twiceRelayed :
    ({ program := twiceRelayed, client := {} } : Session Account).stats = {} ∧
    twiceRelayed.WellLinked ∧ twiceRelayed.Unshared ∧ ∃ t,
    (Request.optimize (some ⟨0⟩)).perform (accounting inlineOnce Pass.standard)
    60 { program := twiceRelayed, client := {} } = (.ok (), t) ∧
    t.client.inlinings = [⟨⟨0⟩, ⟨0⟩⟩, ⟨⟨1⟩, ⟨1⟩⟩] ∧ 0 < t.stats.refused ∧
    t.interim.Tallies 1 ∧ t.client.unfinished = 0 := by
  have hp : twiceRelayed.WellLinked := by decide
  have hshare : twiceRelayed.Unshared := by decide
  have hstart : Served (accounting inlineOnce Pass.standard)
      { program := twiceRelayed,
        client := {} } { program := twiceRelayed, client := {} } := .start
  -- the request is evaluated once for all that is read off from its end
  obtain ⟨hok, hinlinings, hrefused⟩ :
      let after := (Request.optimize (some ⟨0⟩)).perform
        (accounting inlineOnce Pass.standard) 60
        { program := twiceRelayed, client := {} }
      after.1 = .ok () ∧ after.2.client.inlinings = [⟨⟨0⟩, ⟨0⟩⟩, ⟨⟨1⟩, ⟨1⟩⟩] ∧
        0 < after.2.stats.refused := by decide +kernel
  rcases hrun : (Request.optimize (some ⟨0⟩)).perform
    (accounting inlineOnce Pass.standard) 60
    { program := twiceRelayed, client := {} } with ⟨r, t⟩
  rw [hrun] at hok hinlinings hrefused
  obtain rfl : r = .ok () := hok
  obtain ⟨htallies, -, -, hunshared, -⟩ :=
    budget_kept rfl rfl hstart 60 (.optimize (some ⟨0⟩)) hrun
  exact ⟨rfl, hp, hshare, t, rfl, hinlinings, hrefused,
    htallies _ List.mem_cons_self, (hunshared hp hshare).2.1 rfl⟩

/-- Two methods with one body, which calls a third one twice. -/
def twoInOne : Program where
  instrs := #[⟨.call, .method ⟨"", "leaf", [], "void"⟩, some ⟨0⟩⟩,
    ⟨.call, .method ⟨"", "leaf", [], "void"⟩, some ⟨0⟩⟩,
    ⟨⟨0x70⟩, .absent, some ⟨0⟩⟩, ⟨⟨0x21⟩, .absent, some ⟨1⟩⟩,
    ⟨.pop, .absent, some ⟨1⟩⟩, ⟨⟨0x70⟩, .absent, some ⟨1⟩⟩]
  bodies := #[{ code := [⟨0⟩, ⟨1⟩, ⟨2⟩] }, { code := [⟨3⟩, ⟨4⟩, ⟨5⟩] }]
  methods := #[{ name := "first", body := some ⟨0⟩ },
    { name := "second", body := some ⟨0⟩ },
    { name := "leaf", body := some ⟨1⟩ }]

/-- Two methods with one body, which calls a third one that calls the second
one, and the second one itself. -/
def roundInOne : Program where
  instrs := #[⟨.call, .method ⟨"", "back", [], "void"⟩, some ⟨0⟩⟩,
    ⟨.nop, .absent, some ⟨0⟩⟩,
    ⟨.call, .method ⟨"", "second", [], "void"⟩, some ⟨0⟩⟩,
    ⟨⟨0x70⟩, .absent, some ⟨0⟩⟩,
    ⟨.call, .method ⟨"", "second", [], "void"⟩, some ⟨1⟩⟩,
    ⟨⟨0x70⟩, .absent, some ⟨1⟩⟩]
  bodies := #[{ code := [⟨0⟩, ⟨1⟩, ⟨2⟩, ⟨3⟩] }, { code := [⟨4⟩, ⟨5⟩] }]
  methods := #[{ name := "first", body := some ⟨0⟩ },
    { name := "second", body := some ⟨0⟩ },
    { name := "back", body := some ⟨1⟩ }]

/-- Every call in a program of three methods may be taken in, within a
budget. -/
def inlineThree (p : Program) (budget : Int) : InlineSettings where
  resolution := some (.ofMethods p [⟨0⟩, ⟨1⟩, ⟨2⟩])
  policy := .always
  budget := budget

/-- **Shared bodies are charged twice, and counts part ways.**  A body that two
methods share takes in a call in the visit of either one, though one call is
allowed for.  And a nested visit to the second method deletes the nop behind the
call that is taken in for the first one, so that the inliner fails when it has
counted the call, and is not counted itself. -/
theorem budget_broken_sharing :
    (twoInOne.WellLinked ∧
      let after := (Request.run [⟨0⟩, ⟨1⟩]).perform
        (accounting (inlineThree twoInOne 1) Pass.standard) 60
        { program := twoInOne, client := {} }
      after.1 = .ok () ∧
        (after.2.client.inlinings.countP fun e => e.body = ⟨0⟩) = 2) ∧
    (roundInOne.WellLinked ∧
      let after := (Request.run [⟨0⟩]).perform
        (accounting (inlineThree roundInOne 0) Pass.standard) 60
        { program := roundInOne, client := {} }
      after.1 ≠ .ok () ∧ after.2.stats.inlined = 1 ∧
        after.2.stats.changesBy .inlineFunctionCall = 0) := by
  have htwo : twoInOne.WellLinked := by decide
  have hround : roundInOne.WellLinked := by decide
  refine ⟨⟨htwo, ?_⟩, ⟨hround, ?_⟩⟩
  · decide +kernel
  · decide +kernel

end Optimizer

end Bytecode
