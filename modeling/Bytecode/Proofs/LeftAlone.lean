import Bytecode.Proofs.Clients
import Bytecode.Proofs.Driver
import Bytecode.Proofs.Visiting

/-!
# What a call leaves alone

An optimiser enters itself again: in the middle of a visit the inliner has the
callee visited, which has its own callees visited, and so on around every cycle
of calls. `Session.Advances` says what each call that comes back has done to all
this: it has moved methods on from stage to stage, it has taken the methods
whose bodies it changed from not visited to done, and it has left every other
method exactly as it was.

The key fact is about the marks of a session, which are its whole history.
Between the mark that opens a visit and the one that closes it only other
methods are marked, and each of them is opened and closed.  `Brackets` says so,
and visits can be nested in it and put one behind the other.

To speak about every call inside a run, the passes are made to record the calls
they ask for, with the sessions before and after.  The main statement is
`leaves_alone`.
-/

namespace Bytecode

/-! ### Marks -/

/-- The stages that marks put a method through, the oldest first. -/
def stagesIn (marks : List (MethodId × Progress)) (m : MethodId) :
    List Progress :=
  ((marks.filter fun x => x.1 = m).map Prod.snd).reverse

section Marks

variable {before middle after : List (MethodId × Progress)} {m : MethodId}

/-- The stages in a list with more at its head. -/
theorem stagesIn_append (added before : List (MethodId × Progress))
    (m : MethodId) :
    stagesIn (added ++ before) m = stagesIn before m ++ stagesIn added m := by
  simp [stagesIn]

/-- The stages in a list with one mark more. -/
theorem stagesIn_cons (k : MethodId) (x : Progress)
    (before : List (MethodId × Progress)) (m : MethodId) :
    stagesIn ((k, x) :: before) m = stagesIn before m ++
    if k = m then [x] else [] := by
  by_cases h : k = m
  · simp [stagesIn, h]
  · simp [stagesIn, h]

/-- How far a method has come is told by its latest mark. -/
theorem Session.progressOf_eq {σ : Type} (s : Session σ) (m : MethodId) :
    s.progressOf m = (stagesIn s.progress m).getLast?.getD .notVisited := by
  have hlookup : ∀ marks : List (MethodId × Progress),
      marks.lookup m = (stagesIn marks m).getLast? := by
    intro marks
    induction marks with
    | nil => rfl
    | cons x rest ih =>
        obtain ⟨k, x⟩ := x
        rw [stagesIn_cons, List.lookup_cons]
        by_cases h : k = m
        · simp [h]
        · have hbeq : (m == k) = false := by simpa using Ne.symm h
          simp [h, hbeq, ih]
  rw [progressOf, hlookup]

/-- Methods go from not visited to in progress and on to done. -/
def InStages (marks : List (MethodId × Progress)) : Prop :=
  ∀ m, stagesIn marks m <+: [.inProgress, .done]

/-- A method has not been begun, is in progress or is done. -/
theorem InStages.cases (h : InStages before) (m : MethodId) :
    stagesIn before m = [] ∨ stagesIn before m = [.inProgress] ∨
      stagesIn before m = [.inProgress, .done] := by
  have hstages := h m
  rw [List.prefix_cons_iff] at hstages
  rcases hstages with hnil | ⟨rest, hcons, hrest⟩
  · exact Or.inl hnil
  · rw [List.prefix_cons_iff] at hrest
    rcases hrest with rfl | ⟨rest', rfl, hrest'⟩
    · exact Or.inr (Or.inl hcons)
    · rw [List.prefix_nil] at hrest'
      rw [hrest'] at hcons
      exact Or.inr (Or.inr hcons)

/-- A method that has not been visited has no mark. -/
theorem InStages.eq_nil {σ : Type} {s : Session σ} (h : InStages s.progress)
    (hm : s.progressOf m = .notVisited) : stagesIn s.progress m = [] := by
  rw [Session.progressOf_eq] at hm
  rcases h.cases m with hnil | hone | htwo
  · exact hnil
  · rw [hone] at hm
    cases hm
  · rw [htwo] at hm
    cases hm

/-- Marks have been added, and each method has got none, or has been opened and
closed. -/
def Brackets (before after : List (MethodId × Progress)) : Prop :=
  ∃ added, after = added ++ before ∧ ∀ m, stagesIn added m = [] ∨
    stagesIn before m = [] ∧ stagesIn added m = [.inProgress, .done]

theorem Brackets.refl (marks : List (MethodId × Progress)) :
    Brackets marks marks :=
  ⟨[], rfl, fun _ => Or.inl rfl⟩

/-- One behind the other. -/
theorem Brackets.trans (h : Brackets before middle)
    (h' : Brackets middle after) : Brackets before after := by
  obtain ⟨added, rfl, hadded⟩ := h
  obtain ⟨added', rfl, hadded'⟩ := h'
  refine ⟨added' ++ added, (List.append_assoc _ _ _).symm, fun m => ?_⟩
  have hstages := hadded' m
  rw [stagesIn_append] at hstages ⊢
  rcases hadded m with hnone | ⟨hfresh, hboth⟩
  · rw [hnone, List.append_nil] at hstages
    rw [hnone, List.nil_append]
    exact hstages
  · rw [hfresh, hboth] at hstages
    refine Or.inr ⟨hfresh, ?_⟩
    rw [hboth, hstages.resolve_right fun hno => by simp at hno, List.append_nil]

/-- One inside the other: a method is opened, others are visited, and it is
closed. -/
theorem Brackets.visit (hm : stagesIn before m = [])
    (h : Brackets ((m, .inProgress) :: before) after) :
    Brackets before ((m, .done) :: after) := by
  obtain ⟨added, rfl, hadded⟩ := h
  refine ⟨(m, .done) :: (added ++ [(m, .inProgress)]), by simp, fun k => ?_⟩
  have hstages := hadded k
  rw [stagesIn_cons] at hstages
  rw [stagesIn_cons, stagesIn_append, stagesIn_cons]
  by_cases hk : m = k
  · subst hk
    have hnone := hstages.resolve_right fun hno => by simp at hno
    refine Or.inr ⟨hm, ?_⟩
    rw [hnone, if_pos rfl, if_pos rfl]
    rfl
  · simpa [hk, stagesIn] using hstages

/-- Brackets keep marks in stages. -/
theorem Brackets.inStages (h : Brackets before after)
    (hbefore : InStages before) : InStages after := by
  obtain ⟨added, rfl, hadded⟩ := h
  intro m
  rw [stagesIn_append]
  rcases hadded m with hnone | ⟨hfresh, hboth⟩
  · rw [hnone, List.append_nil]
    exact hbefore m
  · rw [hfresh, hboth]
    exact List.prefix_rfl

/-- A method that has not been begun can be. -/
theorem InStages.start (h : InStages before) (hm : stagesIn before m = []) :
    InStages ((m, .inProgress) :: before) := by
  intro k
  rw [stagesIn_cons]
  by_cases hk : m = k
  · subst hk
    rw [hm, if_pos rfl]
    exact ⟨[.done], rfl⟩
  · rw [if_neg hk, List.append_nil]
    exact h k

end Marks

/-! ### What a call does -/

/-- The method has the same record, and its body the same instructions, slots
and bounds. -/
def Program.SameMethod (m : MethodId) (p q : Program) : Prop :=
  q.method m = p.method m ∧ ∀ b, (p.method m).body = some b → AgreeOn b p q

/-- What a call that comes back has done. -/
structure Session.Advances {σ τ : Type} (s : Session σ) (t : Session τ) :
    Prop where
  /-- Methods have been moved on, from not visited to in progress to done. -/
  stages : ∀ m, stagesIn s.progress m <+: stagesIn t.progress m ∧
    stagesIn t.progress m <+: [.inProgress, .done]
  /-- Methods in progress and methods that were done are as they were. -/
  kept : ∀ m, s.progressOf m ≠ .notVisited →
    t.progressOf m = s.progressOf m ∧ Program.SameMethod m s.program t.program
  /-- What has been changed had not been visited, and is done. -/
  changed : ∀ m, ¬ Program.SameMethod m s.program t.program →
    s.progressOf m = .notVisited ∧ t.progressOf m = .done
  /-- No visit that the call has begun is going on. -/
  settled : (∀ m, s.progressOf m ≠ .inProgress) →
    ∀ m, t.progressOf m ≠ .inProgress

namespace Session

variable {σ : Type} {s t : Session σ}

/-- The session without its client. -/
def bare (s : Session σ) : Session Unit :=
  ⟨s.program, s.progress, s.memo, s.stats, ()⟩

/-- The client has no part in an advance. -/
theorem Advances.bare (h : s.Advances t) : s.bare.Advances t.bare :=
  ⟨h.stages, h.kept, h.changed, h.settled⟩

/-- A method is where it was, or is done. -/
theorem progressOf_of_brackets (h : Brackets s.progress t.progress)
    (m : MethodId) :
    t.progressOf m = s.progressOf m ∨ t.progressOf m = .done := by
  obtain ⟨added, heq, hadded⟩ := h
  rw [progressOf_eq, progressOf_eq, heq, stagesIn_append]
  rcases hadded m with hnone | ⟨hfresh, hboth⟩
  · rw [hnone, List.append_nil]
    exact Or.inl rfl
  · rw [hfresh, hboth]
    exact Or.inr rfl

/-- The bodies of visited methods are left alone, and the marks are brackets. -/
theorem advances (hshare : s.program.Unshared) (hstages : InStages s.progress)
    (hext : s.Extends t) (hmarks : Brackets s.progress t.progress) :
    s.Advances t := by
  have hkept : ∀ m, (s.progressOf m = .notVisited → t.progressOf m =
      .notVisited) → Program.SameMethod m s.program t.program := by
    intro m hm
    refine ⟨hext.method m, fun b hb => hext.agree b fun k hk hfresh => ?_⟩
    rw [hshare m k b hb hk] at hfresh ⊢
    exact hm hfresh
  refine ⟨fun m => ⟨?_, hmarks.inStages hstages m⟩,
    fun m hm => ⟨hext.progress m hm, ?_⟩, fun m hno => ?_, fun hs m hm => ?_⟩
  · obtain ⟨added, heq, -⟩ := hmarks
    rw [heq, stagesIn_append]
    exact List.prefix_append _ _
  · exact hkept m fun hno => absurd hno hm
  · have hfresh : s.progressOf m = .notVisited := by
      by_contra hm
      exact hno (hkept m fun h => absurd h hm)
    refine ⟨hfresh,
      (progressOf_of_brackets hmarks m).resolve_left fun hsame => ?_⟩
    exact hno (hkept m fun _ => hsame.trans hfresh)
  · rcases progressOf_of_brackets hmarks m with hsame | hdone
    · exact hs m (hsame.symm.trans hm)
    · rw [hdone] at hm
      cases hm

end Session

/-! ### Calls on record -/

/-- A call that has come back, with the sessions before and after it. -/
structure Call where
  method : Option MethodId
  before : Session Unit
  after : Session Unit

/-- Calls that are put on record when they come back. -/
def logged (optimize : Option MethodId → SessionM (List Call) Unit) :
    Option MethodId → SessionM (List Call) Unit := fun m s =>
  match optimize m s with
  | (.error e, t) => (.error e, t)
  | (.ok a, t) => (.ok a, { t with client := ⟨m, s.bare, t.bare⟩ :: t.client })

/-- The rule, made to record the calls it asks for. -/
def Rule.logging (r : Rule (List Call)) : Rule (List Call) where
  name := r.name
  apply optimize := r.apply (logged optimize)

namespace Optimizer

/-- The optimiser that records the calls its passes ask for. -/
def logging (cfg : InlineSettings) (passes : List Pass) :
    Optimizer (List Call) :=
  { rules := passes.map fun pass => (pass.rule cfg).logging }

/-- Each call on record has left alone what it should. -/
def OnRecord (calls : List Call) : Prop :=
  ∀ c ∈ calls, c.before.Advances c.after

/-- The visit of `m`, begun in session `s`, has put marks and calls like these
on record. -/
structure Bracketed (s : Session (List Call)) (m : MethodId)
    (marks : List (MethodId × Progress)) (calls : List Call) : Prop where
  stages : InStages s.progress
  fresh : stagesIn s.progress m = []
  marks : Brackets ((m, .inProgress) :: s.progress) marks
  record : OnRecord calls

/-- The law of visits, with the marks that calls leave and the calls on
record. -/
def bracketing : Law (List Call) where
  ready s := s.Sound ∧ InStages s.progress ∧ OnRecord s.client
  returns s t :=
    frame.returns s t ∧ Brackets s.progress t.progress ∧ OnRecord t.client
  broken s := OnRecord s.client
  during s m p v :=
    frame.during s m p v ∧ Bracketed s m v.session.progress v.session.client

section Step

variable {s : Session (List Call)} {m : MethodId} {v : Visit (List Call)}
  {i : InstrId} {cfg : InlineSettings}
  {optimize : Option MethodId → SessionM (List Call) Unit}

/-- Recording is out of sight of the frame. -/
theorem frame_logged (hcalls : frame.Calls optimize) :
    frame.Calls (logged optimize) := by
  intro m s hs
  have hmeets := hcalls m s hs
  rw [logged]
  generalize optimize (some m) s = x at hmeets
  obtain ⟨e | ⟨⟩, t⟩ := x
  · exact hmeets
  · exact ⟨⟨hmeets.1.linked, hmeets.1.unshared⟩,
      hmeets.2.trans (Session.extends_of_eq rfl rfl)⟩

/-- A call that keeps the law may go on record. -/
theorem bracketing_logged (hcalls : bracketing.Calls optimize) :
    bracketing.Calls (logged optimize) := by
  intro m s hs
  have hmeets := hcalls m s hs
  rw [logged]
  generalize optimize (some m) s = x at hmeets
  obtain ⟨e | ⟨⟩, t⟩ := x
  · exact hmeets
  · obtain ⟨⟨ht, hext⟩, hmarks, hrecord⟩ := hmeets
    have hadvances := Session.advances hs.1.unshared hs.2.1 hext hmarks
    exact ⟨⟨⟨ht.linked, ht.unshared⟩,
      hext.trans (Session.extends_of_eq rfl rfl)⟩, hmarks,
      List.forall_mem_cons.mpr ⟨hadvances.bare, hrecord⟩⟩

/-- The visit of a callee puts its marks between those of the caller. -/
theorem Bracketed.nested (h : Bracketed s m v.session.progress v.session.client)
    (hv : v.session.Sound) (hcalls : bracketing.Calls optimize) (c : MethodId) :
    Meets (fun _ t => Bracketed s m t.progress t.client) (fun t => OnRecord
      t.client) (optimize (some c) (Inline.consulted cfg c v.session)) := by
  have hready : bracketing.ready (Inline.consulted cfg c v.session) :=
    ⟨⟨hv.linked, hv.unshared⟩, h.marks.inStages (h.stages.start h.fresh),
      h.record⟩
  exact (hcalls c _ hready).mono (fun _ _ ht =>
    ⟨h.stages, h.fresh, h.marks.trans ht.2.1, ht.2.2⟩) (fun _ ht => ht)

/-- A pass keeps what is bracketed. -/
theorem bracketing_applies {changed : Bool} {name : String}
    {rest : List (Rule (List Call))} {r : Except Fault Unit × Visit (List Call)}
    (hframe : frame.Applies s m changed name rest r) (hnotes : Meets
      (fun _ v => Bracketed s m v.session.progress v.session.client)
      (fun v => OnRecord v.session.client) r) :
    bracketing.Applies s m changed name rest r := by
  refine (Meets.and hframe hnotes).mono (fun _ v hv => ?_) (fun _ hv => hv.2)
  split
  · next hdirty =>
      rw [if_pos hdirty] at hv
      exact hv
  · next hdirty =>
      rw [if_neg hdirty] at hv
      exact hv

end Step

/-- An optimizer that logs obeys the frame. -/
theorem frame_logging (cfg : InlineSettings) (passes : List Pass) :
    frame.Obeyed (logging cfg passes) := by
  refine frame_obeyed_of
    (fun _ _ => rfl) fun {r s m v i changed rest fuel} hr hcalls h hi => ?_
  obtain ⟨pass, -, rfl⟩ := List.mem_map.mp hr
  exact frame_passStep (frame_logged hcalls) h hi
    (Pass.rule_step cfg _ h.sound hi.1 hi.2 pass) pass.name

/-- An optimizer that logs obeys the law of brackets. -/
theorem bracketing_obeyed (cfg : InlineSettings) (passes : List Pass) :
    bracketing.Obeyed (logging cfg passes) := by
  have hframe := frame_logging cfg passes
  exact {
    unwatched := fun _ _ => rfl
    idle := fun hs => ⟨hframe.idle hs.1, .refl _, hs.2.2⟩
    skip := fun hs hm hbody => ⟨hframe.skip hs.1 hm hbody,
      (Brackets.refl _).visit (hs.2.1.eq_nil hm), hs.2.2⟩
    start := fun hs hm hbody hsize => ⟨hframe.start hs.1 hm hbody hsize,
      hs.2.1, hs.2.1.eq_nil hm, .refl _, hs.2.2⟩
    advance := fun hv hmore => ⟨hframe.advance hv.1 hmore, hv.2⟩
    apply := by
      rintro s m changed r rest v fuel hcalls hr ⟨⟨h, i, hi⟩, hmarks⟩
      have happly : frame.Applies s m changed r.name rest
          (r.apply ((logging cfg passes).optimize fuel) v) :=
        hframe.apply (hframe.calls fuel) hr ⟨h, i, hi⟩
      obtain ⟨pass, -, rfl⟩ := List.mem_map.mp hr
      have hstep := Pass.rule_step cfg
        (logged ((logging cfg passes).optimize fuel)) h.sound hi.1 hi.2 pass
      exact bracketing_applies happly (notes_passStep (Bracketed s m) OnRecord
        (frame_logged (hframe.calls fuel))
        (hmarks.nested h.session (bracketing_logged hcalls)) h hi hmarks
        (fun _ _ hnotes => hnotes.record) hstep)
    decline := fun hv => ⟨hframe.decline hv.1, hv.2⟩
    restart := fun hv hmore => ⟨hframe.restart hv.1 hmore, hv.2⟩
    finish := fun hv hmore =>
      ⟨hframe.finish hv.1 hmore, hv.2.marks.visit hv.2.fresh, hv.2.record⟩
    cut := fun hv => hv.2.record
    refuse := fun hs => hs.2.2 }

/-! ### Requests -/

section Requests

variable {cfg : InlineSettings} {passes : List Pass}
  {s start : Session (List Call)}

/-- The rules that log do what the others do. -/
theorem logging_alike {τ : Type} (cfg : InlineSettings) (passes : List Pass) :
    List.Forall₂ Rule.Alike (ofPasses cfg passes : Optimizer τ).rules
      (logging cfg passes).rules := by
  refine alike_ofPasses (fun pass => ?_) passes
  refine ⟨rfl, fun f g hfg v w hvw => (Pass.rule_alike cfg pass).apply f
    (logged g) ?_ v w hvw⟩
  intro m s t hst
  rw [logged]
  rcases (hfg m s t hst).cases with ⟨e, s', t', hx, hy, hst'⟩
    | ⟨a, s', t', hx, hy, hst'⟩
  · rw [hx, hy]
    exact ⟨rfl, hst'⟩
  · rw [hx, hy]
    exact ⟨rfl, hst'.program, hst'.progress, hst'.memo, hst'.stats⟩

/-- Recording calls changes nothing in what a request does. -/
theorem logging_parallel {τ : Type} (fuel : Nat) (q : Request) {t : Session τ}
    (h : t.Alike s) :
    Parallel Session.Alike (q.perform (ofPasses cfg passes) fuel t)
      (q.perform (logging cfg passes) fuel s) :=
  alike_perform (logging_alike cfg passes) fuel q h

/-- What requests have done since session `s`. -/
structure Since (s t : Session (List Call)) : Prop where
  ready : bracketing.ready t
  extend : s.Extends t
  marks : Brackets s.progress t.progress

theorem Since.refl (h : bracketing.ready s) : Since s s := ⟨h, .refl s, .refl _⟩

/-- Counting is no advance. -/
theorem Since.counted {t : Session (List Call)} (h : Since s t)
    (f : Stats → Stats) : Since s (t.count f) :=
  ⟨⟨⟨h.ready.1.linked, h.ready.1.unshared⟩, h.ready.2⟩,
    h.extend.trans (Session.extends_of_eq rfl rfl), h.marks⟩

/-- A request is an advance. -/
theorem Since.call {t : Session (List Call)} (h : Since s t) (fuel : Nat)
    (m : MethodId) :
    Meets (fun _ t' => Since s t') (fun t' => OnRecord t'.client)
    ((logging cfg passes).optimize fuel (some m) t) :=
  ((bracketing_obeyed cfg passes).calls fuel m t h.ready).mono
    (fun _ _ ht => ⟨⟨ht.1.1, ht.2.1.inStages h.ready.2.1, ht.2.2⟩,
      h.extend.trans ht.1.2, h.marks.trans ht.2.1⟩) (fun _ ht => ht)

/-- What has been since is an advance. -/
theorem Since.advances {t : Session (List Call)} (h : Since s t)
    (hs : bracketing.ready s) : s.Advances t :=
  Session.advances hs.1.unshared hs.2.1 h.extend h.marks

/-- **Finished and unfinished methods are left alone.**  An optimiser with any
passes in any order, any policy and any budget starts afresh on a program whose
methods share no bodies, and has served any requests.  What it is asked next, if
it comes back, moves methods on from stage to stage, leaves methods in progress
and methods that are done exactly as they were, takes each method that it
changes from not visited to done, and leaves no visit unfinished that it has
begun.  The same holds of every call that a pass asks for on the way, however
deep and whether or not the request comes back.  An optimiser that does not
record calls does the same. -/
theorem leaves_alone (hp : start.program.WellLinked)
    (hshare : start.program.Unshared) (hprogress : start.progress = [])
    (hclient : start.client = []) (hs : Served (logging cfg passes) start s)
    (fuel : Nat) (q : Request) :
    ((q.perform (logging cfg passes) fuel s).1 = .ok () →
      s.Advances (q.perform (logging cfg passes) fuel s).2) ∧
    (∀ c ∈ (q.perform (logging cfg passes) fuel s).2.client,
      c.before.Advances c.after) ∧ ∀ (τ : Type) (t : Session τ), t.Alike s →
    Parallel Session.Alike (q.perform (ofPasses cfg passes) fuel t)
    (q.perform (logging cfg passes) fuel s) := by
  have hstart : bracketing.ready start := by
    refine ⟨⟨hp, hshare⟩, ?_, ?_⟩
    · rw [hprogress]
      exact fun m => List.nil_prefix
    · rw [hclient]
      exact fun c hc => (by cases hc)
  have hleft : ∀ (s t : Session (List Call)), Since s t → OnRecord t.client :=
    fun _ _ h => h.ready.2.2
  have hready := (hs.kept (fun _ f h => h.counted f) (hleft start)
    (fun fuel m _ h => h.call fuel m) (.refl hstart)).ready
  obtain ⟨hrecord, hsince⟩ := perform_kept (fun _ f h => h.counted f)
    (hleft s) fuel (fun m _ h => h.call fuel m) (.refl hready) q
  exact ⟨fun hok => (hsince (by rw [hok]; rfl)).advances hready, hrecord,
    fun τ t ht => logging_parallel fuel q ht⟩

end Requests

/-- A method that calls a second one, which calls a third one and the first. -/
def ring : Program where
  instrs := #[⟨.call, .method ⟨"", "second", [], "void"⟩, some ⟨0⟩⟩,
    ⟨⟨0x70⟩, .absent, some ⟨0⟩⟩,
    ⟨.call, .method ⟨"", "third", [], "void"⟩, some ⟨1⟩⟩,
    ⟨.call, .method ⟨"", "first", [], "void"⟩, some ⟨1⟩⟩,
    ⟨⟨0x70⟩, .absent, some ⟨1⟩⟩,
    ⟨.nop, .absent, some ⟨2⟩⟩, ⟨⟨0x70⟩, .absent, some ⟨2⟩⟩]
  bodies := #[{ code := [⟨0⟩, ⟨1⟩] }, { code := [⟨2⟩, ⟨3⟩, ⟨4⟩] },
    { code := [⟨5⟩, ⟨6⟩] }]
  methods := #[{ name := "first", body := some ⟨0⟩ },
    { name := "second", body := some ⟨1⟩ },
    { name := "third", body := some ⟨2⟩ }]

/-- Every call of one of the three methods may be inlined. -/
def inlineRing : InlineSettings where
  resolution := some (.ofMethods ring [⟨0⟩, ⟨1⟩, ⟨2⟩])
  policy := .always

/-- The visit of the first method has the second one visited and that one the
third; the call of the first one, which is in progress, comes back at once, and
does so twice. -/
theorem leaves_alone_ring : ring.WellLinked ∧ ring.Unshared ∧
    ((Request.optimize (some ⟨0⟩)).perform (logging inlineRing Pass.standard) 40
      { program := ring, client := [] }).2.client.map (·.method) =
    [some ⟨1⟩, some ⟨0⟩, some ⟨0⟩, some ⟨2⟩] ∧ (∀ c ∈ ((Request.optimize
      (some ⟨0⟩)).perform (logging inlineRing Pass.standard) 40
      { program := ring, client := [] }).2.client, c.before.Advances c.after) ∧
    ({ program := ring, client := [] } : Session (List Call)).Advances
    ((Request.optimize (some ⟨0⟩)).perform (logging inlineRing Pass.standard) 40
      { program := ring, client := [] }).2 := by
  have hp : ring.WellLinked := by decide
  have hshare : ring.Unshared := by decide
  have hstart : Served (logging inlineRing Pass.standard)
      { program := ring, client := [] } { program := ring, client := [] } :=
    .start
  have h := leaves_alone hp hshare rfl rfl hstart 40 (.optimize (some ⟨0⟩))
  obtain ⟨hok, hcalls⟩ :
      let after := (Request.optimize (some ⟨0⟩)).perform
        (logging inlineRing Pass.standard) 40
        { program := ring, client := [] }
      after.1 = .ok () ∧
        after.2.client.map (·.method) =
          [some ⟨1⟩, some ⟨0⟩, some ⟨0⟩, some ⟨2⟩] := by
    decide +kernel
  exact ⟨hp, hshare, hcalls, h.2.1, h.1 hok⟩

end Optimizer

end Bytecode
