import Bytecode.Proofs.Offering

/-!
# Clients look on

The client of a session is room for whoever watches a run.  Watchers and rules
that keep notes write to it, and no decision of the driver or of a pass reads
it: two optimisers whose rules do the same to everything else run in step,
whatever their clients are.  A claim about all the programs that a run passes
through can therefore be made about a run that collects them.
-/

namespace Bytecode

variable {σ τ : Type}

/-- Sessions that differ in their client at most. -/
structure Session.Alike (s : Session σ) (t : Session τ) : Prop where
  program : t.program = s.program
  progress : t.progress = s.progress
  memo : t.memo = s.memo
  stats : t.stats = s.stats

/-- Visits that differ in their client at most. -/
structure Visit.Alike (v : Visit σ) (w : Visit τ) : Prop where
  session : v.session.Alike w.session
  editor : w.editor = v.editor

/-- Two computations have ended in the same way, in related states. -/
def Parallel {α S T : Type} (R : S → T → Prop) (x : Except Fault α × S)
    (y : Except Fault α × T) : Prop :=
  y.1 = x.1 ∧ R x.2 y.2

section Parallel

variable {α β S T : Type} {R : S → T → Prop}

/-- Two parallel results are both failures or both successes. -/
theorem Parallel.cases {x : Except Fault α × S} {y : Except Fault α × T}
    (h : Parallel R x y) :
    (∃ e s t, x = (.error e, s) ∧ y = (.error e, t) ∧ R s t) ∨
    ∃ a s t, x = (.ok a, s) ∧ y = (.ok a, t) ∧ R s t := by
  obtain ⟨r, s⟩ := x
  obtain ⟨r', t⟩ := y
  obtain ⟨hr, hst⟩ := h
  simp only at hr hst
  subst hr
  cases r' with
  | error e => exact Or.inl ⟨e, s, t, rfl, rfl, hst⟩
  | ok a => exact Or.inr ⟨a, s, t, rfl, rfl, hst⟩

/-- Two parallel actions go on in parallel. -/
theorem Parallel.bind {x : ExceptT Fault (StateM S) α}
    {y : ExceptT Fault (StateM T) α} {f : α → ExceptT Fault (StateM S) β}
    {g : α → ExceptT Fault (StateM T) β} {s : S} {t : T}
    (h : Parallel R (x s) (y t))
    (hfg : ∀ a s t, R s t → Parallel R (f a s) (g a t)) :
    Parallel R ((x >>= f) s) ((y >>= g) t) := by
  rw [bind_apply, bind_apply]
  rcases h.cases with ⟨e, s', t', hx, hy, hst⟩ | ⟨a, s', t', hx, hy, hst⟩
  · rw [hx, hy]
    exact ⟨rfl, hst⟩
  · rw [hx, hy]
    exact hfg a s' t' hst

end Parallel

/-- Calls that run in step. -/
def CallsAlike (f : Option MethodId → SessionM σ Unit)
    (g : Option MethodId → SessionM τ Unit) : Prop :=
  ∀ m s t, s.Alike t → Parallel Session.Alike (f m s) (g m t)

/-- Rules that differ in what they do to the client at most. -/
structure Rule.Alike (r : Rule σ) (r' : Rule τ) : Prop where
  name : r'.name = r.name
  apply : ∀ f g, CallsAlike f g → ∀ v w, v.Alike w →
    Parallel Visit.Alike (r.apply f v) (r'.apply g w)

namespace Visit.Alike

variable {v : Visit σ} {w : Visit τ}

/-- Another client makes no difference. -/
theorem client (h : v.Alike w) (c : τ) :
    v.Alike { w with session := { w.session with client := c } } :=
  ⟨⟨h.session.program, h.session.progress, h.session.memo, h.session.stats⟩,
    h.editor⟩

/-- Visits that are alike edit the same. -/
theorem editing (h : v.Alike w) : w.editing = v.editing := by
  rw [Visit.editing, Visit.editing, h.session.program, h.editor]

/-- The same editing leaves them alike. -/
theorem setEditing (h : v.Alike w) (e : Editing) :
    (v.setEditing e).Alike (w.setEditing e) :=
  ⟨⟨rfl, h.session.progress, h.session.memo, h.session.stats⟩, rfl⟩

/-- The same edit has the same outcome. -/
theorem tryEdit (h : v.Alike w) (f : Editing → Except Fault Unit × Editing) :
    Parallel Visit.Alike (Visit.tryEdit f v) (Visit.tryEdit f w) := by
  rw [Visit.tryEdit_apply, Visit.tryEdit_apply, h.editing]
  exact ⟨rfl, h.setEditing _⟩

theorem taken (h : v.Alike w) (name : String) :
    (v.taken name).Alike (w.taken name) := by
  refine ⟨⟨h.session.program, h.session.progress, h.session.memo, ?_⟩, ?_⟩
  · simp only [Visit.taken, Session.count, h.session.stats]
  · simp only [Visit.taken, h.editor]

/-- Both have more to offer, or neither has. -/
theorem more (h : v.Alike w) : w.more = v.more := by
  rw [Visit.more, Visit.more, h.editing]

theorem advanced (h : v.Alike w) : v.advanced.Alike w.advanced := by
  rw [Visit.advanced, Visit.advanced, h.editing]
  exact h.setEditing _

theorem rewound (h : v.Alike w) : v.rewound.Alike w.rewound := by
  rw [Visit.rewound, Visit.rewound, h.editing]
  exact h.setEditing _

theorem restarted (h : v.Alike w) : v.restarted.Alike w.restarted := by
  rw [Visit.restarted, Visit.restarted, h.editing]
  exact h.setEditing _

end Visit.Alike

namespace Inline

variable {cfg : InlineSettings} {v : Visit σ} {w : Visit τ}

/-- The policy is asked in both. -/
theorem alike_consulted (cfg : InlineSettings) {s : Session σ} {t : Session τ}
    (h : s.Alike t) (m : MethodId) :
    (consulted cfg m s).Alike (consulted cfg m t) :=
  ⟨h.program, h.progress, by simp only [consulted, h.memo, h.program], h.stats⟩

/-- It approves of a method in both. -/
theorem approved_alike {s : Session σ} {t : Session τ} (h : s.Alike t)
    (m : MethodId) : approved cfg m t = approved cfg m s := by
  rw [approved, approved, h.memo, h.program]

/-- The same code is taken in. -/
theorem alike_takeIn (h : v.Alike w) (call anchor : InstrId) (b : BodyId) :
    Parallel Visit.Alike (takeIn call b anchor v) (takeIn call b anchor w) := by
  apply Parallel.bind (h.tryEdit (replaceCall call))
  intro _ v' w' h'
  have hnote : Parallel Visit.Alike (note v') (note w') := by
    refine ⟨rfl, ⟨h'.session.program, h'.session.progress, h'.session.memo, ?_⟩,
      ?_⟩
    · change Stats.mk _ _ _ _ _ _ = Stats.mk _ _ _ _ _ _
      rw [h'.session.stats]
    · change Editor.mk _ _ _ _ _ _ _ _ _ = Editor.mk _ _ _ _ _ _ _ _ _
      rw [h'.editor]
  apply Parallel.bind hnote
  intro _ v'' w'' h''
  exact h''.tryEdit (copyBody b anchor)

/-- A call is inlined in both, or in neither. -/
theorem alike_apply {f : Option MethodId → SessionM σ Unit}
    {g : Option MethodId → SessionM τ Unit} (hfg : CallsAlike f g)
    (h : v.Alike w) : Parallel Visit.Alike (apply cfg f v) (apply cfg g w) := by
  cases htarget : v.editor.target with
  | none =>
      rw [apply_absent htarget, apply_absent (by rw [h.editor]; exact htarget)]
      exact ⟨rfl, h⟩
  | some call =>
      rw [apply_eq htarget, apply_eq (by rw [h.editor]; exact htarget),
        h.editing]
      cases callee? cfg v.editing call with
      | none => exact ⟨rfl, h⟩
      | some m =>
          have hasked := alike_consulted cfg h.session m
          simp only [approved_alike h.session, h.editor]
          split
          · cases v.editing.nextInstruction with
            | none => exact ⟨rfl, hasked, rfl⟩
            | some anchor =>
                simp only
                split
                · rcases (hfg (some m) _ _ hasked).cases with
                    ⟨e, s, t, hx, hy, hst⟩ | ⟨a, s, t, hx, hy, hst⟩
                  · rw [hx, hy]
                    exact ⟨rfl, hst, rfl⟩
                  · rw [hx, hy]
                    have hstage : t.progressOf m = s.progressOf m := by
                      rw [Session.progressOf, Session.progressOf, hst.progress]
                    simp only [hstage, hst.program]
                    split
                    · exact ⟨rfl, hst, rfl⟩
                    · cases (s.program.method m).body with
                      | none => exact ⟨rfl, hst, rfl⟩
                      | some b =>
                          simp only
                          split
                          · exact ⟨rfl, hst, rfl⟩
                          · exact alike_takeIn (v := ⟨s, v.editor⟩)
                              (w := ⟨t, v.editor⟩) ⟨hst, rfl⟩ call anchor b
                · refine ⟨rfl,
                    ⟨hasked.program, hasked.progress, hasked.memo, ?_⟩, rfl⟩
                  simp only [Session.count, hasked.stats]
          · exact ⟨rfl, hasked, rfl⟩

end Inline

/-- A pass does the same for every client. -/
theorem Pass.rule_alike (cfg : InlineSettings) (pass : Pass) :
    (pass.rule cfg : Rule σ).Alike (pass.rule cfg : Rule τ) where
  name := rfl
  apply := by
    intro f g hfg v w h
    cases pass with
    | inlineFunctionCall => exact Inline.alike_apply hfg h
    | _ => exact h.tryEdit _

/-- A rule that applies a pass and writes to the client before and behind it. -/
theorem Rule.Alike.of_notes {cfg : InlineSettings} {pass : Pass} {r : Rule τ}
    (hname : r.name = pass.name) (happly : ∀ g w, ∃ w₀ : Visit τ,
      (∀ {σ : Type} {v : Visit σ}, v.Alike w → v.Alike w₀) ∧ ∃ c, r.apply g w =
      (((pass.rule cfg).apply g w₀).1, { ((pass.rule cfg).apply g w₀).2 with
          session :=
            { ((pass.rule cfg).apply g w₀).2.session with client := c } })) :
    (pass.rule cfg : Rule σ).Alike r where
  name := hname
  apply := by
    intro f g hfg v w hvw
    obtain ⟨w₀, hw₀, c, heq⟩ := happly g w
    obtain ⟨hresult, halike⟩ :=
      (Pass.rule_alike cfg pass).apply f g hfg v w₀ (hw₀ hvw)
    rw [heq]
    exact ⟨hresult, halike.client c⟩

namespace Optimizer

variable {o : Optimizer σ} {u : Optimizer τ}
  {f : Option MethodId → SessionM σ Unit}
  {g : Option MethodId → SessionM τ Unit} {v : Visit σ} {w : Visit τ}

/-- Clients may be told anything. -/
theorem alike_told (h : v.Alike w) (c : σ) (d : τ) :
    Visit.Alike { v with session := { v.session with client := c } }
      { w with session := { w.session with client := d } } :=
  ⟨⟨h.session.program, h.session.progress, h.session.memo, h.session.stats⟩,
    h.editor⟩

/-- Rules that are alike do the same. -/
theorem alike_applyRule {r : Rule σ} {r' : Rule τ} (hr : r.Alike r')
    (hfg : CallsAlike f g) (h : v.Alike w) :
    Parallel Visit.Alike (o.applyRule f r v) (u.applyRule g r' w) := by
  rw [applyRule, applyRule]
  rcases (hr.apply f g hfg v w h).cases with ⟨e, v', w', hx, hy, hvw⟩
    | ⟨a, v', w', hx, hy, hvw⟩
  · simp only [hx, hy, notify_apply]
    refine ⟨?_, alike_told hvw _ _⟩
    rw [hr.name, hvw.session.program, h.editor]
  · simp only [hx, hy, notify_apply]
    exact ⟨rfl, alike_told hvw _ _⟩

/-- So do lists of rules that are alike. -/
theorem alike_offerTo {rules : List (Rule σ)} {rules' : List (Rule τ)}
    (hrules : List.Forall₂ Rule.Alike rules rules') (hfg : CallsAlike f g)
    (h : v.Alike w) :
    Parallel Visit.Alike (o.offerTo f rules v) (u.offerTo g rules' w) := by
  induction hrules generalizing v w with
  | nil => exact ⟨rfl, h⟩
  | cons hr _ ih =>
      rw [offerTo_cons, offerTo_cons]
      rcases (alike_applyRule (o := o) (u := u) hr hfg h).cases with
        ⟨e, v', w', hx, hy, hvw⟩ | ⟨a, v', w', hx, hy, hvw⟩
      · rw [hx, hy]
        exact ⟨rfl, hvw⟩
      · rw [hx, hy]
        simp only [hvw.editor, hr.name]
        split
        · exact ⟨rfl, hvw.taken _⟩
        · exact ih hvw

/-- Bodies are scanned in parallel. -/
theorem alike_scan (hrules : List.Forall₂ Rule.Alike o.rules u.rules)
    (hfg : CallsAlike f g) (fuel : Nat) (changed : Bool) (h : v.Alike w) :
    Parallel Visit.Alike (o.scan f fuel changed v)
    (u.scan g fuel changed w) := by
  induction fuel generalizing changed v w with
  | zero => exact ⟨rfl, h⟩
  | succ fuel ih =>
      rw [scan_succ, scan_succ, h.more]
      split
      · have hoffer : Parallel Visit.Alike (o.offer f v.advanced)
            (u.offer g w.advanced) := by
          rw [offer, offer, bind_apply, bind_apply, notify_apply, notify_apply]
          exact alike_offerTo hrules hfg (alike_told h.advanced _ _)
        rcases hoffer.cases with ⟨e, v', w', hx, hy, hvw⟩
          | ⟨a, v', w', hx, hy, hvw⟩
        · rw [hx, hy]
          exact ⟨rfl, hvw⟩
        · rw [hx, hy]
          cases a with
          | true => exact ih true hvw.rewound
          | false => exact ih changed hvw
      · split
        · exact ih false h.advanced.restarted
        · exact ⟨rfl, h.advanced⟩

/-- **Clients look on.**  Optimisers whose rules differ in what they do to the
client at most run in step. -/
theorem alike_optimize (hrules : List.Forall₂ Rule.Alike o.rules u.rules)
    (fuel : Nat) : CallsAlike (o.optimize fuel) (u.optimize fuel) := by
  induction fuel with
  | zero => exact fun _ _ _ h => ⟨rfl, h⟩
  | succ fuel ih =>
      intro m s t h
      cases m with
      | none => exact ⟨rfl, h⟩
      | some m =>
          have hmark : ∀ x, (s.setProgress m x).Alike (t.setProgress m x) :=
            fun x =>
            ⟨h.program, by simp only [Session.setProgress, h.progress],
              h.memo, h.stats⟩
          have hstage : t.progressOf m = s.progressOf m := by
            rw [Session.progressOf, Session.progressOf, h.progress]
          have hskip : ((s.setProgress m .inProgress).setProgress m .done).Alike
              ((t.setProgress m .inProgress).setProgress m .done) :=
            ⟨h.program, by simp only [Session.setProgress, h.progress],
              h.memo, h.stats⟩
          rw [optimize_succ, optimize_succ, hstage, h.program]
          split
          · cases (s.program.method m).body with
            | none => exact ⟨rfl, hskip⟩
            | some b =>
                simp only
                split
                · exact ⟨rfl, hskip⟩
                · have hvisit : Parallel Session.Alike (o.visit
                      (o.optimize fuel) fuel m b (s.setProgress m .inProgress))
                      (u.visit (u.optimize fuel) fuel m b
                        (t.setProgress m .inProgress)) := by
                    have hscan := alike_scan hrules ih fuel false (v :=
                      ⟨s.setProgress m .inProgress, { method := m, body := b }⟩)
                      (w := ⟨t.setProgress m .inProgress,
                        { method := m, body := b }⟩) ⟨hmark .inProgress, rfl⟩
                    rw [visit, visit]
                    rcases hscan.cases with ⟨e, v', w', hx, hy, hvw⟩
                      | ⟨a, v', w', hx, hy, hvw⟩
                    · simp only [hx, hy, notify_apply]
                      refine ⟨?_, (alike_told hvw _ _).session⟩
                      rw [hvw.session.program]
                    · simp only [hx, hy, notify_apply]
                      exact ⟨rfl, (alike_told hvw _ _).session⟩
                  rcases hvisit.cases with ⟨e, s', t', hx, hy, hst⟩
                    | ⟨a, s', t', hx, hy, hst⟩
                  · rw [hx, hy]
                    exact ⟨rfl, hst⟩
                  · rw [hx, hy]
                    refine ⟨rfl, hst.program, ?_, hst.memo, ?_⟩
                    · simp only [left, Session.setProgress, Session.count,
                        hst.progress]
                    · simp only [left, Session.setProgress, Session.count,
                        hst.stats]
          · exact ⟨rfl, h⟩

/-- **Runs** for two clients go in parallel. -/
theorem alike_run (hrules : List.Forall₂ Rule.Alike o.rules u.rules)
    (fuel : Nat) (ms : List MethodId) {s : Session σ} {t : Session τ}
    (h : s.Alike t) :
    Parallel Session.Alike (o.run fuel ms s) (u.run fuel ms t) := by
  have hcount : ∀ (k : Program → Stats → Stats) (s : Session σ) (t : Session τ),
      s.Alike t → Parallel Session.Alike
      ((modify fun s => s.count (k s.program) : SessionM σ Unit) s)
      ((modify fun s => s.count (k s.program) : SessionM τ Unit) t) := by
    intro k s t hst
    refine ⟨rfl, hst.program, hst.progress, hst.memo, ?_⟩
    change k t.program t.stats = k s.program s.stats
    rw [hst.program, hst.stats]
  have hforM : ∀ s t, Session.Alike s t → Parallel Session.Alike
      ((ms.forM fun m => o.optimize fuel (some m) : SessionM σ Unit) s)
      ((ms.forM fun m => u.optimize fuel (some m) : SessionM τ Unit) t) := by
    induction ms with
    | nil => exact fun _ _ hst => ⟨rfl, hst⟩
    | cons m ms ih =>
        intro s t hst
        exact Parallel.bind (alike_optimize hrules fuel (some m) s t hst)
          (fun _ => ih)
  apply Parallel.bind (hcount
    (fun p st => { st with before := st.before + p.instrCount ms }) s t h)
  intro _ s t hst
  apply Parallel.bind (hforM s t hst)
  intro _ s t hst
  exact hcount
    (fun p st => { st with after := st.after + p.instrCount ms }) s t hst

/-- A request is carried out in the same way. -/
theorem alike_perform (hrules : List.Forall₂ Rule.Alike o.rules u.rules)
    (fuel : Nat) (q : Request) {s : Session σ} {t : Session τ} (h : s.Alike t) :
    Parallel Session.Alike (q.perform o fuel s) (q.perform u fuel t) := by
  cases q with
  | run ms => exact alike_run hrules fuel ms h
  | optimize m => exact alike_optimize hrules fuel m s t h

/-- The rules of passes are alike if each of them is. -/
theorem alike_ofPasses {cfg : InlineSettings} {rule : Pass → Rule τ}
    (hrule : ∀ pass, (pass.rule cfg : Rule σ).Alike (rule pass))
    (passes : List Pass) : List.Forall₂ Rule.Alike
    (ofPasses cfg passes : Optimizer σ).rules (passes.map rule) := by
  rw [ofPasses, List.forall₂_map_left_iff, List.forall₂_map_right_iff,
    List.forall₂_same]
  exact fun pass _ => hrule pass

end Optimizer

end Bytecode
