import Bytecode.Proofs.Offering

/-!
# Visits leave each other alone

A call visits methods that had not been visited before and changes their bodies
only.  A visit that is going on while another method is visited therefore finds
its own body as it was, and its editor is as sound as before.

`Session.Extends` says what a call may do to a session, `Visit.Steady` what an
editor can rely on between two steps, and `frame` puts the two together as a law
of the driver.  The main statement is `frame_obeyed`.
-/

namespace Bytecode

variable {σ : Type}

namespace Program

/-- No two methods have the same body. -/
def Unshared (p : Program) : Prop :=
  ∀ m m' b, (p.method m).body = some b → (p.method m').body = some b → m' = m

/-- Only methods that have been made have a body. -/
theorem index_lt_of_body {p : Program} {m : MethodId} {b : BodyId}
    (h : (p.method m).body = some b) : m.index < p.methods.size := by
  by_contra hm
  rw [method, Array.getD, dif_neg hm] at h
  cases h

/-- It is enough to look at the methods that there are. -/
theorem unshared_iff {p : Program} :
    p.Unshared ↔ ∀ n < p.methods.size, ∀ k < p.methods.size,
    ∀ b ∈ (p.method ⟨n⟩).body, (p.method ⟨k⟩).body = some b → k = n := by
  constructor
  · intro h n _ k _ b hb hk
    exact congrArg MethodId.index (h ⟨n⟩ ⟨k⟩ b hb hk)
  · intro h m m' b hb hb'
    have hindex :=
      h m.index (index_lt_of_body hb) m'.index (index_lt_of_body hb') b hb hb'
    cases m
    cases m'
    simpa using hindex

instance {p : Program} : Decidable p.Unshared :=
  decidable_of_iff' _ unshared_iff

end Program

namespace Session

variable {s s' s'' : Session σ} {m m' : MethodId}

/-- One method is marked and the others stay. -/
theorem progressOf_setProgress (x : Progress) :
    (s.setProgress m x).progressOf m' = if m' = m then x else
        s.progressOf m' := by
  simp only [progressOf, setProgress, List.lookup_cons]
  by_cases h : m' = m
  · simp [h]
  · have hbeq : (m' == m) = false := by simpa using h
    simp [h, hbeq]

/-- Methods that have been visited stay as they are, and a body is changed only
when a method that has it is visited. -/
structure Extends (s s' : Session σ) : Prop where
  methods : s'.program.methods = s.program.methods
  bodies : s'.program.bodies.size = s.program.bodies.size
  grown : s.program.instrs.size ≤ s'.program.instrs.size
  progress : ∀ m, s.progressOf m ≠ .notVisited →
    s'.progressOf m = s.progressOf m
  agree : ∀ c, (∀ m, (s.program.method m).body = some c →
    s.progressOf m = .notVisited → s'.progressOf m = .notVisited) →
    Program.AgreeOn c s.program s'.program

/-- Methods stay as they are. -/
theorem Extends.method (h : Extends s s') (m : MethodId) :
    s'.program.method m = s.program.method m := by
  simp only [Program.method, h.methods]

/-- A session with the same program and stages. -/
theorem extends_of_eq (hprogram : s'.program = s.program)
    (hprogress : s'.progress = s.progress) : Extends s s' where
  methods := by rw [hprogram]
  bodies := by rw [hprogram]
  grown := by rw [hprogram]
  progress := fun m _ => by rw [progressOf, progressOf, hprogress]
  agree := fun c _ => by rw [hprogram]; exact .refl _ _

theorem Extends.refl (s : Session σ) : Extends s s := extends_of_eq rfl rfl

/-- One extension after the other. -/
theorem Extends.trans (h : Extends s s') (h' : Extends s' s'') :
    Extends s s'' where
  methods := h'.methods.trans h.methods
  bodies := h'.bodies.trans h.bodies
  grown := h.grown.trans h'.grown
  progress := by
    intro m hm
    have hm' := h.progress m hm
    rw [h'.progress m (by rwa [hm']), hm']
  agree := by
    intro c hc
    have hc₁ : ∀ m, (s.program.method m).body = some c →
        s.progressOf m = .notVisited → s'.progressOf m = .notVisited := by
      intro m hbody hm
      by_contra hne
      exact hne ((h'.progress m hne).symm.trans (hc m hbody hm))
    have hc₂ : ∀ m, (s'.program.method m).body = some c →
        s'.progressOf m = .notVisited → s''.progressOf m = .notVisited := by
      intro m hbody hm
      rw [h.method] at hbody
      by_cases hold : s.progressOf m = .notVisited
      · exact hc m hbody hold
      · rw [h.progress m hold] at hm
        exact absurd hm hold
    exact (h.agree c hc₁).trans (h'.agree c hc₂)

/-- Marking a method that has not been visited. -/
theorem Extends.mark (h : Extends s s') (hm : s.progressOf m = .notVisited)
    (x : Progress) (hx : x ≠ .notVisited) : Extends s (s'.setProgress m x) where
  methods := h.methods
  bodies := h.bodies
  grown := h.grown
  progress := by
    intro m' hm'
    rw [progressOf_setProgress, if_neg]
    · exact h.progress m' hm'
    · rintro rfl
      exact hm' hm
  agree := by
    intro c hc
    apply h.agree c
    intro m' hbody hm'
    have hend := hc m' hbody hm'
    rw [progressOf_setProgress] at hend
    split at hend
    · exact absurd hend hx
    · exact hend

/-- A change of the body of a method that is visited by now. -/
theorem Extends.change {q : Program} {b : BodyId} (h : Extends s s')
    (hp : s'.program.WellLinked) (hm : s.progressOf m = .notVisited)
    (hm' : s'.progressOf m ≠ .notVisited)
    (hbody : (s.program.method m).body = some b)
    (hq : Program.ChangedIn b s'.program q) :
    Extends s { s' with program := q } where
  methods := hq.methods.trans h.methods
  bodies := hq.bodies.trans h.bodies
  grown := h.grown.trans hq.grown
  progress := h.progress
  agree := by
    intro c hc
    have hcb : c ≠ b := by
      rintro rfl
      exact hm' (hc m hbody hm)
    exact (h.agree c hc).trans (hq.agreeOn hp hcb)

end Session

namespace Visit

variable {v v' : Visit σ} {i : InstrId} {s : Session σ}

/-- The editor is sound, its cursor stands in the body, and no change is left to
be taken note of. -/
structure Steady (v : Visit σ) : Prop where
  sound : v.editing.Sound
  inside : v.editing.CursorInside
  clean : v.editor.dirty = false

/-- An instruction of the body is on offer. -/
def Offers (v : Visit σ) (i : InstrId) : Prop :=
  v.editor.target = some i ∧ i ∈ v.editing.code

/-- The next target is the first instruction, or follows the last one. -/
theorem target_advanced (v : Visit σ) : v.advanced.editor.target =
    match v.editor.pos with
    | none => v.session.program.first? v.editor.body
    | some k => v.session.program.next k := rfl

/-- The anchor is in front of the target. -/
theorem anchor_advanced (v : Visit σ) : v.advanced.editor.anchor =
    match v.advanced.editor.target with
    | some k => v.session.program.prev k
    | none => v.editor.anchor := rfl

/-- Where the scan goes next, read off the list of the body's instructions. -/
theorem Steady.target_advanced_eq (h : v.Steady) : v.advanced.editor.target =
    match v.editor.pos with
    | none => v.editing.code.head?
    | some k => elemAfter? k v.editing.code := by
  have hp : v.session.program.WellLinked := h.sound.linked
  rw [target_advanced]
  cases hpos : v.editor.pos with
  | none => exact hp.first? v.editor.body
  | some k => exact hp.next (h.inside.pos k hpos)

/-- What is handed out next is an instruction of the body. -/
theorem Steady.mem_next (h : v.Steady)
    (hi : v.advanced.editor.target = some i) : i ∈ v.editing.code :=
  h.inside.offered h.sound i hi

/-- A visit that moves on is steady. -/
theorem Steady.advanced (h : v.Steady) : v.advanced.Steady where
  sound := h.sound.move rfl rfl
  inside := h.inside.advance h.sound
  clean := h.clean

/-- A visit that begins again is steady. -/
theorem Steady.restarted (h : v.Steady) : v.restarted.Steady where
  sound := h.sound.move rfl rfl
  inside := Editing.cursorInside_reset
  clean := h.clean

/-- After a change the cursor steps back inside the body. -/
theorem steady_rewound (hsound : v.editing.Sound)
    (hinside : v.editing.CursorInside) (name : String) :
    (v.taken name).rewound.Steady where
  sound := hsound.move rfl rfl
  inside := ⟨(hinside.rewind hsound).pos, (hinside.rewind hsound).anchor⟩
  clean := rfl

/-- A steady visit with more to come offers an instruction. -/
theorem Steady.offers (h : v.Steady) (hmore : v.more = true) :
    ∃ i, v.advanced.Offers i := by
  obtain ⟨i, hi⟩ := Option.isSome_iff_exists.mp hmore
  exact ⟨i, hi, h.mem_next hi⟩

/-- A visit is steady as long as nothing is edited. -/
theorem Steady.untouched {e : Editing} (h : v.Steady)
    (he : v.editing.Untouched e) : (v.setEditing e).Steady where
  sound := he.sound
  inside := he.edited.inside h.inside
  clean := by
    change e.editor.dirty = false
    rw [he.editor]
    exact h.clean

/-- An instruction is offered as long as nothing is edited. -/
theorem Offers.untouched {e : Editing} (h : v.Offers i)
    (he : v.editing.Untouched e) : (v.setEditing e).Offers i := by
  refine ⟨?_, ?_⟩
  · change e.editor.target = some i
    rw [he.editor]
    exact h.1
  · change i ∈ e.code
    rw [he.code]
    exact h.2

/-- A change elsewhere keeps an editor steady. -/
theorem Steady.elsewhere (h : v.Steady) (hs : s.program.WellLinked)
    (hbodies : s.program.bodies.size = v.session.program.bodies.size)
    (hagree : Program.AgreeOn v.editor.body v.session.program s.program) :
    Steady { v with session := s } := by
  have hcode : s.program.code v.editor.body = v.editing.code := by
    rw [hs.code, hagree.body, Editing.code, h.sound.linked.code]
    rfl
  refine ⟨⟨hs, ?_, ?_⟩, ⟨?_, ?_⟩, h.clean⟩
  · change v.editor.body.index < s.program.bodies.size
    rw [hbodies]
    exact h.sound.present
  · exact fun x hx => (h.sound.index x hx).agree h.sound.linked hs hagree
  · intro i hi
    change i ∈ s.program.code v.editor.body
    rw [hcode]
    exact h.inside.pos i hi
  · intro i hi
    change i ∈ s.program.code v.editor.body
    rw [hcode]
    exact h.inside.anchor i hi

/-- The visit with another client. -/
def withClient (v : Visit σ) (c : σ) : Visit σ :=
  { v with session := { v.session with client := c } }

theorem Steady.withClient (h : v.Steady) (c : σ) : (v.withClient c).Steady :=
  ⟨h.sound, h.inside, h.clean⟩

/-- At the start of a visit the cursor stands in front of the body. -/
theorem steady_start {b : BodyId} (hp : s.program.WellLinked) (m : MethodId)
    (hsize : s.program.size b ≠ 0) :
    Steady ⟨s, { method := m, body := b }⟩ := by
  rw [hp.size] at hsize
  obtain ⟨i, hi⟩ := List.exists_mem_of_length_pos (Nat.pos_of_ne_zero hsize)
  exact ⟨Editing.sound_fresh hp (hp.present hi) m,
    Editing.cursorInside_fresh, rfl⟩

/-- The visit of `m`, begun in session `s`, is going on. -/
structure Within (s : Session σ) (m : MethodId) (v : Visit σ) :
    Prop extends Steady v where
  unshared : v.session.program.Unshared
  method : v.editor.method = m
  body : (v.session.program.method m).body = some v.editor.body
  busy : v.session.progressOf m = .inProgress
  fresh : s.progressOf m = .notVisited
  extend : s.Extends v.session

variable {m : MethodId}

/-- A visit begins within its method. -/
theorem within_start {b : BodyId} (hp : s.program.WellLinked)
    (hshare : s.program.Unshared) (hm : s.progressOf m = .notVisited)
    (hbody : (s.program.method m).body = some b)
    (hsize : s.program.size b ≠ 0) :
    Within s m ⟨s.setProgress m .inProgress, { method := m, body := b }⟩ where
  toSteady := steady_start (s := s.setProgress m .inProgress) hp m hsize
  unshared := hshare
  method := rfl
  body := hbody
  busy := by rw [Session.progressOf_setProgress, if_pos rfl]
  fresh := hm
  extend := (Session.Extends.refl s).mark hm _ (by simp)

/-- A visit that moves on stays within its method. -/
theorem Within.advanced (h : v.Within s m) : v.advanced.Within s m :=
  ⟨h.toSteady.advanced, h.unshared, h.method, h.body, h.busy, h.fresh, h.extend⟩

/-- A visit that begins again stays within its method. -/
theorem Within.restarted (h : v.Within s m) : v.restarted.Within s m :=
  ⟨h.toSteady.restarted, h.unshared, h.method, h.body, h.busy, h.fresh,
    h.extend⟩

/-- A visit stays within its method as long as nothing is edited. -/
theorem Within.untouched {e : Editing} (h : v.Within s m)
    (he : v.editing.Untouched e) : (v.setEditing e).Within s m := by
  have hprogram : e.program = v.session.program := he.program
  have hbody : e.editor.body = v.editor.body := he.edited.body
  refine ⟨h.toSteady.untouched he, ?_, he.edited.method.trans h.method, ?_,
    h.busy, h.fresh, ?_⟩
  · change e.program.Unshared
    rw [hprogram]
    exact h.unshared
  · change (e.program.method m).body = some e.editor.body
    rw [hprogram, hbody]
    exact h.body
  · exact h.extend.trans (Session.extends_of_eq hprogram rfl)

/-- The memo and the counts have changed. -/
theorem Within.noting (h : v.Within s m) (memo : Memo Recent) (stats : Stats) :
    Within s m { v with session := { v.session with memo, stats } } :=
  ⟨⟨h.sound, h.inside, h.clean⟩, h.unshared, h.method, h.body, h.busy, h.fresh,
    h.extend.trans (Session.extends_of_eq rfl rfl)⟩

theorem Within.withClient (h : v.Within s m) (c : σ) :
    (v.withClient c).Within s m :=
  ⟨h.toSteady.withClient c, h.unshared, h.method, h.body, h.busy, h.fresh,
    h.extend.trans (Session.extends_of_eq rfl rfl)⟩

/-- Another visit that starts and ends in between leaves the body alone. -/
theorem Within.agree (h : v.Within s m) {t : Session σ}
    (ht : v.session.Extends t) :
    Program.AgreeOn v.editor.body v.session.program t.program := by
  apply ht.agree
  intro m' hbody hm'
  rw [h.unshared m m' _ h.body hbody, h.busy] at hm'
  cases hm'

/-- A visit stays within its method whatever other visits do. -/
theorem Within.nested (h : v.Within s m) {t : Session σ}
    (hp : t.program.WellLinked) (hshare : t.program.Unshared)
    (ht : v.session.Extends t) : Within s m { v with session := t } where
  toSteady := h.toSteady.elsewhere hp ht.bodies (h.agree ht)
  unshared := hshare
  method := h.method
  body := by
    rw [ht.method]
    exact h.body
  busy := by
    rw [ht.progress m (by rw [h.busy]; simp)]
    exact h.busy
  fresh := h.fresh
  extend := h.extend.trans ht

/-- Other visits leave the code of a visit. -/
theorem Within.code_nested (h : v.Within s m) {t : Session σ}
    (hp : t.program.WellLinked) (ht : v.session.Extends t) :
    t.program.code v.editor.body = v.editing.code := by
  have hv : v.session.program.WellLinked := h.sound.linked
  rw [hp.code, (h.agree ht).body, ← hv.code]
  rfl

/-- Other visits leave what is offered. -/
theorem Within.offers_nested (h : v.Within s m) {t : Session σ}
    (hp : t.program.WellLinked) (ht : v.session.Extends t) (hi : v.Offers i) :
    Offers { v with session := t } i := by
  refine ⟨hi.1, ?_⟩
  change i ∈ t.program.code v.editor.body
  rw [h.code_nested hp ht]
  exact hi.2

/-- After a change of the body the cursor steps back and the visit goes on. -/
theorem Within.evolved {e : Editing} (h : v.Within s m)
    (he : v.editing.Evolves e) (stats : Stats) (name : String) :
    (Visit.taken ⟨{ v.session with program := e.program, stats }, e.editor⟩
      name).rewound.Within s m where
  toSteady := steady_rewound (v := ⟨{ v.session with
    program := e.program, stats }, e.editor⟩) he.sound (he.inside h.inside) name
  unshared := by
    have hmethods : e.program.methods = v.session.program.methods :=
      he.changed.methods
    intro m₁ m₂ b h₁ h₂
    have hmethod : ∀ m', e.program.method m' = v.session.program.method m' :=
      fun m' => he.changed.method m'
    exact h.unshared m₁ m₂ b ((hmethod m₁) ▸ h₁) ((hmethod m₂) ▸ h₂)
  method := he.method.trans h.method
  body := by
    change (e.program.method m).body = some e.editor.body
    rw [he.changed.method m, he.body]
    exact h.body
  busy := h.busy
  fresh := h.fresh
  extend := by
    have hbody : (s.program.method m).body = some v.editor.body := by
      rw [← h.extend.method]
      exact h.body
    have hbusy : v.session.progressOf m ≠ .notVisited := by
      rw [h.busy]
      simp
    exact (h.extend.change h.sound.linked h.fresh hbusy hbody he.changed).trans
      (Session.extends_of_eq rfl rfl)

/-- The next instruction is the one that follows in the body. -/
theorem Within.nextInstruction (h : v.Within s m) (hi : v.Offers i) :
    v.editing.nextInstruction = v.session.program.next i := by
  have howner : (v.session.program.owner i).isSome := by
    have hp : v.session.program.WellLinked := h.sound.linked
    rw [hp.mem_code.mp hi.2]
    rfl
  have htarget : v.editing.editor.target = some i := hi.1
  rw [Editing.nextInstruction, htarget]
  exact if_pos howner

/-- The instruction behind the one on offer is the same after a visit in
between. -/
theorem Within.next_nested (h : v.Within s m) {t : Session σ}
    (hp : t.program.WellLinked) (ht : v.session.Extends t) (hi : v.Offers i) :
    t.program.next i = v.session.program.next i := by
  have hv : v.session.program.WellLinked := h.sound.linked
  have hcode := h.code_nested hp ht
  have hit : i ∈ t.program.code v.editor.body := by
    rw [hcode]
    exact hi.2
  rw [hp.next hit, hcode, hv.next hi.2]
  rfl

end Visit

/-! ### The law -/

/-- A rule does what a pass does; it may keep notes of its own. -/
def Rule.Mimics (r : Rule σ) (cfg : InlineSettings) (pass : Pass) : Prop :=
  ∀ optimize v, ∃ c, r.apply optimize v = (((pass.rule cfg).apply optimize v).1,
    ((pass.rule cfg).apply optimize v).2.withClient c)

/-- The optimiser applies passes and nothing else. -/
structure Optimizer.AppliesPasses (o : Optimizer σ) (cfg : InlineSettings) :
    Prop where
  unwatched : ∀ e v, o.watch e v = v.session.client
  rules : ∀ r ∈ o.rules, ∃ pass, r.Mimics cfg pass

/-- An optimizer made of passes applies them. -/
theorem Optimizer.appliesPasses_ofPasses (cfg : InlineSettings)
    (passes : List Pass) :
    (ofPasses cfg passes : Optimizer σ).AppliesPasses cfg where
  unwatched := fun _ _ => rfl
  rules := by
    intro r hr
    obtain ⟨pass, -, rfl⟩ := List.mem_map.mp hr
    exact ⟨pass, fun _ _ => ⟨_, rfl⟩⟩

/-- The program is well linked, and its methods share no bodies. -/
structure Session.Sound (s : Session σ) : Prop where
  linked : s.program.WellLinked
  unshared : s.program.Unshared

/-- The session of a visit is sound. -/
theorem Visit.Within.session {s : Session σ} {m : MethodId} {v : Visit σ}
    (h : v.Within s m) : v.session.Sound :=
  ⟨h.sound.linked, h.unshared⟩

/-- Visits leave each other alone. -/
def frame : Law σ where
  ready := Session.Sound
  returns s s' := s'.Sound ∧ s.Extends s'
  broken _ := True
  during s m
    | .scanning _, v => v.Within s m
    | .offering _ _, v => v.Within s m ∧ ∃ i, v.Offers i

section Frame

variable {s : Session σ} {m : MethodId} {v : Visit σ} {i : InstrId}
  {cfg : InlineSettings} {optimize : Option MethodId → SessionM σ Unit}
  {changed : Bool} {rest : List (Rule σ)}

/-- Asking a policy leaves a session sound. -/
theorem consulted_sound (cfg : InlineSettings) (hs : s.Sound) (m : MethodId) :
    (Inline.consulted cfg m s).Sound :=
  ⟨hs.linked, hs.unshared⟩

/-- What the callee's visit returns to. -/
theorem nested_call (hcalls : frame.Calls optimize) (h : v.Within s m)
    {c : MethodId} {t : Session σ}
    (ht : optimize (some c) (Inline.consulted cfg c v.session) = (.ok (), t)) :
    t.Sound ∧ v.session.Extends t := by
  have hmeets := hcalls c _ (consulted_sound cfg h.session c)
  rw [ht] at hmeets
  have hasked : v.session.Extends (Inline.consulted cfg c v.session) :=
    Session.extends_of_eq rfl rfl
  exact ⟨hmeets.1, hasked.trans hmeets.2⟩

/-- The callee of the instruction on offer is about to be taken in, its visit
having led to `t`. -/
theorem Visit.Within.taking (h : v.Within s m) (hi : v.Offers i) {c : MethodId}
    {t : Session σ} {b : BodyId} {anchor : InstrId}
    (hcallee : Inline.callee? cfg v.editing i = some c)
    (hnext : v.editing.nextInstruction = some anchor) (ht : t.Sound)
    (hext : v.session.Extends t) (hbody : (t.program.method c).body = some b) :
    Visit.Within s m { v with session := t } ∧
    Visit.Offers { v with session := t } i ∧
    t.program.next i = some anchor ∧ b ≠ v.editor.body := by
  have hv := h.nested ht.linked ht.unshared hext
  refine ⟨hv, h.offers_nested ht.linked hext hi, ?_, ?_⟩
  · rw [h.next_nested ht.linked hext hi, ← h.nextInstruction hi, hnext]
  · rintro rfl
    have hcm := ht.unshared m c _ hv.body hbody
    exact Inline.callee?_ne hcallee (hcm.trans h.method.symm)

/-- An inlined call is within any frame. -/
theorem frame_inlines (hcalls : frame.Calls optimize) (h : v.Within s m)
    (hi : v.Offers i) {r : Except Fault Unit × Visit σ}
    (hr : Inline.Inlines cfg optimize v i r) (name : String) :
    frame.Applies s m changed name rest r := by
  have hclean : ∀ {v' : Visit σ}, v'.Within s m → v'.Offers i →
      frame.Applies s m changed name rest (.ok (), v') := by
    intro v' hv' hi'
    exact Law.applies_quiet hv'.clean ⟨hv', i, hi'⟩
  cases hr with
  | none => exact hclean h hi
  | declined => exact hclean (h.noting _ _) hi
  | @stopped c _ _ _ hopt =>
      have hmeets := hcalls c _ (consulted_sound cfg h.session c)
      rw [hopt] at hmeets
      exact hmeets
  | spared _ hopt =>
      obtain ⟨ht, hext⟩ := nested_call hcalls h hopt
      exact hclean (h.nested ht.linked ht.unshared hext)
        (h.offers_nested ht.linked hext hi)
  | @takenIn _ t _ _ hcallee _ hnext _ hopt _ hbody =>
      obtain ⟨ht, hext⟩ := nested_call hcalls h hopt
      obtain ⟨hv, hiv, hnext', -⟩ := h.taking hi hcallee hnext ht hext hbody
      obtain ⟨v', heq, hsession⟩ :=
        Inline.takeIn_replaces hv.sound hiv.1 hiv.2 hnext'
      rcases heq with ⟨hstop, -⟩ | ⟨hok, hrep⟩
      · rw [hstop]
        exact ⟨Or.inl rfl, trivial⟩
      · rw [hok]
        refine Law.applies_fired hrep.1 ?_
        have hev := hv.evolved hrep.evolves v'.session.stats name
        have hv' : v' =
            ⟨{ t with program := v'.editing.program,
                      stats := v'.session.stats }, v'.editing.editor⟩ := by
          obtain ⟨session, editor⟩ := v'
          simp only at hsession
          rw [hsession]
          rfl
        rw [hv']
        exact hev

/-- An application of a pass obeys the frame. -/
theorem frame_passStep (hcalls : frame.Calls optimize) (h : v.Within s m)
    (hi : v.Offers i) {pass : Pass} {r : Except Fault Unit × Visit σ}
    (hr : PassStep cfg optimize v i pass r) (name : String) :
    frame.Applies s m changed name rest r := by
  cases hr with
  | quiet he =>
      have hv := h.untouched he
      exact Law.applies_quiet hv.clean ⟨hv, i, hi.untouched he⟩
  | fires he _ =>
      exact Law.applies_fired he.dirty
        (h.evolved he.toEvolves v.session.stats name)
  | inlines hr => exact frame_inlines hcalls h hi hr name

/-- The frame does not look at the client. -/
theorem frame_withClient {name : String} {r : Except Fault Unit × Visit σ}
    (h : frame.Applies s m changed name rest r) (c : σ) :
    frame.Applies s m changed name rest (r.1, r.2.withClient c) := by
  obtain ⟨e | ⟨⟩, v'⟩ := r
  · exact h
  · rw [Law.Applies, Meets] at h ⊢
    have hdirty : (v'.withClient c).editor.dirty = v'.editor.dirty := rfl
    simp only at h ⊢
    rw [hdirty]
    split at h
    · next hd =>
        rw [if_pos hd]
        exact h.withClient c
    · next hd =>
        rw [if_neg hd]
        exact ⟨h.1.withClient c, h.2⟩

/-- A rule that does what a pass does is within its frame. -/
theorem frame_mimics {r : Rule σ} {pass : Pass} (hr : r.Mimics cfg pass)
    {name : String} (h : frame.Applies s m changed name rest
      ((pass.rule cfg).apply optimize v)) :
    frame.Applies s m changed name rest (r.apply optimize v) := by
  obtain ⟨c, hc⟩ := hr optimize v
  rw [hc]
  exact frame_withClient h c

/-- What a pass leaves of the stages and of the client is left by the visit it
asks for. -/
theorem notes_passStep (kept : List (MethodId × Progress) → σ → Prop)
    (left : σ → Prop) (hframe : frame.Calls optimize) (hcalls : ∀ c,
      Meets (fun _ t => kept t.progress t.client) (fun t => left t.client)
      (optimize (some c) (Inline.consulted cfg c v.session))) (h : v.Within s m)
    (hi : v.Offers i) (hkept : kept v.session.progress v.session.client)
    (hleft : ∀ p c, kept p c → left c) {pass : Pass}
    {r : Except Fault Unit × Visit σ} (hr : PassStep cfg optimize v i pass r) :
    Meets (fun _ v' => kept v'.session.progress v'.session.client)
    (fun v' => left v'.session.client) r := by
  cases hr with
  | quiet => exact hkept
  | fires => exact hkept
  | inlines hr =>
      cases hr with
      | none => exact hkept
      | declined => exact hkept
      | @stopped c _ _ _ hopt =>
          have hmeets := hcalls c
          rwa [hopt] at hmeets
      | @spared c _ _ hopt =>
          have hmeets := hcalls c
          rwa [hopt] at hmeets
      | @takenIn c t anchor b hcallee _ hnext _ hopt _ hbody =>
          have hmeets := hcalls c
          rw [hopt] at hmeets
          obtain ⟨ht, hext⟩ := nested_call hframe h hopt
          obtain ⟨hv, hiv, hnext', -⟩ := h.taking hi hcallee hnext ht hext hbody
          obtain ⟨v', heq, hsession⟩ :=
            Inline.takeIn_replaces hv.sound hiv.1 hiv.2 hnext'
          have hkept' : kept v'.session.progress v'.session.client := by
            rw [hsession]
            exact hmeets
          rcases heq with ⟨hstop, -⟩ | ⟨hok, -⟩
          · rw [hstop]
            exact ⟨Or.inl rfl, hleft _ _ hkept'⟩
          · rw [hok]
            exact hkept'

/-- Only the applications of the rules have to be looked at. -/
theorem frame_obeyed_of {o : Optimizer σ}
    (hwatch : ∀ e v, o.watch e v = v.session.client)
    (happly : ∀ {r s m v i changed rest fuel},
      r ∈ o.rules → frame.Calls (o.optimize fuel) → v.Within s m → v.Offers i →
      frame.Applies s m changed r.name rest (r.apply (o.optimize fuel) v)) :
    frame.Obeyed o where
  unwatched := hwatch
  idle := fun {s} hs => ⟨hs, .refl s⟩
  skip := fun {s m} hs hm _ => ⟨⟨hs.linked, hs.unshared⟩, by
    have hmark := (Session.Extends.refl s).mark hm .inProgress (by simp)
    exact hmark.mark hm .done (by simp)⟩
  start := fun hs hm hbody hsize =>
    Visit.within_start hs.linked hs.unshared hm hbody hsize
  advance := fun h hmore => ⟨h.advanced, h.toSteady.offers hmore⟩
  apply := by
    rintro s m changed r rest v fuel hcalls hr ⟨h, i, hi⟩
    exact happly hr hcalls h hi
  decline := fun h => h.1
  restart := fun h _ => h.advanced.restarted
  finish := fun {s m v} h _ => ⟨⟨h.sound.linked, h.unshared⟩,
    (h.extend.mark h.fresh .done (by simp)).trans
    (Session.extends_of_eq rfl rfl)⟩
  cut := fun _ => trivial
  refuse := fun _ => trivial

/-- **Visits leave each other alone.** -/
theorem frame_obeyed {o : Optimizer σ} (ho : o.AppliesPasses cfg) :
    frame.Obeyed o := by
  refine frame_obeyed_of ho.unwatched
    fun {r s m v i changed rest fuel} hr hcalls h hi => ?_
  obtain ⟨pass, hpass⟩ := ho.rules r hr
  exact frame_mimics hpass (frame_passStep hcalls h hi
    (Pass.rule_step cfg _ h.sound hi.1 hi.2 pass) r.name)

end Frame

end Bytecode
