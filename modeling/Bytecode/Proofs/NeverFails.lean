import Bytecode.Proofs.Clients
import Bytecode.Proofs.Closed
import Bytecode.Proofs.Driver
import Bytecode.Proofs.Visiting

/-!
# Passes do not fail

The editor refuses what its rules forbid: an edit while nothing is on offer, one
of an instruction of another body, the removal of a last instruction that
branches still go to, a branch that the index does not hold.  The list
primitives below it refuse what would break a list.  A pass asks for none of
this, however far other passes have taken the bodies apart, and wherever
branches and calls lead.  Nor does it miss a load or a store for a slot that it
copies, as slots are numbered from zero and stay so.

What is left is that fuel runs out.  `Law.Obeyed.unfailing` goes through the
driver a second time: where rules do not fail while they obey a law, calls do
not either.  To speak about every answer of every pass, the passes are made to
record their answers.  The main statement is `never_fails`.
-/

namespace Bytecode

/-- A computation that has not failed: fuel may have run out, but nothing else
went wrong. -/
def Unfailing {α : Type} (x : Except Fault α) : Prop :=
  ∀ e, x = .error e → e = .outOfFuel

/-- An answer that is no error is unfailing. -/
theorem unfailing_ok {α : Type} (a : α) : Unfailing (.ok a) :=
  fun _ h => by cases h

/-- Running out of fuel is not one of the failures in question. -/
theorem unfailing_outOfFuel {α : Type} :
    Unfailing (.error .outOfFuel : Except Fault α) :=
  fun _ h => (Except.error.inj h).symm

/-- Telling what a failure happened in makes no new failure. -/
theorem Unfailing.within {α : Type} {x : Except Fault α} (h : Unfailing x)
    (circumstance : String) :
    Unfailing (x.mapError (Fault.within circumstance)) := by
  cases x with
  | ok a => exact unfailing_ok a
  | error e =>
      obtain rfl := h e rfl
      exact unfailing_outOfFuel

/-! ### The driver, once more -/

namespace Law

variable {σ : Type} {l : Law σ} {o : Optimizer σ} {s : Session σ} {m : MethodId}
  {changed : Bool} {v : Visit σ} {fuel : Nat}

/-- Rules do not fail at the points of a visit that the law speaks of. -/
def Harmless (l : Law σ) (o : Optimizer σ) (fuel : Nat) : Prop :=
  ∀ {s m changed r rest v}, r ∈ o.rules → l.during s m (.offering changed
    (r :: rest)) v → Unfailing (r.apply (o.optimize fuel) v).1

section Walk

variable (h : l.Obeyed o) (hcalls : l.Calls (o.optimize fuel))
  (hrules : l.Harmless o fuel)

include h hrules

/-- Applying one of the rules in a permitted state does not fail. -/
theorem Obeyed.unfailing_applyRule {r : Rule σ} {rest : List (Rule σ)}
    (hr : r ∈ o.rules) (hv : l.during s m (.offering changed (r :: rest)) v) :
    Unfailing (o.applyRule (o.optimize fuel) r v).1 := by
  rw [Optimizer.applyRule]
  simp only [h.notify]
  exact (hrules hr hv).within _

include hcalls

/-- Offering an instruction to rule after rule does not fail. -/
theorem Obeyed.unfailing_offerTo {rules : List (Rule σ)}
    (hmem : ∀ r ∈ rules, r ∈ o.rules)
    (hv : l.during s m (.offering changed rules) v) :
    Unfailing (o.offerTo (o.optimize fuel) rules v).1 := by
  induction rules generalizing v with
  | nil => exact unfailing_ok false
  | cons r rest ih =>
      have happly := h.applyRule hcalls (hmem r List.mem_cons_self) hv
      have hfine := h.unfailing_applyRule hrules (hmem r List.mem_cons_self) hv
      rw [Optimizer.offerTo_cons]
      generalize o.applyRule (o.optimize fuel) r v = x at happly hfine
      obtain ⟨e | ⟨⟩, v'⟩ := x
      · obtain rfl := hfine e rfl
        exact unfailing_outOfFuel
      · simp only
        split
        · exact unfailing_ok true
        · next hdirty =>
            rw [Applies, Meets, if_neg hdirty] at happly
            exact ih (fun r hr => hmem r (List.mem_cons_of_mem _ hr)) happly

/-- Scanning a body does not fail. -/
theorem Obeyed.unfailing_scan (steps : Nat)
    (hv : l.during s m (.scanning changed) v) :
    Unfailing (o.scan (o.optimize fuel) steps changed v).1 := by
  induction steps generalizing changed v with
  | zero => exact unfailing_outOfFuel
  | succ steps ih =>
      rw [Optimizer.scan_succ]
      split
      · next hmore =>
          have hoffer := h.offer hcalls (h.advance hv hmore)
          have hfine : Unfailing (o.offer (o.optimize fuel) v.advanced).1 := by
            rw [Optimizer.offer, bind_apply, h.notify]
            exact h.unfailing_offerTo hcalls hrules (fun _ hr => hr)
              (h.advance hv hmore)
          generalize o.offer (o.optimize fuel) v.advanced = x at hoffer hfine
          obtain ⟨e | fired, v'⟩ := x
          · obtain rfl := hfine e rfl
            exact unfailing_outOfFuel
          · cases fired with
            | true => exact ih hoffer
            | false => exact ih hoffer
      · next hmore =>
          cases changed with
          | true => exact ih (h.restart hv (by simpa using hmore))
          | false => exact unfailing_ok ()

/-- A visit from its start does not fail. -/
theorem Obeyed.unfailing_visit (steps : Nat) {b : BodyId} {t : Session σ}
    (hv : l.during s m (.scanning false) ⟨t, { method := m, body := b }⟩) :
    Unfailing (o.visit (o.optimize fuel) steps m b t).1 := by
  rw [Optimizer.visit]
  simp only [h.notify]
  exact (h.unfailing_scan hcalls hrules steps hv).within _

end Walk

/-- **Calls do not fail.**  Where the steps of an optimiser obey a law, and
rules do not fail as long as the visits they ask for do not, no visit fails. -/
theorem Obeyed.unfailing (h : l.Obeyed o) (hrules : ∀ fuel, (∀ m s, l.ready s →
      Unfailing (o.optimize fuel (some m) s).1) → l.Harmless o fuel)
    (fuel : Nat) (m : MethodId) (s : Session σ) (hs : l.ready s) :
    Unfailing (o.optimize fuel (some m) s).1 := by
  induction fuel generalizing m s with
  | zero => exact unfailing_outOfFuel
  | succ fuel ih =>
      rw [Optimizer.optimize_succ]
      split
      · next hm =>
          cases hbody : (s.program.method m).body with
          | none => exact unfailing_ok ()
          | some b =>
              simp only
              split
              · exact unfailing_ok ()
              · next hsize =>
                  have hvisit := h.unfailing_visit (h.calls fuel)
                    (hrules fuel ih) fuel (h.start hs hm hbody hsize)
                  generalize o.visit (o.optimize fuel) fuel m b
                    (s.setProgress m .inProgress) = x at hvisit
                  obtain ⟨e | ⟨⟩, s'⟩ := x
                  · obtain rfl := hvisit e rfl
                    exact unfailing_outOfFuel
                  · exact unfailing_ok ()
      · exact unfailing_ok ()

end Law

/-! ### One application -/

namespace Inline

variable {call anchor : InstrId} {b : BodyId} {s s' : Editing}

/-- The copies address slots of the enlarged locals, so slots still count from
zero. -/
theorem TakesIn.slotsFromZero (htake : TakesIn b anchor s s')
    (hanchor : anchor ∈ s.code) (hslots : s.program.SlotsFromZero) :
    s'.program.SlotsFromZero := by
  cases htake with
  | nothing _ heq =>
      rw [heq]
      exact hslots
  | copies hadded hrun =>
      have hanchor₁ := hanchor
      rw [← hadded.code] at hanchor₁
      exact (hadded.fromZero hslots).sameFrames
        (hrun.sameFrames hadded.sound hanchor₁)

/-- A callee that is taken in leaves the slots numbered from zero. -/
theorem Replaces.slotsFromZero (h : Replaces call b anchor s s') (hs : s.Sound)
    (hcall : call ∈ s.code) (hnext : s.program.next call = some anchor)
    (hslots : s.program.SlotsFromZero) : s'.program.SlotsFromZero := by
  obtain ⟨t, ht, htake⟩ := h.cleared hs hcall hnext
  refine htake.slotsFromZero ht.anchor ?_
  rw [ht.program]
  exact hslots.sameFrames (Program.sameFrames_renewed hs.linked hcall _ _)

end Inline

section Apply

variable {σ : Type} {s : Session σ} {m : MethodId} {v : Visit σ} {i : InstrId}
  {cfg : InlineSettings} {optimize : Option MethodId → SessionM σ Unit}
  {pass : Pass} {r : Except Fault Unit × Visit σ}

/-- The law of visits, in programs whose slots are numbered from zero. -/
def counting : Law σ :=
  frame.keeping (fun s => s.program.SlotsFromZero) fun _ => True

/-- Where slots are numbered from zero, a callee is taken in without fail, and
they are still. -/
theorem Visit.Within.takes (h : v.Within s m) (hi : v.Offers i) {c : MethodId}
    {t : Session σ} {b : BodyId} {anchor : InstrId}
    (hcallee : Inline.callee? cfg v.editing i = some c)
    (hnext : v.editing.nextInstruction = some anchor) (ht : t.Sound)
    (hext : v.session.Extends t) (hbody : (t.program.method c).body = some b)
    (hslots : t.program.SlotsFromZero) :
    ∃ v', Inline.takeIn i b anchor { v with session := t } = (.ok (), v') ∧
      Inline.Replaces i b anchor (Visit.editing { v with session := t })
      v'.editing ∧ v'.session.program.SlotsFromZero := by
  obtain ⟨hv, hiv, hnext', -⟩ := h.taking hi hcallee hnext ht hext hbody
  obtain ⟨v', heq, -⟩ :=
    Inline.takeIn_replaces (b := b) hv.sound hiv.1 hiv.2 hnext'
  rcases heq with ⟨-, hblocked⟩ | ⟨hok, hreplaces⟩
  · exact absurd (hslots.sameFrames
      (Program.sameFrames_renewed hv.sound.linked hiv.2 _ _)) hblocked.low
  · exact ⟨v', hok, hreplaces,
      hreplaces.slotsFromZero hv.sound hiv.2 hnext' hslots⟩

/-- What the callee's visit returns to. -/
theorem counting_call (hcalls : counting.Calls optimize) (h : v.Within s m)
    (hslots : v.session.program.SlotsFromZero) {c : MethodId} {t : Session σ}
    (ht : optimize (some c) (Inline.consulted cfg c v.session) = (.ok (), t)) :
    t.Sound ∧ v.session.Extends t ∧ t.program.SlotsFromZero := by
  have hmeets := hcalls c _ ⟨consulted_sound cfg h.session c, hslots⟩
  rw [ht] at hmeets
  obtain ⟨⟨hsound, hext⟩, hslots'⟩ := hmeets
  have hasked : v.session.Extends (Inline.consulted cfg c v.session) :=
    Session.extends_of_eq rfl rfl
  exact ⟨hsound, hasked.trans hext, hslots'⟩

/-- A pass keeps slots numbered from zero. -/
theorem counting_passStep (hcalls : counting.Calls optimize) (h : v.Within s m)
    (hi : v.Offers i) (hslots : v.session.program.SlotsFromZero)
    (hr : PassStep cfg optimize v i pass r) :
    Meets (fun _ v' => v'.session.program.SlotsFromZero) (fun _ => True) r := by
  cases hr with
  | @quiet _ e he =>
      change e.program.SlotsFromZero
      rw [he.program]
      exact hslots
  | fires _ heffect => exact hslots.sameFrames (heffect.sameFrames h.sound hi.2)
  | inlines hr =>
      cases hr with
      | none => exact hslots
      | declined => exact hslots
      | @stopped c _ _ _ hopt =>
          have hmeets := hcalls c _ ⟨consulted_sound cfg h.session c, hslots⟩
          rw [hopt] at hmeets
          exact ⟨hmeets.1, trivial⟩
      | spared _ hopt => exact (counting_call hcalls h hslots hopt).2.2
      | takenIn hcallee _ hnext _ hopt _ hbody =>
          obtain ⟨ht, hext, hslots'⟩ := counting_call hcalls h hslots hopt
          obtain ⟨v', hok, -, hv'⟩ :=
            h.takes hi hcallee hnext ht hext hbody hslots'
          rw [hok]
          exact hv'

/-- A pass does not fail if the visits it asks for do not. -/
theorem unfailing_passStep (hcalls : counting.Calls optimize)
    (hfine : ∀ m s, counting.ready s → Unfailing (optimize (some m) s).1)
    (h : v.Within s m) (hi : v.Offers i)
    (hslots : v.session.program.SlotsFromZero)
    (hr : PassStep cfg optimize v i pass r) : Unfailing r.1 := by
  cases hr with
  | quiet => exact unfailing_ok ()
  | fires => exact unfailing_ok ()
  | inlines hr =>
      cases hr with
      | none => exact unfailing_ok ()
      | declined => exact unfailing_ok ()
      | @stopped c e _ _ hopt =>
          have hcall := hfine c _ ⟨consulted_sound cfg h.session c, hslots⟩
          rwa [hopt] at hcall
      | spared => exact unfailing_ok ()
      | takenIn hcallee _ hnext _ hopt _ hbody =>
          obtain ⟨ht, hext, hslots'⟩ := counting_call hcalls h hslots hopt
          obtain ⟨v', hok, -⟩ := h.takes hi hcallee hnext ht hext hbody hslots'
          rw [hok]
          exact unfailing_ok ()

/-- An optimiser that applies passes keeps slots counted from zero. -/
theorem counting_obeyed {o : Optimizer σ} (ho : o.AppliesPasses cfg) :
    counting.Obeyed o := by
  refine (frame_obeyed ho).keeping (fun _ _ _ h => h) (fun _ _ h => h)
    (fun _ => trivial) ?_
  rintro s m changed r rest v fuel hcalls hr ⟨⟨h, i, hi⟩, hslots⟩
  obtain ⟨pass, hpass⟩ := ho.rules r hr
  obtain ⟨c, hc⟩ := hpass (o.optimize fuel) v
  have hstep := counting_passStep hcalls h hi hslots
    (Pass.rule_step cfg (o.optimize fuel) h.sound hi.1 hi.2 pass)
  rw [hc]
  generalize (pass.rule cfg).apply (o.optimize fuel) v = x at hstep
  obtain ⟨e | ⟨⟩, v'⟩ := x
  · exact hstep
  · exact hstep

/-- The law that counts slots from zero allows nothing that fails, provided
nested requests do not. -/
theorem counting_harmless {o : Optimizer σ} (ho : o.AppliesPasses cfg)
    (fuel : Nat) (hfine : ∀ m s, counting.ready s →
      Unfailing (o.optimize fuel (some m) s).1) : counting.Harmless o fuel := by
  rintro s m changed r rest v hr ⟨⟨h, i, hi⟩, hslots⟩
  obtain ⟨pass, hpass⟩ := ho.rules r hr
  obtain ⟨c, hc⟩ := hpass (o.optimize fuel) v
  have hanswer :=
    unfailing_passStep ((counting_obeyed ho).calls fuel) hfine h hi hslots
    (Pass.rule_step cfg (o.optimize fuel) h.sound hi.1 hi.2 pass)
  rw [hc]
  exact hanswer

/-- Visits of an optimiser that applies passes do not fail. -/
theorem unfailing_calls {o : Optimizer σ} (ho : o.AppliesPasses cfg)
    (fuel : Nat) (m : MethodId) (s : Session σ) (hs : counting.ready s) :
    Unfailing (o.optimize fuel (some m) s).1 :=
  (counting_obeyed ho).unfailing (counting_harmless ho) fuel m s hs

end Apply

/-! ### Answers on record -/

/-- The rule, made to record its answers. -/
def Rule.answering (r : Rule (List (Except Fault Unit))) :
    Rule (List (Except Fault Unit)) where
  name := r.name
  apply optimize v :=
    let (result, v) := r.apply optimize v
    (result, v.withClient (result :: v.session.client))

namespace Optimizer

/-- The optimiser that records all answers of its passes. -/
def answering (cfg : InlineSettings) (passes : List Pass) :
    Optimizer (List (Except Fault Unit)) :=
  { rules := passes.map fun pass => (pass.rule cfg).answering }

/-- The optimiser that keeps the answers of its passes still applies them. -/
theorem appliesPasses_answering (cfg : InlineSettings) (passes : List Pass) :
    (answering cfg passes).AppliesPasses cfg where
  unwatched := fun _ _ => rfl
  rules := by
    intro r hr
    obtain ⟨pass, -, rfl⟩ := List.mem_map.mp hr
    exact ⟨pass, fun _ _ => ⟨_, rfl⟩⟩

/-- All recorded answers are successes. -/
def AllOk (answers : List (Except Fault Unit)) : Prop :=
  ∀ x ∈ answers, x = .ok ()

/-- No recorded answer is a failure. -/
def NoneFailed (answers : List (Except Fault Unit)) : Prop :=
  ∀ x ∈ answers, Unfailing x

/-- Where every answer is good, none has failed. -/
theorem AllOk.noneFailed {answers : List (Except Fault Unit)}
    (h : AllOk answers) : NoneFailed answers := by
  intro x hx
  rw [h x hx]
  exact unfailing_ok ()

/-- The law of visits, in programs whose slots are numbered from zero: passes
answer with a success until a visit is broken off. -/
def answered : Law (List (Except Fault Unit)) :=
  counting.keeping (fun s => AllOk s.client) fun s => NoneFailed s.client

/-- An answer is put on record. -/
theorem record_answer {x : Except Fault Unit × Visit (List (Except Fault Unit))}
    (h : Meets (fun _ v => AllOk v.session.client)
      (fun v => NoneFailed v.session.client) x) (hfine : Unfailing x.1) :
    Meets (fun _ v => AllOk v.session.client)
      (fun v => NoneFailed v.session.client)
      (x.1, x.2.withClient (x.1 :: x.2.session.client)) := by
  obtain ⟨e | ⟨⟩, v⟩ := x
  · exact ⟨h.1, List.forall_mem_cons.mpr ⟨hfine, h.2⟩⟩
  · exact List.forall_mem_cons.mpr ⟨rfl, h⟩

/-- The passes answer without failing all along a run. -/
theorem answered_obeyed (cfg : InlineSettings) (passes : List Pass) :
    answered.Obeyed (answering cfg passes) := by
  have ho := appliesPasses_answering cfg passes
  have hcounting := counting_obeyed ho
  refine hcounting.keeping (fun _ _ _ h => h)
    (fun _ _ h => h) AllOk.noneFailed ?_
  rintro s m changed r rest v fuel hcalls hr ⟨⟨⟨h, i, hi⟩, hslots⟩, hall⟩
  obtain ⟨pass, -, rfl⟩ := List.mem_map.mp hr
  have hstep := Pass.rule_step cfg
    ((answering cfg passes).optimize fuel) h.sound hi.1 hi.2 pass
  have hnested : ∀ c, Meets (fun _ t => AllOk t.client) (fun t =>
      NoneFailed t.client) ((answering cfg passes).optimize fuel (some c)
        (Inline.consulted cfg c v.session)) :=
    fun c => (hcalls c _ ⟨⟨consulted_sound cfg h.session c, hslots⟩, hall⟩).mono
      (fun _ _ ht => ht.2) (fun _ ht => ht.2)
  exact record_answer
    (notes_passStep (fun _ => AllOk) NoneFailed ((frame_obeyed ho).calls fuel)
      hnested h hi hall (fun _ _ => AllOk.noneFailed) hstep) (unfailing_passStep
        (hcounting.calls fuel) (unfailing_calls ho fuel) h hi hslots hstep)

/-! ### Requests -/

section Requests

variable {cfg : InlineSettings} {passes : List Pass}
  {s start : Session (List (Except Fault Unit))}

/-- Two steps do not fail if the first does not, and the second does not after
it. -/
theorem unfailing_bind {α β S : Type} {x : ExceptT Fault (StateM S) α}
    {f : α → ExceptT Fault (StateM S) β} {s : S} {good : α → S → Prop}
    {bad : S → Prop} (h : Meets good bad (x s)) (hx : Unfailing (x s).1)
    (hf : ∀ a s', good a s' → Unfailing (f a s').1) :
    Unfailing ((x >>= f) s).1 := by
  rw [bind_apply]
  generalize x s = r at h hx
  obtain ⟨e | a, s'⟩ := r
  · obtain rfl := hx e rfl
    exact unfailing_outOfFuel
  · exact hf a s' h

/-- Where calls do not fail, requests for methods do not. -/
theorem unfailing_perform {σ : Type} {o : Optimizer σ} {s : Session σ}
    {kept left : Session σ → Prop} {fuel : Nat}
    (hcount : ∀ s f, kept s → kept (s.count f)) (hcalls : ∀ m s, kept s →
      Meets (fun _ s' => kept s') left (o.optimize fuel (some m) s))
    (hfine : ∀ m s, kept s → Unfailing (o.optimize fuel (some m) s).1)
    (hs : kept s) (q : Request) (hq : q ≠ .optimize none) :
    Unfailing (q.perform o fuel s).1 := by
  have hforM : ∀ (ms : List MethodId) s, kept s → Unfailing
      ((ms.forM fun m => o.optimize fuel (some m) : SessionM σ Unit) s).1 := by
    intro ms
    induction ms with
    | nil => exact fun s _ => unfailing_ok ()
    | cons m ms ih =>
        exact fun s hs =>
          unfailing_bind (hcalls m s hs) (hfine m s hs) (fun _ => ih)
  cases q with
  | run ms =>
      have hrest := hforM ms (s.count fun t => { t with
        before := t.before + s.program.instrCount ms }) (hcount _ _ hs)
      change Unfailing (((ms.forM
        fun m => o.optimize fuel (some m) : SessionM σ Unit) >>= _) _).1
      rw [bind_apply]
      generalize (ms.forM fun m => o.optimize fuel (some m) : SessionM σ Unit)
        _ = r at hrest
      obtain ⟨e | ⟨⟩, s'⟩ := r
      · obtain rfl := hrest e rfl
        exact unfailing_outOfFuel
      · exact unfailing_ok ()
  | optimize m =>
      cases m with
      | some m => exact hfine m s hs
      | none => exact absurd rfl hq

/-- Keeping the answers changes nothing else about a rule. -/
theorem answering_alike {τ : Type} (cfg : InlineSettings) (passes : List Pass) :
    List.Forall₂ Rule.Alike (ofPasses cfg passes : Optimizer τ).rules
      (answering cfg passes).rules := by
  refine alike_ofPasses (fun pass => ?_) passes
  exact .of_notes rfl fun _ w => ⟨w, id, _, rfl⟩

/-- Recording answers changes nothing in what a request does. -/
theorem answering_parallel {τ : Type} (fuel : Nat) (q : Request) {t : Session τ}
    (h : t.Alike s) :
    Parallel Session.Alike (q.perform (ofPasses cfg passes) fuel t)
      (q.perform (answering cfg passes) fuel s) :=
  alike_perform (answering_alike cfg passes) fuel q h

/-- **Passes do not fail.**  An optimiser with any passes in any order, any
policy and any budget starts on a program whose methods share no bodies and
whose slots are numbered from zero; branches may go anywhere or nowhere.  It has
served any requests.  Whatever it is asked next about methods ends in success,
if fuel does not run out; every pass has answered with a success until then, and
with nothing worse than the end of fuel where that has broken a visit off.  An
optimiser that does not record answers does the same. -/
theorem never_fails (hp : start.program.WellLinked)
    (hshare : start.program.Unshared) (hslots : start.program.SlotsFromZero)
    (hclient : start.client = []) (hs : Served (answering cfg passes) start s)
    (fuel : Nat) (q : Request) (hq : q ≠ .optimize none) :
    Unfailing (q.perform (answering cfg passes) fuel s).1 ∧
    (∀ x ∈ (q.perform (answering cfg passes) fuel s).2.client, Unfailing x) ∧
    ((q.perform (answering cfg passes) fuel s).1 = .ok () →
      ∀ x ∈ (q.perform (answering cfg passes) fuel s).2.client, x = .ok ()) ∧
    ∀ (τ : Type) (t : Session τ), t.Alike s →
    Parallel Session.Alike (q.perform (ofPasses cfg passes) fuel t)
    (q.perform (answering cfg passes) fuel s) := by
  have ho := appliesPasses_answering cfg passes
  have hcalls : ∀ fuel m s, answered.ready s →
      Meets (fun _ s' => answered.ready s') (fun s' => NoneFailed s'.client)
        ((answering cfg passes).optimize fuel (some m) s) := fun fuel m s hs =>
    ((answered_obeyed cfg passes).calls fuel m s hs).mono
      (fun _ _ h => ⟨⟨h.1.1.1, h.1.2⟩, h.2⟩) (fun _ h => h.2)
  have hcount : ∀ (s : Session (List (Except Fault Unit))) f, answered.ready s →
      answered.ready (s.count f) :=
    fun s f hs => ⟨⟨⟨hs.1.1.linked, hs.1.1.unshared⟩, hs.1.2⟩, hs.2⟩
  have hleft : ∀ s, answered.ready s → NoneFailed s.client :=
    fun s hs => hs.2.noneFailed
  have hstart : answered.ready start := by
    refine ⟨⟨⟨hp, hshare⟩, hslots⟩, ?_⟩
    change AllOk start.client
    rw [hclient]
    exact fun x hx => (by cases hx)
  have hready := hs.kept hcount hleft hcalls hstart
  obtain ⟨hnone, hall⟩ := perform_kept hcount hleft fuel (hcalls fuel) hready q
  refine ⟨?_, hnone, fun hok => (hall (by rw [hok]; rfl)).2, fun τ t ht =>
    answering_parallel fuel q ht⟩
  exact unfailing_perform hcount (hcalls fuel)
    (fun m s hs => unfailing_calls ho fuel m s hs.1) hready q hq

end Requests

/-- A method whose first branch goes to code of another method, whose second one
goes nowhere, and which calls that method, a method that is missing, and
itself. -/
def astray : Program where
  instrs := #[⟨⟨0x52⟩, .target ⟨7⟩, some ⟨0⟩⟩, ⟨.br, .absent, some ⟨0⟩⟩,
    ⟨.call, .method ⟨"", "tail", [], "void"⟩, some ⟨0⟩⟩,
    ⟨.call, .method ⟨"", "missing", [], "void"⟩, some ⟨0⟩⟩,
    ⟨.call, .method ⟨"", "main", [], "void"⟩, some ⟨0⟩⟩,
    ⟨.br, .target ⟨5⟩, some ⟨0⟩⟩, ⟨⟨0x06⟩, .absent, some ⟨1⟩⟩,
    ⟨⟨0x52⟩, .target ⟨0⟩, some ⟨1⟩⟩, ⟨⟨0x0b⟩, .absent, some ⟨1⟩⟩,
    ⟨⟨0x70⟩, .absent, some ⟨1⟩⟩]
  bodies := #[{ code := [⟨0⟩, ⟨1⟩, ⟨2⟩, ⟨3⟩, ⟨4⟩, ⟨5⟩] },
    { code := [⟨6⟩, ⟨7⟩, ⟨8⟩, ⟨9⟩],
      locals := #[⟨0, "int32", "a"⟩, ⟨1, "int32", "b"⟩] }]
  methods := #[{ name := "main", body := some ⟨0⟩ },
    { name := "tail", body := some ⟨1⟩ }]

/-- Every call of one of the two methods may be inlined. -/
def inlineAstray : InlineSettings where
  resolution := some (.ofMethods astray [⟨0⟩, ⟨1⟩])
  policy := .always

/-- The run comes to its end, takes the other method in, and no pass fails on
the way. -/
theorem never_fails_astray : astray.WellLinked ∧
    astray.Unshared ∧ astray.SlotsFromZero ∧ ¬ astray.Closed ⟨0⟩ ∧
    ((Request.run [⟨0⟩, ⟨1⟩]).perform (answering inlineAstray Pass.all) 60
      { program := astray, client := [] }).1 = .ok () ∧
    ((Request.run [⟨0⟩, ⟨1⟩]).perform (answering inlineAstray Pass.all) 60
      { program := astray, client := [] }).2.stats.inlined = 1 ∧
    ∀ x ∈ ((Request.run [⟨0⟩, ⟨1⟩]).perform (answering inlineAstray Pass.all) 60
      { program := astray, client := [] }).2.client, x = .ok () := by
  have hp : astray.WellLinked := by decide
  have hshare : astray.Unshared := by decide
  have hslots : astray.SlotsFromZero := by decide
  have hstart : Served (answering inlineAstray Pass.all)
      { program := astray, client := [] } { program := astray, client := [] } :=
    .start
  -- the request is evaluated once for all that is read off from its end
  obtain ⟨hok, hinlined⟩ :
      ((Request.run [⟨0⟩, ⟨1⟩]).perform (answering inlineAstray Pass.all) 60
        { program := astray, client := [] }).1 = .ok () ∧
      ((Request.run [⟨0⟩, ⟨1⟩]).perform (answering inlineAstray Pass.all) 60
        { program := astray, client := [] }).2.stats.inlined = 1 := by
    decide +kernel
  have h :=
    never_fails hp hshare hslots rfl hstart 60 (.run [⟨0⟩, ⟨1⟩]) (by simp)
  exact ⟨hp, hshare, hslots, by decide, hok, hinlined, h.2.2.1 hok⟩

end Optimizer

end Bytecode
