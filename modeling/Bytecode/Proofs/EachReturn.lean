import Bytecode.Proofs.Clients
import Bytecode.Proofs.Closed
import Bytecode.Proofs.Driver
import Bytecode.Proofs.Visiting

/-!
# What holds each time a pass returns

A pass breaks much of what is true of a program and puts it together again
before it returns to the driver, and while the inliner waits for the visit of a
callee, other passes return further down in the nest of visits.  To speak about
all those moments, the passes are made to record the program each time they
return.  Recording changes nothing in a run.

A property of programs that withstands the single changes, `Withstands`, holds
of all recorded programs, `withstands_request`.  Branches are the first case:
passes change bodies under their feet, and whenever a pass returns, every branch
of every method goes to an instruction of its own body again.  The main
statement is `never_dangling`.
-/

namespace Bytecode

/-- The rule, made to record the program each time it returns. -/
def Rule.recording (r : Rule (List Program)) : Rule (List Program) where
  name := r.name
  apply optimize v :=
    let (result, v) := r.apply optimize v
    (result, v.withClient
      (if returned result then v.session.program :: v.session.client
      else v.session.client))

/-- The optimiser that records the program each time a pass returns. -/
def Optimizer.recording (cfg : InlineSettings) (passes : List Pass) :
    Optimizer (List Program) :=
  { rules := passes.map fun pass => (pass.rule cfg).recording }

/-- The property survives a change by a local pass, and a callee being taken
in. -/
structure Withstands (I : Program → Prop) : Prop where
  effect : ∀ {e e' : Editing} {i : InstrId} {pass : Pass} {m : MethodId},
    e.Sound → i ∈ e.code → (e.program.method m).body = some e.editor.body →
    e.Changed e' → e.Effect i pass e'.program → I e.program → I e'.program
  taken : ∀ {e e' : Editing} {call anchor : InstrId} {c : BodyId} {m d :
    MethodId}, e.Sound → call ∈ e.code → e.program.next call = some anchor →
    (e.program.method m).body = some e.editor.body →
    (e.program.method d).body = some c → c ≠ e.editor.body →
    Inline.Replaces call c anchor e e' → I e.program → I e'.program

namespace Optimizer

variable {I : Program → Prop} {cfg : InlineSettings} {passes : List Pass}

/-- The law of visits, with a property of programs that holds where passes
return. -/
def holding (I : Program → Prop) : Law (List Program) :=
  frame.keeping (fun s => I s.program ∧ ∀ p ∈ s.client, I p) fun s =>
    ∀ p ∈ s.client, I p

section Step

variable {s : Session (List Program)} {m : MethodId} {v : Visit (List Program)}
  {i : InstrId} {optimize : Option MethodId → SessionM (List Program) Unit}
  (hI : Withstands I) (hframe : frame.Calls optimize)
  (hcalls : (holding I).Calls optimize) (h : v.Within s m) (hi : v.Offers i)
  (hprogram : I v.session.program) (hclient : ∀ p ∈ v.session.client, I p)

include hI hframe hcalls h hi hprogram hclient

theorem holding_inlines {r : Except Fault Unit × Visit (List Program)}
    (hr : Inline.Inlines cfg optimize v i r) :
    Meets (fun _ v => I v.session.program ∧ ∀ p ∈ v.session.client, I p)
      (fun v => ∀ p ∈ v.session.client, I p) r := by
  have hready : ∀ c, (holding I).ready (Inline.consulted cfg c v.session) :=
    fun c => ⟨consulted_sound cfg h.session c, hprogram, hclient⟩
  cases hr with
  | none => exact ⟨hprogram, hclient⟩
  | declined => exact ⟨hprogram, hclient⟩
  | @stopped c e t _ hopt =>
      have hmeets := hcalls c _ (hready c)
      rw [hopt] at hmeets
      exact ⟨hmeets.1, hmeets.2.2⟩
  | @spared c t _ hopt =>
      have hmeets := hcalls c _ (hready c)
      rw [hopt] at hmeets
      exact hmeets.2
  | @takenIn c t anchor b hcallee _ hnext _ hopt _ hbody =>
      have hmeets := hcalls c _ (hready c)
      rw [hopt] at hmeets
      obtain ⟨-, hdone, hrecorded⟩ := hmeets
      obtain ⟨ht, hext⟩ := nested_call hframe h hopt
      obtain ⟨hv, hiv, hnext', hcb⟩ := h.taking hi hcallee hnext ht hext hbody
      obtain ⟨v', heq, hsession⟩ :=
        Inline.takeIn_replaces hv.sound hiv.1 hiv.2 hnext'
      have hrecorded' : ∀ p ∈ v'.session.client, I p := by
        rw [hsession]
        exact hrecorded
      rcases heq with ⟨hstop, -⟩ | ⟨hok, hrep⟩
      · rw [hstop]
        exact ⟨Or.inl rfl, hrecorded'⟩
      · rw [hok]
        exact ⟨hI.taken hv.sound hiv.2 hnext' hv.body hbody hcb hrep hdone,
          hrecorded'⟩

theorem holding_passStep {pass : Pass}
    {r : Except Fault Unit × Visit (List Program)}
    (hr : PassStep cfg optimize v i pass r) :
    Meets (fun _ v => I v.session.program ∧ ∀ p ∈ v.session.client, I p)
    (fun v => ∀ p ∈ v.session.client, I p) r := by
  cases hr with
  | @quiet _ e he =>
      have hsame : e.program = v.session.program := he.program
      refine ⟨?_, hclient⟩
      change I e.program
      rwa [hsame]
  | fires he heffect =>
      have hbody : (v.editing.program.method m).body =
          some v.editing.editor.body := h.body
      exact ⟨hI.effect h.sound hi.2 hbody he heffect hprogram, hclient⟩
  | inlines hr =>
      exact holding_inlines hI hframe hcalls h hi hprogram hclient hr

end Step

theorem recording_mimics (cfg : InlineSettings) (pass : Pass) :
    (pass.rule cfg).recording.Mimics cfg pass :=
  fun _ _ => ⟨_, rfl⟩

theorem appliesPasses_recording (cfg : InlineSettings) (passes : List Pass) :
    (recording cfg passes).AppliesPasses cfg where
  unwatched := fun _ _ => rfl
  rules := by
    intro r hr
    obtain ⟨pass, -, rfl⟩ := List.mem_map.mp hr
    exact ⟨pass, recording_mimics cfg pass⟩

/-- A pass that comes back adds a program with the property to the record. -/
theorem holding_record {x : Except Fault Unit × Visit (List Program)}
    (h : Meets (fun _ v => I v.session.program ∧ ∀ p ∈ v.session.client, I p)
      (fun v => ∀ p ∈ v.session.client, I p) x) :
    Meets (fun _ v => I v.session.program ∧ ∀ p ∈ v.session.client, I p)
      (fun v => ∀ p ∈ v.session.client, I p)
      (x.1, x.2.withClient
        (if returned x.1 then x.2.session.program :: x.2.session.client
          else x.2.session.client)) := by
  obtain ⟨e | ⟨⟩, v⟩ := x
  · obtain ⟨rfl | rfl, hv⟩ := h
    · exact ⟨Or.inl rfl, hv⟩
    · exact ⟨Or.inr rfl, hv⟩
  · refine ⟨h.1, ?_⟩
    rintro q (- | ⟨-, hq⟩)
    · exact h.1
    · exact h.2 q hq

theorem holding_obeyed (hI : Withstands I) (cfg : InlineSettings)
    (passes : List Pass) : (holding I).Obeyed (recording cfg passes) := by
  have hframe := frame_obeyed (appliesPasses_recording cfg passes)
  refine hframe.keeping (fun _ _ _ h => h) (fun _ _ h => h) (fun h => h.2) ?_
  rintro s m changed r rest v fuel hcalls hr ⟨⟨h, i, hi⟩, hprogram, hclient⟩
  obtain ⟨pass, -, rfl⟩ := List.mem_map.mp hr
  have hstep := Pass.rule_step cfg
    ((recording cfg passes).optimize fuel) h.sound hi.1 hi.2 pass
  exact holding_record
    (holding_passStep hI (hframe.calls fuel) hcalls h hi hprogram hclient hstep)

/-! ### Requests -/

/-- Each call keeps the law. -/
theorem holding_calls (hI : Withstands I) (cfg : InlineSettings)
    (passes : List Pass) (fuel : Nat) (m : MethodId)
    (s : Session (List Program)) (hs : (holding I).ready s) :
    Meets (fun _ s' => (holding I).ready s') (fun s' => ∀ p ∈ s'.client, I p)
    ((recording cfg passes).optimize fuel (some m) s) :=
  ((holding_obeyed hI cfg passes).calls fuel m s hs).mono
    (fun _ _ h => ⟨h.1.1, h.2⟩) (fun _ h => h.2)

theorem holding_count (s : Session (List Program)) (f : Stats → Stats)
    (hs : (holding I).ready s) : (holding I).ready (s.count f) :=
  ⟨⟨hs.1.linked, hs.1.unshared⟩, hs.2⟩

theorem recording_alike {τ : Type} (cfg : InlineSettings) (passes : List Pass) :
    List.Forall₂ Rule.Alike (ofPasses cfg passes : Optimizer τ).rules
      (recording cfg passes).rules := by
  refine alike_ofPasses (fun pass => ?_) passes
  exact .of_notes rfl fun _ w => ⟨w, id, _, rfl⟩

/-- Recording changes nothing in what a request does. -/
theorem recording_parallel {τ : Type} {s : Session (List Program)} (fuel : Nat)
    (q : Request) {t : Session τ} (h : t.Alike s) :
    Parallel Session.Alike (q.perform (ofPasses cfg passes) fuel t)
    (q.perform (recording cfg passes) fuel s) :=
  alike_perform (recording_alike cfg passes) fuel q h

/-- **What withstands the changes holds at each return** of a pass to the
driver, and when a request comes back, if it holds when the optimiser starts. -/
theorem withstands_request {start s : Session (List Program)}
    (hI : Withstands I) (hp : start.program.WellLinked)
    (hshare : start.program.Unshared) (hstart : I start.program)
    (hclient : start.client = []) (hs : Served (recording cfg passes) start s)
    (fuel : Nat) (q : Request) :
    (∀ p ∈ (q.perform (recording cfg passes) fuel s).2.client, I p) ∧
    (returned (q.perform (recording cfg passes) fuel s).1 = true →
      I (q.perform (recording cfg passes) fuel s).2.program) := by
  have hready : (holding I).ready start := by
    refine ⟨⟨hp, hshare⟩, hstart, ?_⟩
    rw [hclient]
    exact fun p hp => (by cases hp)
  have hleft : ∀ s, (holding I).ready s → ∀ p ∈ s.client, I p :=
    fun s hs => hs.2.2
  have hready :=
    hs.kept holding_count hleft (holding_calls hI cfg passes) hready
  have hkept := perform_kept holding_count hleft fuel
    (holding_calls hI cfg passes fuel) hready q
  exact ⟨hkept.1, fun hr => (hkept.2 hr).2.1⟩

end Optimizer

/-! ### No branch is ever left dangling -/

/-- Every branch in the body of a method goes to an instruction of that body. -/
def Program.NoDangling (p : Program) : Prop :=
  ∀ m b, (p.method m).body = some b → p.Closed b

theorem Program.noDangling_iff {p : Program} : p.NoDangling ↔
    ∀ n < p.methods.size, ∀ b ∈ (p.method ⟨n⟩).body, p.Closed b :=
  ⟨fun h n _ b hb => h ⟨n⟩ b hb,
    fun h m b hb => h m.index (index_lt_of_body hb) b hb⟩

instance {p : Program} : Decidable p.NoDangling :=
  decidable_of_iff' _ Program.noDangling_iff

namespace Program.NoDangling

variable {p q : Program} {b : BodyId}

/-- A change inside one body, after which that body is closed. -/
theorem change (h : p.NoDangling) (hp : p.WellLinked) (hq : q.WellLinked)
    (hpq : ChangedIn b p q) (hb : q.Closed b) : q.NoDangling :=
  hpq.each hp (fun _ hagree hc => hc.agree hp hq hagree) h hb

end Program.NoDangling

/-- A callee that is taken in leaves the caller closed. -/
theorem closed_replaces {e e' : Editing} {call anchor : InstrId} {c : BodyId}
    (he : e.Sound) (hcall : call ∈ e.code)
    (hnext : e.program.next call = some anchor) (hc : c ≠ e.editor.body)
    (h : e.program.Closed e.editor.body) (hcallee : e.program.Closed c)
    (hrep : Inline.Replaces call c anchor e e') :
    e'.program.Closed e.editor.body := by
  obtain ⟨t, ht, htake⟩ := hrep.cleared he hcall hnext
  have hclosed : t.program.Closed t.editor.body := by
    rw [ht.program, ht.body]
    exact h.renewed he.linked hcall rfl .absent
  have hother : t.program.Closed c :=
    hcallee.agree he.linked ht.sound.linked (ht.changed.agreeOn he.linked hc)
  rw [← ht.body] at hc ⊢
  exact htake.closed ht.sound ht.anchor hc hclosed hother

namespace Optimizer

/-- Closed bodies stay closed, and a callee that is taken in was closed
itself. -/
theorem withstands_noDangling : Withstands Program.NoDangling where
  effect := fun h hi hbody he heffect hkept =>
    hkept.change h.linked he.sound.linked he.changed
      (heffect.closed h hi (hkept _ _ hbody))
  taken := fun h hcall hnext hbody hcallee hc hrep hkept =>
    hkept.change h.linked hrep.evolves.sound.linked hrep.evolves.changed
      (closed_replaces h hcall hnext hc (hkept _ _ hbody)
        (hkept _ _ hcallee) hrep)

section Requests

variable {cfg : InlineSettings} {passes : List Pass}
  {s start : Session (List Program)}

/-- **No branch is ever left dangling.**  An optimiser with any passes in any
order, any policy and any budget starts on a program whose methods share no
bodies and whose branches stay in their bodies, and has served any requests.
Whatever it is asked next, and whether or not that comes to an end: each time a
pass returns to the driver, every branch in the body of a method goes to an
instruction of that body, and so it is when the request comes back.  An
optimiser that does not record does the same. -/
theorem never_dangling (hp : start.program.WellLinked)
    (hshare : start.program.Unshared) (hclosed : start.program.NoDangling)
    (hclient : start.client = []) (hs : Served (recording cfg passes) start s)
    (fuel : Nat) (q : Request) :
    (∀ p ∈ (q.perform (recording cfg passes) fuel s).2.client, p.NoDangling) ∧
    (returned (q.perform (recording cfg passes) fuel s).1 = true →
      (q.perform (recording cfg passes) fuel s).2.program.NoDangling) ∧
    ∀ (τ : Type) (t : Session τ), t.Alike s →
    Parallel Session.Alike (q.perform (ofPasses cfg passes) fuel t)
    (q.perform (recording cfg passes) fuel s) := by
  obtain ⟨hrecorded, hend⟩ :=
    withstands_request withstands_noDangling hp hshare hclosed hclient hs fuel q
  exact ⟨hrecorded, hend, fun τ t ht => recording_parallel fuel q ht⟩

end Requests

/-- A method that calls another one, whose branches go forwards and
backwards. -/
def callerOfLoop : Program where
  instrs := #[⟨.call, .method ⟨"", "loop", [], "void"⟩, some ⟨0⟩⟩,
    ⟨⟨0x70⟩, .absent, some ⟨0⟩⟩, ⟨⟨0x52⟩, .target ⟨4⟩, some ⟨1⟩⟩,
    ⟨.br, .target ⟨2⟩, some ⟨1⟩⟩, ⟨⟨0x70⟩, .absent, some ⟨1⟩⟩]
  bodies := #[{ code := [⟨0⟩, ⟨1⟩] }, { code := [⟨2⟩, ⟨3⟩, ⟨4⟩] }]
  methods := #[{ name := "main", body := some ⟨0⟩ },
    { name := "loop", body := some ⟨1⟩ }]

/-- Every call of one of the two methods may be inlined. -/
def inlineLoop : InlineSettings where
  resolution := some (.ofMethods callerOfLoop [⟨0⟩, ⟨1⟩])
  policy := .always

/-- The run takes the loop in, and nothing dangles on the way. -/
theorem never_dangling_callerOfLoop :
    callerOfLoop.WellLinked ∧ callerOfLoop.Unshared ∧ callerOfLoop.NoDangling ∧
    ((Request.run [⟨0⟩, ⟨1⟩]).perform (recording inlineLoop Pass.standard) 60
      { program := callerOfLoop, client := [] }).2.stats.inlined = 1 ∧
    (∀ p ∈ ((Request.run [⟨0⟩, ⟨1⟩]).perform
      (recording inlineLoop Pass.standard) 60
      { program := callerOfLoop, client := [] }).2.client, p.NoDangling) ∧
    ((Request.run [⟨0⟩, ⟨1⟩]).perform (recording inlineLoop Pass.standard) 60
      { program := callerOfLoop, client := [] }).2.program.NoDangling := by
  have hp : callerOfLoop.WellLinked := by decide
  have hshare : callerOfLoop.Unshared := by decide
  have hclosed : callerOfLoop.NoDangling := by decide
  have hstart : Served (recording inlineLoop Pass.standard)
      { program := callerOfLoop,
        client := [] } { program := callerOfLoop, client := [] } := .start
  have h := never_dangling hp hshare hclosed rfl hstart 60 (.run [⟨0⟩, ⟨1⟩])
  exact ⟨hp, hshare, hclosed, by decide +kernel, h.1, h.2.1 (by decide +kernel)⟩

end Optimizer

end Bytecode
