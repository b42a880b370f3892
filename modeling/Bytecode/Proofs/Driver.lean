import Bytecode.Optimizer
import Bytecode.Proofs.Inlining

/-!
# The driver

The recursion of the driver is gone through once, here.  A `Law` says what is to
hold of the sessions between visits and of a visit at each of its points:
between two offers, and while an instruction is offered to one rule after
another.  If the single steps obey the law, so does every call, whatever its
fuel: a call that comes to its end keeps the law, and one that breaks off,
because fuel ran out or something was not there, keeps the part of the law that
is said about broken off calls.

A client asks an optimiser to run over a list of methods or to optimise a single
one, and may go on asking as long as the requests come back.  What every call
keeps is kept by every request, and so by every sequence of requests,
`Served.kept`.
-/

namespace Bytecode

section Monad

variable {α β S : Type}

/-- The computation has come to an end as `good` says, or has been broken off
and left what `bad` says. -/
def Meets (good : α → S → Prop) (bad : S → Prop) : Except Fault α × S → Prop
  | (.ok a, s) => good a s
  | (.error e, s) => (e = .absent ∨ e = .outOfFuel) ∧ bad s

variable {good good' : α → S → Prop} {bad bad' : S → Prop}
  {r : Except Fault α × S}

/-- A result that meets more meets less. -/
theorem Meets.mono (h : Meets good bad r) (hgood : ∀ a s, good a s → good' a s)
    (hbad : ∀ s, bad s → bad' s) : Meets good' bad' r := by
  obtain ⟨e | a, s⟩ := r
  · exact ⟨h.1, hbad s h.2⟩
  · exact hgood a s h

/-- A result that meets two things meets both. -/
theorem Meets.and (h : Meets good bad r) (h' : Meets good' bad' r) :
    Meets (fun a s => good a s ∧ good' a s) (fun s => bad s ∧ bad' s) r := by
  obtain ⟨e | a, s⟩ := r
  · exact ⟨h.1, h.2, h'.2⟩
  · exact ⟨h, h'⟩

/-- One action after the other. -/
theorem Meets.bind {x : ExceptT Fault (StateM S) α}
    {f : α → ExceptT Fault (StateM S) β} {s : S} {goal : β → S → Prop}
    (h : Meets good bad (x s))
    (hf : ∀ a s', good a s' → Meets goal bad (f a s')) :
    Meets goal bad ((x >>= f) s) := by
  rw [bind_apply]
  generalize x s = r at h
  obtain ⟨e | a, s'⟩ := r
  · exact h
  · exact hf a s' h

/-- Circumstances do not turn a broken off computation into a failed one. -/
theorem Meets.within (h : Meets good bad r) (circumstance : String) :
    Meets good bad (r.1.mapError (Fault.within circumstance), r.2) := by
  obtain ⟨e | a, s⟩ := r
  · obtain ⟨rfl | rfl, hs⟩ := h
    · exact ⟨Or.inl rfl, hs⟩
    · exact ⟨Or.inr rfl, hs⟩
  · exact h

end Monad

variable {σ : Type}

namespace Visit

/-- The cursor has moved on. -/
def advanced (v : Visit σ) : Visit σ := v.setEditing v.editing.advance.2

/-- The cursor has stepped back. -/
def rewound (v : Visit σ) : Visit σ := v.setEditing v.editing.rewind

/-- The cursor stands in front of the body. -/
def restarted (v : Visit σ) : Visit σ := v.setEditing v.editing.reset

/-- A change by the rule of that name has been taken note of. -/
def taken (v : Visit σ) (name : String) : Visit σ :=
  { v with
    editor := { v.editor with dirty := false }
    session := v.session.count fun t => { t with fired := t.fired.bump name } }

/-- Whether there is a next instruction to offer. -/
def more (v : Visit σ) : Bool := v.editing.advance.1

end Visit

/-- One count more. -/
theorem Tally.count_bump (t : Tally) (name k : String) :
    (t.bump name).count k = t.count k + if k = name then 1 else 0 := by
  induction t with
  | nil =>
      rw [bump, count, count, List.lookup_cons]
      by_cases h : k = name
      · simp [h]
      · simp [h, beq_false_of_ne h]
  | cons e rest ih =>
      obtain ⟨j, n⟩ := e
      rw [bump]
      by_cases hj : j = name
      · rw [if_pos hj, count, count, List.lookup_cons, List.lookup_cons]
        by_cases hk : k = j
        · subst hk
          simp [hj]
        · have hk' : k ≠ name := fun h => hk (h.trans hj.symm)
          simp [beq_false_of_ne hk, hk']
      · rw [if_neg hj, count, count, List.lookup_cons, List.lookup_cons]
        by_cases hk : k = j
        · subst hk
          simp [hj]
        · simpa [beq_false_of_ne hk, count] using ih

/-! ### One turn of each recursion -/

namespace Optimizer

variable {o : Optimizer σ} {optimize : Option MethodId → SessionM σ Unit}

/-- A client is told of an event. -/
theorem notify_apply (e : Event) (v : Visit σ) : o.notify e v = (.ok (),
      { v with session := { v.session with client := o.watch e v } }) := rfl

/-- An instruction is offered to one rule, and to the others unless that has
fired. -/
theorem offerTo_cons (r : Rule σ) (rest : List (Rule σ)) (v : Visit σ) :
    o.offerTo optimize (r :: rest) v = match o.applyRule optimize r v with
      | (.error e, v') => (.error e, v')
      | (.ok _, v') =>
        if v'.editor.dirty then (.ok true, v'.taken r.name)
        else o.offerTo optimize rest v' := by
  rw [offerTo, bind_apply]
  obtain ⟨e | ⟨⟩, v'⟩ := o.applyRule optimize r v
  · rfl
  · change (if v'.editor.dirty then _ else _ : VisitM σ Bool) v' = _
    simp only
    by_cases hdirty : v'.editor.dirty = true
    · rw [if_pos hdirty, if_pos hdirty]
      rfl
    · rw [if_neg hdirty, if_neg hdirty]

/-- A scan goes on while there is more, and goes back when a rule has fired. -/
theorem scan_succ (fuel : Nat) (changed : Bool) (v : Visit σ) :
    o.scan optimize (fuel + 1) changed v =
      if v.more then match o.offer optimize v.advanced with
        | (.error e, v') => (.error e, v')
        | (.ok true, v') => o.scan optimize fuel true v'.rewound
        | (.ok false, v') => o.scan optimize fuel changed v'
      else if changed then o.scan optimize fuel false v.advanced.restarted
      else (.ok (), v.advanced) := by
  rw [scan, bind_apply]
  change (if v.more then _ else _ : VisitM σ Unit) v.advanced = _
  cases v.more with
  | true =>
      change ((o.offer optimize >>= _ : VisitM σ Unit) v.advanced) = _
      rw [bind_apply]
      obtain ⟨e | fired, v'⟩ := o.offer optimize v.advanced
      · rfl
      · cases fired with
        | true => rfl
        | false => rfl
  | false =>
      cases changed with
      | true => rfl
      | false => rfl

/-- The session after the visit of a method has come to its end. -/
def left (m : MethodId) (s : Session σ) : Session σ :=
  (s.setProgress m .done).count fun t => { t with methods := t.methods + 1 }

/-- A method is visited unless it has been. -/
theorem optimize_succ (fuel : Nat) (m : MethodId) (s : Session σ) :
    o.optimize (fuel + 1) (some m) s =
      if s.progressOf m = .notVisited then
        match (s.program.method m).body with
        | none => (.ok (), (s.setProgress m .inProgress).setProgress m .done)
        | some b =>
          if s.program.size b = 0 then
            (.ok (), (s.setProgress m .inProgress).setProgress m .done)
          else match o.visit (o.optimize fuel) fuel m b
                 (s.setProgress m .inProgress) with
            | (.error e, s') => (.error e, s')
            | (.ok _, s') => (.ok (), left m s')
      else (.ok (), s) := by
  rw [optimize, bind_apply]
  change (if s.progressOf m = .notVisited then _ else _ : SessionM σ Unit) s = _
  split
  · change ((match (s.program.method m).body with
      | none => _
      | some b => _ : SessionM σ Unit) (s.setProgress m .inProgress)) = _
    cases (s.program.method m).body with
    | none => rfl
    | some b =>
        simp only
        change (if s.program.size b = 0 then _ else _ : SessionM σ Unit) _ = _
        split
        · rfl
        · rw [bind_apply]
          obtain ⟨e | ⟨⟩, s'⟩ :=
            o.visit (o.optimize fuel) fuel m b (s.setProgress m .inProgress)
          · rfl
          · rfl
  · rfl

/-- A run is a sequence of calls between two counts. -/
theorem run_apply (fuel : Nat) (ms : List MethodId) (s : Session σ) :
    o.run fuel ms s =
    match (ms.forM fun m => o.optimize fuel (some m) : SessionM σ Unit) (s.count
      fun t => { t with before := t.before + s.program.instrCount ms }) with
      | (.error e, s') => (.error e, s')
      | (.ok _, s') =>
        (.ok (), s'.count
          fun t => { t with after := t.after + s'.program.instrCount ms }) := by
  rw [run, bind_apply]
  change ((ms.forM fun m => o.optimize fuel (some m) : SessionM σ Unit) >>=
    _) _ = _
  rw [bind_apply]
  obtain ⟨e | ⟨⟩, s'⟩ :=
    (ms.forM fun m => o.optimize fuel (some m) : SessionM σ Unit)
    (s.count fun t => { t with before := t.before + s.program.instrCount ms })
  · rfl
  · rfl

end Optimizer

/-- A point of a visit; `changed` tells whether the current scan has changed
something. -/
inductive Point (σ : Type) where
  /-- Between two offers. -/
  | scanning (changed : Bool)
  /-- The target has been declined by all but these rules. -/
  | offering (changed : Bool) (rules : List (Rule σ))

/-- What is to hold of sessions and visits. -/
structure Law (σ : Type) where
  /-- Before a call. -/
  ready : Session σ → Prop
  /-- From the session before a call to the one after it. -/
  returns : Session σ → Session σ → Prop
  /-- After a call that has been broken off. -/
  broken : Session σ → Prop
  /-- At a point of a visit of a method, the session before the visit being
  given. -/
  during : Session σ → MethodId → Point σ → Visit σ → Prop

namespace Law

/-- Calls obey the law. -/
def Calls (l : Law σ) (optimize : Option MethodId → SessionM σ Unit) : Prop :=
  ∀ m s, l.ready s →
    Meets (fun _ s' => l.returns s s') l.broken (optimize (some m) s)

/-- An application of the rule of that name obeys the law: a change ends the
offer, and without one the next rule has its turn. -/
def Applies (l : Law σ) (s : Session σ) (m : MethodId) (changed : Bool)
    (name : String) (rest : List (Rule σ)) :
    Except Fault Unit × Visit σ → Prop :=
  Meets (fun _ v =>
    if v.editor.dirty then l.during s m (.scanning true) (v.taken name).rewound
      else l.during s m (.offering changed rest) v)
    (fun v => l.broken v.session)

/-- A rule that has fired is counted, and the visit goes back. -/
theorem applies_fired {l : Law σ} {s : Session σ} {m : MethodId}
    {changed : Bool} {name : String} {rest : List (Rule σ)} {v : Visit σ}
    (hdirty : v.editor.dirty = true)
    (h : l.during s m (.scanning true) (v.taken name).rewound) :
    l.Applies s m changed name rest (.ok (), v) := by
  rw [Applies, Meets, if_pos hdirty]
  exact h

/-- A rule that has not fired passes the instruction on. -/
theorem applies_quiet {l : Law σ} {s : Session σ} {m : MethodId}
    {changed : Bool} {name : String} {rest : List (Rule σ)} {v : Visit σ}
    (hclean : v.editor.dirty = false)
    (h : l.during s m (.offering changed rest) v) :
    l.Applies s m changed name rest (.ok (), v) := by
  rw [Applies, Meets, if_neg (by simp [hclean])]
  exact h

/-- The steps of an optimiser obey a law. -/
structure Obeyed (l : Law σ) (o : Optimizer σ) : Prop where
  /-- The watcher changes nothing. -/
  unwatched : ∀ e v, o.watch e v = v.session.client
  /-- A method that has been visited is left alone. -/
  idle : ∀ {s}, l.ready s → l.returns s s
  /-- A method without code is only marked. -/
  skip : ∀ {s m}, l.ready s → s.progressOf m = .notVisited →
    (∀ b, (s.program.method m).body = some b → s.program.size b = 0) →
    l.returns s ((s.setProgress m .inProgress).setProgress m .done)
  start : ∀ {s m b}, l.ready s → s.progressOf m = .notVisited →
    (s.program.method m).body = some b → s.program.size b ≠ 0 → l.during s m
    (.scanning false) ⟨s.setProgress m .inProgress, { method := m, body := b }⟩
  advance : ∀ {s m changed v}, l.during s m (.scanning changed) v →
    v.more = true → l.during s m (.offering changed o.rules) v.advanced
  apply : ∀ {s m changed r rest v fuel}, l.Calls (o.optimize fuel) →
    r ∈ o.rules → l.during s m (.offering changed (r :: rest)) v →
    l.Applies s m changed r.name rest (r.apply (o.optimize fuel) v)
  decline : ∀ {s m changed v}, l.during s m (.offering changed []) v →
    l.during s m (.scanning changed) v
  restart : ∀ {s m v}, l.during s m (.scanning true) v → v.more = false →
    l.during s m (.scanning false) v.advanced.restarted
  finish : ∀ {s m v}, l.during s m (.scanning false) v → v.more = false →
    l.returns s (Optimizer.left m v.advanced.session)
  cut : ∀ {s m p v}, l.during s m p v → l.broken v.session
  refuse : ∀ {s}, l.ready s → l.broken s

variable {l : Law σ} {o : Optimizer σ} {s : Session σ} {m : MethodId}
  {changed : Bool} {v : Visit σ} {fuel : Nat}
  {optimize : Option MethodId → SessionM σ Unit}

/-- Telling a client of an event changes nothing else. -/
theorem Obeyed.notify (h : l.Obeyed o) (e : Event) (v : Visit σ) :
    o.notify e v = (.ok (), v) := by
  rw [Optimizer.notify_apply, h.unwatched]

/-- A rule is applied as the law says. -/
theorem Obeyed.applyRule (h : l.Obeyed o) {r : Rule σ} {rest : List (Rule σ)}
    (hcalls : l.Calls (o.optimize fuel)) (hr : r ∈ o.rules)
    (hv : l.during s m (.offering changed (r :: rest)) v) :
    l.Applies s m changed r.name rest (o.applyRule (o.optimize fuel) r v) := by
  have happly := h.apply hcalls hr hv
  rw [Optimizer.applyRule]
  simp only [h.notify]
  exact happly.within _

/-- An offer is declined by all rules, or ends with a change. -/
theorem Obeyed.offerTo (h : l.Obeyed o) (hcalls : l.Calls (o.optimize fuel))
    {rules : List (Rule σ)} (hrules : ∀ r ∈ rules, r ∈ o.rules)
    (hv : l.during s m (.offering changed rules) v) : Meets (fun fired v' =>
      if fired then l.during s m (.scanning true) v'.rewound
        else l.during s m (.scanning changed) v')
      (fun v' => l.broken v'.session)
        (o.offerTo (o.optimize fuel) rules v) := by
  induction rules generalizing v with
  | nil => exact h.decline hv
  | cons r rest ih =>
      have happly := h.applyRule hcalls (hrules r List.mem_cons_self) hv
      rw [Optimizer.offerTo_cons]
      generalize o.applyRule (o.optimize fuel) r v = x at happly
      obtain ⟨e | ⟨⟩, v'⟩ := x
      · exact happly
      · rw [Applies, Meets] at happly
        simp only
        split
        · next hdirty =>
            rw [if_pos hdirty] at happly
            exact happly
        · next hdirty =>
            rw [if_neg hdirty] at happly
            exact ih (fun r hr => hrules r (List.mem_cons_of_mem _ hr)) happly

/-- An instruction is offered as the law says. -/
theorem Obeyed.offer (h : l.Obeyed o) (hcalls : l.Calls (o.optimize fuel))
    (hv : l.during s m (.offering changed o.rules) v) : Meets (fun fired v' =>
      if fired then l.during s m (.scanning true) v'.rewound
        else l.during s m (.scanning changed) v')
      (fun v' => l.broken v'.session) (o.offer (o.optimize fuel) v) := by
  rw [Optimizer.offer, bind_apply, h.notify]
  exact h.offerTo hcalls (fun _ hr => hr) hv

/-- A scan ends at the end of the body, with no change since its start. -/
theorem Obeyed.scan (h : l.Obeyed o) (hcalls : l.Calls (o.optimize fuel))
    (steps : Nat) (hv : l.during s m (.scanning changed) v) :
    Meets (fun _ v' => ∃ v₁, l.during s m (.scanning false) v₁ ∧
      v₁.more = false ∧ v' = v₁.advanced) (fun v' =>
        l.broken v'.session) (o.scan (o.optimize fuel) steps changed v) := by
  induction steps generalizing changed v with
  | zero => exact ⟨Or.inr rfl, h.cut hv⟩
  | succ steps ih =>
      rw [Optimizer.scan_succ]
      split
      · next hmore =>
          have hoffer := h.offer hcalls (h.advance hv hmore)
          generalize o.offer (o.optimize fuel) v.advanced = x at hoffer
          obtain ⟨e | fired, v'⟩ := x
          · exact hoffer
          · cases fired with
            | true => exact ih hoffer
            | false => exact ih hoffer
      · next hmore =>
          cases changed with
          | true => exact ih (h.restart hv (by simpa using hmore))
          | false => exact ⟨v, hv, by simpa using hmore, rfl⟩

/-- **A visit** of a method keeps the law. -/
theorem Obeyed.visit (h : l.Obeyed o) (hcalls : l.Calls (o.optimize fuel))
    (steps : Nat) {b : BodyId} {t : Session σ}
    (hv : l.during s m (.scanning false) ⟨t, { method := m, body := b }⟩) :
    Meets (fun _ s' => l.returns s (Optimizer.left m s')) l.broken
    (o.visit (o.optimize fuel) steps m b t) := by
  have hscan := h.scan hcalls steps hv
  rw [Optimizer.visit]
  simp only [h.notify]
  generalize o.scan (o.optimize fuel) steps false ⟨t,
    { method := m, body := b }⟩ = x at hscan
  obtain ⟨e | ⟨⟩, v'⟩ := x
  · exact Meets.within (r := (.error e, v'.session)) hscan _
  · obtain ⟨v₁, hv₁, hmore, rfl⟩ := hscan
    exact h.finish hv₁ hmore

/-- **Calls obey the law.**  If the steps of an optimiser obey a law, so do its
calls, with any fuel. -/
theorem Obeyed.calls (h : l.Obeyed o) (fuel : Nat) :
    l.Calls (o.optimize fuel) := by
  induction fuel with
  | zero => exact fun m s hs => ⟨Or.inr rfl, h.refuse hs⟩
  | succ fuel ih =>
      intro m s hs
      rw [Optimizer.optimize_succ]
      split
      · next hm =>
          cases hbody : (s.program.method m).body with
          | none =>
              exact h.skip hs hm (fun b hb => by rw [hbody] at hb; cases hb)
          | some b =>
              simp only
              split
              · next hsize => exact h.skip hs hm (fun c hc => by
                  rw [hbody] at hc; cases hc; exact hsize)
              · next hsize =>
                  have hvisit := h.visit ih fuel (h.start hs hm hbody hsize)
                  generalize o.visit (o.optimize fuel) fuel m b
                    (s.setProgress m .inProgress) = x at hvisit
                  obtain ⟨e | ⟨⟩, s'⟩ := x
                  · exact hvisit
                  · exact hvisit
      · exact h.idle hs

/-- What every call keeps, calls one after the other keep. -/
theorem meets_forM {kept left : Session σ → Prop} (hcalls : ∀ m s, kept s →
      Meets (fun _ s' => kept s') left (o.optimize fuel (some m) s))
    (ms : List MethodId) (hs : kept s) : Meets (fun _ s' => kept s') left
    ((ms.forM fun m => o.optimize fuel (some m) : SessionM σ Unit) s) := by
  induction ms generalizing s with
  | nil => exact hs
  | cons m ms ih => exact Meets.bind (hcalls m s hs) (fun _ s' hs' => ih hs')

/-- What every call keeps, a run keeps, if it does not depend on how many
instructions have been counted. -/
theorem meets_run {kept left : Session σ → Prop} (hsizes : ∀ s x y, kept s →
      kept (s.count fun t => { t with before := x, after := y }))
    (hcalls : ∀ m s, kept s → Meets (fun _ s' => kept s')
      left (o.optimize fuel (some m) s)) (ms : List MethodId) (hs : kept s) :
    Meets (fun _ s' => kept s') left (o.run fuel ms s) := by
  have hbefore : kept (s.count
      fun t => { t with before := t.before + s.program.instrCount ms }) :=
    hsizes s _ s.stats.after hs
  have hforM := meets_forM hcalls ms hbefore
  rw [Optimizer.run_apply]
  generalize (ms.forM fun m => o.optimize fuel (some m) : SessionM σ Unit) _ =
    r at hforM
  obtain ⟨e | ⟨⟩, s'⟩ := r
  · exact hforM
  · exact hsizes s' s'.stats.before _ hforM

/-! ### A further invariant -/

/-- The law with an invariant of sessions besides: `kept` where calls and
applications end, `left` where they are broken off. -/
def keeping (l : Law σ) (kept left : Session σ → Prop) : Law σ where
  ready s := l.ready s ∧ kept s
  returns s s' := l.returns s s' ∧ kept s'
  broken s := l.broken s ∧ left s
  during s m p v := l.during s m p v ∧ kept v.session

variable {kept left : Session σ → Prop}

/-- What counting leaves is kept by a rule. -/
theorem applies_keeping {name : String} {rest : List (Rule σ)}
    {r : Except Fault Unit × Visit σ}
    (hcount : ∀ s f, kept s → kept (s.count f))
    (h : l.Applies s m changed name rest r)
    (hkept : Meets (fun _ v => kept v.session) (fun v => left v.session) r) :
    (l.keeping kept left).Applies s m changed name rest r := by
  refine (Meets.and h hkept).mono (fun _ v hv => ?_) (fun _ hv => hv)
  split
  · next hdirty =>
      rw [if_pos hdirty] at hv
      exact ⟨hv.1,
        hcount v.session (fun t => { t with fired := t.fired.bump name }) hv.2⟩
  · next hdirty =>
      rw [if_neg hdirty] at hv
      exact hv

/-- Only the applications of the rules have to be looked at for a further
invariant that does not depend on stages and counts. -/
theorem Obeyed.keeping (h : l.Obeyed o)
    (hmark : ∀ s m x, kept s → kept (s.setProgress m x))
    (hcount : ∀ s f, kept s → kept (s.count f)) (hleft : ∀ {s}, kept s → left s)
    (happly : ∀ {s m changed r rest v fuel},
      (l.keeping kept left).Calls (o.optimize fuel) → r ∈ o.rules →
      (l.keeping kept left).during s m (.offering changed (r :: rest)) v →
      Meets (fun _ v' => kept v'.session) (fun v' => left v'.session)
      (r.apply (o.optimize fuel) v)) : (l.keeping kept left).Obeyed o where
  unwatched := h.unwatched
  idle := fun hs => ⟨h.idle hs.1, hs.2⟩
  skip :=
    fun hs hm hbody => ⟨h.skip hs.1 hm hbody, hmark _ _ _ (hmark _ _ _ hs.2)⟩
  start :=
    fun hs hm hbody hsize => ⟨h.start hs.1 hm hbody hsize, hmark _ _ _ hs.2⟩
  advance := fun hv hmore => ⟨h.advance hv.1 hmore, hv.2⟩
  apply := fun {_ _ _ _ _ _ fuel} hcalls hr hv =>
    applies_keeping hcount (h.apply (h.calls fuel) hr hv.1)
      (happly hcalls hr hv)
  decline := fun hv => ⟨h.decline hv.1, hv.2⟩
  restart := fun hv hmore => ⟨h.restart hv.1 hmore, hv.2⟩
  finish := fun hv hmore => ⟨h.finish hv.1 hmore, hcount _ _ (hmark _ _ _ hv.2)⟩
  cut := fun hv => ⟨h.cut hv.1, hleft hv.2⟩
  refuse := fun hs => ⟨h.refuse hs.1, hleft hs.2⟩

end Law

/-! ### Requests -/

/-- Whether a computation has come back, with a result or with a failure, and
has not been broken off. -/
def returned {α : Type} : Except Fault α → Bool
  | .ok _ => true
  | .error (.failed _ _) => true
  | .error _ => false

namespace Optimizer

/-- What a client can ask of an optimiser. -/
inductive Request where
  | run (ms : List MethodId)
  | optimize (m : Option MethodId)

/-- Carries out a request. -/
def Request.perform {σ : Type} (o : Optimizer σ) (fuel : Nat) :
    Request → SessionM σ Unit
  | .run ms => o.run fuel ms
  | .optimize m => o.optimize fuel m

/-- The sessions that a sequence of requests leads to, each of which has come
back. -/
inductive Served {σ : Type} (o : Optimizer σ) (start : Session σ) :
    Session σ → Prop
  | start : Served o start start
  | request {s : Session σ} (fuel : Nat) (q : Request) : Served o start s →
    returned (q.perform o fuel s).1 = true → Served o start
    (q.perform o fuel s).2

variable {o : Optimizer σ} {good left : Session σ → Prop} {start s : Session σ}

section Sizes

variable (hsizes : ∀ s x y, good s → good (s.count
    fun t => { t with before := x, after := y })) (hleft : ∀ s, good s → left s)

include hsizes hleft

/-- What every call keeps, a request keeps, whether it comes back or is broken
off. -/
theorem perform_keeps (fuel : Nat) (hcalls : ∀ m s, good s →
      Meets (fun _ s' => good s') left (o.optimize fuel (some m) s))
    (hs : good s) (q : Request) : left (q.perform o fuel s).2 ∧
    (returned (q.perform o fuel s).1 = true → good (q.perform o fuel s).2) := by
  have hmeets : ∀ {x : Except Fault Unit × Session σ}, Meets (fun _ s' =>
      good s') left x → left x.2 ∧ (returned x.1 = true → good x.2) := by
    rintro ⟨e | ⟨⟩, s'⟩ h
    · obtain ⟨rfl | rfl, hbroken⟩ := h
      · exact ⟨hbroken, fun hr => by cases hr⟩
      · exact ⟨hbroken, fun hr => by cases hr⟩
    · exact ⟨hleft s' h, fun _ => h⟩
  cases q with
  | run ms => exact hmeets (Law.meets_run hsizes hcalls ms hs)
  | optimize m =>
      cases m with
      | some m => exact hmeets (hcalls m s hs)
      | none =>
          cases fuel with
          | zero => exact ⟨hleft s hs, fun _ => hs⟩
          | succ fuel => exact ⟨hleft s hs, fun _ => hs⟩

/-- What every call keeps, a sequence of requests keeps. -/
theorem Served.keeps (hs : Served o start s) (hcalls : ∀ fuel m s, good s →
      Meets (fun _ s' => good s') left (o.optimize fuel (some m) s))
    (hstart : good start) : good s := by
  induction hs with
  | start => exact hstart
  | request fuel q _ hr ih =>
      exact (perform_keeps hsizes hleft fuel (hcalls fuel) ih q).2 hr

end Sizes

/-- What every call keeps and no count matters to, a request keeps. -/
theorem perform_kept (hcount : ∀ s f, good s → good (s.count f))
    (hleft : ∀ s, good s → left s) (fuel : Nat) (hcalls : ∀ m s, good s →
      Meets (fun _ s' => good s') left (o.optimize fuel (some m) s))
    (hs : good s) (q : Request) : left (q.perform o fuel s).2 ∧
    (returned (q.perform o fuel s).1 = true → good (q.perform o fuel s).2) :=
  perform_keeps (fun s _ _ => hcount s _) hleft fuel hcalls hs q

/-- **What a request keeps** is kept by all that are served. -/
theorem Served.kept (hs : Served o start s)
    (hcount : ∀ s f, good s → good (s.count f)) (hleft : ∀ s, good s → left s)
    (hcalls : ∀ fuel m s, good s → Meets (fun _ s' => good s')
      left (o.optimize fuel (some m) s)) (hstart : good start) : good s :=
  hs.keeps (fun s _ _ => hcount s _) hleft hcalls hstart

end Optimizer

end Bytecode
