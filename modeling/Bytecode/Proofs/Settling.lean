import Bytecode.Proofs.Visiting

/-!
# Calls that come to an end

A computation with fuel settles when from some fuel on it always gives the same
answer; which failures may be among the answers is said each time.  A scan
settles if the visit has a rank that goes down with every change: an offer
without a change brings the cursor nearer to the end of the body, and a scan
with changes is followed by one that starts without any.  The rules have to
settle on their own, which for the inliner means that the callee's visit
settles.
-/

namespace Bytecode

section Settles

variable {α β S ι : Type} [SemilatticeSup ι] {good good' : α → S → Prop}
  {goal : β → S → Prop} {bad : Fault → Prop}

/-- From some fuel on the answer is the same; it is a good one, or a failure of
those that are allowed for. -/
def Settles (good : α → S → Prop) (bad : Fault → Prop)
    (x : ι → Except Fault α × S) : Prop :=
  ∃ n r, (∀ k, n ≤ k → x k = r) ∧ (∀ a s, r = (.ok a, s) → good a s) ∧
    ∀ e, r.1 = .error e → bad e

/-- An action that settles into more settles into less. -/
theorem Settles.mono {x : ι → Except Fault α × S} (h : Settles good bad x)
    (hgood : ∀ a s, good a s → good' a s) : Settles good' bad x := by
  obtain ⟨n, r, hn, hr, hbad⟩ := h
  exact ⟨n, r, hn, fun a s hs => hgood a s (hr a s hs), hbad⟩

/-- Actions that are equal settle alike. -/
theorem Settles.congr {x y : ι → Except Fault α × S} (h : Settles good bad x)
    (heq : ∀ n, y n = x n) : Settles good bad y := by
  rwa [funext heq]

/-- What holds of the answer whatever the fuel holds of the answer it settles
on. -/
theorem Settles.meets {left : S → Prop} {x : ι → Except Fault α × S}
    (h : Settles good bad x) (hmeets : ∀ k, Meets good' left (x k)) :
    Settles (fun a s => good a s ∧ good' a s) bad x := by
  obtain ⟨n, r, hn, hr, hbad⟩ := h
  refine ⟨n, r, hn, fun a s hs => ⟨hr a s hs, ?_⟩, hbad⟩
  have hx := hmeets n
  rw [hn n le_rfl, hs] at hx
  exact hx

/-- An answer that does not depend on the fuel. -/
theorem settles_of_eq [Nonempty ι] {x : ι → Except Fault α × S} {a : α} {s : S}
    (hx : ∀ n, x n = (.ok a, s)) (h : good a s) : Settles good bad x := by
  refine ⟨Classical.arbitrary ι, (.ok a, s), fun n _ => hx n,
    fun a' s' heq => ?_, ?_⟩
  · cases heq
    exact h
  · intro e he
    cases he

/-- One action settles after the other. -/
theorem Settles.bind {x : ι → Except Fault α × S} (h : Settles good bad x)
    (f : ι → α → S → Except Fault β × S)
    (hf : ∀ a s, good a s → Settles goal bad fun n => f n a s) :
    Settles goal bad fun n => match x n with
      | (.ok a, s) => f n a s
      | (.error e, s) => (.error e, s) := by
  obtain ⟨n, ⟨e | a, s⟩, hn, hr, hbad⟩ := h
  · refine ⟨n, (.error e, s), fun k hk => ?_, fun a s hs => (by cases hs),
      fun e' he => ?_⟩
    · simp only [hn k hk]
    · cases he
      exact hbad e rfl
  · obtain ⟨n', r, hn', hr', hbad'⟩ := hf a s (hr a s rfl)
    refine ⟨n ⊔ n', r, fun k hk => ?_, hr', hbad'⟩
    simp only [hn k (le_sup_left.trans hk)]
    exact hn' k (le_sup_right.trans hk)

/-- A computation that goes on with another. -/
theorem Settles.andThen {x : ι → ExceptT Fault (StateM S) α}
    {f : ι → α → ExceptT Fault (StateM S) β} {s : S}
    (h : Settles good bad fun n => x n s)
    (hf : ∀ a s', good a s' → Settles goal bad fun n => f n a s') :
    Settles goal bad fun n => (x n >>= f n) s :=
  (h.bind (fun n a s' => f n a s') hf).congr fun n => by
    rw [bind_apply]
    obtain ⟨e | a, s'⟩ := x n s
    · rfl
    · rfl

/-- What a failure is part of is settled with it. -/
theorem Settles.within {x : ι → Except Fault α × S} (h : Settles good bad x)
    (hbad : ∀ c e, bad e → bad (Fault.within c e)) (circumstance : S → String) :
    Settles good bad fun n =>
      ((x n).1.mapError (Fault.within (circumstance (x n).2)), (x n).2) := by
  obtain ⟨n, r, hn, hr, hfail⟩ := h
  refine ⟨n, (r.1.mapError (Fault.within (circumstance r.2)), r.2),
    fun k hk => ?_, ?_, ?_⟩
  · simp only [hn k hk]
  · intro a s hs
    obtain ⟨e | a', s'⟩ := r
    · cases hs
    · exact hr a s hs
  · intro e he
    obtain ⟨e' | a', s'⟩ := r
    · cases he
      exact hbad _ e' (hfail e' rfl)
    · cases he

/-- One of two kinds of fuel is not used. -/
theorem Settles.fst {x : Nat → Except Fault α × S} (h : Settles good bad x) :
    Settles good bad fun k : Nat × Nat => x k.1 := by
  obtain ⟨n, r, hn, hr⟩ := h
  exact ⟨(n, 0), r, fun k hk => hn k.1 (Prod.le_def.mp hk).1, hr⟩

/-- A turn takes one unit of the second kind of fuel. -/
theorem Settles.turn {x y : Nat × Nat → Except Fault α × S}
    (h : Settles good bad y) (hturn : ∀ n k, x (n, k + 1) = y (n, k)) :
    Settles good bad x := by
  obtain ⟨n, r, hn, hr⟩ := h
  refine ⟨(n.1, n.2 + 1), r, fun k hk => ?_, hr⟩
  obtain ⟨k₁, k₂⟩ := k
  obtain ⟨hk₁, hk₂⟩ := Prod.le_def.mp hk
  cases k₂ with
  | zero => exact absurd hk₂ (by simp)
  | succ k₂ =>
      rw [hturn]
      exact hn (k₁, k₂) (Prod.le_def.mpr ⟨hk₁, Nat.le_of_succ_le_succ hk₂⟩)

end Settles

variable {σ : Type}

/-! ### The way ahead of the cursor -/

/-- The head of a list is at its beginning. -/
theorem idxOf_head? {l : List InstrId} {i : InstrId} (h : l.head? = some i) :
    l.idxOf i = 0 := by
  cases l with
  | nil => cases h
  | cons j l =>
      cases h
      exact List.idxOf_cons_self

/-- What follows an element is one place on. -/
theorem idxOf_elemAfter? {l : List InstrId} {i k : InstrId} (hl : l.Nodup)
    (hi : i ∈ l) (h : elemAfter? i l = some k) : l.idxOf k = l.idxOf i + 1 := by
  obtain ⟨pre, post, rfl, hpre, hpost⟩ := exists_cut hl hi
  have hki := elemAfter?_ne hl h
  have hk : k ∉ pre := by
    intro hk
    rw [elemAfter?_cut hpre] at h
    exact (List.disjoint_of_nodup_append hl) hk
      (List.mem_cons_of_mem _ (List.mem_of_head? h))
  rw [elemAfter?_cut hpre] at h
  rw [List.idxOf_append_of_notMem hpre, List.idxOf_append_of_notMem hk,
    List.idxOf_cons_self, List.idxOf_cons_ne _ hki.symm, idxOf_head? h]

namespace Visit

variable {v v' : Visit σ}

/-- How many instructions the cursor has passed. -/
def passed (v : Visit σ) : Nat :=
  match v.editor.pos with
  | none => 0
  | some i => v.editing.code.idxOf i + 1

/-- What has been passed is the instruction under the cursor, or has been passed
before it. -/
theorem mem_passed {i k : InstrId} (hpos : v.editor.pos = some i)
    (hi : i ∈ v.editing.code) (hk : k ∈ v.editing.code.take v.passed) :
    k ∈ v.editing.code.take (v.passed - 1) ∨ k = i := by
  have hpassed : v.passed = v.editing.code.idxOf i + 1 := by rw [passed, hpos]
  rw [hpassed, List.take_add_one, List.mem_append] at hk
  rw [hpassed, Nat.add_sub_cancel]
  refine hk.imp_right fun hk => ?_
  rw [List.getElem?_eq_getElem (List.idxOf_lt_length_iff.mpr hi),
    List.getElem_idxOf] at hk
  simpa using hk

/-- How many instructions the cursor has before it. -/
def ahead (v : Visit σ) : Nat := v.editing.code.length - v.passed

/-- What is ahead depends on the code and the cursor. -/
theorem ahead_congr (hcode : v'.editing.code = v.editing.code)
    (hpos : v'.editor.pos = v.editor.pos) : v'.ahead = v.ahead := by
  rw [ahead, ahead, passed, passed, hcode, hpos]

/-- One instruction more has been passed. -/
theorem Steady.passed_advanced (h : v.Steady) (hmore : v.more = true) :
    v.advanced.passed = v.passed + 1 := by
  have hp : v.session.program.WellLinked := h.sound.linked
  obtain ⟨i, hi⟩ := Option.isSome_iff_exists.mp hmore
  have hpassed : v.advanced.passed = v.editing.code.idxOf i + 1 := by
    have hpos : v.advanced.editor.pos = some i := hi
    rw [passed, hpos]
    rfl
  have hnext : v.advanced.editor.target = some i := hi
  rw [h.target_advanced_eq] at hnext
  rw [hpassed, passed]
  cases hpos : v.editor.pos with
  | none =>
      rw [hpos] at hnext
      rw [idxOf_head? (l := v.editing.code) hnext]
  | some k =>
      rw [hpos] at hnext
      rw [idxOf_elemAfter? (l := v.editing.code) (hp.nodup_code _)
        (h.inside.pos k hpos) hnext]

/-- Less is ahead when a visit moves on. -/
theorem Steady.ahead_advanced (h : v.Steady) (hmore : v.more = true) :
    v.advanced.ahead < v.ahead := by
  obtain ⟨i, hi⟩ := Option.isSome_iff_exists.mp hmore
  have hmem : v.editing.code.idxOf i < v.editing.code.length :=
    List.idxOf_lt_length_iff.mpr (h.mem_next hi)
  have hpassed : v.advanced.passed = v.editing.code.idxOf i + 1 := by
    have hpos : v.advanced.editor.pos = some i := hi
    rw [passed, hpos]
    rfl
  have hone := h.passed_advanced hmore
  have hcode : v.advanced.editing.code = v.editing.code := rfl
  rw [ahead, ahead, hcode]
  omega

end Visit

/-! ### Ranks -/

/-- Visits of `m` that a law describes have a rank that goes down with every
change. -/
structure Law.Descends {ω : Type} (l : Law σ) (o : Optimizer σ) (s : Session σ)
    (m : MethodId) (lt : ω → ω → Prop) (rank : Visit σ → ω)
    (bad : Fault → Prop) : Prop where
  wf : WellFounded lt
  failing : ∀ c e, bad e → bad (Fault.within c e)
  steady : ∀ {p v}, l.during s m p v → v.Steady
  /-- Neither cursor nor counts matter. -/
  unmoved : ∀ {v v' : Visit σ}, v'.session.program = v.session.program →
    v'.session.progress = v.session.progress →
    v'.session.memo = v.session.memo → v'.editor.body = v.editor.body →
    v'.editor.inlined = v.editor.inlined → rank v' = rank v
  /-- A rule settles; without a change of rank it has left the cursor where it
  was. -/
  apply : ∀ {changed r rest v}, r ∈ o.rules → l.during s m (.offering changed
    (r :: rest)) v → Settles (fun _ v' => lt (rank v') (rank v) ∨
      rank v' = rank v ∧ v'.ahead = v.ahead ∧ v'.editor.dirty = false)
    bad fun n => r.apply (o.optimize n) v

namespace Law

variable {ω : Type} {l : Law σ} {o : Optimizer σ} {s : Session σ} {m : MethodId}
  {lt : ω → ω → Prop} {rank : Visit σ → ω} {changed : Bool} {v v' : Visit σ}
  {bad : Fault → Prop}

/-- The rank has gone down, or cursor and rank are where they were. -/
def Falls (lt : ω → ω → Prop) (rank : Visit σ → ω) (v v' : Visit σ) : Prop :=
  Relation.TransGen lt (rank v') (rank v) ∨ rank v' = rank v ∧
    v'.ahead = v.ahead

/-- One fall after the other. -/
theorem Falls.trans {v'' : Visit σ} (h : Falls lt rank v v')
    (h' : Falls lt rank v' v'') : Falls lt rank v v'' := by
  rcases h with h | ⟨h, hahead⟩
  · left
    rcases h' with h' | ⟨h', -⟩
    · exact h'.trans h
    · rwa [h']
  · rcases h' with h' | ⟨h', hahead'⟩
    · left
      rwa [← h]
    · exact Or.inr ⟨h'.trans h, hahead'.trans hahead⟩

/-- What is known of an offer that has come to its end. -/
def Offered (l : Law σ) (s : Session σ) (m : MethodId) (lt : ω → ω → Prop)
    (rank : Visit σ → ω) (changed : Bool) (v : Visit σ) (fired : Bool)
    (v' : Visit σ) : Prop :=
  if fired then l.during s m (.scanning true) v'.rewound ∧
    Relation.TransGen lt (rank v'.rewound) (rank v)
  else l.during s m (.scanning changed) v' ∧ Falls lt rank v v'

/-- A rule settles, and the rank has fallen if it has fired. -/
theorem Descends.applyRule (hd : l.Descends o s m lt rank bad) (h : l.Obeyed o)
    {r : Rule σ} {rest : List (Rule σ)} (hr : r ∈ o.rules)
    (hv : l.during s m (.offering changed (r :: rest)) v) :
    Settles (fun _ v' => (lt (rank v') (rank v) ∨
      rank v' = rank v ∧ v'.ahead = v.ahead ∧ v'.editor.dirty = false) ∧
      if v'.editor.dirty then
        l.during s m (.scanning true) (v'.taken r.name).rewound
        else l.during s m (.offering changed rest) v')
      bad fun n => o.applyRule (o.optimize n) r v := by
  have hmeets :
      ∀ n, l.Applies s m changed r.name rest (r.apply (o.optimize n) v) :=
    fun n => h.apply (h.calls n) hr hv
  have hsettles := (hd.apply hr hv).meets hmeets
  have hwithin := hsettles.within hd.failing fun v' => r.name ++ " at " ++
    v'.session.program.textOrNil v.editor.target
  refine hwithin.congr fun n => ?_
  rw [Optimizer.applyRule]
  simp only [h.notify]
  rfl

/-- An offer settles: it ends with a change and a lower rank, or is declined by
all rules. -/
theorem Descends.offerTo (hd : l.Descends o s m lt rank bad) (h : l.Obeyed o)
    {rules : List (Rule σ)} (hrules : ∀ r ∈ rules, r ∈ o.rules)
    (hv : l.during s m (.offering changed rules) v) :
    Settles (l.Offered s m lt rank changed v) bad fun n =>
    o.offerTo (o.optimize n) rules v := by
  induction rules generalizing v with
  | nil =>
      refine settles_of_eq (fun _ => rfl) ?_
      rw [Offered, if_neg (by simp)]
      exact ⟨h.decline hv, Or.inr ⟨rfl, rfl⟩⟩
  | cons r rest ih =>
      have happly := hd.applyRule h (hrules r List.mem_cons_self) hv
      refine (happly.bind
        (fun n _ v' => if v'.editor.dirty then (.ok true, v'.taken r.name)
        else o.offerTo (o.optimize n) rest v') ?_).congr fun n => ?_
      · rintro ⟨⟩ v' ⟨hrank, hv'⟩
        by_cases hdirty : v'.editor.dirty = true
        · simp only [if_pos hdirty] at hv' ⊢
          refine settles_of_eq (fun _ => rfl) ?_
          rw [Offered, if_pos rfl]
          refine ⟨hv', ?_⟩
          have hunmoved : rank (v'.taken r.name).rewound = rank v' :=
            hd.unmoved rfl rfl rfl rfl rfl
          rw [hunmoved]
          rcases hrank with hrank | ⟨-, -, hclean⟩
          · exact .single hrank
          · rw [hclean] at hdirty
            cases hdirty
        · simp only [if_neg hdirty] at hv' ⊢
          have hfalls : Falls lt rank v v' := by
            rcases hrank with hrank | ⟨hrank, hahead, -⟩
            · exact Or.inl (.single hrank)
            · exact Or.inr ⟨hrank, hahead⟩
          refine (ih (fun r hr => hrules r (List.mem_cons_of_mem _ hr))
            hv').mono ?_
          intro fired v'' hend
          rw [Offered] at hend ⊢
          split
          · next hfired =>
              rw [if_pos hfired] at hend
              refine ⟨hend.1, ?_⟩
              rcases hfalls with hlow | ⟨hsame, -⟩
              · exact hend.2.trans hlow
              · rw [← hsame]
                exact hend.2
          · next hfired =>
              rw [if_neg hfired] at hend
              exact ⟨hend.1, hfalls.trans hend.2⟩
      · rw [Optimizer.offerTo_cons]
        obtain ⟨e | ⟨⟩, v'⟩ := o.applyRule (o.optimize n) r v
        · rfl
        · rfl

/-- An offer settles. -/
theorem Descends.offer (hd : l.Descends o s m lt rank bad) (h : l.Obeyed o)
    (hv : l.during s m (.offering changed o.rules) v) :
    Settles (l.Offered s m lt rank changed v) bad fun n =>
    o.offer (o.optimize n) v := by
  refine (hd.offerTo h (fun _ hr => hr) hv).congr fun n => ?_
  rw [Optimizer.offer, bind_apply, h.notify]

/-- What a scan comes nearer to its end by: the rank, the changes and the way
ahead. -/
def Nearer (lt : ω → ω → Prop) : ω × Nat × Nat → ω × Nat × Nat → Prop :=
  Prod.Lex (Relation.TransGen lt) (Prod.Lex (· < ·) (· < ·))

/-- Coming nearer ends. -/
theorem wellFounded_nearer (hwf : WellFounded lt) : WellFounded (Nearer lt) :=
  WellFounded.prod_lex hwf.transGen
    (WellFounded.prod_lex wellFounded_lt wellFounded_lt)

/-- **A scan settles.** -/
theorem Descends.scan (hd : l.Descends o s m lt rank bad) (h : l.Obeyed o)
    (hv : l.during s m (.scanning changed) v) : Settles (fun _ _ => True) bad
    fun k : Nat × Nat => o.scan (o.optimize k.1) k.2 changed v := by
  obtain ⟨place, hplace⟩ : ∃ place, place = (rank v, changed.toNat, v.ahead) :=
    ⟨_, rfl⟩
  induction place using (wellFounded_nearer hd.wf).induction
    generalizing changed v with
  | _ place ih =>
      subst hplace
      by_cases hmore : v.more = true
      · have hrank : rank v.advanced = rank v := hd.unmoved rfl rfl rfl rfl rfl
        have hahead := (hd.steady hv).ahead_advanced hmore
        refine ((hd.offer h (h.advance hv hmore)).fst.bind
          (fun k fired v' => o.scan (o.optimize k.1) k.2 (fired || changed)
            (if fired then v'.rewound else v')) ?_).turn fun n k => ?_
        rotate_left
        · rw [Optimizer.scan_succ, if_pos hmore]
          obtain ⟨e | fired, v'⟩ := o.offer (o.optimize n) v.advanced
          · rfl
          · cases fired with
            | true => rfl
            | false => rfl
        · intro fired v' hend
          rw [Offered, hrank] at hend
          cases fired with
          | true => exact ih _ (Prod.Lex.left _ _ hend.2) hend.1 rfl
          | false =>
              refine ih (rank v', changed.toNat, v'.ahead) ?_ hend.1 rfl
              rcases hend.2 with hlow | ⟨hsame, hstay⟩
              · rw [hrank] at hlow
                exact Prod.Lex.left _ _ hlow
              · rw [hsame, hrank, hstay]
                exact Prod.Lex.right _ (Prod.Lex.right _ hahead)
      · have hmore' : v.more = false := by simpa using hmore
        cases changed with
        | true =>
            have hrank : rank v.advanced.restarted = rank v :=
              hd.unmoved rfl rfl rfl rfl rfl
            have hnext :=
              ih (rank v.advanced.restarted, 0, v.advanced.restarted.ahead) (by
              rw [hrank]
              exact Prod.Lex.right _ (Prod.Lex.left _ _ (by simp)))
                (h.restart hv hmore') rfl
            refine hnext.turn fun n k => ?_
            rw [Optimizer.scan_succ, if_neg hmore, if_pos rfl]
        | false =>
            have hend : Settles (fun _ _ => True) bad fun _ : Nat × Nat =>
                ((.ok (), v.advanced) : Except Fault Unit × Visit σ) :=
              settles_of_eq (fun _ => rfl) trivial
            refine hend.turn fun n k => ?_
            rw [Optimizer.scan_succ, if_neg hmore, if_neg (by simp)]

/-- **A visit** settles if every rule that fires descends. -/
theorem Descends.visit (hd : l.Descends o s m lt rank bad) (h : l.Obeyed o)
    {b : BodyId} {t : Session σ}
    (hv : l.during s m (.scanning false) ⟨t, { method := m, body := b }⟩) :
    Settles (fun _ _ => True) bad fun n => o.visit (o.optimize n) n m b t := by
  obtain ⟨n, r, hn, -, hfail⟩ := (hd.scan h hv).within hd.failing fun v =>
    "optimize " ++ (v.session.program.method m).fullName
  refine ⟨n.1 ⊔ n.2, (r.1, r.2.session), fun k hk => ?_,
    fun _ _ _ => trivial, hfail⟩
  have hk' : n ≤ (k, k) :=
    Prod.le_def.mpr ⟨le_sup_left.trans hk, le_sup_right.trans hk⟩
  rw [← hn (k, k) hk']
  change o.visit (o.optimize k) k m b t = _
  rw [Optimizer.visit]
  simp only [h.notify]
  rfl

/-- **A call settles** if its visit descends. -/
theorem settles_optimize (h : l.Obeyed o) (hs : l.ready s)
    (hd : s.progressOf m = .notVisited → l.Descends o s m lt rank bad) :
    Settles (fun _ _ => True) bad fun n => o.optimize n (some m) s := by
  have hturn : Settles (fun _ _ => True) bad fun n =>
      o.optimize (n + 1) (some m) s := by
    by_cases hm : s.progressOf m = .notVisited
    · cases hbody : (s.program.method m).body with
      | none =>
          apply settles_of_eq (a := ())
            (s := (s.setProgress m .inProgress).setProgress m .done) _ trivial
          intro n
          rw [Optimizer.optimize_succ, if_pos hm, hbody]
      | some b =>
          by_cases hsize : s.program.size b = 0
          · apply settles_of_eq (a := ())
              (s := (s.setProgress m .inProgress).setProgress m .done) _ trivial
            intro n
            rw [Optimizer.optimize_succ, if_pos hm, hbody]
            exact if_pos hsize
          · have hvisit : Settles (fun _ _ => True) bad _ :=
              ((hd hm).visit h (h.start hs hm hbody hsize)).bind
              (fun _ _ s' => (.ok (), Optimizer.left m s'))
              (fun _ _ _ => settles_of_eq (fun _ => rfl) trivial)
            refine hvisit.congr fun n => ?_
            rw [Optimizer.optimize_succ, if_pos hm, hbody]
            simp only [if_neg hsize]
            obtain ⟨e | ⟨⟩, s'⟩ :=
              o.visit (o.optimize n) n m b (s.setProgress m .inProgress)
            · rfl
            · rfl
    · apply settles_of_eq (a := ()) (s := s) _ trivial
      intro n
      rw [Optimizer.optimize_succ, if_neg hm]
  obtain ⟨n, r, hn, hr⟩ := hturn
  refine ⟨n + 1, r, fun k hk => ?_, hr⟩
  cases k with
  | zero => exact absurd hk (by simp)
  | succ k => exact hn k (Nat.le_of_succ_le_succ hk)

end Law

end Bytecode
