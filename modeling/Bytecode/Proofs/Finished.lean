import Bytecode.Proofs.Callees
import Bytecode.Proofs.Decisions
import Bytecode.Proofs.Offering
import Bytecode.Proofs.Visiting

/-!
# Methods that have been finished

A body ends stopped when control cannot run past its last instruction.  Every
local pass and the inliner keep a body ended like that: the last instruction
stays last, or an exit takes its place, or it goes because nothing leads to it,
and then what stands in front of it does not fall through either.

When the visit of a method has come to its end, the calls that are left in its
body are of few kinds: they lead back to the method itself, to a method that
will never be inlined, or to one that is finished later.  That is what keeps the
inliner from going in circles, and `Settled` says it of all finished methods.

`Orderly` is what is to hold of a session between visits; the lemmas here say
how it is kept when a method is started, changed and finished, and when the
policy is asked.
-/

namespace Bytecode

/-! ### The end of a body -/

namespace Program

variable {p q : Program} {b : BodyId} {i j k mark : InstrId}

/-- Control does not run past the last instruction. -/
def Stops (p : Program) (b : BodyId) : Prop :=
  ∀ i ∈ (p.code b).getLast?, (p.instr i).fallsThrough = false

instance : Decidable (p.Stops b) :=
  inferInstanceAs (Decidable (∀ i ∈ (p.code b).getLast?, _))

/-- An instruction of a stopped body that falls through has one behind it. -/
theorem Stops.next (h : p.Stops b) (hp : p.WellLinked) (hi : i ∈ p.code b)
    (hfalls : (p.instr i).fallsThrough = true) : (p.next i).isSome := by
  obtain ⟨pre, post, hcut, hpre, -⟩ := exists_cut (hp.nodup_code b) hi
  rw [hp.next hi, hcut, elemAfter?_cut hpre]
  cases post with
  | nil =>
      rw [h i (by rw [hcut]; simp)] at hfalls
      cases hfalls
  | cons => rfl

/-- A body stops if another with the same code does. -/
theorem Stops.agree (h : p.Stops b) (hp : p.WellLinked) (hq : q.WellLinked)
    (hpq : AgreeOn b p q) : q.Stops b := by
  have hcode : q.code b = p.code b := by rw [hq.code, hpq.body, hp.code]
  intro i hi
  rw [hcode] at hi
  rw [hpq.instr i (by rw [← hp.code]; exact List.mem_of_getLast? hi)]
  exact h i hi

/-- The last instruction is still the last. -/
theorem Stops.of_last (h : p.Stops b) (hp : p.WellLinked)
    (hpq : ChangedIn b p q)
    (hlast : (q.code b).getLast? = (p.code b).getLast?) : q.Stops b := by
  intro i hi
  rw [hlast] at hi
  rw [Instr.fallsThrough, hpq.kind (hp.has (List.mem_of_getLast? hi))]
  exact h i hi

/-- The last element stays if it is not the one that is erased. -/
theorem getLast?_erase {l : List InstrId} (hl : l.Nodup) (hi : i ∈ l)
    (hnext : (elemAfter? i l).isSome) : (l.erase i).getLast? = l.getLast? := by
  obtain ⟨pre, post, rfl, hpre, -⟩ := exists_cut hl hi
  rw [elemAfter?_cut hpre] at hnext
  cases post with
  | nil => cases hnext
  | cons y post =>
      rw [erase_cut hpre, List.getLast?_append_cons, List.getLast?_append_cons,
        List.getLast?_cons_cons]

/-- The last element is replaced if it is the one. -/
theorem getLast?_replace {l : List InstrId} (hl : l.Nodup) (hi : i ∈ l)
    (j : InstrId) :
    (l.replace i j).getLast? = if elemAfter? i l = none then some j else
        l.getLast? := by
  obtain ⟨pre, post, rfl, hpre, -⟩ := exists_cut hl hi
  rw [replace_cut hpre, elemAfter?_cut hpre]
  cases post with
  | nil => simp
  | cons y post => simp

/-- The last element stays if something is put in front of another. -/
theorem getLast?_insertFront {l : List InstrId} (hl : l.Nodup)
    (hmark : mark ∈ l) (j : InstrId) :
    (insertFront mark j l).getLast? = l.getLast? := by
  obtain ⟨pre, post, rfl, hpre, -⟩ := exists_cut hl hmark
  rw [insertFront_cut hpre, List.getLast?_append_cons,
    List.getLast?_append_cons, List.getLast?_cons_cons]

/-- A body still stops without an instruction that others follow. -/
theorem Stops.without (h : p.Stops b) (hp : p.WellLinked) (hi : i ∈ p.code b)
    (hnext : (p.next i).isSome) : (p.without b i).Stops b := by
  refine h.of_last hp (changedIn_without hp hi) ?_
  rw [code_without hp hi]
  exact getLast?_erase (hp.nodup_code b) hi (by rwa [← hp.next hi])

/-- What is never reached can go, even from the end. -/
theorem Stops.without_unreached (h : p.Stops b) (hp : p.WellLinked)
    (hi : i ∈ p.code b)
    (hprev : ∀ k, p.prev i = some k → (p.instr k).fallsThrough = false) :
    (p.without b i).Stops b := by
  by_cases hnext : (p.next i).isSome
  · exact h.without hp hi hnext
  · obtain ⟨pre, post, hcut, hpre, -⟩ := exists_cut (hp.nodup_code b) hi
    rw [hp.next hi, hcut, elemAfter?_cut hpre] at hnext
    have hpost : post = [] := by
      cases post with
      | nil => rfl
      | cons => exact absurd rfl hnext
    subst hpost
    intro k hk
    rw [code_without hp hi, hcut, erase_cut hpre, List.append_nil] at hk
    have hkc : k ∈ p.code b := by
      rw [hcut]
      exact List.mem_append_left _ (List.mem_of_getLast? hk)
    rw [Instr.fallsThrough, (changedIn_without hp hi).kind (hp.has hkc)]
    apply hprev k
    rw [hp.prev hi, hcut, elemBefore?_cut hpre]
    exact hk

/-- An instruction has been put in the place of one that was not the last, or it
does not fall through itself. -/
theorem Stops.renewed (h : p.Stops b) (hp : p.WellLinked) (hi : i ∈ p.code b)
    (op : Opcode) (o : Operand)
    (hop : (p.next i).isSome ∨ op.kind.fallsThrough = false) :
    (p.renewed b i op o).Stops b := by
  have hnew := hp.newInstr op o
  have hi' : i ∈ (p.newInstr op o).2.code b := by rwa [hp.code_newInstr]
  have hchanged :=
    changedIn_exchange hnew hi' (has_newInstr op o) (owner_fresh op o)
  have hstops := h.agree hp hnew ⟨rfl, fun k hk => instr_newInstr_of_has op o
    (has_of_owner ((hp.owned b k).mp hk))⟩
  have hlast := getLast?_replace (hnew.nodup_code b) hi' (p.newInstr op o).1
  have hcode : (p.renewed b i op o).code b =
      (p.code b).replace i (p.newInstr op o).1 := by
    rw [Program.renewed, code_exchange hnew hi', hp.code_newInstr]
  rw [hp.code_newInstr op o b] at hlast
  rcases hop with hnext | hexit
  · refine hstops.of_last hnew hchanged ?_
    rw [hcode, hp.code_newInstr op o b, hlast, if_neg]
    rw [← hp.next hi]
    intro hnone
    rw [hnone] at hnext
    cases hnext
  · by_cases hnext : elemAfter? i (p.code b) = none
    · intro k hk
      rw [hcode, hlast, if_pos hnext] at hk
      cases hk
      have hkind : ((p.renewed b i op o).instr (p.newInstr op o).1).kind =
          op.kind := by
        rw [Program.renewed, hchanged.kind (has_newInstr op o), instr_newInstr,
          if_pos rfl]
        rfl
      rw [Instr.fallsThrough, hkind]
      exact hexit
    · refine hstops.of_last hnew hchanged ?_
      rw [hcode, hp.code_newInstr op o b, hlast, if_neg hnext]

/-- A body still stops with an instruction in front of another. -/
theorem Stops.withNew (h : p.Stops b) (hp : p.WellLinked)
    (hmark : mark ∈ p.code b) (op : Opcode) (o : Operand) :
    (p.withNew b mark op o).Stops b := by
  refine h.of_last hp (changedIn_withNew hp hmark op o) ?_
  rw [code_withNew hp hmark]
  exact getLast?_insertFront (hp.nodup_code b) hmark _

/-- A body still stops with pops in front of another. -/
theorem Stops.withPops (h : p.Stops b) (hp : p.WellLinked)
    (hmark : mark ∈ p.code b) (n : Nat) : (withPops b mark n p).Stops b := by
  induction n generalizing p with
  | zero => exact h
  | succ n ih =>
      exact ih (h.withNew hp hmark _ _) (hp.withNew hmark _ _)
        ((mem_code_withNew hp hmark _ _).mpr (Or.inr hmark))

/-- Branches stay branches at the end of a body. -/
theorem Stops.redirect (h : p.Stops b) (hp : p.WellLinked)
    (old new : Option InstrId) : (p.redirect b old new).Stops b :=
  h.of_last hp (changedIn_redirect hp b old new) (by rw [code_redirect])

end Program

/-- **Local passes keep the end of a body stopped.** -/
theorem Editing.Effect.stops {s : Editing} {i : InstrId} {pass : Pass}
    {q : Program} (he : s.Effect i pass q) (hs : s.Sound) (hi : i ∈ s.code)
    (h : s.program.Stops s.editor.body) : q.Stops s.editor.body := by
  have hp := hs.linked
  cases he with
  | exit _ _ hexit =>
      refine h.renewed hp hi _ _ (Or.inr ?_)
      rcases hexit with hexit | hexit
      · rw [show Opcode.kind _ = .ret from hexit]
        rfl
      · rw [show Opcode.kind _ = .throws from hexit]
        rfl
  | jump _ hnext => exact h.without hp hi (by rw [hnext]; rfl)
  | pops _ hnext =>
      have hnew := hp.newInstr .pop .absent
      have hi' :
          i ∈ (s.program.newInstr .pop .absent).2.code s.editor.body := by
        rwa [hp.code_newInstr]
      have hfree := Program.owner_fresh (p := s.program) .pop .absent
      exact (h.renewed hp hi .pop .absent
        (Or.inl (by rw [hnext]; rfl))).withPops
        (hnew.exchange hi' (Program.has_newInstr _ _) hfree)
        ((Program.mem_code_exchange hnew hi' hfree).mpr (Or.inl rfl)) _
  | nop hkind =>
      refine h.without hp hi (h.next hp hi ?_)
      rw [Instr.fallsThrough, hkind]
      rfl
  | dead _ hun => exact h.without_unreached hp hi hun.2
  | @chain mid t =>
      have hcode : (s.program.setTarget i (some t)).code s.editor.body =
          s.code :=
        Program.code_setTargets [i]
      intro k hk
      rw [hcode] at hk
      rw [Program.instr_setTarget (hp.has hi)]
      split
      · next hki => exact h i (hki ▸ hk)
      · exact h k hk

namespace Inline

variable {s s' : Editing} {base : Nat} {anchor call : InstrId}
  {code : List InstrId} {copies : List (InstrId × InstrId)} {c : BodyId}

/-- Copies are put in front of an instruction. -/
theorem CopyRun.stops (hrun : CopyRun base anchor code copies s s')
    (hs : s.Sound) (hanchor : anchor ∈ s.code)
    (h : s.program.Stops s.editor.body) : s'.program.Stops s.editor.body := by
  induction hrun with
  | stop => exact h
  | exit _ _ hprog =>
      rw [hprog]
      exact h.redirect hs.linked _ _
  | @copy i rest copies s s₁ s' op o _ _ hs₁ hprog _ ih =>
      have hanchor₁ : anchor ∈ s₁.code := by
        rw [Editing.code, hs₁.body, hprog, mem_code_copied hs.linked hanchor]
        exact Or.inr hanchor
      rw [← hs₁.body]
      refine ih hs₁.sound hanchor₁ ?_
      rw [hs₁.body, hprog]
      exact (h.withNew hs.linked hanchor op o).redirect
        (hs.linked.withNew hanchor op o) _ _

/-- Code is taken in in front of an instruction. -/
theorem TakesIn.stops (htake : TakesIn c anchor s s') (hs : s.Sound)
    (hanchor : anchor ∈ s.code) (h : s.program.Stops s.editor.body) :
    s'.program.Stops s.editor.body := by
  cases htake with
  | nothing _ heq => rwa [heq]
  | @copies s₁ hslots hrun =>
      have hanchor₁ : anchor ∈ s₁.code := by
        rwa [Editing.code, hslots.body, hslots.codes]
      rw [← hslots.body]
      refine hrun.stops hslots.sound hanchor₁ ?_
      rw [hslots.body]
      exact h.of_last hs.linked hslots.changed (by rw [hslots.codes])

/-- A body still stops when a call in front of others has been replaced. -/
theorem Replaces.stops (h : Replaces call c anchor s s') (hs : s.Sound)
    (hcall : call ∈ s.code) (hnext : s.program.next call = some anchor)
    (hstops : s.program.Stops s.editor.body) :
    s'.program.Stops s.editor.body := by
  obtain ⟨t, ht, htake⟩ := h.cleared hs hcall hnext
  rw [← ht.body]
  refine htake.stops ht.sound ht.anchor ?_
  rw [ht.program, ht.body]
  exact hstops.renewed hs.linked hcall _ _ (Or.inl (by rw [hnext]; rfl))

end Inline

/-! ### Sessions -/

variable {σ : Type}

namespace Session

variable {s t : Session σ} {c d m : MethodId} {b : BodyId}
  {cfg : InlineSettings} {methods : List MethodId}

/-- The methods that have been finished, the latest first. -/
def finished (s : Session σ) : List MethodId :=
  (s.progress.filter fun e => e.2 = .done).map Prod.fst

/-- How many methods have been finished after `d`. -/
def age (s : Session σ) (d : MethodId) : Nat := s.finished.idxOf d

/-- `d` is not inlined, whatever happens. -/
def Barred (cfg : InlineSettings) (s : Session σ) (d : MethodId) : Prop :=
  s.memo.Refuses cfg.policy d ∨ (s.program.method d).body = none ∨
    ∃ b, (s.program.method d).body = some b ∧ d ∈ Inline.callees cfg s.program b

/-- `d` has been finished and may be inlined. -/
def Open (cfg : InlineSettings) (s : Session σ) (d : MethodId) : Prop :=
  s.progressOf d = .done ∧ ¬ Barred cfg s d

/-- The calls in the body of a finished method lead back to it, or to a method
that has been finished later if it may be inlined. -/
def Settled (cfg : InlineSettings) (s : Session σ) : Prop :=
  ∀ c b, s.progressOf c = .done → (s.program.method c).body = some b →
    ∀ d ∈ Inline.callees cfg s.program b, d = c ∨
    (Open cfg s d → s.age d < s.age c)

/-- What holds between visits. -/
structure Orderly (cfg : InlineSettings) (methods : List MethodId)
    (s : Session σ) : Prop extends s.Sound where
  stops : ∀ m b, (s.program.method m).body = some b → s.program.Stops b
  firm : s.memo.Firm cfg.policy methods
  ledger : ∀ m, m ∈ s.finished ↔ s.progressOf m = .done
  settled : Settled cfg s

/-- A method that is done is finished last. -/
theorem finished_setProgress (m : MethodId) (x : Progress) :
    (s.setProgress m x).finished = if x = .done then m :: s.finished else
        s.finished := by
  rw [finished, setProgress, finished]
  split
  · next hx => rw [List.filter_cons_of_pos (by simpa using hx), List.map_cons]
  · next hx => rw [List.filter_cons_of_neg (by simpa using hx)]

/-- All other methods grow older when one is finished. -/
theorem age_finish (h : d ≠ m) :
    (s.setProgress m .done).age d = s.age d + 1 := by
  rw [age, finished_setProgress, if_pos rfl, List.idxOf_cons_ne _ (Ne.symm h),
    age]

/-- A method is young when it is finished. -/
theorem age_finish_self : (s.setProgress m .done).age m = 0 := by
  rw [age, finished_setProgress, if_pos rfl, List.idxOf_cons_self]

/-- Counts do not matter. -/
theorem Orderly.counted (h : s.Orderly cfg methods) (stats : Stats) :
    Orderly cfg methods { s with stats } :=
  ⟨⟨h.linked, h.unshared⟩, h.stops, h.firm, h.ledger, h.settled⟩

/-! ### Starting and finishing -/

/-- A method is started. -/
theorem Orderly.start (h : s.Orderly cfg methods)
    (hm : s.progressOf m = .notVisited) :
    (s.setProgress m .inProgress).Orderly cfg methods where
  linked := h.linked
  unshared := h.unshared
  stops := h.stops
  firm := h.firm
  ledger := by
    intro c
    rw [finished_setProgress, if_neg (by simp), progressOf_setProgress,
      h.ledger]
    split
    · next hcm => simp [hcm, hm]
    · exact Iff.rfl
  settled := by
    have hdone : ∀ c, (s.setProgress m .inProgress).progressOf c = .done →
        s.progressOf c = .done := by
      intro c hc
      rw [progressOf_setProgress] at hc
      split at hc
      · cases hc
      · exact hc
    intro c b hc hbody d hd
    have hage : ∀ k, (s.setProgress m .inProgress).age k = s.age k := by
      intro k
      rw [age, finished_setProgress, if_neg (by simp), age]
    rw [hage, hage]
    exact (h.settled c b (hdone c hc) hbody d hd).imp_right
      fun hlater hopen => hlater ⟨hdone d hopen.1, hopen.2⟩

/-- A method is finished.  The calls that are left in its body lead back to it,
or to methods that may not be inlined. -/
theorem Orderly.finish (h : s.Orderly cfg methods) (hm : s.progressOf m ≠ .done)
    (hleft : ∀ b, (s.program.method m).body = some b →
      ∀ d ∈ Inline.callees cfg s.program b, d = m ∨ ¬ Open cfg s d) :
    (s.setProgress m .done).Orderly cfg methods where
  linked := h.linked
  unshared := h.unshared
  stops := h.stops
  firm := h.firm
  ledger := by
    intro c
    rw [finished_setProgress, if_pos rfl, progressOf_setProgress, List.mem_cons,
      h.ledger]
    split
    · next hcm => simp [hcm]
    · next hcm => simp [hcm]
  settled := by
    intro c b hc hbody d hd
    rw [progressOf_setProgress] at hc
    have hopen : d ≠ m → Open cfg (s.setProgress m .done) d → Open cfg s d := by
      intro hdm hopen
      have hdone := hopen.1
      rw [progressOf_setProgress, if_neg hdm] at hdone
      exact ⟨hdone, hopen.2⟩
    by_cases hcm : c = m
    · subst hcm
      rcases hleft b hbody d hd with hself | hno
      · exact Or.inl hself
      · by_cases hdc : d = c
        · exact Or.inl hdc
        · exact Or.inr fun ho => absurd (hopen hdc ho) hno
    · rw [if_neg hcm] at hc
      refine (h.settled c b hc hbody d hd).imp_right fun hlater ho => ?_
      rw [age_finish hcm]
      by_cases hdm : d = m
      · rw [hdm, age_finish_self]
        exact Nat.succ_pos _
      · rw [age_finish hdm]
        exact Nat.succ_lt_succ (hlater (hopen hdm ho))

/-! ### Asking the policy -/

/-- A policy that is asked opens nothing. -/
theorem Open.of_asked (h : s.memo.Firm cfg.policy methods) (hc : c ∈ methods)
    (ho : Open cfg (Inline.consulted cfg c s) d) : Open cfg s d :=
  ⟨ho.1, fun hb => ho.2 (hb.imp_left fun hno => Memo.Refuses.ask _ h hc hno)⟩

/-- A session stays orderly when a policy is asked. -/
theorem Orderly.asked (h : s.Orderly cfg methods) (hc : c ∈ methods) :
    (Inline.consulted cfg c s).Orderly cfg methods where
  linked := h.linked
  unshared := h.unshared
  stops := h.stops
  firm := h.firm.ask _ hc
  ledger := h.ledger
  settled := fun k b hk hbody d hd =>
    (h.settled k b hk hbody d hd).imp_right fun hlater ho =>
      hlater (ho.of_asked h.firm hc)

/-! ### Changing the body of a method that is in progress -/

/-- The body of `m` has been changed, `m` not being finished. -/
structure Reworked (m : MethodId) (b : BodyId) (s t : Session σ) : Prop where
  busy : s.progressOf m = .inProgress
  body : (s.program.method m).body = some b
  changed : Program.ChangedIn b s.program t.program
  linked : t.program.WellLinked
  progress : t.progress = s.progress

/-- No progress is made in one body. -/
theorem Reworked.progressOf (h : Reworked m b s t) (d : MethodId) :
    t.progressOf d = s.progressOf d := by
  rw [Session.progressOf, Session.progressOf, h.progress]

/-- No method grows older. -/
theorem Reworked.age (h : Reworked m b s t) (d : MethodId) :
    t.age d = s.age d := by
  rw [Session.age, Session.age, finished, finished, h.progress]

/-- The callees of finished methods are what they were. -/
theorem Reworked.callees (h : Reworked m b s t) (hs : s.Sound)
    (hd : s.progressOf d = .done) {k : BodyId}
    (hbody : (s.program.method d).body = some k) :
    Inline.callees cfg t.program k = Inline.callees cfg s.program k := by
  have hkb : k ≠ b := by
    rintro rfl
    rw [hs.unshared m d k h.body hbody, h.busy] at hd
    cases hd
  exact Inline.callees_agree
    (h.changed.agreeOn hs.linked hkb) hs.linked h.linked

/-- What is open after the work was open before. -/
theorem Reworked.open (h : Reworked m b s t) (hs : s.Sound)
    (hrefuses : ∀ d, s.memo.Refuses cfg.policy d → t.memo.Refuses cfg.policy d)
    (ho : Open cfg t d) : Open cfg s d := by
  have hdone : s.progressOf d = .done := by
    rw [← h.progressOf]
    exact ho.1
  refine ⟨hdone, fun hb => ho.2 ?_⟩
  rcases hb with hno | hnone | ⟨k, hbody, hself⟩
  · exact Or.inl (hrefuses d hno)
  · exact Or.inr (Or.inl (by rw [h.changed.method]; exact hnone))
  · refine Or.inr (Or.inr ⟨k, by rw [h.changed.method]; exact hbody, ?_⟩)
    rw [h.callees hs hdone hbody]
    exact hself

/-- A session stays orderly when one body is reworked. -/
theorem Orderly.rework (h : s.Orderly cfg methods) (ht : Reworked m b s t)
    (hmemo : t.memo = s.memo) (hstops : t.program.Stops b) :
    t.Orderly cfg methods where
  linked := ht.linked
  unshared := by
    intro m₁ m₂ k h₁ h₂
    rw [ht.changed.method] at h₁ h₂
    exact h.unshared m₁ m₂ k h₁ h₂
  stops := by
    intro k c hbody
    rw [ht.changed.method] at hbody
    by_cases hcb : c = b
    · rw [hcb]
      exact hstops
    · exact (h.stops k c hbody).agree h.linked ht.linked
        (ht.changed.agreeOn h.linked hcb)
  firm := by
    rw [hmemo]
    exact h.firm
  ledger := by
    intro k
    rw [ht.progressOf, finished, ht.progress, ← finished]
    exact h.ledger k
  settled := by
    intro c k hc hbody d hd
    rw [ht.progressOf] at hc
    rw [ht.changed.method] at hbody
    rw [ht.callees h.toSound hc hbody] at hd
    rw [ht.age, ht.age]
    exact (h.settled c k hc hbody d hd).imp_right fun hlater ho =>
      hlater (ht.open h.toSound (fun k hk => by rwa [hmemo]) ho)

end Session

end Bytecode
