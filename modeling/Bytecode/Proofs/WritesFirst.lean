import Bytecode.Proofs.Splicing

/-!
# Slots that are written before they are read

When a callee is taken in, its slots become slots of the caller.  They are set
to zero once, when the caller is entered, and not each time control comes to the
copies.  A callee does not notice if, on every path, it writes a slot before it
reads it.

`Stale` says that control can come to a place before a slot has been written.  A
body `WritesFirst` if it reads no stale slot, and if the slots it names are
declared.  Taking in such a callee keeps the caller what it is in this respect,
`Spliced.writesFirst`.
-/

namespace Bytecode

namespace Instr

/-- The instruction reads slot `n`. -/
def Reads (x : Instr) (n : Int) : Prop :=
  x.access? = some .load ∧ x.localIndex? = some n

/-- The instruction writes slot `n`. -/
def Writes (x : Instr) (n : Int) : Prop :=
  x.access? = some .store ∧ x.localIndex? = some n

instance (x : Instr) (n : Int) : Decidable (x.Reads n) :=
  inferInstanceAs (Decidable (x.access? = some .load ∧ x.localIndex? = some n))

instance (x : Instr) (n : Int) : Decidable (x.Writes n) :=
  inferInstanceAs (Decidable (x.access? = some .store ∧ x.localIndex? = some n))

end Instr

/-- Control can come to a place of the body before slot `n` has been written. -/
inductive Stale (p : Program) (b : BodyId) (n : Int) : Option InstrId → Prop
  | entry : Stale p b n (p.first? b)
  | step {i : InstrId} {a : Option InstrId} : Stale p b n (some i) → ¬
    (p.instr i).Writes n → Leads p i a → Stale p b n a

/-- The body names declared slots only, and no path reads a slot before it
writes it. -/
structure WritesFirst (p : Program) (b : BodyId) : Prop where
  declared : ∀ i ∈ p.code b, ∀ n ∈ (p.instr i).localIndex?,
    ((p.body b).localAt? n).isSome
  written : ∀ i n, (p.instr i).Reads n → ¬ Stale p b n (some i)

variable {p q : Program} {b c : BodyId} {i k : InstrId} {a : Option InstrId}
  {n : Int} {x y : Instr}

/-- A stale slot is found inside its body. -/
theorem Stale.inside (h : Stale p b n a) (hp : p.WellLinked)
    (hclosed : p.Closed b) : Inside p b a := by
  induction h with
  | entry => exact inside_first? hp
  | step _ _ hleads ih =>
      exact inside_leads hp hclosed (inside_some.mp ih) hleads

/-- The body is looked at, and nothing else. -/
theorem Stale.agree (hp : p.WellLinked) (hq : q.WellLinked)
    (hclosed : p.Closed b) (hpq : Program.AgreeOn b p q) (h : Stale q b n a) :
    Stale p b n a := by
  induction h with
  | entry =>
      rw [first?_agree hp hq hpq]
      exact .entry
  | @step i a _ hno hleads ih =>
      have hi := inside_some.mp (ih.inside hp hclosed)
      rw [hpq.instr i (by rwa [← hp.code])] at hno
      exact ih.step hno (leads_agree hp hq hpq hi hleads)

/-- Places to which control can come before slot `n` has been written are among
these. -/
structure Covers (p : Program) (b : BodyId) (n : Int)
    (places : List (Option InstrId)) : Prop where
  entry : p.first? b ∈ places
  next : ∀ i ∈ p.code b, some i ∈ places → ¬ (p.instr i).Writes n →
    (p.instr i).fallsThrough = true → p.next i ∈ places
  target : ∀ i ∈ p.code b, some i ∈ places → ¬ (p.instr i).Writes n →
    (p.instr i).isBranch = true → ∀ t ∈ p.target? i, some t ∈ places

instance {places : List (Option InstrId)} : Decidable (Covers p b n places) :=
  decidable_of_iff (p.first? b ∈ places ∧
      (∀ i ∈ p.code b, some i ∈ places → ¬ (p.instr i).Writes n →
        (p.instr i).fallsThrough = true → p.next i ∈ places) ∧
      ∀ i ∈ p.code b, some i ∈ places → ¬ (p.instr i).Writes n →
        (p.instr i).isBranch = true → ∀ t ∈ p.target? i, some t ∈ places)
    ⟨fun ⟨h, h', h''⟩ => ⟨h, h', h''⟩, fun h => ⟨h.entry, h.next, h.target⟩⟩

/-- A set of places that covers the slot has every place where it is stale. -/
theorem Stale.mem_of_covers {places : List (Option InstrId)} (h : Stale p b n a)
    (hp : p.WellLinked) (hclosed : p.Closed b) (hcovers : Covers p b n places) :
    a ∈ places := by
  induction h with
  | entry => exact hcovers.entry
  | step hstale hno hleads ih =>
      have hi := inside_some.mp (hstale.inside hp hclosed)
      cases hleads with
      | falls hfalls => exact hcovers.next _ hi ih hno hfalls
      | jumps hbr ht => exact hcovers.target _ hi ih hno hbr _ ht

/-- A body writes its slots first if it reads them at other places. -/
theorem WritesFirst.of_covers (hp : p.WellLinked) (hclosed : p.Closed b)
    {places : Int → List (Option InstrId)} (h : ∀ i ∈ p.code b,
      ∀ n ∈ (p.instr i).localIndex?, ((p.body b).localAt? n).isSome ∧
      ((p.instr i).Reads n → Covers p b n (places n) ∧ some i ∉ places n)) :
    WritesFirst p b where
  declared := fun i hi n hn => (h i hi n hn).1
  written := by
    intro i n hreads hstale
    have hi := inside_some.mp (hstale.inside hp hclosed)
    obtain ⟨hcovers, hno⟩ := (h i hi n hreads.2).2 hreads
    exact hno (hstale.mem_of_covers hp hclosed hcovers)

/-- Whether slots are written first depends on the body only. -/
theorem WritesFirst.agree (h : WritesFirst p b) (hp : p.WellLinked)
    (hq : q.WellLinked) (hclosed : p.Closed b) (hpq : Program.AgreeOn b p q) :
    WritesFirst q b where
  declared := by
    intro i hi n hn
    have hi : i ∈ p.code b := by rwa [hp.code, ← hpq.body, ← hq.code]
    rw [hpq.instr i (by rwa [← hp.code])] at hn
    rw [hpq.body]
    exact h.declared i hi n hn
  written := by
    intro i n hreads hstale
    have hstale := hstale.agree hp hq hclosed hpq
    have hi := inside_some.mp (hstale.inside hp hclosed)
    rw [hpq.instr i (by rwa [← hp.code])] at hreads
    exact h.written i n hreads hstale

/-! ### Copies at their own slots -/

/-- `y` does what `x` does; where `x` names the slot `n`, `y` names the slot
`move n`, if slot `n` is known. -/
structure DoesAs (move : Int → Int) (known : Int → Prop) (x y : Instr) :
    Prop where
  kind : y.kind = x.kind
  op : x.access? = none → y.op = x.op
  operand : x.access? = none → x.isBranch = false → y.operand = x.operand
  slot : ∀ n, x.localIndex? = some n → known n → y.localIndex? = some (move n)

/-- The slot depends on the operation and the operand. -/
theorem localIndex?_congr (hop : y.op = x.op)
    (hoperand : y.operand = x.operand) : y.localIndex? = x.localIndex? := by
  have haccess : y.access? = x.access? := by
    rw [Instr.access?, Instr.kind, hop]; rfl
  rw [Instr.localIndex?, Instr.localIndex?, haccess, hop, hoperand]

/-- What addresses a slot is no branch. -/
theorem isBranch_of_localIndex? (h : x.localIndex? = some n) :
    x.isBranch = false := by
  cases ha : x.access? with
  | none =>
      rw [Inline.localIndex?_of_access? ha] at h
      cases h
  | some access => exact Inline.isBranch_of_access ha

/-- Redirecting keeps the slot. -/
theorem Instr.Redirected.localIndex? {g : InstrId → InstrId}
    (h : x.Redirected g y) : y.localIndex? = x.localIndex? := by
  by_cases hbr : x.isBranch = true
  · have hnone : ∀ {z : Instr}, z.isBranch = true → z.localIndex? = none := by
      intro z hz
      by_contra hsome
      obtain ⟨n, hn⟩ := Option.ne_none_iff_exists'.mp hsome
      rw [isBranch_of_localIndex? hn] at hz
      cases hz
    rw [hnone hbr, hnone (by rwa [h.isBranch])]
  · exact localIndex?_congr h.op (h.operand (by simpa using hbr))

/-- A redirected instruction does the same. -/
theorem Instr.Redirected.doesAs {g : InstrId → InstrId} (h : x.Redirected g y) :
    DoesAs id (fun _ => True) x y where
  kind := by rw [Instr.kind, h.op, Instr.kind]
  op := fun _ => h.op
  operand := fun _ hbr => h.operand hbr
  slot := fun n hn _ => h.localIndex?.trans hn

namespace DoesAs

variable {move : Int → Int} {known : Int → Prop} (h : DoesAs move known x y)

include h

/-- A copy accesses its slot in the same way. -/
theorem access? : y.access? = x.access? := by
  rw [Instr.access?, h.kind, Instr.access?]

/-- The copy of a write writes the moved slot. -/
theorem writes (hx : x.Writes n) (hn : known n) : y.Writes (move n) :=
  ⟨h.access?.trans hx.1, h.slot n hx.2 hn⟩

end DoesAs

namespace Inline

variable {slots : Body} {base : Nat} {anchor : InstrId} {f : InstrId → InstrId}

/-- A copy that is no copy of a return does the same at the slots that have been
moved. -/
theorem IsCopy.doesAs {known : Int → Prop} (h : IsCopy slots base anchor f x y)
    (hret : x.kind ≠ .ret) (hknown : ∀ n, known n → ∃ l, slots.localAt? (base +
      n) = some l ∧ l.index = base + n) : DoesAs (base + ·) known x y where
  kind := h.kind hret
  op := by
    intro hno
    cases h with
    | exit hx => exact absurd hx hret
    | branch _ hop | plain _ _ _ hop => exact hop
    | access ha =>
        rw [hno] at ha
        cases ha
  operand := by
    intro hno hbr
    cases h with
    | exit hx => exact absurd hx hret
    | branch hbr' =>
        rw [hbr] at hbr'
        cases hbr'
    | plain _ _ _ _ ho => exact ho
    | access ha =>
        rw [hno] at ha
        cases ha
  slot := by
    intro n hn hk
    obtain ⟨l, hl, hindex⟩ := hknown n hk
    cases h with
    | exit hx => exact absurd hx hret
    | branch hbr =>
        rw [isBranch_of_localIndex? hn] at hbr
        cases hbr
    | access ha hn' hl' henc =>
        rw [hn] at hn'
        cases hn'
        rw [hl] at hl'
        cases hl'
        rw [Access.localIndex?_of_encode henc, hindex]
    | plain _ _ hslot =>
        rw [hslot n hn] at hl
        cases hl

namespace Spliced

variable {call nop d : InstrId} {inner : List InstrId}
  (h : Spliced b c call anchor nop inner f p q)

include h

/-- A copy does what its original does, slots being moved behind those of the
caller. -/
theorem doesAs (hd : d ∈ inner) (hret : (p.instr d).kind ≠ .ret) :
    DoesAs ((p.body b).locals.size + ·) (fun n =>
      ((p.body c).localAt? n).isSome) (p.instr d) (q.instr (f d)) := by
  refine (h.copy d hd).doesAs hret fun n hn => ?_
  obtain ⟨l, hl⟩ := Option.isSome_iff_exists.mp hn
  exact ⟨_, h.localAt?_new (List.ne_nil_of_mem hd) hl, rfl⟩

/-- A slot that a copy names is one that its original names. -/
theorem localIndex?_copy (hd : d ∈ inner) (hcallee : WritesFirst p c)
    (hn : (q.instr (f d)).localIndex? = some n) :
    ∃ m, n = (p.body b).locals.size + m ∧ (p.instr d).localIndex? = some m ∧
      ((p.body c).localAt? m).isSome := by
  have hcopy := h.copy d hd
  have hret : (p.instr d).kind ≠ .ret := by
    intro hret
    have hbr := isBranch_of_localIndex? hn
    rw [Instr.isBranch, (hcopy.of_ret hret).1] at hbr
    cases hbr
  obtain ⟨m, hm⟩ : ∃ m, (p.instr d).localIndex? = some m := by
    cases hcopy with
    | exit hx => exact absurd hx hret
    | branch hbr hop =>
        have hbr' := isBranch_of_localIndex? hn
        rw [Instr.isBranch, hop] at hbr'
        rw [Instr.isBranch, hbr'] at hbr
        cases hbr
    | access _ hm => exact ⟨_, hm⟩
    | plain _ _ _ hop ho => exact ⟨n, (localIndex?_congr hop ho).symm.trans hn⟩
  have hdeclared := hcallee.declared d (h.shape.mem hd) m hm
  have hmoved := (h.doesAs hd hret).slot m hm hdeclared
  exact ⟨m, Option.some.inj (hn.symm.trans hmoved), hm, hdeclared⟩

/-- Slot `n` is stale at a place of the caller as it was before, or at a copy:
then it was stale at the call, and if it is a slot of the callee, it was stale
at the original. -/
inductive StaleFrom (p : Program) (b c : BodyId) (call nop : InstrId)
    (inner : List InstrId) (f : InstrId → InstrId) (n : Int) :
    Option InstrId → Prop
  | old {a : Option InstrId} : Stale p b n a →
      StaleFrom p b c call nop inner f n (a.map (moving call nop))
  | copy {d : InstrId} : d ∈ inner → Stale p b n (some call) →
      (∀ m, n = (p.body b).locals.size + m → ((p.body c).localAt? m).isSome →
        Stale p c m (some d)) → StaleFrom p b c call nop inner f n (some (f d))

section Kept

variable (hp : p.WellLinked) (hcall : call ∈ p.code b)
  (hnext : p.next call = some anchor) (hkind : (p.instr call).kind = .call)

include hp hcall hnext hkind

/-- Behind the copies a slot is stale only if it was at the call. -/
theorem staleFrom_anchor (hstale : Stale p b n (some call)) :
    StaleFrom p b c call nop inner f n (some anchor) := by
  have hstep : Stale p b n (some anchor) := by
    rw [← hnext]
    refine hstale.step (fun hwrites => ?_)
      (.falls (by rw [Instr.fallsThrough, hkind]; rfl))
    have haccess := hwrites.1
    rw [Instr.access?, hkind] at haccess
    cases haccess
  have hne : anchor ≠ call := by
    rintro rfl
    exact hp.next_ne hcall hnext
  have hold : StaleFrom p b c call nop inner f n
      ((some anchor).map (moving call nop)) :=
    .old hstep
  rwa [Option.map_some, moving_of_ne hne] at hold

/-- Where a copied branch lands, a slot is stale only if it was at the call or
in the callee. -/
theorem staleFrom_land (hstale : Stale p b n (some call))
    (ha : ∀ m, n = (p.body b).locals.size + m → ((p.body c).localAt? m).isSome →
      Stale p c m a) (hlands : ∀ d ∈ a, Lands p anchor inner f d) :
    StaleFrom p b c call nop inner f n (some (land anchor f a)) := by
  have hanchor := h.staleFrom_anchor hp hcall hnext hkind hstale
  cases a with
  | none => exact hanchor
  | some d =>
      rcases hlands d rfl with hd | ⟨-, hd⟩
      · exact .copy hd hstale ha
      · rw [land, Option.elim_some, hd]
        exact hanchor

/-- No slot is stale in the new code that was not stale before. -/
theorem staleFrom (hclosed : p.Closed b) (hcallee : p.Closed c)
    (hstale : Stale q b n a) : StaleFrom p b c call nop inner f n a := by
  induction hstale with
  | entry =>
      rw [h.first?_eq hp hcall hnext]
      exact .old .entry
  | @step k a _ hno hleads ih =>
      generalize hk : some k = place at ih
      cases ih with
      | @old a' ha =>
          obtain ⟨k', rfl, rfl⟩ := Option.map_eq_some_iff.mp hk.symm
          by_cases hkc : k' = call
          · subst hkc
            rw [moving_self] at hleads
            rw [h.leads_nop hp hcall hnext hleads]
            exact h.staleFrom_land hp hcall hnext hkind ha (fun _ _ _ => .entry)
              (h.shape.lands_first hp)
          · rw [moving_of_ne hkc] at hleads hno
            have hk' := inside_some.mp (ha.inside hp hclosed)
            obtain ⟨e, he, rfl⟩ :=
              h.leads_old hp hcall hnext hclosed hk' hkc hleads
            exact .old (ha.step
              (fun hw => hno ((h.old k' hk' hkc).doesAs.writes hw trivial)) he)
      | @copy d hd hcallStale hm =>
          cases hk
          rcases h.leads_copy hp hcall hnext hd hleads with ⟨e, he, rfl⟩
            | ⟨-, rfl⟩
          · refine h.staleFrom_land hp hcall hnext hkind hcallStale
              (fun m hn hdeclared => ?_) ?_
            · refine (hm m hn hdeclared).step (fun hw => hno ?_) he
              have hret : (p.instr d).kind ≠ .ret := by
                intro hret
                have haccess := hw.1
                rw [Instr.access?, hret] at haccess
                cases haccess
              rw [hn]
              exact (h.doesAs hd hret).writes hw hdeclared
            · intro e' he'
              have hin := inside_leads hp hcallee (h.shape.mem hd) he
              rw [Option.mem_def.mp he'] at hin
              exact h.shape.lands hd (inside_some.mp hin)
          · exact h.staleFrom_anchor hp hcall hnext hkind hcallStale

/-- **Taking in a callee that writes its slots first** leaves a caller that does
so. -/
theorem writesFirst (hclosed : p.Closed b) (hcallee : p.Closed c)
    (hb : WritesFirst p b) (hc : WritesFirst p c) : WritesFirst q b where
  declared := by
    intro k hk n hn
    rcases h.mem_cases hp hcall hnext hk with ⟨hk, hkc⟩ | rfl | ⟨d, hd, rfl⟩
    · rw [(h.old k hk hkc).localIndex?] at hn
      obtain ⟨l, hl⟩ := Option.isSome_iff_exists.mp (hb.declared k hk n hn)
      rw [h.localAt?_old hl]
      rfl
    · have haccess : (q.instr k).access? = none := by
        rw [Instr.access?, Instr.kind, h.isNop]
        rfl
      rw [localIndex?_of_access? haccess] at hn
      cases hn
    · obtain ⟨m, rfl, -, hdeclared⟩ := h.localIndex?_copy hd hc hn
      obtain ⟨l, hl⟩ := Option.isSome_iff_exists.mp hdeclared
      rw [h.localAt?_new (List.ne_nil_of_mem hd) hl]
      rfl
  written := by
    intro k n hreads hstale
    have hfrom := h.staleFrom hp hcall hnext hkind hclosed hcallee hstale
    generalize hk : some k = place at hfrom
    cases hfrom with
    | @old a ha =>
        obtain ⟨k', rfl, rfl⟩ := Option.map_eq_some_iff.mp hk.symm
        by_cases hkc : k' = call
        · rw [hkc, moving_self] at hreads
          have haccess := hreads.1
          rw [Instr.access?, Instr.kind, h.isNop] at haccess
          cases haccess
        · rw [moving_of_ne hkc] at hreads
          have hold := h.old k' (inside_some.mp (ha.inside hp hclosed)) hkc
          exact hb.written k' n ⟨hold.doesAs.access?.symm.trans hreads.1,
            hold.localIndex?.symm.trans hreads.2⟩ ha
    | @copy d hd _ hm =>
        cases hk
        obtain ⟨m, hn, hindex, hdeclared⟩ := h.localIndex?_copy hd hc hreads.2
        have hret : (p.instr d).kind ≠ .ret := by
          intro hret
          have haccess : (p.instr d).access? = none := by
            rw [Instr.access?, hret]
            rfl
          rw [localIndex?_of_access? haccess] at hindex
          cases hindex
        exact hc.written d m ⟨(h.doesAs hd hret).access?.symm.trans hreads.1,
          hindex⟩ (hm m hn hdeclared)

end Kept

end Spliced

end Inline

end Bytecode
