import Bytecode.Proofs.Fitting
import Bytecode.Proofs.NeverFails
import Bytecode.Proofs.TakenIn

/-!
# What a call is unfolded to

When the inliner fires, a nop takes the place of the call, and the instructions
of the callee, as the visit of the callee has left them, are copied one by one
behind it. `Unfolds` reads each copy off its original: where a return goes,
where a branch goes, which slot an access addresses, and that all else is copied
as it is.  A return in last position has no copy, and the instruction behind the
call stands for it.

A copy can only address the slot that stands for the callee's if the callee's is
declared.  That all accesses address declared slots outlasts visits,
`allDeclared_survives`.  Main statement: `unfolds_call`.
-/

namespace Bytecode

/-- The slot that is named in the operand of an access is the one it is made
for. -/
theorem Access.slot?_of_encode {a : Access} {l l' : Local} {op : Opcode}
    {o : Operand} (h : a.encode l = some (op, o)) (hl : l' ∈ o.slot?) :
    l' = l := by
  have hdirect : ∀ {base short long : UInt8},
      encode.direct l base short long = some (op, o) → l' = l := by
    intro base short long h
    rw [encode.direct] at h
    split_ifs at h
    · cases h
      cases hl
    · cases h
      exact (Option.some.inj hl).symm
    · cases h
      exact (Option.some.inj hl).symm
  cases a with
  | address =>
      rw [encode] at h
      split at h
      · cases h
        exact (Option.some.inj hl).symm
      · cases h
        exact (Option.some.inj hl).symm
  | load => exact hdirect h
  | store => exact hdirect h

/-! ### Accesses to declared slots -/

/-- If the instruction is an access, then to a slot of the body. -/
def Body.Declares (y : Body) (x : Instr) : Prop :=
  x.access?.isSome → ∃ n ∈ x.localIndex?, (y.localAt? n).isSome

namespace Program

/-- Every access in the body addresses one of its slots. -/
def Declared (p : Program) (b : BodyId) : Prop :=
  ∀ i ∈ p.code b, (p.body b).Declares (p.instr i)

/-- Every access in the body of a method addresses one of its slots. -/
def AllDeclared (p : Program) : Prop :=
  ∀ m b, (p.method m).body = some b → p.Declared b

end Program

section Declares

variable {y y' : Body} {x x' : Instr}

theorem Body.declares_of_none (h : x.access? = none) : y.Declares x := by
  intro hsome
  rw [h] at hsome
  cases hsome

/-- It matters what the instruction does and how far the slots go. -/
theorem Body.Declares.mono (h : y.Declares x) (hop : x'.op = x.op)
    (ho : x.isBranch = false → x'.operand = x.operand)
    (hslots : ∀ n, (y.localAt? n).isSome → (y'.localAt? n).isSome) :
    y'.Declares x' := by
  intro hsome
  have haccess : x'.access? = x.access? :=
    congrArg (fun op : Opcode => op.kind.access?) hop
  rw [haccess] at hsome
  obtain ⟨a, ha⟩ := Option.isSome_iff_exists.mp hsome
  obtain ⟨n, hn, hl⟩ := h hsome
  refine ⟨n, ?_, hslots n hl⟩
  rwa [Instr.localIndex?, haccess, hop, ho (Inline.isBranch_of_access ha)]

/-- Instructions that agree but for where they go. -/
theorem Body.Declares.of_bare (h : y.Declares x) (hbare : x'.bare = x.bare)
    (hslots : ∀ n, (y.localAt? n).isSome → (y'.localAt? n).isSome) :
    y'.Declares x' := by
  have hop : x'.op = x.op := congrArg Prod.fst hbare
  refine h.mono hop (fun hbr => ?_) hslots
  have hbr' : x'.isBranch = false := by rwa [Instr.isBranch, hop]
  simpa [Instr.bare, hbr, hbr'] using congrArg Prod.snd hbare

end Declares

namespace Program

variable {p q : Program} {b : BodyId}

theorem Declared.agree (h : p.Declared b) (hp : p.WellLinked)
    (hq : q.WellLinked) (hpq : AgreeOn b p q) : q.Declared b := by
  have hcode : q.code b = p.code b := by rw [hq.code, hpq.body, ← hp.code]
  intro i hi
  rw [hcode] at hi
  rw [hpq.body, hpq.instr i (by rwa [← hp.code])]
  exact h i hi

end Program

/-- Local passes keep accesses declared. -/
theorem Editing.Effect.declared {s : Editing} {i : InstrId} {pass : Pass}
    {q : Program} (he : s.Effect i pass q) (hs : s.Sound) (hi : i ∈ s.code)
    (hclosed : s.program.Closed s.editor.body)
    (h : s.program.Declared s.editor.body) : q.Declared s.editor.body := by
  have hlocals := (he.sameFrames hs hi).locals s.editor.body
  intro k hk
  rcases he.mem_contents hs hi hclosed
    (Program.mem_contents.mpr ⟨k, hk, rfl⟩) with hold | hpop
  · obtain ⟨d, hd, hbare⟩ := Program.mem_contents.mp hold
    refine (h d hd).of_bare hbare.symm fun n hn => ?_
    rwa [Body.localAt?_congr hlocals]
  · have hop : (q.instr k).op = .pop := congrArg Prod.fst hpop
    refine Body.declares_of_none ?_
    rw [Instr.access?, Instr.kind, hop]
    rfl

namespace Inline

open Program

variable {p q : Program} {b c : BodyId} {call anchor nop : InstrId}
  {inner : List InstrId} {f : InstrId → InstrId} {d : InstrId}
  (h : Spliced b c call anchor nop inner f p q)

include h

/-- The copy of an access to a declared slot is the same access to the slot that
stands for it. -/
theorem Spliced.access_copy (hd : d ∈ inner) {a : Access} {n : Int} {l : Local}
    (ha : (p.instr d).access? = some a) (hn : (p.instr d).localIndex? = some n)
    (hl : (p.body c).localAt? n = some l) :
    (q.instr (f d)).access? = some a ∧
      (q.instr (f d)).localIndex? = some ((p.body b).locals.size + n) ∧
      ∀ l' ∈ (q.instr (f d)).operand.slot?,
        (q.body b).localAt? ((p.body b).locals.size + n) = some l' := by
  have hnew := h.localAt?_new (List.ne_nil_of_mem hd) hl
  cases h.copy d hd with
  | exit hret =>
      rw [Instr.access?, hret] at ha
      cases ha
  | branch hbr =>
      rw [isBranch_of_access ha] at hbr
      cases hbr
  | @access a' n' l' ha' hn' hl' henc =>
      obtain rfl : a = a' := Option.some.inj (ha.symm.trans ha')
      obtain rfl : n = n' := Option.some.inj (hn.symm.trans hn')
      have hslot : (q.body b).localAt? ((p.body b).locals.size + n) = some l' :=
        hl'
      obtain rfl := Option.some.inj (hnew.symm.trans hslot)
      refine ⟨Access.kind_of_encode henc, Access.localIndex?_of_encode henc,
        fun l'' hl'' => ?_⟩
      rw [Access.slot?_of_encode henc hl'', hnew]
  | plain _ _ hno =>
      have hnone : (q.body b).localAt? ((p.body b).locals.size + n) = none :=
        hno n hn
      rw [hnew] at hnone
      cases hnone

/-- Taking in a callee whose accesses are declared keeps those of the caller
declared. -/
theorem Spliced.declared (hp : p.WellLinked) (hcall : call ∈ p.code b)
    (hnext : p.next call = some anchor) (hb : p.Declared b)
    (hc : p.Declared c) : q.Declared b := by
  intro k hk
  rcases h.mem_cases hp hcall hnext hk with ⟨hk, hkc⟩ | rfl | ⟨d, hd, rfl⟩
  · refine (hb k hk).mono (h.old k hk hkc).op (h.old k hk hkc).operand
      fun n hn => ?_
    obtain ⟨l, hl⟩ := Option.isSome_iff_exists.mp hn
    rw [h.localAt?_old hl]
    rfl
  · refine Body.declares_of_none ?_
    rw [Instr.access?, Instr.kind, h.isNop]
    rfl
  · cases hx : (p.instr d).access? with
    | some a =>
        obtain ⟨n, hn, hl⟩ := hc d (h.shape.mem hd) (by rw [hx]; rfl)
        obtain ⟨l, hl⟩ := Option.isSome_iff_exists.mp hl
        obtain ⟨-, hindex, -⟩ := h.access_copy hd hx hn hl
        refine fun _ => ⟨_, hindex, ?_⟩
        rw [h.localAt?_new (List.ne_nil_of_mem hd) hl]
        rfl
    | none =>
        refine Body.declares_of_none ?_
        by_cases hret : (p.instr d).kind = .ret
        · rw [Instr.access?, (h.copy d hd).kind_of_ret hret]
          rfl
        · rw [Instr.access?, (h.copy d hd).kind hret]
          exact hx

end Inline

/-- That accesses are declared outlasts the passes, whoever is taken in. -/
theorem Program.allDeclared_survives {cfg : InlineSettings}
    {candidate : MethodId → Prop} {passes : List Pass} :
    Survives cfg candidate passes AllDeclared where
  effect := by
    intro e e' i pass m _ he hi hbody hclosed hchanged heffect hdeclared
    refine hchanged.changed.each he.linked (fun c hagree hc =>
      hc.agree he.linked hchanged.sound.linked hagree) hdeclared ?_
    exact heffect.declared he hi (hclosed m _ hbody) (hdeclared m _ hbody)
  taken := by
    intro p q b c call anchor nop inner f m d hp _ hb hc _ hcall hnext
      _ _ hspliced _ hdeclared
    refine hspliced.changed.each hp
      (fun c hagree hc => hc.agree hp hspliced.linked hagree) hdeclared ?_
    exact hspliced.declared hp hcall hnext (hdeclared m b hb) (hdeclared d c hc)

/-! ### Copy by copy -/

namespace Inline

open Program

/-- The call of body `b` in program `p` has given way to a nop and, behind it,
to copies of the instructions `inner` of body `c`, which is as in program `t`.
`f` sends an instruction of the callee to its copy, and a return that has none
to the anchor. -/
structure Unfolds (p t q : Program) (b c : BodyId) (call anchor nop : InstrId)
    (inner : List InstrId) (f : InstrId → InstrId) : Prop where
  /-- Everything is copied but a return in last position. -/
  copied : (t.code c = inner ∧ ∀ r ∈ inner.getLast?, (t.instr r).kind ≠ .ret) ∨
    ∃ r, t.code c = inner ++ [r] ∧ (t.instr r).kind = .ret ∧ f r = anchor
  /-- The copies stand in the order of their originals. -/
  code : ∀ pre post, p.code b = pre ++ call :: anchor :: post →
    q.code b = pre ++ nop :: inner.map f ++ anchor :: post
  distinct : (q.code b).Nodup
  isNop : (q.instr nop).op = .nop
  returns : ∀ d ∈ inner, (t.instr d).kind = .ret →
    (q.instr (f d)).op = .br ∧ q.target? (f d) = some anchor
  branches : ∀ d ∈ inner, (t.instr d).isBranch = true →
    (q.instr (f d)).op = (t.instr d).op ∧
    ∃ e ∈ t.code c, t.target? d = some e ∧ q.target? (f d) = some (f e)
  /-- The slots of the callee stand behind the caller's own. -/
  accesses : ∀ d ∈ inner, ∀ a n l, (t.instr d).access? = some a →
    (t.instr d).localIndex? = some n → (t.body c).localAt? n = some l →
    (q.instr (f d)).access? = some a ∧
      (q.instr (f d)).localIndex? = some ((p.body b).locals.size + n) ∧
      ∀ l' ∈ (q.instr (f d)).operand.slot?,
        (q.body b).localAt? ((p.body b).locals.size + n) = some l'
  others : ∀ d ∈ inner, (t.instr d).kind ≠ .ret → (t.instr d).isBranch = false →
    (t.instr d).access? = none → (q.instr (f d)).op = (t.instr d).op ∧
    (q.instr (f d)).operand = (t.instr d).operand
  /-- Branches of the caller that went to the call go to the nop. -/
  caller : ∀ k ∈ p.code b, k ≠ call →
    (p.instr k).Redirected (moving call nop) (q.instr k)
  slots : (q.body b).locals = (p.body b).locals ++
    (slotsFrom (p.body b).locals.size (t.body c).locals.toList).toArray

theorem copiedCode_concat (p : Program) (code : List InstrId) (r : InstrId) :
    copiedCode p (code ++ [r]) = if (p.instr r).kind = .ret then code else
        code ++ [r] := by
  induction code with
  | nil => simp [copiedCode]
  | cons i code ih =>
      rw [List.cons_append, copiedCode, if_neg (by simp), ih]
      split
      · rfl
      · rfl

/-- Where everything is copied, there is no return in last position. -/
theorem last_of_copiedCode {p : Program} {code : List InstrId}
    (h : copiedCode p code = code) :
    ∀ r ∈ code.getLast?, (p.instr r).kind ≠ .ret := by
  intro r hr hret
  obtain ⟨front, rfl⟩ := List.getLast?_eq_some_iff.mp hr
  rw [copiedCode_concat, if_pos hret] at h
  simpa using congrArg List.length h

variable {p t q : Program} {b c : BodyId} {call anchor nop : InstrId}
  {inner : List InstrId} {f : InstrId → InstrId}

/-- What is known of a callee that has been taken in, copy by copy.  The caller
is the same in `p` and in `t`. -/
theorem Spliced.unfolds (h : Spliced b c call anchor nop inner f t q)
    (hp : p.WellLinked) (ht : t.WellLinked) (hagree : AgreeOn b p t)
    (hclosed : t.Closed c) (honce : ¬ AtOnce t c) :
    Unfolds p t q b c call anchor nop inner f := by
  have hcode : t.code b = p.code b := by rw [ht.code, hagree.body, ← hp.code]
  have hinner : inner ≠ [] := h.exact ▸ copiedBody_ne_nil honce
  have hexact : inner = copiedCode t (t.code c) := by
    rw [h.exact, copiedBody, if_neg honce]
  refine { copied := ?_, code := ?_, distinct := h.linked.nodup_code b,
           isNop := h.isNop, returns := ?_, branches := ?_, accesses := ?_,
           others := ?_, caller := ?_, slots := ?_ }
  · rcases h.shape with heq | ⟨r, rest, heq, hret, hr, hrest⟩
    · refine .inl ⟨heq, ?_⟩
      rw [← heq]
      exact last_of_copiedCode (hexact.symm.trans heq.symm)
    · obtain rfl := hrest hinner
      exact .inr ⟨r, heq, hret, hr⟩
  · intro pre post hcut
    exact h.code pre post (hcode.trans hcut)
  · exact fun d hd hret => (h.copy d hd).of_ret hret
  · intro d hd hbr
    obtain ⟨hop, htarget⟩ := (h.copy d hd).of_branch hbr
    obtain ⟨e, he, hto⟩ := hclosed d (h.shape.mem hd) hbr
    refine ⟨hop, e, he, hto, htarget.trans ?_⟩
    rw [show (t.instr d).target? = some e from hto, Option.map_some]
  · intro d hd a n l ha hn hl
    rw [← hagree.body]
    exact h.access_copy hd ha hn hl
  · intro d hd hret hbr hno
    cases h.copy d hd with
    | exit hx => exact absurd hx hret
    | branch hx =>
        rw [hbr] at hx
        cases hx
    | access ha =>
        rw [hno] at ha
        cases ha
    | plain _ _ _ hop ho => exact ⟨hop, ho⟩
  · intro k hk hkc
    rw [← hagree.instr k (by rwa [← hp.code])]
    exact h.old k (hcode ▸ hk) hkc
  · obtain ⟨ls, hls, hsame⟩ := h.slots
    rw [hls, hsame hinner, hagree.body]

end Inline

/-! ### When the inliner fires -/

section Fires

variable {σ : Type} {cfg : InlineSettings} {passes : List Pass} {s : Session σ}
  {m : MethodId} {v v' : Visit σ} {call : InstrId} {r : Except Fault Unit}
  {fuel : Nat}

/-- The inliner changes the body under edit only by taking a callee in. -/
theorem Inline.Inlines.of_dirty {optimize : Option MethodId → SessionM σ Unit}
    (h : Inline.Inlines cfg optimize v call (r, v'))
    (hclean : v.editor.dirty = false) (hdirty : v'.editor.dirty = true) :
    ∃ c t anchor b, Inline.callee? cfg v.editing call = some c ∧
      v.editing.nextInstruction = some anchor ∧
      optimize (some c) (Inline.consulted cfg c v.session) = (.ok (), t) ∧
      (t.program.method c).body = some b ∧
      (r, v') = Inline.takeIn call b anchor { v with session := t } := by
  have hno : ∀ {w : Visit σ}, w.editor = v.editor → w.editor.dirty ≠ true := by
    intro w hw hd
    rw [hw, hclean] at hd
    cases hd
  generalize hx : (r, v') = x at h
  cases h with
  | none =>
      cases hx
      exact absurd hdirty (hno rfl)
  | declined =>
      cases hx
      exact absurd hdirty (hno rfl)
  | stopped =>
      cases hx
      exact absurd hdirty (hno rfl)
  | spared =>
      cases hx
      exact absurd hdirty (hno rfl)
  | takenIn hcallee _ hnext _ hopt _ hbody =>
      exact ⟨_, _, _, _, hcallee, hnext, hopt, hbody, rfl⟩

theorem Optimizer.survives_true {candidate : MethodId → Prop} :
    Survives cfg candidate passes fun _ => True where
  effect := fun _ _ _ _ _ _ _ _ => trivial
  taken := fun _ _ _ _ _ _ _ _ _ _ _ _ => trivial

/-- What survives whoever is taken in has survived when the visit of a callee
comes back. -/
theorem Optimizer.kept_nested {I : Program → Prop}
    (hI : Survives cfg (fun _ => True) passes I) (h : v.Within s m)
    (hclosed : v.session.program.NoDangling) (hv : I v.session.program)
    {c : MethodId} {t : Session σ}
    (hopt : (Optimizer.ofPasses cfg passes).optimize fuel (some c)
      (Inline.consulted cfg c v.session) = (.ok (), t)) :
    t.program.NoDangling ∧ I t.program := by
  have haccepts : cfg.Accepts (fun _ => True) v.session.program.methods :=
    fun _ _ _ _ _ => trivial
  have hkeeps : v.session.Keeps (fun _ => True) v.session.program.methods I :=
    ⟨hclosed, hv, rfl, fun _ _ => trivial⟩
  have hmeets := (keeps_obeyed haccepts hI).calls fuel c _
    ⟨consulted_sound cfg h.session c, hkeeps.consulted haccepts c⟩
  rw [hopt] at hmeets
  exact ⟨hmeets.2.closed, hmeets.2.kept⟩

/-- **A call that is inlined is unfolded copy by copy.**  The inliner is offered
a call in the middle of a visit and fires.  Then the callee has been visited,
which left the caller as it was, and if there is anything to copy, the callee's
body as it is then has been unfolded behind a nop in place of the call.  The
callee's branches stay in its body, and its accesses address its slots, if this
was so in all bodies when the call was offered. -/
theorem Inline.unfolds_call (h : v.Within s m) (hi : v.Offers call)
    (hclosed : v.session.program.Closed v.editor.body)
    (hslots : v.session.program.SlotsFromZero) (happly : Inline.apply cfg
      ((Optimizer.ofPasses cfg passes).optimize fuel) v = (r, v'))
    (hfires : v'.editor.dirty = true) :
    ∃ c t b anchor, Inline.callee? cfg v.editing call = some c ∧
      (Optimizer.ofPasses cfg passes).optimize fuel
      (some c) (Inline.consulted cfg c v.session) = (.ok (), t) ∧
      (t.program.method c).body = some b ∧ v.session.program.next call =
      some anchor ∧ (v.session.program.NoDangling → t.program.NoDangling ∧
        (v.session.program.AllDeclared → t.program.AllDeclared)) ∧ r = .ok () ∧
      (t.program.Closed b → ¬ Inline.AtOnce t.program b → ∃ nop inner f,
        Inline.Unfolds v.session.program t.program v'.session.program
        v.editor.body b call anchor nop inner f) := by
  have happlies := Optimizer.appliesPasses_ofPasses (σ := σ) cfg passes
  have hinlines : Inline.Inlines cfg _ v call
      (Inline.apply cfg ((Optimizer.ofPasses cfg passes).optimize fuel) v) :=
    Inline.apply_inlines hi.1
  rw [happly] at hinlines
  obtain ⟨c, t, anchor, b, hcallee, hnext, hopt, hbody, heq⟩ :=
    hinlines.of_dirty h.clean hfires
  obtain ⟨ht, hext, hslots'⟩ :=
    counting_call ((counting_obeyed happlies).calls fuel) h hslots hopt
  have hp : v.session.program.WellLinked := h.sound.linked
  obtain ⟨hv, hiv, hnext', hcb⟩ := h.taking hi hcallee hnext ht hext hbody
  obtain ⟨w, hok, hreplaces, -⟩ :=
    h.takes hi hcallee hnext ht hext hbody hslots'
  obtain ⟨rfl, rfl⟩ := Prod.mk.inj (heq.trans hok)
  refine ⟨c, t, b, anchor, hcallee, hopt, hbody,
    (h.nextInstruction hi).symm.trans hnext,
    fun hnone => ⟨?_, fun hdeclared => ?_⟩, rfl, fun hclosedc honce => ?_⟩
  · exact (Optimizer.kept_nested Optimizer.survives_true h hnone trivial hopt).1
  · exact (Optimizer.kept_nested Program.allDeclared_survives h hnone
      hdeclared hopt).2
  · have hagree := h.agree hext
    obtain ⟨nop, inner, f, hspliced⟩ :=
      hreplaces.spliced hv.sound hiv.2 hnext' hcb
      (hclosed.agree hp ht.linked hagree) hclosedc
    exact ⟨nop, inner, f, hspliced.unfolds hp ht.linked hagree hclosedc honce⟩

end Fires

/-- A method that calls another one until that has set a slot.  The callee
returns in the middle and at the end, and goes back to its start. -/
def polling : Program where
  instrs := #[⟨⟨0x60⟩, .method ⟨"", "poll", [], "void"⟩, some ⟨0⟩⟩,
    ⟨⟨0x06⟩, .absent, some ⟨0⟩⟩, ⟨⟨0x54⟩, .target ⟨0⟩, some ⟨0⟩⟩,
    ⟨⟨0x70⟩, .absent, some ⟨0⟩⟩, ⟨⟨0x06⟩, .absent, some ⟨1⟩⟩,
    ⟨⟨0x54⟩, .target ⟨7⟩, some ⟨1⟩⟩, ⟨⟨0x70⟩, .absent, some ⟨1⟩⟩,
    ⟨⟨0x06⟩, .absent, some ⟨1⟩⟩, ⟨⟨0x52⟩, .target ⟨10⟩, some ⟨1⟩⟩,
    ⟨.br, .target ⟨4⟩, some ⟨1⟩⟩, ⟨⟨0x70⟩, .absent, some ⟨1⟩⟩]
  bodies :=
    #[{ code := [⟨0⟩, ⟨1⟩, ⟨2⟩, ⟨3⟩], locals := #[⟨0, "int32", "set"⟩] },
      { code := [⟨4⟩, ⟨5⟩, ⟨6⟩, ⟨7⟩, ⟨8⟩, ⟨9⟩, ⟨10⟩],
        locals := #[⟨0, "int32", "seen"⟩] }]
  methods := #[{ name := "main", body := some ⟨0⟩ },
    { name := "poll", body := some ⟨1⟩ }]

/-- Every call of one of the two methods may be inlined. -/
def inlinePolling : InlineSettings where
  resolution := some (.ofMethods polling [⟨0⟩, ⟨1⟩])
  policy := .always

/-- The visit of the caller, with the call on offer. -/
def atPoll : Visit Unit :=
  Visit.advanced ⟨Session.setProgress { program := polling, client := () }
    ⟨0⟩ .inProgress, { method := ⟨0⟩, body := ⟨0⟩ }⟩

/-- The call on offer, and what the inliner makes of it when nothing else is
run. -/
def polled : Except Fault Unit × Visit Unit :=
  Inline.apply inlinePolling ((Optimizer.ofPasses inlinePolling
    [.inlineFunctionCall]).optimize 40) atPoll

/-- The caller is unfolded to ten instructions. -/
theorem Inline.unfolds_call_polling :
    atPoll.Offers ⟨0⟩ ∧ polling.NoDangling ∧ polling.SlotsFromZero ∧
    polled.2.editor.dirty = true ∧ polled.2.session.program.code ⟨0⟩ =
    [⟨11⟩, ⟨12⟩, ⟨13⟩, ⟨14⟩, ⟨15⟩, ⟨16⟩, ⟨17⟩, ⟨1⟩, ⟨2⟩, ⟨3⟩] ∧
    ∃ (t : Session Unit) (nop : InstrId) (inner : List InstrId) (f : InstrId →
      InstrId), Unfolds polling t.program polled.2.session.program ⟨0⟩ ⟨1⟩ ⟨0⟩
    ⟨1⟩ nop inner f := by
  have hp : polling.WellLinked := by decide
  have hclosed : polling.NoDangling := by decide
  have hslots : polling.SlotsFromZero := by decide
  have hfires : polled.2.editor.dirty = true := by decide +kernel
  have hwithin := (Visit.within_start
    (s := ({ program := polling, client := () } : Session Unit))
    (m := ⟨0⟩) (b := ⟨0⟩) hp (by decide) rfl rfl (by decide)).advanced
  have hoffers : atPoll.Offers ⟨0⟩ := ⟨by decide, by decide⟩
  obtain ⟨c, t, b, anchor, hcallee, hopt, hbody, hnext, hkept, -, hunfolds⟩ :=
    unfolds_call (v := atPoll) hwithin hoffers (hclosed ⟨0⟩ ⟨0⟩ rfl) hslots
      (Prod.mk.eta (p := polled)).symm hfires
  obtain rfl : ⟨1⟩ = c :=
    Option.some.inj ((by decide : _ = some ⟨1⟩).symm.trans hcallee)
  obtain rfl : _ = t := congrArg Prod.snd hopt
  obtain rfl : ⟨1⟩ = b :=
    Option.some.inj ((by decide +kernel : _ = some ⟨1⟩).symm.trans hbody)
  obtain rfl : ⟨1⟩ = anchor :=
    Option.some.inj ((by decide : _ = some ⟨1⟩).symm.trans hnext)
  exact ⟨hoffers, hclosed, hslots, hfires, by decide +kernel, _,
    hunfolds ((hkept hclosed).1 ⟨1⟩ ⟨1⟩ hbody) (by decide +kernel)⟩

end Bytecode
