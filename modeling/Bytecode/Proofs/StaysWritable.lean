import Mathlib
import Bytecode.Proofs.Fitting
import Bytecode.Proofs.EachReturn
import Bytecode.Proofs.RoundTrip
import Bytecode.Proofs.TakenIn

/-!
# What has been optimised can be written, as long as there are few slots

Loading checks each instruction of a file by itself.  What comes of it is more
than that: the program is well linked, methods share no bodies, branches stay in
their bodies, and every body fits into a file again.  A loaded method makes a
body of its own with instructions of its own, and `Fresh` is what every one of
them leaves, `fresh_loadMethod`.  So the optimiser can be given any program that
has been read, `decode_fresh`.

Bodies stay fit whatever passes are applied.  So there is only one thing that
can go wrong when the program is written afterwards: a slot is named whose
number takes more than 16 bits.  Only the inliner can bring this about, by
giving a caller the slots of its callees, and only in a body that has more than
65536 of them, `stays_writable`.
-/

namespace Bytecode

namespace Program

/-- What is read of an array with one element more. -/
theorem getD_push {α : Type} (xs : Array α) (a d : α) (n : Nat) :
    (xs.push a).getD n d = if n = xs.size then a else xs.getD n d := by
  simp only [Array.getD_eq_getD_getElem?, Array.getElem?_push]
  split
  · rfl
  · rfl

end Program

namespace File

variable {p q : Program} {d : Document} {b c : BodyId} {m : MethodId}
  {s : StoredBody} {us : List Unpacked} {x : Method} {y : Body}
  {bytes : List UInt8}

/-! ### Bodies -/

namespace LoadedBody

variable (h : LoadedBody d q s b)

include h

/-- The instructions of a body are unpacked. -/
theorem mem_unpacked {i : InstrId} (hi : i ∈ q.code b) :
    Unpacked.ofInstr (q.body b) (q.instr i) ∈ unpacked q b := by
  rw [unpacked_eq h.unlinked]
  exact List.mem_map_of_mem (by rwa [← code_eq h.unlinked])

/-- A body that has been unpacked fits. -/
theorem fit : q.Fit b := by
  refine ⟨h.numbered, fun x hx => ?_⟩
  obtain ⟨i, hi, rfl⟩ := Program.mem_contents.mp hx
  obtain ⟨hvalid, hsuits, -⟩ := h.reads.suits h.numbered _ (h.mem_unpacked hi)
  exact Body.takes_bare.mpr ⟨hvalid, (suits_ofInstr _).mp hsuits⟩

/-- Its slots are few enough. -/
theorem shortSlots : q.ShortSlots b := by
  intro i hi
  obtain ⟨-, -, hshort⟩ := h.reads.suits h.numbered _ (h.mem_unpacked hi)
  exact (shortSlot_ofInstr _).mp hshort

/-- Its branches stay inside. -/
theorem closed : q.Closed b := by
  intro i hi hbr
  have hs := (Opcode.isBranch_iff _).mp hbr
  have htidy := (h.reads.each _ (h.mem_unpacked hi)).2.1
  have hsome := (htidy.branch hs).2
  rw [Unpacked.branch_ofInstr hs] at hsome
  obtain ⟨n, hn⟩ := Option.isSome_iff_exists.mp hsome
  obtain ⟨t, ht, hidx⟩ := Option.bind_eq_some_iff.mp hn
  refine ⟨t, ?_, ht⟩
  rw [code_eq h.unlinked]
  exact List.isSome_idxOf?.mp (by rw [hidx]; rfl)

end LoadedBody

/-! ### Programs -/

/-- Every body of a method is as it has been loaded, and belongs to that method
alone. -/
structure Fresh (d : Document) (p : Program) : Prop where
  linked : p.WellLinked
  unshared : p.Unshared
  loaded : ∀ m b, (p.method m).body = some b → ∃ s, LoadedBody d p s b

/-- A program with one method more. -/
theorem method_push (hq : q.methods = p.methods.push x) (m : MethodId) :
    q.method m = if m = ⟨p.methods.size⟩ then x else p.method m := by
  rw [Program.method, hq, Program.getD_push]
  cases m
  simp [Program.method]

/-- A program stays fresh with a method without a body. -/
theorem fresh_withBare (h : Fresh d p) (hx : x.body = none) :
    Fresh d (withBare p x) := by
  have hmethod : ∀ m b, ((withBare p x).method m).body = some b →
      (p.method m).body = some b := by
    intro m b hb
    rw [method_push (q := withBare p x) rfl] at hb
    split at hb
    · rw [hx] at hb
      cases hb
    · exact hb
  refine ⟨⟨h.linked.unbroken, h.linked.nodup, h.linked.owned⟩,
    fun m m' b hb hb' => ?_, fun m b hb => ?_⟩
  · exact h.unshared m m' b (hmethod m b hb) (hmethod m' b hb')
  · obtain ⟨s, hs⟩ := h.loaded m b (hmethod m b hb)
    exact ⟨s, hs.grow (grows_withBare p x)⟩

/-- A program with one body more. -/
theorem body_withBody_eq (c : BodyId) : (withBody p x s us).body c =
    if c = ⟨p.bodies.size⟩ then
      s.placed p.instrs.size (some ⟨p.methods.size⟩) us
      else p.body c := by
  rw [Program.body, withBody, Program.getD_push]
  cases c
  simp [Program.body]

/-- The new instructions stand in the new body, and in no other. -/
theorem wellLinked_withBody (hp : p.WellLinked) :
    (withBody p x s us).WellLinked := by
  have hgrows := grows_withBody p x s us
  have hnew : ∀ n < us.length, (withBody p x s us).owner ⟨p.instrs.size + n⟩ =
      some ⟨p.bodies.size⟩ := by
    intro n hn
    rw [Program.owner, instr_withBody p x s hn]
    rfl
  refine Program.wellLinked_iff.mpr ⟨hp.unbroken, fun n _ => ?_,
    fun n hn b hb => ?_⟩
  · rw [body_withBody_eq]
    split
    · next hlast =>
        refine ⟨List.Nodup.map (fun k l hkl => ?_) List.nodup_range,
          fun i hi => ?_⟩
        · have : p.instrs.size + k = p.instrs.size + l :=
            congrArg InstrId.index hkl
          omega
        · obtain ⟨k, hk, rfl⟩ := List.mem_map.mp hi
          rw [hlast]
          exact hnew k (List.mem_range.mp hk)
    · refine ⟨hp.nodup _, fun i hi => ?_⟩
      have hi' : i ∈ p.code ⟨n⟩ := by rwa [hp.code]
      rw [Program.owner, hgrows.instr (hp.has hi')]
      exact (hp.owned _ i).mp hi
  · by_cases hold : n < p.instrs.size
    · rw [Option.mem_def, Program.owner, hgrows.instr (i := ⟨n⟩) hold] at hb
      have hmem := (hp.owned b ⟨n⟩).mpr hb
      have hpresent := hp.present (b := b) (i := ⟨n⟩) (by rwa [hp.code])
      rwa [hgrows.body hpresent]
    · have hn' : n < p.instrs.size + us.length := by simpa [withBody] using hn
      obtain ⟨k, rfl⟩ := Nat.exists_eq_add_of_le (Nat.le_of_not_lt hold)
      have hk : k < us.length := by omega
      cases (hnew k hk).symm.trans hb
      rw [body_withBody_eq, if_pos rfl]
      exact List.mem_map_of_mem (List.mem_range.mpr hk)

/-- A program stays fresh with a body that has been read. -/
theorem fresh_withBody (h : Fresh d p)
    (hus : Reads d (numbered s.locals) s.code us) (hin : Inside us) :
    Fresh d (withBody p x s us) := by
  have hp := h.linked
  have hmethod := method_push (q := withBody p x s us) rfl
  have hpresent : ∀ m b, (p.method m).body = some b →
      b.index < p.bodies.size := by
    intro m b hb
    obtain ⟨s, hs⟩ := h.loaded m b hb
    exact hs.present
  have hnew : ∀ m b, ((withBody p x s us).method m).body = some b → m =
      ⟨p.methods.size⟩ ∧ b = ⟨p.bodies.size⟩ ∨ (p.method m).body = some b := by
    intro m b hb
    rw [hmethod] at hb
    split at hb
    · next hm => exact Or.inl ⟨hm, (Option.some.inj hb).symm⟩
    · exact Or.inr hb
  refine ⟨wellLinked_withBody hp, fun m m' b hb hb' => ?_, fun m b hb => ?_⟩
  · rcases hnew m b hb with ⟨rfl, rfl⟩ | hb
    · rcases hnew m' _ hb' with ⟨rfl, -⟩ | hb'
      · rfl
      · exact absurd (hpresent m' _ hb') (lt_irrefl _)
    · rcases hnew m' b hb' with ⟨-, rfl⟩ | hb'
      · exact absurd (hpresent m _ hb) (lt_irrefl _)
      · exact h.unshared m m' b hb hb'
  · rcases hnew m b hb with ⟨-, rfl⟩ | hb
    · exact ⟨s, loadedBody_withBody hp.unbroken x hus hin⟩
    · obtain ⟨s', hs'⟩ := h.loaded m b hb
      exact ⟨s', hs'.grow (grows_withBody p x s us)⟩

/-- A program stays fresh when a method is loaded. -/
theorem fresh_loadMethod {type : TypeName} {s : StoredMethod} (h : Fresh d p)
    (hload : loadMethod d type s p = .ok (m, q)) : Fresh d q := by
  obtain ⟨-, ⟨-, rfl⟩ | ⟨x, us, -, hus, hin, rfl⟩⟩ := loadMethod_ok_iff.mp hload
  · exact fresh_withBare h rfl
  · exact fresh_withBody h hus hin

/-- A program stays fresh when a type is loaded. -/
theorem fresh_loadType {s : StoredType} {t : TypeDef} (h : Fresh d p)
    (hload : loadType d s p = .ok (t, q)) : Fresh d q := by
  obtain ⟨⟨ms, r⟩, hms, hload⟩ := bind_ok_iff.mp hload
  cases hload
  exact (mapM_ok_iff.mp hms).kept (P := Fresh d)
    (fun _ hm hp => fresh_loadMethod hp hm) h

/-- A program stays fresh when a module is loaded. -/
theorem fresh_loadModule {s : StoredModule} {x : Module} (h : Fresh d p)
    (hload : loadModule d s p = .ok (x, q)) : Fresh d q := by
  obtain ⟨⟨ts, r⟩, hts, hload⟩ := bind_ok_iff.mp hload
  cases hload
  exact (mapM_ok_iff.mp hts).kept (P := Fresh d)
    (fun _ ht hp => fresh_loadType hp ht) h

/-- A program that has been loaded is fresh. -/
theorem fresh_load {a : Assembly} (hload : load d = .ok (a, q)) :
    Fresh d q := by
  obtain ⟨-, ms, hms, -⟩ := load_ok_iff.mp hload
  refine (mapM_ok_iff.mp hms).kept (P := Fresh d)
    (fun _ hy hp => fresh_loadModule hp hy) ?_
  have hbody : ∀ m b, (({} : Program).method m).body ≠ some b :=
    fun m b hb => by cases hb
  refine ⟨Program.wellLinked_iff.mpr ⟨rfl, ?_, ?_⟩, ?_, ?_⟩
  · exact fun n hn => absurd hn (Nat.not_lt_zero n)
  · exact fun n hn => absurd hn (Nat.not_lt_zero n)
  · exact fun m _ b hb => absurd hb (hbody m b)
  · exact fun m b hb => absurd hb (hbody m b)

/-- **What has been read is sound.**  The program of a file is well linked, its
methods share no bodies, no branch dangles, and every body can be packed
again. -/
theorem decode_fresh [Codec] {data : List UInt8} {file : File}
    (h : decode data = .ok file) :
    file.program.WellLinked ∧ file.program.Unshared ∧ file.program.NoDangling ∧
    ∀ m b, (file.program.method m).body = some b →
    file.program.Fit b ∧ file.program.ShortSlots b := by
  obtain ⟨_, d, -, -, hload⟩ := decode_ok_iff.mp h
  have hfresh := fresh_load hload
  refine ⟨hfresh.linked, hfresh.unshared, fun m b hb => ?_, fun m b hb => ?_⟩
  · obtain ⟨s, hs⟩ := hfresh.loaded m b hb
    exact hs.closed
  · obtain ⟨s, hs⟩ := hfresh.loaded m b hb
    exact ⟨hs.fit, hs.shortSlots⟩

end File

/-! ### Runs -/

namespace Program

variable {p : Program} {cfg : InlineSettings} {candidate : MethodId → Prop}
  {passes : List Pass}

/-- The bodies of all methods fit into a file, if their slots are short. -/
def AllFit (p : Program) : Prop := ∀ m b, (p.method m).body = some b → p.Fit b

/-- The bodies of all methods name short slots only. -/
def AllShort (p : Program) : Prop :=
  ∀ m b, (p.method m).body = some b → p.ShortSlots b

/-- No pass leaves a branch dangling. -/
theorem noDangling_survives : Survives cfg candidate passes NoDangling where
  effect := by
    intro e e' i pass m _ he hi hbody _ hchanged heffect hclosed
    exact hclosed.change he.linked hchanged.sound.linked hchanged.changed
      (heffect.closed he hi (hclosed m _ hbody))
  taken := fun _ _ _ _ _ _ _ _ _ _ hclosed _ => hclosed

/-- Bodies stay fit under all passes, whoever is taken in. -/
theorem allFit_survives : Survives cfg candidate passes AllFit where
  effect := by
    intro e e' i pass m _ he hi hbody hclosed hchanged heffect hfit
    refine hchanged.changed.each he.linked (fun c hagree hc =>
      hc.agree he.linked hchanged.sound.linked hagree) hfit ?_
    exact heffect.fit he hi (hclosed m _ hbody) (hfit m _ hbody)
  taken := by
    intro p q b c call anchor nop inner f m d hp _ hb hc _ hcall hnext
      _ _ hspliced _ hfit
    refine hspliced.changed.each hp
      (fun c hagree hc => hc.agree hp hspliced.linked hagree) hfit ?_
    exact hspliced.fit hp hcall hnext (hfit m b hb) (hfit d c hc)

/-- Slots stay short if nobody is taken in. -/
theorem allShort_survives : Survives cfg (fun _ => False) passes AllShort where
  effect := by
    intro e e' i pass m _ he hi hbody hclosed hchanged heffect hshort
    refine hchanged.changed.each he.linked (fun c hagree hc =>
      hc.agree he.linked hchanged.sound.linked hagree) hshort ?_
    exact heffect.shortSlots he hi (hclosed m _ hbody) (hshort m _ hbody)
  taken := by
    intro p q b c call anchor nop inner f m d _ _ _ _ _ _ _ _ hcandidate
    exact hcandidate.elim

end Program

namespace File

variable {p : Program} {a : Assembly}

/-- **When a program that fits can be written**: exactly if its methods name
short slots only. -/
theorem exists_encode_iff [Codec] (hclosed : p.NoDangling) (hfit : p.AllFit)
    (flags : UInt32) : (∃ bytes, encode p a flags = .ok bytes) ↔
    ∀ m ∈ a.methods, ∀ b ∈ (p.method m).body, p.ShortSlots b := by
  constructor
  · rintro ⟨bytes, h⟩ m hm b hb
    obtain ⟨d, hstores, -⟩ := encode_ok_iff.mp h
    obtain ⟨t, s, t', hmethod⟩ := hstores.each m hm
    obtain ⟨x, -, hx⟩ := hmethod.body b hb
    exact hx.shortSlots
  · intro hshort
    obtain ⟨d, hstores⟩ := Stores.exists fun m hm =>
      StoresMethod.exists fun b hb =>
        StoresBody.exists (hfit m b hb) (hclosed m b hb) (hshort m hm b hb)
    exact ⟨_, encode_ok_iff.mpr ⟨d, hstores, rfl⟩⟩

end File

namespace Optimizer

variable {σ : Type} {cfg : InlineSettings} {passes : List Pass}
  {start s : Session σ}

/-- Without the inliner among the passes, its settings do not matter. -/
theorem ofPasses_congr {cfg' : InlineSettings}
    (h : .inlineFunctionCall ∉ passes) :
    (ofPasses cfg passes : Optimizer σ) = ofPasses cfg' passes := by
  have hrules : passes.map (fun pass => (pass.rule cfg : Rule σ)) =
      passes.map fun pass => pass.rule cfg' := by
    refine List.map_congr_left fun pass hpass => ?_
    cases pass with
    | inlineFunctionCall => exact absurd hpass h
    | _ => rfl
  rw [ofPasses, ofPasses, hrules]

/-- **What has been optimised can be written, as long as there are few slots.**
A file is read, and an optimiser with any passes in any order, any policy and
any budget serves requests on its program.  When a request has come back, the
assembly can be written exactly if no method names a slot whose number takes
more than 16 bits; so it can be written if no body has more than 65536 slots,
and in any case if the inliner is not among the passes. -/
theorem stays_writable [File.Codec] {data : List UInt8} {file : File}
    (hread : File.decode data = .ok file)
    (hprogram : start.program = file.program) (hmemo : start.memo.recent = [])
    (hs : Served (ofPasses cfg passes) start s) (fuel : Nat) (q : Request)
    (hr : returned (q.perform (ofPasses cfg passes) fuel s).1 = true)
      (flags : UInt32) :
    let p := (q.perform (ofPasses cfg passes) fuel s).2.program
    ((∃ bytes, File.encode p file.assembly flags = .ok bytes) ↔
      ∀ m ∈ file.assembly.methods, ∀ b ∈ (p.method m).body, p.ShortSlots b) ∧
    ((∀ m ∈ file.assembly.methods, ∀ b ∈ (p.method m).body,
      (p.body b).locals.size ≤ 0x10000) →
      ∃ bytes, File.encode p file.assembly flags = .ok bytes) ∧
    (.inlineFunctionCall ∉ passes →
      ∃ bytes, File.encode p file.assembly flags = .ok bytes) := by
  intro p
  obtain ⟨hlinked, hshare, hclosed, hbodies⟩ := File.decode_fresh hread
  rw [← hprogram] at hlinked hshare hclosed hbodies
  have hany : cfg.Accepts (fun _ => True) start.program.methods :=
    fun _ _ _ _ _ => trivial
  have hclosed' : p.NoDangling :=
    (survives_request hany Program.noDangling_survives hlinked hshare hmemo rfl
      hclosed hclosed hs fuel q hr).1
  have hfit : p.AllFit :=
    (survives_request hany Program.allFit_survives hlinked hshare hmemo rfl
      hclosed (fun m b hb => (hbodies m b hb).1) hs fuel q hr).1
  have hiff := File.exists_encode_iff (a := file.assembly) hclosed' hfit flags
  refine ⟨hiff, fun hfew => hiff.mpr fun m hm b hb => ?_,
    fun hnot => hiff.mpr fun m _ b hb => ?_⟩
  · exact (hfit m b hb).shortSlots (hfew m hm b hb)
  · -- Settings under which nobody is accepted give the same optimiser.
    have hnobody : InlineSettings.Accepts { cfg with
        policy := .never } (fun _ => False) start.program.methods := nofun
    have hcongr : (ofPasses cfg passes : Optimizer σ) =
        ofPasses { cfg with policy := .never } passes := ofPasses_congr hnot
    have hshort : p.AllShort := by
      rw [hcongr] at hs hr
      have hkept := survives_request hnobody Program.allShort_survives hlinked
        hshare hmemo rfl hclosed (fun m b hb => (hbodies m b hb).2) hs fuel q hr
      rw [← hcongr] at hkept
      exact hkept.1
    exact hshort m b hb

/-- A document with a method that calls another one; each has a slot of its
own. -/
def callerOfStore : File.Document where
  name := "a"
  kind := 1
  methods := [⟨"T", "g", [], ""⟩]
  modules := [⟨"m", [⟨⟨"", "T"⟩, [
    ⟨"f", [], "", 1,
      some ⟨1, true, [("int32", "n")], [0x60, 0, 0, 0, 0, 0x70]⟩⟩,
    ⟨"g", [], "", 1,
      some ⟨1, true, [("int32", "k")], [0x22, 1, 0, 0, 0, 0x0a, 0x70]⟩⟩]⟩]⟩]

/-- What it is read as. -/
def callerOfStoreFile : File where
  header := ⟨File.formatVersion, 0⟩
  assembly := { name := "a", kind := .executable,
                modules := [⟨"m", [⟨⟨"", "T"⟩, [⟨0⟩, ⟨1⟩]⟩]⟩] }
  program :=
    { instrs := #[⟨.call, .method ⟨"T", "g", [], ""⟩, some ⟨0⟩⟩,
        ⟨⟨0x70⟩, .absent, some ⟨0⟩⟩, ⟨⟨0x22⟩, .int32 1, some ⟨1⟩⟩,
        ⟨⟨0x0a⟩, .absent, some ⟨1⟩⟩, ⟨⟨0x70⟩, .absent, some ⟨1⟩⟩],
      bodies := #[⟨[⟨0⟩, ⟨1⟩], #[⟨0, "int32", "n"⟩], 1, true, some ⟨0⟩⟩,
        ⟨[⟨2⟩, ⟨3⟩, ⟨4⟩], #[⟨0, "int32", "k"⟩], 1, true, some ⟨1⟩⟩],
      methods := #[
        { name := "f", attrs := 1, declaring := some ⟨"", "T"⟩,
          body := some ⟨0⟩ },
        { name := "g", attrs := 1, declaring := some ⟨"", "T"⟩,
          body := some ⟨1⟩ }] }

/-- The baseline policy without limits. -/
def inlineStore : InlineSettings where
  resolution := some (.ofMethods callerOfStoreFile.program [⟨0⟩, ⟨1⟩])
  policy := .baseline {}

/-- The session after a run over both methods with the standard passes. -/
def ranCallerOfStore : Except Fault Unit × Session Unit :=
  (Request.run callerOfStoreFile.assembly.methods).perform
    (ofPasses inlineStore Pass.standard) 40
    { program := callerOfStoreFile.program, client := () }

theorem fits_callerOfStore : callerOfStore.Fits := by
  constructor
  · decide +kernel
  · simp [callerOfStore, File.StoredBody.Fits, Word.minSigned64,
      Word.maxSigned64]

theorem load_callerOfStore : File.load callerOfStore =
    .ok (callerOfStoreFile.assembly, callerOfStoreFile.program) := by cbv

/-- The call is taken in, the caller gets a second slot, and what comes of it
can be written. -/
theorem stays_writable_callerOfStore :
    File.decode (File.Header.encode ⟨File.formatVersion, 0⟩ ++
      callerOfStore.toItem.encode) = .ok callerOfStoreFile ∧
    returned ranCallerOfStore.1 = true ∧ ranCallerOfStore.2.stats.inlined = 1 ∧
    (ranCallerOfStore.2.program.body ⟨0⟩).locals.size = 2 ∧ ∃ bytes, File.encode
    ranCallerOfStore.2.program callerOfStoreFile.assembly 1 = .ok bytes := by
  have hread : File.decode (File.Header.encode ⟨File.formatVersion, 0⟩ ++
      callerOfStore.toItem.encode) = .ok callerOfStoreFile :=
    File.decode_ok_iff.mpr ⟨_, callerOfStore, File.decode_header 0 _,
      File.readsBack_of_fits fits_callerOfStore, load_callerOfStore⟩
  have hstart : Served (ofPasses inlineStore Pass.standard)
      { program := callerOfStoreFile.program, client := () }
      { program := callerOfStoreFile.program, client := () } := .start
  -- the run is evaluated once for all that is read off from its end
  obtain ⟨hr, hinlined, hslots, hfew⟩ : returned ranCallerOfStore.1 = true ∧
      ranCallerOfStore.2.stats.inlined = 1 ∧
      (ranCallerOfStore.2.program.body ⟨0⟩).locals.size = 2 ∧
      ∀ m ∈ callerOfStoreFile.assembly.methods,
      ∀ b ∈ (ranCallerOfStore.2.program.method m).body,
      (ranCallerOfStore.2.program.body b).locals.size ≤ 0x10000 := by
    decide +kernel
  refine ⟨hread, hr, hinlined, hslots, ?_⟩
  rw [ranCallerOfStore] at hr hfew ⊢
  exact (stays_writable hread rfl rfl hstart 40 _ hr 1).2.1 hfew

end Optimizer

end Bytecode
