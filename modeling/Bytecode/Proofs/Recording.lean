import Mathlib
import Bytecode.Journal

/-!
# Recording runs

A journal does not keep its tables itself.  `Ordinary` says what it may expect
of whoever does: inside a transaction a row is put in, unless its key is taken,
or the change fails and leaves no trace; closing the transaction keeps all of
its changes or undoes them all; and a question is answered with the rows that
the statement asks for.  A change may also fail for reasons of its own.

Under these laws recording a run puts in its row and the rows of its counts, or
nothing. So the tables are always those of a list of runs, `Tables.ofRuns`, and
recording one either adds it to the list or fails.  Main statement:
`record_keeps`.

What a journal should answer can then be said of plain lists of runs: which of
them is the latest, what the counts of their passes add up to, and how a run
looks that has been kept and is read again.  `InMemory` keeps the tables as such
lists, and obeys the laws: `inMemory_ordinary`.
-/

namespace Bytecode.Journal

open Database (Value)

/-! ### Tables -/

/-- What the tables of a journal hold: rows in the order in which they have been
put in. -/
structure Tables where
  runs : List (List Value) := []
  counts : List (List Value) := []
  deriving DecidableEq, Repr

/-- The field of a row at a place. -/
def fieldAt (row : List Value) (n : Nat) : Value := row.getD n .null

/-- The number that a value is. -/
def numberOf : Value → Int
  | .integer n => n
  | _ => 0

/-- The order in which rows of runs are listed: the latest first, and by name if
they are of one time. -/
def Listed (a b : List Value) : Prop :=
  (((fieldAt a 1).order .utf8 .binary (fieldAt b 1)).swap.then
    ((fieldAt a 0).order .utf8 .binary (fieldAt b 0))) ≠ .gt

/-- All numbers of a change fit in 64 bits. -/
def Change.Fits (c : Change) : Prop :=
  ∀ n, .integer n ∈ c.values → Word.fitsSigned64 n = true

namespace Tables

/-- The key of the row that a change puts in is not taken. -/
def Admits (t : Tables) : Change → Prop
  | .insertRun r => .ofPlain r.id ∉ t.runs.map (fieldAt · 0)
  | .insertCount id pass _ =>
    (.ofPlain id, .ofPlain pass) ∉ t.counts.map fun row =>
      (fieldAt row 0, fieldAt row 1)

/-- The tables with the row that a change puts in. -/
def put (t : Tables) (c : Change) : Tables :=
  match c with
  | .insertRun _ => { t with runs := t.runs ++ [c.values] }
  | .insertCount _ _ _ => { t with counts := t.counts ++ [c.values] }

/-- The counts of a pass, in the order in which they have been put in. -/
def fired (t : Tables) (pass : Value) : List Int :=
  (t.counts.filter fun row => fieldAt row 1 = pass).map fun row =>
    numberOf (fieldAt row 2)

/-- No sum leaves 64 bits while the counts of a pass are added up one after the
other. -/
def Summable (t : Tables) : Prop :=
  ∀ pass front, front <+: t.fired pass → Word.fitsSigned64 front.sum = true

/-- The rows that a question asks for.  Only the runs are asked for in an
order. -/
def Shows (t : Tables) (q : Question) (rows : List (List Value)) : Prop :=
  match q with
  | .run id => rows = t.runs.filter fun row => fieldAt row 0 = .text id
  | .latest limit => ∃ l, l.Perm t.runs ∧ l.Pairwise Listed ∧
    rows = match limit with
      | none => l
      | some n => l.take n.toNat
  | .counts id => rows.Perm ((t.counts.filter
      fun row => fieldAt row 0 = .text id).map List.tail)
  | .totals => rows.Perm ((t.counts.map (fieldAt · 1)).dedup.map fun pass =>
    [pass, .integer (t.fired pass).sum])

end Tables

/-- The columns that a question asks for, with the types that they have in the
tables. -/
def Question.columns : Question → List Column
  | .run _ | .latest _ =>
    [⟨"id", "TEXT"⟩, ⟨"started", "INTEGER"⟩, ⟨"input", "TEXT"⟩,
      ⟨"output", "TEXT"⟩,
      ⟨"assembly", "TEXT"⟩, ⟨"methods", "INTEGER"⟩, ⟨"inlined", "INTEGER"⟩,
      ⟨"instructions_before", "INTEGER"⟩, ⟨"instructions_after", "INTEGER"⟩]
  | .counts _ => [⟨"pass", "TEXT"⟩, ⟨"fired", "INTEGER"⟩]
  | .totals => [⟨"pass", "TEXT"⟩, ⟨"SUM(fired)", ""⟩]

section

variable {S : Type} [Engine (StateM S)] {tables : S → Tables}
  {saved : S → Option Tables} {s s' : S}

/-- The laws of an engine.  `tables` are the tables that the statements of a
journal find, and `saved` those that an open transaction would go back to. -/
structure Ordinary (tables : S → Tables) (saved : S → Option Tables) :
    Prop where
  begins : ∀ s r s', saved s = none → (Engine.begin : StateM S _) s = (r, s') →
    tables s' = tables s ∧ saved s' = match r with
      | .ok _ => some (tables s)
      | .error _ => none
  changes : ∀ s c r s' t, c.Fits → saved s = some t →
    (Engine.change c : StateM S _) s = (r, s') →
    saved s' = some t ∧ match r with
      | .ok _ => (tables s).Admits c ∧ tables s' = (tables s).put c
      | .error _ => tables s' = tables s
  commits : ∀ s r s' t, saved s = some t → (Engine.commit : StateM S _) s =
    (r, s') → saved s' = none ∧ tables s' = match r with
      | .ok _ => tables s
      | .error _ => t
  rollsBack : ∀ s r s' t, saved s = some t →
    (Engine.rollback : StateM S _) s = (r, s') → saved s' = none ∧ tables s' = t
  asks : ∀ s q r s', saved s = none → (Engine.ask q : StateM S _) s = (r, s') →
    tables s' = tables s ∧ saved s' = none
  answers : ∀ s q, saved s = none → (q = .totals → (tables s).Summable) →
    ∃ rows s', (Engine.ask q : StateM S _) s =
    (.ok { columns := q.columns, rows }, s') ∧ (tables s).Shows q rows

/-! ### Lists of runs as tables -/

/-- The row of a run. -/
def rowOf (r : Run) : List Value := (Change.insertRun r).values

/-- The rows of the counts of a run. -/
def countRowsOf (r : Run) : List (List Value) :=
  r.passes.map fun (pass, n) => (Change.insertCount r.id pass n).values

/-- The tables that runs recorded one after the other leave. -/
def Tables.ofRuns (l : List Run) : Tables :=
  { runs := l.map rowOf, counts := l.flatMap countRowsOf }

/-- All numbers of a run fit in 64 bits. -/
def Storable (r : Run) : Prop := ∀ c ∈ Journal.changes r, c.Fits

/-- Changes made one after the other, up to the first that fails. -/
def changeAll (cs : List Change) : ExceptT Fault (StateM S) Unit :=
  forM cs fun c => during c.task (Engine.change c)

/-- The tables with the rows of changes that are all admitted, one after the
other. -/
inductive Takes : Tables → List Change → Tables → Prop where
  | nil (t : Tables) : Takes t [] t
  | cons {t t' : Tables} {c : Change} {cs : List Change} (admits : t.Admits c)
    (rest : Takes (t.put c) cs t') : Takes t (c :: cs) t'

omit [Engine (StateM S)] in
/-- What an action is part of is told with its failure. -/
theorem during_apply {α : Type} (task : String) (x : StateM S (Except Cause α))
    (s : S) :
    during task x s = ((x s).1.mapError fun c => .failed [task] c, (x s).2) :=
  rfl

/-- Changes made in a transaction leave it open; if none of them has failed, the
tables have taken them all. -/
theorem changeAll_takes (law : Ordinary tables saved) {t : Tables}
    {cs : List Change} (hfits : ∀ c ∈ cs, c.Fits) (hopen : saved s = some t)
    {r : Except Fault Unit} (hrun : changeAll cs s = (r, s')) :
    saved s' = some t ∧ ∀ u, r = .ok u → Takes (tables s) cs (tables s') := by
  induction cs generalizing s with
  | nil =>
      obtain ⟨rfl, rfl⟩ := Prod.mk.inj hrun
      exact ⟨hopen, fun _ _ => .nil _⟩
  | cons c cs ih =>
      have hrest : ∀ c ∈ cs, c.Fits :=
        fun c hc => hfits c (List.mem_cons_of_mem _ hc)
      rw [changeAll, List.forM_cons, bind_apply, during_apply] at hrun
      rcases hstep : (Engine.change c : StateM S _) s with ⟨cause | ⟨⟩, s₁⟩
      · rw [hstep] at hrun
        obtain ⟨rfl, rfl⟩ := Prod.mk.inj hrun
        have hlaw :=
          law.changes s c _ _ t (hfits c List.mem_cons_self) hopen hstep
        exact ⟨hlaw.1, fun u hu => by cases hu⟩
      · rw [hstep] at hrun
        obtain ⟨hopen₁, hadmits, hput⟩ :=
          law.changes s c _ _ t (hfits c List.mem_cons_self) hopen hstep
        obtain ⟨hopen₂, htakes⟩ := ih hrest hopen₁ hrun
        refine ⟨hopen₂, fun u hu => .cons hadmits ?_⟩
        rw [← hput]
        exact htakes u hu

/-- What recording does, one statement after the other. -/
theorem record_apply (run : Option Run) (s : S) :
    (record run : ExceptT Fault (StateM S) Unit) s = match recordable run with
      | .error f => (.error f, s)
      | .ok r =>
        match (Engine.begin : StateM S _) s with
        | (.error c, s₁) => (.error (.failed ["recording run"] c), s₁)
        | (.ok _, s₁) =>
          match changeAll (Journal.changes r) s₁ with
          | (.error f, s₂) => (.error f, ((Engine.rollback : StateM S _) s₂).2)
          | (.ok _, s₂) =>
              during "committing run" (Engine.commit : StateM S _) s₂ := by
  unfold record
  rw [bind_apply]
  cases hr : recordable run with
  | error f => rfl
  | ok r =>
      change (during "recording run" (Engine.begin : StateM S _) >>=
        fun _ => _) s = _
      rw [bind_apply, during_apply]
      obtain ⟨e | ⟨⟩, s₁⟩ := (Engine.begin : StateM S _) s
      · rfl
      · change (tryCatch (changeAll (Journal.changes r)) _ >>= fun _ => _) s₁ =
          _
        rw [bind_apply, tryCatch_apply]
        rcases hall : changeAll (Journal.changes r) s₁ with ⟨f | ⟨⟩, s₂⟩
        · simp only [hall, bind_apply]
          rfl
        · simp only [hall]

omit [Engine (StateM S)] in
/-- The counts of a run are put in if each of its passes is counted once, and
has not been counted for the run before. -/
theorem takes_counts {t t' : Tables} {id : String}
    {passes : List (String × Int)}
    (h : Takes t (passes.map fun (pass, n) => .insertCount id pass n) t') :
    t'.runs = t.runs ∧ t'.counts = t.counts ++ passes.map (fun (pass, n) =>
      (Change.insertCount id pass n).values) ∧ (passes.map (·.1)).Nodup ∧
    ∀ pass ∈ passes.map (·.1), (Value.ofPlain id, Value.ofPlain pass) ∉
    t.counts.map fun row => (fieldAt row 0, fieldAt row 1) := by
  induction passes generalizing t with
  | nil =>
      cases h
      simp
  | cons e passes ih =>
      obtain ⟨pass, n⟩ := e
      rw [List.map_cons] at h
      obtain _ | ⟨hadmits, hrest⟩ := h
      obtain ⟨hruns, hcounts, hnodup, hnew⟩ := ih hrest
      have hkeys : (t.put (.insertCount id pass n)).counts.map
          (fun row => (fieldAt row 0, fieldAt row 1)) =
          t.counts.map (fun row => (fieldAt row 0, fieldAt row 1)) ++
            [(Value.ofPlain id, Value.ofPlain pass)] := by
        simp [Tables.put, Change.values, fieldAt]
      have hout : pass ∉ passes.map (·.1) := fun hmem =>
        hnew pass hmem (hkeys ▸ List.mem_append_right _ List.mem_cons_self)
      refine ⟨hruns, ?_, ?_, ?_⟩
      · rw [hcounts]
        simp [Tables.put]
      · rw [List.map_cons, List.nodup_cons]
        exact ⟨hout, hnodup⟩
      · intro pass' hpass'
        rw [List.map_cons, List.mem_cons] at hpass'
        rcases hpass' with rfl | hpass'
        · exact hadmits
        · exact fun hmem =>
            hnew pass' hpass' (hkeys ▸ List.mem_append_left _ hmem)

/-- One run more. -/
theorem ofRuns_append (l : List Run) (r : Run) : Tables.ofRuns (l ++ [r]) =
    { runs := (Tables.ofRuns l).runs ++ [rowOf r]
      counts := (Tables.ofRuns l).counts ++ countRowsOf r } := by
  simp [Tables.ofRuns]

/-- The names of the runs of a table. -/
theorem ids_ofRuns (l : List Run) : (Tables.ofRuns l).runs.map (fieldAt · 0) =
    l.map fun r => Value.ofPlain r.id := by
  simp [Tables.ofRuns, rowOf, Change.values, fieldAt]

/-- Texts are told apart as values. -/
theorem ofPlain_injective {a b : String}
    (h : Value.ofPlain a = Value.ofPlain b) : a = b :=
  Text.ofPlain_injective (Value.text.inj h)

/-- A run that can be recorded has a name. -/
theorem named_of_recordable {run : Option Run} {x : Run}
    (h : recordable run = .ok x) : run = some x ∧ x.id ≠ "" := by
  unfold recordable at h
  split at h
  · next y hy =>
      obtain ⟨hsome, hid⟩ := Option.filter_eq_some_iff.mp hy
      obtain rfl := Except.ok.inj h
      exact ⟨hsome, by simpa using hid⟩
  · cases h

/-- **Recording.**  A run is added to the runs that the tables hold, or
recording it fails and the tables are as before.  Only a run with a name that no
other run has, and with no pass counted twice, can be added. -/
theorem record_keeps (law : Ordinary tables saved) {l : List Run}
    {run : Option Run} {r : Except Fault Unit} (htables : tables s = .ofRuns l)
    (hidle : saved s = none) (hfits : ∀ x ∈ run, Storable x)
    (hrun : (record run : ExceptT Fault (StateM S) Unit) s = (r, s')) :
    saved s' = none ∧ match r with
      | .ok _ => ∃ x, run = some x ∧ x.id ≠ "" ∧ x.id ∉ l.map (·.id) ∧
          (x.passes.map (·.1)).Nodup ∧ tables s' = .ofRuns (l ++ [x])
      | .error _ => tables s' = .ofRuns l := by
  rw [record_apply] at hrun
  cases hx : recordable run with
  | error f =>
      simp only [hx] at hrun
      obtain ⟨rfl, rfl⟩ := Prod.mk.inj hrun
      exact ⟨hidle, htables⟩
  | ok x =>
      obtain ⟨rfl, hid⟩ := named_of_recordable hx
      rcases hbegin : (Engine.begin : StateM S _) s with ⟨e | ⟨⟩, s₁⟩
      · simp only [hx, hbegin] at hrun
        obtain ⟨rfl, rfl⟩ := Prod.mk.inj hrun
        obtain ⟨hsame, hsaved⟩ := law.begins s _ _ hidle hbegin
        exact ⟨hsaved, hsame.trans htables⟩
      · obtain ⟨hsame, hopen⟩ := law.begins s _ _ hidle hbegin
        simp only at hopen
        rcases hall : changeAll (Journal.changes x) s₁ with ⟨f | ⟨⟩, s₂⟩
        · simp only [hx, hbegin, hall] at hrun
          obtain ⟨rfl, rfl⟩ := Prod.mk.inj hrun
          obtain ⟨hopen₂, -⟩ := changeAll_takes law (hfits x rfl) hopen hall
          obtain ⟨hidle', hback⟩ := law.rollsBack s₂ _ _ _ hopen₂ rfl
          exact ⟨hidle', hback.trans htables⟩
        · simp only [hx, hbegin, hall, during_apply] at hrun
          obtain ⟨hopen₂, htakes⟩ :=
            changeAll_takes law (hfits x rfl) hopen hall
          rcases hcommit : (Engine.commit : StateM S _) s₂ with ⟨e | ⟨⟩, s₃⟩
          · rw [hcommit] at hrun
            obtain ⟨rfl, rfl⟩ := Prod.mk.inj hrun
            obtain ⟨hidle', hback⟩ := law.commits s₂ _ _ _ hopen₂ hcommit
            exact ⟨hidle', hback.trans htables⟩
          · rw [hcommit] at hrun
            obtain ⟨rfl, rfl⟩ := Prod.mk.inj hrun
            obtain ⟨hidle', hkept⟩ := law.commits s₂ _ _ _ hopen₂ hcommit
            have htaken := htakes () rfl
            rw [hsame, htables, Journal.changes] at htaken
            obtain _ | ⟨hadmits, hrest⟩ := htaken
            obtain ⟨hruns, hcounts, hnodup, -⟩ := takes_counts hrest
            have hnew : x.id ∉ l.map (·.id) := by
              intro hmem
              apply hadmits
              rw [ids_ofRuns]
              obtain ⟨y, hy, hyx⟩ := List.mem_map.mp hmem
              exact List.mem_map.mpr ⟨y, hy, by rw [hyx]⟩
            refine ⟨hidle', x, rfl, hid, hnew, hnodup, ?_⟩
            rw [ofRuns_append]
            simp only at hkept
            rw [hkept]
            cases hs₂ : tables s₂ with
            | mk runs counts =>
                rw [hs₂] at hruns hcounts
                simp only at hruns hcounts
                rw [hruns, hcounts]
                rfl

end

end Bytecode.Journal

namespace Bytecode

namespace Run

/-! ### What comes back -/

/-- Counts as they are kept: under names of bytes. -/
def keptCounts (counts : List (String × Int)) : List (String × Int) :=
  counts.map fun (pass, n) => (Text.ofPlain pass, n)

/-- A run as it comes back: its counts are in the order of the names that are
kept for them. -/
def readBack (r : Run) : Run :=
  { r with passes := legible (sorted (keptCounts r.passes)) }

/-- The order in which runs are listed: the latest first, and by the bytes of
their names if they are of one time. -/
def Before (a b : Run) : Prop :=
  b.started < a.started ∨ a.started = b.started ∧
    Text.utf8 a.id ≤ Text.utf8 b.id

instance : DecidableRel Before := fun _ _ => inferInstanceAs (Decidable (_ ∨ _))

/-- Runs in the order in which they are listed. -/
def newestFirst (runs : List Run) : List Run :=
  runs.mergeSort fun a b => decide (Before a b)

/-- The counts of a pass in some runs, one after the other. -/
def countsIn (runs : List Run) (pass : String) : List Int :=
  ((runs.flatMap (·.passes)).filter (·.1 = pass)).map (·.2)

/-- The names of the passes that occur in some runs. -/
def passesIn (runs : List Run) : List String :=
  ((runs.flatMap (·.passes)).map (·.1)).dedup

/-- The sums of the counts in some runs, in the order of the names that are kept
for them. -/
def totals (runs : List Run) : List (String × Int) :=
  legible (sorted (keptCounts
    ((passesIn runs).map fun pass => (pass, (countsIn runs pass).sum))))

/-- No sum leaves 64 bits while the counts of a pass are added up one after the
other. -/
def Summable (runs : List Run) : Prop :=
  ∀ pass front, front <+: countsIn runs pass →
    Word.fitsSigned64 front.sum = true

/-- Counts that are kept have different names. -/
theorem nodup_keptCounts {counts : List (String × Int)}
    (h : (counts.map (·.1)).Nodup) : ((keptCounts counts).map (·.1)).Nodup := by
  have hmap :
      (keptCounts counts).map (·.1) = (counts.map (·.1)).map Text.ofPlain := by
    simp [keptCounts]
  rw [hmap]
  exact h.map fun _ _ => Text.ofPlain_injective

/-- Counts under different names have one order. -/
theorem sorted_eq {l l' : List (String × Int)} (h : l.Perm l')
    (hnd : (l.map (·.1)).Nodup) : sorted l = sorted l' := by
  have hsorted : ∀ l : List (String × Int), (sorted l).Pairwise fun a b =>
      a.1 ≤ b.1 := by
    intro l
    have htrans : ∀ a b c : String × Int, decide (a.1 ≤ b.1) →
        decide (b.1 ≤ c.1) → decide (a.1 ≤ c.1) := by
      intro a b c hab hbc
      simpa using String.le_trans (by simpa using hab) (by simpa using hbc)
    have htotal : ∀ a b : String × Int, (decide (a.1 ≤ b.1) ||
        decide (b.1 ≤ a.1)) = true := by
      intro a b
      simpa using String.le_total a.1 b.1
    exact (List.pairwise_mergeSort htrans htotal l).imp fun hab => by
      simpa using hab
  have hperm : (sorted l).Perm (sorted l') :=
    (List.mergeSort_perm _ _).trans (h.trans (List.mergeSort_perm _ _).symm)
  refine List.Perm.eq_of_pairwise (fun a b ha hb hab hba => ?_) (hsorted l)
    (hsorted l') hperm
  have ha' : a ∈ l := (List.mergeSort_perm _ _).mem_iff.mp ha
  have hb' : b ∈ l := h.mem_iff.mpr ((List.mergeSort_perm _ _).mem_iff.mp hb)
  exact List.inj_on_of_nodup_map hnd ha' hb' (String.le_antisymm hab hba)

/-- There is one sum for each pass. -/
theorem nodup_sums (runs : List Run) : (((passesIn runs).map
      fun pass => (pass, (countsIn runs pass).sum)).map (·.1)).Nodup := by
  have hid : ((passesIn runs).map fun pass =>
      (pass, (countsIn runs pass).sum)).map (·.1) = passesIn runs := by
    rw [List.map_map]
    exact List.map_id _
  rw [hid]
  exact List.nodup_dedup _

/-- Listing runs leaves none out. -/
theorem newestFirst_perm (runs : List Run) : (newestFirst runs).Perm runs :=
  List.mergeSort_perm _ _

/-- Runs are listed in an order. -/
theorem Before.trans {a b c : Run} (hab : Before a b) (hbc : Before b c) :
    Before a c := by
  rcases hab with hab | ⟨hab, hab'⟩
  · rcases hbc with hbc | ⟨hbc, -⟩
    · exact Or.inl (lt_trans hbc hab)
    · exact Or.inl (hbc ▸ hab)
  · rcases hbc with hbc | ⟨hbc, hbc'⟩
    · exact Or.inl (hab ▸ hbc)
    · exact Or.inr ⟨hab.trans hbc, List.le_trans hab' hbc'⟩

/-- Of two runs one is listed first. -/
theorem before_total (a b : Run) : Before a b ∨ Before b a := by
  rcases lt_trichotomy a.started b.started with h | h | h
  · exact Or.inr (Or.inl h)
  · rcases List.le_total (Text.utf8 a.id) (Text.utf8 b.id) with hle | hle
    · exact Or.inl (Or.inr ⟨h, hle⟩)
    · exact Or.inr (Or.inr ⟨h.symm, hle⟩)
  · exact Or.inl (Or.inl h)

/-- Runs of one time that are listed in front of each other have one name. -/
theorem Before.antisymm {a b : Run} (hab : Before a b) (hba : Before b a) :
    a.id = b.id := by
  rcases hab with hab | ⟨hab, hab'⟩
  · rcases hba with hba | ⟨hba, -⟩
    · exact absurd hab (lt_asymm hba)
    · exact absurd hab (lt_irrefl _ <| hba ▸ ·)
  · rcases hba with hba | ⟨-, hba'⟩
    · exact absurd hba (lt_irrefl _ <| hab ▸ ·)
    · exact Text.utf8_injective (List.le_antisymm hab' hba')

/-- A list of runs is in that order. -/
theorem pairwise_newestFirst (runs : List Run) :
    (newestFirst runs).Pairwise Before := by
  have htrans : ∀ a b c : Run, decide (Before a b) → decide (Before b c) →
      decide (Before a c) := by
    intro a b c hab hbc
    simpa using Before.trans (by simpa using hab) (by simpa using hbc)
  have htotal : ∀ a b : Run, (decide (Before a b) || decide (Before b a)) =
      true := by
    intro a b
    simpa using before_total a b
  exact (List.pairwise_mergeSort htrans htotal runs).imp fun hab => by
    simpa using hab

end Run

namespace Journal

open Database (Value)

/-! ### The order of rows -/

/-- Sequences of bytes are in order as they are compared. -/
theorem compareBytes_ne_gt {s t : List UInt8} :
    Value.compareBytes s t ≠ .gt ↔ s ≤ t := by
  induction s generalizing t with
  | nil =>
      cases t <;> simp [Value.compareBytes]
  | cons a s ih =>
      cases t with
      | nil => simp [Value.compareBytes]
      | cons b t =>
          rw [Value.compareBytes, List.cons_le_cons_iff, ← ih,
            UInt8.lt_iff_toNat_lt, ← UInt8.toNat_inj]
          rcases lt_trichotomy a.toNat b.toNat with h | h | h
          · simp [Nat.compare_eq_lt.mpr h, h]
          · simp [h]
          · have h' : compare a.toNat b.toNat = .gt := Nat.compare_eq_gt.mpr h
            simp [h', h.ne', not_lt.mpr h.le]

/-- Rows of runs are listed in the order of the runs. -/
theorem listed_iff (a b : Run) : Listed (rowOf a) (rowOf b) ↔ a.Before b := by
  have hids : ∀ r : Run, (Value.ofPlain r.id) = .text (Text.ofPlain r.id) :=
    fun _ => rfl
  simp only [Listed, rowOf, Change.values, fieldAt, List.getD_cons_zero,
    List.getD_cons_succ, Value.order, hids, Database.Collation.bytes,
    Database.Encoding.bytes, Text.encode_ofPlain,
    Run.Before, ← compareBytes_ne_gt]
  rcases lt_trichotomy a.started b.started with h | h | h
  · simp [compare_lt_iff_lt.mpr h, h.ne, not_lt.mpr h.le]
  · simp [h]
  · simp [compare_gt_iff_gt.mpr h, h]

/-! ### Tables in memory -/

/-- What has been put into the tables of a journal. -/
structure Written where
  runs : List Run := []
  counts : List (String × String × Int) := []
  deriving DecidableEq, Repr

namespace Written

/-- The tables as a journal knows them. -/
def tables (w : Written) : Tables where
  runs := w.runs.map rowOf
  counts :=
    w.counts.map fun (id, pass, n) => (Change.insertCount id pass n).values

/-- Puts one more row in. -/
def put (w : Written) : Change → Written
  | .insertRun r => { w with runs := w.runs ++ [r] }
  | .insertCount id pass n => { w with counts := w.counts ++ [(id, pass, n)] }

/-- A row that is written is in the tables. -/
theorem tables_put (w : Written) (c : Change) :
    (w.put c).tables = w.tables.put c := by
  cases c <;> simp [put, tables, Tables.put, rowOf]

/-- Adds up numbers one after the other; none of the sums on the way may leave
64 bits. -/
def addUp (sum : Int) : List Int → Except Cause Int
  | [] => .ok sum
  | n :: rest =>
    if Word.fitsSigned64 (sum + n) then addUp (sum + n) rest
    else .error (.other "SQL logic error: integer overflow (1)")

/-- Numbers are added up if none of their sums is out of range. -/
theorem addUp_eq {sum : Int} {counts : List Int} (h : ∀ front, front <+:
      counts → Word.fitsSigned64 (sum + front.sum) = true) :
    addUp sum counts = .ok (sum + counts.sum) := by
  induction counts generalizing sum with
  | nil => simp [addUp]
  | cons n counts ih =>
      have hfirst : Word.fitsSigned64 (sum + n) = true := by
        simpa using h [n] ⟨counts, rfl⟩
      have hrest : ∀ front, front <+: counts →
          Word.fitsSigned64 (sum + n + front.sum) = true := by
        intro front hfront
        have := h (n :: front) (List.prefix_cons_inj n |>.mpr hfront)
        rwa [List.sum_cons, ← Int.add_assoc] at this
      rw [addUp, if_pos hfirst, ih hrest, List.sum_cons, Int.add_assoc]

/-- The rows of the sums for some passes. -/
def sums (w : Written) (passes : List Value) :
    Except Cause (List (List Value)) :=
  passes.mapM fun pass =>
    return [pass, .integer (← addUp 0 (w.tables.fired pass))]

/-- Counts are summed up if none of their sums is out of range. -/
theorem sums_eq {w : Written} (h : w.tables.Summable) (passes : List Value) :
    w.sums passes = .ok (passes.map
      fun pass => [pass, .integer (w.tables.fired pass).sum]) := by
  have hsum : ∀ pass, addUp 0 (w.tables.fired pass) =
      .ok (w.tables.fired pass).sum := by
    intro pass
    have hfits : ∀ front, front <+: w.tables.fired pass →
        Word.fitsSigned64 (0 + front.sum) = true := by
      intro front hfront
      simpa using h pass front hfront
    simpa using addUp_eq hfits
  induction passes with
  | nil => rfl
  | cons pass passes ih =>
      rw [sums] at ih ⊢
      rw [List.mapM_cons, hsum, ih]
      rfl

/-- The rows that a question asks for. -/
def answer (w : Written) : Question → Except Cause (List (List Value))
  | .run id => .ok (w.tables.runs.filter fun row => fieldAt row 0 = .text id)
  | .latest none => .ok ((Run.newestFirst w.runs).map rowOf)
  | .latest (some n) => .ok (((Run.newestFirst w.runs).map rowOf).take n.toNat)
  | .counts id => .ok ((w.tables.counts.filter
      fun row => fieldAt row 0 = .text id).map List.tail)
  | .totals => w.sums (w.tables.counts.map (fieldAt · 1)).dedup

/-- An answer shows what the tables hold. -/
theorem answer_shows {w : Written} {q : Question}
    (h : q = .totals → w.tables.Summable) :
    ∃ rows, w.answer q = .ok rows ∧ w.tables.Shows q rows := by
  have hperm : ((Run.newestFirst w.runs).map rowOf).Perm w.tables.runs :=
    (Run.newestFirst_perm w.runs).map rowOf
  have hsorted : ((Run.newestFirst w.runs).map rowOf).Pairwise Listed :=
    (Run.pairwise_newestFirst w.runs).map rowOf fun a b hab =>
      (listed_iff a b).mpr hab
  cases q with
  | run id => exact ⟨_, rfl, rfl⟩
  | latest limit =>
      cases limit with
      | none => exact ⟨_, rfl, _, hperm, hsorted, rfl⟩
      | some n => exact ⟨_, rfl, _, hperm, hsorted, rfl⟩
  | counts id => exact ⟨_, rfl, .refl _⟩
  | totals => exact ⟨_, sums_eq (h rfl) _, .refl _⟩

end Written

/-- Tables in memory, and those that an open transaction would go back to. -/
structure InMemory where
  now : Written := {}
  saved : Option Written := none
  deriving DecidableEq, Repr

instance (t : Tables) (c : Change) : Decidable (t.Admits c) :=
  match c with
  | .insertRun _ => inferInstanceAs (Decidable (_ ∉ _))
  | .insertCount _ _ _ => inferInstanceAs (Decidable (_ ∉ _))

/-- Why a transaction cannot be closed. -/
def inactive : Cause := .other "no transaction is active"

instance : Engine (StateM InMemory) where
  begin := fun s => match s.saved with
    | none => (.ok (), { s with saved := some s.now })
    | some _ => (.error (.other "a transaction is active"), s)
  commit := fun s => match s.saved with
    | none => (.error inactive, s)
    | some _ => (.ok (), { s with saved := none })
  rollback := fun s => match s.saved with
    | none => (.error inactive, s)
    | some w => (.ok (), { now := w })
  change := fun c s =>
    if s.now.tables.Admits c then (.ok (), { s with now := s.now.put c })
    else (.error (.other "UNIQUE constraint failed"), s)
  ask := fun q s =>
    ((s.now.answer q).map fun rows => { columns := q.columns, rows }, s)

/-- **Tables in memory are ordinary.** -/
theorem inMemory_ordinary : Ordinary (fun s : InMemory =>
      s.now.tables) (fun s => s.saved.map Written.tables) where
  begins := by
    rintro ⟨now, saved⟩ r s' hidle hrun
    obtain rfl : saved = none := by simpa using hidle
    obtain ⟨rfl, rfl⟩ := Prod.mk.inj hrun
    exact ⟨rfl, rfl⟩
  changes := by
    rintro ⟨now, saved⟩ c r s' t - hopen hrun
    change (if now.tables.Admits c then _ else _) = _ at hrun
    split at hrun
    · next hadmits =>
        obtain ⟨rfl, rfl⟩ := Prod.mk.inj hrun
        exact ⟨hopen, hadmits, now.tables_put c⟩
    · obtain ⟨rfl, rfl⟩ := Prod.mk.inj hrun
      exact ⟨hopen, rfl⟩
  commits := by
    rintro ⟨now, saved⟩ r s' t hopen hrun
    obtain ⟨w, rfl, rfl⟩ : ∃ w, saved = some w ∧ w.tables = t := by
      simpa using hopen
    obtain ⟨rfl, rfl⟩ := Prod.mk.inj hrun
    exact ⟨rfl, rfl⟩
  rollsBack := by
    rintro ⟨now, saved⟩ r s' t hopen hrun
    obtain ⟨w, rfl, rfl⟩ : ∃ w, saved = some w ∧ w.tables = t := by
      simpa using hopen
    obtain ⟨rfl, rfl⟩ := Prod.mk.inj hrun
    exact ⟨rfl, rfl⟩
  asks := by
    rintro s q r s' hidle hrun
    obtain ⟨rfl, rfl⟩ := Prod.mk.inj hrun
    exact ⟨rfl, hidle⟩
  answers := by
    intro s q _ hsum
    obtain ⟨rows, hrows, hshows⟩ := Written.answer_shows hsum
    refine ⟨rows, s, ?_, hshows⟩
    change ((s.now.answer q).map _, s) = _
    rw [hrows]
    rfl

end Journal

end Bytecode
