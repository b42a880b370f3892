import Bytecode.Proofs.Recording

/-!
# The journal as a list of runs

Whoever records runs one after the other may think of the journal as the list of
those runs that have been recorded.  `Reflects` says what it answers then: a run
under its name with all that was recorded of it, the latest runs, and for each
pass the sum of its counts.  Nothing is left of a run that could not be
recorded.

The sums have one condition.  They are made by adding up the counts of a pass in
the order in which they were recorded, and none of the sums on the way may leave
64 bits, even if the whole sum does not.  Main statement:
`journal_reflects_runs`; without the condition, `total_out_of_reach`.
-/

namespace Bytecode

namespace Journal

open Database (Value)
open Run (legible sorted)

/-! ### Rows -/

/-- The columns of texts hold texts. -/
theorem text_field (index : Nat) (name s : String) :
    Field.text ⟨index, ⟨name, "TEXT"⟩, .text s⟩ = .ok s := by
  have hno : Database.Token.lowered "TEXT" ∉ Field.Content.timeTypes := by
    decide
  simp [Field.text, Field.content, Field.Content.ofValue, hno,
    Field.Content.text?]

/-- Whole numbers are read from any column. -/
theorem whole_field (index : Nat) (column : Column) (n : Int) (kind : String) :
    Field.whole ⟨index, column, .integer n⟩ kind = .ok n := rfl

/-- Rows that can all be read are read. -/
theorem read_rows {α β : Type} {columns : List Column} (task scanning : String)
    {f : (Nat → Field) → Except Field.Defect α} {row : β → List Value}
    {g : β → α} (hf : ∀ x, f (fun n => (Reply.fields { columns } (row x)).getD n
      { index := n, column := { name := "" }, value := .null }) = .ok (g x))
    (l : List β) : Reply.read { columns, rows := l.map row } task scanning f =
    .ok (l.map g) := by
  have hrows : (l.map row).mapM (fun values => (f fun n =>
      (Reply.fields { columns, rows := l.map row } values).getD n
        { index := n, column := { name := "" }, value := .null }).mapError
          (Field.Defect.during · scanning)) = .ok (l.map g) := by
    have heach : ∀ x, (f
        fun n => (Reply.fields { columns, rows := l.map row } (row x)).getD n
        { index := n, column := { name := "" }, value := .null }) = .ok (g x) :=
      hf
    generalize { columns, rows := l.map row : Reply } = reply at heach
    induction l with
    | nil => rfl
    | cons x l ih =>
        rw [List.map_cons, List.mapM_cons, heach, ih]
        rfl
  rw [Reply.read]
  simp only [hrows]
  rfl

/-- A row of a run is read as the run with its texts as they are kept. -/
def keptRun (r : Run) : Run :=
  { r with
    id := Text.ofPlain r.id, input := Text.ofPlain r.input, output :=
      Text.ofPlain r.output
    assembly := Text.ofPlain r.assembly, passes := [] }

theorem read_run (id : String) (r : Run) : runOf (fun n =>
      (Reply.fields { columns := (Question.run id).columns } (rowOf r)).getD n
      { index := n, column := { name := "" }, value := .null }) =
    .ok (keptRun r) := by
  simp only [Reply.fields, Question.columns, rowOf, Change.values,
    List.zip_cons_cons, List.zip_nil_right,
    List.zipIdx_cons, List.zipIdx_nil, List.map_cons, List.map_nil, runOf,
    List.getD_cons_zero, List.getD_cons_succ, Value.ofPlain]
  simp only [text_field, whole_field, bind, Except.bind, pure, Except.pure]
  rfl

/-- The row of a count, without the run that it belongs to. -/
def countRow (e : String × Int) : List Value := [.ofPlain e.1, .integer e.2]

theorem read_count (id : String) (e : String × Int) :
    countOf (fun n => (Reply.fields
      { columns := (Question.counts id).columns } (countRow e)).getD n
      { index := n, column := { name := "" }, value := .null }) =
    .ok (Text.ofPlain e.1, e.2) := by
  simp only [Reply.fields, Question.columns, countRow, List.zip_cons_cons,
    List.zip_nil_right, List.zipIdx_cons, List.zipIdx_nil, List.map_cons,
    List.map_nil, countOf, List.getD_cons_zero,
    List.getD_cons_succ, Value.ofPlain]
  simp only [text_field, whole_field, bind, Except.bind, pure, Except.pure]

theorem read_total (e : String × Int) : countOf (fun n =>
      (Reply.fields { columns := Question.totals.columns } (countRow e)).getD n
      { index := n, column := { name := "" }, value := .null }) =
    .ok (Text.ofPlain e.1, e.2) := by
  simp only [Reply.fields, Question.columns, countRow, List.zip_cons_cons,
    List.zip_nil_right, List.zipIdx_cons, List.zipIdx_nil, List.map_cons,
    List.map_nil, countOf, List.getD_cons_zero,
    List.getD_cons_succ, Value.ofPlain]
  simp only [text_field, whole_field, bind, Except.bind, pure, Except.pure]

/-- Counts under different names are all kept. -/
theorem tally_eq {counts : List (String × Int)} (h : (counts.map (·.1)).Nodup) :
    tally counts = counts := by
  have hstep : ∀ known rest : List (String × Int),
      ((known ++ rest).map (·.1)).Nodup → rest.foldl (fun known e =>
        known.filter (·.1 ≠ e.1) ++ [e]) known = known ++ rest := by
    intro known rest hnd
    induction rest generalizing known with
    | nil => simp
    | cons e rest ih =>
        obtain ⟨name, n⟩ := e
        have hkeep : known.filter (·.1 ≠ name) = known := by
          rw [List.filter_eq_self]
          intro x hx
          rw [List.map_append] at hnd
          have hne := (List.nodup_append.mp hnd).2.2 x.1
            (List.mem_map_of_mem hx) name (by simp)
          simpa using hne
        rw [List.foldl_cons]
        simp only [hkeep]
        rw [ih (known ++ [(name, n)]) (by simpa using hnd), List.append_assoc,
          List.singleton_append]
  exact hstep [] counts (by simpa using h)

section

variable {S : Type} [Engine (StateM S)] {tables : S → Tables}
  {saved : S → Option Tables} {s s' : S} {l : List Run} {r : Run}

/-- The tables hold the rows of runs that have been recorded, and no transaction
is open. -/
structure Keeps (tables : S → Tables) (saved : S → Option Tables) (l : List Run)
    (s : S) : Prop where
  tables : tables s = .ofRuns l
  idle : saved s = none
  distinct : (l.map (·.id)).Nodup
  counted : ∀ r ∈ l, (r.passes.map (·.1)).Nodup

theorem Keeps.asked (h : Keeps tables saved l s) (law : Ordinary tables saved)
    {q : Question} {a : Except Cause Reply}
    (ha : (Engine.ask q : StateM S _) s = (a, s')) :
    Keeps tables saved l s' where
  tables := (law.asks s q a s' h.idle ha).1.trans h.tables
  idle := (law.asks s q a s' h.idle ha).2
  distinct := h.distinct
  counted := h.counted

theorem exists_of_perm_map {α β : Type} {f : α → β} {rows : List β}
    {xs : List α} (h : rows.Perm (xs.map f)) :
    ∃ ys : List α, rows = ys.map f ∧ ys.Perm xs :=
  (congrFun (congrFun (List.eq_map_comp_perm f) rows) xs).mpr h

omit [Engine (StateM S)] in
/-- The rows of the counts of a run, in any order. -/
theorem counts_shown (h : Keeps tables saved l s) (hr : r ∈ l)
    {rows : List (List Value)}
    (hrows : (tables s).Shows (.counts (Text.ofPlain r.id)) rows) :
    ∃ counts : List (String × Int), rows = counts.map countRow ∧
      counts.Perm r.passes := by
  have hrun : ∀ x : Run, ((countRowsOf x).filter
      fun row => fieldAt row 0 = .text (Text.ofPlain r.id)).map List.tail =
      if x.id = r.id then x.passes.map countRow else [] := by
    intro x
    have hid : Value.ofPlain x.id = .text (Text.ofPlain r.id) ↔ x.id = r.id :=
      ⟨fun hx => ofPlain_injective hx, fun hx => by rw [hx]; rfl⟩
    simp only [countRowsOf, Change.values, List.filter_map, Function.comp_def,
      fieldAt, List.getD_cons_zero, hid]
    by_cases hx : x.id = r.id
    · simp [hx, countRow, Function.comp_def]
    · simp [hx]
  have hflat : ∀ xs : List Run, ((xs.flatMap countRowsOf).filter fun row =>
      fieldAt row 0 = .text (Text.ofPlain r.id)).map List.tail =
      xs.flatMap fun x =>
        if x.id = r.id then x.passes.map countRow else [] := by
    intro xs
    rw [List.filter_flatMap, List.map_flatMap]
    simp only [hrun]
  have hall : ((tables s).counts.filter fun row => fieldAt row 0 =
      .text (Text.ofPlain r.id)).map List.tail = r.passes.map countRow := by
    obtain ⟨front, back, rfl⟩ := List.append_of_mem hr
    have hother : ∀ x ∈ front ++ back, x.id ≠ r.id := by
      intro x hx hid
      have hnd := h.distinct
      rw [List.map_append, List.map_cons, List.nodup_middle, ← List.map_append]
        at hnd
      exact hnd.notMem (List.mem_map.mpr ⟨x, hx, hid⟩)
    have hnone : ∀ xs : List Run, (∀ x ∈ xs, x.id ≠ r.id) → xs.flatMap (fun x =>
        if x.id = r.id then x.passes.map countRow else []) = [] := by
      intro xs hxs
      rw [List.flatMap_eq_nil_iff]
      intro x hx
      rw [if_neg (hxs x hx)]
    rw [h.tables, Tables.ofRuns, hflat, List.flatMap_append, List.flatMap_cons,
      hnone front fun x hx => hother x (List.mem_append_left _ hx),
      hnone back fun x hx => hother x (List.mem_append_right _ hx)]
    simp
  have hperm : rows.Perm (r.passes.map countRow) := hall ▸ hrows
  exact exists_of_perm_map hperm

/-- Counts that have been read come back in one order. -/
theorem legible_sorted {counts passes : List (String × Int)}
    (h : counts.Perm passes) (hnd : (passes.map (·.1)).Nodup) :
    Run.legible (Run.sorted (tally (Run.keptCounts counts))) =
    Run.legible (Run.sorted (Run.keptCounts passes)) := by
  have hnd' : (counts.map (·.1)).Nodup := (h.map _).nodup_iff.mpr hnd
  have hkept : (Run.keptCounts counts).Perm (Run.keptCounts passes) := h.map _
  rw [tally_eq (Run.nodup_keptCounts hnd'),
    Run.sorted_eq hkept (Run.nodup_keptCounts hnd')]

omit [Engine (StateM S)] in
/-- What an answer that is made of one computed part and nothing else comes
to. -/
theorem mk_pure_apply {α : Type} (x : Except Fault α) (s : S) :
    (ExceptT.mk (pure x) : ExceptT Fault (StateM S) α) s = (x, s) := rfl

omit [Engine (StateM S)] in
theorem pure_apply {α : Type} (a : α) (s : S) :
    (pure a : ExceptT Fault (StateM S) α) s = (.ok a, s) := rfl

/-- The counts of a run that has been recorded come back. -/
theorem countsOf_recorded (law : Ordinary tables saved)
    (h : Keeps tables saved l s) (hr : r ∈ l) :
    ∃ s', (countsOf (Text.ofPlain r.id) : ExceptT Fault (StateM S) _) s =
      (.ok r.readBack.passes, s') ∧ Keeps tables saved l s' := by
  obtain ⟨rows, s', hask, hrows⟩ :=
    law.answers s (.counts (Text.ofPlain r.id)) h.idle fun hq => by cases hq
  obtain ⟨counts, rfl, hperm⟩ := counts_shown h hr hrows
  refine ⟨s', ?_, h.asked law hask⟩
  have hread := read_rows "querying pass counts" "scanning pass count"
    (read_count (Text.ofPlain r.id)) counts
  unfold countsOf
  simp only [bind_apply, during_apply, hask, Except.mapError, mk_pure_apply,
    hread, pure_apply]
  exact congrArg (fun counts => (Except.ok counts, s'))
    (legible_sorted hperm (h.counted r hr))

/-- A run that has been recorded is completed by its counts. -/
theorem complete_recorded (law : Ordinary tables saved)
    (h : Keeps tables saved l s) (hr : r ∈ l) :
    ∃ s', (complete (keptRun r) (Text.ofPlain r.id) : ExceptT Fault
      (StateM S) _) s = (.ok r.readBack, s') ∧ Keeps tables saved l s' := by
  obtain ⟨s', hcounts, h'⟩ := countsOf_recorded law h hr
  refine ⟨s', ?_, h'⟩
  unfold complete
  rw [bind_apply, hcounts]
  simp [pure_apply, keptRun, Run.shown, Text.shown_ofPlain, Run.readBack]

omit [Engine (StateM S)] in
/-- The row of a run is found under its name. -/
theorem run_shown (h : Keeps tables saved l s) {id : String}
    {rows : List (List Value)}
    (hrows : (tables s).Shows (.run (Text.ofPlain id)) rows) :
    rows = (l.filter (·.id = id)).map rowOf := by
  have hrows' : rows = (l.map rowOf).filter fun row =>
      fieldAt row 0 = .text (Text.ofPlain id) := by
    rw [hrows, h.tables]
    rfl
  have hid : ∀ x : Run, fieldAt (rowOf x) 0 = .text (Text.ofPlain id) ↔
      x.id = id :=
    fun x => ⟨fun hx => ofPlain_injective hx, fun hx => by rw [← hx]; rfl⟩
  rw [hrows', List.filter_map]
  simp only [Function.comp_def, hid]

/-- A run that has been recorded is found under its name. -/
theorem find_recorded (law : Ordinary tables saved) (h : Keeps tables saved l s)
    (hr : r ∈ l) :
    ((find r.id : ExceptT Fault (StateM S) _) s).1 = .ok r.readBack := by
  obtain ⟨rows, s', hask, hrows⟩ :=
    law.answers s (.run (Text.ofPlain r.id)) h.idle fun hq => by cases hq
  have hone : l.filter (·.id = r.id) = [r] := by
    have hnd := h.distinct
    obtain ⟨front, back, rfl⟩ := List.append_of_mem hr
    rw [List.map_append, List.map_cons, List.nodup_middle, ← List.map_append]
      at hnd
    have hother : ∀ x ∈ front ++ back, ¬ x.id = r.id := fun x hx hid =>
      hnd.notMem (List.mem_map.mpr ⟨x, hx, hid⟩)
    rw [List.filter_append, List.filter_cons_of_pos (by simp),
      List.filter_eq_nil_iff.mpr
      (fun x hx => by simpa using hother x (List.mem_append_left _ hx)),
      List.filter_eq_nil_iff.mpr
      (fun x hx => by simpa using hother x (List.mem_append_right _ hx))]
    rfl
  rw [run_shown h hrows, hone] at hask
  obtain ⟨s'', hcomplete, -⟩ := complete_recorded law (h.asked law hask) hr
  have hread := read_rows "querying run" "querying run"
    (read_run (Text.ofPlain r.id)) [r]
  unfold find
  simp only [bind_apply, during_apply, hask, Except.mapError, mk_pure_apply]
  simp only [List.map_cons, List.map_nil, List.take_succ_cons, List.take_zero,
    List.isEmpty_cons, Bool.false_eq_true, if_false] at hread ⊢
  simp only [hread, hcomplete]

/-- No run is found under a name that none has been recorded under. -/
theorem find_missing (law : Ordinary tables saved) (h : Keeps tables saved l s)
    {id : String} (hid : id ∉ l.map (·.id)) :
    ((find id : ExceptT Fault (StateM S) _) s).1 =
    .error (.of .runNotFound) := by
  obtain ⟨rows, s', hask, hrows⟩ :=
    law.answers s (.run (Text.ofPlain id)) h.idle fun hq => by cases hq
  have hnone : l.filter (·.id = id) = [] := by
    rw [List.filter_eq_nil_iff]
    intro x hx hxid
    exact hid (List.mem_map.mpr ⟨x, hx, by simpa using hxid⟩)
  rw [run_shown h hrows, hnone] at hask
  have hread := read_rows "querying run" "querying run"
    (read_run (Text.ofPlain id)) []
  unfold find
  simp only [bind_apply, during_apply, hask, Except.mapError, mk_pure_apply]
  simp only [List.map_nil, List.take_nil, List.isEmpty_nil, if_true] at hread ⊢
  simp only [hread]
  rfl

/-- Runs that have been recorded are completed one after the other. -/
theorem complete_each (law : Ordinary tables saved) {runs : List Run}
    (h : Keeps tables saved l s) (hruns : ∀ r ∈ runs, r ∈ l) :
    (((runs.map keptRun).mapM fun r => complete r r.id :
      ExceptT Fault (StateM S) _) s).1 = .ok (runs.map Run.readBack) := by
  induction runs generalizing s with
  | nil => rfl
  | cons r runs ih =>
      obtain ⟨s', hcomplete, h'⟩ :=
        complete_recorded law h (hruns r List.mem_cons_self)
      have hrest := ih h' fun x hx => hruns x (List.mem_cons_of_mem _ hx)
      rw [List.map_cons, List.mapM_cons, bind_apply]
      have hkept : (keptRun r).id = Text.ofPlain r.id := rfl
      rw [hkept, hcomplete]
      simp only [bind_apply]
      rcases hall : ((runs.map keptRun).mapM
        fun r => complete r r.id : ExceptT Fault (StateM S) _) s' with
        ⟨e | found, s''⟩
      · rw [hall] at hrest
        cases hrest
      · rw [hall] at hrest
        obtain rfl := Except.ok.inj hrest
        rfl

omit [Engine (StateM S)] in
/-- Runs are listed in their order, whatever order the tables have. -/
theorem latest_shown (h : Keeps tables saved l s) {limit : Option Int}
    {rows : List (List Value)} (hrows : (tables s).Shows (.latest limit) rows) :
    rows = (match limit with
      | none => Run.newestFirst l
      | some n => (Run.newestFirst l).take n.toNat).map rowOf := by
  obtain ⟨listed, hperm, hsorted, rfl⟩ := hrows
  have hperm' : listed.Perm (l.map rowOf) := by
    rw [h.tables] at hperm
    exact hperm
  have hlisted : listed = (Run.newestFirst l).map rowOf := by
    have hpairwise : ((Run.newestFirst l).map rowOf).Pairwise Listed :=
      (Run.pairwise_newestFirst l).map rowOf fun a b hab =>
        (listed_iff a b).mpr hab
    refine List.Perm.eq_of_pairwise (fun a b ha hb hab hba => ?_)
      hsorted hpairwise (hperm'.trans ((Run.newestFirst_perm l).map rowOf).symm)
    obtain ⟨x, hx, rfl⟩ := List.mem_map.mp (hperm'.mem_iff.mp ha)
    obtain ⟨y, hy, rfl⟩ := List.mem_map.mp hb
    have hid :=
      Run.Before.antisymm ((listed_iff x y).mp hab) ((listed_iff y x).mp hba)
    rw [List.inj_on_of_nodup_map h.distinct hx
      ((Run.newestFirst_perm l).mem_iff.mp hy) hid]
  rw [hlisted]
  cases limit with
  | none => rfl
  | some n => rw [List.map_take]

omit [Engine (StateM S)] in
/-- The counts of a pass in the tables are those in the runs. -/
theorem fired_ofRuns (runs : List Run) (pass : String) :
    (Tables.ofRuns runs).fired (.ofPlain pass) = Run.countsIn runs pass := by
  have hpass : ∀ name : String, Value.ofPlain name = .ofPlain pass ↔
      name = pass :=
    fun name => ⟨ofPlain_injective, fun h => by rw [h]⟩
  simp [Tables.fired, Tables.ofRuns, Run.countsIn, countRowsOf, Change.values,
    fieldAt, numberOf, List.filter_flatMap, List.map_flatMap, List.filter_map,
    Function.comp_def, hpass]

/-- The latest runs are listed, at most so many if the limit is positive. -/
theorem latest_recorded (law : Ordinary tables saved)
    (h : Keeps tables saved l s) (limit : Int) :
    ((latest limit : ExceptT Fault (StateM S) _) s).1 =
    .ok ((if 0 < limit then (Run.newestFirst l).take limit.toNat else
        Run.newestFirst l).map Run.readBack) := by
  obtain ⟨rows, s', hask, hrows⟩ :=
    law.answers s (.latest (if 0 < limit then some limit else none)) h.idle
      fun hq => by cases hq
  let runs := if 0 < limit then (Run.newestFirst l).take limit.toNat else
      Run.newestFirst l
  have hruns : rows = runs.map rowOf := by
    rw [latest_shown h hrows]
    by_cases hlimit : 0 < limit
    · simp [runs, hlimit]
    · simp [runs, hlimit]
  have hmem : ∀ r ∈ runs, r ∈ l := by
    intro r hr
    refine (Run.newestFirst_perm l).mem_iff.mp ?_
    by_cases hlimit : 0 < limit
    · simp only [runs, if_pos hlimit] at hr
      exact List.mem_of_mem_take hr
    · simpa only [runs, if_neg hlimit] using hr
  rw [hruns] at hask
  have hread : Reply.read
      { columns :=
          (Question.latest (if 0 < limit then some limit else none)).columns,
        rows := runs.map rowOf } "listing runs" "scanning run" runOf =
      .ok (runs.map keptRun) := read_rows _ _ (read_run "") runs
  unfold latest
  simp only [bind_apply, during_apply, hask, Except.mapError,
    mk_pure_apply, hread]
  exact complete_each law (h.asked law hask) hmem

omit [Engine (StateM S)] in
/-- The sums are those of the passes that occur, in any order. -/
theorem totals_shown (h : Keeps tables saved l s) {rows : List (List Value)}
    (hrows : (tables s).Shows .totals rows) :
    ∃ counts : List (String × Int), rows = counts.map countRow ∧ counts.Perm
      ((Run.passesIn l).map fun pass => (pass, (Run.countsIn l pass).sum)) := by
  rw [h.tables] at hrows
  have hrows' : rows.Perm
      (((Tables.ofRuns l).counts.map (fieldAt · 1)).dedup.map fun pass =>
    [pass, .integer ((Tables.ofRuns l).fired pass).sum]) := hrows
  have hnames : (Tables.ofRuns l).counts.map (fieldAt · 1) =
      ((l.flatMap (·.passes)).map (·.1)).map Value.ofPlain := by
    simp [Tables.ofRuns, countRowsOf, Change.values, fieldAt, List.map_flatMap,
      Function.comp_def]
  rw [hnames, List.dedup_map_of_injective fun _ _ => ofPlain_injective,
    List.map_map] at hrows'
  apply exists_of_perm_map
  rw [List.map_map]
  simpa only [Function.comp_def, fired_ofRuns, countRow, Run.passesIn]
    using hrows'

omit [Engine (StateM S)] in
/-- If the counts of runs can be added up, so can those in the tables. -/
theorem summable_ofRuns (hsum : Run.Summable l) :
    (Tables.ofRuns l).Summable := by
  intro pass front hfront
  by_cases hpass : ∃ name, pass = .ofPlain name
  · obtain ⟨name, rfl⟩ := hpass
    rw [fired_ofRuns] at hfront
    exact hsum name front hfront
  · have hnone : (Tables.ofRuns l).fired pass = [] := by
      rw [Tables.fired, List.map_eq_nil_iff, List.filter_eq_nil_iff]
      intro row hrow hname
      obtain ⟨r, -, hr⟩ := List.mem_flatMap.mp hrow
      obtain ⟨e, -, rfl⟩ := List.mem_map.mp hr
      exact hpass ⟨e.1, by simpa [Change.values, fieldAt, eq_comm] using hname⟩
    rw [hnone, List.prefix_nil] at hfront
    subst hfront
    decide

/-- The sums of all counts are told, if they can be made. -/
theorem totals_recorded (law : Ordinary tables saved)
    (h : Keeps tables saved l s) (hsum : Run.Summable l) :
    ((totals : ExceptT Fault (StateM S) _) s).1 = .ok (Run.totals l) := by
  obtain ⟨rows, s', hask, hrows⟩ :=
    law.answers s .totals h.idle fun _ => h.tables ▸ summable_ofRuns hsum
  obtain ⟨counts, rfl, hperm⟩ := totals_shown h hrows
  have hread := read_rows "summing pass counts" "scanning pass total"
    read_total counts
  unfold totals
  simp only [bind_apply, during_apply, hask, Except.mapError, mk_pure_apply,
    hread, pure_apply]
  exact congrArg Except.ok (legible_sorted hperm (Run.nodup_sums l))

/-! ### Sequences of runs -/

/-- Records runs one after the other and tells which of them have been
recorded. -/
def recordEach {m : Type → Type} [Monad m] [Engine m] :
    List (Option Run) → m (List Run)
  | [] => return []
  | run :: runs => do
    let done ← (record run).run
    let recorded ← recordEach runs
    match done with
    | .ok _ => return run.toList ++ recorded
    | .error _ => return recorded

/-- What a journal answers if it is the list `l` of runs. -/
structure Reflects (l : List Run) (s : S) : Prop where
  found : ∀ r ∈ l, ((find r.id : ExceptT Fault (StateM S) _) s).1 =
    .ok r.readBack
  missing : ∀ id, id ∉ l.map (·.id) →
    ((find id : ExceptT Fault (StateM S) _) s).1 = .error (.of .runNotFound)
  listed : ∀ limit, ((latest limit : ExceptT Fault (StateM S) _) s).1 =
    .ok ((if 0 < limit then (Run.newestFirst l).take limit.toNat else
        Run.newestFirst l).map Run.readBack)
  summed : Run.Summable l →
    ((totals : ExceptT Fault (StateM S) _) s).1 = .ok (Run.totals l)

theorem Keeps.reflects (h : Keeps tables saved l s)
    (law : Ordinary tables saved) : Reflects l s where
  found := fun _ hr => find_recorded law h hr
  missing := fun _ hid => find_missing law h hid
  listed := latest_recorded law h
  summed := totals_recorded law h

/-- Recording one more run. -/
theorem Keeps.record (h : Keeps tables saved l s) (law : Ordinary tables saved)
    {run : Option Run} (hfits : ∀ x ∈ run, Storable x) {a : Except Fault Unit}
    (hrun : (Journal.record run : ExceptT Fault (StateM S) Unit) s = (a, s')) :
    Keeps tables saved (match a with
      | .ok _ => l ++ run.toList
      | .error _ => l) s' := by
  obtain ⟨hidle, hresult⟩ := record_keeps law h.tables h.idle hfits hrun
  obtain f | ⟨⟩ := a
  · exact ⟨hresult, hidle, h.distinct, h.counted⟩
  · obtain ⟨x, rfl, -, hnew, hnd, htables⟩ := hresult
    refine ⟨htables, hidle, ?_, ?_⟩
    · rw [Option.toList_some, List.map_append, List.nodup_append]
      refine ⟨h.distinct, by simp, fun id hid y hy => ?_⟩
      obtain rfl : y = x.id := by simpa using hy
      exact fun hsame => hnew (hsame ▸ hid)
    · intro r hr
      rcases List.mem_append.mp hr with hr | hr
      · exact h.counted r hr
      · obtain rfl : r = x := by simpa using hr
        exact hnd

theorem recordEach_cons (run : Option Run) (runs : List (Option Run)) (s : S) :
    (Journal.recordEach (run :: runs) : StateM S _) s =
      match (Journal.record run : ExceptT Fault (StateM S) Unit) s with
      | (a, s₁) => ((match a with
        | .ok _ => run.toList
        | .error _ => []) ++ ((Journal.recordEach runs : StateM S _) s₁).1,
          ((Journal.recordEach runs : StateM S _) s₁).2) := by
  rw [Journal.recordEach]
  simp only [bind, StateT.bind, ExceptT.run]
  rcases hrun :
    (Journal.record run : ExceptT Fault (StateM S) Unit) s with ⟨f | ⟨⟩, s₁⟩
  · rfl
  · rfl

/-- Recording runs one after the other. -/
theorem Keeps.recordEach (h : Keeps tables saved l s)
    (law : Ordinary tables saved) {runs : List (Option Run)}
    (hfits : ∀ r, some r ∈ runs → Storable r) :
    Keeps tables saved (l ++ ((Journal.recordEach runs : StateM S _) s).1)
    ((Journal.recordEach runs : StateM S _) s).2 := by
  induction runs generalizing s l with
  | nil =>
      change Keeps tables saved (l ++ []) s
      rwa [List.append_nil]
  | cons run runs ih =>
      have hrest : ∀ r, some r ∈ runs → Storable r :=
        fun r hr => hfits r (List.mem_cons_of_mem _ hr)
      have hfirst : ∀ x ∈ run, Storable x :=
        fun x hx => hfits x (by rw [← hx]; exact List.mem_cons_self)
      rw [recordEach_cons]
      rcases hrun :
        (Journal.record run : ExceptT Fault (StateM S) Unit) s with ⟨f | ⟨⟩, s₁⟩
      · exact ih (h.record law hfirst hrun) hrest
      · rw [← List.append_assoc]
        exact ih (h.record law hfirst hrun) hrest

/-- **The journal agrees with the list of recorded runs.**  Whatever runs one
asks a journal to record, one after the other, it answers as the list of those
that have been recorded.  A run that cannot be recorded then changes no later
answer; a run without a name, or with one that has been taken, cannot. -/
theorem journal_reflects_runs (law : Ordinary tables saved)
    (hempty : tables s = {})
    (hidle : saved s = none) (runs : List (Option Run))
      (hfits : ∀ r, some r ∈ runs → Storable r) :
    let (recorded, s') := (recordEach runs : StateM S _) s
    Reflects recorded s' ∧ (recorded.map (·.id)).Nodup ∧
    ∀ run a s'', (∀ r ∈ run, Storable r) →
      (record run : ExceptT Fault (StateM S) Unit) s' = (a, s'') →
      match a with
      | .ok _ => ∃ r, run = some r ∧ r.id ≠ "" ∧ r.id ∉ recorded.map (·.id) ∧
        Reflects (recorded ++ [r]) s''
      | .error _ => Reflects recorded s'' := by
  have hstart : Keeps tables saved [] s :=
    ⟨hempty, hidle, List.nodup_nil, fun r hr => by cases hr⟩
  have hkeeps := hstart.recordEach law hfits
  refine ⟨hkeeps.reflects law, hkeeps.distinct, fun run a s'' hrun hstep => ?_⟩
  have hafter := hkeeps.record law hrun hstep
  obtain ⟨-, hresult⟩ := record_keeps law hkeeps.tables hkeeps.idle hrun hstep
  obtain f | ⟨⟩ := a
  · exact hafter.reflects law
  · obtain ⟨r, rfl, hid, hnew, -, -⟩ := hresult
    exact ⟨r, rfl, hid, hnew, hafter.reflects law⟩

end

/-! ### Journals in memory -/

/-- A run that counts how often one pass has fired. -/
def runCounting (id : String) (started : Instant) (fired : Int) : Run where
  id := id
  started := started
  input := "App.exe"
  output := "App.inlined.exe"
  assembly := "App"
  methods := 1
  inlined := 0
  before := 3
  after := 2
  passes := [("remove-nop", fired)]

theorem storable_runCounting {id : String} {started : Instant} {fired : Int}
    (hstarted : Word.fitsSigned64 started = true)
    (hfired : Word.fitsSigned64 fired = true) :
    Storable (runCounting id started fired) := by
  intro c hc n hn
  obtain rfl | rfl : c = .insertRun (runCounting id started fired) ∨
      c = .insertCount id "remove-nop" fired := by
    simpa [Journal.changes, runCounting] using hc
  · obtain rfl | rfl | rfl | rfl | rfl : n = started ∨ n = 1 ∨ n = 0 ∨ n = 3 ∨
        n = 2 := by
      simpa [Change.values, runCounting, Value.ofPlain] using hn
    · exact hstarted
    · decide
    · decide
    · decide
    · decide
  · obtain rfl : n = fired := by
      simpa [Change.values, Value.ofPlain] using hn
    exact hfired

/-- Runs that can be recorded and others that cannot: nothing at all, one
without a name, and one whose name has been taken. -/
def someRuns : List (Option Run) :=
  [some (runCounting "late" 2 4), none, some (runCounting "" 3 1),
    some (runCounting "early" 1 (-1)), some (runCounting "late" 5 2)]

/-- Of these runs the first and the fourth are recorded. -/
theorem journal_reflects_runs_in_memory :
    let (recorded, s) := (recordEach someRuns : StateM InMemory _) {}
    recorded = [runCounting "late" 2 4, runCounting "early" 1 (-1)] ∧
      Reflects recorded s := by
  have hfits : ∀ r, some r ∈ someRuns → Storable r := by
    intro r hr
    obtain rfl | rfl | rfl
        | rfl : r = runCounting "late" 2 4 ∨ r = runCounting "" 3 1 ∨
        r = runCounting "early" 1 (-1) ∨ r = runCounting "late" 5 2 := by
      simpa [someRuns] using hr
    all_goals exact storable_runCounting (by decide) (by decide)
  have hreflects := journal_reflects_runs
    (s := ({} : InMemory)) inMemory_ordinary rfl rfl someRuns hfits
  have hrecorded : ((recordEach someRuns : StateM InMemory _) {}).1 =
      [runCounting "late" 2 4, runCounting "early" 1 (-1)] := by decide +kernel
  generalize (recordEach someRuns : StateM InMemory _) {} = answer
    at hreflects hrecorded ⊢
  exact ⟨hrecorded, hreflects.1⟩

/-- Three counts of a pass: the sum of the first two is too large for 64 bits,
that of all is not. -/
def largeRuns : List (Option Run) :=
  [some (runCounting "a" 1 9223372036854775807), some (runCounting "b" 2 1),
    some (runCounting "c" 3 (-5))]

/-- A total that fits in 64 bits may be out of reach, even if the tables are
ordinary. -/
theorem total_out_of_reach :
    Ordinary (fun s : InMemory => s.now.tables)
      (fun s => s.saved.map Written.tables) ∧
    let (recorded, s) := (recordEach largeRuns : StateM InMemory _) {}
    recorded.map some = largeRuns ∧
    (∀ pass, Word.fitsSigned64 (Run.countsIn recorded pass).sum = true) ∧
    ((totals : ExceptT Fault (StateM InMemory) _) s).1 =
      .error (.failed ["summing pass counts"]
        (.other "SQL logic error: integer overflow (1)")) := by
  have hrecorded : ((recordEach largeRuns : StateM InMemory _) {}).1 =
      [runCounting "a" 1 9223372036854775807, runCounting "b" 2 1,
        runCounting "c" 3 (-5)] := by
    decide +kernel
  have htotals : ((totals : ExceptT Fault (StateM InMemory) _)
      ((recordEach largeRuns : StateM InMemory _) {}).2).1 =
      .error (.failed ["summing pass counts"]
        (.other "SQL logic error: integer overflow (1)")) := by
    decide +kernel
  generalize (recordEach largeRuns : StateM InMemory _) {} = answer
    at hrecorded htotals ⊢
  obtain ⟨recorded, s⟩ := answer
  obtain rfl : recorded = _ := hrecorded
  refine ⟨inMemory_ordinary, rfl, fun pass => ?_, htotals⟩
  by_cases hpass : "remove-nop" = pass
  · subst hpass
    decide
  · have hnone : Run.countsIn [runCounting "a" 1 9223372036854775807,
        runCounting "b" 2 1, runCounting "c" 3 (-5)] pass = [] := by
      simp [Run.countsIn, runCounting, hpass]
    rw [hnone]
    decide

end Journal

end Bytecode
