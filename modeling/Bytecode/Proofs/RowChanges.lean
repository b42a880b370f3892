import Mathlib
import Bytecode.Database.Change

/-!
# Changes of rows

What changes rows of tables writes pages and counts what it has done.  The
databases keep their names, their files and their schemas; all of a database but
its pages is its `Store.outline`.  `World.Agrees` relates databases of the same
outlines, whatever has been counted.

Work is followed in the order of the code: `Keeps` is closed under the ways in
which work is put together, and each part of a change has one lemma, from the
entry of an index to a whole statement.  Rules that are brought about by a
change bring about further ones, so who carries them out is taken as given,
`Agent.Contained`, until the nesting ends; the induction is on its depth.

Main statements: `agent_contained` and `ChangePlan.carryOut_contained`.  Nothing
is assumed of the databases, and nothing is said of which rows there are in the
end.
-/

namespace Bytecode

namespace Database

/-! ### Work that keeps a relation -/

namespace Work

variable {α β : Type} {R Q : World → World → Prop}

/-- The databases after some work stand in a relation to those before it, also
if it stops. -/
def Keeps (R : World → World → Prop) (x : Work α) : Prop := ∀ w, R w (x w).2

/-- A relation that is kept implies every wider one. -/
theorem Keeps.mono {x : Work α} (h : x.Keeps R)
    (hRQ : ∀ w w', R w w' → Q w w') : x.Keeps Q :=
  fun w => hRQ _ _ (h w)

namespace Keeps

/-- Nothing is done. -/
theorem pure [Std.Refl R] (a : α) : Keeps R (Pure.pure a : Work α) :=
  fun w => refl_of R w

theorem throw [Std.Refl R] (s : Stop) :
    Keeps R (MonadExcept.throw s : Work α) := fun w => refl_of R w

theorem get [Std.Refl R] : Keeps R (MonadState.get : Work World) :=
  fun w => refl_of R w

theorem ofExcept [Std.Refl R] (r : Except Stop α) : Keeps R (Work.ofExcept r) :=
  fun w => refl_of R w

theorem ofFailing [Std.Refl R] (r : Except Failure α) :
    Keeps R (Work.ofFailing r) := fun w => refl_of R w

theorem fail [Std.Refl R] (f : Failure) : Keeps R (Work.fail f : Work α) :=
  fun w => refl_of R w

/-- One piece of work follows another. -/
theorem bind [IsTrans World R] {x : Work α} {f : α → Work β} (hx : x.Keeps R)
    (hf : ∀ a, (f a).Keeps R) : (x >>= f).Keeps R := by
  intro w
  have h := hx w
  rw [bind_apply]
  rcases hxw : x w with ⟨s | a, w'⟩
  · rw [hxw] at h
    exact h
  · rw [hxw] at h
    exact trans_of R h (hf a w')

/-- The databases are changed as the relation allows. -/
theorem modify {f : World → World} (h : ∀ w, R w (f w)) :
    Work.Keeps R (modify f) := h

/-- Either of two pieces of work is done. -/
theorem ite {c : Prop} [Decidable c] {x y : Work α} (hx : x.Keeps R)
    (hy : y.Keeps R) : (if c then x else y).Keeps R := by
  split
  · exact hx
  · exact hy

/-- Something is done under a condition only, before work goes on. -/
theorem guarded [IsTrans World R] {c : Prop} [Decidable c] {x : Work Unit}
    {k : Unit → Work α} (hx : x.Keeps R) (hk : ∀ u, (k u).Keeps R) :
    (if c then x >>= k else k ()).Keeps R :=
  ite (bind hx hk) (hk ())

/-- The same is done for each element of a list. -/
theorem forM [Std.Refl R] [IsTrans World R] {l : List β} {f : β → Work PUnit}
    (h : ∀ b ∈ l, (f b).Keeps R) : (l.forM f).Keeps R := by
  induction l with
  | nil => exact pure _
  | cons b l ih =>
      exact bind (h b List.mem_cons_self) fun _ => ih fun c hc =>
        h c (List.mem_cons_of_mem _ hc)

/-- Something is carried through the elements of a list. -/
theorem foldlM [Std.Refl R] [IsTrans World R] {l : List β} {f : α → β → Work α}
    (h : ∀ a, ∀ b ∈ l, (f a b).Keeps R) (a : α) : (l.foldlM f a).Keeps R := by
  induction l generalizing a with
  | nil => exact pure _
  | cons b l ih =>
      exact bind (h a b List.mem_cons_self) fun _ =>
        ih (fun a c hc => h a c (List.mem_cons_of_mem _ hc)) _

/-- What is done after a failure begins where that has left the databases. -/
theorem tryCatch [IsTrans World R] {x : Work α} {f : Stop → Work α}
    (hx : x.Keeps R) (hf : ∀ s, (f s).Keeps R) :
    Work.Keeps R (tryCatch x f) := by
  intro w
  have h := hx w
  rw [tryCatch_apply]
  rcases hxw : x w with ⟨s | a, w'⟩
  · rw [hxw] at h
    exact trans_of R h (hf s w')
  · rw [hxw] at h
    exact h

end Keeps

end Work

/-! ### Changes of pages -/

/-- A database apart from what is on its pages. -/
def Store.outline (s : Store) : Store := { s with pages := {} }

/-- The same databases as before, apart from their pages and from what is
counted. -/
structure World.Agrees (w w' : World) : Prop where
  stores : w'.stores.map Store.outline = w.stores.map Store.outline
  encoding : w'.encoding = w.encoding
  switches : w'.switches = w.switches

namespace World

theorem Agrees.trans {w w' w'' : World} (h : w.Agrees w') (h' : w'.Agrees w'') :
    w.Agrees w'' :=
  ⟨h'.stores.trans h.stores, h'.encoding.trans h.encoding,
    h'.switches.trans h.switches⟩

instance : Std.Refl Agrees := ⟨fun _ => ⟨rfl, rfl, rfl⟩⟩

instance : IsTrans World Agrees := ⟨fun _ _ _ => Agrees.trans⟩

/-- New pages are no more than that. -/
theorem agrees_setPages (w : World) (n : Nat) (pages : Pages) :
    w.Agrees (w.setPages n pages) := by
  refine ⟨?_, rfl, rfl⟩
  apply Array.ext_getElem?
  intro i
  simp only [setPages, Array.getElem?_map, Array.getElem?_modify]
  split
  · cases w.stores[i]? <;> rfl
  · rfl

theorem agrees_counting (w : World) : w.Agrees w.counting := ⟨rfl, rfl, rfl⟩

theorem agrees_settled (w : World) : w.Agrees w.settled := ⟨rfl, rfl, rfl⟩

end World

/-- Work that changes nothing but pages and what is counted. -/
abbrev Work.Contained {α : Type} (x : Work α) : Prop := x.Keeps World.Agrees

namespace Work

variable {α : Type}

/-- Work on the pages of a database. -/
theorem onPages_contained (n : Nat) (f : Pages → Except Failure (α × Pages)) :
    (onPages n f).Contained := by
  unfold onPages
  refine .bind .get fun w => .bind (.ofFailing _) fun (a, pages) => ?_
  exact .bind (.modify fun w => w.agrees_setPages n pages) fun _ => .pure a

/-- A change of the pages of a database. -/
theorem editPages_contained (n : Nat) (f : Pages → Except Failure Pages) :
    (editPages n f).Contained :=
  onPages_contained n _

/-- A revision is made, or it has failed and nothing has changed. -/
theorem revise_apply (f : World → Except Failure World) (w : World) :
    revise f w = match f w with
      | .ok w' => (.ok (), w')
      | .error e => (.error (.ofFailure e), w) := by
  change (ofFailing (f w) >>= MonadStateOf.set : Work PUnit) w = _
  cases f w <;> rfl

/-- A revision that changes pages only. -/
theorem revise_contained {f : World → Except Failure World}
    (h : ∀ w w', f w = .ok w' → w.Agrees w') : (revise f).Contained := by
  intro w
  rw [revise_apply]
  cases hf : f w with
  | error e => exact refl w
  | ok w' => exact h w w' hf

end Work

/-! ### Rows of tables that are kept in others -/

namespace Shadow

variable {w w' : World} {t : Table} {part : String} {number : Int}
  {values : List Value}

/-- A row of a part that is put in changes pages only. -/
theorem agrees_putPart (h : putPart w t part number values = .ok w') :
    w.Agrees w' := by
  simp only [putPart, bind, Except.bind] at h
  split at h
  · cases h
  · split at h
    · cases h
    · cases h
      exact w.agrees_setPages _ _

/-- A row of a part that is taken out changes pages only. -/
theorem agrees_removePart (h : removePart w t part number = .ok w') :
    w.Agrees w' := by
  simp only [removePart, bind, Except.bind] at h
  split at h
  · cases h
  · split at h
    · cases h
    · cases h
      exact w.agrees_setPages _ _

/-- The boxes of a table are on its pages. -/
theorem agrees_setBoxes {b : BoxForm} {all : List (Int × List Value)}
    (h : setBoxes w t b all = .ok w') : w.Agrees w' :=
  agrees_putPart h

/-- A row of a virtual table that is taken out changes pages only. -/
theorem agrees_remove (h : remove w t number = .ok w') : w.Agrees w' := by
  unfold remove at h
  split at h
  · cases h
    exact refl w
  · simp only [bind, Except.bind] at h
    split at h
    · cases h
    · next w₁ hfirst =>
        exact (agrees_removePart hfirst).trans (agrees_removePart h)
  · simp only [bind, Except.bind] at h
    split at h
    · cases h
    · split at h
      · cases h
      · next w₁ hfirst =>
          exact (agrees_setBoxes hfirst).trans (agrees_removePart h)

/-- A row of a virtual table that is put in changes pages only. -/
theorem agrees_put (h : put w t number values = .ok w') : w.Agrees w' := by
  unfold put at h
  split at h
  · cases h
    exact refl w
  · simp only [bind, Except.bind] at h
    split at h
    · cases h
    · next w₁ hfirst => exact (agrees_putPart hfirst).trans (agrees_putPart h)
  · simp only [bind, Except.bind] at h
    split at h
    · cases h
    · split at h
      · cases h
      · next w₁ hfirst =>
          exact (agrees_setBoxes hfirst).trans (agrees_putPart h)

end Shadow

/-! ### Rows and their entries -/

namespace Writer

open Work

variable (w : Writer)

/-- An entry of an index is written. -/
theorem putEntry_contained (k : KeyWriter) (r : WholeRow) :
    (w.putEntry k r).Contained := by
  unfold putEntry
  refine .bind .get fun world => .bind (.ofExcept _) fun found => ?_
  cases found with
  | none => exact .pure _
  | some values => exact editPages_contained _ _

/-- An entry of an index is taken out. -/
theorem removeEntry_contained (k : KeyWriter) (r : WholeRow) :
    (w.removeEntry k r).Contained := by
  unfold removeEntry
  refine .bind .get fun world => .bind (.ofExcept _) fun found => ?_
  cases found with
  | none => exact .pure _
  | some values => exact editPages_contained _ _

/-- A row is written, in its tree or in parts of a virtual table. -/
theorem putRow_contained (r : WholeRow) : (w.putRow r).Contained := by
  unfold putRow
  refine .bind .get fun world => ?_
  dsimp only
  split
  · exact revise_contained fun _ _ => Shadow.agrees_put
  · exact editPages_contained _ _

/-- A row is taken out of its tree or of its parts. -/
theorem removeRow_contained (r : WholeRow) : (w.removeRow r).Contained := by
  unfold removeRow
  refine .bind .get fun world => ?_
  dsimp only
  split
  · exact revise_contained fun _ _ => Shadow.agrees_remove
  · exact editPages_contained _ _

/-- A row is written with the entries of its indexes. -/
theorem put_contained (isAffected : KeyWriter → Bool) (r : WholeRow) :
    (w.put isAffected r).Contained :=
  .bind (.forM fun k _ => w.putEntry_contained k r) fun _ =>
    w.putRow_contained r

/-- A row is taken out with the entries of its indexes. -/
theorem remove_contained (r : WholeRow) : (w.remove r).Contained :=
  .bind (.forM fun k _ => w.removeEntry_contained k r) fun _ =>
    w.removeRow_contained r

/-- Looking for a row that may have changed changes nothing. -/
theorem current?_contained (r : WholeRow) : (w.current? r).Contained := by
  unfold current?
  refine .bind .get fun world => .bind (.ofExcept _) fun found => ?_
  cases found with
  | none => exact .pure _
  | some row => exact .bind (.ofExcept _) fun _ => .pure _

/-- Looking for the row that holds a key changes nothing. -/
theorem holder?_contained (k : KeyWriter) (values : List Value) :
    (w.holder? k values).Contained := by
  unfold holder?
  refine .bind .get fun world => ?_
  dsimp only
  refine .ite (.pure _) (.ite (.bind (.ofExcept _) fun found => ?_) ?_)
  · cases found with
    | none => exact .pure _
    | some row => exact .bind (.ofExcept _) fun _ => .pure _
  · split
    · exact .fail _
    · exact .pure _
    · refine .ite ?_
        (.bind (.ofExcept _) fun row => .bind (.ofExcept _) fun _ => .pure _)
      split
      · exact .pure _
      · exact .fail _
      · exact .fail _

/-- Looking for the last number of a table changes nothing. -/
theorem lastNumber_contained : w.lastNumber.Contained := by
  unfold lastNumber
  refine .bind .get fun world => ?_
  dsimp only
  refine .ite (.pure _) (.ite (.bind .get fun _ => .ofFailing _) ?_)
  exact .bind (.ofFailing _) fun _ => .pure _

/-- All rows of a table are taken out. -/
theorem clear_contained : w.clear.Contained :=
  .bind (editPages_contained _ _) fun _ => .forM fun _ _ =>
    editPages_contained _ _

/-- Refusing a row changes nothing. -/
theorem refuseRow_contained {α : Type} (p : Policy) (f : Failure) :
    (refuseRow p f : Work α).Contained :=
  .throw _

/-- Values that are missing are put in before anything is written. -/
theorem mended_contained (policy : Option Policy) (c : Candidate) :
    (w.mended policy c).Contained := by
  unfold mended
  refine .bind .get fun world => .foldlM (fun r n _ => .ite ?_ (.pure _)) _
  exact .bind (.ofExcept _) fun _ => .pure _

/-- Looking for values that are missing changes nothing. -/
theorem checkRequired_contained (policy : Option Policy) (c : Candidate)
    (r : WholeRow) : (w.checkRequired policy c r).Contained := by
  unfold checkRequired
  refine .foldlM (fun isKept n _ => .ite ?_ (.pure _)) _
  exact .ite (.pure _) (refuseRow_contained _ _)

/-- Asking whether a row satisfies its table changes nothing. -/
theorem checkQuestions_contained (policy : Option Policy) (c : Candidate)
    (r : WholeRow) : (w.checkQuestions policy c r).Contained := by
  unfold checkQuestions
  refine .bind .get fun world => ?_
  dsimp only
  refine .ite (.pure _) (.foldlM (fun isKept check _ => ?_) _)
  refine .ite (.pure _) (.bind (.ofExcept _) fun answer => ?_)
  split
  · exact .ite (.pure _) (refuseRow_contained _ _)
  · exact .pure _

/-- Looking whether a key is taken changes nothing. -/
theorem taken?_contained (u : Unique) (c : Candidate) :
    (w.taken? u c).Contained := by
  unfold taken?
  refine .bind .get fun world => ?_
  cases u.key with
  | none => exact .bind (w.current?_contained _) fun _ => .pure _
  | some k =>
      refine .bind (.ofExcept _) fun found => ?_
      cases found with
      | none => exact .pure _
      | some values =>
          exact .bind (w.holder?_contained k values) fun _ => .pure _

/-- Where keys are taken, rows may be taken out. -/
theorem checkUniques_contained {remove : WholeRow → Work Unit}
    (hremove : ∀ r, (remove r).Contained) (c : Candidate) (us : List Unique) :
    (w.checkUniques remove c us).Contained := by
  induction us with
  | nil => exact .pure _
  | cons u us ih =>
      refine .bind (w.taken?_contained u c) fun found => ?_
      cases found with
      | none => exact ih
      | some r =>
          dsimp only
          split
          · exact .ite (.pure _) (.pure _)
          · split
            · exact .pure _
            · exact .bind (hremove r) fun _ => ih
            · exact refuseRow_contained _ _

/-- Putting a row in its box changes nothing. -/
theorem boxed_contained (policy : Option Policy) (c : Candidate) :
    (w.boxed policy c).Contained := by
  unfold boxed
  split
  · refine .bind .get fun world => ?_
    split
    · exact .pure _
    · exact .ite (.pure _) (refuseRow_contained _ _)
  · exact .pure _

/-- Before a row is written, others may be taken out for it. -/
theorem check_contained (policy : Option Policy) (clauses : List Clause)
    {remove : WholeRow → Work Unit} (hremove : ∀ r, (remove r).Contained)
    (c : Candidate) : (w.check policy clauses remove c).Contained := by
  unfold check
  refine .bind (w.boxed_contained policy c) fun found => ?_
  cases found with
  | none => exact .pure _
  | some c =>
      refine .bind (w.mended_contained policy c) fun r =>
        .bind .get fun world =>
        .bind (.ofExcept _) fun r =>
          .bind (w.checkRequired_contained policy c r) fun isKept => ?_
      refine .ite (.pure _)
        (.bind (w.checkQuestions_contained policy c r) fun isKept => ?_)
      refine .ite (.pure _) ?_
      dsimp only
      refine .bind (w.checkUniques_contained hremove _ _) fun verdict => ?_
      split
      · exact .bind (.ofFailing _) fun _ => w.checkUniques_contained hremove _ _
      · exact .pure _

end Writer

/-! ### Rows that depend on others -/

namespace Link

open Work

variable (l : Link)

/-- Looking for what a row depends on changes nothing. -/
theorem isFound_contained (r : WholeRow) : (l.isFound r).Contained :=
  .bind .get fun _ => .ofFailing _

/-- Looking for rows that depend on another changes nothing. -/
theorem dependents_contained (r : WholeRow) (itself : Bool) :
    (l.dependents r itself).Contained := by
  unfold dependents
  refine .bind .get fun world => ?_
  dsimp only
  refine .ite (.pure _)
    (.bind (.ofFailing _) fun p => .bind (.ofExcept _) fun rows => ?_)
  exact .bind (.ofExcept _) fun _ => .pure _

/-- Counting rows that do not find what they depend on changes nothing else. -/
theorem count_contained (n : Int) : (l.count n).Contained := by
  refine .modify fun w => ?_
  split
  · split
    · exact refl w
    · exact ⟨rfl, rfl, rfl⟩
  · split
    · exact refl w
    · exact ⟨rfl, rfl, rfl⟩

/-- A row that depends on others is taken out. -/
theorem leave_contained (r : WholeRow) : (l.leave r).Contained :=
  .bind (l.isFound_contained r) fun _ => .ite (l.count_contained _) (.pure _)

/-- A row that depends on others is put in. -/
theorem arrive_contained (isAlone : Bool) (r : WholeRow) :
    (l.arrive isAlone r).Contained := by
  unfold arrive
  refine .bind .get fun world => ?_
  dsimp only
  refine .ite (.bind (l.isFound_contained r) fun _ => .ite
    (.bind .get fun world => ?_) (.pure _)) (.pure _)
  exact .ite (.fail _) (l.count_contained _)

/-- A row that others depend on is taken out. -/
theorem abandon_contained (r : WholeRow) : (l.abandon r).Contained :=
  .bind (l.dependents_contained r false) fun _ =>
    .ite (l.count_contained _) (.pure _)

/-- A row that others depend on is put in. -/
theorem adopt_contained (r : WholeRow) : (l.adopt r).Contained :=
  .bind (l.dependents_contained r true) fun _ =>
    .ite (l.count_contained _) (.pure _)

end Link

namespace Links

variable (ls : Links)

/-- All dependences of a row that is taken out are counted. -/
theorem remove_contained (r : WholeRow) : (ls.remove r).Contained :=
  .bind (.forM fun l _ => l.leave_contained r) fun _ => .forM fun l _ =>
    l.abandon_contained r

/-- All dependences of a row that is put in are counted. -/
theorem add_contained (r : WholeRow) : (ls.add r).Contained :=
  .bind (.forM fun l _ => l.arrive_contained _ r) fun _ => .forM fun l _ =>
    l.adopt_contained r

end Links

/-! ### Rules -/

/-- Whoever carries out steps of rules changes nothing but pages by that. -/
def Agent.Contained (ag : Agent) : Prop :=
  ∀ fr cx levels policy step, (ag.step fr cx levels policy step).Contained

variable {ag : Agent}

/-- A rule changes pages only, if each of its steps does. -/
theorem Agent.Contained.run (hag : ag.Contained) (fr : Ongoing) (r : Rule)
    (s : Site) (h : Happening) (old new : Option Row) (policy : Option Policy) :
    (r.run ag fr s h old new policy).Contained := by
  unfold Rule.run
  refine .bind .get fun world =>
    .ite (.pure _) (.guarded (.throw _) fun _ => ?_)
  extract_lets cx levels inner leave carry env
  have hleave : ∀ s, (leave s).Contained := by
    intro s
    refine .bind (.modify fun w => ⟨rfl, rfl, rfl⟩) fun _ => ?_
    cases s with
    | none => exact .pure _
    | some s => exact .throw s
  have hcarry : ∀ isMeant, (carry isMeant).Contained := by
    intro isMeant
    refine .ite (.bind (.modify fun w => ⟨rfl, rfl, rfl⟩) fun _ => ?_) (.pure _)
    exact .bind (.tryCatch (.forM fun step _ => hag _ _ _ _ step) fun s =>
      hleave (some s)) fun _ =>
      hleave none
  cases r.text.condition with
  | none => exact .bind (.pure _) hcarry
  | some e => exact .bind (.ofFailing _) fun _ => .bind (.ofExcept _) hcarry

/-- Rules are carried out one after the other. -/
theorem Agent.Contained.runAll (hag : ag.Contained) (fr : Ongoing)
    (rules : List Rule) (s : Site) (h : Happening) (old new : Option Row)
    (policy : Option Policy) :
    (Rule.runAll ag fr rules s h old new policy).Contained :=
  .forM fun r _ => hag.run fr r s h old new policy

/-! ### Rows that come, go and change -/

namespace TableChange

variable {c : TableChange}

/-- Rules that a row brings about. -/
theorem fire_contained (hag : c.agent.Contained) (time : RuleTime)
    (h : Happening) (old new : Option WholeRow) (policy : Option Policy) :
    (c.fire time h old new policy).Contained :=
  .bind .get fun _ => hag.runAll _ _ _ _ _ _ _

/-- What depends on a row follows its change. -/
theorem follow_contained (hag : c.agent.Contained) (links : Links)
    (h : Happening) (old new : Option WholeRow) :
    (c.follow links h old new).Contained :=
  .bind .get fun _ => hag.runAll _ _ _ _ _ _ _

/-- A row is deleted, with the rules and rows that this brings about. -/
theorem delete_contained (hag : c.agent.Contained) (links : Links)
    (hasRules isCounted : Bool) (policy : Option Policy) (r : WholeRow) :
    (c.delete links hasRules isCounted policy r).Contained := by
  unfold delete
  refine .bind (c.writer.current?_contained r) fun found => ?_
  cases found with
  | none => exact .pure _
  | some r =>
      refine .bind .get fun world => ?_
      extract_lets before take delete
      have htake : ∀ found, (take found).Contained := by
        intro found
        cases found with
        | none => exact .pure _
        | some r =>
            refine .bind (links.remove_contained r) fun _ =>
              .bind (c.writer.remove_contained r) fun _ => ?_
            refine .guarded (.modify World.agrees_counting) fun _ => ?_
            refine .bind (follow_contained hag _ _ _ _) fun _ => ?_
            exact .guarded (fire_contained hag _ _ _ _ _) fun _ => .pure _
      have hdelete : ∀ u, (delete u).Contained := fun _ =>
        .ite (.bind (c.writer.current?_contained r) htake)
          (.bind (.pure _) htake)
      exact .guarded (fire_contained hag _ _ _ _ _) hdelete

/-- A row makes room for another. -/
theorem displace_contained (hag : c.agent.Contained) (r : WholeRow) :
    (c.displace r).Contained :=
  .bind .get fun _ => .bind (.ofFailing _) fun _ =>
    .bind (delete_contained hag _ _ _ _ _) fun _ =>
    .pure _

/-- Reading a number changes nothing. -/
theorem wholeNumber_contained (v : Value) : (wholeNumber v).Contained := by
  unfold wholeNumber
  split
  · exact .pure _
  · exact .fail _

variable (c)

/-- Reading the number of a row changes nothing. -/
theorem numberFrom_contained (v : Value) : (c.numberFrom v).Contained := by
  unfold numberFrom
  split
  · exact .bind .get fun _ => .pure _
  · exact wholeNumber_contained v

/-- Looking for the table of counters changes nothing. -/
theorem counterTable_contained : c.counterTable.Contained := by
  refine .bind .get fun world => ?_
  split
  · exact .ofFailing _
  · exact .fail _

/-- Looking for the counter of a table changes nothing. -/
theorem counter?_contained (w : Writer) : (c.counter? w).Contained :=
  .bind .get fun _ => .bind (.ofExcept _) fun _ =>
    .bind (.ofExcept _) fun _ => .pure _

/-- Looking for the highest number that was used changes nothing. -/
theorem usedNumber_contained : c.usedNumber.Contained := by
  refine .bind c.counterTable_contained fun w =>
    .bind (c.counter?_contained w) fun found => ?_
  cases found with
  | none => exact .pure _
  | some r => exact .bind .get fun _ => .pure _

/-- The counter of a table is on pages, too. -/
theorem useNumber_contained (n : Int) : (c.useNumber n).Contained := by
  refine .bind c.counterTable_contained fun w =>
    .bind (c.counter?_contained w) fun found => ?_
  cases found with
  | none => exact .bind w.lastNumber_contained fun _ => .bind (.pure _) fun _ =>
              w.putRow_contained _
  | some r => exact .bind (.pure _) fun _ => w.putRow_contained _

/-- Trying numbers changes nothing. -/
theorem anyNumber_contained (tries : Nat) (seed : Int) :
    (c.anyNumber tries seed).Contained := by
  induction tries generalizing seed with
  | zero => exact .fail _
  | succ tries ih =>
      refine .bind .get fun _ => .bind (.ofExcept _) fun _ => ?_
      exact .ite (ih _) (.pure _)

/-- Looking for a free number changes nothing. -/
theorem nextNumber_contained : c.nextNumber.Contained := by
  refine .bind c.writer.lastNumber_contained fun last => ?_
  dsimp only
  refine .ite (.bind c.usedNumber_contained fun n => .ite (.fail _) (.pure _))
    (.ite ?_ (.pure _))
  exact .bind .get fun _ => c.anyNumber_contained _ _

/-- Making a row out of values changes nothing. -/
theorem preview_contained (g : Given) : (c.preview g).Contained := by
  unfold preview
  have hrest : ∀ number, Work.Contained (do
      Work.ofExcept (c.writer.completed (← get)
        (c.numbered { number, values := g.values }))) :=
    fun number => .bind .get fun _ => .ofExcept _
  split
  · exact .bind (.pure _) hrest
  · exact .bind (.pure _) hrest
  · exact .bind (c.numberFrom_contained _) hrest

/-- Orders to a table of words change nothing here. -/
theorem obey_contained (order : String) : (obey order).Contained := by
  unfold obey
  extract_lets refuse
  refine .ite (.bind (.modify World.agrees_counting) fun _ => .pure _) ?_
  exact .ite (.throw _) (.throw _)

variable {c}

/-- A row is inserted, with the rules and rows that this brings about. -/
theorem insert_contained (hag : c.agent.Contained) (clauses : List Clause)
    (g : Given) : (c.insert clauses g).Contained := by
  unfold insert
  extract_lets put number
  have hput : ∀ n, (put n).Contained := by
    intro n
    refine .bind .get fun _ => .bind (.ofExcept _) fun new =>
      .bind (c.writer.check_contained _ _ (displace_contained hag) _)
        fun verdict => ?_
    cases verdict with
    | leave => exact .pure _
    | change place there => exact .pure _
    | keep r =>
        refine .bind (c.links.add_contained r) fun _ =>
          .bind (c.writer.put_contained _ r) fun _ =>
          .bind (.modify World.agrees_counting) fun _ => ?_
        refine .guarded (c.useNumber_contained _) fun _ => ?_
        refine .guarded (.modify fun w => ⟨rfl, rfl, rfl⟩) fun _ => ?_
        exact .bind (fire_contained hag _ _ _ _ _) fun _ => .pure _
  have hnumber : ∀ u, (number u).Contained := by
    intro u
    refine .ite (.bind (.pure _) hput) ?_
    split
    · exact .bind c.nextNumber_contained hput
    · exact .bind c.nextNumber_contained hput
    · exact .bind (c.numberFrom_contained _) hput
  split
  · exact .bind .get fun _ => obey_contained _
  · refine .bind .get fun world => ?_
    exact .ite (.bind (c.preview_contained g) fun _ =>
      .bind (fire_contained hag _ _ _ _ _) hnumber) (hnumber ())

/-- Making a row out of another changes nothing. -/
theorem assigned_contained (old : WholeRow) (values : List (Nat × Value))
    (number : Option Value) : (c.assigned old values number).Contained := by
  unfold assigned
  extract_lets given complete
  have hcomplete : ∀ n, (complete n).Contained :=
    fun n => .bind .get fun _ => .ofExcept _
  split
  · exact .bind (c.numberFrom_contained _) hcomplete
  · exact .bind (.pure _) hcomplete

/-- A row is updated, with the rules and rows that this brings about. -/
theorem update_contained (hag : c.agent.Contained) (names : List String)
    (changed : List Nat) (old : WholeRow) (values : List (Nat × Value))
    (number : Option Value) :
    (c.update names changed old values number).Contained := by
  unfold update
  extract_lets h change
  refine .bind (assigned_contained old values number) fun new =>
    .bind .get fun world => ?_
  extract_lets before
  have hchange : ∀ current, (change current).Contained := by
    rintro (_ | ⟨old, new⟩)
    · exact .pure _
    · refine .bind (c.writer.check_contained _ _ (displace_contained hag) _)
        fun verdict => ?_
      cases verdict with
      | leave => exact .pure _
      | change place there => exact .pure _
      | keep r =>
          refine .bind (c.links.remove_contained old) fun _ =>
            .bind (.forM fun k _ => c.writer.removeEntry_contained k old)
              fun _ => ?_
          refine .guarded (c.writer.removeRow_contained old) fun _ => ?_
          exact .bind (c.links.add_contained r) fun _ =>
            .bind (c.writer.put_contained _ r) fun _ =>
            .bind (.modify World.agrees_counting) fun _ =>
              .bind (follow_contained hag _ _ _ _)
              fun _ => .bind (fire_contained hag _ _ _ _ _) fun _ => .pure _
  refine .ite (.bind (.pure _) hchange)
    (.bind (fire_contained hag _ _ _ _ _) fun _ => ?_)
  refine .bind (c.writer.current?_contained old) fun found => ?_
  cases found with
  | none => exact .bind (.pure _) hchange
  | some old => exact .bind (assigned_contained old
      values number) fun _ => .bind (.pure _) hchange

end TableChange

/-! ### Statements that change rows -/

/-- Making a row to give back changes nothing. -/
theorem Returning.ofRow_contained (r : Returning) (env : Env) (row : Row) :
    (r.ofRow env row).Contained :=
  .ite (.pure _) (.bind (.ofExcept _) fun _ => .pure _)

/-- The same is done for each element, and what it gives is collected. -/
theorem ChangePlan.collect_contained {α : Type} {items : List α}
    {f : α → Work (List (Array Value))} (hf : ∀ x ∈ items, (f x).Contained) :
    (collect items f).Contained := by
  unfold collect
  refine .foldlM (fun rows x hx => .bind
    (.tryCatch (hf x hx) fun s => ?_) fun _ => .pure _) _
  split
  · exact .pure _
  · exact .throw _

/-- A plan changes nothing but pages, whoever carries out steps of rules in that
way. -/
def ChangePlan.Contained (p : ChangePlan) : Prop :=
  ∀ ag : Agent, ag.Contained →
    ∀ fr levels policy, (p.run ag fr levels policy).Contained

/-- Whatever is made of a statement satisfies `P`. -/
def Gives {σ ε α : Type} (P : α → Prop) (x : StateT σ (Except ε) α) : Prop :=
  ∀ s a s', x s = .ok (a, s') → P a

namespace Gives

variable {σ ε α β : Type} {P : α → Prop}

/-- A result is given. -/
theorem pure {a : α} (h : P a) :
    Gives P (Pure.pure a : StateT σ (Except ε) α) := by
  intro s b s' hrun
  cases hrun
  exact h

/-- Only the last of two actions gives a result. -/
theorem bind {x : StateT σ (Except ε) β} {f : β → StateT σ (Except ε) α}
    (h : ∀ b, Gives P (f b)) : Gives P (x >>= f) := by
  intro s a s' hrun
  change (x s >>= fun r => f r.1 r.2) = _ at hrun
  cases hx : x s with
  | error e =>
      rw [hx] at hrun
      cases hrun
  | ok r =>
      rw [hx] at hrun
      exact h r.1 r.2 a s' hrun

/-- Either of two actions gives it. -/
theorem ite {c : Prop} [Decidable c] {x y : StateT σ (Except ε) α}
    (hx : Gives P x) (hy : Gives P y) : Gives P (if c then x else y) := by
  split
  · exact hx
  · exact hy

end Gives

namespace Insert

/-- A row that is in the way of another may be updated for it. -/
theorem resolve_contained {c : TableChange} (hag : c.agent.Contained)
    (target : Target) (u : UpsertPlan) (env : Env) (there wanted : WholeRow) :
    (resolve c target u env there wanted).Contained := by
  unfold resolve
  refine .bind (c.writer.current?_contained there) fun found => ?_
  cases found with
  | none => exact .pure _
  | some old =>
      refine .bind .get fun world => ?_
      extract_lets env columns change
      have hchange : ∀ isMeant, (change isMeant).Contained := by
        intro isMeant
        refine .ite (.pure _) (.bind (.ofExcept _) fun (values, number) =>
          .bind (.ofFailing _) fun links => ?_)
        refine TableChange.update_contained ?_ _ _ _ _ _
        exact hag
      split
      · exact .bind (.ofExcept _) hchange
      · exact .bind (.pure _) hchange

/-- A row is inserted, or the row that is in its way is updated. -/
theorem insertRow_contained {c : TableChange} (hag : c.agent.Contained)
    (target : Target) (upserts : List UpsertPlan) (returning : Returning)
    (env : Env) (g : Given) :
    (insertRow c target upserts returning env g).Contained := by
  unfold insertRow
  extract_lets done
  have hdone : ∀ r, (done r).Contained := fun r =>
    .bind .get fun _ => returning.ofRow_contained _ _
  refine .bind (TableChange.insert_contained hag _ g) fun outcome => ?_
  cases outcome with
  | done r => exact hdone r
  | left => exact .pure _
  | conflict place there wanted =>
      dsimp only
      split
      · exact .pure _
      · refine .bind (resolve_contained hag _ _ _ _ _) fun found => ?_
        cases found with
        | none => exact .pure _
        | some r => exact hdone r

/-- Finding the numbers of rows that come changes nothing. -/
theorem numbersOf_contained (s : Insert) (cx : Context) (w : World)
    (target : Target) : (s.numbersOf cx w target).Contained := by
  unfold numbersOf
  extract_lets whole
  clear_value whole
  split
  · refine .ite (.pure _) (.bind (.ofFailing _) fun _ => .ite (.pure _) ?_)
    exact .bind (.ofFailing _) fun _ => .bind (.ofExcept _) fun _ => .pure _
  · exact .pure _

end Insert

/-- Computing the values of a row that comes changes nothing. -/
theorem Coming.values_contained (env : Env) (row : Coming) :
    (row.values env).Contained := by
  cases row with
  | known values => exact .pure _
  | computed q => exact .bind .get fun _ => .bind (.ofExcept _) fun _ => .pure _

namespace InsertPlan

variable (p : InsertPlan)

/-- Computing the rows that come changes nothing. -/
theorem rows_contained (env : Env) : (p.rows env).Contained := by
  unfold rows
  extract_lets isGradual
  split
  · exact .pure _
  · exact .ite (.pure _) (.bind (.ofExcept _) fun _ => .pure _)

/-- A row that comes is inserted in a table, or handed to the rules of a
view. -/
theorem put_contained {ag : Agent} (hag : ag.Contained) (fr : Ongoing)
    (policy : Option Policy) (env : Env) (number : Option Value)
    (values : Array Value) :
    (p.put ag fr policy env number values).Contained := by
  unfold put
  refine .bind .get fun _ => ?_
  extract_lets env places
  refine .bind (.ofExcept _) fun g => ?_
  extract_lets g
  split
  · exact Insert.insertRow_contained hag _ _ _ _ _
  · exact .bind .get fun _ => .bind (hag.runAll _ _ _ _ _ _ _) fun _ =>
      p.returning.ofRow_contained _ _

end InsertPlan

/-- **An insertion** changes nothing but pages. -/
theorem Insert.plan_contained (cx : Context) (s : Insert) :
    Gives ChangePlan.Contained (s.plan cx) := by
  unfold plan
  refine .bind fun cx => .bind fun p => .pure fun ag hag fr levels policy => ?_
  change (s.run cx p ag fr levels policy).Contained
  unfold run
  refine .bind .get fun world => ?_
  extract_lets start env
  refine .bind (p.rows_contained env) fun rows =>
    .bind (s.numbersOf_contained cx world _) fun numbers => ?_
  refine ChangePlan.collect_contained fun (row, k) _ => ?_
  exact .bind (row.values_contained env) fun values =>
    p.put_contained hag fr _ env _ values

/-- Finding the rows that are meant changes nothing. -/
theorem Meant.rows_contained (m : Meant) (env : Env) : (m.rows env).Contained :=
  .ofExcept _

/-- One of the rows that are meant is updated. -/
theorem Update.changeRow_contained (s : Update) (p : UpdatePlan)
    {c : TableChange} (hag : c.agent.Contained) (env : Env) (old : WholeRow)
    (rows : Array Row) : (s.changeRow p c env old rows).Contained := by
  unfold changeRow
  refine .bind (c.writer.current?_contained old) fun found => ?_
  cases found with
  | none => exact .pure _
  | some old =>
      refine .bind .get fun world => ?_
      extract_lets env inner
      refine .bind (.ofExcept _) fun (values, number) =>
        .bind (TableChange.update_contained hag _ _ _ _ _) fun found => ?_
      cases found with
      | none => exact .pure _
      | some r => exact .bind .get fun _ => p.returning.ofRow_contained _ _

/-- **An update** changes nothing but pages. -/
theorem Update.plan_contained (cx : Context) (s : Update) :
    Gives ChangePlan.Contained (s.plan cx) := by
  unfold plan
  refine .bind fun cx => .bind fun p => .pure fun ag hag fr levels policy => ?_
  change (s.run p ag fr levels policy).Contained
  unfold run
  refine .bind .get fun world => ?_
  extract_lets start env policy e
  refine .bind (p.meant.rows_contained env) fun found => ?_
  split
  · refine .bind (.ofExcept _) fun whole => ChangePlan.collect_contained ?_
    rintro ⟨old, rows⟩ -
    refine s.changeRow_contained p ?_ env old rows
    exact hag
  · refine ChangePlan.collect_contained fun rows _ => .bind .get fun _ => ?_
    exact .bind (.ofExcept _) fun _ => .bind (hag.runAll _ _ _ _ _ _ _) fun _ =>
      p.returning.ofRow_contained _ _

/-- All rows of a table are taken out at once, and are counted. -/
theorem DeletePlan.clear_contained (w : Writer) :
    (DeletePlan.clear w).Contained := by
  refine .bind .get fun world => ?_
  extract_lets pages rows
  exact .bind (.modify fun _ => ⟨rfl, rfl, rfl⟩) fun _ => w.clear_contained

/-- **A deletion** changes nothing but pages. -/
theorem Delete.plan_contained (cx : Context) (s : Delete) :
    Gives ChangePlan.Contained (s.plan cx) := by
  unfold plan
  refine .bind fun cx => .bind fun p => .pure fun ag hag fr levels policy => ?_
  change (p.run ag fr levels policy).Contained
  unfold DeletePlan.run
  refine .bind .get fun world => ?_
  extract_lets start env
  split
  · refine .ite (.bind (DeletePlan.clear_contained _) fun _ => .pure _) ?_
    refine .bind (p.meant.rows_contained env) fun found => ?_
    refine .bind (.ofExcept _) fun whole =>
      ChangePlan.collect_contained fun r _ => ?_
    refine .bind (TableChange.delete_contained ?_ _ _ _ _ _) fun found => ?_
    · exact hag
    · cases found with
      | none => exact .pure _
      | some r => exact .bind .get fun _ => p.returning.ofRow_contained _ _
  · refine .bind (p.meant.rows_contained env) fun found => ?_
    refine ChangePlan.collect_contained fun rows _ => .bind .get fun _ => ?_
    exact .bind (hag.runAll _ _ _ _ _ _ _) fun _ =>
      p.returning.ofRow_contained _ _

/-- A step of a rule changes nothing but pages. -/
theorem RuleStep.plan_contained (cx : Context) (s : RuleStep) :
    Gives ChangePlan.Contained (s.plan cx) := by
  cases s with
  | insert s => exact s.plan_contained cx
  | update s => exact s.plan_contained cx
  | delete s => exact s.plan_contained cx
  | select q =>
      refine .bind fun p => .pure fun _ _ fr levels policy => ?_
      exact .bind .get fun _ => .bind (.ofExcept _) fun _ => .pure _

/-- What is made by itself. -/
theorem Gives.alone {α : Type} {P : α → Prop} {x : Build α} {a : α}
    (h : Gives P x) (hx : Build.alone x = .ok a) : P a := by
  unfold Build.alone at hx
  cases hrun : x.run [] with
  | error f =>
      rw [hrun] at hx
      cases hx
  | ok r =>
      rw [hrun] at hx
      cases hx
      exact h [] r.1 r.2 hrun

/-- What is made inside another query. -/
theorem Gives.inside {α : Type} {P : α → Prop} {x : Build α} (h : Gives P x) :
    Gives (fun r => P r.1) (Build.inside x) := by
  intro notes r notes' hrun
  change (x ({} :: notes) >>= fun r => _) = _ at hrun
  cases hx : x ({} :: notes) with
  | error f =>
      rw [hx] at hrun
      cases hrun
  | ok r' =>
      rw [hx] at hrun
      cases hrun
      exact h _ r'.1 r'.2 hx

/-- A result that may be a failure is known in what goes on with it. -/
theorem Work.Keeps.ofFailing_bind {α β : Type} {R : World → World → Prop}
    [Std.Refl R] {r : Except Failure α} {f : α → Work β}
    (h : ∀ a, r = .ok a → (f a).Keeps R) :
    (Work.ofFailing r >>= f).Keeps R := by
  cases r with
  | error e => exact fun w => refl_of R w
  | ok a => exact h a rfl

/-- **Who carries out rules** changes nothing but pages, however deep they bring
about each other. -/
theorem agent_contained (n : Nat) : (agent n).Contained := by
  induction n with
  | zero => exact fun _ _ _ _ _ => .throw _
  | succ n ih =>
      intro fr cx levels policy step
      refine .bind .get fun world => .ofFailing_bind fun (p, notes) hp => ?_
      have hplan := (RuleStep.plan_contained _ step).inside.alone hp
      exact .bind (hplan (agent n) ih fr levels policy) fun _ =>
        .ite (.modify World.agrees_settled) (.pure _)

/-- Whatever rules a change of rows brings about, nothing but pages is
changed. -/
theorem ChangePlan.carryOut_contained {p : ChangePlan} (h : p.Contained) :
    p.carryOut.Contained :=
  .bind (.modify fun _ => ⟨rfl, rfl, rfl⟩) fun _ =>
    h _ (agent_contained _) _ _ _

end Database

end Bytecode
