import Mathlib
import Bytecode.Database.Connection
import Bytecode.Journal
import Bytecode.Proofs.RowChanges

/-!
# Transactions

While a transaction is open, a session keeps the databases as they were when it
began.  `Session.contents` are its databases, whatever of them still waits to be
written, and `Session.saved` those that an open transaction would go back to.

Databases are put back by their names.  So it has to be known that no two of
them have one name, and that the open transaction has changed nothing but pages:
`Session.Steady`.  A statement that changes rows keeps it so.  It leaves the
transaction open, or it fails and the transaction has been undone, `Carries`.

A connection without files does nothing but what its session does.  What comes
of a statement on it can be said without any host: `Connection.performed`.
-/

namespace Bytecode.Database

/-! ### Databases that are put back -/

/-- A database of which nothing waits to be written. -/
def Store.atRest (s : Store) : Store :=
  { s with pages := { s.pages with isTouched := false } }

namespace World

variable {w w' old now : World}

/-- The names of the databases. -/
def names (w : World) : List String := w.stores.toList.map (·.name)

/-- Agreement is symmetric. -/
theorem Agrees.symm (h : w.Agrees w') : w'.Agrees w :=
  ⟨h.stores.symm, h.encoding.symm, h.switches.symm⟩

/-- Databases that agree are told apart by their pages only. -/
theorem Agrees.outline_eq (h : w.Agrees w') (n : Nat) :
    w'.stores[n]?.map Store.outline = w.stores[n]?.map Store.outline := by
  have hn := congrArg (·[n]?) h.stores
  simpa only [Array.getElem?_map] using hn

/-- Databases that agree have the same names. -/
theorem Agrees.names_eq (h : w.Agrees w') : w'.names = w.names := by
  have hmap : ∀ v : World,
      v.names = (v.stores.map Store.outline).toList.map (·.name) := by
    intro v
    rw [Array.toList_map, List.map_map]
    rfl
  rw [hmap, hmap, h.stores]

/-- Nothing waits to be written any more; the names stay. -/
theorem names_atRest (w : World) :
    { w with stores := w.stores.map Store.atRest }.names = w.names := by
  unfold names
  rw [Array.toList_map, List.map_map]
  rfl

/-- A database is found by its name, if no other has that name. -/
theorem find?_of_nodup (hnodup : w.names.Nodup) {o : Store}
    (ho : o ∈ w.stores) {name : String} (hname : o.name = name) :
    w.stores.find? (fun o => decide (o.name = name)) = some o := by
  cases hfound : w.stores.find? (fun o => decide (o.name = name)) with
  | none =>
      rw [Array.find?_eq_none] at hfound
      exact absurd (decide_eq_true hname) (hfound o ho)
  | some x =>
      have hx := Array.find?_some hfound
      rw [decide_eq_true_eq] at hx
      have hmem : x ∈ w.stores := Array.mem_of_find?_eq_some hfound
      rw [List.inj_on_of_nodup_map hnodup (Array.mem_toList_iff.mpr hmem)
        (Array.mem_toList_iff.mpr ho) (hx.trans hname.symm)]

end World

namespace Session

variable {s s' : Session} {old now : World} {ε α : Type}

/-- The databases of a session, whatever of them waits to be written. -/
def contents (s : Session) : Array Store := s.world.stores.map Store.atRest

/-- What the databases go back to if the open transaction is undone. -/
def saved (s : Session) : Option (Array Store) :=
  s.before.map fun w => w.stores.map Store.atRest

/-- No two databases of a session have one name, and only pages have been
changed in the open transaction. -/
structure Steady (s : Session) : Prop where
  nodup : s.world.names.Nodup
  agrees : ∀ old ∈ s.before, old.Agrees s.world

/-- All databases are as they were, whatever is on the pages they have now. -/
theorem restored_stores (h : old.Agrees now) (hnodup : now.names.Nodup) :
    (restored old now).stores = old.stores := by
  apply Array.ext_getElem?
  intro n
  have hn := h.outline_eq n
  simp only [restored, Array.getElem?_map]
  cases hold : old.stores[n]? with
  | none =>
      cases hnow : now.stores[n]? with
      | none => rfl
      | some x => simp [hold, hnow] at hn
  | some o =>
      cases hnow : now.stores[n]? with
      | none => simp [hold, hnow] at hn
      | some x =>
          rw [hold, hnow] at hn
          have hname : o.name = x.name :=
            (congrArg Store.name (Option.some.inj hn)).symm
          have hsame : old.names.Nodup := h.symm.names_eq ▸ hnodup
          simp only [Option.map_some]
          rw [World.find?_of_nodup hsame (Array.mem_of_getElem? hold) hname]
          rfl

/-- Databases keep their names when they are put back. -/
theorem names_restored (old now : World) :
    (restored old now).names = now.names := by
  unfold World.names restored
  rw [Array.toList_map, List.map_map]
  refine List.map_congr_left fun s _ => ?_
  simp only [Function.comp_apply]
  cases hfound : old.stores.find? (fun o => decide (o.name = s.name)) with
  | none => rfl
  | some o =>
      have ho := Array.find?_some hfound
      rwa [decide_eq_true_eq] at ho

/-- **Undoing a transaction** puts the databases back that there were when it
began. -/
theorem Steady.undone (hs : s.Steady) :
    s.undone.Steady ∧ s.undone.saved = none ∧
      ∀ t ∈ s.saved, s.undone.contents = t := by
  cases hbefore : s.before with
  | none =>
      have hsame : s.undone = s := by simp only [Session.undone, hbefore]
      have hsaved : s.saved = none := by rw [saved, hbefore, Option.map_none]
      rw [hsame, hsaved]
      exact ⟨hs, rfl, fun t ht => by cases ht⟩
  | some old =>
      have hstores := restored_stores (hs.agrees old hbefore) hs.nodup
      have hundone :
          s.undone = { s with world := restored old s.world }.ended := by
        simp only [Session.undone, hbefore]
      rw [hundone]
      refine ⟨⟨?_, fun old hold => by cases hold⟩, rfl, fun t ht => ?_⟩
      · exact names_restored old s.world ▸ hs.nodup
      · rw [saved, hbefore] at ht
        cases ht
        exact congrArg (·.map Store.atRest) hstores

/-! ### Steps of a transaction -/

/-- Where a transaction is after a step with some result: it goes on, or the
step has failed and the transaction has been undone. -/
structure Carries (s : Session) (r : Except ε α) (s' : Session) : Prop where
  steady : s'.Steady
  saved : s'.saved = s.saved ∨
    (∃ e, r = .error e) ∧ s'.saved = none ∧ ∀ t ∈ s.saved, s'.contents = t

/-- The transaction goes on if nothing has been done. -/
theorem Carries.refl (hs : s.Steady) (r : Except ε α) : Carries s r s :=
  ⟨hs, .inl rfl⟩

/-- A failure is still one if it is told in another way. -/
theorem Carries.told {δ β : Type} {r : Except ε α} {r' : Except δ β}
    (h : Carries s r s') (hr : ∀ e, r = .error e → ∃ e', r' = .error e') :
    Carries s r' s' := by
  refine ⟨h.steady, h.saved.imp id ?_⟩
  rintro ⟨⟨e, he⟩, hundone⟩
  exact ⟨hr e he, hundone⟩

/-- A step that has not failed is followed by another. -/
theorem Carries.andThen {β : Type} {s'' : Session} {a : β} {r : Except ε α}
    (h : Carries s (.ok a : Except ε β) s') (h' : Carries s' r s'') :
    Carries s r s'' := by
  obtain hsaved | ⟨⟨e, he⟩, -⟩ := h.saved
  · exact ⟨h'.steady, hsaved ▸ h'.saved⟩
  · cases he

/-- A session is steady as long as only pages are changed. -/
theorem Steady.goesOn (hs : s.Steady) (h : s.world.Agrees s'.world)
    (hbefore : s'.before = s.before) : s'.Steady := by
  refine ⟨h.names_eq ▸ hs.nodup, fun old hold => ?_⟩
  exact (hs.agrees old (hbefore ▸ hold)).trans h

/-- An operation that keeps the world and what was before keeps the
transaction. -/
theorem carries_of_agrees (hs : s.Steady) (h : s.world.Agrees s'.world)
    (hbefore : s'.before = s.before) (r : Except ε α) : Carries s r s' :=
  ⟨hs.goesOn h hbefore, .inl (by rw [saved, saved, hbefore])⟩

/-- A step that has failed may have undone the transaction. -/
theorem carries_undone (hs' : s'.Steady) (hbefore : s'.before = s.before)
    (e : ε) : Carries s (.error e : Except ε α) s'.undone := by
  obtain ⟨hsteady, hsaved, hcontents⟩ := hs'.undone
  refine ⟨hsteady, .inr ⟨⟨e, rfl⟩, hsaved, fun t ht => hcontents t ?_⟩⟩
  rwa [saved, hbefore]

/-- **A step of a transaction** that changes nothing but pages. -/
theorem carries_attempt {work : Work α} (hs : s.Steady)
    (hwork : work.Contained) :
    Carries s (s.attempt work).1 (s.attempt work).2 := by
  unfold attempt
  have hworld := hwork { s.world with pending := 0 }
  change World.Agrees _ (work.run { s.world with pending := 0 }).2 at hworld
  rcases hrun : work.run { s.world with pending := 0 } with ⟨result, world⟩
  rw [hrun] at hworld
  have hahead : ∀ r : Except Failure α, Carries s r { s with world } :=
    carries_of_agrees hs ⟨hworld.stores, hworld.encoding, hworld.switches⟩ rfl
  have hleft : (s.without world).Steady := hs.goesOn ⟨rfl, rfl, rfl⟩ rfl
  have hwithout : ∀ r : Except Failure α, Carries s r (s.without world) :=
    carries_of_agrees hs ⟨rfl, rfl, rfl⟩ rfl
  have hundone : ∀ f, Carries s (.error f : Except Failure α)
      (s.without world).undone := carries_undone hleft rfl
  cases result with
  | ok a =>
      dsimp only
      split
      · exact hwithout _
      · exact hahead _
  | error stop =>
      cases stop with
      | skip => exact hwithout _
      | failed f extent =>
          dsimp only
          split
          · exact hundone f
          · cases extent with
            | rollback => exact hundone f
            | abort => exact hwithout _
            | fail =>
                dsimp only
                split
                · exact hwithout _
                · exact hahead _
            | ignore =>
                dsimp only
                split
                · exact hwithout _
                · exact hahead _

/-- A change of rows is such a step. -/
theorem carries_change (hs : s.Steady) {p : ChangePlan} (hp : p.Contained) :
    Carries s ((Prepared.ofChange p).run s).1
      ((Prepared.ofChange p).run s).2 := by
  have hwork : Work.Contained
      (do return { items := ← p.carryOut } : Work (Flow (Array Value))) :=
    .bind (p.carryOut_contained hp) fun _ => .pure _
  have h := carries_attempt hs hwork
  exact ⟨h.steady.goesOn (World.agrees_settled _) rfl, h.saved⟩

/-! ### How a transaction begins and ends -/

/-- A session after something that does nothing if it fails. -/
def after (s : Session) (f : Session → Except Failure Session) : Session :=
  (f s).toOption.getD s

/-- A transaction that begins notes the databases. -/
theorem Steady.begin (hs : s.Steady) (hidle : s.saved = none) (b : Begin) :
    (s.after (·.begin b)).Steady ∧
      (s.after (·.begin b)).contents = s.contents ∧
      (s.after (·.begin b)).saved = match s.begin b with
        | .ok _ => some s.contents
        | .error _ => none := by
  unfold after Session.begin
  dsimp only
  split
  · exact ⟨hs, rfl, hidle⟩
  · split
    · exact ⟨hs, rfl, hidle⟩
    · refine ⟨⟨hs.nodup, fun old hold => ?_⟩, rfl, rfl⟩
      obtain rfl := Option.some.inj hold
      exact refl _

/-- A transaction that is closed keeps the databases as they are; it stays open
if rows do not find what they depend on. -/
theorem Steady.commit (hs : s.Steady) :
    (s.after (·.commit)).Steady ∧
      (s.after (·.commit)).contents = s.contents ∧
      (s.after (·.commit)).saved = match s.commit with
        | .ok _ => none
        | .error _ => s.saved := by
  unfold after Session.commit
  dsimp only
  split
  · exact ⟨hs, rfl, rfl⟩
  · split
    · exact ⟨hs, rfl, rfl⟩
    · exact ⟨⟨hs.nodup, fun old hold => by cases hold⟩, rfl, rfl⟩

/-- After a transaction has been undone the databases are as it found them. -/
theorem Steady.rollback (hs : s.Steady) :
    (s.after (·.rollback)).Steady ∧ (s.after (·.rollback)).saved = none ∧
      (s.after (·.rollback)).contents = s.saved.getD s.contents := by
  unfold after Session.rollback
  dsimp only
  by_cases hopen : s.inTransaction = true
  · rw [if_pos hopen]
    obtain ⟨hsteady, hsaved, hcontents⟩ := hs.undone
    obtain ⟨old, hold⟩ := Option.isSome_iff_exists.mp hopen
    have hthere : s.saved = some (old.stores.map Store.atRest) := by
      rw [saved, hold]
      rfl
    refine ⟨hsteady, hsaved, ?_⟩
    rw [hthere]
    exact hcontents _ hthere
  · rw [if_neg hopen]
    rw [inTransaction, Option.not_isSome_iff_eq_none] at hopen
    have hnone : s.saved = none := by rw [saved, hopen, Option.map_none]
    refine ⟨hs, hnone, ?_⟩
    rw [hnone]
    rfl

end Session

/-! ### Statements on rows -/

namespace Statement

/-- The statement changes rows or asks for them. -/
def isOnRows : Statement → Bool
  | .insert _ | .update _ | .delete _ | .select _ => true
  | _ => false

/-- The statement asks for no file beside those of a connection. -/
def isPlain : Statement → Bool
  | .attach _ _ | .detach _ | .vacuum _ (some _) => false
  | .directive d => d.key ≠ "temp_store_directory"
  | _ => true

/-- A statement on rows is plain. -/
theorem isPlain_of_isOnRows {s : Statement} (h : s.isOnRows = true) :
    s.isPlain = true := by
  cases s with
  | insert _ | update _ | delete _ | select _ => rfl
  | _ => cases h

/-- It begins no transaction. -/
theorem beginning?_of_isOnRows {s : Statement} (h : s.isOnRows = true) :
    s.beginning? = none := by
  cases s with
  | insert _ | update _ | delete _ | select _ => rfl
  | _ => cases h

end Statement

namespace Reader

variable {α β : Type} {P : α → Prop} {g : Grammar} {t : Token} {ts : List Token}

/-- A result is mapped within its property. -/
theorem gives_map {x : Reader β} {f : β → α} (h : ∀ b, P (f b)) :
    Gives P (f <$> x) :=
  Gives.bind fun b => Gives.pure (h b)

/-- What begins as a change of rows or a query does is one. -/
theorem changing_gives (g : Grammar) :
    Gives (fun s => s.isOnRows = true) (changing g) := by
  refine .bind fun r => .bind fun isUpdate => ?_
  refine .ite (gives_map fun _ => rfl) ?_
  refine .bind fun isDelete => .ite (gives_map fun _ => rfl) ?_
  refine .bind fun policy? => ?_
  cases policy? with
  | some policy => exact gives_map fun _ => rfl
  | none => exact gives_map fun _ => rfl

/-- A token is accepted if it is the one in question. -/
theorem accept_cons (p : Token → Bool) (t : Token) (ts : List Token) :
    accept p (t :: ts) =
      .ok (if p t then (true, ts) else (false, t :: ts)) := by
  change (if p t then _ else _ : Reader Bool) (t :: ts) = _
  split <;> rfl

/-- A token that is a certain word is a word, and that one. -/
theorem word_of_isWord {w : String} (h : t.isWord w = true) :
    t.kind = .word ∧ Token.lowered t.text = w := by
  simpa [Token.isWord] using h

/-- None of the words in front of "insert" and "select" is one of these. -/
theorem statement_of_isWord
    (h : t.isWord "insert" = true ∨ t.isWord "select" = true) :
    statement (t :: ts) =
      changing (grammar ((t :: ts).length + 1)) (t :: ts) := by
  rcases h with h | h
  · obtain ⟨hkind, htext⟩ := word_of_isWord h
    simp [statement, whole, plainStatement, acceptWord, accept_cons, ahead,
      Token.isWord, hkind, htext, bind, StateT.bind, Except.bind, get, getThe,
      MonadStateOf.get, StateT.get, pure, StateT.pure, Except.pure]
  · obtain ⟨hkind, htext⟩ := word_of_isWord h
    simp [statement, whole, plainStatement, acceptWord, accept_cons, ahead,
      Token.isWord, hkind, htext, bind, StateT.bind, Except.bind, get, getThe,
      MonadStateOf.get, StateT.get, pure, StateT.pure, Except.pure]

/-- Behind `SELECT` a query is read. -/
theorem changing_of_select (h : t.isWord "select" = true) :
    changing g (t :: ts) =
      (Statement.select <$> queryBehind g [] false) (t :: ts) := by
  obtain ⟨hkind, htext⟩ := word_of_isWord h
  simp [changing, namedQueries, inserting, acceptWord, accept_cons,
    Token.isWord, hkind, htext, bind, StateT.bind, Except.bind, pure,
    StateT.pure, Except.pure]

end Reader

namespace Statement

variable {t : Token} {ts rest : List Token} {s : Statement} {text : String}

/-- The statement that is read stands, whatever is behind it, unless it is one
of those that are refused after a beginning only. -/
theorem read_of_next (hword : t.kind = .word)
    (hread : ∀ r, Reader.statement (t :: ts) = .ok r → r.1.beginning? = none)
    (h : next (t :: ts) = .ok (some (s, rest))) :
    ∃ left, Reader.statement (t :: ts) = .ok (s, left) := by
  have hdrop : (t :: ts).dropWhile (·.isMark ";") = t :: ts :=
    List.dropWhile_cons_of_neg (by simp [Token.isMark, hword])
  rw [next, hdrop] at h
  cases hstatement : Reader.statement (t :: ts) with
  | error r =>
      simp only [hstatement] at h
      cases h
  | ok r =>
      obtain ⟨s', left⟩ := r
      have hnone : s'.beginning? = none := hread _ hstatement
      simp only [hstatement, bind, Except.bind] at h
      split at h
      · cases h
        exact ⟨_, rfl⟩
      · split at h
        · cases h
          exact ⟨_, rfl⟩
        · rw [hnone] at h
          cases h

/-- The text of one statement begins with it. -/
theorem next_of_ofText (hs : ofText text = .ok s) :
    ∃ rest, next (Token.all text) = .ok (some (s, rest)) := by
  rw [ofText] at hs
  cases hnext : next (Token.all text) with
  | error r =>
      rw [hnext] at hs
      cases hs
  | ok found =>
      rw [hnext] at hs
      obtain _ | ⟨s', rest⟩ := found
      · cases hs
      · obtain rfl := Except.ok.inj hs
        exact ⟨rest, rfl⟩

/-- The first word of a text tells what it spells. -/
theorem changing_of_ofText {p : Token → Bool}
    (hp : ∀ t : Token, p t = true →
      t.isWord "insert" = true ∨ t.isWord "select" = true)
    (h : (Token.all text).head?.any p = true) (hs : ofText text = .ok s) :
    ∃ g t ts left, p t = true ∧
      Reader.changing g (t :: ts) = .ok (s, left) := by
  obtain ⟨rest, hnext⟩ := next_of_ofText hs
  cases hts : Token.all text with
  | nil =>
      rw [hts] at h
      cases h
  | cons t ts =>
      rw [hts] at h hnext
      have hword := hp t h
      have hkind : t.kind = .word :=
        hword.elim (fun h => (Reader.word_of_isWord h).1)
          fun h => (Reader.word_of_isWord h).1
      have hread : Reader.statement (t :: ts) = _ :=
        Reader.statement_of_isWord hword
      have hnone : ∀ r, Reader.statement (t :: ts) = .ok r →
          r.1.beginning? = none := by
        intro r hr
        rw [hread] at hr
        exact beginning?_of_isOnRows (Reader.changing_gives _ _ r.1 r.2 hr)
      obtain ⟨left, hleft⟩ := read_of_next hkind hnone hnext
      exact ⟨_, t, ts, left, h, hread ▸ hleft⟩

/-- A text that begins as a change of rows does spells no other statement. -/
theorem isOnRows_of_insert
    (h : (Token.all text).head?.any (·.isWord "insert") = true)
    (hs : ofText text = .ok s) : s.isOnRows = true := by
  obtain ⟨g, t, ts, left, -, hread⟩ :=
    changing_of_ofText (fun _ => .inl) h hs
  exact Reader.changing_gives g _ _ _ hread

/-- A text that begins as a query does spells no other statement. -/
theorem select_of_ofText
    (h : (Token.all text).head?.any (·.isWord "select") = true)
    (hs : ofText text = .ok s) : ∃ q, s = .select q := by
  obtain ⟨g, t, ts, left, ht, hread⟩ :=
    changing_of_ofText (fun _ => .inr) h hs
  rw [Reader.changing_of_select ht] at hread
  exact Reader.gives_map (P := fun s => ∃ q, s = Statement.select q)
    (fun q => ⟨q, rfl⟩) _ _ _ hread

end Statement

namespace Session

variable {s : Session} {args : List Value} {p : Prepared}

/-- What is made sense of as a change of rows carries a transaction on. -/
theorem carries_prepareChange (hs : s.Steady) {plan : Build ChangePlan}
    (hplan : Gives ChangePlan.Contained plan)
    (hp : prepareChange s.world plan = .ok p) :
    Carries s (s.run p).1 (s.run p).2 := by
  unfold prepareChange at hp
  cases hmade : Build.alone plan with
  | error f =>
      rw [hmade] at hp
      cases hp
  | ok q =>
      have hq : q.Contained := hplan.alone hmade
      have hchecked : q.checked s.world = .ok q ∨
          ∃ f, q.checked s.world = .error f := by
        unfold ChangePlan.checked
        cases Prospect.check s.world ChangePlan.patience []
          (Prospect.ofPlan s.world q) with
        | error f => exact .inr ⟨f, rfl⟩
        | ok u => exact .inl rfl
      rw [hmade] at hp
      rcases hchecked with hchecked | ⟨f, hchecked⟩
      · obtain rfl : Prepared.ofChange q = p := by
          simpa [hchecked, bind, Except.bind, pure, Except.pure] using hp
        unfold Session.run
        split
        · exact .refl hs _
        · exact carries_change hs hq
      · simp [hchecked, bind, Except.bind] at hp

/-- A query leaves a session as it is. -/
theorem run_select {q : Query} (hp : s.prepare args (.select q) = .ok p) :
    (s.run p).2 = s := by
  unfold Session.prepare at hp
  cases hplan : Build.alone (meanings.query { world := s.world, args } q) with
  | error f =>
      rw [hplan] at hp
      cases hp
  | ok plan =>
      rw [hplan] at hp
      obtain rfl : Prepared.ofPlan plan = p := Except.ok.inj hp
      unfold Session.run
      split <;> rfl

/-- **Statements on rows** carry a transaction on. -/
theorem carries_onRows (hs : s.Steady) {x : Statement}
    (hx : x.isOnRows = true) (hp : s.prepare args x = .ok p) :
    Carries s (s.run p).1 (s.run p).2 := by
  cases x with
  | insert i => exact carries_prepareChange hs (i.plan_contained _) hp
  | update u => exact carries_prepareChange hs (u.plan_contained _) hp
  | delete d => exact carries_prepareChange hs (d.plan_contained _) hp
  | select q =>
      rw [run_select hp]
      exact .refl hs _
  | _ => cases hx

end Session

end Bytecode.Database

namespace Bytecode.Journal

open Database (Statement Token)

/-! ### Statements of a journal -/

/-- Every change of a journal changes rows and nothing else. -/
theorem Change.isOnRows (c : Change) (s : Statement)
    (hs : Statement.ofText c.statement = .ok s) : s.isOnRows = true := by
  refine Statement.isOnRows_of_insert ?_ hs
  unfold Token.all
  cases c with
  | insertRun r =>
      unfold Change.statement runColumns
      simp only [String.toList_append]
      -- a literal is made of its characters by definition, so no bytes have to
      -- be read
      repeat rw [String.toList_ofList]
      decide +kernel
  | insertCount id pass n =>
      unfold Change.statement
      rw [String.toList_ofList]
      decide +kernel

/-- Every question of a journal is a query. -/
theorem Question.isSelect (q : Question) (s : Statement)
    (hs : Statement.ofText q.statement = .ok s) : ∃ x, s = .select x := by
  refine Statement.select_of_ofText ?_ hs
  unfold Token.all
  cases q with
  | run id =>
      unfold Question.statement runColumns
      simp only [String.toList_append]
      repeat rw [String.toList_ofList]
      decide +kernel
  | latest limit =>
      unfold Question.statement runColumns
      simp only [String.toList_append]
      cases limit.isSome with
      | true =>
          rw [if_pos rfl]
          repeat rw [String.toList_ofList]
          decide +kernel
      | false =>
          rw [if_neg Bool.false_ne_true]
          repeat rw [String.toList_ofList]
          decide +kernel
  | counts id =>
      unfold Question.statement
      rw [String.toList_ofList]
      decide +kernel
  | totals =>
      unfold Question.statement
      rw [String.toList_ofList]
      decide +kernel

end Bytecode.Journal
