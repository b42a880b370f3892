import Bytecode.Database.Change.Plan

/-!
# Changes with all that they bring about

The steps of a rule are statements that change rows, so they bring about other
rules. Before a statement is carried out it is made sure that everything it can
bring about makes sense.
-/

namespace Bytecode.Database

namespace RuleStep

/-- The meaning of a step of a rule. -/
def plan (cx : Context) : RuleStep → Build ChangePlan
  | .insert s => s.plan cx
  | .update s => s.plan cx
  | .delete s => s.plan cx
  | .select q => do
    let p ← meanings.query cx q
    return { run := fun _ _ levels _ => do
      let _ ← Work.ofExcept (p.run { Env.ofWorld (← get) with levels }).all
      return #[] }

/-- Whether a step only looks at rows. -/
def isQuery : RuleStep → Bool
  | .select _ => true
  | _ => false

end RuleStep

/-- Who carries out the steps of rules that bring about each other so deep. -/
def agent : Nat → Agent
  | 0 => { step := fun _ _ _ _ _ =>
             throw (.said "too many levels of trigger recursion") }
  | n + 1 =>
    { step := fun ongoing cx levels policy step => do
        let world ← get
        let (p, _) ← Work.ofFailing
          (Build.alone (Build.inside (step.plan { cx with world })))
        let _ ← p.run (agent n) ongoing levels policy
        if !step.isQuery then modify World.settled }

/-- A rule on an occasion for it. -/
structure Prospect where
  rule : Rule
  site : Site
  happening : Happening

namespace Prospect

/-- What tells occasions apart. -/
def key (p : Prospect) : List String :=
  let kind := match p.happening with
    | .insert => "insert"
    | .delete => "delete"
    | .update _ => "update"
  let target := match p.rule.text.steps with
    | .update s :: _ => s.table.name
    | .delete s :: _ => s.table.name
    | _ => ""
  [p.rule.name, Text.decimal 1 p.rule.store, p.site.name, kind,
    if p.rule.name = "" then target else ""]

/-- The rules that a plan can bring about. -/
def ofPlan (world : World) (p : ChangePlan) : List Prospect :=
  p.happenings.flatMap (fun (site, h) =>
    ((world.rulesAt site).filter fun r => h.isMeant r.text.event).map
      fun rule => ⟨rule, site, h⟩) ++
    p.following.map fun (site, h, rule) => ⟨rule, site, h⟩

/-- What the steps of a rule can bring about; the rule must make sense. -/
def next (world : World) (p : Prospect) : Except Failure (List Prospect) := do
  let cx := p.rule.context world p.site p.happening
  match p.rule.text.condition with
  | some e =>
    let _ ← Build.alone (Build.inside (meanings.expr cx e))
  | none => pure ()
  let plans ← p.rule.text.steps.mapM fun s => do
    return (← Build.alone (Build.inside (s.plan cx))).1
  return plans.flatMap (ofPlan world)

/-- Makes sure that rules make sense, with all that they bring about. -/
def check (world : World) :
    Nat → List (List String) → List Prospect → Except Failure Unit
  | 0, _, _ => .ok ()
  | _, _, [] => .ok ()
  | fuel + 1, seen, p :: rest => do
    if seen.contains p.key then check world fuel seen rest
    else check world fuel (p.key :: seen) ((← p.next world) ++ rest)

end Prospect

namespace ChangePlan

/-- How many rules are looked at. -/
def patience : Nat := 10000

/-- Makes sure that all that a plan brings about makes sense. -/
def checked (world : World) (p : ChangePlan) : Except Failure ChangePlan := do
  Prospect.check world patience [] (Prospect.ofPlan world p)
  return p

/-- Carries out a plan by itself. -/
def carryOut (p : ChangePlan) : Work (Array (Array Value)) := do
  modify fun w => { w with count := 0 }
  p.run (agent (maxRuleDepth + 1)) {} [] none

end ChangePlan

end Bytecode.Database
