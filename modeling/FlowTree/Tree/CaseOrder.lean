import FlowTree.Tree.Basic

/-!
The order of switch cases. A case may fall into one other case, which then has to follow it directly.
The cases that none falls into keep their order, each with the cases it leads to right behind it.
-/

namespace FlowTree

/-- A switch case before the cases are ordered. -/
structure SwitchArm where
  target : BlockId
  children : List Child
  exits : BlockExits
  /-- The case that this one falls into. -/
  fallsInto? : Option BlockId
  deriving DecidableEq, Repr

/-- Why cases have no order. -/
inductive CaseOrderError where
  /-- Two cases fall into the same one. -/
  | shared (case first second : BlockId)
  /-- The case is on a circle of cases that fall into each other. -/
  | circle (case : BlockId)
  deriving DecidableEq, Repr

namespace SwitchArm

/-- Link back to a case from the one that it falls into, which has no link yet. -/
def linkBack (links : List (BlockId × BlockId)) (arm : SwitchArm) :
    Except CaseOrderError (List (BlockId × BlockId)) :=
  match arm.fallsInto? with
  | none => .ok links
  | some next =>
    match links.lookup next with
    | some other => .error (.shared next other arm.target)
    | none => .ok (links ++ [(next, arm.target)])

/-- The links from cases back to the cases that fall into them. -/
def backLinks (arms : List SwitchArm) : Except CaseOrderError (List (BlockId × BlockId)) :=
  arms.foldlM linkBack []

/-- Going back along the links from a case ends within the given number of steps. -/
def backEnds (links : List (BlockId × BlockId)) : (steps : Nat) → BlockId → Bool
  | steps, case =>
    match links.lookup case, steps with
    | none, _ => true
    | some _, 0 => false
    | some before, steps + 1 => backEnds links steps before

/-- The case with the given target. -/
def find? (arms : List SwitchArm) (target : BlockId) : Option SwitchArm := arms.find? (·.target = target)

/-- A case and those that it leads to, at most the given number of them. -/
def chain (arms : List SwitchArm) : (count : Nat) → BlockId → List SwitchArm
  | 0, _ => []
  | count + 1, target =>
    match find? arms target with
    | none => []
    | some arm => arm :: match arm.fallsInto? with
      | none => []
      | some next => chain arms count next

/-- The cases in order: every case directly before the one it falls into. -/
def order (arms : List SwitchArm) : Except CaseOrderError (List SwitchArm) := do
  let links ← backLinks arms
  -- Going back from a case on a circle never ends.
  match arms.find? fun arm => !backEnds links arms.length arm.target with
  | some arm => .error (.circle arm.target)
  | none =>
    let heads := arms.filter fun arm => (links.lookup arm.target).isNone
    .ok (heads.flatMap fun arm => chain arms arms.length arm.target)

end SwitchArm

end FlowTree
