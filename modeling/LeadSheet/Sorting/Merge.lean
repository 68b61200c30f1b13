import LeadSheet.Sorting.Search

/-!
# Merging two runs

Two lists in order become one. An item of the right list goes before an item of the left list only
if it comes before it, so that items of which neither comes before the other keep their order.

What stands at the front of the left list or at the end of the right list, and is in its place
already, stays there. Of what is left the shorter list is *held* and the *other* one passes it by:
from the front if the left list is held, and else from the end, which is the same merge of the
reversed lists. While the lists win by turns, items are handed out one by one; when one list wins so
often in a row that the merge loses patience, it gallops, and hands out as many items at once as a
search finds. How patient it is changes with the luck it has, and is passed on from merge to merge.
-/

namespace LeadSheet.Sorting

variable {β : Type}

/-- A merge that gallops goes on so as long as a turn hands out this many items at once. -/
def worthwhile : Nat := 7

/-- How two lists are merged. -/
structure MergeRule (β : Type) where
  /-- Whether an item of the other list goes before an item of the held list. -/
  overtakes : β → β → Bool
  /-- Whether both lists are reversed. -/
  mirrored : Bool

/-- How a merge goes on. -/
inductive Pace where
  /-- One by one; so often in a row the held list or the other list has won. -/
  | single (heldWins otherWins : Nat)
  /-- Galloping, at the first of two turns. -/
  | firstTurn
  /-- Galloping, at the second turn; the first one handed out so many items at once. -/
  | secondTurn (wins : Nat)

/-- What a step of a merge hands out, what it leaves, and how many items a search found. -/
structure MergeStep (β : Type) where
  out : List β
  held : List β
  other : List β
  found : Nat

namespace MergeRule

/-- Hands out what of the held list stays before the first item of the other list, and then that
item. -/
def heldTurn (rule : MergeRule β) (held : List β) (first : β) (other : List β) : MergeStep β :=
  let found := gallop rule.mirrored (fun item => !rule.overtakes first item) held
  ⟨held.take found ++ [first], held.drop found, other, found⟩

/-- Hands out what of the other list overtakes the first item of the held list, and then that
item. -/
def otherTurn (rule : MergeRule β) (first : β) (held other : List β) : MergeStep β :=
  let found := gallop rule.mirrored (fun item => rule.overtakes item first) other
  ⟨other.take found ++ [first], held, other.drop found, found⟩

/-- Whether nothing is left to decide: the other list is used up, or the held list but for one
item, which is known to come last. -/
def isOver : List β → List β → Bool
  | _ :: _ :: _, _ :: _ => false
  | _, _ => true

/-- The items of both lists, and the patience that is left. The number bounds the steps. -/
def mergeFrom (rule : MergeRule β) :
    Nat → Pace → Nat → List β → List β → List β × Nat
  | steps + 1, pace, patience, first :: second :: held, item :: other =>
    let goOn (step : MergeStep β) (pace : Pace) (patience : Nat) : List β × Nat :=
      let (rest, patience) := mergeFrom rule steps pace patience step.held step.other
      (step.out ++ rest, patience)
    let turn (ofHeld : Bool) : MergeStep β :=
      if ofHeld then rule.heldTurn (first :: second :: held) item other
      else rule.otherTurn first (second :: held) (item :: other)
    match pace with
    | .single heldWins otherWins =>
      if rule.overtakes item first then
        let wins := otherWins + 1
        goOn ⟨[item], first :: second :: held, other, 1⟩
          (if patience ≤ wins then .firstTurn else .single 0 wins) patience
      else
        let wins := heldWins + 1
        goOn ⟨[first], second :: held, item :: other, 1⟩
          (if patience ≤ wins then .firstTurn else .single wins 0) patience
    | .firstTurn =>
      let step := turn (!rule.mirrored)
      goOn step (.secondTurn step.found) patience
    | .secondTurn wins =>
      let step := turn rule.mirrored
      if isOver step.held step.other then goOn step pace patience
      else if worthwhile ≤ wins || worthwhile ≤ step.found then
        goOn step .firstTurn (max 1 (patience - 1))
      else goOn step (.single 0 0) (patience + 1)
  | _, _, patience, [last], other => (other ++ [last], patience)
  | _, _, patience, held, other => (held ++ other, patience)

/-- Merges two lists, of which the first item of the other one is known to go first. -/
def merge (rule : MergeRule β) (patience : Nat) (held other : List β) : List β × Nat :=
  match other with
  | [] => (held, patience)
  | item :: other =>
    let (rest, patience) :=
      rule.mergeFrom (held.length + other.length) (.single 0 0) patience held other
    (item :: rest, patience)

end MergeRule

/-- Merges two runs, of which the first one holds the shorter rest. -/
def mergeForward (comesBefore : β → β → Bool) (patience : Nat) (left right : List β) :
    List β × Nat :=
  MergeRule.merge ⟨comesBefore, false⟩ patience left right

/-- Merges two runs, of which the second one holds the shorter rest. -/
def mergeBackward (comesBefore : β → β → Bool) (patience : Nat) (left right : List β) :
    List β × Nat :=
  let (merged, patience) :=
    MergeRule.merge ⟨fun item held => comesBefore held item, true⟩ patience right.reverse
      left.reverse
  (merged.reverse, patience)

/-- Merges two runs that stand next to each other. -/
def mergeRuns (comesBefore : β → β → Bool) (patience : Nat) (left right : List β) :
    List β × Nat :=
  match right.head? with
  | none => (left, patience)
  | some first =>
    let settled := gallop false (fun item => !comesBefore first item) left
    let early := left.drop settled
    match early.getLast? with
    | none => (left ++ right, patience)
    | some last =>
      let late := gallop true (fun item => !comesBefore item last) right.reverse
      let count := right.length - late
      let (merged, patience) :=
        if count = 0 then (early, patience)
        else if early.length ≤ count then
          mergeForward comesBefore patience early (right.take count)
        else mergeBackward comesBefore patience early (right.take count)
      (left.take settled ++ merged ++ right.drop count, patience)

end LeadSheet.Sorting
