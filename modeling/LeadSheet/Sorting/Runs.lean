import LeadSheet.Sorting.Merge

/-!
# Sorting by runs

Items are put in order by a stable sort: what does not come before each other keeps the order it
had. The list is cut into runs. A run is taken as it stands, and turned round if it falls; where it
is too short, the items behind it are put in one by one, each behind the last item it does not come
before. Runs are merged with their neighbours as soon as one is not much longer than those behind
it, so that merges join runs of about one length.

If of all items it is known which come before which, the order is the one of every stable sort.
Times need not be like that: where a song has no tempo, some of them are no numbers, and come
neither before nor behind anything. What order comes out then rests on the steps that are taken
here, so that each of them belongs to what `sort` means.
-/

namespace LeadSheet.Sorting

variable {β : Type}

/-! ## Runs -/

/-- Puts an item behind the last one that it does not come before. -/
def insert (comesBefore : β → β → Bool) (items : List β) (item : β) : List β :=
  let place := partitionPoint (fun other => !comesBefore item other) items
  items.take place ++ item :: items.drop place

/-- Splits a list where an item does not follow the one before it. `last` stands before the list. -/
def runFrom (follows : β → β → Bool) (last : β) : List β → List β × List β
  | [] => ([], [])
  | item :: rest =>
    if follows last item then
      let (run, others) := runFrom follows item rest
      (item :: run, others)
    else ([], item :: rest)

/-- The run a list starts with, in rising order, and what comes behind it. -/
def leadingRun (comesBefore : β → β → Bool) : List β → List β × List β
  | [] => ([], [])
  | [item] => ([item], [])
  | first :: second :: rest =>
    if comesBefore second first then
      let (run, others) := runFrom (fun last next => comesBefore next last) second rest
      ((first :: second :: run).reverse, others)
    else
      let (run, others) := runFrom (fun last next => !comesBefore next last) second rest
      (first :: second :: run, others)

/-- The least length of a run in a list of this length: all of it if it is short, and else a number
from 32 to 64 of which the length is a little less than a power of two times, or exactly so. -/
def leastRun (length : Nat) : Nat :=
  if length < 64 then length
  else go length length false
where
  /-- Halves the length until it is short, and adds one if that left anything over. -/
  go : Nat → Nat → Bool → Nat
    | 0, length, _ => length
    | steps + 1, length, odd =>
      if length < 64 then length + (if odd then 1 else 0)
      else go steps (length / 2) (odd || length % 2 == 1)

/-- The runs of a list, the first one first. The first number bounds how many there are, the second
one is the least length of all but the last one. -/
def runsFrom (comesBefore : β → β → Bool) : Nat → Nat → List β → List (List β)
  | 0, _, _ => []
  | _, _, [] => []
  | count + 1, least, items =>
    let (run, others) := leadingRun comesBefore items
    let more := least - run.length
    (others.take more).foldl (insert comesBefore) run
      :: runsFrom comesBefore count least (others.drop more)

/-! ## Merging runs -/

/-- Runs that wait for a merge, the last one first, and the patience of the next merge. -/
structure Waiting (β : Type) where
  runs : List (List β)
  patience : Nat

namespace Waiting

/-- Merges the last two runs. -/
def mergeLast (comesBefore : β → β → Bool) (w : Waiting β) : Waiting β :=
  match w.runs with
  | last :: previous :: earlier =>
    let (run, patience) := mergeRuns comesBefore w.patience previous last
    ⟨run :: earlier, patience⟩
  | _ => w

/-- Merges the two runs before the last one. -/
def mergeBeforeLast (comesBefore : β → β → Bool) (w : Waiting β) : Waiting β :=
  match w.runs with
  | last :: earlier =>
    let w := mergeLast comesBefore ⟨earlier, w.patience⟩
    ⟨last :: w.runs, w.patience⟩
  | [] => w

/-- Merges the last but one run with the shorter one of its neighbours. -/
def mergeNext (comesBefore : β → β → Bool) (w : Waiting β) : Waiting β :=
  match w.runs with
  | last :: _ :: third :: _ =>
    if third.length < last.length then w.mergeBeforeLast comesBefore
    else w.mergeLast comesBefore
  | _ => w.mergeLast comesBefore

/-- Whether a run is too short to wait on before the two runs that follow it. -/
def isCrowded : List (List β) → Bool
  | last :: previous :: third :: _ => third.length ≤ previous.length + last.length
  | _ => false

/-- Merges runs until each one is longer than the next one, and than the next two together. The
number bounds the merges. -/
def settle (comesBefore : β → β → Bool) : Nat → Waiting β → Waiting β
  | 0, w => w
  | merges + 1, w =>
    if isCrowded w.runs || isCrowded w.runs.tail then
      settle comesBefore merges (w.mergeNext comesBefore)
    else
      match w.runs with
      | last :: previous :: _ =>
        if previous.length ≤ last.length then
          settle comesBefore merges (w.mergeLast comesBefore)
        else w
      | _ => w

/-- One more run waits. -/
def push (comesBefore : β → β → Bool) (w : Waiting β) (run : List β) : Waiting β :=
  settle comesBefore w.runs.length ⟨run :: w.runs, w.patience⟩

/-- Merges all runs. The number bounds the merges. -/
def finish (comesBefore : β → β → Bool) : Nat → Waiting β → List β
  | merges + 1, w =>
    match w.runs with
    | [] => []
    | [run] => run
    | _ => finish comesBefore merges (w.mergeNext comesBefore)
  | 0, w => w.runs.reverse.flatten

end Waiting

/-- The items in order. -/
def sort (comesBefore : β → β → Bool) (items : List β) : List β :=
  let runs := runsFrom comesBefore items.length (leastRun items.length) items
  let waiting := runs.foldl (Waiting.push comesBefore) ⟨[], worthwhile⟩
  waiting.finish comesBefore waiting.runs.length

end LeadSheet.Sorting
