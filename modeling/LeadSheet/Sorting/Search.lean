/-!
# Where a test stops to hold

In a list whose first items satisfy a test and whose other items do not, two searches find how many
items do. `partitionPoint` halves the whole list. `gallop` starts at the front and goes in growing
strides until an item fails, and then halves what lies between the last two items it saw; it is the
better one where few items satisfy the test.

In any other list the searches still give a number, and which one it is depends on the items they
see. A search that is `mirrored` sees what the search would see that runs from the other end.
-/

namespace LeadSheet.Sorting

variable {β : Type}

/-- Searches by halving between two places. The number bounds the halvings. -/
def partitionPointFrom (mirrored : Bool) (test : β → Bool) (items : List β) :
    Nat → Nat → Nat → Nat
  | 0, low, _ => low
  | steps + 1, low, high =>
    if low < high then
      let middle := (low + high - if mirrored then 1 else 0) / 2
      match items[middle]? with
      | none => low
      | some item =>
        if test item then partitionPointFrom mirrored test items steps (middle + 1) high
        else partitionPointFrom mirrored test items steps low middle
    else low

/-- How many items satisfy a test, if they all stand before those that do not. -/
def partitionPoint (test : β → Bool) (items : List β) : Nat :=
  partitionPointFrom false test items items.length 0 items.length

/-- Goes on in growing strides while items satisfy the test: the place of the last one that did and
the place that is behind the end or whose item failed. The first number bounds the strides. -/
def stride (test : β → Bool) (items : List β) : Nat → Nat → Nat → Nat × Nat
  | 0, last, next => (last, next)
  | steps + 1, last, next =>
    match items[next]? with
    | none => (last, items.length)
    | some item =>
      if test item then stride test items steps next (2 * next + 1) else (last, next)

/-- How many items satisfy a test, if they all stand before those that do not. -/
def gallop (mirrored : Bool) (test : β → Bool) (items : List β) : Nat :=
  match items with
  | [] => 0
  | first :: _ =>
    if test first then
      let (last, next) := stride test items items.length 0 1
      partitionPointFrom mirrored test items items.length (last + 1) next
    else 0

end LeadSheet.Sorting
