/-!
# Merge sort with effects

A stable merge sort whose comparison is a computation of any monad: it may fail, change a
state, or answer inconsistently.  The runs of a width are the slices that begin at its
multiples, and the last may be shorter.  A pass merges them in pairs, and the width
doubles until one run has all items.  Comparisons are made in the order of the passes,
from left to right, always asking whether the item of the right run is less than that of
the left one.
-/

namespace LuaRuntime

namespace MergeSort

variable {m : Type → Type} [Monad m] {α : Type}

/-- Merges two runs.  An item of the right run comes first only if it is less. -/
def merge (less : α → α → m Bool) : List α → List α → m (List α)
  | [], right => pure right
  | left, [] => pure left
  | x :: left, y :: right => do
      if ← less y x then return y :: (← merge less (x :: left) right)
      else return x :: (← merge less left (y :: right))
termination_by left right => left.length + right.length

/-- Merges the runs of a width in pairs from a place on, `count` pairs at most. -/
def mergePass (less : α → α → m Bool) (width : Nat) (items : Array α) :
    (count start : Nat) → m (List α)
  | 0, _ => pure []
  | count + 1, start =>
      if start < items.size then do
        let mid := min (start + width) items.size
        let stop := min (start + 2 * width) items.size
        let merged ← merge less (items.extract start mid).toList (items.extract mid stop).toList
        return merged ++ (← mergePass less width items count (start + 2 * width))
      else pure []

/-- Merges runs of a width and then of twice the width, until one run has all items, in
`passes` passes at most. -/
def sortRuns (less : α → α → m Bool) : (passes width : Nat) → List α → m (List α)
  | 0, _, items => pure items
  | passes + 1, width, items =>
      if width < items.length then do
        sortRuns less passes (2 * width) (← mergePass less width items.toArray items.length 0)
      else pure items

/-- The items in order. -/
def sort (less : α → α → m Bool) (items : List α) : m (List α) :=
  sortRuns less items.length 1 items

end MergeSort

end LuaRuntime
