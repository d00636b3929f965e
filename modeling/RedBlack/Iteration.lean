import RedBlack.Text.Describe
import RedBlack.Tree.Search

/-! Iteration over entries: from both ends at once, from a lower bound upwards, and over entries taken
out of a tree. -/
namespace RedBlack
open Text

structure Iter (K V : Type) where
  tree : Tree K V
  front : Option Handle
  back : Option Handle
  remaining : Nat

namespace Iter
variable {K V : Type}

def ofTree (t : Tree K V) : Except Failure (Iter K V) := do
  return ⟨t, ← t.first, ← t.last, t.size⟩

def next (i : Iter K V) : Except Failure (Option (K × V) × Iter K V) := do
  if i.remaining = 0 then return (none, i)
  else
    match i.front with
    | none => return (none, i)
    | some x =>
      let front ← i.tree.successor x
      return (i.tree.entryAt? x, { i with front := front, remaining := i.remaining - 1 })

def nextBack (i : Iter K V) : Except Failure (Option (K × V) × Iter K V) := do
  if i.remaining = 0 then return (none, i)
  else
    match i.back with
    | none => return (none, i)
    | some x =>
      let back ← i.tree.predecessor x
      return (i.tree.entryAt? x, { i with back := back, remaining := i.remaining - 1 })

def rest (i : Iter K V) : Except Failure (List (K × V)) :=
  rounds (fun (i, seen) => do
    match ← i.next with
    | (none, _) => return .done seen.reverse
    | (some e, i) => return .again (i, e :: seen)) i.tree.reach (i, [])

end Iter

structure Range (K V : Type) where
  tree : Tree K V
  cur : Option Handle

namespace Range
variable {K V : Type}

def startingAt (t : Tree K V) (k : K) : Except Failure (Range K V) := do
  return ⟨t, ← t.lowerBound k⟩

def next (r : Range K V) : Except Failure (Option (K × V) × Range K V) := do
  match r.cur with
  | none => return (none, r)
  | some x =>
    let cur ← r.tree.successor x
    return (r.tree.entryAt? x, { r with cur := cur })

/-- The answers to `next`, up to the first that is none, and no more of them than `limit`. -/
def take (limit : Option Nat) (r : Range K V) : Except Failure (List (Option (K × V))) :=
  rounds (fun (r, left, seen) => do
    if left = some 0 then return .done seen.reverse
    else
      match ← r.next with
      | (none, _) => return .done (none :: seen).reverse
      | (some e, r) => return .again (r, left.map (· - 1), some e :: seen)) r.tree.reach (r, limit, [])

def doc (r : Range K V) : Doc := .record "Range" [("cur", Describe.doc r.cur)]

end Range

structure Drained (K V : Type) where
  entries : List (K × V)

namespace Drained
variable {K V : Type}

def next (d : Drained K V) : Option (K × V) × Drained K V :=
  (d.entries.head?, ⟨d.entries.tail⟩)

def nextBack (d : Drained K V) : Option (K × V) × Drained K V :=
  (d.entries.getLast?, ⟨d.entries.dropLast⟩)

end Drained

namespace Tree
variable {K V : Type}

def toList (t : Tree K V) : Except Failure (List (K × V)) := do (← Iter.ofTree t).rest

def keys (t : Tree K V) : Except Failure (List K) := do return (← t.toList).map Prod.fst

def doc [Describe K] [Describe V] (t : Tree K V) : Except Failure Doc := do return mapDoc (← t.toList)

end Tree
end RedBlack
