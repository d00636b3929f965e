import RedBlack.Tree.Navigation

/-! Search for a key, and for the places where larger keys begin. All searches are one walk down from
the root. -/
namespace RedBlack

inductive Seek where
  | exact
  | lower
  | upper
  deriving DecidableEq

namespace Seek

def arguments {K : Type} : Seek → K → K → K × K
  | .exact, query, stored => (query, stored)
  | .lower, query, stored => (stored, query)
  | .upper, query, stored => (stored, query)

/-- Where a search goes from an entry: nowhere else, or to one side, keeping the entry as its answer so
far or not. -/
inductive Turn where
  | stop
  | go (towards : Side) (keep : Bool)

def turn : Seek → Ordering → Turn
  | .exact, .lt => .go .left false
  | .exact, .gt => .go .right false
  | .exact, .eq => .stop
  | .lower, .lt => .go .right false
  | .lower, _ => .go .left true
  | .upper, .gt => .go .left true
  | .upper, _ => .go .right false

end Seek

structure Probe (K : Type) where
  found : Option Handle
  visited : List (Handle × K)

namespace Probe
variable {K : Type}

/-- The pairs that the comparison at the bottom of the order was asked about. -/
def calls (p : Probe K) (order : KeyOrder K) (seek : Seek) (query : K) : List (K × K) :=
  p.visited.map fun (_, stored) =>
    let (a, b) := seek.arguments query stored
    order.presented a b

end Probe

namespace Tree
variable {K V : Type}

def probe (t : Tree K V) (seek : Seek) (query : K) : Except Failure (Probe K) :=
  rounds (fun (x, found, visited) => do
    if ← t.isNil x then return .done ⟨found, visited.reverse⟩
    else
      let (stored, _) ← t.entryOf x
      let visited := (x, stored) :: visited
      let (a, b) := seek.arguments query stored
      match seek.turn (t.order.compare a b) with
      | .stop => return .done ⟨some x, visited.reverse⟩
      | .go side keep =>
        return .again (← t.child side x, if keep then some x else found, visited))
    t.reach (t.root, none, [])

def seek (t : Tree K V) (s : Seek) (query : K) : Except Failure (Option Handle) := do
  return (← t.probe s query).found

def search (t : Tree K V) (k : K) : Except Failure (Option Handle) := t.seek .exact k

def lowerBound (t : Tree K V) (k : K) : Except Failure (Option Handle) := t.seek .lower k

def upperBound (t : Tree K V) (k : K) : Except Failure (Option Handle) := t.seek .upper k

def entryOf? (t : Tree K V) : Option Handle → Except Failure (Option (K × V))
  | none => return none
  | some x => return some (← t.entryOf x)

def find? (t : Tree K V) (k : K) : Except Failure (Option (K × V)) := do
  t.entryOf? (← t.search k)

def get? (t : Tree K V) (k : K) : Except Failure (Option V) := do
  return (← t.find? k).map Prod.snd

def contains (t : Tree K V) (k : K) : Except Failure Bool := do
  return (← t.search k).isSome

def min? (t : Tree K V) : Except Failure (Option (K × V)) := do
  t.entryOf? (← t.first)

def max? (t : Tree K V) : Except Failure (Option (K × V)) := do
  t.entryOf? (← t.last)

end Tree
end RedBlack
