import RedBlack.Entry
import RedBlack.Iteration
import RedBlack.Lock

/-! Ordered maps: a guarded tree in which a key can be given a value again. -/
namespace RedBlack
open Text

abbrev Map (K V : Type) := Lock (Tree K V)

namespace Map
variable {K V : Type}

def empty (strategy : Strategy) (order : KeyOrder K) : Map K V :=
  .wrap strategy { Tree.empty order .halfWord with journal := #[.created strategy] }

def insert (k : K) (v : V) : Act (Map K V) (Option V) :=
  Lock.update do
    match ← Act.look (·.search k) with
    | some h => Edit.replaceAt? h v
    | none =>
      let _ ← Edit.insert k v
      return none

def replace (k : K) (v : V) : Act (Map K V) (Except Refusal V) :=
  Lock.update do
    match ← Act.look (·.search k) with
    | none => return .error .keyNotFound
    | some h =>
      match ← Edit.replaceAt? h v with
      | none => return .error .keyNotFound
      | some old => return .ok old

def get? (k : K) : Act (Map K V) (Option V) := Lock.query (·.get? k)

def getWith? {β : Type} (k : K) (f : V → β) : Act (Map K V) (Option β) :=
  Lock.query fun t => return (← t.get? k).map f

def contains (k : K) : Act (Map K V) Bool := Lock.query (·.contains k)

def find? (k : K) : Act (Map K V) (Option Handle) := Lock.query (·.search k)

def remove (k : K) : Act (Map K V) (Option V) := Lock.update (Edit.remove k)

def removeAt (h : Handle) : Act (Map K V) (Option (K × V)) := Lock.update (Edit.delete h)

def first? : Act (Map K V) (Option (K × V)) := Lock.query Tree.min?

def last? : Act (Map K V) (Option (K × V)) := Lock.query Tree.max?

def lowerBound? (k : K) : Act (Map K V) (Option (K × V)) :=
  Lock.query fun t => return (← t.lowerBound k).bind t.entryAt?

def upperBound? (k : K) : Act (Map K V) (Option (K × V)) :=
  Lock.query fun t => return (← t.upperBound k).bind t.entryAt?

def size : Act (Map K V) Nat := Lock.query fun t => return t.size

def isEmpty : Act (Map K V) Bool := Lock.query fun t => return t.isEmpty

def clear : Act (Map K V) Unit := Lock.update Edit.clear

/-- Visits entries in key order, until the visitor answers `false`. The visitor may call on the map
again. -/
def traverse {β : Type} (visit : β → K → V → Act (Map K V) (Bool × β)) (b : β) : Act (Map K V) β :=
  Lock.read fun t => t.traverse visit b

def extend (items : List (K × V)) : Act (Map K V) Unit :=
  Lock.within <| items.forM fun (k, v) => do
    let _ ← Edit.upsert (← Act.look (·.entry k)) v

def ofList (strategy : Strategy) (order : KeyOrder K) (items : List (K × V)) : Map K V :=
  match (extend items).run (empty strategy order) with
  | .ok _ m => m
  | .error _ m => m

def toList : Act (Map K V) (List (K × V)) := Lock.query Tree.toList

def takeTree : Act (Map K V) (Tree K V) := fun m =>
  .ok m.content (empty m.strategy m.content.order)

def doc [Describe K] [Describe V] : Act (Map K V) Doc := Lock.query Tree.doc

end Map
end RedBlack
