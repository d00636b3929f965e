import RedBlack.Map

/-! Ordered sets: maps whose values say nothing. -/
namespace RedBlack
open Text

abbrev KeySet (K : Type) := Map K Unit

namespace KeySet
variable {K : Type}

def empty (strategy : Strategy) (order : KeyOrder K) : KeySet K := Map.empty strategy order

def insert (k : K) : Act (KeySet K) Bool :=
  Lock.update do
    if ← Act.look (·.contains k) then return false
    else
      let _ ← Edit.insert k ()
      return true

def contains (k : K) : Act (KeySet K) Bool := Map.contains k

def remove (k : K) : Act (KeySet K) Bool := do return (← Map.remove k).isSome

def first? : Act (KeySet K) (Option K) := do return (← Map.first?).map Prod.fst

def last? : Act (KeySet K) (Option K) := do return (← Map.last?).map Prod.fst

def lowerBound? (k : K) : Act (KeySet K) (Option K) := do return (← Map.lowerBound? k).map Prod.fst

def upperBound? (k : K) : Act (KeySet K) (Option K) := do return (← Map.upperBound? k).map Prod.fst

def size : Act (KeySet K) Nat := Map.size

def isEmpty : Act (KeySet K) Bool := Map.isEmpty

def clear : Act (KeySet K) Unit := Map.clear

def traverse {β : Type} (visit : β → K → Act (KeySet K) (Bool × β)) (b : β) : Act (KeySet K) β :=
  Map.traverse (fun b k _ => visit b k) b

def toList : Act (KeySet K) (List K) := Lock.query Tree.keys

def extend (ks : List K) : Act (KeySet K) Unit := Map.extend (ks.map fun k => (k, ()))

def ofList (strategy : Strategy) (order : KeyOrder K) (ks : List K) : KeySet K :=
  Map.ofList strategy order (ks.map fun k => (k, ()))

def doc [Describe K] : Act (KeySet K) Doc := do return setDoc (← toList)

end KeySet
end RedBlack
