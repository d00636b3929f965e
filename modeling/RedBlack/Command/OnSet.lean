import RedBlack.Command.Query
import RedBlack.KeySet

/-! Commands to a set. -/
namespace RedBlack
open Text

inductive SetCommand (K : Type) where
  | insert (k : K)
  | contains (k : K)
  | remove (k : K)
  | first
  | last
  | lowerBound (k : K)
  | upperBound (k : K)
  | size
  | isEmpty
  | clear
  | traverse (limit : Option Nat)
  | toList
  | describe (layout : Layout)
  | extend (ks : List K)
  | read (q : Query K)

variable {K : Type}

namespace SetCommand

def run [Describe K] : SetCommand K → Act (KeySet K) (Answer K Unit)
  | insert k => return .flag (← KeySet.insert k)
  | contains k => return .flag (← KeySet.contains k)
  | remove k => return .flag (← KeySet.remove k)
  | first => return .option .key (← KeySet.first?)
  | last => return .option .key (← KeySet.last?)
  | lowerBound k => return .option .key (← KeySet.lowerBound? k)
  | upperBound k => return .option .key (← KeySet.upperBound? k)
  | size => return .count (← KeySet.size)
  | isEmpty => return .flag (← KeySet.isEmpty)
  | clear => do
    KeySet.clear
    return .nothing
  | traverse limit => do
    let seen ← KeySet.traverse (Tree.gather limit) []
    return .many (seen.reverse.map .key)
  | toList => return .many ((← KeySet.toList).map .key)
  | describe l => return .text ((← KeySet.doc).render l)
  | extend ks => do
    KeySet.extend ks
    return .nothing
  | read q => Lock.query q.ask

end SetCommand
end RedBlack
