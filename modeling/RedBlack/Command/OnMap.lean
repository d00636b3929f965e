import RedBlack.Command.Change
import RedBlack.Map

/-! Commands to a map. -/
namespace RedBlack
open Text

/-- How a map is entered before it is called again from within. -/
inductive Outer where
  | read
  | write
  | traverse
  deriving DecidableEq

inductive Inner (K V : Type) where
  | size
  | insert (k : K) (v : V)

inductive MapCommand (K V : Type) where
  | insert (k : K) (v : V)
  | replace (k : K) (v : V)
  | get (k : K)
  | getWith (k : K) (f : V → V)
  | contains (k : K)
  | find (k : K)
  | remove (k : K)
  | removeAt (h : Handle)
  | first
  | last
  | lowerBound (k : K)
  | upperBound (k : K)
  | size
  | isEmpty
  | clear
  | traverse (limit : Option Nat)
  | describe (layout : Layout)
  | extend (items : List (K × V))
  | read (q : Query K)
  | write (c : Command K V)
  | direct (c : Command K V)
  | takeTree (cs : List (Command K V))
  | reenter (outer : Outer) (inner : Inner K V)

variable {K V : Type}

namespace Inner

def run : Inner K V → Act (Map K V) (Answer K V)
  | size => return .count (← Map.size)
  | insert k v => return .option .value (← Map.insert k v)

end Inner

namespace Outer

def run (inner : Act (Map K V) (Answer K V)) : Outer → Act (Map K V) (Answer K V)
  | read => Lock.read fun _ => inner
  | write => Lock.write inner
  | traverse => do
    let seen ← Map.traverse (fun seen _ _ => return (true, (← inner) :: seen)) []
    return .many seen.reverse

end Outer

namespace MapCommand

def run [Describe K] [Describe V] : MapCommand K V → Act (Map K V) (Answer K V)
  | insert k v => return .option .value (← Map.insert k v)
  | replace k v => return .result .value (← Map.replace k v)
  | get k => return .option .value (← Map.get? k)
  | getWith k f => return .option .value (← Map.getWith? k f)
  | contains k => return .flag (← Map.contains k)
  | find k => return .option .handle (← Map.find? k)
  | remove k => return .option .value (← Map.remove k)
  | removeAt h => return .option .entry (← Map.removeAt h)
  | first => return .option .entry (← Map.first?)
  | last => return .option .entry (← Map.last?)
  | lowerBound k => return .option .entry (← Map.lowerBound? k)
  | upperBound k => return .option .entry (← Map.upperBound? k)
  | size => return .count (← Map.size)
  | isEmpty => return .flag (← Map.isEmpty)
  | clear => do
    Map.clear
    return .nothing
  | traverse limit => do
    let seen ← Map.traverse (fun seen k v => Tree.gather limit seen (k, v)) []
    return .entries seen.reverse
  | describe l => return .text ((← Map.doc).render l)
  | extend items => do
    Map.extend items
    return .nothing
  | read q => Lock.query q.ask
  | write c => Lock.update c.run
  | direct c => Lock.within c.run
  | takeTree cs => do
    let t ← Map.takeTree
    let (out, t') := (Command.runAll cs).outcome t
    Lock.within (Edit.noteAll (t'.journal.extract t.journal.size))
    Act.look fun _ => out
  | reenter outer inner => outer.run inner.run

end MapCommand
end RedBlack
