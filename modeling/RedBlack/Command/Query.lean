import RedBlack.Command.Answer
import RedBlack.Cursor
import RedBlack.Iteration

/-! Questions to a tree. They leave it as it is. -/
namespace RedBlack
open Text

inductive Pull where
  | front
  | back
  | remaining
  | bounds
  | rest
  | describe
  deriving DecidableEq

inductive View where
  | entries
  | keys
  | values
  deriving DecidableEq

inductive Move where
  | next
  | prev
  | valid
  | handle
  | key
  | value
  | entry
  | describe
  | copyNext
  deriving DecidableEq

inductive Query (K : Type) where
  | search (seek : Seek) (k : K)
  | path (seek : Option Seek) (k : K)
  | first
  | last
  | successor (h : Handle)
  | predecessor (h : Handle)
  | keyAt (h : Handle)
  | valueAt (h : Handle)
  | entryAt (h : Handle)
  | get (k : K)
  | getEntry (k : K)
  | contains (k : K)
  | firstEntry
  | lastEntry
  | size
  | isEmpty
  | describe (layout : Layout)
  | outline
  | compare (a b : K)
  | traverse (limit : Option Nat)
  | range (k : K) (limit : Option Nat)
  | iterate (view : View) (pulls : List Pull)
  | cursor (start : Start K) (moves : List Move)

variable {K V : Type}

namespace View

def answer : View → K × V → Answer K V
  | .entries, e => .entry e
  | .keys, e => .key e.1
  | .values, e => .value e.2

end View

namespace Iter

def pull [Describe K] [Describe V] (view : View) (i : Iter K V) :
    Pull → Except Failure (Answer K V × Iter K V)
  | .front => do
    let (e, i) ← i.next
    return (.option view.answer e, i)
  | .back => do
    let (e, i) ← i.nextBack
    return (.option view.answer e, i)
  | .remaining => return (.count i.remaining, i)
  | .bounds => return (.many [.count i.remaining, .count i.remaining], i)
  | .rest => return (.many ((← i.rest).map view.answer), i)
  | .describe =>
    match view with
    | .entries => return (.text (entriesDoc (← i.rest)).onLine, i)
    | .keys | .values => return (.nothing, i)

def pulls [Describe K] [Describe V] (view : View) : Iter K V → List Pull → Except Failure (List (Answer K V))
  | _, [] => return []
  | i, p :: ps => do
    let (a, i) ← i.pull view p
    return a :: (← i.pulls view ps)

end Iter

namespace Cursor

def move (t : Tree K V) (c : Cursor) : Move → Except Failure (Answer K V × Cursor)
  | .next => return stepped c (← c.next t)
  | .prev => return stepped c (← c.prev t)
  | .valid => return (.flag c.valid, c)
  | .handle => return (.option .handle c.node, c)
  | .key => return (.result .key (c.key t), c)
  | .value => return (.result .value (c.value t), c)
  | .entry => return (.result .entry (c.entry t), c)
  | .describe => return (.text (c.doc "Cursor").onLine, c)
  | .copyNext => do
    let (a, copy) := stepped c (← c.next t)
    return (.many [a, .option .handle copy.node, .option .handle c.node], c)
where
  stepped (c : Cursor) : Except Refusal Cursor → Answer K V × Cursor
    | .ok c' => (.fine, c')
    | .error r => (.refused r, c)

def moves (t : Tree K V) : Cursor → List Move → Except Failure (List (Answer K V))
  | _, [] => return []
  | c, m :: ms => do
    let (a, c) ← c.move t m
    return a :: (← c.moves t ms)

end Cursor

namespace Tree

def gather {σ α : Type} (limit : Option Nat) (seen : List α) (a : α) : Act σ (Bool × List α) :=
  return (limit.all (seen.length + 1 < ·), a :: seen)

def visited (t : Tree K V) (limit : Option Nat) : Except Failure (List (K × V)) :=
  match (t.traverse (fun seen k v => gather limit seen (k, v)) []).run () with
  | .ok seen _ => .ok seen.reverse
  | .error e _ => .error e

end Tree

namespace Query

def ask [Describe K] [Describe V] (t : Tree K V) : Query K → Except Failure (Answer K V)
  | search s k => return .option .handle (← t.seek s k)
  | path none _ => return .many []
  | path (some s) k => return .many (((← t.probe s k).calls t.order s k).map fun p => .keys p.1 p.2)
  | first => return .option .handle (← t.first)
  | last => return .option .handle (← t.last)
  | successor h => return .option .handle (← t.successor h)
  | predecessor h => return .option .handle (← t.predecessor h)
  | keyAt h => return .option .key (t.keyAt? h)
  | valueAt h => return .option .value (t.valueAt? h)
  | entryAt h => return .option .entry (t.entryAt? h)
  | get k => return .option .value (← t.get? k)
  | getEntry k => return .option .entry (← t.find? k)
  | contains k => return .flag (← t.contains k)
  | firstEntry => return .option .entry (← t.min?)
  | lastEntry => return .option .entry (← t.max?)
  | size => return .count t.size
  | isEmpty => return .flag t.isEmpty
  | describe l => return .text ((← t.doc).render l)
  | outline => return .many ((← t.outline).map .row)
  | compare a b => return .comparison (t.order.compare a b)
  | traverse limit => return .entries (← t.visited limit)
  | range k limit => do
    let r ← Range.startingAt t k
    return .many (.text r.doc.onLine :: (← r.take limit).map (.option .entry))
  | iterate view ps => return .many (← (← Iter.ofTree t).pulls view ps)
  | cursor s ms => return .many (← (← Cursor.start t s).moves t ms)

end Query
end RedBlack
