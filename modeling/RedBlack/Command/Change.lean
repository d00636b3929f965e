import RedBlack.Command.Query
import RedBlack.Entry

/-! Changes to a tree. A failure ends the change where it happens. -/
namespace RedBlack
open Text

inductive EditMove (V : Type) where
  | next
  | prev
  | valid
  | handle
  | key
  | value
  | describe
  | readOnly
  | remove
  | replace (v : V)
  | modify (f : V → V)

inductive EntryUse (V : Type) where
  | describe
  | orInsert (default : V) (f : V → V)
  | orInsertWith (default : V)
  | andModify (f : V → V)
  | andModifyOrInsert (f : V → V) (default : V)
  | handle
  | get
  | modify (f : V → V)
  | remove
  | removeEntry
  | insert (v : V) (f : V → V)
  | takeKey

inductive Change (K V : Type) where
  | insert (k : K) (v : V)
  | insertMany (items : List (K × V))
  | remove (k : K)
  | removeMany (ks : List K)
  | delete (h : Handle)
  | clear
  | modify (k : K) (f : V → V)
  | modifyAt (h : Handle) (f : V → V)
  | replaceAt (h : Handle) (v : V)
  | entry (k : K) (use : EntryUse V)
  | cursor (start : Start K) (moves : List (EditMove V))
  | drain (pulls : List Pull)

variable {K V : Type}

namespace EntryUse

def valueOf (h : Handle) : Edit K V (Answer K V) := do
  return .value (← Act.look (·.entryOf h)).2

def textOf [Describe K] [Describe V] (e : Entry K) (l : Layout) : Edit K V (Answer K V) := do
  return .text ((← Act.look fun t => e.doc t).render l)

def run [Describe K] [Describe V] (e : Entry K) : EntryUse V → Edit K V (Answer K V)
  | describe => return .many [← textOf e .line, ← textOf e .block]
  | orInsert default f => do
    let h ← e.orInsert default
    return .value (← Edit.modifyValue h f)
  | orInsertWith default => do
    let (h, computed) ← (e.orInsertWith fun _ => (default, true)).run false
    return .many [← valueOf h, .flag computed]
  | andModify f => do
    let e ← e.andModify f
    textOf e .line
  | andModifyOrInsert f default => do
    let e ← e.andModify f
    valueOf (← e.orInsert default)
  | insert v f => do
    match e with
    | .occupied h =>
      let old ← Edit.replaceValue h v
      return .many [.value old, ← valueOf h]
    | .vacant k =>
      let h ← Edit.insert k v
      return .value (← Edit.modifyValue h f)
  | takeKey => return .option .key e.key?
  | handle => occupied fun h => return .handle h
  | get => occupied fun h => return .entry (← Act.look (·.entryOf h))
  | modify f => occupied fun h => return .value (← Edit.modifyValue h f)
  | remove => occupied fun h => return .value (← Edit.removeEntry h).2
  | removeEntry => occupied fun h => return .entry (← Edit.removeEntry h)
where
  occupied (use : Handle → Edit K V (Answer K V)) : Edit K V (Answer K V) :=
    match e with
    | .occupied h => use h
    | .vacant _ => return .nothing

end EntryUse

namespace Cursor

def edit (c : Cursor) : EditMove V → Edit K V (Answer K V × Cursor)
  | .next => return Cursor.move.stepped c (← Act.look c.next)
  | .prev => return Cursor.move.stepped c (← Act.look c.prev)
  | .valid => return (.flag c.valid, c)
  | .handle => return (.option .handle c.node, c)
  | .key => return (.result .key (c.key (← get)), c)
  | .value => return (.result .value (c.value (← get)), c)
  | .describe => return (.text (c.doc "CursorMut").onLine, c)
  | .readOnly => do
    let t ← get
    return (.result .entry ((attach t c.node).entry t), c)
  | .remove => do
    match ← c.remove with
    | .ok (e, c) => return (.entry e, c)
    | .error r => return (.refused r, c)
  | .replace v => return (.result .value (← c.replace v), c)
  | .modify f => return (.result .value (← c.modify f), c)

def edits : Cursor → List (EditMove V) → Edit K V (List (Answer K V))
  | _, [] => return []
  | c, m :: ms => do
    let (a, c) ← c.edit m
    return a :: (← edits c ms)

end Cursor

namespace Drained

def pull (d : Drained K V) : Pull → Answer K V × Drained K V
  | .front => (.option .entry d.next.1, d.next.2)
  | .back => (.option .entry d.nextBack.1, d.nextBack.2)
  | .remaining => (.count d.entries.length, d)
  | .bounds => (.many [.count d.entries.length, .count d.entries.length], d)
  | .rest => (.entries d.entries, d)
  | .describe => (.nothing, d)

def pulls : Drained K V → List Pull → List (Answer K V)
  | _, [] => []
  | d, p :: ps => (d.pull p).1 :: pulls (d.pull p).2 ps

end Drained

namespace Change

def run [Describe K] [Describe V] : Change K V → Edit K V (Answer K V)
  | insert k v => return .handle (← Edit.insert k v)
  | insertMany items => do
    return .many (← items.mapM fun (k, v) => do
      return .attempted ((← (Edit.insert k v).attempt).map .handle))
  | remove k => return .option .value (← Edit.remove k)
  | removeMany ks => return .many (← ks.mapM fun k => do return .option .value (← Edit.remove k))
  | delete h => return .option .entry (← Edit.delete h)
  | clear => do
    Edit.clear
    return .nothing
  | modify k f => do
    match ← Act.look (·.search k) with
    | none => return .nothing
    | some h => return .value (← Edit.modifyValue h f)
  | modifyAt h f => return .option .value (← Edit.modifyAt? h f)
  | replaceAt h v => return .option .value (← Edit.replaceAt? h v)
  | entry k use => do
    let e ← Act.look (·.entry k)
    let key ← Act.look fun t => e.key t
    return .ofEntry e.isOccupied key (← use.run e)
  | cursor s ms => do
    let c ← Act.look fun t => Cursor.start t s
    return .many (← c.edits ms)
  | drain ps => return .many ((Drained.mk (← Edit.drain)).pulls ps)

end Change

inductive Command (K V : Type) where
  | ask (q : Query K)
  | change (c : Change K V)

namespace Command

def run [Describe K] [Describe V] : Command K V → Edit K V (Answer K V)
  | ask q => Act.look fun t => q.ask t
  | change c => c.run

def runAll [Describe K] [Describe V] (cs : List (Command K V)) : Edit K V (Answer K V) :=
  return .many (← cs.mapM run)

end Command
end RedBlack
