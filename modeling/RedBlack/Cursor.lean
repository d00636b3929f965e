import RedBlack.Text.Describe
import RedBlack.Tree.Delete

/-! Cursors: a position at an entry, or nowhere. A cursor that steps off an end is nowhere, and stays
there. -/
namespace RedBlack
open Text

structure Cursor where
  node : Option Handle

inductive Start (K : Type) where
  | front
  | back
  | handle (h : Handle)
  | key (k : K)
  | lower (k : K)

namespace Cursor
variable {K V : Type}

/-- A stale handle gives a cursor that is nowhere. -/
def attach (t : Tree K V) (node : Option Handle) : Cursor :=
  ⟨node.filter fun h => (t.keyAt? h).isSome⟩

def start (t : Tree K V) : Start K → Except Failure Cursor
  | .front => return attach t (← t.first)
  | .back => return attach t (← t.last)
  | .handle h => return attach t (some h)
  | .key k => return attach t (← t.search k)
  | .lower k => return attach t (← t.lowerBound k)

def valid (c : Cursor) : Bool := c.node.isSome

def entry (c : Cursor) (t : Tree K V) : Except Refusal (K × V) :=
  match c.node.bind t.entryAt? with
  | some e => .ok e
  | none => .error .invalidCursor

def key (c : Cursor) (t : Tree K V) : Except Refusal K := (c.entry t).map Prod.fst

def value (c : Cursor) (t : Tree K V) : Except Refusal V := (c.entry t).map Prod.snd

def step (a : Side) (c : Cursor) (t : Tree K V) : Except Failure (Except Refusal Cursor) :=
  match c.node with
  | none => return .error .invalidCursor
  | some h => return .ok ⟨← t.neighbor a h⟩

def next (c : Cursor) (t : Tree K V) : Except Failure (Except Refusal Cursor) := c.step .right t

def prev (c : Cursor) (t : Tree K V) : Except Failure (Except Refusal Cursor) := c.step .left t

def modify (c : Cursor) (f : V → V) : Edit K V (Except Refusal V) := do
  match c.node with
  | none => return .error .invalidCursor
  | some h =>
    match ← Edit.modifyAt? h f with
    | none => return .error .invalidCursor
    | some v => return .ok v

def replace (c : Cursor) (v : V) : Edit K V (Except Refusal V) := do
  match c.node with
  | none => return .error .invalidCursor
  | some h =>
    match ← Edit.replaceAt? h v with
    | none => return .error .invalidCursor
    | some old => return .ok old

/-- Removes the entry. The cursor moves to the entry that followed it. -/
def remove (c : Cursor) : Edit K V (Except Refusal ((K × V) × Cursor)) := do
  match c.node with
  | none => return .error .invalidCursor
  | some h =>
    let after ← Act.look (·.successor h)
    match ← Edit.delete h with
    | none => return .error .invalidCursor
    | some e => return .ok (e, ⟨after⟩)

def doc (name : String) (c : Cursor) : Doc := .call name [Describe.doc c.node]

end Cursor
end RedBlack
