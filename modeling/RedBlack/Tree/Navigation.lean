import RedBlack.Rounds
import RedBlack.Tree.Basic

/-! Walks along the links of a tree, in key order and against it. -/
namespace RedBlack.Tree
variable {K V : Type}

def outermost (t : Tree K V) (a : Side) (x : Handle) : Except Failure Handle :=
  rounds (fun x => do
    let c ← t.child a x
    if ← t.isNil c then return .done x else return .again c) t.reach x

def extreme (t : Tree K V) (a : Side) : Except Failure (Option Handle) := do
  if ← t.isNil t.root then return none else return some (← t.outermost a t.root)

def first (t : Tree K V) : Except Failure (Option Handle) := t.extreme .left

def last (t : Tree K V) : Except Failure (Option Handle) := t.extreme .right

/-- Goes up from `x` to the first ancestor that is not left through its side `a`; nil if there is none.
-/
def climb (t : Tree K V) (a : Side) (x : Handle) : Except Failure Handle :=
  rounds (fun (x : Handle) => do
    let y ← t.parent x
    if ← t.isNil y then return .done y
    else if (← t.child a y) == x then return .again y
    else return .done y) t.reach x

/-- The entry next to `x` on side `a` in key order; none at the end, and none if `x` is stale. -/
def neighbor (t : Tree K V) (a : Side) (x : Handle) : Except Failure (Option Handle) := do
  match t.entryAt? x with
  | none => return none
  | some _ =>
    let c ← t.child a x
    if ← t.isNil c then
      let y ← t.climb a x
      if ← t.isNil y then return none else return some y
    else return some (← t.outermost a.other c)

def successor (t : Tree K V) (x : Handle) : Except Failure (Option Handle) := t.neighbor .right x

def predecessor (t : Tree K V) (x : Handle) : Except Failure (Option Handle) := t.neighbor .left x

def traverse {σ β : Type} (t : Tree K V) (visit : β → K → V → Act σ (Bool × β)) (b : β) : Act σ β := do
  let start ← Act.look fun _ => t.first
  rounds (fun (cur, b) => do
    match cur with
    | none => return .done b
    | some x =>
      let e ← Act.look fun _ => t.entryOf x
      let (onward, b) ← visit b e.1 e.2
      if onward then return .again (← Act.look fun _ => t.successor x, b)
      else return .done b) t.reach (start, b)

def handles (t : Tree K V) : Except Failure (List Handle) := do
  rounds (fun
    | (none, seen) => return .done seen.reverse
    | (some x, seen) => return .again (← t.successor x, x :: seen)) t.reach (← t.first, [])

structure Row (K V : Type) where
  handle : Handle
  parent : Handle
  key : K
  value : V

def outline (t : Tree K V) : Except Failure (List (Row K V)) := do
  (← t.handles).mapM fun x => do
    let e ← t.entryOf x
    return ⟨x, ← t.parent x, e.1, e.2⟩

end RedBlack.Tree

namespace RedBlack.Edit
variable {K V : Type}

def drain : Edit K V (List (K × V)) := do
  let es ← (← Act.look Tree.handles).mapM vacate
  modify fun t => { Tree.empty t.order t.width with journal := t.journal }
  return es

end RedBlack.Edit
