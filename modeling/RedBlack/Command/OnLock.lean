import RedBlack.Lock

/-! Commands to a lock. Some use it while it is in use. -/
namespace RedBlack

inductive LockCommand (α : Type) where
  | read
  | write (f : α → α)
  | direct (f : α → α)
  | exchange (a : α)
  | readInRead (join : α → α → α)
  | writeInRead (f : α → α)
  | writeInWrite (f : α → α)
  | readInWrite (f : α → α)

namespace LockCommand
variable {α : Type}

def change (f : α → α) : Act α α := do
  modify f
  get

def run : LockCommand α → Act (Lock α) α
  | read => Lock.query pure
  | write f => Lock.update (change f)
  | direct f => Lock.within (change f)
  | exchange a => fun l => .ok l.content (.wrap l.strategy a)
  | readInRead join => Lock.read fun a => return join a (← Lock.query pure)
  | writeInRead f => Lock.read fun _ => Lock.update (change f)
  | writeInWrite f => Lock.write (Lock.update (change f))
  | readInWrite f => Lock.write do
    let _ ← Lock.within (change f)
    Lock.query pure

end LockCommand
end RedBlack
