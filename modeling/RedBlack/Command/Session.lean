import RedBlack.Command.OnMap
import RedBlack.Command.OnSet

/-! Sessions: commands to one container, with what each of them answered and logged, and the size after
it. -/
namespace RedBlack

structure Reply (K V : Type) where
  answer : Answer K V
  size : Nat
  log : List String

namespace Tree
variable {K V : Type}

def logLines (t : Tree K V) : List String := t.journal.toList.filterMap Event.line?

def reply (t : Tree K V) (a : Answer K V) : Reply K V := ⟨a, t.size, t.logLines⟩

/-- Does a piece of work with an empty journal, so that the reply has the lines of this work only. -/
def serve (act : Edit K V (Answer K V)) (t : Tree K V) : Reply K V × Tree K V :=
  let (out, t') := act.outcome { t with journal := #[] }
  (t'.reply (.attempted out), t')

end Tree

namespace Map
variable {K V : Type}

def serve (act : Act (Map K V) (Answer K V)) (m : Map K V) : Reply K V × Map K V :=
  let (out, m') := act.outcome { m with content := { m.content with journal := #[] } }
  (m'.content.reply (.attempted out), m')

end Map

end RedBlack
