import RedBlack.Failure
import RedBlack.Tree.Navigation

/-! Answers to commands. -/
namespace RedBlack

inductive Answer (K V : Type) where
  | nothing
  | fine
  | flag (b : Bool)
  | count (n : Nat)
  | comparison (o : Ordering)
  | handle (h : Handle)
  | key (k : K)
  | value (v : V)
  | entry (e : K × V)
  | keys (left right : K)
  | text (s : String)
  | row (r : Tree.Row K V)
  | many (answers : List (Answer K V))
  | ofEntry (occupied : Bool) (key : K) (result : Answer K V)
  | refused (r : Refusal)
  | failed (f : Failure)

namespace Answer
variable {K V : Type}

def option {α : Type} (f : α → Answer K V) : Option α → Answer K V
  | none => nothing
  | some a => f a

def result {α : Type} (f : α → Answer K V) : Except Refusal α → Answer K V
  | .error r => refused r
  | .ok a => f a

def entries (es : List (K × V)) : Answer K V := many (es.map entry)

def attempted : Except Failure (Answer K V) → Answer K V
  | .ok a => a
  | .error f => failed f

end Answer
end RedBlack
