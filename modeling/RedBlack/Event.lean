import RedBlack.Handle
import RedBlack.Strategy

/-! What a container reports about its work. -/
namespace RedBlack

inductive Side where
  | left
  | right
  deriving DecidableEq

namespace Side

def other : Side → Side
  | .left => .right
  | .right => .left

def name : Side → String
  | .left => "left"
  | .right => "right"

@[simp] theorem other_other (s : Side) : s.other.other = s := by cases s <;> rfl

theorem other_ne (s : Side) : s.other ≠ s := by cases s <;> decide

theorem eq_other {a b : Side} (h : a ≠ b) : a = b.other := by
  cases a <;> cases b <;> first | rfl | exact absurd rfl h

end Side

/-- One report. `declined` and `abandoned` mark work that was asked for and not done; they print
nothing. -/
inductive Event where
  | created (strategy : Strategy)
  | inserted (h : Handle) (size : Nat)
  | deleted (h : Handle) (size : Nat)
  | rotated (towards : Side) (h : Handle)
  | cleared (size : Nat)
  | declined (towards : Side) (h : Handle)
  | abandoned (h : Handle)
  deriving DecidableEq

def Handle.text (h : Handle) : String := s!"NodeIndex({h.pos})"

def Event.line? : Event → Option String
  | .created s => some s!"DEBUG creating {s.name} map"
  | .inserted h n => some s!"TRACE inserted {h.text}, {n} entries"
  | .deleted h n => some s!"TRACE deleted {h.text}, {n} entries left"
  | .rotated s h => some s!"TRACE {s.name} rotate at {h.text}"
  | .cleared n => some s!"DEBUG clearing tree with {n} entries"
  | .declined _ _ | .abandoned _ => none

end RedBlack
