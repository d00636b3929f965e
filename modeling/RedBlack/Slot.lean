import RedBlack.Event

/-! The places of the arena: an entry with its color and links, or nothing. -/
namespace RedBlack

inductive Color where
  | red
  | black
  deriving DecidableEq

/-- A slot without an entry is vacant; the nil slot is one. Links of a vacant slot are absent, save for
the parent that unlinking an entry leaves in the nil slot. Key and value are one option: a new leaf has
both, and to vacate a slot takes both. -/
structure Slot (K V : Type) where
  left : Option Handle
  right : Option Handle
  parent : Option Handle
  color : Color
  entry : Option (K × V)

namespace Slot
variable {K V : Type}

def vacant : Slot K V := ⟨none, none, none, .black, none⟩

def leaf (k : K) (v : V) : Slot K V := ⟨some .nil, some .nil, some .nil, .red, some (k, v)⟩

def child : Side → Slot K V → Option Handle
  | .left, s => s.left
  | .right, s => s.right

def withChild : Side → Handle → Slot K V → Slot K V
  | .left, h, s => { s with left := some h }
  | .right, h, s => { s with right := some h }

def withParent (h : Handle) (s : Slot K V) : Slot K V := { s with parent := some h }

def withColor (c : Color) (s : Slot K V) : Slot K V := { s with color := c }

def withValue (v : V) (s : Slot K V) : Slot K V := { s with entry := s.entry.map fun e => (e.1, v) }

@[simp] theorem child_withChild (a : Side) (h : Handle) (s : Slot K V) :
    (s.withChild a h).child a = some h := by cases a <;> rfl

@[simp] theorem child_other_withChild (a : Side) (h : Handle) (s : Slot K V) :
    (s.withChild a h).child a.other = s.child a.other := by cases a <;> rfl

@[simp] theorem parent_withChild (a : Side) (h : Handle) (s : Slot K V) :
    (s.withChild a h).parent = s.parent := by cases a <;> rfl

@[simp] theorem color_withChild (a : Side) (h : Handle) (s : Slot K V) :
    (s.withChild a h).color = s.color := by cases a <;> rfl

@[simp] theorem entry_withChild (a : Side) (h : Handle) (s : Slot K V) :
    (s.withChild a h).entry = s.entry := by cases a <;> rfl

@[simp] theorem child_withParent (a : Side) (h : Handle) (s : Slot K V) :
    (s.withParent h).child a = s.child a := by cases a <;> rfl

@[simp] theorem child_withColor (a : Side) (c : Color) (s : Slot K V) :
    (s.withColor c).child a = s.child a := by cases a <;> rfl

@[simp] theorem child_withValue (a : Side) (v : V) (s : Slot K V) :
    (s.withValue v).child a = s.child a := by cases a <;> rfl

end Slot
end RedBlack
