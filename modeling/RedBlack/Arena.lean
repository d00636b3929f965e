import RedBlack.Failure
import RedBlack.Slot

/-! The arena: slots in a row, the first of them the nil slot, and the slots to be used again. -/
namespace RedBlack

structure Arena (K V : Type) where
  slots : Array (Slot K V)
  /-- Vacated slots, the one vacated last in front. -/
  free : List Handle

namespace Arena
variable {K V : Type}

def empty : Arena K V := ⟨#[.vacant], []⟩

def slot? (a : Arena K V) (h : Handle) : Option (Slot K V) := a.slots[h.pos]?

def find? (a : Arena K V) (h : Handle) : Option (K × V) := (a.slot? h).bind Slot.entry

def modify (a : Arena K V) (h : Handle) (f : Slot K V → Slot K V) : Arena K V :=
  { a with slots := a.slots.modify h.pos f }

def allocate (a : Arena K V) (w : Width) (s : Slot K V) : Except Failure (Handle × Arena K V) :=
  match a.free with
  | h :: free =>
    if h.pos < a.slots.size then
      .ok (h, { slots := a.slots.modify h.pos fun _ => s, free := free })
    else .error (.fault (.noSlot h))
  | [] =>
    let h := w.handle a.slots.size
    if w.limited && h.pos == w.max then .error .arenaFull
    else .ok (h, { a with slots := a.slots.push s })

def release (a : Arena K V) (h : Handle) : Arena K V := { a with free := h :: a.free }

/-- Drops all slots but the nil slot, which stays as it is. -/
def restart (a : Arena K V) : Arena K V := ⟨a.slots.take 1, []⟩

theorem slot?_modify (a : Arena K V) (h i : Handle) (f : Slot K V → Slot K V) :
    (a.modify h f).slot? i = if h = i then (a.slot? i).map f else a.slot? i := by
  cases h
  cases i
  simp only [slot?, modify, Array.getElem?_modify, Handle.mk.injEq]

@[simp] theorem slot?_modify_self (a : Arena K V) (h : Handle) (f : Slot K V → Slot K V) :
    (a.modify h f).slot? h = (a.slot? h).map f := by
  simp only [slot?_modify, if_true]

theorem slot?_modify_of_ne (a : Arena K V) {h i : Handle} (f : Slot K V → Slot K V) (hi : h ≠ i) :
    (a.modify h f).slot? i = a.slot? i := by
  rw [slot?_modify, if_neg hi]

@[simp] theorem free_modify (a : Arena K V) (h : Handle) (f : Slot K V → Slot K V) :
    (a.modify h f).free = a.free := rfl

@[simp] theorem size_modify (a : Arena K V) (h : Handle) (f : Slot K V → Slot K V) :
    (a.modify h f).slots.size = a.slots.size := Array.size_modify ..

theorem slot?_isSome_iff (a : Arena K V) (h : Handle) :
    (a.slot? h).isSome ↔ h.pos < a.slots.size := by
  simp [slot?]

end Arena
end RedBlack
