import RedBlack.Arena
import RedBlack.KeyOrder

/-! A search tree whose entries lie in an arena, the reading of its slots, and single changes to them.
-/
namespace RedBlack

structure Tree (K V : Type) where
  arena : Arena K V
  root : Handle
  size : Nat
  order : KeyOrder K
  width : Width
  journal : Array Event

abbrev Edit (K V : Type) := Act (Tree K V)

namespace Tree
variable {K V : Type}

def empty (order : KeyOrder K) (width : Width) : Tree K V where
  arena := .empty
  root := .nil
  size := 0
  order := order
  width := width
  journal := #[]

def isEmpty (t : Tree K V) : Bool := t.size == 0

/-- No walk along the links of a tree takes more steps than this. -/
def reach (t : Tree K V) : Nat := t.arena.slots.size

/-! ### Reading a slot -/

def slot (t : Tree K V) (h : Handle) : Except Failure (Slot K V) :=
  match t.arena.slot? h with
  | some s => .ok s
  | none => .error (.fault (.noSlot h))

def child (t : Tree K V) (a : Side) (h : Handle) : Except Failure Handle := do
  match (← t.slot h).child a with
  | some c => .ok c
  | none => .error (.fault (.noLink h))

def parent (t : Tree K V) (h : Handle) : Except Failure Handle := do
  match (← t.slot h).parent with
  | some p => .ok p
  | none => .error (.fault (.noLink h))

def color (t : Tree K V) (h : Handle) : Except Failure Color := do
  return (← t.slot h).color

def isNil (t : Tree K V) (h : Handle) : Except Failure Bool := do
  return (← t.slot h).entry.isNone

def entryOf (t : Tree K V) (h : Handle) : Except Failure (K × V) := do
  match (← t.slot h).entry with
  | some e => .ok e
  | none => .error (.fault (.noEntry h))

def hangs (t : Tree K V) (a : Side) (h : Handle) : Except Failure Bool := do
  return (← t.child a (← t.parent h)) == h

def sideOf (t : Tree K V) (h : Handle) : Except Failure Side := do
  return if ← t.hangs .left h then .left else .right

theorem child_eq_ok {t : Tree K V} {a : Side} {h c : Handle} :
    t.child a h = .ok c ↔ ∃ s, t.arena.slot? h = some s ∧ s.child a = some c := by
  unfold child slot
  cases hs : t.arena.slot? h with
  | none => simp [bind, Except.bind]
  | some s => cases hc : s.child a <;> simp [bind, Except.bind, hc]

theorem parent_eq_ok {t : Tree K V} {h p : Handle} :
    t.parent h = .ok p ↔ ∃ s, t.arena.slot? h = some s ∧ s.parent = some p := by
  unfold parent slot
  cases hs : t.arena.slot? h with
  | none => simp [bind, Except.bind]
  | some s => cases hp : s.parent <;> simp [bind, Except.bind, hp]

theorem color_eq_ok {t : Tree K V} {h : Handle} {c : Color} :
    t.color h = .ok c ↔ ∃ s, t.arena.slot? h = some s ∧ s.color = c := by
  unfold color slot
  cases hs : t.arena.slot? h <;> simp [bind, Except.bind, pure, Except.pure]

theorem isNil_eq_ok {t : Tree K V} {h : Handle} {b : Bool} :
    t.isNil h = .ok b ↔ ∃ s, t.arena.slot? h = some s ∧ s.entry.isNone = b := by
  unfold isNil slot
  cases hs : t.arena.slot? h <;> simp [bind, Except.bind, pure, Except.pure]

theorem entryOf_eq_ok {t : Tree K V} {h : Handle} {e : K × V} :
    t.entryOf h = .ok e ↔ ∃ s, t.arena.slot? h = some s ∧ s.entry = some e := by
  unfold entryOf slot
  cases hs : t.arena.slot? h with
  | none => simp [bind, Except.bind]
  | some s => cases he : s.entry <;> simp [bind, Except.bind, he]

/-! ### Reading by handle, whatever the handle -/

def entryAt? (t : Tree K V) (h : Handle) : Option (K × V) := t.arena.find? h

def keyAt? (t : Tree K V) (h : Handle) : Option K := (t.entryAt? h).map Prod.fst

def valueAt? (t : Tree K V) (h : Handle) : Option V := (t.entryAt? h).map Prod.snd

theorem entryAt?_eq_some {t : Tree K V} {h : Handle} {e : K × V} :
    t.entryAt? h = some e ↔ t.entryOf h = .ok e := by
  rw [entryOf_eq_ok]
  exact Option.bind_eq_some_iff

end Tree

/-! ### Single changes -/

namespace Edit
variable {K V : Type}

def note (e : Event) : Edit K V Unit := modify fun t => { t with journal := t.journal.push e }

def noteAll (es : Array Event) : Edit K V Unit := modify fun t => { t with journal := t.journal ++ es }

def modifySlot (h : Handle) (f : Slot K V → Slot K V) : Edit K V Unit := fun t =>
  if h.pos < t.arena.slots.size then .ok () { t with arena := t.arena.modify h f }
  else .error (.fault (.noSlot h)) t

theorem run_modifySlot {t : Tree K V} {h : Handle} (f : Slot K V → Slot K V)
    (hh : h.pos < t.arena.slots.size) :
    (modifySlot h f).run t = .ok () { t with arena := t.arena.modify h f } := by
  simp only [modifySlot, EStateM.run, hh, if_true]

theorem run_modifySlot_missing {t : Tree K V} {h : Handle} (f : Slot K V → Slot K V)
    (hh : ¬ h.pos < t.arena.slots.size) :
    (modifySlot h f).run t = .error (.fault (.noSlot h)) t := if_neg hh

def setChild (a : Side) (h c : Handle) : Edit K V Unit := modifySlot h (Slot.withChild a c)

def setParent (h p : Handle) : Edit K V Unit := modifySlot h (Slot.withParent p)

def setColor (h : Handle) (c : Color) : Edit K V Unit := modifySlot h (Slot.withColor c)

def setRoot (h : Handle) : Edit K V Unit := modify fun t => { t with root := h }

def allocate (s : Slot K V) : Edit K V Handle := fun t =>
  match t.arena.allocate t.width s with
  | .ok (h, a) => .ok h { t with arena := a }
  | .error e => .error e t

def vacate (h : Handle) : Edit K V (K × V) := do
  let e ← Act.look (·.entryOf h)
  modifySlot h fun _ => .vacant
  return e

def modifyValue (h : Handle) (f : V → V) : Edit K V V := do
  let e ← Act.look (·.entryOf h)
  modifySlot h (Slot.withValue (f e.2))
  return f e.2

def modifyAt? (h : Handle) (f : V → V) : Edit K V (Option V) := do
  match (← get).valueAt? h with
  | none => return none
  | some v =>
    modifySlot h (Slot.withValue (f v))
    return some (f v)

def replaceAt? (h : Handle) (v : V) : Edit K V (Option V) := do
  match (← get).valueAt? h with
  | none => return none
  | some old =>
    modifySlot h (Slot.withValue v)
    return some old

def clear : Edit K V Unit := do
  note (.cleared (← get).size)
  modify fun t => { t with arena := .empty, root := .nil, size := 0 }

end Edit
end RedBlack
