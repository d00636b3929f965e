/-! Handles of entries, and how far the positions of an index type reach. -/
namespace RedBlack

/-- The place of an entry in the arena. Position 0 is the nil slot's. -/
structure Handle where
  pos : Nat
  deriving DecidableEq

namespace Handle

def nil : Handle := ⟨0⟩

end Handle

/-- The positions that fit a handle. One up to `max` stays as it is; what becomes of a larger one is left
open. Only where 0 is all that fits, 1 has to be cut to it: the first position asked for is larger than
`max` then, and it is by its handle that it is refused. -/
structure Width where
  max : Nat
  narrow : Nat → Nat
  narrow_of_le : ∀ p, p ≤ max → narrow p = p
  narrow_one : max = 0 → narrow 1 = 0

namespace Width

def upTo (max : Nat) : Width where
  max := max
  narrow p := p % (max + 1)
  narrow_of_le _ h := Nat.mod_eq_of_lt (Nat.lt_succ_of_le h)
  narrow_one h := by rw [h]

def halfWord : Width := upTo 0xffffffff

def word : Width := upTo 0xffffffffffffffff

def limited (w : Width) : Bool := w.max != word.max

/-- The handle of a position. With a full machine word every position that memory has stays as it is. -/
def handle (w : Width) (p : Nat) : Handle := ⟨if w.limited then w.narrow p else p⟩

theorem limited_of_lt {w : Width} (h : w.max < word.max) : w.limited = true :=
  bne_iff_ne.2 (Nat.ne_of_lt h)

theorem handle_of_le {w : Width} {p : Nat} (h : p ≤ w.max) : w.handle p = ⟨p⟩ := by
  unfold handle
  split
  · rw [w.narrow_of_le p h]
  · rfl

theorem handle_of_not_limited {w : Width} (h : w.limited = false) (p : Nat) : w.handle p = ⟨p⟩ := by
  unfold handle
  rw [h]
  rfl

theorem handle_one_of_max {w : Width} (h : w.max = 0) : w.handle 1 = .nil := by
  have hlimited : w.limited = true := limited_of_lt (h ▸ Nat.zero_lt_succ _)
  rw [handle, if_pos hlimited, w.narrow_one h]
  rfl

end Width
end RedBlack
