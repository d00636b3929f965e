/-! Orders on keys. An order is a comparison, or an order with the sides exchanged. -/
namespace RedBlack

/-- The order of a container's keys; keys that compare equal may still differ. -/
inductive KeyOrder (K : Type) where
  | comparing (compare : K → K → Ordering)
  | reverse (inner : KeyOrder K)

namespace KeyOrder
variable {K : Type}

def natural [Ord K] : KeyOrder K := .comparing Ord.compare

def allEqual : KeyOrder K := .comparing fun _ _ => .eq

def compare : KeyOrder K → K → K → Ordering
  | .comparing f, a, b => f a b
  | .reverse c, a, b => c.compare b a

/-- The pair that the comparison at the bottom of the order is asked about. -/
def presented : KeyOrder K → K → K → K × K
  | .comparing _, a, b => (a, b)
  | .reverse c, a, b => c.presented b a

def bottom : KeyOrder K → K → K → Ordering
  | .comparing f => f
  | .reverse c => c.bottom

theorem compare_reverse (c : KeyOrder K) (a b : K) :
    (reverse c).compare a b = c.compare b a := rfl

theorem compare_reverse_reverse (c : KeyOrder K) (a b : K) :
    (reverse (reverse c)).compare a b = c.compare a b := rfl

theorem bottom_presented (c : KeyOrder K) (a b : K) :
    c.bottom (c.presented a b).1 (c.presented a b).2 = c.compare a b := by
  induction c generalizing a b with
  | comparing f => rfl
  | reverse c ih => exact ih b a

/-! ### Lawful orders -/

instance [Ord K] [h : Std.TransOrd K] : Std.TransCmp (natural : KeyOrder K).compare := h

instance : Std.TransCmp (allEqual : KeyOrder K).compare where
  eq_swap := rfl
  isLE_trans _ _ := rfl

instance (order : KeyOrder K) [Std.TransCmp order.compare] :
    Std.TransCmp (reverse order).compare :=
  inferInstanceAs (Std.TransCmp fun a b => order.compare b a)

end KeyOrder
end RedBlack
