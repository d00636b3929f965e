import RedBlack.Proofs.Focus

/-! What rotations do to a shape, one of them and one after another, whatever the colors. They are told by
the side to which a shape is turned, and by the cell that goes down. -/
namespace RedBlack
variable {K V : Type}

def Event.rotations (rs : List (Side × Handle)) : List Event := rs.map fun r => .rotated r.1 r.2

namespace Shape

def bare : Shape K V → Shape K V
  | nil => nil
  | node l c r => node l.bare (c.painted .black) r.bare

variable {sh sh' sh₁ : Shape K V} {a : Side} {i : Handle} {rs : List (Side × Handle)}

@[simp] theorem bare_join (a : Side) (n : Shape K V) (c : Cell K V) (f : Shape K V) :
    (join a n c f).bare = join a n.bare (c.painted .black) f.bare := by cases a <;> rfl

@[simp] theorem bare_painted (color : Color) (sh : Shape K V) : (sh.painted color).bare = sh.bare := by
  cases sh <;> rfl

@[simp] theorem items_bare (sh : Shape K V) : sh.bare.items = sh.items := by
  induction sh with
  | nil => rfl
  | node l c r ihl ihr => rw [bare, items_node, items_node, ihl, ihr, Cell.item_painted]

theorem items_of_bare (h : sh'.bare = sh.bare) : sh'.items = sh.items := by
  rw [← items_bare, h, items_bare]

theorem bare_within_congr (h : sh'.bare = sh.bare) (π : Path K V) :
    (sh'.within π).bare = (sh.within π).bare := by
  induction π generalizing sh sh' with
  | nil => exact h
  | cons s π ih =>
    apply ih
    rw [bare_join, bare_join, h]

/-- The cell at `i` has gone down on side `a`, below its child on the other side. -/
def Rotates (sh : Shape K V) (a : Side) (i : Handle) (sh' : Shape K V) : Prop :=
  ∃ n x m y f π, x.handle = i ∧ sh.bare = ((join a n x (join a m y f)).within π).bare ∧
    sh'.bare = ((join a (join a n x m) y f).within π).bare

inductive RotatesBy : Shape K V → List (Side × Handle) → Shape K V → Prop
  | still {sh sh' : Shape K V} (h : sh'.bare = sh.bare) : RotatesBy sh [] sh'
  | turn {sh sh₁ sh' : Shape K V} {a : Side} {i : Handle} {rs : List (Side × Handle)}
      (h : sh.Rotates a i sh₁) (rest : sh₁.RotatesBy rs sh') : RotatesBy sh ((a, i) :: rs) sh'

theorem Rotates.recolored (h : sh.Rotates a i sh₁) (hb : sh'.bare = sh₁.bare) :
    sh.Rotates a i sh' := by
  obtain ⟨n, x, m, y, f, π, hx, hsh, hsh₁⟩ := h
  exact ⟨n, x, m, y, f, π, hx, hsh, hb.trans hsh₁⟩

theorem rotates_near (a : Side) (n : Shape K V) (x : Cell K V) (m : Shape K V) (y : Cell K V)
    (f : Shape K V) (π : Path K V) :
    ((join a n x (join a m y f)).within π).Rotates a x.handle
      ((join a (join a n x m) y f).within π) := ⟨n, x, m, y, f, π, rfl, rfl, rfl⟩

theorem rotates_far (a : Side) (n : Shape K V) (x : Cell K V) (m : Shape K V) (y : Cell K V)
    (f : Shape K V) (π : Path K V) :
    ((join a (join a n x m) y f).within π).Rotates a.other y.handle
      ((join a n x (join a m y f)).within π) := by
  refine ⟨f, y, m, x, n, π, rfl, ?_, ?_⟩
  · rw [join_other, join_other]
  · rw [join_other, join_other]

theorem Rotates.items (h : sh.Rotates a i sh') : sh'.items = sh.items := by
  obtain ⟨n, x, m, y, f, π, -, hsh, hsh'⟩ := h
  rw [items_of_bare hsh', items_of_bare hsh]
  exact items_within_congr (items_rotated a n x m y f) π

theorem RotatesBy.items (h : sh.RotatesBy rs sh') : sh'.items = sh.items := by
  induction h with
  | still h => exact items_of_bare h
  | turn h _ ih => exact ih.trans h.items

theorem RotatesBy.congr (h : sh₁.RotatesBy rs sh') (hb : sh.bare = sh₁.bare) : sh.RotatesBy rs sh' := by
  cases h with
  | still h => exact .still (h.trans hb.symm)
  | turn h rest =>
    obtain ⟨n, x, m, y, f, π, hx, hsh, hsh₁⟩ := h
    exact .turn ⟨n, x, m, y, f, π, hx, hb.trans hsh, hsh₁⟩ rest

theorem RotatesBy.recolored (h : sh.RotatesBy rs sh₁) (hb : sh'.bare = sh₁.bare) :
    sh.RotatesBy rs sh' := by
  induction h with
  | still h => exact .still (hb.trans h)
  | turn h _ ih => exact .turn h (ih hb)

end Shape
end RedBlack
