import RedBlack.Slot

/-! Drawings of trees. A shape shows the entries of a tree with their handles and colors; a path shows
what lies around a place in it, from the place up to the root. -/
namespace RedBlack
variable {K V : Type}

structure Cell (K V : Type) where
  handle : Handle
  color : Color
  entry : K × V

namespace Cell

def painted (color : Color) (c : Cell K V) : Cell K V := { c with color := color }

def item (c : Cell K V) : Handle × K × V := (c.handle, c.entry)

@[simp] theorem handle_painted (color : Color) (c : Cell K V) :
    (c.painted color).handle = c.handle := rfl

@[simp] theorem color_painted (color : Color) (c : Cell K V) :
    (c.painted color).color = color := rfl

@[simp] theorem item_painted (color : Color) (c : Cell K V) :
    (c.painted color).item = c.item := rfl

theorem painted_self {color : Color} {c : Cell K V} (h : c.color = color) : c.painted color = c := by
  subst h
  rfl

end Cell

inductive Shape (K V : Type) where
  | nil
  | node (left : Shape K V) (cell : Cell K V) (right : Shape K V)

namespace Shape

/-- A cell with a shape hung on its side `a` and another on the other side. -/
def join (a : Side) (near : Shape K V) (c : Cell K V) (far : Shape K V) : Shape K V :=
  match a with
  | .left => node near c far
  | .right => node far c near

def root : Shape K V → Handle
  | nil => .nil
  | node _ c _ => c.handle

def color : Shape K V → Color
  | nil => .black
  | node _ c _ => c.color

def cells : Shape K V → List (Cell K V)
  | nil => []
  | node l c r => l.cells ++ c :: r.cells

def handles (sh : Shape K V) : List Handle := sh.cells.map Cell.handle

def items (sh : Shape K V) : List (Handle × K × V) := sh.cells.map Cell.item

@[simp] theorem root_nil : (nil : Shape K V).root = .nil := rfl

@[simp] theorem root_node (l : Shape K V) (c : Cell K V) (r : Shape K V) :
    (node l c r).root = c.handle := rfl

@[simp] theorem color_node (l : Shape K V) (c : Cell K V) (r : Shape K V) :
    (node l c r).color = c.color := rfl

@[simp] theorem root_join (a : Side) (n : Shape K V) (c : Cell K V) (f : Shape K V) :
    (join a n c f).root = c.handle := by cases a <;> rfl

@[simp] theorem color_join (a : Side) (n : Shape K V) (c : Cell K V) (f : Shape K V) :
    (join a n c f).color = c.color := by cases a <;> rfl

theorem join_other (a : Side) (n : Shape K V) (c : Cell K V) (f : Shape K V) :
    join a.other n c f = join a f c n := by cases a <;> rfl

theorem join_ne_nil (a : Side) (n : Shape K V) (c : Cell K V) (f : Shape K V) :
    join a n c f ≠ nil := by cases a <;> exact fun h => nomatch h

theorem exists_join (a : Side) {sh : Shape K V} (h : sh ≠ nil) : ∃ n c f, sh = join a n c f := by
  cases sh with
  | nil => exact absurd rfl h
  | node l c r =>
    cases a with
    | left => exact ⟨l, c, r, rfl⟩
    | right => exact ⟨r, c, l, rfl⟩

theorem ne_nil_of_red {sh : Shape K V} (h : sh.color = .red) : sh ≠ nil := by
  rintro rfl
  cases h

@[simp] theorem handles_nil : (nil : Shape K V).handles = [] := rfl

@[simp] theorem items_nil : (nil : Shape K V).items = [] := rfl

theorem handles_eq_map_items (sh : Shape K V) : sh.handles = sh.items.map Prod.fst := by
  rw [items, List.map_map]
  rfl

theorem handles_node (l : Shape K V) (c : Cell K V) (r : Shape K V) :
    (node l c r).handles = l.handles ++ c.handle :: r.handles := by
  simp only [handles, cells, List.map_append, List.map_cons]

theorem items_node (l : Shape K V) (c : Cell K V) (r : Shape K V) :
    (node l c r).items = l.items ++ c.item :: r.items := by
  simp only [items, cells, List.map_append, List.map_cons]

theorem handles_join_perm (a : Side) (n : Shape K V) (c : Cell K V) (f : Shape K V) :
    (join a n c f).handles.Perm (c.handle :: (n.handles ++ f.handles)) := by
  cases a with
  | left => exact (handles_node n c f).symm ▸ List.perm_middle
  | right =>
    refine (handles_node f c n).symm ▸ List.perm_middle.trans ?_
    exact List.Perm.cons _ List.perm_append_comm

theorem cells_rotated (a : Side) (n : Shape K V) (x : Cell K V) (m : Shape K V) (y : Cell K V)
    (f : Shape K V) :
    (join a (join a n x m) y f).cells = (join a n x (join a m y f)).cells := by
  cases a <;> simp only [join, cells, List.append_assoc, List.cons_append]

theorem root_mem_handles {sh : Shape K V} (h : sh ≠ nil) : sh.root ∈ sh.handles := by
  cases sh with
  | nil => exact absurd rfl h
  | node l c r =>
    rw [handles_node]
    exact List.mem_append_right _ List.mem_cons_self

theorem root_mem (sh : Shape K V) : sh.root ∈ Handle.nil :: sh.handles := by
  by_cases h : sh = nil
  · rw [h]
    exact List.mem_cons_self
  · exact List.mem_cons_of_mem _ (root_mem_handles h)

def height : Shape K V → Nat
  | nil => 0
  | node l _ r => max l.height r.height + 1

theorem height_le_length (sh : Shape K V) : sh.height ≤ sh.cells.length := by
  induction sh with
  | nil => exact Nat.le_refl 0
  | node l c r ihl ihr =>
    simp only [height, cells, List.length_append, List.length_cons]
    omega

end Shape

/-- One level above a place: the place is on side `side` of the cell, and a sibling on the other. -/
structure Step (K V : Type) where
  side : Side
  cell : Cell K V
  sibling : Shape K V

/-- What is above a place, from below. -/
abbrev Path (K V : Type) := List (Step K V)

namespace Path

def above : Path K V → Handle
  | [] => .nil
  | s :: _ => s.cell.handle

@[simp] theorem above_nil : above ([] : Path K V) = .nil := rfl

@[simp] theorem above_cons (s : Step K V) (π : Path K V) : above (s :: π) = s.cell.handle := rfl

def handles : Path K V → List Handle
  | [] => []
  | s :: π => s.cell.handle :: (s.sibling.handles ++ handles π)

theorem above_mem_handles {π : Path K V} (h : π ≠ []) : above π ∈ handles π := by
  cases π with
  | nil => exact absurd rfl h
  | cons s π => exact List.mem_cons_self

theorem above_mem (π : Path K V) : above π ∈ Handle.nil :: handles π := by
  by_cases h : π = []
  · rw [h]
    exact List.mem_cons_self
  · exact List.mem_cons_of_mem _ (above_mem_handles h)

theorem length_le_handles (π : Path K V) : π.length ≤ π.handles.length := by
  induction π with
  | nil => exact Nat.le_refl 0
  | cons s π ih =>
    simp only [handles, List.length_cons, List.length_append]
    omega

def before : Path K V → List (Cell K V)
  | [] => []
  | ⟨.left, _, _⟩ :: π => before π
  | ⟨.right, c, sib⟩ :: π => before π ++ sib.cells ++ [c]

def after : Path K V → List (Cell K V)
  | [] => []
  | ⟨.left, c, sib⟩ :: π => c :: sib.cells ++ after π
  | ⟨.right, _, _⟩ :: π => after π

def rootColor (c : Color) : Path K V → Color
  | [] => c
  | s :: π => rootColor s.cell.color π

end Path

namespace Shape

def within (sh : Shape K V) : Path K V → Shape K V
  | [] => sh
  | s :: π => (join s.side sh s.cell s.sibling).within π

@[simp] theorem within_nil (sh : Shape K V) : sh.within [] = sh := rfl

@[simp] theorem within_cons (sh : Shape K V) (s : Step K V) (π : Path K V) :
    sh.within (s :: π) = (join s.side sh s.cell s.sibling).within π := rfl

theorem height_join (a : Side) (n : Shape K V) (c : Cell K V) (f : Shape K V) :
    (join a n c f).height = max n.height f.height + 1 := by
  cases a with
  | left => rfl
  | right => rw [join, height, Nat.max_comm]

theorem length_add_height_le (sh : Shape K V) (π : Path K V) :
    π.length + sh.height ≤ (sh.within π).height := by
  induction π generalizing sh with
  | nil => exact Nat.le_of_eq (Nat.zero_add _)
  | cons s π ih =>
    have hjoin := ih (join s.side sh s.cell s.sibling)
    rw [height_join] at hjoin
    rw [List.length_cons, within_cons]
    omega

theorem within_append (sh : Shape K V) (ρ π : Path K V) :
    sh.within (ρ ++ π) = (sh.within ρ).within π := by
  induction ρ generalizing sh with
  | nil => rfl
  | cons s ρ ih => exact ih (join s.side sh s.cell s.sibling)

theorem within_concat (sh : Shape K V) (π : Path K V) (s : Step K V) :
    sh.within (π ++ [s]) = join s.side (sh.within π) s.cell s.sibling := within_append sh π [s]

theorem within_ne_nil {sh : Shape K V} (h : sh ≠ nil) (π : Path K V) : sh.within π ≠ nil := by
  induction π generalizing sh with
  | nil => exact h
  | cons s π ih => exact ih (join_ne_nil s.side sh s.cell s.sibling)

theorem root_within_cons (sh sh' : Shape K V) (s : Step K V) (π : Path K V) :
    (sh.within (s :: π)).root = (sh'.within (s :: π)).root := by
  induction π generalizing sh sh' s with
  | nil => simp only [within_cons, within_nil, root_join]
  | cons r π ih => exact ih _ _ r

theorem root_within_mem (sh : Shape K V) (s : Step K V) (π : Path K V) :
    (sh.within (s :: π)).root ∈ Path.handles (s :: π) := by
  induction π generalizing sh s with
  | nil =>
    rw [within_cons, within_nil, root_join]
    exact List.mem_cons_self
  | cons r π ih =>
    apply List.mem_cons_of_mem _
    apply List.mem_append_right _
    exact ih _ r

theorem color_within (sh : Shape K V) (π : Path K V) :
    (sh.within π).color = π.rootColor sh.color := by
  induction π generalizing sh with
  | nil => rfl
  | cons s π ih =>
    rw [within_cons, ih, color_join]
    rfl

theorem cells_within (sh : Shape K V) (π : Path K V) :
    (sh.within π).cells = π.before ++ sh.cells ++ π.after := by
  induction π generalizing sh with
  | nil => simp only [within_nil, Path.before, Path.after, List.nil_append, List.append_nil]
  | cons s π ih =>
    obtain ⟨side, c, sib⟩ := s
    rw [within_cons, ih]
    cases side <;>
      simp only [join, cells, Path.before, Path.after, List.append_assoc, List.cons_append,
        List.nil_append]

theorem exists_within {sh : Shape K V} {c : Cell K V} (h : c ∈ sh.cells) :
    ∃ l r π, sh = (node l c r).within π := by
  induction sh with
  | nil => cases h
  | node l d r ihl ihr =>
    rcases List.mem_append.1 h with h | h
    · obtain ⟨l', r', π, rfl⟩ := ihl h
      refine ⟨l', r', π ++ [⟨.left, d, r⟩], ?_⟩
      rw [within_concat]
      rfl
    · rcases List.mem_cons.1 h with rfl | h
      · exact ⟨l, r, [], rfl⟩
      · obtain ⟨l', r', π, rfl⟩ := ihr h
        refine ⟨l', r', π ++ [⟨.right, d, l⟩], ?_⟩
        rw [within_concat]
        rfl

theorem handles_within_perm (sh : Shape K V) (π : Path K V) :
    (sh.within π).handles.Perm (sh.handles ++ π.handles) := by
  induction π generalizing sh with
  | nil => exact (List.append_nil _).symm ▸ List.Perm.refl _
  | cons s π ih =>
    have hj := (handles_join_perm s.side sh s.cell s.sibling).append_right (Path.handles π)
    refine (ih (join s.side sh s.cell s.sibling)).trans (hj.trans ?_)
    simp only [Path.handles, List.cons_append, List.append_assoc]
    exact List.perm_middle.symm

theorem root_mem_focus (sh : Shape K V) (π : Path K V) :
    sh.root ∈ Handle.nil :: (sh.within π).handles := by
  cases sh with
  | nil => exact List.mem_cons_self
  | node l c r =>
    refine List.mem_cons_of_mem _ ((handles_within_perm _ π).mem_iff.2 ?_)
    exact List.mem_append_left _ (root_mem_handles fun h => nomatch h)

theorem above_mem_focus (sh : Shape K V) (π : Path K V) :
    π.above ∈ Handle.nil :: (sh.within π).handles := by
  rcases List.mem_cons.1 (Path.above_mem π) with hn | hmem
  · exact hn ▸ List.mem_cons_self
  · exact List.mem_cons_of_mem _ ((handles_within_perm sh π).mem_iff.2 (List.mem_append_right _ hmem))

theorem handles_rotated (a : Side) (n : Shape K V) (x : Cell K V) (m : Shape K V) (y : Cell K V)
    (f : Shape K V) :
    (join a (join a n x m) y f).handles = (join a n x (join a m y f)).handles :=
  congrArg (List.map Cell.handle) (cells_rotated a n x m y f)

theorem within_sibling (a : Side) (n : Shape K V) (c : Cell K V) (f : Shape K V) (π : Path K V) :
    (join a n c f).within π = f.within (⟨a.other, c, n⟩ :: π) := by
  rw [within_cons, join_other]

theorem handles_within_congr {sh sh' : Shape K V} (h : sh'.handles.Perm sh.handles) (π : Path K V) :
    (sh'.within π).handles.Perm (sh.within π).handles := by
  apply (handles_within_perm sh' π).trans
  exact (h.append_right π.handles).trans (handles_within_perm sh π).symm

theorem items_within (sh : Shape K V) (π : Path K V) :
    (sh.within π).items = π.before.map Cell.item ++ sh.items ++ π.after.map Cell.item := by
  rw [items, cells_within, List.map_append, List.map_append]
  rfl

theorem items_join_congr (a : Side) {n n' f f' : Shape K V} {c c' : Cell K V}
    (hn : n'.items = n.items) (hc : c'.item = c.item) (hf : f'.items = f.items) :
    (join a n' c' f').items = (join a n c f).items := by
  cases a <;> simp only [join, items_node, hn, hc, hf]

theorem items_within_congr {sh sh' : Shape K V} (h : sh'.items = sh.items) (π : Path K V) :
    (sh'.within π).items = (sh.within π).items := by
  rw [items_within, items_within, h]

theorem items_rotated (a : Side) (n : Shape K V) (x : Cell K V) (m : Shape K V) (y : Cell K V)
    (f : Shape K V) :
    (join a (join a n x m) y f).items = (join a n x (join a m y f)).items :=
  congrArg (List.map Cell.item) (cells_rotated a n x m y f)

theorem handles_eq_of_items {sh sh' : Shape K V} (h : sh'.items = sh.items) :
    sh'.handles = sh.handles := by
  rw [handles_eq_map_items, handles_eq_map_items, h]

section erased
variable {sh sh' : Shape K V} {i : Handle} {e : K × V} {b c : List (Handle × K × V)}
  (hsplit : sh.items = b ++ (i, e) :: c) (hitems : sh'.items = b ++ c)
include hsplit hitems

theorem handles_erased : sh.handles.Perm (i :: sh'.handles) := by
  rw [handles_eq_map_items, handles_eq_map_items, hsplit, hitems, List.map_append, List.map_append,
    List.map_cons]
  exact List.perm_middle

theorem handles_erased_sublist : sh'.handles.Sublist sh.handles := by
  rw [handles_eq_map_items, handles_eq_map_items, hsplit, hitems]
  exact ((List.Sublist.refl _).append (List.sublist_cons_self ..)).map _

end erased

end Shape
end RedBlack
