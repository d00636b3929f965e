import RedBlack.Proofs.Balance
import RedBlack.Proofs.Drawing
import RedBlack.Proofs.Searching
import RedBlack.Proofs.Walks

/-! What holds of a tree between operations: its links are those of a red-black search tree, and every
slot of its arena holds an entry of the tree or is free. -/
namespace RedBlack
variable {K V : Type}

namespace Arena

def positions (a : Arena K V) : List Handle := (List.range' 1 (a.slots.size - 1)).map Handle.mk

variable {a b : Arena K V} {h : Handle}

theorem mem_positions : h ∈ a.positions ↔ 0 < h.pos ∧ h.pos < a.slots.size := by
  obtain ⟨i⟩ := h
  simp only [positions, List.mem_map, Handle.mk.injEq, exists_eq_right, List.mem_range'_1]
  omega

theorem nodup_positions (a : Arena K V) : a.positions.Nodup :=
  List.Pairwise.map Handle.mk (fun _ _ hij heq => hij (congrArg Handle.pos heq)) List.nodup_range'

theorem length_positions (a : Arena K V) : a.positions.length = a.slots.size - 1 := by
  rw [positions, List.length_map, List.length_range']

theorem positions_congr (h : a.slots.size = b.slots.size) : a.positions = b.positions := by
  rw [positions, positions, h]

end Arena

namespace Tree

/-- The shape that is read off the links below a handle, down to so many levels. -/
def shapeBelow (t : Tree K V) : Nat → Handle → Shape K V
  | 0, _ => .nil
  | n + 1, h =>
    match t.arena.slot? h with
    | some ⟨some l, some r, _, color, some e⟩ =>
      .node (t.shapeBelow n l) ⟨h, color, e⟩ (t.shapeBelow n r)
    | _ => .nil

def shape (t : Tree K V) : Shape K V := t.shapeBelow t.reach t.root

def inorder (t : Tree K V) : List (Handle × K × V) := t.shape.items

/-- The tree holds the shape: its colors are those of a red-black tree, its keys increase, its count is
right, and what of its arena the shape does not use is free. -/
structure Holds (t : Tree K V) (ns : Slot K V) (sh : Shape K V) : Prop where
  shows : t.Shows ns sh
  childless : ns.left = none ∧ ns.right = none
  colored : sh.WellColored
  sorted : t.order.Sorted sh.items
  size : t.size = sh.items.length
  handles : (sh.handles ++ t.arena.free).Perm t.arena.positions
  vacant : ∀ h ∈ t.arena.free, t.arena.slot? h = some .vacant
  fresh : sh = .nil → t.arena.free = []
  width : t.width.limited = true → t.arena.slots.size ≤ max 1 t.width.max

variable {t : Tree K V} {ns : Slot K V} {sh : Shape K V}

theorem Shows.shapeBelow_eq {π : Path K V} (h : t.Shows ns (sh.within π)) {n : Nat}
    (hn : sh.height ≤ n) : t.shapeBelow n sh.root = sh := by
  induction sh generalizing π n with
  | nil =>
    cases n with
    | zero => rfl
    | succ n =>
      obtain ⟨left, right, parent, color, entry⟩ := ns
      obtain rfl : entry = none := h.keyless
      rw [shapeBelow, Shape.root_nil, h.nil]
      cases left <;> cases right <;> rfl
  | node l c r ihl ihr =>
    obtain ⟨n, rfl⟩ := Nat.exists_eq_add_one_of_ne_zero (Nat.ne_zero_of_lt hn)
    obtain ⟨hl, hr⟩ := Nat.max_le.1 (Nat.le_of_succ_le_succ hn)
    have hslot : t.arena.slot? c.handle = some (c.slot .left l.root r.root π.above) :=
      Shows.slot_join (a := .left) h
    rw [Shape.root_node, shapeBelow, hslot]
    simp only [Cell.slot, ihl (π := ⟨.left, c, r⟩ :: π) h hl, ihr (π := ⟨.right, c, l⟩ :: π) h hr]

theorem Shows.shape_eq (h : t.Shows ns sh) : t.shape = sh := by
  rw [Tree.shape, h.root]
  exact Shows.shapeBelow_eq (π := []) h h.height_le_reach

theorem Shows.inorder_eq (h : t.Shows ns sh) : t.inorder = sh.items := by
  rw [inorder, h.shape_eq]

namespace Holds

theorem isEmpty_iff (h : t.Holds ns sh) : t.isEmpty = true ↔ sh = .nil := by
  rw [isEmpty, beq_iff_eq, h.size]
  constructor
  · intro hlen
    cases sh with
    | nil => rfl
    | node l c r => simp [Shape.items_node] at hlen
  · rintro rfl
    rfl

theorem nodup (h : t.Holds ns sh) : (sh.handles ++ t.arena.free).Nodup :=
  h.handles.nodup_iff.2 t.arena.nodup_positions

theorem slot?_eq_none (h : t.Holds ns sh) {i : Handle} (hn : i ≠ .nil) (hi : i ∉ sh.handles)
    (hf : i ∉ t.arena.free) : t.arena.slot? i = none := by
  have hnot : i ∉ t.arena.positions := by
    rw [← h.handles.mem_iff, List.mem_append, not_or]
    exact ⟨hi, hf⟩
  rw [Arena.mem_positions] at hnot
  have hpos : 0 < i.pos := Nat.pos_of_ne_zero fun h0 => hn (congrArg Handle.mk h0)
  refine Option.not_isSome_iff_eq_none.1 fun hsome => hnot ⟨hpos, ?_⟩
  exact (Arena.slot?_isSome_iff t.arena i).1 hsome

theorem entryAt?_eq_none (h : t.Holds ns sh) {i : Handle} (hi : i ∉ sh.handles) :
    t.entryAt? i = none := by
  rw [Tree.entryAt?, Arena.find?]
  by_cases hn : i = .nil
  · rw [hn, h.shows.nil]
    exact h.shows.keyless
  · by_cases hf : i ∈ t.arena.free
    · rw [h.vacant i hf]
      rfl
    · rw [h.slot?_eq_none hn hi hf]
      rfl

theorem entryAt?_eq_some_iff (h : t.Holds ns sh) {i : Handle} {e : K × V} :
    t.entryAt? i = some e ↔ (i, e) ∈ sh.items := by
  have hentry {c : Cell K V} (hc : c ∈ sh.cells) : t.entryAt? c.handle = some c.entry :=
    h.shows.lies.entry hc
  constructor
  · intro he
    by_cases hi : i ∈ sh.handles
    · obtain ⟨c, hc, rfl⟩ := List.mem_map.1 hi
      rw [hentry hc] at he
      obtain rfl := Option.some.inj he
      exact List.mem_map.2 ⟨c, hc, rfl⟩
    · rw [h.entryAt?_eq_none hi] at he
      cases he
  · intro hi
    obtain ⟨c, hc, heq⟩ := List.mem_map.1 hi
    obtain ⟨rfl, rfl⟩ := Prod.mk.inj heq
    exact hentry hc

theorem neighbor (h : t.Holds ns sh) {i : Handle} {e : K × V} (hi : (i, e) ∈ sh.items) (a : Side) :
    ∃ b c, sh.items = b ++ (i, e) :: c ∧
      t.neighbor a i = .ok ((match a with
        | .left => b.getLast?
        | .right => c.head?).map Prod.fst) := by
  obtain ⟨c, hc, hitem⟩ := List.mem_map.1 hi
  obtain ⟨rfl, rfl⟩ := Prod.mk.inj hitem
  obtain ⟨l, r, π, rfl⟩ := Shape.exists_within hc
  refine ⟨π.before.map Cell.item ++ l.items, r.items ++ π.after.map Cell.item, ?_, ?_⟩
  · rw [Shape.items_within, Shape.items_node]
    simp only [List.append_assoc, List.cons_append, Cell.item]
  · cases a with
    | left =>
      have hshows : t.Shows ns ((Shape.join .left l c r).within π) := h.shows
      apply hshows.neighbor.trans
      rw [Side.along, Path.beyond, List.map_reverse, ← List.reverse_append, List.head?_reverse]
    | right =>
      have hshows : t.Shows ns ((Shape.join .right r c l).within π) := h.shows
      exact hshows.neighbor

theorem report (h : t.Holds ns sh) (es : List Event) : (t.report es).Holds ns sh :=
  ⟨h.shows.report es, h.childless, h.colored, h.sorted, h.size, h.handles, h.vacant, h.fresh, h.width⟩

end Holds

end Tree
end RedBlack
