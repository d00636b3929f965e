import RedBlack.Proofs.Histories

/-! The invariants of a red-black tree in an arena, after any calls: links, colors, order and count. -/
namespace RedBlack
variable {K V : Type}

structure Tree.Valid (t : Tree K V) : Prop where
  nilSlot : ∃ p, t.arena.slot? .nil = some ⟨none, none, p, .black, none⟩
  /-- The reading misses nothing: its root is where the tree starts, and every slot that it comes by has
  the entry, the color, the children and the parent which it shows. The root hangs from the nil slot. -/
  root : t.root = t.shape.root
  links : t.shape.Lies t.arena.slot? .nil
  nodup : (Handle.nil :: t.shape.handles).Nodup
  rootBlack : t.shape.color = .black
  noRedRed : t.shape.NoRedRed
  balanced : ∃ n, t.shape.Balanced n
  increasing : (t.inorder.map (·.2.1)).Pairwise fun a b => t.order.compare a b = .lt
  count : t.size = t.shape.cells.length
  room : t.size < t.arena.slots.size

variable {t t' : Tree K V}

theorem Tree.Holds.valid {ns : Slot K V} {sh : Shape K V} (h : t.Holds ns sh) : t.Valid := by
  obtain rfl := h.shape_eq
  obtain ⟨left, right, parent, color, entry⟩ := ns
  obtain rfl : left = none := h.childless.1
  obtain rfl : right = none := h.childless.2
  obtain rfl : color = .black := h.shows.black
  obtain rfl : entry = none := h.shows.keyless
  refine ⟨⟨parent, h.shows.nil⟩, h.shows.root, h.shows.lies, h.shows.nodup, h.colored.root,
    h.colored.noRedRed, h.colored.balanced, ?_, ?_, ?_⟩
  · exact List.Pairwise.map _ (fun _ _ hab => hab) h.sorted
  · rw [h.size, Shape.items, List.length_map]
  · have hlen := h.shows.fits.length_lt_reach
    rw [Shape.handles_eq_map_items, List.length_map, ← h.size] at hlen
    exact hlen

theorem Tree.Sound.valid (hs : t.Sound) : t.Valid := by
  obtain ⟨ns, h⟩ := hs.holds
  exact h.valid

theorem Tree.Turns.size_deleted {h : Handle} (hs : t.Sound) (ht : t.Turns t' (.deleted h)) :
    t'.size + 1 = t.size := by
  have hlive : t'.size = (t.stock.give h).live := congrArg Stock.live ht.stock
  have hpos : 0 < t.size := by
    rw [hs.size_eq, ← List.length_map (f := Prod.fst)]
    exact List.length_pos_of_mem ht.items.1
  rw [hlive, Stock.give]
  split
  · exact (show t.size = 1 from ‹_›).symm
  · exact Nat.sub_add_cancel hpos

/-- After any calls, also such as fail, the tree is valid. A call fails only where a key is present or
the arena full; it changes nothing then. A deletion always has an entry to count down for. -/
theorem Client.valid_run (order : KeyOrder K) [Std.TransCmp order.compare] (w : Width)
    (calls : List (Call K V)) :
    let s := (fresh order w).run calls
    s.tree.Valid ∧
      (∀ c e, (s.step c).1 = .error e →
        (s.step c).2.tree = s.tree ∧ (e = .duplicateKey ∨ e = .arenaFull)) ∧
      ∀ c h, s.effect c = .deleted h → (s.step c).2.tree.size + 1 = s.tree.size := by
  have hs := (sound_fresh (V := V) order w).run calls
  refine ⟨hs.tree.valid, fun c e he => (hs.step c).2.2 e he, ?_⟩
  intro c h he
  have hturns := (hs.step c).2.1
  rw [he] at hturns
  exact hturns.size_deleted hs.tree

theorem Client.valid_run_natural :
    let s : Client Nat String :=
      (fresh .natural .halfWord).run [.insert 2 "b", .insert 1 "a", .delete ⟨1⟩]
    s.tree.Valid ∧ (s.step (.insert 1 "c")).2.tree = s.tree := by
  obtain ⟨hvalid, hfail, -⟩ := valid_run (.natural : KeyOrder Nat) .halfWord
    [.insert 2 "b", .insert 1 "a", .delete ⟨1⟩]
  exact ⟨hvalid, (hfail (.insert 1 "c") .duplicateKey rfl).1⟩

end RedBlack
