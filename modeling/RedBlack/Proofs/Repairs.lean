import RedBlack.Proofs.Histories

/-! The two repairs as operations of their own: what each of them asks of a tree, what it leaves, and that
insertions and deletions ask for a repair only where it can be made. Keys play no part in a repair, and
nothing is said of them. -/
namespace RedBlack
variable {K V : Type}

namespace Tree

structure Regular (t : Tree K V) (ns : Slot K V) : Prop where
  shows : t.Shows ns t.shape
  colored : t.shape.WellColored

/-- The place `x` lacks a black entry above it, and nothing else is wrong. If there is no entry at the
place, the nil slot says where it is. -/
structure LacksAt (t : Tree K V) (ns : Slot K V) (x : Shape K V) (π : Path K V) : Prop where
  shows : t.Shows ns (x.within π)
  names : ns.Names x π.above
  lacks : LacksBlack x π

/-- The red entry `z` may be the child of a red entry, or the root, and nothing else is wrong. -/
structure RedAt (t : Tree K V) (ns : Slot K V) (z : Shape K V) (π : Path K V) : Prop where
  shows : t.Shows ns (z.within π)
  red : RedBelow z π

/-- All items stay where they are, in their order. Links and colors change, and rotations are reported;
that is all. -/
structure Mended (t u : Tree K V) (ns : Slot K V) : Prop where
  regular : u.Regular ns
  items : u.inorder = t.inorder
  still : ∃ rs, (t.report (Event.rotations rs)).Redrawn u (.nil :: t.shape.handles)

/-- A slot with a new leaf, outside of a tree that is in order. -/
structure Awaits (t : Tree K V) (ns : Slot K V) (z : Handle) (k : K) (v : V) : Prop where
  regular : t.Regular ns
  leaf : t.arena.slot? z = some (.leaf k v)
  apart : z ∉ .nil :: t.shape.handles

variable {t : Tree K V} {ns : Slot K V} {sh sh' : Shape K V} {rs : List (Side × Handle)}

theorem Shows.regular (h : t.Shows ns sh) (hc : sh.WellColored) : t.Regular ns := by
  obtain rfl := h.shape_eq
  exact ⟨h, hc⟩

theorem Shows.mended (h : t.Shows ns sh) (hrotates : sh.RotatesBy rs sh') (hc : sh'.WellColored) :
    t.Mended ((t.report (Event.rotations rs)).draw ns sh') ns := by
  have hfits := (h.fits.of_items hrotates.items).report (Event.rotations rs)
  refine ⟨hfits.shows.regular hc, ?_, rs, (Redrawn.refl _ _).draw ns ?_⟩
  · rw [hfits.shows.inorder_eq, h.inorder_eq, hrotates.items]
  · rw [h.shape_eq, Shape.handles_eq_of_items hrotates.items]
    exact fun _ hi => hi

theorem LacksAt.mended {x : Shape K V} {π : Path K V} (h : t.LacksAt ns x π) :
    ∃ u, (Edit.settleLack x.root).run t = .ok () u ∧ t.Mended u ns := by
  obtain ⟨sh, rs, hrotates, hsh, -, hrun⟩ := h.lacks.run_settleLack
  obtain ⟨-, hsettle⟩ := hrun h.shows.fits h.names
  rw [h.shows.draw_self] at hsettle
  exact ⟨_, hsettle, h.shows.mended hrotates hsh⟩

theorem RedAt.mended {z : Shape K V} {π : Path K V} (h : t.RedAt ns z π) :
    ∃ u, (Edit.settleRed z.root).run t = .ok () u ∧ t.Mended u ns := by
  obtain ⟨sh, rs, hrotates, hsh, -, hrun⟩ := h.red.run_settleRed
  obtain ⟨-, hsettle⟩ := hrun h.shows.fits
  rw [h.shows.draw_self] at hsettle
  exact ⟨_, hsettle, h.shows.mended hrotates hsh⟩

theorem Regular.exists_splice (h : t.Regular ns) {i : Handle} {e : K × V} (hi : (i, e) ∈ t.inorder) :
    ∃ x π missing ns' u, (Edit.splice i).run t = .ok (x.root, missing) u ∧
      u.inorder = t.inorder.filter (fun y => y.1 ≠ i) ∧
      (missing = .black → u.LacksAt ns' x π) ∧ (missing = .red → u.Regular ns') := by
  obtain ⟨hshows, hwc⟩ := h
  rw [inorder] at hi ⊢
  generalize t.shape = sh at hshows hwc hi
  obtain ⟨z, hz, heq⟩ := List.mem_map.1 hi
  obtain ⟨rfl, rfl⟩ := Prod.mk.inj heq
  obtain ⟨l, r, π, rfl⟩ := Shape.exists_within hz
  obtain ⟨x, ρ, missing, hitems, hmisses, -, hsplice⟩ := RedBlack.exists_splice hwc
  have hsplit : ((Shape.node l z r).within π).items = π.before.map Cell.item ++ l.items ++
      (z.handle, z.entry) :: (r.items ++ π.after.map Cell.item) := by
    simp only [Shape.items_within, Shape.items_node, List.append_assoc, List.cons_append]
    rfl
  have hleft := ((hshows.fits.sublist (Shape.handles_erased_sublist hsplit hitems)).hung x ρ.above).shows
  refine ⟨x, ρ, missing, ns.hung x ρ.above, _, hsplice hshows, ?_, fun hblack => ?_, fun hred => ?_⟩
  · rw [hleft.inorder_eq, hitems, hshows.filter_erased hsplit hitems]
  · exact ⟨hleft, ns.names_hung x ρ.above, hmisses.lacksBlack hblack⟩
  · exact hleft.regular (hmisses.wellColored hred)

theorem Awaits.exists_linkLeaf {i : Handle} {k : K} {v : V} (h : t.Awaits ns i k v) :
    ∃ z π u, z.root = i ∧ (Edit.linkLeaf i).run t = .ok () u ∧ u.RedAt ns z π ∧
      ∃ b c, t.inorder = b ++ c ∧ u.inorder = b ++ (i, k, v) :: c := by
  obtain ⟨⟨hshows, hwc⟩, hleaf, hapart⟩ := h
  obtain ⟨π, hsh, -, hrun, hlinked⟩ := hshows.exists_place hleaf hapart
  rw [hsh] at hwc
  refine ⟨.node .nil ⟨i, .red, (k, v)⟩ .nil, π, _, rfl, hrun, ⟨hlinked, hwc.redBelow i (k, v)⟩,
    π.before.map Cell.item, π.after.map Cell.item, ?_, ?_⟩
  · rw [inorder, hsh, Shape.items_within, Shape.items_nil, List.append_nil]
  · rw [hlinked.inorder_eq, Shape.items_within]
    simp [Shape.items_node, Cell.item]

theorem Sound.awaits (hs : t.Sound) {k : K} {v : V} {i : Handle} {s : Tree K V}
    (hrun : (Edit.allocate (.leaf k v)).run t = .ok i s) :
    s.inorder = t.inorder ∧ ∃ ns, s.Awaits ns i k v := by
  obtain ⟨ns, h⟩ := hs.holds
  by_cases hfull : t.stock.Exhausted t.width
  · rw [h.run_allocate_exhausted _ hfull] at hrun
    cases hrun
  · obtain ⟨a, hallocate, ha⟩ := h.run_allocate (.leaf k v) hfull
    rw [hallocate] at hrun
    cases hrun
    have hshows := h.shows.supplied ha
    refine ⟨hshows.inorder_eq, ns, hshows.regular h.colored, ha.slot, ?_⟩
    rw [hshows.shape_eq]
    exact ha.unused

end Tree

/-- Whatever lacks one black entry above one place is mended there. A deletion from a tree that is in order
asks for this only where a black entry went missing, and comes to such a place then; where it does not ask,
the tree is in order without it. -/
theorem Edit.settleLack_mends :
    (∀ (t : Tree K V) ns x π, t.LacksAt ns x π →
        ∃ u, (Edit.settleLack x.root).run t = .ok () u ∧ t.Mended u ns) ∧
      ∀ (t : Tree K V) ns i e, t.Regular ns → (i, e) ∈ t.inorder →
        ∃ x π missing ns' u, (Edit.splice i).run t = .ok (x.root, missing) u ∧
          u.inorder = t.inorder.filter (fun y => y.1 ≠ i) ∧
          (missing = .black → u.LacksAt ns' x π) ∧ (missing = .red → u.Regular ns') :=
  ⟨fun _ _ _ _ h => h.mended, fun _ _ _ _ h hi => h.exists_splice hi⟩

/-- Where the place is empty and its sibling red, with black children of which the near one has a red child on
the near side, three rotations are needed. Of three black entries, one on a side is then taken out. -/
theorem Edit.settleLack_mends_nil :
    let leaf (i : Nat) (color : Color) (k : Int64) : Shape Int64 String :=
      .node .nil ⟨⟨i⟩, color, k, ""⟩ .nil
    let ns : Slot Int64 String := { Slot.vacant with parent := some ⟨1⟩ }
    let π : Path Int64 String := [⟨.left, ⟨⟨1⟩, .black, 2, ""⟩,
      .node (.node (leaf 5 .red 3) ⟨⟨3⟩, .black, 4, ""⟩ .nil) ⟨⟨2⟩, .red, 6, ""⟩ (leaf 4 .black 8)⟩]
    let blank : Tree Int64 String :=
      (Tree.empty .natural .halfWord).withArena ⟨Array.replicate 6 .vacant, []⟩
    let t := blank.draw ns (Shape.nil.within π)
    let s := blank.draw ns (.node (leaf 2 .black 1) ⟨⟨1⟩, .black, 2, ""⟩ (leaf 3 .black 3))
    t.LacksAt ns .nil π ∧ (∃ u, (Edit.settleLack .nil).run t = .ok () u ∧ t.Mended u ns) ∧
      ((Edit.settleLack .nil).outcome t).2.journal.toList =
        [.rotated .left ⟨1⟩, .rotated .right ⟨3⟩, .rotated .left ⟨1⟩] ∧
      (s.Regular ns ∧ (⟨2⟩, 1, "") ∈ s.inorder) ∧
      ∃ x ρ ns' u, (Edit.splice ⟨2⟩).run s = .ok (x.root, .black) u ∧ u.LacksAt ns' x ρ := by
  intro leaf ns π blank t s
  have hlacks : t.LacksAt ns .nil π := by
    have hfits : blank.Fits ns (Shape.nil.within π) :=
      ⟨rfl, rfl, by decide +kernel, by decide +kernel⟩
    refine ⟨hfits.shows, fun _ => rfl, trivial, ?_, rfl, 0, rfl, ?_⟩
    · simp [π, leaf, Path.NoRedRed, Shape.NoRedRed, Shape.color]
    · simp [π, leaf, Path.Balanced, Shape.Balanced, Color.weight]
  have hregular : s.Regular ns := by
    have hfits : blank.Fits ns (.node (leaf 2 .black 1) ⟨⟨1⟩, .black, 2, ""⟩ (leaf 3 .black 3)) :=
      ⟨rfl, rfl, by decide +kernel, by decide +kernel⟩
    refine hfits.shows.regular ⟨rfl, ?_, 2, ?_⟩
    · simp [leaf, Shape.NoRedRed]
    · simp [leaf, Shape.Balanced, Color.weight]
  have hmem : (⟨2⟩, 1, "") ∈ s.inorder := by decide +kernel
  obtain ⟨hmends, hsplices⟩ := Edit.settleLack_mends (K := Int64) (V := String)
  obtain ⟨x, ρ, missing, ns', u, hrun, -, hblack, -⟩ := hsplices s ns ⟨2⟩ (1, "") hregular hmem
  have hmissing : ((Edit.splice ⟨2⟩).outcome s).1.map Prod.snd = .ok .black := by decide +kernel
  rw [Act.outcome_ok hrun] at hmissing
  obtain rfl : missing = .black := Except.ok.inj hmissing
  exact ⟨hlacks, hmends t ns .nil π hlacks, by decide +kernel, ⟨hregular, hmem⟩, x, ρ, ns', u, hrun,
    hblack rfl⟩

/-- Whatever has one red entry below a red one, or at the root, is mended there. An insertion into a tree that
is in order comes to such an entry once the new leaf hangs; the leaf has a slot that the tree did not use. -/
theorem Edit.settleRed_mends :
    (∀ (t : Tree K V) ns z π, t.RedAt ns z π →
        ∃ u, (Edit.settleRed z.root).run t = .ok () u ∧ t.Mended u ns) ∧
      (∀ (t : Tree K V) ns i k v, t.Awaits ns i k v →
        ∃ z π u, z.root = i ∧ (Edit.linkLeaf i).run t = .ok () u ∧ u.RedAt ns z π ∧
          ∃ b c, t.inorder = b ++ c ∧ u.inorder = b ++ (i, k, v) :: c) ∧
      ∀ (t : Tree K V) k v i s, t.Sound → (Edit.allocate (.leaf k v)).run t = .ok i s →
        s.inorder = t.inorder ∧ ∃ ns, s.Awaits ns i k v :=
  ⟨fun _ _ _ _ h => h.mended, fun _ _ _ _ _ h => h.exists_linkLeaf, fun _ _ _ _ _ hs => hs.awaits⟩

theorem Edit.settleRed_mends_lifted :
    let leaf (i : Nat) (color : Color) (k : Int64) : Shape Int64 String :=
      .node .nil ⟨⟨i⟩, color, k, ""⟩ .nil
    let z := leaf 8 .red 7
    let π : Path Int64 String := [⟨.left, ⟨⟨7⟩, .red, 8, ""⟩, .nil⟩,
      ⟨.right, ⟨⟨5⟩, .black, 6, ""⟩, leaf 6 .red 5⟩, ⟨.right, ⟨⟨2⟩, .red, 4, ""⟩, leaf 4 .black 2⟩,
      ⟨.left, ⟨⟨1⟩, .black, 10, ""⟩, leaf 3 .black 14⟩]
    let blank : Tree Int64 String :=
      (Tree.empty .natural .halfWord).withArena ⟨Array.replicate 9 .vacant, []⟩
    let t := blank.draw .vacant (z.within π)
    let s := ((Client.fresh .natural .halfWord : Client Int64 String).run
      [.insert 2 "b", .insert 1 "a", .insert 3 "c"]).tree
    t.RedAt .vacant z π ∧ (∃ u, (Edit.settleRed z.root).run t = .ok () u ∧ t.Mended u .vacant) ∧
      ((Edit.settleRed z.root).outcome t).2.journal.toList =
        [.rotated .left ⟨2⟩, .rotated .right ⟨1⟩] ∧
      ∃ s' ns x ρ u, (Edit.allocate (.leaf 4 "d")).run s = .ok ⟨4⟩ s' ∧ s'.Awaits ns ⟨4⟩ 4 "d" ∧
        x.root = ⟨4⟩ ∧ (Edit.linkLeaf ⟨4⟩).run s' = .ok () u ∧ u.RedAt ns x ρ := by
  intro leaf z π blank t s
  have hred : t.RedAt .vacant z π := by
    have hfits : blank.Fits .vacant (z.within π) := ⟨rfl, rfl, by decide +kernel, by decide +kernel⟩
    refine ⟨hfits.shows, rfl, ?_, ?_, rfl, 0, ?_, ?_⟩
    · simp [z, leaf, Shape.NoRedRed, Shape.color]
    · simp [π, leaf, Path.NoRedRed, Shape.NoRedRed, Shape.color]
    · simp [z, leaf, Shape.Balanced, Color.weight]
    · simp [π, leaf, Path.Balanced, Shape.Balanced, Color.weight]
  have hs : s.Sound := ((Client.sound_fresh .natural .halfWord).run _).tree
  have hpick : s.stock.pick = ⟨4⟩ := by decide +kernel
  have hroom : ¬ s.stock.Exhausted s.width := by decide +kernel
  obtain ⟨ns, h⟩ := hs.holds
  obtain ⟨a, hallocate, -⟩ := h.run_allocate (.leaf 4 "d") hroom
  rw [hpick] at hallocate
  obtain ⟨hmends, hlinks, hawaits⟩ := Edit.settleRed_mends (K := Int64) (V := String)
  obtain ⟨-, ns', ha⟩ := hawaits s 4 "d" ⟨4⟩ _ hs hallocate
  obtain ⟨x, ρ, u, hx, hrun, hu, -⟩ := hlinks _ ns' ⟨4⟩ 4 "d" ha
  exact ⟨hred, hmends t .vacant z π hred, by decide +kernel, _, ns', x, ρ, u, hallocate, ha, hx, hrun, hu⟩

end RedBlack
