import RedBlack.Proofs.Rotation
import RedBlack.Tree.Delete

/-! Taking an entry out of the links: its one child goes up, or its successor takes its place. The slot
of the entry itself stays as it is. -/
namespace RedBlack
variable {K V : Type}

/-- The nil slot after the root of a shape has been hung from `p`: if there is no entry, it is the nil
slot that hangs there. -/
def Slot.hung (ns : Slot K V) (x : Shape K V) (p : Handle) : Slot K V :=
  if x.isNil then ns.withParent p else ns

namespace Tree

def replant (t : Tree K V) (π : Path K V) (y : Handle) : Tree K V :=
  (t.rehang π y).put y (Slot.withParent π.above)

def takenOver (t : Tree K V) (L : Shape K V) (z y : Cell K V) (π : Path K V) : Tree K V :=
  (((t.replant π y.handle).put y.handle (Slot.withChild .left L.root)).put L.root
    (Slot.withParent y.handle)).put y.handle (Slot.withColor z.color)

/-- `z` hangs below the path with `L` on its left, and `y` hangs nowhere, with `R` on its right. -/
structure Poised (t : Tree K V) (ns : Slot K V) (L : Shape K V) (z y : Cell K V) (R : Shape K V)
    (π : Path K V) : Prop where
  nil : t.arena.slot? .nil = some ns
  keyless : ns.entry = none
  black : ns.color = .black
  old : ∃ r, t.arena.slot? z.handle = some (z.slot .left L.root r π.above)
  new : ∃ l p, t.arena.slot? y.handle = some (y.slot .left l R.root p)
  left : L.Lies t.arena.slot? z.handle
  right : R.Lies t.arena.slot? y.handle
  path : π.Lies t.arena.slot? z.handle
  root : t.root = ((Shape.node L z R).within π).root
  nodup : (.nil :: z.handle :: y.handle :: (L.handles ++ R.handles ++ π.handles)).Nodup

section replant
variable {t t' : Tree K V} {hs : List Handle} {π : Path K V} {y i : Handle}

theorem slot?_replant_of_ne (t : Tree K V) (hπ : π ≠ [] → π.above ≠ i) (hy : y ≠ i) :
    (t.replant π y).arena.slot? i = t.arena.slot? i := by
  rw [replant, slot?_put_of_ne _ _ hy, slot?_rehang_of_ne _ _ hπ]

theorem slot?_replant_self (t : Tree K V) (hπ : π ≠ [] → π.above ≠ y) :
    (t.replant π y).arena.slot? y = (t.arena.slot? y).map (Slot.withParent π.above) := by
  rw [replant, slot?_put_self, slot?_rehang_of_ne _ _ hπ]

theorem Redrawn.replant (h : t.Redrawn t' hs) (hπ : π ≠ [] → π.above ∈ hs) (hy : y ∈ hs) :
    t.Redrawn (t'.replant π y) hs := (h.rehang y hπ).put _ hy

end replant
end Tree

namespace Edit
variable {t : Tree K V} {ns : Slot K V} {π : Path K V}

theorem run_transplant {x y : Handle} (hp : t.parent x = .ok π.above)
    (hn : t.isNil π.above = .ok π.isEmpty) (hs : ∀ s ∈ π.head?, t.sideOf x = .ok s.side)
    (habove : (t.arena.slot? π.above).isSome) (hx : π ≠ [] → π.above ≠ x)
    (hy : (t.arena.slot? y).isSome) : (transplant x y).run t = .ok () (t.replant π y) := by
  have hparent : (t.rehang π y).parent x = .ok π.above := by
    cases π with
    | nil => exact hp
    | cons s π =>
      obtain ⟨r, hr, hp⟩ := Tree.parent_eq_ok.1 hp
      refine Tree.parent_eq ((Tree.slot?_rehang_of_ne _ _ hx).trans hr) hp
  have hy' : ((t.rehang π y).arena.slot? y).isSome := by
    cases π with
    | nil => exact hy
    | cons s π =>
      rw [Tree.rehang, Tree.slot?_put]
      split
      · rwa [Option.isSome_map]
      · exact hy
  refine Act.run_then (run_relink hp hn hs habove) (Act.look_then hparent ?_)
  exact Tree.run_modifySlot_eq _ hy'

theorem run_transplant_root {sh : Shape K V} (h : t.Shows ns (sh.within π)) (hne : sh ≠ .nil)
    {y : Handle} (hy : (t.arena.slot? y).isSome) :
    (transplant sh.root y).run t = .ok () (t.replant π y) := by
  have hdisjoint := (List.nodup_append.1 (List.nodup_cons.1 h.nodup_focus).2).2.2
  have hroot := Shape.root_mem_handles hne
  have hparent := h.parent_root hne
  refine run_transplant hparent h.isNil_above (h.sideOf_above hne hparent rfl) h.slot_above ?_ hy
  intro hπ heq
  exact hdisjoint _ hroot _ (Path.above_mem_handles hπ) heq.symm

end Edit

namespace Tree
variable {t : Tree K V} {ns : Slot K V} {a : Side} {x L R : Shape K V} {z y : Cell K V} {π : Path K V}

theorem Shows.replant (h : t.Shows ns ((Shape.join a x z .nil).within π)) :
    (t.replant π x.root).Shows (ns.hung x π.above) (x.within π) := by
  have hperm := (Shape.handles_join_perm a x z .nil).append_right π.handles
  rw [Shape.handles_nil, List.append_nil] at hperm
  have hd := (hperm.cons _).nodup_iff.1 h.nodup_focus
  have hleft : (Handle.nil :: x.handles ++ π.handles).Nodup :=
    ((List.sublist_cons_self z.handle _).cons_cons Handle.nil).nodup hd
  obtain ⟨hxs, hπs, hne⟩ := List.nodup_append.1 hleft
  obtain ⟨hlies, hπ⟩ := (Shape.lies_within _ π).1 h.lies
  obtain ⟨hz, hx, -⟩ := (Shape.lies_join ..).1 hlies
  rw [Shape.root_join] at hπ
  have habove {i : Handle} (hi : i ∈ Handle.nil :: x.handles) (hπ : π ≠ []) : π.above ≠ i :=
    (hne i hi _ (Path.above_mem_handles hπ)).symm
  have hπx : π ≠ [] → π.above ≠ x.root := habove x.root_mem
  refine ⟨?_, ?_, ?_, ?_, (Shape.lies_within _ π).2 ⟨?_, ?_⟩, ?_⟩
  · cases π with
    | nil => rfl
    | cons s π => exact h.root.trans (Shape.root_within_cons ..)
  · cases x with
    | nil =>
      rw [Shape.root_nil] at hπx ⊢
      rw [slot?_replant_self _ hπx, h.nil]
      rfl
    | node l c r =>
      have hroot : (Shape.node l c r).root ≠ Handle.nil := by
        intro heq
        exact (List.nodup_cons.1 hxs).1 (heq ▸ Shape.root_mem_handles fun h => nomatch h)
      rw [slot?_replant_of_ne _ (habove List.mem_cons_self) hroot, h.nil]
      rfl
  · unfold Slot.hung
    split <;> exact h.keyless
  · unfold Slot.hung
    split <;> exact h.black
  · refine hx.reparent hxs.of_cons (fun _ => slot?_replant_self _ hπx) fun i hi hir => ?_
    exact slot?_replant_of_ne _ (habove (List.mem_cons_of_mem _ hi)) (Ne.symm hir)
  · cases π with
    | nil => exact trivial
    | cons s π =>
      have hs : s.cell.handle ≠ x.root := hπx (List.cons_ne_nil s π)
      refine hπ.rehang hπs ?_ fun i hi his => ?_
      · rw [Tree.replant, slot?_put_of_ne _ _ hs.symm, slot?_rehang_cons]
      · exact slot?_replant_of_ne _ (fun _ => Ne.symm his) (hne _ x.root_mem i hi)
  · exact ((Shape.handles_within_perm x π).cons _).nodup_iff.2 hleft

theorem Shows.run_transplant (h : t.Shows ns ((Shape.join a x z .nil).within π)) :
    (Edit.transplant z.handle x.root).run t =
      .ok () (t.draw (ns.hung x π.above) (x.within π)) := by
  have hx : t.Shows ns (x.within (⟨a, z, .nil⟩ :: π)) := h
  have hrun := Edit.run_transplant_root h (Shape.join_ne_nil a x z .nil) hx.slot_root
  rw [Shape.root_join] at hrun
  rw [hrun]
  have hredrawn := (Redrawn.refl t _).replant (fun _ => Shape.above_mem_focus x π)
    (Shape.root_mem_focus x π)
  exact congrArg _ (h.replant.eq_draw hredrawn)

namespace Poised

theorem apart (h : t.Poised ns L z y R π) : Apart z y L π R.handles := .of_nodup h.nodup

theorem isNil_above (h : t.Poised ns L z y R π) : t.isNil π.above = .ok π.isEmpty := by
  cases π with
  | nil =>
    rw [Path.above_nil, Tree.isNil_eq h.nil, h.keyless]
    rfl
  | cons s π =>
    rw [Path.above_cons, Tree.isNil_eq h.path.1, Cell.entry_slot]
    rfl

theorem slot_above (h : t.Poised ns L z y R π) : (t.arena.slot? π.above).isSome := by
  cases π with
  | nil =>
    rw [Path.above_nil, h.nil]
    rfl
  | cons s π =>
    rw [Path.above_cons, h.path.1]
    rfl

theorem sideOf_old (h : t.Poised ns L z y R π) : ∀ s ∈ π.head?, t.sideOf z.handle = .ok s.side := by
  intro s hs
  cases π with
  | nil => cases hs
  | cons r π =>
    cases hs
    obtain ⟨i, hz⟩ := h.old
    refine sideOf_eq (parent_eq hz (Cell.parent_slot ..)) (child_eq _ h.path.1 (Cell.child_slot ..))
      (child_eq _ h.path.1 (Cell.child_other_slot ..)) (h.apart.path _ ?_).1.symm
    rcases List.mem_cons.1 s.sibling.root_mem with hnil | hmem
    · exact hnil ▸ List.mem_cons_self
    · exact List.mem_cons_of_mem _ (List.mem_cons_of_mem _ (List.mem_append_left _ hmem))

theorem run_takeOver (h : t.Poised ns L z y R π) (hL : L ≠ .nil) :
    (Edit.takeOver z.handle y.handle).run t = .ok () (t.takenOver L z y π) := by
  obtain ⟨i, hz⟩ := h.old
  obtain ⟨j, p, hy⟩ := h.new
  obtain ⟨hLz, hLy⟩ := h.apart.root_ne
  obtain ⟨hπz, hπy⟩ := h.apart.above_ne
  have hzy := h.apart.cells
  have hLπ := h.apart.root_ne_above hL
  obtain ⟨l, hl⟩ := Option.isSome_iff_exists.1 (h.left.isSome (Shape.root_mem_handles hL))
  let u₁ := t.replant π y.handle
  let u₂ := u₁.put y.handle (Slot.withChild .left L.root)
  let u₃ := u₂.put L.root (Slot.withParent y.handle)
  have hz₁ : u₁.arena.slot? z.handle = some (z.slot .left L.root i π.above) :=
    (slot?_replant_of_ne _ (fun _ => hπz) hzy.symm).trans hz
  have hz₃ : u₃.arena.slot? z.handle = some (z.slot .left L.root i π.above) := by
    rw [slot?_put_of_ne _ _ hLz, slot?_put_of_ne _ _ hzy.symm, hz₁]
  have hy₁ : (u₁.arena.slot? y.handle).isSome := by
    rw [slot?_replant_self _ fun _ => hπy, hy]
    rfl
  have hl₂ : (u₂.arena.slot? L.root).isSome := by
    rw [slot?_put_of_ne _ _ hLy.symm, slot?_replant_of_ne _ (fun _ => hLπ.symm) hLy.symm, hl]
    rfl
  have hy₃ : (u₃.arena.slot? y.handle).isSome := by
    rwa [slot?_put_of_ne _ _ hLy, slot?_put_self, Option.isSome_map]
  have hy' : (t.arena.slot? y.handle).isSome := hy ▸ rfl
  refine Act.run_then (Edit.run_transplant (parent_eq hz (Cell.parent_slot ..)) h.isNil_above
    h.sideOf_old h.slot_above (fun _ => hπz) hy') ?_
  refine Act.look_then (child_eq .left hz₁ (Cell.child_slot ..)) ?_
  apply Act.run_then (run_modifySlot_eq _ hy₁)
  apply Act.run_then (run_modifySlot_eq _ hl₂)
  refine Act.look_then (color_eq hz₃) ?_
  rw [Cell.color_slot]
  exact run_modifySlot_eq _ hy₃

theorem slot?_takenOver_of_ne {i : Handle} (hπ : π ≠ [] → π.above ≠ i) (hy : y.handle ≠ i)
    (hL : L.root ≠ i) : (t.takenOver L z y π).arena.slot? i = t.arena.slot? i := by
  rw [takenOver, slot?_put_of_ne _ _ hy, slot?_put_of_ne _ _ hL, slot?_put_of_ne _ _ hy,
    slot?_replant_of_ne _ hπ hy]

theorem slot_takenOver (h : t.Poised ns L z y R π) :
    (t.takenOver L z y π).arena.slot? y.handle =
      some ((y.painted z.color).slot .left L.root R.root π.above) := by
  obtain ⟨j, p, hy⟩ := h.new
  obtain ⟨-, hLy⟩ := h.apart.root_ne
  obtain ⟨-, hπy⟩ := h.apart.above_ne
  rw [Tree.takenOver, slot?_put_self, slot?_put_of_ne _ _ hLy, slot?_put_self,
    slot?_replant_self _ fun _ => hπy, hy]
  simp only [Option.map_some, Cell.withParent_slot, Cell.withChild_slot, Cell.withColor_slot]

theorem left_takenOver (h : t.Poised ns L z y R π) (hL : L ≠ .nil) :
    L.Lies (t.takenOver L z y π).arena.slot? y.handle := by
  obtain ⟨-, hLy⟩ := h.apart.root_ne
  have hLπ := h.apart.root_ne_above hL
  refine h.left.reparent h.apart.between_nodup (fun _ => ?_) fun i hi hir => ?_
  · rw [Tree.takenOver, slot?_put_of_ne _ _ hLy.symm, slot?_put_self,
      slot?_put_of_ne _ _ hLy.symm, slot?_replant_of_ne _ (fun _ => hLπ.symm) hLy.symm]
  · refine slot?_takenOver_of_ne (fun _ => ?_) ?_ (Ne.symm hir)
    · exact (h.apart.between_path i hi _ (Path.above_mem π)).symm
    · exact (h.apart.between i (List.mem_cons_of_mem _ hi)).2

theorem path_takenOver (h : t.Poised ns L z y R π) (hL : L ≠ .nil) :
    π.Lies (t.takenOver L z y π).arena.slot? y.handle := by
  cases π with
  | nil => exact trivial
  | cons s π =>
    have hys : y.handle ≠ s.cell.handle := h.apart.above_ne.2.symm
    have hLs : L.root ≠ s.cell.handle := h.apart.root_ne_above hL
    refine h.path.rehang h.apart.path_nodup ?_ fun i hi his => ?_
    · rw [Tree.takenOver, slot?_put_of_ne _ _ hys, slot?_put_of_ne _ _ hLs,
        slot?_put_of_ne _ _ hys, Tree.replant, slot?_put_of_ne _ _ hys, slot?_rehang_cons]
    · refine slot?_takenOver_of_ne (fun _ => Ne.symm his) ?_ ?_
      · exact (h.apart.path i (List.mem_cons_of_mem _ hi)).2
      · exact h.apart.between_path _ (Shape.root_mem_handles hL) i (List.mem_cons_of_mem _ hi)

theorem nodup_takenOver (h : t.Poised ns L z y R π) :
    (.nil :: ((Shape.node L (y.painted z.color) R).within π).handles).Nodup := by
  have hd := h.nodup
  have hperm := (Shape.handles_join_perm .left L (y.painted z.color) R).append_right π.handles
  apply (((Shape.handles_within_perm _ π).trans hperm).cons _).nodup_iff.2
  rw [List.nodup_cons, List.nodup_cons] at hd
  refine List.nodup_cons.2 ⟨fun hn => hd.1 (List.mem_cons_of_mem _ hn), hd.2.2⟩

theorem takenOver (h : t.Poised ns L z y R π) (hL : L ≠ .nil) :
    (t.takenOver L z y π).Shows ns ((Shape.node L (y.painted z.color) R).within π) := by
  have hLroot := Shape.root_mem_handles hL
  have hkeep : ∀ i ∈ Handle.nil :: R.handles,
      (t.takenOver L z y π).arena.slot? i = t.arena.slot? i := by
    intro i hi
    refine slot?_takenOver_of_ne (fun hπ => ?_) (h.apart.others i hi).2 ?_
    · exact h.apart.path_others _ (Path.above_mem_handles hπ) i hi
    · exact h.apart.between_others _ hLroot i hi
  have hR : R.Lies (t.takenOver L z y π).arena.slot? y.handle :=
    h.right.congr fun i hi => hkeep i (List.mem_cons_of_mem _ hi)
  have hnode : (Shape.node L (y.painted z.color) R).Lies (t.takenOver L z y π).arena.slot? π.above :=
    ⟨h.slot_takenOver, h.left_takenOver hL, hR⟩
  have hlies := (Shape.lies_within _ π).2 ⟨hnode, h.path_takenOver hL⟩
  refine ⟨?_, ?_, h.keyless, h.black, hlies, h.nodup_takenOver⟩
  · cases π with
    | nil => rfl
    | cons s π =>
      rw [Tree.takenOver, root_put, root_put, root_put, Tree.replant, root_put, root_rehang_cons,
        h.root]
      exact Shape.root_within_cons ..
  · rw [hkeep _ List.mem_cons_self]
    exact h.nil

end Poised

theorem Redrawn.takenOver {t' : Tree K V} {hs : List Handle} (h : t.Redrawn t' hs) (z : Cell K V)
    (hL : L.root ∈ hs) (hy : y.handle ∈ hs) (hπ : π ≠ [] → π.above ∈ hs) :
    t.Redrawn (t'.takenOver L z y π) hs :=
  (((h.replant hπ hy).put _ hy).put _ hL).put _ hy

section promote
variable {Y : Shape K V} {ρ : Path K V}

theorem Shows.nodup_successor
    (h : t.Shows ns ((Shape.node L z ((Shape.node .nil y Y).within ρ)).within π)) :
    (.nil :: z.handle :: y.handle ::
      (L.handles ++ (Y.within ρ).handles ++ π.handles)).Nodup := by
  have hy : ((Shape.node .nil y Y).within ρ).handles.Perm (y.handle :: (Y.within ρ).handles) :=
    (Shape.handles_within_perm _ ρ).trans ((Shape.handles_within_perm Y ρ).symm.cons _)
  have hz := (Shape.handles_join_perm .left L z ((Shape.node .nil y Y).within ρ)).append_right
    π.handles
  refine ((hz.trans ?_).cons _).nodup_iff.1 h.nodup_focus
  rw [List.cons_append]
  exact (((hy.append_left L.handles).trans List.perm_middle).append_right π.handles).cons _

theorem Poised.eq_draw {t' : Tree K V} (h : t'.Poised ns L z y R π) (hL : L ≠ .nil)
    (hr : t.Redrawn t' (.nil :: ((Shape.node L (y.painted z.color) R).within π).handles)) :
    t'.takenOver L z y π = t.draw ns ((Shape.node L (y.painted z.color) R).within π) := by
  have hmem {i : Handle} (hi : i ∈ y.handle :: (L.handles ++ R.handles) ∨ i ∈ π.handles) :
      i ∈ Handle.nil :: ((Shape.node L (y.painted z.color) R).within π).handles := by
    refine List.mem_cons_of_mem _ ((Shape.handles_within_perm _ π).mem_iff.2 ?_)
    rw [List.mem_append]
    exact hi.imp_left (Shape.handles_join_perm .left L (y.painted z.color) R).mem_iff.2
  refine (h.takenOver hL).eq_draw (hr.takenOver z (hmem (.inl ?_)) (hmem (.inl ?_)) ?_)
  · exact List.mem_cons_of_mem _ (List.mem_append_left _ (Shape.root_mem_handles hL))
  · exact List.mem_cons_self
  · exact fun hπ => hmem (.inr (Path.above_mem_handles hπ))

theorem Shows.run_promote_child (h : t.Shows ns ((Shape.node L z (.node .nil y Y)).within π))
    (hL : L ≠ .nil) :
    (Edit.promote z.handle y.handle).run t = .ok Y.root
      (t.draw (ns.hung Y y.handle) ((Shape.node L (y.painted z.color) Y).within π)) := by
  have hap := Apart.of_nodup (Shows.nodup_successor (ρ := []) h)
  rw [Shape.within_nil] at hap
  obtain ⟨hzY, hyY⟩ := hap.others _ Y.root_mem
  have hy : t.Shows ns ((Shape.node .nil y Y).within (⟨.right, z, L⟩ :: π)) := h
  have hY : t.Shows ns (Y.within (⟨.right, y, .nil⟩ :: ⟨.right, z, L⟩ :: π)) := h
  have hchild : t.child .right y.handle = .ok Y.root := Shows.child_near (a := .right) hy
  have hparent : t.parent y.handle = .ok z.handle := Shows.parent_join (a := .right) hy
  obtain ⟨hlies, hπ⟩ := (Shape.lies_within _ π).1 h.lies
  obtain ⟨hz, hLl, hyl, -, hYl⟩ := hlies
  have hkeep {i : Handle} (hi : Y.root ≠ i) :
      (t.put Y.root (Slot.withParent y.handle)).arena.slot? i = t.arena.slot? i :=
    slot?_put_of_ne _ _ hi
  have hpoised : (t.put Y.root (Slot.withParent y.handle)).Poised (ns.hung Y y.handle) L z y Y π := by
    refine ⟨?_, ?_, ?_, ⟨_, (hkeep hzY.symm).trans hz⟩, ⟨_, _, (hkeep hyY.symm).trans hyl⟩,
      hLl.congr fun i hi => hkeep (hap.between_others i hi _ Y.root_mem).symm, ?_,
      hπ.congr fun i hi => hkeep (hap.path_others i hi _ Y.root_mem).symm, ?_,
      Shows.nodup_successor (ρ := []) h⟩
    · cases Y with
      | nil =>
        rw [Shape.root_nil, slot?_put_self, h.nil]
        rfl
      | node l c r =>
        rw [hkeep (hY.root_ne_nil fun h => nomatch h), h.nil]
        rfl
    · unfold Slot.hung
      split <;> exact h.keyless
    · unfold Slot.hung
      split <;> exact h.black
    · refine hYl.reparent hap.others_nodup (fun _ => slot?_put_self ..) fun i _ hir => ?_
      exact hkeep (Ne.symm hir)
    · rw [root_put, h.root]
      cases π with
      | nil => rfl
      | cons s π => exact Shape.root_within_cons ..
  have hroot := Shape.root_mem_focus Y (⟨.right, y.painted z.color, L⟩ :: π)
  refine Act.look_then hchild (Act.look_then hparent ?_)
  rw [if_pos rfl]
  apply Act.run_then (run_modifySlot_eq _ hY.slot_root)
  apply Act.run_then (hpoised.run_takeOver hL)
  rw [hpoised.eq_draw hL ((Redrawn.refl t _).put _ hroot)]
  rfl

def detached (t : Tree K V) (L : Shape K V) (z y : Cell K V) (Y : Shape K V) (ρ π : Path K V) :
    Tree K V :=
  ((t.replant (ρ ++ ⟨.right, z, L⟩ :: π) Y.root).put y.handle
    (Slot.withChild .right (Y.within ρ).root)).put (Y.within ρ).root (Slot.withParent y.handle)

variable (h : t.Shows ns ((Shape.node L z ((Shape.node .nil y Y).within ρ)).within π)) (hρ : ρ ≠ [])

include h in
theorem Shows.at_successor :
    t.Shows ns ((Shape.join .right Y y .nil).within (ρ ++ ⟨.right, z, L⟩ :: π)) := by
  rw [Shape.within_append]
  exact h

include h hρ in
theorem Shows.replant_successor :
    (t.replant (ρ ++ ⟨.right, z, L⟩ :: π) Y.root).Shows (ns.hung Y ρ.above)
      ((Shape.join .right (Y.within ρ) z L).within π) := by
  have hshows := h.at_successor.replant
  rw [Shape.within_append] at hshows
  obtain ⟨s, ρ, rfl⟩ := List.exists_cons_of_ne_nil hρ
  exact hshows

include hρ in
theorem within_successor_ne_nil : Y.within ρ ≠ .nil := by
  obtain ⟨s, ρ, rfl⟩ := List.exists_cons_of_ne_nil hρ
  exact Shape.within_ne_nil (Shape.join_ne_nil s.side Y s.cell s.sibling) ρ

include hρ in
theorem root_within_successor_mem : (Y.within ρ).root ∈ (Y.within ρ).handles :=
  Shape.root_mem_handles (within_successor_ne_nil hρ)

include hρ in
theorem above_successor_mem : ρ.above ∈ (Y.within ρ).handles :=
  (Shape.handles_within_perm Y ρ).mem_iff.2 (List.mem_append_right _ (Path.above_mem_handles hρ))

include h hρ in
theorem Shows.slot_successor : (t.replant (ρ ++ ⟨.right, z, L⟩ :: π) Y.root).arena.slot? y.handle =
    some (y.slot .left .nil Y.root ρ.above) := by
  have hother := (Apart.of_nodup h.nodup_successor).others
  have habove := (hother _ (List.mem_cons_of_mem _ (above_successor_mem (Y := Y) hρ))).2
  have hroot := (hother _ (Shape.root_mem_focus Y ρ)).2
  have hat := h.at_successor.slot_join
  obtain ⟨s, ρ, rfl⟩ := List.exists_cons_of_ne_nil hρ
  exact (slot?_replant_of_ne _ (fun _ => habove.symm) hroot.symm).trans hat

include h hρ in
theorem Shows.poised_detached :
    (t.detached L z y Y ρ π).Poised (ns.hung Y ρ.above) L z y (Y.within ρ) π := by
  have hap := Apart.of_nodup h.nodup_successor
  have hshows := h.replant_successor hρ
  have hslot := h.slot_successor hρ
  have hroot := List.mem_cons_of_mem Handle.nil (root_within_successor_mem (Y := Y) hρ)
  obtain ⟨hzr, hyr⟩ := hap.others _ hroot
  obtain ⟨hlies, hπ⟩ := (Shape.lies_within _ π).1 hshows.lies
  obtain ⟨hz, hR, hL⟩ := (Shape.lies_join ..).1 hlies
  rw [Shape.root_join] at hπ
  have hkeep {i : Handle} (hi : (Y.within ρ).root ≠ i) (hy : y.handle ≠ i) :
      (t.detached L z y Y ρ π).arena.slot? i =
        (t.replant (ρ ++ ⟨.right, z, L⟩ :: π) Y.root).arena.slot? i := by
    rw [detached, slot?_put_of_ne _ _ hi, slot?_put_of_ne _ _ hy]
  refine ⟨?_, hshows.keyless, hshows.black, ⟨_, (hkeep hzr.symm hap.cells.symm).trans hz⟩, ?_,
    hL.congr ?_, ?_, hπ.congr ?_, ?_, h.nodup_successor⟩
  · have hne := Shows.root_ne_nil (π := ⟨.right, z, L⟩ :: π) hshows (within_successor_ne_nil hρ)
    exact (hkeep hne (hap.others _ List.mem_cons_self).2).trans hshows.nil
  · refine ⟨.nil, ρ.above, ?_⟩
    rw [detached, slot?_put_of_ne _ _ hyr.symm, slot?_put_self, hslot, Option.map_some]
    exact congrArg some (Cell.withChild_other_slot (a := .left) ..)
  · intro i hi
    apply hkeep (hap.between_others i hi _ hroot).symm
    exact (hap.between i (List.mem_cons_of_mem _ hi)).2
  · refine hR.reparent hap.others_nodup (fun _ => ?_) fun i hi hir => ?_
    · rw [detached, slot?_put_self, slot?_put_of_ne _ _ hyr]
    · exact hkeep (Ne.symm hir) (hap.others i (List.mem_cons_of_mem _ hi)).2
  · intro i hi
    apply hkeep (hap.path_others i hi _ hroot).symm
    exact (hap.path i (List.mem_cons_of_mem _ hi)).2
  · rw [detached, root_put, root_put]
    exact hshows.root

include hρ in
theorem redrawn_detached (t : Tree K V) : t.Redrawn (t.detached L z y Y ρ π)
    (Handle.nil :: ((Shape.node L (y.painted z.color) (Y.within ρ)).within π).handles) := by
  have hmem {i : Handle} (hi : i ∈ y.handle :: (L.handles ++ (Y.within ρ).handles)) :
      i ∈ Handle.nil :: ((Shape.node L (y.painted z.color) (Y.within ρ)).within π).handles := by
    refine List.mem_cons_of_mem _ ((Shape.handles_within_perm _ π).mem_iff.2 ?_)
    exact List.mem_append_left _ ((Shape.handles_join_perm .left L _ _).mem_iff.2 hi)
  have hright {i : Handle} (hi : i ∈ (Y.within ρ).handles) :=
    hmem (List.mem_cons_of_mem _ (List.mem_append_right L.handles hi))
  refine ((Redrawn.refl t _).replant (fun _ => ?_) ?_).put _ (hmem List.mem_cons_self) |>.put _
    (hright (root_within_successor_mem hρ))
  · have habove := above_successor_mem (Y := Y) hρ
    obtain ⟨s, ρ, rfl⟩ := List.exists_cons_of_ne_nil hρ
    exact hright habove
  · rcases List.mem_cons.1 (Shape.root_mem_focus Y ρ) with hY | hY
    · exact hY ▸ List.mem_cons_self
    · exact hright hY

include h hρ in
theorem Shows.run_promote_deep (hL : L ≠ .nil) :
    (Edit.promote z.handle y.handle).run t = .ok Y.root (t.draw (ns.hung Y ρ.above)
      ((Shape.node L (y.painted z.color) (Y.within ρ)).within π)) := by
  have hat := h.at_successor
  have hshows := h.replant_successor hρ
  have hpoised := h.poised_detached hρ
  have hroot := root_within_successor_mem (Y := Y) hρ
  have habove := above_successor_mem (Y := Y) hρ
  have hap := Apart.of_nodup h.nodup_successor
  have hzρ := (hap.others _ (List.mem_cons_of_mem _ habove)).1
  have hyr := (hap.others _ (List.mem_cons_of_mem _ hroot)).2
  have hparent : t.parent y.handle = .ok ρ.above := by
    obtain ⟨s, ρ, rfl⟩ := List.exists_cons_of_ne_nil hρ
    exact hat.parent_join
  have hY : t.Shows ns (Y.within (⟨.right, y, .nil⟩ :: (ρ ++ ⟨.right, z, L⟩ :: π))) := hat
  have hR : (t.replant (ρ ++ ⟨.right, z, L⟩ :: π) Y.root).Shows (ns.hung Y ρ.above)
      ((Y.within ρ).within (⟨.right, z, L⟩ :: π)) := hshows
  have htransplant :=
    Edit.run_transplant_root hat (Shape.join_ne_nil .right Y y .nil) hY.slot_root
  rw [Shape.root_join] at htransplant
  have hy : ((t.replant (ρ ++ ⟨.right, z, L⟩ :: π) Y.root).arena.slot? y.handle).isSome :=
    h.slot_successor hρ ▸ rfl
  have hr : (((t.replant (ρ ++ ⟨.right, z, L⟩ :: π) Y.root).put y.handle
      (Slot.withChild .right (Y.within ρ).root)).arena.slot? (Y.within ρ).root).isSome := by
    rw [slot?_put_of_ne _ _ hyr]
    exact hR.slot_root
  refine Act.look_then hat.child_near (Act.look_then hparent ?_)
  rw [if_neg hzρ.symm]
  refine Act.run_then htransplant (Act.look_then hshows.child_near ?_)
  apply Act.run_then (run_modifySlot_eq _ hy)
  apply Act.run_then (run_modifySlot_eq _ hr)
  apply Act.run_then (hpoised.run_takeOver hL)
  rw [hpoised.eq_draw hL (redrawn_detached hρ t)]
  rfl

end promote

end Tree
end RedBlack
