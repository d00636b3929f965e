import RedBlack.Proofs.Focus
import RedBlack.Tree.Rebalance

/-! Rotations of trees that show a shape: the shape is rotated, and nothing else changes. -/
namespace RedBlack
variable {K V : Type}

namespace Tree

def reparent (t : Tree K V) (sh : Shape K V) (q : Handle) : Tree K V :=
  if sh.isNil then t else t.put sh.root (Slot.withParent q)

def rehang (t : Tree K V) (π : Path K V) (y : Handle) : Tree K V :=
  match π with
  | [] => t.withRoot y
  | s :: _ => t.put s.cell.handle (Slot.withChild s.side y)

section
variable {t t' : Tree K V} {hs : List Handle} {i : Handle}

theorem slot?_reparent_of_ne (t : Tree K V) {sh : Shape K V} (q : Handle)
    (hi : sh ≠ .nil → sh.root ≠ i) : (t.reparent sh q).arena.slot? i = t.arena.slot? i := by
  unfold reparent
  split
  · rfl
  · refine slot?_put_of_ne _ _ (hi ?_)
    rintro rfl
    exact absurd rfl ‹¬ _›

theorem slot?_reparent_root (t : Tree K V) {sh : Shape K V} (q : Handle) (hne : sh ≠ .nil) :
    (t.reparent sh q).arena.slot? sh.root = (t.arena.slot? sh.root).map (Slot.withParent q) := by
  rw [reparent, if_neg (by simp [Shape.isNil_eq_false hne])]
  exact slot?_put_self ..

theorem slot?_rehang_of_ne (t : Tree K V) {π : Path K V} (y : Handle)
    (hi : π ≠ [] → π.above ≠ i) : (t.rehang π y).arena.slot? i = t.arena.slot? i := by
  cases π with
  | nil => rfl
  | cons s π => exact slot?_put_of_ne _ _ (hi (List.cons_ne_nil s π))

theorem slot?_rehang_cons (t : Tree K V) (s : Step K V) (π : Path K V) (y : Handle) :
    (t.rehang (s :: π) y).arena.slot? s.cell.handle =
      (t.arena.slot? s.cell.handle).map (Slot.withChild s.side y) := slot?_put_self ..

@[simp] theorem root_reparent (t : Tree K V) (sh : Shape K V) (q : Handle) :
    (t.reparent sh q).root = t.root := by
  unfold reparent
  split <;> rfl

theorem root_rehang_cons (t : Tree K V) (s : Step K V) (π : Path K V) (y : Handle) :
    (t.rehang (s :: π) y).root = t.root := rfl

theorem Redrawn.reparent (h : t.Redrawn t' hs) {sh : Shape K V} (q : Handle)
    (hi : sh ≠ .nil → sh.root ∈ hs) : t.Redrawn (t'.reparent sh q) hs := by
  unfold Tree.reparent
  split
  · exact h
  · apply h.put _
    apply hi
    rintro rfl
    exact absurd rfl ‹¬ _›

theorem Redrawn.rehang (h : t.Redrawn t' hs) {π : Path K V} (y : Handle)
    (hi : π ≠ [] → π.above ∈ hs) : t.Redrawn (t'.rehang π y) hs := by
  cases π with
  | nil => exact h.withRoot y
  | cons s π => exact h.put _ (hi (List.cons_ne_nil s π))

end
end Tree

namespace Edit
variable {t : Tree K V}

theorem run_note (t : Tree K V) (e : Event) : (note e).run t = .ok () (t.report [e]) := rfl

theorem run_relink {x y : Handle} {π : Path K V} (hp : t.parent x = .ok π.above)
    (hn : t.isNil π.above = .ok π.isEmpty) (hs : ∀ s ∈ π.head?, t.sideOf x = .ok s.side)
    (hsome : (t.arena.slot? π.above).isSome) :
    (relink x y).run t = .ok () (t.rehang π y) := by
  cases π with
  | nil =>
    simp only [relink, EStateM.run_bind, Act.run_look, hp, hn, List.isEmpty_nil, if_true]
    rfl
  | cons s π =>
    have hs := hs s rfl
    simp only [relink, EStateM.run_bind, Act.run_look, hp, hn, List.isEmpty_cons,
      Bool.false_eq_true, if_false, hs]
    exact Tree.run_modifySlot_eq _ hsome

theorem run_relink_root {ns : Slot K V} {sh : Shape K V} {π : Path K V}
    (h : t.Shows ns (sh.within π)) (hne : sh ≠ .nil) {u : Tree K V}
    (hp : u.parent sh.root = .ok π.above)
    (habove : u.arena.slot? π.above = t.arena.slot? π.above) (y : Handle) :
    (relink sh.root y).run u = .ok () (u.rehang π y) := by
  refine run_relink hp ?_ (h.sideOf_above hne hp habove) ?_
  · exact (Tree.isNil_congr habove).trans h.isNil_above
  · rw [habove]
    exact h.slot_above

theorem run_setParent_then {β : Type} {sh : Shape K V} (q : Handle) (k : Edit K V β)
    (hs : sh ≠ .nil → (t.arena.slot? sh.root).isSome) :
    (if (!sh.isNil) = true then do setParent sh.root q; k else k).run t =
      k.run (t.reparent sh q) := by
  cases sh with
  | nil => rfl
  | node l c r =>
    have hs := hs fun h => nomatch h
    rw [Shape.root_node] at hs
    change (setParent c.handle q >>= fun _ => k).run t = _
    rw [EStateM.run_bind, setParent, Tree.run_modifySlot_eq _ hs]
    rfl

end Edit

def Tree.rotation (t : Tree K V) (a : Side) (x y : Cell K V) (m : Shape K V) (π : Path K V) :
    Tree K V :=
  (((((t.put x.handle (Slot.withChild a.other m.root)).reparent m x.handle).put y.handle
    (Slot.withParent π.above)).rehang π y.handle).put x.handle (Slot.withParent y.handle)).put
    y.handle (Slot.withChild a x.handle)

structure Apart (x y : Cell K V) (m : Shape K V) (π : Path K V) (os : List Handle) : Prop where
  cells : x.handle ≠ y.handle
  between : ∀ i ∈ Handle.nil :: m.handles, x.handle ≠ i ∧ y.handle ≠ i
  path : ∀ i ∈ Handle.nil :: π.handles, x.handle ≠ i ∧ y.handle ≠ i
  others : ∀ i ∈ Handle.nil :: os, x.handle ≠ i ∧ y.handle ≠ i
  between_path : ∀ i ∈ m.handles, ∀ j ∈ Handle.nil :: π.handles, i ≠ j
  between_others : ∀ i ∈ m.handles, ∀ j ∈ Handle.nil :: os, i ≠ j
  path_others : ∀ i ∈ π.handles, ∀ j ∈ Handle.nil :: os, i ≠ j
  between_nodup : m.handles.Nodup
  path_nodup : π.handles.Nodup
  others_nodup : os.Nodup

namespace Apart
variable {x y : Cell K V} {m : Shape K V} {π : Path K V} {os : List Handle}

theorem of_nodup (hd : (Handle.nil :: x.handle :: y.handle :: (m.handles ++ os ++ π.handles)).Nodup) :
    Apart x y m π os := by
  simp only [List.nodup_cons, List.nodup_append, List.mem_append, List.mem_cons, not_or] at hd
  obtain ⟨⟨hx₀, hy₀, ⟨hm₀, ho₀⟩, hπ₀⟩, ⟨hxy, ⟨hxm, hxo⟩, hxπ⟩, ⟨⟨hym, hyo⟩, hyπ⟩,
    ⟨hm, ho, hmo⟩, hπ, hmπ⟩ := hd
  have hne {j : Handle} {is : List Handle} (hj : Handle.nil ≠ j) (his : j ∉ is) :
      ∀ i ∈ Handle.nil :: is, j ≠ i := by
    intro i hi
    rcases List.mem_cons.1 hi with rfl | hi
    · exact hj.symm
    · rintro rfl
      exact his hi
  have hne_all {is js : List Handle} (his : Handle.nil ∉ is) (h : ∀ i ∈ is, ∀ j ∈ js, i ≠ j) :
      ∀ i ∈ is, ∀ j ∈ Handle.nil :: js, i ≠ j := by
    intro i hi j hj
    rcases List.mem_cons.1 hj with rfl | hj
    · rintro rfl
      exact his hi
    · exact h i hi j hj
  refine ⟨hxy, fun i hi => ⟨hne hx₀ hxm i hi, hne hy₀ hym i hi⟩,
    fun i hi => ⟨hne hx₀ hxπ i hi, hne hy₀ hyπ i hi⟩,
    fun i hi => ⟨hne hx₀ hxo i hi, hne hy₀ hyo i hi⟩, hne_all hm₀ fun i hi => hmπ i (.inl hi),
    hne_all hm₀ hmo, hne_all hπ₀ ?_, hm, hπ, ho⟩
  intro i hi j hj
  exact (hmπ j (.inr hj) i hi).symm

variable (h : Apart x y m π os)
include h

theorem root_ne : m.root ≠ x.handle ∧ m.root ≠ y.handle := by
  have hroot := h.between m.root m.root_mem
  exact ⟨hroot.1.symm, hroot.2.symm⟩

theorem above_ne : π.above ≠ x.handle ∧ π.above ≠ y.handle := by
  have habove := h.path π.above (Path.above_mem π)
  exact ⟨habove.1.symm, habove.2.symm⟩

theorem root_ne_above (hm : m ≠ .nil) : m.root ≠ π.above :=
  h.between_path _ (Shape.root_mem_handles hm) _ (Path.above_mem π)

end Apart

section rotation
variable {t : Tree K V} {ns : Slot K V} {a : Side} {n m f : Shape K V} {x y : Cell K V} {π : Path K V}

theorem Tree.Shows.apart (h : t.Shows ns ((Shape.join a n x (.join a m y f)).within π)) :
    Apart x y m π (n.handles ++ f.handles) := by
  have hy : (n.handles ++ (Shape.join a m y f).handles).Perm
      (y.handle :: (m.handles ++ (n.handles ++ f.handles))) := by
    refine ((Shape.handles_join_perm a m y f).append_left _).trans (List.perm_middle.trans ?_)
    refine .cons _ ?_
    rw [← List.append_assoc, ← List.append_assoc]
    exact List.perm_append_comm.append_right _
  have hx := (Shape.handles_join_perm a n x (.join a m y f)).trans (hy.cons _)
  exact .of_nodup (((hx.append_right π.handles).cons _).nodup_iff.1 h.nodup_focus)

theorem Edit.run_rotate_eq (h : t.Shows ns ((Shape.join a n x (.join a m y f)).within π)) :
    (rotate a x.handle).run t =
      .ok () ((t.report [.rotated a x.handle]).rotation a x y m π) := by
  have hap := h.apart
  have hxy := hap.cells
  obtain ⟨hmx, hmy⟩ := hap.root_ne
  obtain ⟨hπx, hπy⟩ := hap.above_ne
  have hy : t.Shows ns ((Shape.join a m y f).within (⟨a.other, x, n⟩ :: π)) := by
    rw [Shape.within_cons]
    simpa only [Shape.join_other] using h
  have hm : t.Shows ns (m.within (⟨a, y, f⟩ :: ⟨a.other, x, n⟩ :: π)) := hy
  let u₀ := t.report [.rotated a x.handle]
  let u₁ := u₀.put x.handle (Slot.withChild a.other m.root)
  let u₂ := u₁.reparent m x.handle
  let u₃ := u₂.put y.handle (Slot.withParent π.above)
  let u₄ := u₃.rehang π y.handle
  let u₅ := u₄.put x.handle (Slot.withParent y.handle)
  have hx₁ : u₁.arena.slot? x.handle = some (x.slot a n.root m.root π.above) := by
    rw [Tree.slot?_put_self, show u₀.arena.slot? x.handle = _ from h.slot_join, Option.map_some,
      Cell.withChild_other_slot]
  have hx₂ : u₂.arena.slot? x.handle = some (x.slot a n.root m.root π.above) :=
    (Tree.slot?_reparent_of_ne _ _ fun _ => hmx).trans hx₁
  have hx₃ : u₃.arena.slot? x.handle = some (x.slot a n.root m.root π.above) :=
    (Tree.slot?_put_of_ne _ _ hxy.symm).trans hx₂
  have hm₁ : u₁.arena.slot? m.root = t.arena.slot? m.root := Tree.slot?_put_of_ne u₀ _ hmx.symm
  have hy₂ : u₂.arena.slot? y.handle = t.arena.slot? y.handle :=
    (Tree.slot?_reparent_of_ne _ _ fun _ => hmy).trans (Tree.slot?_put_of_ne u₀ _ hxy)
  have habove₃ : u₃.arena.slot? π.above = t.arena.slot? π.above := by
    rw [Tree.slot?_put_of_ne _ _ hπy.symm, Tree.slot?_reparent_of_ne _ _ hap.root_ne_above]
    exact Tree.slot?_put_of_ne u₀ _ hπx.symm
  have hy₅ : (u₅.arena.slot? y.handle).isSome := by
    rw [Tree.slot?_put_of_ne _ _ hxy, Tree.slot?_rehang_of_ne _ _ fun _ => hπy,
      Tree.slot?_put_self, hy₂, hy.slot_join]
    rfl
  have hread : t.child a.other x.handle = .ok y.handle := h.child_far.trans (by rw [Shape.root_join])
  have hynil : t.isNil y.handle = .ok false := (Tree.isNil_eq hy.slot_join).trans (by simp)
  have hmiddle : u₀.child a y.handle = .ok m.root := hy.child_near
  have hmnil : u₁.isNil m.root = .ok m.isNil := (Tree.isNil_congr hm₁).trans hm.isNil_root
  have hparent : u₂.parent x.handle = .ok π.above := Tree.parent_eq hx₂ (Cell.parent_slot ..)
  have hrelink : (relink x.handle y.handle).run u₃ = .ok () u₄ := by
    have hrun := run_relink_root (u := u₃) h (Shape.join_ne_nil a n x _)
    rw [Shape.root_join] at hrun
    exact hrun (Tree.parent_eq hx₃ (Cell.parent_slot ..)) habove₃ y.handle
  have hw₁ : (setChild a.other x.handle m.root).run u₀ = .ok () u₁ := by
    apply Tree.run_modifySlot_eq _
    rw [show u₀.arena.slot? x.handle = _ from h.slot_join]
    rfl
  have hw₃ : (setParent y.handle π.above).run u₂ = .ok () u₃ := by
    apply Tree.run_modifySlot_eq _
    rw [hy₂, hy.slot_join]
    rfl
  have hw₅ : (setParent x.handle y.handle).run u₄ = .ok () u₅ := by
    apply Tree.run_modifySlot_eq _
    rw [Tree.slot?_rehang_of_ne _ _ fun _ => hπx, hx₃]
    rfl
  have hw₆ : (setChild a y.handle x.handle).run u₅ = .ok () (u₀.rotation a x y m π) :=
    Tree.run_modifySlot_eq _ hy₅
  refine Act.look_then hread (Act.look_then hynil ?_)
  refine Act.run_then (run_note t _) (Act.look_then hmiddle ?_)
  refine Act.run_then hw₁ (Act.look_then hmnil ?_)
  refine (run_setParent_then x.handle _ fun _ => ?_).trans ?_
  · rw [hm₁]
    exact hm.slot_root
  refine Act.look_then hparent (Act.run_then hw₃ ?_)
  exact Act.run_then hrelink (Act.run_then hw₅ hw₆)

theorem Tree.slot?_rotation_of_ne {i : Handle} (hx : x.handle ≠ i) (hy : y.handle ≠ i)
    (hm : m ≠ .nil → m.root ≠ i) (hπ : π ≠ [] → π.above ≠ i) :
    (t.rotation a x y m π).arena.slot? i = t.arena.slot? i := by
  rw [rotation, slot?_put_of_ne _ _ hy, slot?_put_of_ne _ _ hx, slot?_rehang_of_ne _ _ hπ,
    slot?_put_of_ne _ _ hy, slot?_reparent_of_ne _ _ hm, slot?_put_of_ne _ _ hx]

theorem Apart.slot?_rotation {i : Handle} (h : Apart x y m π (n.handles ++ f.handles))
    (hi : i ∈ Handle.nil :: (n.handles ++ f.handles)) :
    (t.rotation a x y m π).arena.slot? i = t.arena.slot? i := by
  obtain ⟨hx, hy⟩ := h.others i hi
  refine Tree.slot?_rotation_of_ne hx hy (fun hne => ?_) fun hne => ?_
  · exact h.between_others _ (Shape.root_mem_handles hne) i hi
  · exact h.path_others _ (Path.above_mem_handles hne) i hi

section lies
variable {p : Handle} (h : Apart x y m π (n.handles ++ f.handles))
include h

theorem Apart.lies_rotation (sh : Shape K V) (hsh : sh.Lies t.arena.slot? p)
    (hin : ∀ i ∈ sh.handles, i ∈ n.handles ++ f.handles) :
    sh.Lies (t.rotation a x y m π).arena.slot? p :=
  hsh.congr fun i hi => h.slot?_rotation (List.mem_cons_of_mem _ (hin i hi))

theorem Apart.lies_between (hm : m.Lies t.arena.slot? p) :
    m.Lies (t.rotation a x y m π).arena.slot? x.handle := by
  refine hm.reparent h.between_nodup (fun hne => ?_) fun i hi hir => ?_
  · obtain ⟨hmx, hmy⟩ := h.root_ne
    rw [Tree.rotation, Tree.slot?_put_of_ne _ _ hmy.symm, Tree.slot?_put_of_ne _ _ hmx.symm,
      Tree.slot?_rehang_of_ne _ _ fun _ => (h.root_ne_above hne).symm,
      Tree.slot?_put_of_ne _ _ hmy.symm, Tree.slot?_reparent_root _ _ hne,
      Tree.slot?_put_of_ne _ _ hmx.symm]
  · obtain ⟨hx, hy⟩ := h.between i (List.mem_cons_of_mem _ hi)
    refine Tree.slot?_rotation_of_ne hx hy (fun _ => hir.symm) fun _ => ?_
    exact (h.between_path i hi _ (Path.above_mem π)).symm

theorem Apart.lies_path (hπ : π.Lies t.arena.slot? x.handle) :
    π.Lies (t.rotation a x y m π).arena.slot? y.handle := by
  cases π with
  | nil => exact trivial
  | cons s π =>
    have habove := h.above_ne
    have hroot : m ≠ .nil → m.root ≠ s.cell.handle := h.root_ne_above
    rw [Path.above_cons] at habove
    refine hπ.rehang h.path_nodup ?_ fun i hi his => ?_
    · rw [Tree.rotation, Tree.slot?_put_of_ne _ _ habove.2.symm,
        Tree.slot?_put_of_ne _ _ habove.1.symm, Tree.slot?_rehang_cons,
        Tree.slot?_put_of_ne _ _ habove.2.symm, Tree.slot?_reparent_of_ne _ _ hroot,
        Tree.slot?_put_of_ne _ _ habove.1.symm]
    · obtain ⟨hx, hy⟩ := h.path i (List.mem_cons_of_mem _ hi)
      refine Tree.slot?_rotation_of_ne hx hy (fun hne => ?_) fun _ => his.symm
      exact h.between_path _ (Shape.root_mem_handles hne) i (List.mem_cons_of_mem _ hi)

end lies

theorem Tree.Shows.rotation (h : t.Shows ns ((Shape.join a n x (.join a m y f)).within π)) :
    (t.rotation a x y m π).Shows ns ((Shape.join a (.join a n x m) y f).within π) := by
  have hap := h.apart
  have hxy := hap.cells
  obtain ⟨hmx, hmy⟩ := hap.root_ne
  obtain ⟨hπx, hπy⟩ := hap.above_ne
  obtain ⟨hlies, hπ⟩ := (Shape.lies_within _ π).1 h.lies
  obtain ⟨hx, hn, hlies⟩ := (Shape.lies_join a n x _).1 hlies
  obtain ⟨hy, hm, hf⟩ := (Shape.lies_join a m y f).1 hlies
  rw [Shape.root_join] at hπ
  have hx' : (t.rotation a x y m π).arena.slot? x.handle =
      some (x.slot a n.root m.root y.handle) := by
    rw [Tree.rotation, slot?_put_of_ne _ _ hxy.symm, slot?_put_self,
      slot?_rehang_of_ne _ _ fun _ => hπx, slot?_put_of_ne _ _ hxy.symm,
      slot?_reparent_of_ne _ _ fun _ => hmx, slot?_put_self, hx]
    simp only [Option.map_some, Cell.withChild_other_slot, Cell.withParent_slot]
  have hy' : (t.rotation a x y m π).arena.slot? y.handle =
      some (y.slot a x.handle f.root π.above) := by
    rw [Tree.rotation, slot?_put_self, slot?_put_of_ne _ _ hxy, slot?_rehang_of_ne _ _ fun _ => hπy,
      slot?_put_self, slot?_reparent_of_ne _ _ fun _ => hmy, slot?_put_of_ne _ _ hxy, hy]
    simp only [Option.map_some, Cell.withChild_slot, Cell.withParent_slot]
  have hn' := hap.lies_rotation (t := t) (a := a) n hn fun i hi => List.mem_append_left _ hi
  have hf' := hap.lies_rotation (t := t) (a := a) f hf fun i hi => List.mem_append_right _ hi
  have hperm := Shape.handles_within_congr (.of_eq (Shape.handles_rotated a n x m y f)) π
  refine ⟨?_, ?_, h.keyless, h.black, ?_, (hperm.cons _).nodup_iff.2 h.nodup⟩
  · cases π with
    | nil => exact (Shape.root_join ..).symm
    | cons s π =>
      have hroot : (t.rotation a x y m (s :: π)).root = t.root := by
        rw [rotation, root_put, root_put, root_rehang_cons, root_put, root_reparent, root_put]
      exact hroot.trans (h.root.trans (Shape.root_within_cons ..))
  · exact (hap.slot?_rotation List.mem_cons_self).trans h.nil
  · refine (Shape.lies_within _ π).2 ⟨(Shape.lies_join ..).2 ⟨?_, (Shape.lies_join ..).2
      ⟨hx', hn', hap.lies_between hm⟩, hf'⟩, ?_⟩
    · rw [Shape.root_join]
      exact hy'
    · rw [Shape.root_join]
      exact hap.lies_path hπ

theorem Tree.Shows.run_rotate (h : t.Shows ns ((Shape.join a n x (.join a m y f)).within π)) :
    (Edit.rotate a x.handle).run t = .ok ()
      ((t.report [.rotated a x.handle]).draw ns ((Shape.join a (.join a n x m) y f).within π)) := by
  have hshows := (h.report [.rotated a x.handle]).rotation
  rw [Edit.run_rotate_eq h]
  refine congrArg _ (hshows.eq_draw ?_)
  have hmem {i : Handle} (hi : i ∈ (Shape.join a (.join a n x m) y f).handles ++ π.handles) :
      i ∈ Handle.nil :: ((Shape.join a (.join a n x m) y f).within π).handles :=
    List.mem_cons_of_mem _ ((Shape.handles_within_perm _ π).mem_iff.2 hi)
  have hin {i : Handle} (hi : i ∈ x.handle :: (n.handles ++ y.handle :: (m.handles ++ f.handles))) :
      i ∈ (Shape.join a (.join a n x m) y f).handles := by
    rw [Shape.handles_rotated]
    have hy := Shape.handles_join_perm a m y f
    exact ((Shape.handles_join_perm a n x _).trans ((hy.append_left _).cons _)).mem_iff.2 hi
  have hx := hmem (List.mem_append_left _ (hin List.mem_cons_self))
  have hy := hmem (List.mem_append_left _ (hin (i := y.handle) (by simp)))
  refine (((((Tree.Redrawn.refl _ _).put _ hx).reparent _ fun hne => ?_).put _ hy).rehang _
    fun hπ => ?_).put _ hx |>.put _ hy
  · have hroot := Shape.root_mem_handles hne
    exact hmem (List.mem_append_left _ (hin (by simp [hroot])))
  · exact hmem (List.mem_append_right _ (Path.above_mem_handles hπ))

theorem Tree.Fits.rotated (h : t.Fits ns ((Shape.join a n x (.join a m y f)).within π)) :
    t.Fits ns ((Shape.join a (.join a n x m) y f).within π) :=
  h.perm (Shape.handles_within_congr (.of_eq (Shape.handles_rotated a n x m y f)) π)

theorem Tree.Fits.run_rotate (h : t.Fits ns ((Shape.join a n x (.join a m y f)).within π)) :
    (Edit.rotate a x.handle).run (t.draw ns ((Shape.join a n x (.join a m y f)).within π)) =
      .ok () ((t.report [.rotated a x.handle]).draw ns
        ((Shape.join a (.join a n x m) y f).within π)) :=
  h.run_draw (Shape.handles_within_congr (.of_eq (Shape.handles_rotated a n x m y f)) π)
    h.shows.run_rotate

end rotation
end RedBlack
