import RedBlack.Proofs.Drawing

/-! Reading and writing at one place of a tree that shows a shape. -/
namespace RedBlack
variable {K V : Type}

namespace Shape

def isNil : Shape K V → Bool
  | nil => true
  | node _ _ _ => false

def painted (color : Color) : Shape K V → Shape K V
  | nil => nil
  | node l c r => node l (c.painted color) r

@[simp] theorem isNil_join (a : Side) (n : Shape K V) (c : Cell K V) (f : Shape K V) :
    (join a n c f).isNil = false := by cases a <;> rfl

theorem isNil_eq_false {sh : Shape K V} (h : sh ≠ nil) : sh.isNil = false := by
  cases sh with
  | nil => exact absurd rfl h
  | node l c r => rfl

@[simp] theorem painted_join (color : Color) (a : Side) (n : Shape K V) (c : Cell K V)
    (f : Shape K V) : (join a n c f).painted color = join a n (c.painted color) f := by
  cases a <;> rfl

@[simp] theorem root_painted (color : Color) (sh : Shape K V) : (sh.painted color).root = sh.root := by
  cases sh <;> rfl

@[simp] theorem handles_painted (color : Color) (sh : Shape K V) :
    (sh.painted color).handles = sh.handles := by
  cases sh with
  | nil => rfl
  | node l c r => simp only [painted, handles_node, Cell.handle_painted]

end Shape

namespace Tree

def put (t : Tree K V) (h : Handle) (f : Slot K V → Slot K V) : Tree K V :=
  { t with arena := t.arena.modify h f }

def withRoot (t : Tree K V) (h : Handle) : Tree K V := { t with root := h }

section put
variable {t : Tree K V} {h i : Handle} {f : Slot K V → Slot K V}

theorem slot?_put (t : Tree K V) (h i : Handle) (f : Slot K V → Slot K V) :
    (t.put h f).arena.slot? i = if h = i then (t.arena.slot? i).map f else t.arena.slot? i :=
  Arena.slot?_modify t.arena h i f

theorem slot?_put_self (t : Tree K V) (h : Handle) (f : Slot K V → Slot K V) :
    (t.put h f).arena.slot? h = (t.arena.slot? h).map f := Arena.slot?_modify_self ..

theorem slot?_put_of_ne (t : Tree K V) (f : Slot K V → Slot K V) (hi : h ≠ i) :
    (t.put h f).arena.slot? i = t.arena.slot? i := Arena.slot?_modify_of_ne _ f hi

@[simp] theorem root_put : (t.put h f).root = t.root := rfl

theorem put_put (t : Tree K V) (h : Handle) (f g : Slot K V → Slot K V) :
    (t.put h f).put h g = t.put h (g ∘ f) := by
  have harena : ((t.put h f).put h g).arena = (t.put h (g ∘ f)).arena := by
    refine Arena.ext_slot? rfl fun i => ?_
    simp only [slot?_put]
    split
    · rw [Option.map_map]
    · rfl
  exact congrArg (fun a => { t with arena := a }) harena

theorem put_comm (t : Tree K V) (hi : h ≠ i) (f g : Slot K V → Slot K V) :
    (t.put h f).put i g = (t.put i g).put h f := by
  have harena : ((t.put h f).put i g).arena = ((t.put i g).put h f).arena := by
    refine Arena.ext_slot? rfl fun j => ?_
    by_cases hj : i = j
    · subst hj
      rw [slot?_put_self, slot?_put_of_ne _ _ hi, slot?_put_of_ne _ _ hi, slot?_put_self]
    · rw [slot?_put_of_ne _ _ hj, slot?_put, slot?_put, slot?_put_of_ne _ _ hj]
  exact congrArg (fun a => { t with arena := a }) harena

theorem run_modifySlot_eq (f : Slot K V → Slot K V) (hs : (t.arena.slot? h).isSome) :
    (Edit.modifySlot h f).run t = .ok () (t.put h f) :=
  Edit.run_modifySlot f ((Arena.slot?_isSome_iff _ _).1 hs)

end put

namespace Redrawn
variable {t t' t'' : Tree K V} {hs : List Handle}

theorem refl (t : Tree K V) (hs : List Handle) : t.Redrawn t hs :=
  ⟨rfl, rfl, fun _ _ => rfl, rfl, rfl, rfl, rfl⟩

theorem put (h : t.Redrawn t' hs) {i : Handle} (f : Slot K V → Slot K V) (hi : i ∈ hs) :
    t.Redrawn (t'.put i f) hs := by
  refine ⟨h.free, (Arena.size_modify ..).trans h.length, ?_, h.size, h.order, h.width,
    h.journal⟩
  intro j hj
  have hij : i ≠ j := by
    rintro rfl
    exact hj hi
  rw [slot?_put_of_ne _ _ hij]
  exact h.slot j hj

theorem withRoot (h : t.Redrawn t' hs) (i : Handle) : t.Redrawn (t'.withRoot i) hs :=
  ⟨h.free, h.length, h.slot, h.size, h.order, h.width, h.journal⟩

end Redrawn

/-! ### Readings -/

section readings
variable {t : Tree K V} {h p : Handle} {s : Slot K V}

theorem child_eq (a : Side) {c : Handle} (hs : t.arena.slot? h = some s)
    (hc : s.child a = some c) : t.child a h = .ok c := child_eq_ok.2 ⟨s, hs, hc⟩

theorem parent_eq (hs : t.arena.slot? h = some s) (hp : s.parent = some p) :
    t.parent h = .ok p := parent_eq_ok.2 ⟨s, hs, hp⟩

theorem color_eq (hs : t.arena.slot? h = some s) : t.color h = .ok s.color :=
  color_eq_ok.2 ⟨s, hs, rfl⟩

theorem isNil_eq (hs : t.arena.slot? h = some s) : t.isNil h = .ok s.entry.isNone :=
  isNil_eq_ok.2 ⟨s, hs, rfl⟩

theorem entryOf_eq {e : K × V} (hs : t.arena.slot? h = some s) (he : s.entry = some e) :
    t.entryOf h = .ok e := entryOf_eq_ok.2 ⟨s, hs, he⟩

theorem slot_congr {t' : Tree K V} (h' : t'.arena.slot? h = t.arena.slot? h) :
    t'.slot h = t.slot h := by
  unfold slot
  rw [h']

theorem child_congr {t' : Tree K V} (h' : t'.arena.slot? h = t.arena.slot? h) (a : Side) :
    t'.child a h = t.child a h := by
  unfold child
  rw [slot_congr h']

theorem isNil_congr {t' : Tree K V} (h' : t'.arena.slot? h = t.arena.slot? h) :
    t'.isNil h = t.isNil h := by
  unfold isNil
  rw [slot_congr h']

theorem hangs_eq (hp : t.parent h = .ok p) {a : Side} (ha : t.child a p = .ok h) {w : Handle}
    (hw : t.child a.other p = .ok w) (hne : w ≠ h) (b : Side) :
    t.hangs b h = .ok (decide (b = a)) := by
  unfold hangs
  rw [hp]
  by_cases hb : b = a
  · subst hb
    simp only [bind, Except.bind, ha, pure, Except.pure, beq_self_eq_true, decide_true]
  · obtain rfl := Side.eq_other hb
    simp only [bind, Except.bind, hw, pure, Except.pure, beq_eq_false_iff_ne.2 hne,
      decide_eq_false hb]

theorem sideOf_eq (hp : t.parent h = .ok p) {a : Side} (ha : t.child a p = .ok h) {w : Handle}
    (hw : t.child a.other p = .ok w) (hne : w ≠ h) : t.sideOf h = .ok a := by
  unfold sideOf
  rw [hangs_eq hp ha hw hne]
  cases a <;> rfl

end readings

namespace Shows
variable {t : Tree K V} {ns : Slot K V} {sh : Shape K V} {π : Path K V}

theorem nodup_focus (h : t.Shows ns (sh.within π)) :
    (.nil :: (sh.handles ++ π.handles)).Nodup :=
  ((Shape.handles_within_perm sh π).cons _).nodup_iff.1 h.nodup

theorem isNil_nil (h : t.Shows ns sh) : t.isNil .nil = .ok true := by
  rw [isNil_eq h.nil, h.keyless]
  rfl

theorem slot_root (h : t.Shows ns (sh.within π)) : (t.arena.slot? sh.root).isSome :=
  h.slot_of_mem (Shape.root_mem_focus sh π)

theorem slot_above (h : t.Shows ns (sh.within π)) : (t.arena.slot? π.above).isSome :=
  h.slot_of_mem (Shape.above_mem_focus sh π)

section join
variable {a : Side} {n f : Shape K V} {c : Cell K V}

theorem slot_join (h : t.Shows ns ((Shape.join a n c f).within π)) :
    t.arena.slot? c.handle = some (c.slot a n.root f.root π.above) :=
  ((Shape.lies_join a n c f).1 ((Shape.lies_within _ π).1 h.lies).1).1

theorem child_near (h : t.Shows ns ((Shape.join a n c f).within π)) :
    t.child a c.handle = .ok n.root := child_eq a h.slot_join (Cell.child_slot ..)

theorem child_far (h : t.Shows ns ((Shape.join a n c f).within π)) :
    t.child a.other c.handle = .ok f.root := child_eq a.other h.slot_join (Cell.child_other_slot ..)

theorem parent_join (h : t.Shows ns ((Shape.join a n c f).within π)) :
    t.parent c.handle = .ok π.above := parent_eq h.slot_join (Cell.parent_slot ..)

theorem entryOf_join (h : t.Shows ns ((Shape.join a n c f).within π)) :
    t.entryOf c.handle = .ok c.entry := entryOf_eq h.slot_join (Cell.entry_slot ..)

end join

theorem isNil_root (h : t.Shows ns (sh.within π)) : t.isNil sh.root = .ok sh.isNil := by
  cases sh with
  | nil => exact h.isNil_nil
  | node l c r => exact isNil_eq (slot_join (a := .left) h)

theorem color_root (h : t.Shows ns (sh.within π)) : t.color sh.root = .ok sh.color := by
  cases sh with
  | nil => exact (color_eq h.nil).trans (congrArg Except.ok h.black)
  | node l c r => exact color_eq (slot_join (a := .left) h)

theorem parent_root (h : t.Shows ns (sh.within π)) (hne : sh ≠ .nil) :
    t.parent sh.root = .ok π.above := by
  cases sh with
  | nil => exact absurd rfl hne
  | node l c r => exact parent_join (a := .left) h

theorem root_ne_nil (h : t.Shows ns (sh.within π)) (hne : sh ≠ .nil) : sh.root ≠ .nil := by
  intro hn
  refine (List.nodup_cons.1 h.nodup_focus).1 (List.mem_append_left _ ?_)
  rw [← hn]
  exact Shape.root_mem_handles hne

theorem isNil_above (h : t.Shows ns (sh.within π)) : t.isNil π.above = .ok π.isEmpty := by
  cases π with
  | nil => exact h.isNil_nil
  | cons s π =>
    have hs := isNil_eq (slot_join (a := s.side) h)
    rw [Cell.entry_slot] at hs
    exact hs

theorem root_ne_sibling {s : Step K V} (h : t.Shows ns (sh.within (s :: π)))
    (hne : sh ≠ .nil ∨ s.sibling ≠ .nil) : s.sibling.root ≠ sh.root := by
  have hd := h.nodup_focus
  simp only [Path.handles, List.nodup_cons, List.nodup_append, List.mem_append, List.mem_cons] at hd
  obtain ⟨hnil, -, -, hdis⟩ := hd
  intro heq
  by_cases hs : s.sibling = .nil
  · have hsh := hne.resolve_right fun h => h hs
    refine hnil (.inl ?_)
    rw [hs, Shape.root_nil] at heq
    rw [heq]
    exact Shape.root_mem_handles hsh
  · have hsib := Shape.root_mem_handles hs
    by_cases hsh : sh = .nil
    · rw [hsh, Shape.root_nil] at heq
      rw [heq] at hsib
      exact hnil (.inr (.inr (.inl hsib)))
    · exact hdis _ (Shape.root_mem_handles hsh) _ (.inr (.inl hsib)) heq.symm

theorem hangs_root {s : Step K V} (h : t.Shows ns (sh.within (s :: π)))
    (hp : t.parent sh.root = .ok s.cell.handle) (hne : sh ≠ .nil ∨ s.sibling ≠ .nil) (b : Side) :
    t.hangs b sh.root = .ok (decide (b = s.side)) :=
  hangs_eq hp (child_near h) (child_far h) (h.root_ne_sibling hne) b

theorem sideOf_root {s : Step K V} (h : t.Shows ns (sh.within (s :: π)))
    (hp : t.parent sh.root = .ok s.cell.handle) (hne : sh ≠ .nil ∨ s.sibling ≠ .nil) :
    t.sideOf sh.root = .ok s.side :=
  sideOf_eq hp (child_near h) (child_far h) (h.root_ne_sibling hne)

theorem sideOf_above (h : t.Shows ns (sh.within π)) (hne : sh ≠ .nil) {u : Tree K V}
    (hp : u.parent sh.root = .ok π.above)
    (habove : u.arena.slot? π.above = t.arena.slot? π.above) :
    ∀ s ∈ π.head?, u.sideOf sh.root = .ok s.side := by
  intro s hs
  cases π with
  | nil => cases hs
  | cons r π =>
    obtain rfl : r = s := by simpa using hs
    have hnear : u.child r.side r.cell.handle = .ok sh.root := (child_congr habove _).trans h.child_near
    have hfar : u.child r.side.other r.cell.handle = .ok r.sibling.root :=
      (child_congr habove _).trans h.child_far
    exact sideOf_eq hp hnear hfar (h.root_ne_sibling (.inl hne))

/-! ### Writings -/

theorem painted (h : t.Shows ns (sh.within π)) (color : Color) (hn : sh = .nil → color = .black) :
    (t.put sh.root (Slot.withColor color)).Shows ns ((sh.painted color).within π) := by
  have hperm := Shape.handles_within_congr (.of_eq (Shape.handles_painted color sh)) π
  refine ⟨?_, ?_, h.keyless, h.black, ?_, (hperm.cons _).nodup_iff.2 h.nodup⟩
  · rw [root_put, h.root]
    cases π with
    | nil => exact (Shape.root_painted color sh).symm
    | cons s π => exact Shape.root_within_cons ..
  · by_cases hne : sh = .nil
    · rw [hne, Shape.root_nil, slot?_put_self, h.nil, hn hne, ← h.black]
      rfl
    · exact (slot?_put_of_ne _ _ (h.root_ne_nil hne)).trans h.nil
  · cases sh with
    | nil =>
      refine h.lies.congr fun i hi => slot?_put_of_ne _ _ ?_
      rintro rfl
      exact (List.nodup_cons.1 h.nodup).1 hi
    | node l c r =>
      obtain ⟨⟨hc, hl, hr⟩, hπ⟩ := (Shape.lies_within _ π).1 h.lies
      have hd := ((Shape.handles_join_perm .left l c r).append_right π.handles).nodup_iff.1
        (List.nodup_cons.1 h.nodup_focus).2
      have hkeep {i : Handle} (hi : i ∈ l.handles ++ r.handles ++ π.handles) :
          (t.put c.handle (Slot.withColor color)).arena.slot? i = t.arena.slot? i := by
        refine slot?_put_of_ne _ _ ?_
        rintro rfl
        exact (List.nodup_cons.1 hd).1 hi
      refine (Shape.lies_within _ π).2 ⟨⟨?_, hl.congr fun i hi => hkeep ?_,
        hr.congr fun i hi => hkeep ?_⟩, hπ.congr fun i hi => hkeep (List.mem_append_right _ hi)⟩
      · rw [Cell.handle_painted, Shape.root_node, slot?_put_self, hc, Option.map_some,
          Cell.withColor_slot]
      · exact List.mem_append_left _ (List.mem_append_left _ hi)
      · exact List.mem_append_left _ (List.mem_append_right _ hi)

theorem run_setColor (h : t.Shows ns (sh.within π)) (color : Color)
    (hn : sh = .nil → color = .black) :
    (Edit.setColor sh.root color).run t = .ok () (t.draw ns ((sh.painted color).within π)) := by
  have hroot := Shape.root_mem_focus (sh.painted color) π
  rw [Shape.root_painted] at hroot
  rw [Edit.setColor, run_modifySlot_eq _ h.slot_root]
  exact congrArg _ ((h.painted color hn).eq_draw ((Redrawn.refl t _).put _ hroot))

end Shows

namespace Fits
variable {t : Tree K V} {ns : Slot K V} {sh : Shape K V} {π : Path K V}

theorem painted (h : t.Fits ns (sh.within π)) (color : Color) :
    t.Fits ns ((sh.painted color).within π) :=
  h.perm (Shape.handles_within_congr (.of_eq (Shape.handles_painted color sh)) π)

theorem run_setColor (h : t.Fits ns (sh.within π)) (color : Color)
    (hn : sh = .nil → color = .black) :
    (Edit.setColor sh.root color).run (t.draw ns (sh.within π)) =
      .ok () (t.draw ns ((sh.painted color).within π)) := by
  have hp := Shape.handles_within_congr (.of_eq (Shape.handles_painted color sh)) π
  rw [← report_nil t]
  apply h.run_draw hp
  rw [report_nil]
  exact h.shows.run_setColor color hn

section join
variable {a : Side} {n f : Shape K V} {c : Cell K V}

theorem painted_join (h : t.Fits ns ((Shape.join a n c f).within π)) (color : Color) :
    t.Fits ns ((Shape.join a n (c.painted color) f).within π) := by
  rw [← Shape.painted_join]
  exact h.painted color

theorem painted_far (h : t.Fits ns ((Shape.join a n c f).within π)) (color : Color) :
    t.Fits ns ((Shape.join a n c (f.painted color)).within π) := by
  rw [Shape.within_sibling] at h ⊢
  exact h.painted color

theorem run_setColor_join (h : t.Fits ns ((Shape.join a n c f).within π)) (color : Color) :
    (Edit.setColor c.handle color).run (t.draw ns ((Shape.join a n c f).within π)) =
      .ok () (t.draw ns ((Shape.join a n (c.painted color) f).within π)) := by
  have hrun := h.run_setColor color fun hn => absurd hn (Shape.join_ne_nil a n c f)
  rwa [Shape.root_join, Shape.painted_join] at hrun

theorem run_setColor_far (h : t.Fits ns ((Shape.join a n c f).within π)) (color : Color)
    (hf : f = .nil → color = .black) :
    (Edit.setColor f.root color).run (t.draw ns ((Shape.join a n c f).within π)) =
      .ok () (t.draw ns ((Shape.join a n c (f.painted color)).within π)) := by
  rw [Shape.within_sibling] at h
  simp only [Shape.within_sibling]
  exact h.run_setColor color hf

end join

end Fits
end Tree
end RedBlack
