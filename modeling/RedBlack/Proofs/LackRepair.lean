import RedBlack.Proofs.Balance
import RedBlack.Proofs.Rotation
import RedBlack.Proofs.Turning

/-! The repair of a place that lacks a black entry above it: it ends, keeps the entries in their order
and their slots, and leaves a tree with the colors of a red-black tree. -/
namespace RedBlack
variable {K V : Type}

/-- The ways down through `x` have one black entry less than the others; `x` may be red below a red
entry. The root is black unless it is `x`. -/
structure LacksBlack (x : Shape K V) (π : Path K V) : Prop where
  noRedRed : (x.painted .black).NoRedRed
  around : π.NoRedRed .black
  root : π.rootColor .black = .black
  balanced : ∃ n, x.Balanced n ∧ π.Balanced (n + 1)

/-- Where there is no entry at a place, the nil slot names the handle above the place. -/
def Slot.Names (ns : Slot K V) (x : Shape K V) (p : Handle) : Prop := x = .nil → ns.parent = some p

namespace Tree
variable {t : Tree K V} {ns : Slot K V} {x : Shape K V} {s : Step K V} {π : Path K V}

theorem Fits.parent_place (h : t.Fits ns (x.within π)) (hn : ns.Names x π.above) :
    (t.draw ns (x.within π)).parent x.root = .ok π.above := by
  by_cases hx : x = .nil
  · subst hx
    exact Tree.parent_eq h.shows.nil (hn rfl)
  · exact h.shows.parent_root hx

theorem Shows.root_ne (h : t.Shows ns (x.within (s :: π))) : x.root ≠ t.root := by
  have hd := h.nodup_focus
  have hroot : t.root ∈ Path.handles (s :: π) := by
    rw [h.root]
    exact Shape.root_within_mem x s π
  obtain ⟨hnil, hd⟩ := List.nodup_cons.1 hd
  intro heq
  by_cases hx : x = .nil
  · subst hx
    rw [Shape.root_nil] at heq
    exact hnil (List.mem_append_right _ (heq ▸ hroot))
  · exact (List.nodup_append.1 hd).2.2 _ (Shape.root_mem_handles hx) _ hroot heq

end Tree

namespace Edit
variable {t : Tree K V} {ns : Slot K V} {a : Side} {x near far m : Shape K V} {p w c : Cell K V}
  {π : Path K V}

/-! ### The parts of a round -/

theorem run_blackSibling_black {S : Shape K V} (h : t.Fits ns ((Shape.join a x p S).within π))
    (hn : ns.Names x p.handle) (hS : S.color = .black) :
    (blackSibling a x.root).run (t.draw ns ((Shape.join a x p S).within π)) =
      .ok S.root (t.draw ns ((Shape.join a x p S).within π)) := by
  have hparent := Tree.Fits.parent_place (π := ⟨a, p, S⟩ :: π) h hn
  have hsib : t.Fits ns (S.within (⟨a.other, p, x⟩ :: π)) := by
    rwa [← Shape.within_sibling]
  have hcolor := hsib.shows.color_root
  rw [← Shape.within_sibling, hS] at hcolor
  refine Act.look_then hparent (Act.look_then h.shows.child_far (Act.look_then hcolor ?_))
  rw [if_neg Color.noConfusion]
  rfl

theorem run_blackSibling_red (h : t.Fits ns ((Shape.join a x p (.join a near w far)).within π))
    (hn : ns.Names x p.handle) (hw : w.color = .red) :
    (blackSibling a x.root).run (t.draw ns ((Shape.join a x p (.join a near w far)).within π)) =
      .ok near.root ((t.report [.rotated a p.handle]).draw ns
        ((Shape.join a (.join a x (p.painted .red) near) (w.painted .black) far).within π)) := by
  have hparent := Tree.Fits.parent_place (π := ⟨a, p, .join a near w far⟩ :: π) h hn
  have hsib : t.Fits ns ((Shape.join a near w far).within (⟨a.other, p, x⟩ :: π)) := by
    rwa [← Shape.within_sibling]
  have hchild := h.shows.child_far
  have hcolor := hsib.shows.color_root
  have hw' := hsib.run_setColor_join .black
  have h' := hsib.painted_join .black
  rw [Shape.root_join] at hchild hcolor
  rw [Shape.color_join, hw] at hcolor
  rw [← Shape.within_sibling] at h' hcolor
  simp only [← Shape.within_sibling] at hw'
  have h'' := h'.painted_join .red
  have hrotated : (t.report [.rotated a p.handle]).Fits ns ((Shape.join a
      (.join a x (p.painted .red) near) (w.painted .black) far).within π) := h''.rotated.report _
  have hparent' := Tree.Fits.parent_place (π := ⟨a, p.painted .red, near⟩ ::
    ⟨a, w.painted .black, far⟩ :: π) hrotated hn
  have hchild' := Tree.Shows.child_far (π := ⟨a, w.painted .black, far⟩ :: π) hrotated.shows
  refine Act.look_then hparent (Act.look_then hchild (Act.look_then hcolor ?_))
  rw [if_pos rfl]
  apply Act.run_then hw'
  apply Act.run_then (h'.run_setColor_join .red)
  refine Act.run_then h''.run_rotate (Act.look_then hparent' ?_)
  exact Act.run_look_ok hchild'

theorem run_redOutward_far (h : t.Fits ns ((Shape.join a near w far).within π))
    (hfar : far.color = .red) (x : Handle) :
    (redOutward a x w.handle).run (t.draw ns ((Shape.join a near w far).within π)) =
      .ok w.handle (t.draw ns ((Shape.join a near w far).within π)) := by
  have hchild : t.Fits ns (far.within (⟨a.other, w, near⟩ :: π)) := by
    rwa [← Shape.within_sibling]
  have hcolor := hchild.shows.color_root
  rw [← Shape.within_sibling, hfar] at hcolor
  refine Act.look_then h.shows.child_far (Act.look_then hcolor ?_)
  rw [if_neg Color.noConfusion]
  rfl

theorem run_redOutward_near {n f : Shape K V}
    (h : t.Fits ns ((Shape.join a x p (.join a (.join a n c f) w far)).within π))
    (hn : ns.Names x p.handle) (hfar : far.color = .black) :
    (redOutward a x.root w.handle).run
        (t.draw ns ((Shape.join a x p (.join a (.join a n c f) w far)).within π)) =
      .ok c.handle ((t.report [.rotated a.other w.handle]).draw ns ((Shape.join a x p
        (.join a n (c.painted .black) (.join a f (w.painted .red) far))).within π)) := by
  have hw : t.Fits ns ((Shape.join a (.join a n c f) w far).within (⟨a.other, p, x⟩ :: π)) := by
    rwa [← Shape.within_sibling]
  have hchild : t.Fits ns (far.within (⟨a.other, w, .join a n c f⟩ :: ⟨a.other, p, x⟩ :: π)) := by
    rwa [← Shape.within_sibling]
  have hcolor := hchild.shows.color_root
  rw [← Shape.within_sibling, hfar] at hcolor
  have hnear : t.Fits ns ((Shape.join a n c f).within (⟨a, w, far⟩ :: ⟨a.other, p, x⟩ :: π)) := hw
  have hw' : t.Fits ns ((Shape.join a (.join a n (c.painted .black) f) w far).within
      (⟨a.other, p, x⟩ :: π)) := hnear.painted_join .black
  have hturned : t.Fits ns ((Shape.join a.other far (w.painted .red)
      (.join a.other f (c.painted .black) n)).within (⟨a.other, p, x⟩ :: π)) := by
    rw [Shape.join_other, Shape.join_other]
    exact hw'.painted_join .red
  have hrotate := hturned.run_rotate
  have hrotated := hturned.rotated.report [.rotated a.other w.handle]
  simp only [Shape.join_other] at hrotate hrotated
  simp only [← Shape.within_sibling] at hrotated
  have hparent' := Tree.Fits.parent_place (π := ⟨a, p, _⟩ :: π) hrotated hn
  have hchild' := hrotated.shows.child_far
  rw [Shape.root_join] at hchild'
  have hnearChild := hw.shows.child_near
  rw [Shape.root_join] at hnearChild
  simp only [Shape.within_sibling a x p]
  refine Act.look_then hw.shows.child_far (Act.look_then hcolor ?_)
  rw [if_pos rfl]
  refine Act.look_then hnearChild (Act.run_then (hnear.run_setColor_join .black) ?_)
  apply Act.run_then (hw'.run_setColor_join .red)
  apply Act.run_then hrotate
  simp only [← Shape.within_sibling]
  exact Act.look_then hparent' (Act.run_look_ok hchild')

theorem run_fillLack (h : t.Fits ns ((Shape.join a x p (.join a near w far)).within π))
    (hn : ns.Names x p.handle) :
    (fillLack a x.root w.handle).run
        (t.draw ns ((Shape.join a x p (.join a near w far)).within π)) =
      .ok () ((t.report [.rotated a p.handle]).draw ns ((Shape.join a
        (.join a x (p.painted .black) near) (w.painted p.color) (far.painted .black)).within π)) := by
  have hparent := Tree.Fits.parent_place (π := ⟨a, p, .join a near w far⟩ :: π) h hn
  have hcolor := h.shows.color_root
  rw [Shape.root_join, Shape.color_join] at hcolor
  have hw : t.Fits ns ((Shape.join a near w far).within (⟨a.other, p, x⟩ :: π)) := by
    rwa [← Shape.within_sibling]
  have hsetW := hw.run_setColor_join p.color
  simp only [← Shape.within_sibling] at hsetW
  have h₁ : t.Fits ns ((Shape.join a x p (.join a near (w.painted p.color) far)).within π) := by
    rw [Shape.within_sibling]
    exact hw.painted_join p.color
  have h₂ := h₁.painted_join .black
  have hw₂ : t.Fits ns ((Shape.join a near (w.painted p.color) far).within
      (⟨a.other, p.painted .black, x⟩ :: π)) := by
    rwa [← Shape.within_sibling]
  have hchild := hw₂.shows.child_far
  have hsetFar := hw₂.run_setColor_far .black fun _ => rfl
  have h₃ := hw₂.painted_far .black
  simp only [← Shape.within_sibling] at hchild hsetFar h₃
  refine Act.look_then hparent (Act.look_then hcolor (Act.run_then hsetW ?_))
  refine Act.run_then (h₁.run_setColor_join .black) (Act.look_then hchild ?_)
  exact Act.run_then hsetFar h₃.run_rotate

/-! ### Rounds -/

theorem run_liftLack_root (t : Tree K V) (ns : Slot K V) (x : Shape K V) :
    (liftLack x.root).run (t.draw ns x) = .ok (.done x.root) (t.draw ns x) := by
  have hroot : x.root = (t.draw ns x).root := rfl
  apply Act.run_then rfl
  rw [if_pos hroot]
  rfl

theorem run_liftLack_red (h : t.Fits ns (x.within π)) (hx : x.color = .red) :
    (liftLack x.root).run (t.draw ns (x.within π)) =
      .ok (.done x.root) (t.draw ns (x.within π)) := by
  have hcolor := h.shows.color_root
  rw [hx] at hcolor
  apply Act.run_then rfl
  split
  · rfl
  · refine Act.look_then hcolor ?_
    rw [if_pos rfl]
    rfl

theorem run_liftLack_black {S : Shape K V} (h : t.Fits ns ((Shape.join a x p S).within π))
    (hn : ns.Names x p.handle) (hx : x.color = .black) (hS : S ≠ .nil) :
    (liftLack x.root).run (t.draw ns ((Shape.join a x p S).within π)) =
      (blackSibling a x.root >>= shareLack a x.root).run
        (t.draw ns ((Shape.join a x p S).within π)) := by
  have hplace : t.Fits ns (x.within (⟨a, p, S⟩ :: π)) := h
  have hside := hplace.shows.sideOf_root (hplace.parent_place hn) (.inr hS)
  have hroot : x.root ≠ (t.draw ns ((Shape.join a x p S).within π)).root := hplace.shows.root_ne
  have hcolor := hplace.shows.color_root
  rw [hx] at hcolor
  apply Act.run_then rfl
  rw [if_neg hroot]
  refine Act.look_then hcolor ?_
  rw [if_neg Color.noConfusion]
  exact Act.look_then hside rfl

theorem readings_sibling (h : t.Fits ns ((Shape.join a x p (.join a near w far)).within π)) :
    let u := t.draw ns ((Shape.join a x p (.join a near w far)).within π)
    u.isNil w.handle = .ok false ∧ u.child a w.handle = .ok near.root ∧
      u.child a.other w.handle = .ok far.root ∧ u.color near.root = .ok near.color ∧
      u.color far.root = .ok far.color := by
  have hw : t.Fits ns ((Shape.join a near w far).within (⟨a.other, p, x⟩ :: π)) := by
    rwa [← Shape.within_sibling]
  have hnear : t.Fits ns (near.within (⟨a, w, far⟩ :: ⟨a.other, p, x⟩ :: π)) := hw
  have hfar : t.Fits ns (far.within (⟨a.other, w, near⟩ :: ⟨a.other, p, x⟩ :: π)) := by
    rwa [← Shape.within_sibling]
  have hnil := hw.shows.isNil_root
  have hn := hw.shows.child_near
  have hf := hw.shows.child_far
  have hnc := hnear.shows.color_root
  have hfc := hfar.shows.color_root
  rw [Shape.root_join, Shape.isNil_join] at hnil
  rw [Shape.within_cons] at hnc
  simp only [← Shape.within_sibling] at hnil hn hf hnc hfc
  exact ⟨hnil, hn, hf, hnc, hfc⟩

theorem run_shareLack_lift (h : t.Fits ns ((Shape.join a x p (.join a near w far)).within π))
    (hn : ns.Names x p.handle) (hnear : near.color = .black) (hfar : far.color = .black) :
    (shareLack a x.root w.handle).run
        (t.draw ns ((Shape.join a x p (.join a near w far)).within π)) =
      .ok (.again p.handle) (t.draw ns
        ((Shape.join a x p (.join a near (w.painted .red) far)).within π)) := by
  obtain ⟨hnil, hnc, hfc, hncol, hfcol⟩ := readings_sibling h
  rw [hnear] at hncol
  rw [hfar] at hfcol
  have hw : t.Fits ns ((Shape.join a near w far).within (⟨a.other, p, x⟩ :: π)) := by
    rwa [← Shape.within_sibling]
  have hset := hw.run_setColor_join .red
  have hw' := hw.painted_join .red
  simp only [← Shape.within_sibling] at hset hw'
  have hparent := Tree.Fits.parent_place (π := ⟨a, p, _⟩ :: π) hw' hn
  refine Act.look_then hnil (Act.look_then hnc (Act.look_then hfc ?_))
  refine Act.look_then hncol (Act.look_then hfcol ?_)
  rw [if_pos ⟨rfl, rfl⟩]
  exact Act.run_then hset (Act.look_then hparent rfl)

theorem run_shareLack_far (h : t.Fits ns ((Shape.join a x p (.join a near w far)).within π))
    (hn : ns.Names x p.handle) (hfar : far.color = .red) :
    (shareLack a x.root w.handle).run
        (t.draw ns ((Shape.join a x p (.join a near w far)).within π)) =
      let sh := (Shape.join a (.join a x (p.painted .black) near) (w.painted p.color)
        (far.painted .black)).within π
      .ok (.again sh.root) ((t.report [.rotated a p.handle]).draw ns sh) := by
  obtain ⟨hnil, hnc, hfc, hncol, hfcol⟩ := readings_sibling h
  rw [hfar] at hfcol
  have hw : t.Fits ns ((Shape.join a near w far).within (⟨a.other, p, x⟩ :: π)) := by
    rwa [← Shape.within_sibling]
  have houtward := run_redOutward_far hw hfar x.root
  simp only [← Shape.within_sibling] at houtward
  refine Act.look_then hnil (Act.look_then hnc (Act.look_then hfc ?_))
  refine Act.look_then hncol (Act.look_then hfcol ?_)
  rw [if_neg fun hb => Color.noConfusion hb.2]
  exact Act.run_then houtward (Act.run_then (run_fillLack h hn) (Act.run_then rfl rfl))

theorem run_shareLack_near {n f : Shape K V}
    (h : t.Fits ns ((Shape.join a x p (.join a (.join a n c f) w far)).within π))
    (hn : ns.Names x p.handle) (hc : c.color = .red) (hfar : far.color = .black) :
    (shareLack a x.root w.handle).run
        (t.draw ns ((Shape.join a x p (.join a (.join a n c f) w far)).within π)) =
      let sh := (Shape.join a (.join a x (p.painted .black) n) (c.painted p.color)
        (.join a f (w.painted .black) far)).within π
      .ok (.again sh.root)
        ((t.report [.rotated a.other w.handle, .rotated a p.handle]).draw ns sh) := by
  obtain ⟨hnil, hnc, hfc, hncol, hfcol⟩ := readings_sibling h
  rw [Shape.color_join, hc] at hncol
  have houtward := run_redOutward_near h hn hfar
  have hturned : (t.report [.rotated a.other w.handle]).Fits ns ((Shape.join a x p
      (.join a n (c.painted .black) (.join a f (w.painted .red) far))).within π) := by
    refine (h.of_items (Shape.items_within_congr ?_ π)).report _
    refine Shape.items_join_congr _ rfl rfl (.trans ?_ (Shape.items_rotated ..).symm)
    exact Shape.items_join_congr _ rfl rfl (Shape.items_join_congr _ rfl rfl rfl)
  have hfill := run_fillLack hturned hn
  rw [Tree.report_report, Shape.painted_join] at hfill
  refine Act.look_then hnil (Act.look_then hnc (Act.look_then hfc ?_))
  refine Act.look_then hncol (Act.look_then hfcol ?_)
  rw [if_neg fun hb => Color.noConfusion hb.1]
  exact Act.run_then houtward (Act.run_then hfill (Act.run_then rfl rfl))

theorem run_liftLack_turn (h : t.Fits ns ((Shape.join a x p (.join a near w far)).within π))
    (hn : ns.Names x p.handle) (hx : x.color = .black) (hw : w.color = .red)
    (hnear : near.color = .black) (hne : near ≠ .nil) :
    (liftLack x.root).run (t.draw ns ((Shape.join a x p (.join a near w far)).within π)) =
      (liftLack x.root).run ((t.report [.rotated a p.handle]).draw ns
        ((Shape.join a (.join a x (p.painted .red) near) (w.painted .black) far).within π)) := by
  have hturned : (t.report [.rotated a p.handle]).Fits ns ((Shape.join a
      (.join a x (p.painted .red) near) (w.painted .black) far).within π) := by
    refine (h.of_items (Shape.items_within_congr ?_ π)).report _
    apply (Shape.items_rotated ..).trans
    exact Shape.items_join_congr _ rfl rfl (Shape.items_join_congr _ rfl rfl rfl)
  have hplace : (t.report [.rotated a p.handle]).Fits ns ((Shape.join a x (p.painted .red)
      near).within (⟨a, w.painted .black, far⟩ :: π)) := hturned
  have hblack := run_blackSibling_black hplace hn hnear
  rw [run_liftLack_black h hn hx (Shape.join_ne_nil a near w far)]
  apply Act.run_then (run_blackSibling_red h hn hw)
  refine .trans ?_ (run_liftLack_black hplace hn hx hne).symm
  exact (Act.run_then hblack rfl).symm

end Edit

namespace LacksBlack
variable {a : Side} {x near far m : Shape K V} {p w c : Cell K V} {π : Path K V}

theorem settled_root (h : LacksBlack x []) : (x.painted .black).WellColored := by
  obtain ⟨n, hx, -⟩ := h.balanced
  refine ⟨Shape.color_painted_black x, h.noRedRed, ?_⟩
  by_cases hc : x.color = .red
  · exact ⟨n + 1, Shape.balanced_painted_black hx hc⟩
  · rw [Shape.painted_self (Color.ne_red.1 hc)]
    exact ⟨n, hx⟩

theorem settled_red (h : LacksBlack x π) (hx : x.color = .red) :
    ((x.painted .black).within π).WellColored := by
  obtain ⟨n, hn, hπ⟩ := h.balanced
  exact Shape.wellColored_within (Shape.color_painted_black x) h.root h.noRedRed h.around
    (Shape.balanced_painted_black hn hx) hπ

theorem sibling_ne {S : Shape K V} (h : LacksBlack x (⟨a, p, S⟩ :: π)) : S ≠ .nil := by
  obtain ⟨n, -, hS, -⟩ := h.balanced
  rintro rfl
  exact Nat.succ_ne_zero n hS

theorem turned (h : LacksBlack x (⟨a, p, .join a near w far⟩ :: π)) (hw : w.color = .red) :
    LacksBlack x (⟨a, p.painted .red, near⟩ :: ⟨a, w.painted .black, far⟩ :: π) ∧
      near.color = .black := by
  obtain ⟨hp, hsib, hπ⟩ := h.around
  obtain ⟨n, hx, hS, hn⟩ := h.balanced
  obtain ⟨hnc, hfc, hnear, hfar⟩ := (Shape.noRedRed_join_red a hw).1 hsib
  obtain ⟨hnn, hfn⟩ := (Shape.balanced_join_red a hw).1 hS
  have hpb : p.color = .black := by
    apply Color.ne_red.1
    intro hred
    have hsb := (hp hred).2
    rw [Shape.color_join, hw] at hsb
    cases hsb
  have hroot := h.root
  simp only [Path.rootColor, hpb] at hroot hπ hn
  refine ⟨⟨h.noRedRed, ?_, hroot, n, hx, hnn, hfn, hn⟩, hnc⟩
  exact ⟨fun _ => ⟨rfl, hnc⟩, hnear, (Path.noRedRed_cons_black rfl).2 ⟨hfar, hπ⟩⟩

section black
variable (h : LacksBlack x (⟨a, p, .join a near w far⟩ :: π)) (hx : x.color = .black)
  (hw : w.color = .black)

include h hx hw in
theorem around_black : x.NoRedRed ∧ near.NoRedRed ∧ far.NoRedRed ∧ π.NoRedRed p.color ∧
    π.rootColor p.color = .black ∧ ∃ n, x.Balanced n ∧ near.Balanced n ∧ far.Balanced n ∧
      π.Balanced (n + 1 + p.color.weight) := by
  obtain ⟨-, hsib, hπ⟩ := h.around
  obtain ⟨n, hxn, hS, hn⟩ := h.balanced
  obtain ⟨hnear, hfar⟩ := (Shape.noRedRed_join_black a hw).1 hsib
  obtain ⟨m, hm, hnn, hfn⟩ := (Shape.balanced_join_black a hw).1 hS
  obtain rfl := Nat.succ.inj hm
  have hnored := h.noRedRed
  rw [Shape.painted_self hx] at hnored
  exact ⟨hnored, hnear, hfar, hπ, h.root, n, hxn, hnn, hfn, hn⟩

include h hx hw in
theorem lifted (hnear : near.color = .black) (hfar : far.color = .black) :
    LacksBlack (.join a x p (.join a near (w.painted .red) far)) π := by
  obtain ⟨hxc, hnc, hfc, hπ, hroot, n, hxn, hnn, hfn, hn⟩ := around_black h hx hw
  refine ⟨?_, hπ.black, Path.rootColor_black hroot, n + p.color.weight, ?_, ?_⟩
  · rw [Shape.painted_join]
    refine (Shape.noRedRed_join_black a rfl).2 ⟨hxc, ?_⟩
    exact (Shape.noRedRed_join_red a rfl).2 ⟨hnear, hfar, hnc, hfc⟩
  · refine (Shape.balanced_join ..).2 ⟨n, rfl, hxn, ?_⟩
    exact (Shape.balanced_join_red a rfl).2 ⟨hnn, hfn⟩
  · rwa [Nat.add_right_comm] at hn

end black

theorem filled {n : Nat} {R : Shape K V} (hx : x.NoRedRed) (hm : m.NoRedRed) (hR : R.NoRedRed)
    (hRb : R.color = .black) (hπ : π.NoRedRed p.color) (hroot : π.rootColor p.color = .black)
    (hxn : x.Balanced n) (hmn : m.Balanced n) (hRn : R.Balanced (n + 1))
    (hn : π.Balanced (n + 1 + p.color.weight)) :
    ((Shape.join a (.join a x (p.painted .black) m) (c.painted p.color) R).within π).WellColored := by
  refine Shape.wellColored_within (Shape.color_join ..) hroot ?_ hπ ?_ hn
  · refine (Shape.noRedRed_join ..).2 ⟨fun _ => ⟨Shape.color_join .., hRb⟩, ?_, hR⟩
    exact (Shape.noRedRed_join_black a rfl).2 ⟨hx, hm⟩
  · refine (Shape.balanced_join ..).2 ⟨n + 1, rfl, ?_, hRn⟩
    exact (Shape.balanced_join_black a rfl).2 ⟨n, rfl, hxn, hmn⟩

end LacksBlack

/-- The loop of the repair ends, after `d` rounds and one at most: `m` rotations at most lead to another
shape, whose colors are right once the place where the loop ends is black, and are reported. -/
def Edit.LiftsLack (x : Shape K V) (π : Path K V) (m d : Nat) : Prop :=
  ∃ y ρ rs, (x.within π).RotatesBy rs (Shape.within y ρ) ∧
    ((y.painted .black).within ρ).WellColored ∧ rs.length ≤ m ∧
    ∀ {t : Tree K V} {ns : Slot K V}, t.Fits ns (x.within π) → ns.Names x π.above →
      ∀ k, d ≤ k → (rounds Edit.liftLack k x.root).run (t.draw ns (x.within π)) =
        .ok y.root ((t.report (Event.rotations rs)).draw ns (y.within ρ))

namespace Edit.LiftsLack
variable {a : Side} {x near far S : Shape K V} {p w : Cell K V} {π : Path K V} {m d : Nat}

theorem mono {m' d' : Nat} (h : LiftsLack x π m d) (hm : m ≤ m') (hd : d ≤ d') :
    LiftsLack x π m' d' := by
  obtain ⟨y, ρ, rs, hrotates, hwc, hlen, hrun⟩ := h
  exact ⟨y, ρ, rs, hrotates, hwc, Nat.le_trans hlen hm,
    fun hfits hn k hk => hrun hfits hn k (Nat.le_trans hd hk)⟩

theorem root (h : LacksBlack x []) : LiftsLack x [] 0 0 := by
  refine ⟨x, [], [], .still rfl, h.settled_root, Nat.le_refl 0, fun _ _ k _ => ?_⟩
  rw [Event.rotations, List.map_nil, Tree.report_nil]
  exact Rounds.run_done (run_liftLack_root ..) k

theorem red (h : LacksBlack x π) (hx : x.color = .red) : LiftsLack x π 0 0 := by
  refine ⟨x, π, [], .still rfl, h.settled_red hx, Nat.le_refl 0, fun hfits _ k _ => ?_⟩
  rw [Event.rotations, List.map_nil, Tree.report_nil]
  exact Rounds.run_done (run_liftLack_red hfits hx) k

theorem filled (rs : List (Side × Handle)) {sh : Shape K V} (hx : x.color = .black) (hS : S ≠ .nil)
    (hSb : S.color = .black) (hrotates : ((Shape.join a x p S).within π).RotatesBy rs sh)
    (hsh : sh.WellColored) (hlen : rs.length ≤ m)
    (hrun : ∀ {t : Tree K V} {ns : Slot K V}, t.Fits ns ((Shape.join a x p S).within π) →
      ns.Names x p.handle →
      (shareLack a x.root S.root).run (t.draw ns ((Shape.join a x p S).within π)) =
        .ok (.again sh.root) ((t.report (Event.rotations rs)).draw ns sh)) :
    LiftsLack x (⟨a, p, S⟩ :: π) m 1 := by
  refine ⟨sh, [], rs, hrotates, ?_, hlen, ?_⟩
  · rwa [Shape.within_nil, Shape.painted_self hsh.root]
  intro t ns hfits hn k hk
  obtain ⟨k, rfl⟩ := Nat.exists_eq_add_one_of_ne_zero (Nat.ne_zero_of_lt hk)
  have hround := run_liftLack_black hfits hn hx hS
  rw [Act.run_then (run_blackSibling_black hfits hn hSb) (hrun hfits hn)] at hround
  rw [Shape.within_cons, Rounds.run_again hround]
  exact Rounds.run_done (run_liftLack_root ..) k

theorem of_far (h : LacksBlack x (⟨a, p, .join a near w far⟩ :: π)) (hx : x.color = .black)
    (hw : w.color = .black) (hfar : far.color = .red) :
    LiftsLack x (⟨a, p, .join a near w far⟩ :: π) 1 1 := by
  obtain ⟨hxc, hnc, hfc, hπ, hroot, n, hxn, hnn, hfn, hn⟩ := h.around_black hx hw
  have hturn : ((Shape.join a x p (.join a near w far)).within π).Rotates a p.handle
      ((Shape.join a (.join a x (p.painted .black) near) (w.painted p.color)
        (far.painted .black)).within π) := by
    refine (Shape.rotates_near a x p near w far π).recolored (Shape.bare_within_congr ?_ π)
    simp only [Shape.bare_join, Shape.bare_painted]
    rfl
  refine filled [(a, p.handle)] hx h.sibling_ne ((Shape.color_join ..).trans hw)
    (.turn hturn (.still rfl)) ?_ (Nat.le_refl 1) fun hfits hn => ?_
  · exact LacksBlack.filled hxc hnc (Shape.noRedRed_painted_black hfc) (Shape.color_painted_black far) hπ
      hroot hxn hnn (Shape.balanced_painted_black hfn hfar) hn
  · rw [Shape.root_join]
    exact run_shareLack_far hfits hn hfar

theorem of_near (h : LacksBlack x (⟨a, p, .join a near w far⟩ :: π)) (hx : x.color = .black)
    (hw : w.color = .black) (hnear : near.color = .red) (hfar : far.color = .black) :
    LiftsLack x (⟨a, p, .join a near w far⟩ :: π) 2 1 := by
  obtain ⟨n, c, f, rfl⟩ := Shape.exists_join a (Shape.ne_nil_of_red hnear)
  have hc : c.color = .red := (Shape.color_join ..).symm.trans hnear
  obtain ⟨hxc, hnearc, hfc, hπ, hroot, i, hxn, hnn, hfn, hi⟩ := h.around_black hx hw
  obtain ⟨hnb, hfb, hnc, hcf⟩ := (Shape.noRedRed_join_red a hc).1 hnearc
  obtain ⟨hni, hfi⟩ := (Shape.balanced_join_red a hc).1 hnn
  have hrotates : ((Shape.join a x p (.join a (.join a n c f) w far)).within π).RotatesBy
      [(a.other, w.handle), (a, p.handle)]
      ((Shape.join a (.join a x (p.painted .black) n) (c.painted p.color)
        (.join a f (w.painted .black) far)).within π) := by
    have houtward := Shape.rotates_far a n c f w far (⟨a.other, p, x⟩ :: π)
    have hover := Shape.rotates_near a x p n c (.join a f w far) π
    rw [← Shape.within_sibling, ← Shape.within_sibling] at houtward
    refine .turn houtward (.turn (hover.recolored (Shape.bare_within_congr ?_ π)) (.still rfl))
    simp only [Shape.bare_join]
    rfl
  refine filled _ hx h.sibling_ne ((Shape.color_join ..).trans hw) hrotates ?_ (Nat.le_refl 2)
    fun hfits hn => ?_
  · refine LacksBlack.filled hxc hnc ?_ (Shape.color_join ..) hπ hroot hxn hni ?_ hi
    · exact (Shape.noRedRed_join_black a rfl).2 ⟨hcf, hfc⟩
    · exact (Shape.balanced_join_black a rfl).2 ⟨i, rfl, hfi, hfn⟩
  · rw [Shape.root_join]
    exact run_shareLack_near hfits hn hc hfar

theorem lift (hx : x.color = .black) (hw : w.color = .black) (hnear : near.color = .black)
    (hfar : far.color = .black)
    (ih : LiftsLack (.join a x p (.join a near (w.painted .red) far)) π m d) :
    LiftsLack x (⟨a, p, .join a near w far⟩ :: π) m (d + 1) := by
  obtain ⟨y, ρ, rs, hrotates, hwc, hlen, hrun⟩ := ih
  have hbare : ((Shape.join a x p (.join a near w far)).within π).bare =
      ((Shape.join a x p (.join a near (w.painted .red) far)).within π).bare := by
    refine Shape.bare_within_congr ?_ π
    simp only [Shape.bare_join]
    rfl
  refine ⟨y, ρ, rs, hrotates.congr hbare, hwc, hlen, ?_⟩
  intro t ns hfits hn k hk
  obtain ⟨k, rfl⟩ := Nat.exists_eq_add_one_of_ne_zero (Nat.ne_zero_of_lt hk)
  have hsib := Shape.join_ne_nil a near w far
  have hblack : (Shape.join a near w far).color = .black := (Shape.color_join ..).trans hw
  have hround := run_liftLack_black hfits hn hx hsib
  have hshare := run_shareLack_lift hfits hn hnear hfar
  rw [← Shape.root_join a near w far] at hshare
  rw [Act.run_then (run_blackSibling_black hfits hn hblack) hshare] at hround
  have hnext := hrun (hfits.of_items (Shape.items_of_bare hbare.symm))
    (fun hnil => absurd hnil (Shape.join_ne_nil a x p _)) k (Nat.le_of_succ_le_succ hk)
  rw [Shape.root_join] at hnext
  rwa [Shape.within_cons, Rounds.run_again hround]

theorem black (h : LacksBlack x (⟨a, p, S⟩ :: π)) (hx : x.color = .black) (hS : S.color = .black)
    (hm : 2 ≤ m) (ih : ∀ y : Shape K V, LacksBlack y π → y.color = p.color → LiftsLack y π m d) :
    LiftsLack x (⟨a, p, S⟩ :: π) m (d + 1) := by
  obtain ⟨near, w, far, rfl⟩ := Shape.exists_join a h.sibling_ne
  rw [Shape.color_join] at hS
  have hd : 1 ≤ d + 1 := Nat.le_add_left 1 d
  by_cases hfar : far.color = .red
  · exact (of_far h hx hS hfar).mono (Nat.le_of_succ_le hm) hd
  have hfar := Color.ne_red.1 hfar
  by_cases hnear : near.color = .red
  · exact (of_near h hx hS hnear hfar).mono hm hd
  have hnear := Color.ne_red.1 hnear
  exact lift hx hS hnear hfar (ih _ (h.lifted hx hS hnear hfar) (Shape.color_join ..))

theorem turn (h : LacksBlack x (⟨a, p, S⟩ :: π)) (hx : x.color = .black) (hS : S.color = .red) :
    LiftsLack x (⟨a, p, S⟩ :: π) 3 1 := by
  obtain ⟨near, w, far, rfl⟩ := Shape.exists_join a h.sibling_ne
  rw [Shape.color_join] at hS
  obtain ⟨hturned, hnear⟩ := h.turned hS
  obtain ⟨y, ρ, rs, hrotates, hwc, hlen, hrun⟩ := black (m := 2) (d := 0) hturned hx hnear
    (Nat.le_refl 2) fun y hy hyc => (red hy hyc).mono (Nat.zero_le 2) (Nat.le_refl 0)
  have hturn : ((Shape.join a x p (.join a near w far)).within π).Rotates a p.handle
      ((Shape.join a (.join a x (p.painted .red) near) (w.painted .black) far).within π) := by
    refine (Shape.rotates_near a x p near w far π).recolored (Shape.bare_within_congr ?_ π)
    simp only [Shape.bare_join]
    rfl
  refine ⟨y, ρ, (a, p.handle) :: rs, .turn hturn hrotates, hwc, Nat.succ_le_succ hlen, ?_⟩
  intro t ns hfits hn k hk
  have hfits' := (hfits.of_items hturn.items).report [.rotated a p.handle]
  have hround := run_liftLack_turn hfits hn hx hS hnear hturned.sibling_ne
  have hnext := hrun hfits' hn k hk
  rw [Tree.report_report] at hnext
  rw [Shape.within_cons, Rounds.run_congr hround]
  exact hnext

end Edit.LiftsLack

theorem LacksBlack.liftsLack {x : Shape K V} {π : Path K V} (h : LacksBlack x π) :
    Edit.LiftsLack x π 3 π.length := by
  -- A round either ends the loop or hands the lack to the parent. The bound of three rotations is met by a
  -- red sibling alone: it costs one, and its parent is red then, so that two more are enough.
  induction π generalizing x with
  | nil => exact (Edit.LiftsLack.root h).mono (Nat.zero_le 3) (Nat.le_refl 0)
  | cons s π ih =>
    by_cases hx : x.color = .red
    · exact (Edit.LiftsLack.red h hx).mono (Nat.zero_le 3) (Nat.zero_le _)
    have hx := Color.ne_red.1 hx
    by_cases hs : s.sibling.color = .red
    · exact (Edit.LiftsLack.turn h hx hs).mono (Nat.le_refl 3) (Nat.le_add_left 1 π.length)
    · exact Edit.LiftsLack.black h hx (Color.ne_red.1 hs) (by decide) fun y hy _ => ih hy

theorem LacksBlack.run_settleLack {x : Shape K V} {π : Path K V} (h : LacksBlack x π) :
    ∃ sh rs, (x.within π).RotatesBy rs sh ∧ sh.WellColored ∧ rs.length ≤ 3 ∧
      ∀ {t : Tree K V} {ns : Slot K V}, t.Fits ns (x.within π) → ns.Names x π.above →
        (∃ y u, (rounds Edit.liftLack π.length x.root).run (t.draw ns (x.within π)) = .ok y u) ∧
          (Edit.settleLack x.root).run (t.draw ns (x.within π)) =
            .ok () ((t.report (Event.rotations rs)).draw ns sh) := by
  obtain ⟨y, ρ, rs, hrotates, hwc, hlen, hrun⟩ := h.liftsLack
  have hpainted : ((y.painted .black).within ρ).bare = (y.within ρ).bare :=
    Shape.bare_within_congr (Shape.bare_painted ..) ρ
  refine ⟨(y.painted .black).within ρ, rs, hrotates.recolored hpainted, hwc, hlen, ?_⟩
  intro t ns hfits hn
  have hreach : π.length ≤ (t.draw ns (x.within π)).reach := by
    rw [Tree.reach_draw]
    exact Nat.le_of_lt hfits.path_lt_reach
  have hfits' := (hfits.of_items hrotates.items).report (Event.rotations rs)
  refine ⟨⟨_, _, hrun hfits hn _ (Nat.le_refl _)⟩, ?_⟩
  apply Act.run_then rfl
  apply Act.run_then (hrun hfits hn _ hreach)
  exact hfits'.run_setColor .black fun _ => rfl

end RedBlack
