import RedBlack.Proofs.LackRepair
import RedBlack.Proofs.Stock
import RedBlack.Proofs.Unlinking
import RedBlack.Proofs.Walks

/-! Deletion: the entry goes, the others keep their order and their slots, and the colors are right
again. -/
namespace RedBlack
variable {K V : Type}

structure Misses (x : Shape K V) (ρ : Path K V) (missing : Color) : Prop where
  wellColored : missing = .red → (x.within ρ).WellColored
  lacksBlack : missing = .black → LacksBlack x ρ

theorem Shape.WellColored.misses {a : Side} {x : Shape K V} {z : Cell K V} {π : Path K V}
    (h : ((Shape.join a x z .nil).within π).WellColored) : Misses x π z.color := by
  obtain ⟨hroot, hnored, hπ, n, hn, hm⟩ := h.focus
  rw [Shape.color_join] at hroot hπ
  obtain ⟨hz, hx, -⟩ := (Shape.noRedRed_join ..).1 hnored
  obtain ⟨m, rfl, hxm, hnil⟩ := (Shape.balanced_join ..).1 hn
  constructor
  · intro hred
    rw [hred] at hm
    exact Shape.wellColored_within (hz hred).1 (Path.rootColor_black hroot) hx hπ.black hxm hm
  · intro hblack
    rw [hblack] at hm
    exact ⟨Shape.noRedRed_painted_black hx, hπ.black, Path.rootColor_black hroot, m, hxm, hm⟩

theorem Misses.congr {a : Side} {x : Shape K V} {z y : Cell K V} {sib : Shape K V} {ρ π : Path K V}
    {missing : Color} (h : Misses x (ρ ++ ⟨a, z, sib⟩ :: π) missing) (hy : y.color = z.color) :
    Misses x (ρ ++ ⟨a, y, sib⟩ :: π) missing := by
  constructor
  · intro hred
    obtain ⟨hroot, hx, hπ, n, hn, hm⟩ := (h.wellColored hred).focus
    obtain ⟨hc, hb, hr⟩ := Path.color_congr a sib hy ρ π x.color n
    exact Shape.wellColored_within rfl (hr.trans hroot) hx (hc.2 hπ) hn (hb.2 hm)
  · intro hblack
    obtain ⟨hx, hπ, hroot, n, hn, hm⟩ := h.lacksBlack hblack
    obtain ⟨hc, hb, hr⟩ := Path.color_congr a sib hy ρ π .black (n + 1)
    exact ⟨hx, hc.2 hπ, hr.trans hroot, n, hn, hb.2 hm⟩

namespace Edit
variable {t : Tree K V} {ns : Slot K V} {l r : Shape K V} {z : Cell K V} {π : Path K V}

theorem run_splice_of_left_nil (h : t.Shows ns ((Shape.node .nil z r).within π)) :
    (splice z.handle).run t =
      .ok (r.root, z.color) (t.draw (ns.hung r π.above) (r.within π)) := by
  have hz : t.Shows ns ((Shape.join .right r z .nil).within π) := h
  have hcolor := hz.color_root
  have hrun : (do transplant z.handle r.root; return (r.root, z.color) : Edit K V _).run t =
      .ok (r.root, z.color) (t.draw (ns.hung r π.above) (r.within π)) :=
    Act.run_then hz.run_transplant rfl
  refine Act.look_then hz.child_far (Act.look_then hz.child_near ?_)
  refine Act.look_then h.isNil_nil ?_
  rw [if_pos rfl]
  exact Act.look_then hcolor hrun

theorem run_splice_of_right_nil (h : t.Shows ns ((Shape.node l z .nil).within π)) (hl : l ≠ .nil) :
    (splice z.handle).run t =
      .ok (l.root, z.color) (t.draw (ns.hung l π.above) (l.within π)) := by
  have hz : t.Shows ns ((Shape.join .left l z .nil).within π) := h
  have hleft : t.Shows ns (l.within (⟨.left, z, .nil⟩ :: π)) := h
  have hcolor := hz.color_root
  have hnil := hleft.isNil_root
  rw [Shape.isNil_eq_false hl] at hnil
  have hrun : (do transplant z.handle l.root; return (l.root, z.color) : Edit K V _).run t =
      .ok (l.root, z.color) (t.draw (ns.hung l π.above) (l.within π)) :=
    Act.run_then hz.run_transplant rfl
  refine Act.look_then hz.child_near (Act.look_then hz.child_far (Act.look_then hnil ?_))
  rw [if_neg Bool.false_ne_true]
  refine Act.look_then h.isNil_nil ?_
  rw [if_pos rfl]
  exact Act.look_then hcolor hrun

theorem run_splice_of_successor {y : Cell K V} {Y : Shape K V} {ρ : Path K V}
    (h : t.Shows ns ((Shape.node l z ((Shape.node .nil y Y).within ρ)).within π)) (hl : l ≠ .nil)
    (hy : t.outermost .left ((Shape.node .nil y Y).within ρ).root = .ok y.handle) :
    (splice z.handle).run t =
      .ok (Y.root, y.color) (t.draw (ns.hung Y (ρ ++ [⟨.right, y.painted z.color, l⟩] : Path K V).above)
        ((Shape.node l (y.painted z.color) (Y.within ρ)).within π)) := by
  have hne : (Shape.node .nil y Y).within ρ ≠ .nil := Shape.within_ne_nil (Shape.join_ne_nil .left .nil y Y) ρ
  have hz : t.Shows ns ((Shape.join .left l z ((Shape.node .nil y Y).within ρ)).within π) := h
  have hleft : t.Shows ns (l.within (⟨.left, z, _⟩ :: π)) := h
  have hright : t.Shows ns (((Shape.node .nil y Y).within ρ).within (⟨.right, z, l⟩ :: π)) := h
  have hlnil := hleft.isNil_root
  have hrnil := hright.isNil_root
  rw [Shape.isNil_eq_false hl] at hlnil
  rw [Shape.isNil_eq_false hne] at hrnil
  have hcolor := h.at_successor.color_root
  rw [Shape.root_join, Shape.color_join] at hcolor
  have hpromote : (promote z.handle y.handle).run t = .ok Y.root
      (t.draw (ns.hung Y (ρ ++ [⟨.right, y.painted z.color, l⟩] : Path K V).above)
        ((Shape.node l (y.painted z.color) (Y.within ρ)).within π)) := by
    cases ρ with
    | nil => exact h.run_promote_child hl
    | cons s ρ => exact h.run_promote_deep (List.cons_ne_nil s ρ) hl
  refine Act.look_then hz.child_near (Act.look_then hz.child_far (Act.look_then hlnil ?_))
  rw [if_neg Bool.false_ne_true]
  refine Act.look_then hrnil ?_
  rw [if_neg Bool.false_ne_true]
  exact Act.look_then hy (Act.look_then hcolor (Act.run_then hpromote rfl))

end Edit

theorem exists_splice {l r : Shape K V} {z : Cell K V} {π : Path K V}
    (h : ((Shape.node l z r).within π).WellColored) :
    ∃ x ρ missing, (Shape.within x ρ).items =
        π.before.map Cell.item ++ l.items ++ (r.items ++ π.after.map Cell.item) ∧
      Misses x ρ missing ∧ ρ.length ≤ ((Shape.node l z r).within π).height ∧
      ∀ {t : Tree K V} {ns : Slot K V}, t.Shows ns ((Shape.node l z r).within π) →
        (Edit.splice z.handle).run t =
          .ok (x.root, missing) (t.draw (ns.hung x ρ.above) (x.within ρ)) := by
  have hheight := (Shape.node l z r).length_add_height_le π
  have hlength : π.length ≤ ((Shape.node l z r).within π).height := Nat.le_of_add_right_le hheight
  by_cases hl : l = .nil
  · subst hl
    refine ⟨r, π, z.color, ?_, Shape.WellColored.misses (a := .right) h, hlength,
      Edit.run_splice_of_left_nil⟩
    rw [Shape.items_within, Shape.items_nil, List.append_nil, List.append_assoc]
  by_cases hr : r = .nil
  · subst hr
    refine ⟨l, π, z.color, ?_, Shape.WellColored.misses (a := .left) h, hlength,
      fun hs => Edit.run_splice_of_right_nil hs hl⟩
    rw [Shape.items_within, Shape.items_nil, List.nil_append]
  -- The successor is the leftmost entry on the right; its color goes missing, not that of `z`.
  obtain ⟨y, Y, ρ, rfl, hρ, hrun⟩ := Tree.exists_outermost .left hr
  have hat : ((Shape.join .right Y y .nil).within (ρ ++ ⟨.right, z, l⟩ :: π)).WellColored := by
    rw [Shape.within_append]
    exact h
  have hwithin : Y.within (ρ ++ ⟨.right, y.painted z.color, l⟩ :: π) =
      (Shape.node l (y.painted z.color) (Y.within ρ)).within π := Shape.within_append ..
  refine ⟨Y, ρ ++ ⟨.right, y.painted z.color, l⟩ :: π, y.color, ?_, hat.misses.congr rfl, ?_, ?_⟩
  · rw [hwithin, Shape.items_within, Shape.items_node, Shape.items_within_left hρ,
      Shape.items_within_left hρ]
    simp [Shape.join, Shape.items_node]
  · have hright := (Shape.join .left .nil y Y).length_add_height_le ρ
    rw [Shape.height] at hheight
    rw [List.length_append, List.length_cons]
    omega
  · intro t ns hs
    have hy := hrun (π := ⟨.right, z, l⟩ :: π) hs
    rw [hwithin, Edit.run_splice_of_successor hs hl hy]
    cases ρ <;> rfl

def Tree.erased (t : Tree K V) (h : Handle) (es : List Event) (ns : Slot K V) (sh : Shape K V) :
    Tree K V :=
  let u := (({ (t.report es).draw ns sh with size := t.size - 1 } : Tree K V).report
    [.deleted h (t.size - 1)]).put h fun _ => .vacant
  u.withArena (if u.isEmpty then u.arena.restart else u.arena.release h)

theorem Slot.names_hung (ns : Slot K V) (x : Shape K V) (p : Handle) : (ns.hung x p).Names x p := by
  rintro rfl
  rfl

theorem Tree.Fits.hung {t : Tree K V} {ns : Slot K V} {sh : Shape K V} (h : t.Fits ns sh)
    (x : Shape K V) (p : Handle) : t.Fits (ns.hung x p) sh := by
  refine ⟨?_, ?_, h.nodup, h.room⟩
  · unfold Slot.hung
    split <;> exact h.keyless
  · unfold Slot.hung
    split <;> exact h.black

theorem Slot.childless_hung {ns : Slot K V} (h : ns.left = none ∧ ns.right = none) (x : Shape K V)
    (p : Handle) : (ns.hung x p).left = none ∧ (ns.hung x p).right = none := by
  unfold hung
  split <;> exact h

theorem Misses.exists_settle {x : Shape K V} {ρ : Path K V} {missing : Color}
    (h : Misses x ρ missing) :
    ∃ sh rs, (x.within ρ).RotatesBy rs sh ∧ sh.WellColored ∧ rs.length ≤ 3 ∧
      (missing = .red → rs = []) ∧
      ∀ {t : Tree K V} {ns : Slot K V}, t.Fits ns (x.within ρ) → ns.Names x ρ.above →
        (missing = .black → ∃ y u,
          (rounds Edit.liftLack ρ.length x.root).run (t.draw ns (x.within ρ)) = .ok y u) ∧
        (if missing = .black then Edit.settleLack x.root else pure () : Edit K V Unit).run
            (t.draw ns (x.within ρ)) = .ok () ((t.report (Event.rotations rs)).draw ns sh) := by
  cases missing with
  | red =>
    refine ⟨_, [], .still rfl, h.wellColored rfl, Nat.zero_le 3, fun _ => rfl, fun _ _ => ⟨?_, ?_⟩⟩
    · intro hblack
      cases hblack
    · rw [Event.rotations, List.map_nil, Tree.report_nil]
      rfl
  | black =>
    obtain ⟨sh, rs, hrotates, hwc, hlen, hrun⟩ := (h.lacksBlack rfl).run_settleLack
    refine ⟨sh, rs, hrotates, hwc, hlen, ?_, fun hfits hn => ?_⟩
    · intro hred
      cases hred
    · exact ⟨fun _ => (hrun hfits hn).1, (hrun hfits hn).2⟩

theorem Tree.Shows.notMem_erased {t : Tree K V} {ns : Slot K V} {sh sh' : Shape K V} {i : Handle}
    {e : K × V} {b c : List (Handle × K × V)} (h : t.Shows ns sh)
    (hsplit : sh.items = b ++ (i, e) :: c) (hitems : sh'.items = b ++ c) :
    i ∉ Handle.nil :: sh'.handles := by
  have hd := ((Shape.handles_erased hsplit hitems).cons _).nodup_iff.1 h.nodup
  obtain ⟨hnil, hd⟩ := List.nodup_cons.1 hd
  intro hi
  rcases List.mem_cons.1 hi with rfl | hi
  · exact hnil List.mem_cons_self
  · exact (List.nodup_cons.1 hd).1 hi

/-- The work of a deletion up to its end: once the entry is out of the links, there is a repair if a black
entry went missing, and its loop ends after as many rounds as the tree had levels and one. From there at
most three rotations lead to the shape that is left. -/
structure Tree.Unlinks (t : Tree K V) (sh : Shape K V) (i : Handle) (u : Tree K V)
    (rs : List (Side × Handle)) : Prop where
  spliced : ∃ x missing, (Edit.splice i).run t = .ok (x, missing) u ∧ (missing = .red → rs = []) ∧
    (missing = .black → ∃ y u', (rounds Edit.liftLack t.shape.height x).run u = .ok y u')
  few : rs.length ≤ 3
  links : u.shape.RotatesBy rs sh

theorem exists_delete {sh : Shape K V} (hwc : sh.WellColored) {i : Handle} {e : K × V}
    (hi : (i, e) ∈ sh.items) :
    ∃ sh' rs x p before after, sh.items = before ++ (i, e) :: after ∧ sh'.items = before ++ after ∧
      sh'.WellColored ∧
      ∀ {t : Tree K V} {ns : Slot K V}, t.Shows ns sh → (∃ u, t.Unlinks sh' i u rs) ∧
        (Edit.delete i).run t =
          .ok (some e) (t.erased i (Event.rotations rs) (ns.hung x p) sh') := by
  obtain ⟨z, hz, heq⟩ := List.mem_map.1 hi
  obtain ⟨rfl, rfl⟩ := Prod.mk.inj heq
  obtain ⟨l, r, π, rfl⟩ := Shape.exists_within hz
  obtain ⟨x, ρ, missing, hitems, hmisses, hlength, hsplice⟩ := exists_splice hwc
  obtain ⟨sh', rs, hrotates, hwc', hlen, hred, hsettle⟩ := hmisses.exists_settle
  have hsplit : ((Shape.node l z r).within π).items = π.before.map Cell.item ++ l.items ++
      (z.handle, z.entry) :: (r.items ++ π.after.map Cell.item) := by
    simp only [Shape.items_within, Shape.items_node, List.append_assoc, List.cons_append]
    rfl
  have hitems' := hrotates.items.trans hitems
  refine ⟨sh', rs, x, ρ.above, _, _, hsplit, hitems', hwc', ?_⟩
  intro t ns h
  have hsub := Shape.handles_erased_sublist hsplit hitems
  have hnot := h.notMem_erased hsplit hitems'
  have hslot : ((t.report (Event.rotations rs)).draw (ns.hung x ρ.above) sh').arena.slot? z.handle =
      t.arena.slot? z.handle := Arena.slot?_draw_of_notMem _ _
    (fun hn => hnot (hn ▸ List.mem_cons_self)) fun hz => hnot (List.mem_cons_of_mem _ hz)
  have hat : t.entryAt? z.handle = some z.entry := h.lies.entry hz
  obtain ⟨s, hs, he⟩ := Option.bind_eq_some_iff.1 hat
  have hsome : (((t.report (Event.rotations rs)).draw (ns.hung x ρ.above) sh').arena.slot?
      z.handle).isSome := by
    rw [hslot, hs]
    rfl
  have hfits := (h.fits.sublist hsub).hung x ρ.above
  obtain ⟨hloop, hsettled⟩ := hsettle hfits (Slot.names_hung ns x ρ.above)
  refine ⟨⟨_, ⟨x.root, missing, hsplice h, hred, fun hblack => ?_⟩, hlen, ?_⟩, ?_⟩
  · obtain ⟨y, u, hrun⟩ := hloop hblack
    rw [h.shape_eq, ← Nat.add_sub_of_le hlength]
    exact ⟨y, u, Rounds.run_mono hrun _⟩
  · rw [hfits.shows.shape_eq]
    exact hrotates
  · apply Act.run_then rfl
    rw [hat]
    apply Act.run_then (hsplice h)
    apply Act.if_then hsettled
    apply Act.run_then rfl
    apply Act.run_then rfl
    apply Act.run_then (Edit.run_note _ _)
    refine Act.run_then (Act.look_then (Tree.entryOf_eq (hslot.trans hs) he)
      (Act.run_then (Tree.run_modifySlot_eq _ hsome) rfl)) ?_
    exact Act.run_then rfl rfl

theorem filter_ne_of_split {b c : List (Handle × K × V)} {x : Handle × K × V}
    (hne : ∀ y ∈ b ++ c, y.1 ≠ x.1) : (b ++ x :: c).filter (fun y => y.1 ≠ x.1) = b ++ c := by
  have hx : decide (x.1 ≠ x.1) = false := decide_eq_false fun h => h rfl
  rw [List.filter_append, List.filter_cons_of_neg (by rw [hx]; decide), ← List.filter_append]
  exact List.filter_eq_self.2 fun y hy => decide_eq_true (hne y hy)

namespace Tree
variable {t : Tree K V} {ns ns' : Slot K V} {sh sh' : Shape K V} {i : Handle} {e : K × V}
  {b c : List (Handle × K × V)}

theorem Shows.filter_erased (h : t.Shows ns sh) (hsplit : sh.items = b ++ (i, e) :: c)
    (hitems : sh'.items = b ++ c) : sh.items.filter (fun x => x.1 ≠ i) = b ++ c := by
  have hnot := h.notMem_erased hsplit hitems
  rw [hsplit]
  refine filter_ne_of_split (x := (i, e)) fun x hx heq => hnot (List.mem_cons_of_mem _ ?_)
  rw [Shape.handles_eq_map_items, hitems, ← show x.1 = i from heq]
  exact List.mem_map_of_mem hx

def without (t : Tree K V) (h : Handle) (ns : Slot K V) (sh : Shape K V) : Arena K V :=
  ((t.draw ns sh).put h fun _ => .vacant).arena

theorem erased_eq (t : Tree K V) (h : Handle) (es : List Event) (ns : Slot K V) (sh : Shape K V) :
    (t.erased h es ns sh).arena =
      if t.size - 1 == 0 then (t.without h ns sh).restart else (t.without h ns sh).release h := rfl

theorem slot?_restart_nil (a : Arena K V) : a.restart.slot? .nil = a.slot? .nil := by
  simp only [Arena.restart, Arena.slot?, Handle.nil, Array.take, Array.getElem?_extract]
  split
  · rfl
  · have hsize : a.slots.size = 0 := by omega
    exact (Array.getElem?_eq_none (Nat.le_of_eq hsize)).symm

theorem size_restart {a : Arena K V} (h : 0 < a.slots.size) : a.restart.slots.size = 1 := by
  simp only [Arena.restart, Array.take, Array.size_extract]
  omega

section
variable (h : t.Holds ns sh) (hsplit : sh.items = b ++ (i, e) :: c) (hitems : sh'.items = b ++ c)

include h hsplit hitems in
theorem Holds.size_erased : t.size - 1 = sh'.items.length := by
  rw [h.size, hsplit, hitems, List.length_append, List.length_append, List.length_cons]
  rfl

theorem redrawn_without (t : Tree K V) (i : Handle) (ns : Slot K V) (sh : Shape K V) :
    t.Redrawn ((t.draw ns sh).put i fun _ => .vacant) (i :: .nil :: sh.handles) :=
  ((Redrawn.refl t _).draw ns fun _ hj => List.mem_cons_of_mem _ hj).put _ List.mem_cons_self

include h hsplit hitems in
theorem Holds.shows_without (hns : t.Fits ns' sh') :
    ((t.draw ns' sh').put i fun _ => .vacant).Shows ns' sh' := by
  have hnot := h.shows.notMem_erased hsplit hitems
  have hshows := hns.shows
  have hkeep {j : Handle} (hj : j ∈ Handle.nil :: sh'.handles) : i ≠ j := by
    rintro rfl
    exact hnot hj
  refine ⟨hshows.root, ?_, hshows.keyless, hshows.black, ?_, hshows.nodup⟩
  · exact (slot?_put_of_ne _ _ (hkeep List.mem_cons_self)).trans hshows.nil
  · refine hshows.lies.congr fun j hj => slot?_put_of_ne _ _ (hkeep (List.mem_cons_of_mem _ hj))

include h hsplit hitems in
theorem Holds.sorted_without : t.order.Sorted sh'.items := by
  have hs := h.sorted
  rw [hsplit] at hs
  rw [hitems]
  exact hs.sublist ((List.Sublist.refl _).append (List.sublist_cons_self ..))

include h hsplit hitems in
theorem Holds.vacant_without : ∀ j ∈ i :: t.arena.free,
    ((t.draw ns' sh').put i fun _ => .vacant).arena.slot? j = some .vacant := by
  have hperm := Shape.handles_erased hsplit hitems
  intro j hj
  by_cases hij : j = i
  · subst hij
    have hmem : j ∈ sh.handles := hperm.mem_iff.2 List.mem_cons_self
    have hsome : ((t.draw ns' sh').arena.slot? j).isSome := by
      rw [Arena.slot?_isSome_iff, (show (t.draw ns' sh').arena.slots.size = _ from
        Arena.size_draw ..), ← Arena.slot?_isSome_iff]
      exact h.shows.slot_of_mem (List.mem_cons_of_mem _ hmem)
    obtain ⟨s, hs⟩ := Option.isSome_iff_exists.1 hsome
    rw [slot?_put_self, hs]
    rfl
  · have hfree : j ∈ t.arena.free := (List.mem_cons.1 hj).resolve_left hij
    have hunused := h.unused_of_free hfree
    refine ((redrawn_without t i ns' sh').slot j fun hmem => ?_).trans (h.vacant j hfree)
    rcases List.mem_cons.1 hmem with heq | hmem
    · exact hij heq
    · refine hunused ((hperm.cons _).mem_iff.2 ?_)
      rcases List.mem_cons.1 hmem with hn | hmem
      · exact hn ▸ List.mem_cons_self
      · exact List.mem_cons_of_mem _ (List.mem_cons_of_mem _ hmem)

include h hsplit hitems in
theorem Holds.erased_last (hns : t.Fits ns' .nil) (hchildless : ns'.left = none ∧ ns'.right = none)
    (hnil : sh' = .nil) (es : List Event) :
    (t.erased i es ns' .nil).Holds ns' .nil ∧ (t.erased i es ns' .nil).stock = t.stock.give i := by
  subst hnil
  have hsize : t.size - 1 = 0 := h.size_erased hsplit hitems
  have hone : t.size = 1 := by
    have hlen := h.size
    rw [hsplit, List.length_append, List.length_cons] at hlen
    omega
  have hshows := h.shows_without hsplit hitems hns
  have hr := redrawn_without t i ns' .nil
  have harena : (t.erased i es ns' .nil).arena = (t.without i ns' .nil).restart := by
    rw [erased_eq, hsize]
    rfl
  have hlength : (t.without i ns' .nil).restart.slots.size = 1 :=
    size_restart (hr.length ▸ h.nonempty)
  have hpositions : (t.without i ns' .nil).restart.positions = [] := by
    rw [Arena.positions, hlength]
    rfl
  refine ⟨⟨⟨rfl, ?_, hshows.keyless, hshows.black, trivial, hshows.nodup⟩, hchildless,
    ⟨rfl, trivial, 0, rfl⟩, List.Pairwise.nil, hsize, ?_, ?_, ?_, ?_⟩, ?_⟩
  · rw [harena, slot?_restart_nil]
    exact hshows.nil
  · rw [harena, hpositions]
    exact .refl _
  · rw [harena]
    exact List.forall_mem_nil _
  · intro _
    rw [harena]
    rfl
  · intro _
    rw [harena, hlength]
    exact Nat.le_max_left ..
  · have hsize' : (t.erased i es ns' .nil).size = 0 := hsize
    rw [stock, harena, hlength, hsize', Stock.give, if_pos (show t.stock.live = 1 from hone)]
    rfl

include h hsplit hitems in
theorem Holds.erased_more (hns : t.Fits ns' sh') (hchildless : ns'.left = none ∧ ns'.right = none)
    (hwc : sh'.WellColored) (hne : sh' ≠ .nil) (es : List Event) :
    (t.erased i es ns' sh').Holds ns' sh' ∧ (t.erased i es ns' sh').stock = t.stock.give i := by
  have hperm := Shape.handles_erased hsplit hitems
  have hsize := h.size_erased hsplit hitems
  have hshows := h.shows_without hsplit hitems hns
  have hr := redrawn_without t i ns' sh'
  have hmore : t.size - 1 ≠ 0 := by
    rw [hsize]
    cases sh' with
    | nil => exact absurd rfl hne
    | node l c r => simp [Shape.items_node]
  have harena : (t.erased i es ns' sh').arena = (t.without i ns' sh').release i := by
    rw [erased_eq, if_neg (by rwa [beq_iff_eq])]
  have hfree : ((t.without i ns' sh').release i).free = i :: t.arena.free := congrArg _ hr.free
  have hlength : ((t.without i ns' sh').release i).slots.size = t.arena.slots.size := hr.length
  have hslot (j : Handle) : ((t.without i ns' sh').release i).slot? j =
      ((t.draw ns' sh').put i fun _ => .vacant).arena.slot? j := rfl
  refine ⟨⟨⟨rfl, ?_, hshows.keyless, hshows.black, ?_, hshows.nodup⟩, hchildless, hwc,
    h.sorted_without hsplit hitems, hsize, ?_, ?_, fun hn => absurd hn hne, ?_⟩, ?_⟩
  · rw [harena]
    exact hshows.nil
  · rw [harena]
    exact hshows.lies
  · rw [harena, hfree, Arena.positions_congr hlength]
    exact (List.perm_middle.trans (hperm.symm.append_right _)).trans h.handles
  · intro j hj
    rw [harena, hfree] at hj
    rw [harena, hslot]
    exact h.vacant_without hsplit hitems j hj
  · intro hw
    rw [harena, hlength]
    exact h.width hw
  · have hsize' : (t.erased i es ns' sh').size = t.size - 1 := rfl
    have hlive : t.stock.live ≠ 1 := fun hone => hmore (congrArg (· - 1) hone)
    rw [stock, harena, hfree, hlength, hsize', Stock.give, if_neg hlive]
    rfl

end

structure DeleteWork (t t' : Tree K V) (i : Handle) (u : Tree K V) (rs : List (Side × Handle)) :
    Prop where
  unlinks : t.Unlinks t'.shape i u rs
  reports : t'.journal =
    t.journal ++ (Event.rotations rs ++ [Event.deleted i t'.size]).toArray

theorem Holds.exists_delete (h : t.Holds ns sh) (hi : (i, e) ∈ sh.items) :
    ∃ ns' sh' t', (Edit.delete i).run t = .ok (some e) t' ∧ t'.Holds ns' sh' ∧
      sh'.items = sh.items.filter (fun x => x.1 ≠ i) ∧ t'.stock = t.stock.give i ∧
      t'.order = t.order ∧ t'.width = t.width ∧ ∃ u rs, t.DeleteWork t' i u rs := by
  obtain ⟨sh', rs, x, p, b, c, hsplit, hitems, hwc, hrun⟩ := RedBlack.exists_delete h.colored hi
  have hfits := (h.shows.fits.sublist (Shape.handles_erased_sublist hsplit hitems)).hung x p
  have hchildless := Slot.childless_hung h.childless x p
  have herased : (t.erased i (Event.rotations rs) (ns.hung x p) sh').Holds (ns.hung x p) sh' ∧
      (t.erased i (Event.rotations rs) (ns.hung x p) sh').stock = t.stock.give i := by
    by_cases hnil : sh' = .nil
    · rw [hnil] at hfits ⊢
      exact h.erased_last hsplit hitems hfits hchildless hnil _
    · exact h.erased_more hsplit hitems hfits hchildless hwc hnil _
  obtain ⟨⟨u, hunlinks⟩, hdelete⟩ := hrun h.shows
  refine ⟨ns.hung x p, sh', t.erased i (Event.rotations rs) (ns.hung x p) sh', hdelete, herased.1, ?_,
    herased.2, rfl, rfl, u, rs, ?_, ?_⟩
  · exact hitems.trans (h.shows.filter_erased hsplit hitems).symm
  · rw [herased.1.shows.shape_eq]
    exact hunlinks
  · rw [← List.append_toArray, ← Array.append_assoc]
    rfl

theorem run_delete_stale (hi : t.entryAt? i = none) : (Edit.delete i).run t = .ok none t := by
  apply Act.run_then rfl
  rw [hi]
  rfl

theorem run_remove_absent {k : K} (hsearch : t.search k = .ok none) :
    (Edit.remove k).run t = .ok none t := Act.look_then hsearch rfl

theorem run_remove {t' : Tree K V} {k : K} {e : K × V} (hsearch : t.search k = .ok (some i))
    (hdelete : (Edit.delete i).run t = .ok (some e) t') : (Edit.remove k).run t = .ok (some e.2) t' :=
  Act.look_then hsearch (Act.run_then hdelete rfl)

end Tree
end RedBlack
