import Mathlib.Data.List.Induction
import RedBlack.Proofs.Balance
import RedBlack.Proofs.Rotation
import RedBlack.Proofs.Turning

/-! The repair of a red entry below a red one: it ends, keeps the entries in their order and their
slots, and leaves a tree with the colors of a red-black tree. -/
namespace RedBlack
variable {K V : Type}

/-- At most the red `z` has a red parent, and the root is black unless it is `z`. -/
structure RedBelow (z : Shape K V) (π : Path K V) : Prop where
  red : z.color = .red
  noRedRed : z.NoRedRed
  around : π.NoRedRed .black
  root : π.rootColor .black = .black
  balanced : ∃ n, z.Balanced n ∧ π.Balanced n

namespace Edit
variable {t : Tree K V} {ns : Slot K V} {z : Shape K V} {s r : Step K V} {π : Path K V}

theorem run_liftRed_done (h : t.Fits ns (z.within π)) (hz : z ≠ .nil)
    (hb : ∀ s ∈ π.head?, s.cell.color = .black) :
    (liftRed z.root).run (t.draw ns (z.within π)) = .ok (.done ()) (t.draw ns (z.within π)) := by
  have hcolor : (t.draw ns (z.within π)).color π.above = .ok .black := by
    cases π with
    | nil => exact (Tree.color_eq h.shows.nil).trans (congrArg _ h.black)
    | cons s π =>
      have hs : t.Fits ns ((Shape.join s.side z s.cell s.sibling).within π) := h
      have hcolor := hs.shows.color_root
      rwa [Shape.root_join, Shape.color_join, hb s rfl] at hcolor
  refine Act.look_then (h.shows.parent_root hz) (Act.look_then hcolor ?_)
  rw [if_pos rfl]
  rfl

theorem readings_above (h : t.Fits ns (z.within (s :: r :: π))) (hz : z ≠ .nil) :
    let u := t.draw ns (z.within (s :: r :: π))
    u.parent z.root = .ok s.cell.handle ∧ u.color s.cell.handle = .ok s.cell.color ∧
      u.parent s.cell.handle = .ok r.cell.handle ∧ u.isNil r.cell.handle = .ok false ∧
      u.sideOf s.cell.handle = .ok r.side ∧
      u.child r.side.other r.cell.handle = .ok r.sibling.root ∧
      u.color r.sibling.root = .ok r.sibling.color := by
  have hne := Shape.join_ne_nil s.side z s.cell s.sibling
  have hs : t.Fits ns ((Shape.join s.side z s.cell s.sibling).within (r :: π)) := h
  have hr : t.Fits ns ((Shape.join r.side (.join s.side z s.cell s.sibling) r.cell
    r.sibling).within π) := h
  have hu : t.Fits ns (r.sibling.within (⟨r.side.other, r.cell,
      .join s.side z s.cell s.sibling⟩ :: π)) := by
    rw [← Shape.within_sibling]
    exact h
  have hcolor := hs.shows.color_root
  have hparent := hs.shows.parent_root hne
  have hnil := hr.shows.isNil_root
  have hside := hs.shows.sideOf_root hparent (.inl hne)
  have huncle := hu.shows.color_root
  rw [Shape.root_join] at hcolor hparent hnil hside
  rw [Shape.color_join] at hcolor
  rw [Shape.isNil_join] at hnil
  rw [← Shape.within_sibling] at huncle
  exact ⟨h.shows.parent_root hz, hcolor, hparent, hnil, hside, hr.shows.child_far, huncle⟩

theorem run_liftRed_lift (h : t.Fits ns (z.within (s :: r :: π))) (hz : z ≠ .nil)
    (hs : s.cell.color = .red) (hr : r.sibling.color = .red) :
    (liftRed z.root).run (t.draw ns (z.within (s :: r :: π))) =
      .ok (.again r.cell.handle) (t.draw ns
        ((Shape.join r.side (.join s.side z (s.cell.painted .black) s.sibling)
          (r.cell.painted .red) (r.sibling.painted .black)).within π)) := by
  obtain ⟨hp, hpc, hg, hgn, hside, hu, huc⟩ := readings_above h hz
  rw [hs] at hpc
  rw [hr] at huc
  have hparent : t.Fits ns ((Shape.join s.side z s.cell s.sibling).within (r :: π)) := h
  have hp' : t.Fits ns ((Shape.join r.side (.join s.side z (s.cell.painted .black) s.sibling) r.cell
    r.sibling).within π) := hparent.painted_join .black
  refine Act.look_then hp (Act.look_then hpc ?_)
  rw [if_neg Color.noConfusion]
  refine Act.look_then hg (Act.look_then hgn (Act.look_then hside ?_))
  refine Act.look_then hu (Act.look_then huc ?_)
  rw [if_pos rfl]
  apply Act.run_then (hparent.run_setColor_join .black)
  refine Act.run_then (hp'.run_setColor_far .black fun _ => rfl) ?_
  exact Act.run_then ((hp'.painted_far .black).run_setColor_join .red) rfl

section turn
variable {a : Side} {x m f u : Shape K V} {p g : Cell K V}

theorem run_turnOver (h : t.Fits ns ((Shape.join a (.join a x p m) g u).within π)) (hx : x ≠ .nil) :
    (turnOver a x.root).run (t.draw ns ((Shape.join a (.join a x p m) g u).within π)) =
      .ok () ((t.report [.rotated a.other g.handle]).draw ns
        ((Shape.join a x (p.painted .black) (.join a m (g.painted .red) u)).within π)) := by
  have hp : t.Fits ns ((Shape.join a x p m).within (⟨a, g, u⟩ :: π)) := h
  have hxp : t.Fits ns (x.within (⟨a, p, m⟩ :: ⟨a, g, u⟩ :: π)) := h
  have hp' : t.Fits ns ((Shape.join a (.join a x (p.painted .black) m) g u).within π) :=
    hp.painted_join .black
  have hg : (t.draw ns ((Shape.join a (.join a x (p.painted .black) m) g u).within π)).parent
      p.handle = .ok g.handle :=
    Tree.Shows.parent_join (c := p.painted .black) (π := ⟨a, g, u⟩ :: π) hp'.shows
  have hg' := hp'.painted_join .red
  have hrot : t.Fits ns ((Shape.join a.other u (g.painted .red)
      (.join a.other m (p.painted .black) x)).within π) := by
    simpa only [Shape.join_other] using hg'
  have hrotate := hrot.run_rotate
  simp only [Shape.join_other] at hrotate
  refine Act.look_then (hxp.shows.parent_root hx) (Act.run_then (hp.run_setColor_join .black) ?_)
  refine Act.look_then hg (Act.run_then (hp'.run_setColor_join .red) ?_)
  exact hrotate

theorem run_turnOutward_outer (h : t.Fits ns (x.within (⟨a, p, m⟩ :: π))) (hx : x ≠ .nil) :
    (turnOutward a x.root).run (t.draw ns (x.within (⟨a, p, m⟩ :: π))) =
      .ok x.root (t.draw ns (x.within (⟨a, p, m⟩ :: π))) := by
  have hhangs := h.shows.hangs_root (h.shows.parent_root hx) (.inl hx) a.other
  rw [decide_eq_false (Side.other_ne a)] at hhangs
  exact Act.look_then hhangs rfl

theorem run_turnOutward_inner {z : Cell K V}
    (h : t.Fits ns ((Shape.join a m p (.join a f z u)).within π)) :
    (turnOutward a z.handle).run (t.draw ns ((Shape.join a m p (.join a f z u)).within π)) =
      .ok p.handle ((t.report [.rotated a p.handle]).draw ns
        ((Shape.join a (.join a m p f) z u).within π)) := by
  have hz : t.Fits ns ((Shape.join a f z u).within (⟨a.other, p, m⟩ :: π)) := by
    rw [← Shape.within_sibling]
    exact h
  have hparent := hz.shows.parent_root (Shape.join_ne_nil a f z u)
  have hhangs := hz.shows.hangs_root hparent (.inl (Shape.join_ne_nil a f z u)) a.other
  rw [decide_eq_true rfl] at hhangs
  rw [← Shape.within_sibling, Shape.root_join] at hparent hhangs
  refine Act.look_then hhangs ?_
  rw [if_pos rfl]
  exact Act.look_then hparent (Act.run_then h.run_rotate rfl)

end turn

theorem run_liftRed_outer (h : t.Fits ns (z.within (s :: r :: π))) (hz : z ≠ .nil)
    (hs : s.cell.color = .red) (hr : r.sibling.color = .black) (hside : s.side = r.side) :
    (liftRed z.root).run (t.draw ns (z.within (s :: r :: π))) =
      .ok (.again z.root) ((t.report [.rotated r.side.other r.cell.handle]).draw ns
        ((Shape.join r.side z (s.cell.painted .black)
          (.join r.side s.sibling (r.cell.painted .red) r.sibling)).within π)) := by
  obtain ⟨hp, hpc, hg, hgn, hps, hu, huc⟩ := readings_above h hz
  rw [hs] at hpc
  rw [hr] at huc
  obtain ⟨side, p, m⟩ := s
  subst hside
  refine Act.look_then hp (Act.look_then hpc ?_)
  rw [if_neg Color.noConfusion]
  refine Act.look_then hg (Act.look_then hgn (Act.look_then hps ?_))
  refine Act.look_then hu (Act.look_then huc ?_)
  rw [if_neg Color.noConfusion]
  apply Act.run_then (run_turnOutward_outer (π := r :: π) h hz)
  exact Act.run_then (run_turnOver h hz) rfl

theorem run_liftRed_inner {c : Cell K V} {m f : Shape K V}
    (h : t.Fits ns ((Shape.join r.side m c f).within (s :: r :: π)))
    (hs : s.cell.color = .red) (hr : r.sibling.color = .black) (hside : s.side = r.side.other) :
    (liftRed c.handle).run (t.draw ns ((Shape.join r.side m c f).within (s :: r :: π))) =
      .ok (.again s.cell.handle)
        ((t.report [.rotated r.side s.cell.handle, .rotated r.side.other r.cell.handle]).draw ns
          ((Shape.join r.side (.join r.side s.sibling s.cell m) (c.painted .black)
            (.join r.side f (r.cell.painted .red) r.sibling)).within π)) := by
  obtain ⟨hp, hpc, hg, hgn, hps, hu, huc⟩ := readings_above h (Shape.join_ne_nil r.side m c f)
  rw [Shape.root_join] at hp
  rw [hs] at hpc
  rw [hr] at huc
  obtain ⟨side, p, n⟩ := s
  subst hside
  have hinner : t.Fits ns ((Shape.join r.side n p (.join r.side m c f)).within (r :: π)) := by
    rw [Shape.within_sibling]
    exact h
  have hturned : (t.report [.rotated r.side p.handle]).Fits ns ((Shape.join r.side
      (.join r.side (.join r.side n p m) c f) r.cell r.sibling).within π) :=
    hinner.rotated.report _
  have hne := Shape.join_ne_nil r.side n p m
  have hover := run_turnOver hturned hne
  rw [Shape.root_join, Tree.report_report] at hover
  have houtward := run_turnOutward_inner hinner
  rw [Shape.within_sibling] at houtward
  refine Act.look_then hp (Act.look_then hpc ?_)
  rw [if_neg Color.noConfusion]
  refine Act.look_then hg (Act.look_then hgn (Act.look_then hps ?_))
  refine Act.look_then hu (Act.look_then huc ?_)
  rw [if_neg Color.noConfusion]
  exact Act.run_then houtward (Act.run_then hover rfl)

end Edit

namespace RedBelow
variable {z : Shape K V} {s r : Step K V} {π : Path K V}

theorem ne_nil (h : RedBelow z π) : z ≠ .nil := Shape.ne_nil_of_red h.red

theorem settled (h : RedBelow z π) (hb : ∀ s ∈ π.head?, s.cell.color = .black) :
    ((z.within π).painted .black).WellColored := by
  obtain ⟨n, hz, hπ⟩ := h.balanced
  cases π with
  | nil =>
    refine ⟨Shape.color_painted_black z, Shape.noRedRed_painted_black h.noRedRed, n + 1, ?_⟩
    exact Shape.balanced_painted_black hz h.red
  | cons s π =>
    have hs := hb s rfl
    obtain ⟨hsib, hπc⟩ := (Path.noRedRed_cons_black hs).1 h.around
    have hwc : (z.within (s :: π)).WellColored := by
      refine Shape.wellColored_within h.red h.root h.noRedRed ?_ hz hπ
      exact (Path.noRedRed_cons_black hs).2 ⟨hsib, hπc⟩
    rwa [Shape.painted_self hwc.root]

theorem above_red (h : RedBelow z (s :: π)) (hs : s.cell.color = .red) :
    ∃ r π', π = r :: π' ∧ r.cell.color = .black := by
  cases π with
  | nil =>
    have hroot : s.cell.color = .black := h.root
    rw [hs] at hroot
    cases hroot
  | cons r π =>
    refine ⟨r, π, rfl, Color.ne_red.1 ?_⟩
    intro hr
    have hnored : s.cell.color = .black := (h.around.2.2.1 hr).1
    rw [hs] at hnored
    cases hnored

section turn
variable (h : RedBelow z (s :: r :: π)) (hs : s.cell.color = .red) (hr : r.cell.color = .black)

include h hs hr in
theorem around_red : s.sibling.color = .black ∧ s.sibling.NoRedRed ∧ r.sibling.NoRedRed ∧
    Path.NoRedRed .black π ∧ Path.rootColor .black π = .black ∧
    ∃ n, z.Balanced n ∧ s.sibling.Balanced n ∧ r.sibling.Balanced n ∧ Path.Balanced (n + 1) π := by
  obtain ⟨hcs, hsib, hcr, hrsib, hπ⟩ := h.around
  obtain ⟨n, hz, hsn, hrn, hn⟩ := h.balanced
  have hroot : π.rootColor r.cell.color = .black := h.root
  rw [hr] at hroot hπ hn
  rw [hs] at hrn hn
  exact ⟨(hcs hs).2, hsib, hrsib, hπ, hroot, n, hz, hsn, hrn, hn⟩

include h hs hr in
theorem lifted (hu : r.sibling.color = .red) :
    RedBelow (.join r.side (.join s.side z (s.cell.painted .black) s.sibling)
      (r.cell.painted .red) (r.sibling.painted .black)) π := by
  obtain ⟨-, hsib, hrsib, hπ, hroot, n, hz, hsn, hrn, hn⟩ := around_red h hs hr
  refine ⟨Shape.color_join .., ?_, hπ, hroot, n + 1, ?_, hn⟩
  · refine (Shape.noRedRed_join_red _ rfl).2 ⟨Shape.color_join .., Shape.color_painted_black _, ?_,
      Shape.noRedRed_painted_black hrsib⟩
    exact (Shape.noRedRed_join_black _ rfl).2 ⟨h.noRedRed, hsib⟩
  · refine (Shape.balanced_join_red _ rfl).2 ⟨?_, Shape.balanced_painted_black hrn hu⟩
    exact (Shape.balanced_join_black _ rfl).2 ⟨n, rfl, hz, hsn⟩

include h hs hr in
theorem turned_outer (hu : r.sibling.color = .black) :
    ((Shape.join r.side z (s.cell.painted .black)
      (.join r.side s.sibling (r.cell.painted .red) r.sibling)).within π).WellColored := by
  obtain ⟨hsc, hsib, hrsib, hπ, hroot, n, hz, hsn, hrn, hn⟩ := around_red h hs hr
  refine Shape.wellColored_join_within rfl h.noRedRed ?_ hz ?_ hroot hπ hn
  · exact (Shape.noRedRed_join_red _ rfl).2 ⟨hsc, hu, hsib, hrsib⟩
  · exact (Shape.balanced_join_red _ rfl).2 ⟨hsn, hrn⟩

end turn

theorem turned_inner {m f : Shape K V} {c : Cell K V} {a : Side}
    (h : RedBelow (.join a m c f) (s :: r :: π)) (hs : s.cell.color = .red)
    (hr : r.cell.color = .black) (hu : r.sibling.color = .black) :
    ((Shape.join r.side (.join r.side s.sibling s.cell m) (c.painted .black)
      (.join r.side f (r.cell.painted .red) r.sibling)).within π).WellColored := by
  obtain ⟨hsc, hsib, hrsib, hπ, hroot, n, hz, hsn, hrn, hn⟩ := around_red h hs hr
  have hred : c.color = .red := (Shape.color_join ..).symm.trans h.red
  obtain ⟨hmc, hfc, hm, hf⟩ := (Shape.noRedRed_join_red a hred).1 h.noRedRed
  obtain ⟨hmn, hfn⟩ := (Shape.balanced_join_red a hred).1 hz
  refine Shape.wellColored_join_within rfl ?_ ?_ ?_ ?_ hroot hπ hn
  · exact (Shape.noRedRed_join_red _ hs).2 ⟨hsc, hmc, hsib, hm⟩
  · exact (Shape.noRedRed_join_red _ rfl).2 ⟨hfc, hu, hf, hrsib⟩
  · exact (Shape.balanced_join_red _ hs).2 ⟨hsn, hmn⟩
  · exact (Shape.balanced_join_red _ rfl).2 ⟨hfn, hrn⟩

end RedBelow

/-- The loop of the repair ends: two rotations at most lead to another shape, whose colors are right once
its root is black, and are reported. Its rounds are not more than the levels above `z` and one. -/
def Edit.LiftsRed (z : Shape K V) (π : Path K V) : Prop :=
  ∃ sh rs, (z.within π).RotatesBy rs sh ∧ (sh.painted .black).WellColored ∧ rs.length ≤ 2 ∧
    ∀ {t : Tree K V} {ns : Slot K V}, t.Fits ns (z.within π) → ∀ k, π.length ≤ k →
      (rounds Edit.liftRed k z.root).run (t.draw ns (z.within π)) =
        .ok () ((t.report (Event.rotations rs)).draw ns sh)

namespace RedBelow
variable {z : Shape K V} {s r : Step K V} {π : Path K V}

theorem liftsRed_done (h : RedBelow z π) (hb : ∀ s ∈ π.head?, s.cell.color = .black) :
    Edit.LiftsRed z π := by
  refine ⟨_, [], .still rfl, h.settled hb, Nat.zero_le 2, fun hfits k _ => ?_⟩
  rw [Event.rotations, List.map_nil, Tree.report_nil]
  exact Rounds.run_done (Edit.run_liftRed_done hfits h.ne_nil hb) k

theorem liftsRed_lift (h : RedBelow z (s :: r :: π)) (hs : s.cell.color = .red)
    (hu : r.sibling.color = .red)
    (ih : Edit.LiftsRed (.join r.side (.join s.side z (s.cell.painted .black) s.sibling)
      (r.cell.painted .red) (r.sibling.painted .black)) π) : Edit.LiftsRed z (s :: r :: π) := by
  obtain ⟨sh, rs, hrotates, hsh, hlen, hrun⟩ := ih
  have hbare : (z.within (s :: r :: π)).bare =
      ((Shape.join r.side (.join s.side z (s.cell.painted .black) s.sibling)
        (r.cell.painted .red) (r.sibling.painted .black)).within π).bare := by
    refine Shape.bare_within_congr ?_ π
    simp only [Shape.bare_join, Shape.bare_painted]
    rfl
  refine ⟨sh, rs, hrotates.congr hbare, hsh, hlen, fun hfits k hk => ?_⟩
  obtain ⟨k, rfl⟩ := Nat.exists_eq_add_one_of_ne_zero (Nat.ne_zero_of_lt hk)
  rw [Rounds.run_again (Edit.run_liftRed_lift hfits h.ne_nil hs hu)]
  have hnext := hrun (hfits.of_items (Shape.items_of_bare hbare.symm)) k ?_
  · rwa [Shape.root_join] at hnext
  · simp only [List.length_cons] at hk
    omega

theorem liftsRed_outer (h : RedBelow z (s :: r :: π)) (hs : s.cell.color = .red)
    (hr : r.cell.color = .black) (hu : r.sibling.color = .black) (hside : s.side = r.side) :
    Edit.LiftsRed z (s :: r :: π) := by
  have hrotates : (z.within (s :: r :: π)).RotatesBy [(r.side.other, r.cell.handle)]
      ((Shape.join r.side z (s.cell.painted .black)
        (.join r.side s.sibling (r.cell.painted .red) r.sibling)).within π) := by
    have hturn := Shape.rotates_far r.side z s.cell s.sibling r.cell r.sibling π
    rw [Shape.within_cons, hside]
    refine .turn (hturn.recolored (Shape.bare_within_congr ?_ π)) (.still rfl)
    simp only [Shape.bare_join]
    rfl
  have hwc := h.turned_outer hs hr hu
  refine ⟨_, _, hrotates, ?_, Nat.le_succ 1, fun hfits k hk => ?_⟩
  · rwa [Shape.painted_self hwc.root]
  obtain ⟨k, rfl⟩ := Nat.exists_eq_add_one_of_ne_zero (Nat.ne_zero_of_lt hk)
  have hfits' := (hfits.of_items hrotates.items).report [.rotated r.side.other r.cell.handle]
  rw [Rounds.run_again (Edit.run_liftRed_outer hfits h.ne_nil hs hu hside)]
  refine Rounds.run_done (Edit.run_liftRed_done (π := ⟨r.side, s.cell.painted .black,
    .join r.side s.sibling (r.cell.painted .red) r.sibling⟩ :: π) hfits' h.ne_nil ?_) k
  rintro q ⟨⟩
  rfl

theorem liftsRed_inner {m f : Shape K V} {c : Cell K V}
    (h : RedBelow (.join r.side m c f) (s :: r :: π)) (hs : s.cell.color = .red)
    (hr : r.cell.color = .black) (hu : r.sibling.color = .black) (hside : s.side = r.side.other) :
    Edit.LiftsRed (.join r.side m c f) (s :: r :: π) := by
  have hrotates : ((Shape.join r.side m c f).within (s :: r :: π)).RotatesBy
      [(r.side, s.cell.handle), (r.side.other, r.cell.handle)]
      ((Shape.join r.side (.join r.side s.sibling s.cell m) (c.painted .black)
        (.join r.side f (r.cell.painted .red) r.sibling)).within π) := by
    have houtward := Shape.rotates_near r.side s.sibling s.cell m c f (r :: π)
    have hover :=
      Shape.rotates_far r.side (.join r.side s.sibling s.cell m) c f r.cell r.sibling π
    rw [Shape.within_cons, hside, Shape.join_other]
    refine .turn houtward (.turn (hover.recolored (Shape.bare_within_congr ?_ π)) (.still rfl))
    simp only [Shape.bare_join]
    rfl
  have hwc := h.turned_inner hs hr hu
  refine ⟨_, _, hrotates, ?_, Nat.le_refl 2, fun hfits k hk => ?_⟩
  · rwa [Shape.painted_self hwc.root]
  obtain ⟨k, rfl⟩ := Nat.exists_eq_add_one_of_ne_zero (Nat.ne_zero_of_lt hk)
  have hfits' := (hfits.of_items hrotates.items).report
    [.rotated r.side s.cell.handle, .rotated r.side.other r.cell.handle]
  have hdone := Edit.run_liftRed_done (π := ⟨r.side, c.painted .black,
    .join r.side f (r.cell.painted .red) r.sibling⟩ :: π) hfits'
    (Shape.join_ne_nil r.side s.sibling s.cell m) ?_
  · rw [Shape.root_join] at hdone ⊢
    rw [Rounds.run_again (Edit.run_liftRed_inner hfits hs hu hside)]
    exact Rounds.run_done hdone k
  · rintro q ⟨⟩
    rfl

theorem liftsRed (h : RedBelow z π) : Edit.LiftsRed z π := by
  -- Two levels at a time, as the trouble goes up: an uncle that is red moves it to the grandparent, one
  -- that is black lets a rotation end it.
  induction π using List.twoStepInduction generalizing z with
  | nil => exact h.liftsRed_done fun s hs => nomatch hs
  | singleton s =>
    apply h.liftsRed_done
    rintro r ⟨⟩
    exact h.root
  | cons_cons s r π ih _ =>
    by_cases hs : s.cell.color = .black
    · apply h.liftsRed_done
      rintro q ⟨⟩
      exact hs
    have hs := Color.ne_black.1 hs
    obtain ⟨_, _, ⟨rfl, rfl⟩, hr⟩ := h.above_red hs
    by_cases hu : r.sibling.color = .red
    · exact h.liftsRed_lift hs hu (ih (h.lifted hs hr hu))
    have hu := Color.ne_red.1 hu
    by_cases hside : s.side = r.side
    · exact h.liftsRed_outer hs hr hu hside
    · obtain ⟨m, c, f, rfl⟩ := Shape.exists_join r.side h.ne_nil
      exact h.liftsRed_inner hs hr hu (Side.eq_other hside)

theorem run_settleRed (h : RedBelow z π) :
    ∃ sh rs, (z.within π).RotatesBy rs sh ∧ sh.WellColored ∧ rs.length ≤ 2 ∧
      ∀ {t : Tree K V} {ns : Slot K V}, t.Fits ns (z.within π) →
        (∃ u, (rounds Edit.liftRed π.length z.root).run (t.draw ns (z.within π)) = .ok () u) ∧
          (Edit.settleRed z.root).run (t.draw ns (z.within π)) =
            .ok () ((t.report (Event.rotations rs)).draw ns sh) := by
  obtain ⟨sh, rs, hrotates, hsh, hlen, hrun⟩ := h.liftsRed
  refine ⟨sh.painted .black, rs, hrotates.recolored (Shape.bare_painted ..), hsh, hlen, ?_⟩
  intro t ns hfits
  have hreach : π.length ≤ (t.draw ns (z.within π)).reach := by
    rw [Tree.reach_draw]
    exact Nat.le_of_lt hfits.path_lt_reach
  have hfits' := (hfits.of_items hrotates.items).report (Event.rotations rs)
  refine ⟨⟨_, hrun hfits _ (Nat.le_refl _)⟩, ?_⟩
  apply Act.run_then rfl
  apply Act.run_then (hrun hfits _ hreach)
  apply Act.run_then rfl
  exact Tree.Fits.run_setColor (π := []) hfits' .black fun _ => rfl

end RedBelow
end RedBlack
