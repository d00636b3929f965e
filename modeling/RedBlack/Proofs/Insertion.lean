import RedBlack.Proofs.RedRepair
import RedBlack.Proofs.Stock
import RedBlack.Tree.Insert

/-! Insertion: the new entry comes to the place of its key, the others keep their slots, and the colors
are right again. -/
namespace RedBlack
variable {K V : Type}

def Path.Leads (order : KeyOrder K) (k : K) (π : Path K V) : Prop :=
  ∀ s ∈ π, s.side = .left ↔ order.compare k s.cell.entry.1 = .lt

def Shape.wayTo (order : KeyOrder K) (k : K) : Shape K V → Path K V
  | .nil => []
  | .node l c r =>
    if order.compare k c.entry.1 = .lt then wayTo order k l ++ [⟨.left, c, r⟩]
    else wayTo order k r ++ [⟨.right, c, l⟩]

/-- The items before and after the place of a key, with an item put between them. -/
def KeyOrder.place (order : KeyOrder K) (e : Handle × K × V) (l : List (Handle × K × V)) :
    List (Handle × K × V) :=
  l.filter (fun i => order.compare i.2.1 e.2.1 = .lt) ++
    e :: l.filter (fun i => order.compare e.2.1 i.2.1 = .lt)

theorem Shape.within_wayTo (order : KeyOrder K) (k : K) (sh : Shape K V) :
    Shape.nil.within (sh.wayTo order k) = sh := by
  induction sh with
  | nil => rfl
  | node l c r ihl ihr =>
    unfold wayTo
    split
    · rw [within_concat, ihl]
      rfl
    · rw [within_concat, ihr]
      rfl

theorem Shape.leads_wayTo (order : KeyOrder K) (k : K) (sh : Shape K V) :
    (sh.wayTo order k).Leads order k := by
  induction sh with
  | nil => exact fun s hs => nomatch hs
  | node l c r ihl ihr =>
    intro s hs
    unfold wayTo at hs
    split at hs
    case isTrue hlt =>
      rcases List.mem_append.1 hs with hs | hs
      · exact ihl s hs
      · rw [List.mem_singleton.1 hs]
        exact ⟨fun _ => hlt, fun _ => rfl⟩
    case isFalse hlt =>
      rcases List.mem_append.1 hs with hs | hs
      · exact ihr s hs
      · rw [List.mem_singleton.1 hs]
        exact ⟨(fun h => nomatch h), fun h => absurd h hlt⟩

namespace Tree
variable {t : Tree K V} {ns : Slot K V} {sh : Shape K V} {π : Path K V} {z : Handle} {k : K} {v : V}

def placeRound (t : Tree K V) (z : Handle) :
    Handle × Handle → Except Failure (Round (Handle × Handle) Handle) :=
  fun (x, above) => do
    if ← t.isNil x then return .done above
    else if (← t.compareAt z x) = .lt then return .again (← t.child .left x, x)
    else return .again (← t.child .right x, x)

theorem Shows.compareAt (h : t.Shows ns sh) (hz : t.entryOf z = .ok (k, v)) {c : Cell K V}
    (hc : c ∈ sh.cells) : t.compareAt z c.handle = .ok (t.order.compare k c.entry.1) := by
  obtain ⟨s, hs, he⟩ := Option.bind_eq_some_iff.1 (h.lies.entry hc)
  exact Act.ok_then hz (Act.ok_then (entryOf_eq hs he) rfl)

theorem Shows.placeRound_node {l r : Shape K V} {c : Cell K V}
    (h : t.Shows ns ((Shape.node l c r).within π)) (hz : t.entryOf z = .ok (k, v)) (above : Handle) :
    t.placeRound z (c.handle, above) = .ok (.again
      (if t.order.compare k c.entry.1 = .lt then l.root else r.root, c.handle)) := by
  have hj : t.Shows ns ((Shape.join .left l c r).within π) := h
  have hc : c ∈ ((Shape.node l c r).within π).cells := by
    rw [Shape.cells_within]
    simp [Shape.cells]
  apply Act.ok_then h.isNil_root
  apply Act.ok_then (h.compareAt hz hc)
  by_cases hlt : t.order.compare k c.entry.1 = .lt
  · rw [if_pos hlt, if_pos hlt]
    exact Act.ok_then hj.child_near rfl
  · rw [if_neg hlt, if_neg hlt]
    exact Act.ok_then hj.child_far rfl

theorem Shows.rounds_place (h : t.Shows ns (sh.within π)) (hz : t.entryOf z = .ok (k, v)) (n : Nat)
    (hn : sh.height ≤ n) : rounds (t.placeRound z) n (sh.root, π.above) =
      .ok (sh.wayTo t.order k ++ π : Path K V).above := by
  -- Each round goes to a child, which the path below leads to: the path grows as the shape gets lower.
  induction sh generalizing π n with
  | nil => exact Rounds.done (Act.ok_then h.isNil_nil rfl) n
  | node l c r ihl ihr =>
    obtain ⟨n, rfl⟩ := Nat.exists_eq_add_one_of_ne_zero (Nat.ne_zero_of_lt hn)
    obtain ⟨hl, hr⟩ := Nat.max_le.1 (Nat.le_of_succ_le_succ hn)
    have hround := h.placeRound_node hz π.above
    rw [Shape.root_node, Rounds.again hround, Shape.wayTo]
    by_cases hlt : t.order.compare k c.entry.1 = .lt
    · rw [if_pos hlt, if_pos hlt, List.append_assoc]
      exact ihl (π := ⟨.left, c, r⟩ :: π) h n hl
    · rw [if_neg hlt, if_neg hlt, List.append_assoc]
      exact ihr (π := ⟨.right, c, l⟩ :: π) h n hr

def linked (t : Tree K V) (z : Handle) (π : Path K V) : Tree K V :=
  ((t.put z (Slot.withParent π.above)).rehang π z).put z (Slot.withColor .red)

variable (h : t.Shows ns (Shape.nil.within π)) (hz : t.arena.slot? z = some (.leaf k v))
  (hnot : z ∉ Handle.nil :: (Shape.nil.within π).handles)

include hnot in
theorem ne_of_notMem_path : ∀ i ∈ Handle.nil :: π.handles, z ≠ i := by
  rintro i hi rfl
  apply hnot
  rcases List.mem_cons.1 hi with rfl | hi
  · exact List.mem_cons_self
  · exact List.mem_cons_of_mem _ ((Shape.handles_within_perm _ π).mem_iff.2
      (List.mem_append_right _ hi))

include h hz hnot in
theorem Shows.linked :
    (t.linked z π).Shows ns ((Shape.node .nil ⟨z, .red, (k, v)⟩ .nil).within π) := by
  have hne := ne_of_notMem_path hnot
  have hn : z ≠ .nil := hne _ List.mem_cons_self
  have habove : z ≠ π.above := hne _ (Path.above_mem π)
  have hd := h.nodup_focus
  rw [Shape.handles_nil, List.nil_append] at hd
  have hπ := ((Shape.lies_within _ π).1 h.lies).2
  refine ⟨?_, ?_, h.keyless, h.black, (Shape.lies_within _ π).2 ⟨⟨?_, trivial, trivial⟩, ?_⟩, ?_⟩
  · cases π with
    | nil => rfl
    | cons s π =>
      rw [Tree.linked, root_put, root_rehang_cons, root_put, h.root]
      exact Shape.root_within_cons ..
  · have hπn (hπ : π ≠ []) : π.above ≠ Handle.nil := by
      intro heq
      exact (List.nodup_cons.1 hd).1 (heq ▸ Path.above_mem_handles hπ)
    rw [Tree.linked, slot?_put_of_ne _ _ hn, slot?_rehang_of_ne _ _ hπn, slot?_put_of_ne _ _ hn]
    exact h.nil
  · rw [Tree.linked, slot?_put_self, slot?_rehang_of_ne _ _ fun _ => habove.symm, slot?_put_self, hz]
    rfl
  · cases π with
    | nil => exact trivial
    | cons s π =>
      rw [Path.above_cons] at habove
      refine hπ.rehang (List.nodup_cons.1 hd).2 ?_ fun i hi his => ?_
      · rw [Tree.linked, slot?_put_of_ne _ _ habove, slot?_rehang_cons, slot?_put_of_ne _ _ habove]
        rfl
      · have hi := hne i (List.mem_cons_of_mem _ hi)
        rw [Tree.linked, slot?_put_of_ne _ _ hi, slot?_rehang_of_ne _ _ (fun _ => Ne.symm his),
          slot?_put_of_ne _ _ hi]
  · apply ((Shape.handles_within_perm _ π).cons _).nodup_iff.2
    refine (List.Perm.swap z .nil π.handles).nodup_iff.2 (List.nodup_cons.2 ⟨?_, hd⟩)
    exact fun hz => hne z hz rfl

include h hz hnot in
theorem Shows.run_linkLeaf (hp : t.parentFor z = .ok π.above) (hleads : π.Leads t.order k) :
    (Edit.linkLeaf z).run t = .ok () (t.linked z π) := by
  have habove : z ≠ π.above := ne_of_notMem_path hnot _ (Path.above_mem π)
  have hzsome : (t.arena.slot? z).isSome := hz ▸ rfl
  let u := t.put z (Slot.withParent π.above)
  have hu {i : Handle} (hi : z ≠ i) : u.arena.slot? i = t.arena.slot? i := slot?_put_of_ne _ _ hi
  have hz' : u.arena.slot? z = some ((Slot.leaf k v).withParent π.above) := by
    rw [slot?_put_self, hz, Option.map_some]
  have hnil : u.isNil π.above = .ok π.isEmpty := (isNil_congr (hu habove)).trans h.isNil_above
  refine Act.look_then hp (Act.run_then (run_modifySlot_eq _ hzsome) (Act.look_then hnil ?_))
  cases π with
  | nil =>
    apply Act.run_then rfl
    exact run_modifySlot_eq _ (hz' ▸ rfl)
  | cons s π =>
    have hne : z ≠ s.cell.handle := habove
    have hslot : u.arena.slot? s.cell.handle = _ := (hu hne).trans (Shows.slot_join (a := s.side) h)
    have hcompare : u.compareAt z s.cell.handle = .ok (t.order.compare k s.cell.entry.1) :=
      Act.ok_then (entryOf_eq hz' rfl) (Act.ok_then (entryOf_eq hslot (Cell.entry_slot ..)) rfl)
    have hsome : (u.arena.slot? s.cell.handle).isSome := hslot ▸ rfl
    have hset : ((u.put s.cell.handle (Slot.withChild s.side z)).arena.slot? z).isSome := by
      rw [slot?_put_of_ne _ _ (Ne.symm hne), hz']
      rfl
    rw [List.isEmpty_cons, if_neg Bool.false_ne_true]
    refine Act.look_then hcompare ?_
    by_cases hlt : t.order.compare k s.cell.entry.1 = .lt
    · have hside := (hleads s List.mem_cons_self).2 hlt
      rw [hside] at hset
      rw [if_pos hlt, Tree.linked, Tree.rehang, hside]
      exact Act.run_then (run_modifySlot_eq _ hsome) (run_modifySlot_eq _ hset)
    · have hside : s.side = .right :=
        Side.eq_other fun hl => hlt ((hleads s List.mem_cons_self).1 hl)
      rw [hside] at hset
      rw [if_neg hlt, Tree.linked, Tree.rehang, hside]
      exact Act.run_then (run_modifySlot_eq _ hsome) (run_modifySlot_eq _ hset)

theorem Redrawn.linked (t : Tree K V) (c : Cell K V) (π : Path K V) :
    t.Redrawn (t.linked c.handle π) (.nil :: ((Shape.node .nil c .nil).within π).handles) := by
  have hmem {i : Handle} (hi : i ∈ c.handle :: π.handles) :
      i ∈ Handle.nil :: ((Shape.node .nil c .nil).within π).handles :=
    List.mem_cons_of_mem _ ((Shape.handles_within_perm _ π).mem_iff.2 hi)
  have hc := hmem List.mem_cons_self
  refine (((Redrawn.refl t _).put _ hc).rehang _ fun hπ => ?_).put _ hc
  exact hmem (List.mem_cons_of_mem _ (Path.above_mem_handles hπ))

end Tree

/-! ### The order of the keys -/

namespace KeyOrder
variable {order : KeyOrder K} {k : K} {π : Path K V}

theorem Sorted.place {b a : List (Handle × K × V)} {e : Handle × K × V}
    (h : order.Sorted (b ++ a)) (hb : ∀ x ∈ b, order.Before x e) (ha : ∀ x ∈ a, order.Before e x) :
    order.Sorted (b ++ e :: a) := by
  obtain ⟨hsb, hsa, hba⟩ := List.pairwise_append.1 h
  refine List.pairwise_append.2 ⟨hsb, List.pairwise_cons.2 ⟨ha, hsa⟩, fun x hx y hy => ?_⟩
  rcases List.mem_cons.1 hy with rfl | hy
  · exact hb x hx
  · exact hba x hx y hy

variable [Std.TransCmp order.compare]

theorem before_gt_after_lt (h : order.Sorted ((π.before ++ π.after).map Cell.item))
    (hleads : π.Leads order k)
    (habsent : ∀ c ∈ π.before ++ π.after, order.compare k c.entry.1 ≠ .eq) :
    (∀ c ∈ π.before, order.compare k c.entry.1 = .gt) ∧
      ∀ c ∈ π.after, order.compare k c.entry.1 = .lt := by
  -- The lowest step adds its cell and its sibling on one side, where they are next to the place; the
  -- cells on the other side are those of the steps above.
  induction π with
  | nil => exact ⟨List.forall_mem_nil _, List.forall_mem_nil _⟩
  | cons s π ih =>
    obtain ⟨side, c, sib⟩ := s
    have hup : Path.Leads order k π := fun r hr => hleads r (List.mem_cons_of_mem _ hr)
    have hside := hleads _ List.mem_cons_self
    cases side with
    | left =>
      have hlt : order.compare k c.entry.1 = .lt := hside.1 rfl
      rw [Path.before, Path.after, List.cons_append] at h habsent ⊢
      have hsub : (Path.before π ++ Path.after π).Sublist
          (Path.before π ++ c :: (sib.cells ++ Path.after π)) :=
        (List.Sublist.refl _).append ((List.sublist_append_right ..).cons _)
      obtain ⟨hb, -⟩ := ih (h.sublist (hsub.map _)) hup fun d hd => habsent d (hsub.mem hd)
      refine ⟨hb, ?_⟩
      intro d hd
      rw [List.map_append, List.map_cons] at h
      have hd : d.item ∈ (c :: (sib.cells ++ Path.after π)).map Cell.item := List.mem_map_of_mem hd
      exact Sorted.compare_lt h hlt d.item hd
    | right =>
      rw [Path.before, Path.after] at h habsent ⊢
      have hc : c ∈ Path.before π ++ sib.cells ++ [c] ++ Path.after π := by simp
      have hgt : order.compare k c.entry.1 = .gt := by
        cases hcmp : order.compare k c.entry.1 with
        | lt => cases hside.2 hcmp
        | eq => exact absurd hcmp (habsent c hc)
        | gt => rfl
      have hsub : (Path.before π ++ Path.after π).Sublist
          (Path.before π ++ sib.cells ++ [c] ++ Path.after π) := by
        rw [List.append_assoc (Path.before π)]
        exact (List.sublist_append_left ..).append (List.Sublist.refl _)
      obtain ⟨-, ha⟩ := ih (h.sublist (hsub.map _)) hup fun d hd => habsent d (hsub.mem hd)
      refine ⟨?_, ha⟩
      intro d hd
      rw [List.append_assoc (Path.before π ++ sib.cells), List.singleton_append, List.map_append,
        List.map_cons] at h
      have hd : d.item ∈ (Path.before π ++ sib.cells).map Cell.item ++ [c.item] := by
        rw [← List.map_singleton, ← List.map_append]
        exact List.mem_map_of_mem hd
      exact Sorted.compare_gt h hgt d.item hd

theorem Sorted.around (h : order.Sorted (Shape.nil.within π).items) (hleads : π.Leads order k)
    (hk : (Shape.nil.within π).items.any (order.agrees k) = false) (i : Handle) (v : V) :
    (∀ x ∈ π.before.map Cell.item, order.Before x (i, k, v)) ∧
      ∀ x ∈ π.after.map Cell.item, order.Before (i, k, v) x := by
  have hitems : (Shape.nil.within π).items = (π.before ++ π.after).map Cell.item := by
    rw [Shape.items_within, Shape.items_nil, List.append_nil, List.map_append]
  rw [hitems] at h hk
  have habsent : ∀ c ∈ π.before ++ π.after, order.compare k c.entry.1 ≠ .eq := fun c hc heq =>
    List.any_eq_false.1 hk _ (List.mem_map_of_mem hc) (agrees_iff.2 heq)
  obtain ⟨hbefore, hafter⟩ := before_gt_after_lt h hleads habsent
  constructor
  · intro x hx
    obtain ⟨c, hc, rfl⟩ := List.mem_map.1 hx
    exact Std.OrientedCmp.gt_iff_lt.1 (hbefore c hc)
  · intro x hx
    obtain ⟨c, hc, rfl⟩ := List.mem_map.1 hx
    exact hafter c hc

theorem place_append {b a : List (Handle × K × V)} {e : Handle × K × V}
    (hb : ∀ x ∈ b, order.Before x e) (ha : ∀ x ∈ a, order.Before e x) :
    order.place e (b ++ a) = b ++ e :: a := by
  have hnot {x y : Handle × K × V} (hxy : order.Before x y) :
      ¬ order.compare y.2.1 x.2.1 = .lt := by
    have hgt : order.compare y.2.1 x.2.1 = .gt := Std.OrientedCmp.gt_iff_lt.2 hxy
    rw [hgt]
    decide
  have hbl : b.filter (fun x => order.compare x.2.1 e.2.1 = .lt) = b :=
    List.filter_eq_self.2 fun x hx => decide_eq_true (hb x hx)
  have hbg : b.filter (fun x => order.compare e.2.1 x.2.1 = .lt) = [] :=
    List.filter_eq_nil_iff.2 fun x hx h => hnot (hb x hx) (of_decide_eq_true h)
  have hal : a.filter (fun x => order.compare x.2.1 e.2.1 = .lt) = [] :=
    List.filter_eq_nil_iff.2 fun x hx h => hnot (ha x hx) (of_decide_eq_true h)
  have hag : a.filter (fun x => order.compare e.2.1 x.2.1 = .lt) = a :=
    List.filter_eq_self.2 fun x hx => decide_eq_true (ha x hx)
  rw [place, List.filter_append, List.filter_append, hbl, hbg, hal, hag, List.append_nil,
    List.nil_append]

end KeyOrder

theorem Shape.WellColored.redBelow {π : Path K V} (h : (Shape.nil.within π).WellColored) (z : Handle)
    (e : K × V) : RedBelow (.node .nil ⟨z, .red, e⟩ .nil) π := by
  obtain ⟨hroot, -, hπ, n, hn, hm⟩ := h.focus
  refine ⟨rfl, ⟨fun _ => ⟨rfl, rfl⟩, trivial, trivial⟩, hπ, hroot, 0, ⟨0, rfl, rfl, rfl⟩, ?_⟩
  rwa [Shape.balanced_nil.1 hn] at hm

theorem exists_link {π : Path K V} (hwc : (Shape.nil.within π).WellColored) (z : Handle) (e : K × V) :
    ∃ sh rs, sh.items = π.before.map Cell.item ++ (z, e) :: π.after.map Cell.item ∧
      sh.WellColored ∧ rs.length ≤ 2 ∧
      ((Shape.node .nil ⟨z, .red, e⟩ .nil).within π).RotatesBy rs sh ∧
      ∀ {t : Tree K V} {ns : Slot K V},
        t.Shows ns ((Shape.node .nil ⟨z, .red, e⟩ .nil).within π) →
          (∃ u, (rounds Edit.liftRed π.length z).run t = .ok () u) ∧
            (Edit.settleRed z).run t = .ok () ((t.report (Event.rotations rs)).draw ns sh) := by
  obtain ⟨sh, rs, hrotates, hsh, hlen, hrun⟩ := (hwc.redBelow z e).run_settleRed
  refine ⟨sh, rs, ?_, hsh, hlen, hrotates, ?_⟩
  · rw [hrotates.items, Shape.items_within]
    simp [Shape.items_node, Cell.item]
  · intro t ns h
    have hsettle := hrun h.fits
    rwa [h.draw_self] at hsettle

namespace Tree
variable {t : Tree K V} {ns : Slot K V} {sh : Shape K V} {k : K}

theorem Holds.run_contains (h : t.Holds ns sh) [Std.TransCmp t.order.compare] (k : K) :
    t.contains k = .ok (sh.items.any (t.order.agrees k)) := by
  apply Act.ok_then (h.shows.search h.sorted k)
  rw [Option.isSome_map, List.isSome_find?]
  rfl

theorem Holds.run_insert_duplicate (h : t.Holds ns sh) [Std.TransCmp t.order.compare]
    (hk : sh.items.any (t.order.agrees k) = true) (v : V) :
    (Edit.insert k v).run t = .error .duplicateKey t := by
  have hcontains := h.run_contains k
  rw [hk] at hcontains
  refine Act.look_then hcontains ?_
  rw [if_pos rfl]
  rfl

theorem Holds.run_insert_exhausted (h : t.Holds ns sh) [Std.TransCmp t.order.compare]
    (hk : sh.items.any (t.order.agrees k) = false) (hfull : t.stock.Exhausted t.width) (v : V) :
    (Edit.insert k v).run t = .error .arenaFull t := by
  have hcontains := h.run_contains k
  rw [hk] at hcontains
  refine Act.look_then hcontains ?_
  rw [if_neg Bool.false_ne_true, EStateM.run_bind, h.run_allocate_exhausted _ hfull]

theorem Shows.supplied (h : t.Shows ns sh) {s : Slot K V} {a : Arena K V} (ha : t.Supplies sh s a) :
    (t.withArena a).Shows ns sh := by
  have hne {i : Handle} (hi : i ∈ Handle.nil :: sh.handles) : i ≠ t.stock.pick := by
    rintro rfl
    exact ha.unused hi
  refine ⟨h.root, ?_, h.keyless, h.black, ?_, h.nodup⟩
  · exact (ha.other _ (hne List.mem_cons_self)).trans h.nil
  · exact h.lies.congr fun i hi => ha.other _ (hne (List.mem_cons_of_mem _ hi))

def inserted (t : Tree K V) (h : Handle) (es : List Event) (ns : Slot K V) (sh : Shape K V) :
    Tree K V :=
  ({ (t.report es).draw ns sh with size := t.size + 1 } : Tree K V).report
    [.inserted h (t.size + 1)]

theorem Redrawn.stock_inserted {u : Tree K V} {a : Arena K V} {hs : List Handle}
    (hu : (t.withArena a).Redrawn u hs) (h : Handle) (es : List Event) (ns : Slot K V)
    (sh : Shape K V) :
    (u.inserted h es ns sh).stock = ⟨a.free, a.slots.size, t.size + 1⟩ := by
  have hfree : (u.inserted h es ns sh).arena.free = a.free := hu.free
  have hnext : (u.inserted h es ns sh).arena.slots.size = a.slots.size :=
    (Arena.size_draw ..).trans hu.length
  have hsize : (u.inserted h es ns sh).size = t.size + 1 := congrArg (· + 1) hu.size
  rw [stock, hfree, hnext, hsize]

theorem Holds.inserted {sh' : Shape K V} {a : Arena K V} {s : Slot K V} {u : Tree K V}
    {b c : List (Handle × K × V)} {e : K × V} (es : List Event) (h : t.Holds ns sh)
    (ha : t.Supplies sh s a) (hu : (t.withArena a).Redrawn u (.nil :: sh'.handles))
    (hfits : u.Fits ns sh') (hwc : sh'.WellColored) (hsorted : t.order.Sorted sh'.items)
    (hsplit : sh.items = b ++ c) (hitems : sh'.items = b ++ (t.stock.pick, e) :: c) :
    (u.inserted t.stock.pick es ns sh').Holds ns sh' := by
  have hdrawn := hu.draw ns (fun i hi => hi)
  have hhandles : sh'.handles.Perm (t.stock.pick :: sh.handles) :=
    Shape.handles_erased hitems hsplit
  have hshows := (hfits.report es).shows
  refine ⟨⟨hshows.root, hshows.nil, hshows.keyless, hshows.black, hshows.lies, hshows.nodup⟩,
    h.childless, hwc, ?_, ?_, ?_, ?_, ?_, ?_⟩
  · have horder : u.order = t.order := hu.order
    rw [← horder] at hsorted
    exact hsorted
  · have hsize := h.size
    rw [hsplit, List.length_append] at hsize
    rw [hitems, List.length_append, List.length_cons, ← Nat.add_assoc, ← hsize]
    exact congrArg (· + 1) hu.size
  · have hfree : (u.inserted t.stock.pick es ns sh').arena.free = a.free := hdrawn.free
    have hpositions : (u.inserted t.stock.pick es ns sh').arena.positions = a.positions :=
      Arena.positions_congr hdrawn.length
    rw [hfree, hpositions]
    exact (hhandles.append_right _).trans ha.handles
  · intro i hi
    have hi : i ∈ a.free := hdrawn.free ▸ hi
    obtain ⟨hfree, hne⟩ := ha.vacant i hi
    have hunused := h.unused_of_free hfree
    have hnot : i ∉ Handle.nil :: sh'.handles := fun hmem => by
      rcases List.mem_cons.1 ((hhandles.cons _).mem_iff.1 hmem) with hn | hmem
      · exact hunused (hn ▸ List.mem_cons_self)
      · rcases List.mem_cons.1 hmem with heq | hmem
        · exact hne heq
        · exact hunused (List.mem_cons_of_mem _ hmem)
    exact (hdrawn.slot i hnot).trans ((ha.other i hne).trans (h.vacant i hfree))
  · rintro rfl
    simp at hitems
  · intro hw
    have hwidth : u.width = t.width := hu.width
    have hlength : (u.draw ns sh').arena.slots.size = a.slots.size := hdrawn.length
    have hlimited : t.width.limited = true := hwidth ▸ hw
    have hle := ha.width hlimited
    rw [← hwidth, ← hlength] at hle
    exact hle

/-- The work of an insertion: once the leaf is linked, the loop of the repair ends after as many rounds as
the tree had levels and one. From there at most two rotations lead to the links at the end; the reports
are of these, in their order, and of the insertion. -/
structure InsertWork (t t' : Tree K V) (k : K) (v : V) (z : Handle) (u : Tree K V)
    (rs : List (Side × Handle)) : Prop where
  linked : ∃ s, (Edit.allocate (.leaf k v)).run t = .ok z s ∧ (Edit.linkLeaf z).run s = .ok () u
  ended : ∃ u', (rounds Edit.liftRed t.shape.height z).run u = .ok () u'
  few : rs.length ≤ 2
  links : u.shape.RotatesBy rs t'.shape
  reports : t'.journal =
    t.journal ++ (Event.rotations rs ++ [Event.inserted z t'.size]).toArray

theorem Shows.exists_place {z : Handle} {v : V} (h : t.Shows ns sh)
    (hz : t.arena.slot? z = some (.leaf k v)) (hnot : z ∉ Handle.nil :: sh.handles) :
    ∃ π, sh = Shape.nil.within π ∧ π.Leads t.order k ∧
      (Edit.linkLeaf z).run t = .ok () (t.linked z π) ∧
      (t.linked z π).Shows ns ((Shape.node .nil ⟨z, .red, (k, v)⟩ .nil).within π) := by
  have hleads := sh.leads_wayTo t.order k
  have hparent := h.rounds_place (π := []) (entryOf_eq hz rfl) _ h.height_le_reach
  rw [← h.root, List.append_nil] at hparent
  have hwithin := sh.within_wayTo t.order k
  change t.parentFor z = .ok (sh.wayTo t.order k).above at hparent
  generalize sh.wayTo t.order k = π at hleads hparent hwithin
  subst hwithin
  exact ⟨π, rfl, hleads, h.run_linkLeaf hz hnot hparent hleads, h.linked hz hnot⟩

theorem Holds.exists_insert (h : t.Holds ns sh) [Std.TransCmp t.order.compare]
    (hk : sh.items.any (t.order.agrees k) = false) (hroom : ¬ t.stock.Exhausted t.width) (v : V) :
    ∃ sh' t', (Edit.insert k v).run t = .ok t.stock.pick t' ∧ t'.Holds ns sh' ∧
      sh'.items = t.order.place (t.stock.pick, k, v) sh.items ∧ t'.stock = t.stock.take ∧
      t'.order = t.order ∧ t'.width = t.width ∧
      ∃ u rs, t.InsertWork t' k v t.stock.pick u rs := by
  obtain ⟨a, hallocate, ha⟩ := h.run_allocate (.leaf k v) hroom
  obtain ⟨π, rfl, hleads, hrun, hlinked⟩ := (h.shows.supplied ha).exists_place ha.slot ha.unused
  obtain ⟨sh', rs, hitems, hwc, hlen, hrotates, hsettle⟩ :=
    exists_link h.colored t.stock.pick (k, v)
  obtain ⟨⟨u', hloop⟩, hsettled⟩ := hsettle hlinked
  have hsplit : (Shape.nil.within π).items = π.before.map Cell.item ++ π.after.map Cell.item := by
    rw [Shape.items_within, Shape.items_nil, List.append_nil]
  obtain ⟨hb, hc⟩ := KeyOrder.Sorted.around h.sorted hleads hk t.stock.pick v
  have hhandles := Shape.handles_eq_of_items hrotates.items
  have hredrawn : (t.withArena a).Redrawn ((t.withArena a).linked t.stock.pick π)
      (.nil :: sh'.handles) := by
    rw [hhandles]
    exact Redrawn.linked (t.withArena a) ⟨t.stock.pick, .red, (k, v)⟩ π
  have hfits := hlinked.fits.of_items hrotates.items
  have hsorted : t.order.Sorted sh'.items := by
    rw [hitems]
    exact KeyOrder.Sorted.place (hsplit ▸ h.sorted) hb hc
  have hholds := h.inserted (Event.rotations rs) ha hredrawn hfits hwc hsorted hsplit hitems
  refine ⟨sh', _, ?_, hholds, ?_, ?_, hredrawn.order, hredrawn.width,
    (t.withArena a).linked t.stock.pick π, rs, ⟨_, hallocate, hrun⟩, ⟨u', ?_⟩, hlen, ?_, ?_⟩
  · have hcontains := h.run_contains k
    rw [hk] at hcontains
    refine Act.look_then hcontains ?_
    rw [if_neg Bool.false_ne_true]
    apply Act.run_then hallocate
    apply Act.run_then hrun
    exact Act.run_then hsettled (Act.run_then rfl (Act.run_then rfl rfl))
  · rw [hitems, hsplit, KeyOrder.place_append hb hc]
  · rw [← ha.stock]
    exact hredrawn.stock_inserted ..
  · have hheight := (Shape.nil : Shape K V).length_add_height_le π
    rw [h.shows.shape_eq, ← Nat.add_sub_of_le (Nat.le_of_add_right_le hheight)]
    exact Rounds.run_mono hloop _
  · rw [hlinked.shape_eq, hholds.shows.shape_eq]
    exact hrotates
  · have hjournal : ((t.withArena a).linked t.stock.pick π).journal = t.journal := hredrawn.journal
    rw [← hjournal, ← List.append_toArray, ← Array.append_assoc]
    rfl

end Tree
end RedBlack
