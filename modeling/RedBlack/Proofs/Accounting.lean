import RedBlack.Proofs.Histories

/-! The accounts of an arena, after any calls: every slot but the nil slot has an entry of the tree or is
free, and the handles come as from a stock that is told of nothing but what it gives out and gets back. -/
namespace RedBlack
variable {K V : Type}

structure Tree.Accounted (t : Tree K V) : Prop where
  split : (t.inorder.map Prod.fst ++ t.arena.free).Perm t.arena.positions
  nodup : (t.inorder.map Prod.fst ++ t.arena.free).Nodup
  live : ∀ h e, (h, e) ∈ t.inorder ↔ ∃ s, t.arena.slot? h = some s ∧ s.entry = some e
  vacant : ∀ h ∈ t.arena.free, t.arena.slot? h = some .vacant
  length : t.arena.slots.size = 1 + t.size + t.arena.free.length
  fresh : t.size = 0 → t.arena.slots.size = 1 ∧ t.arena.free = []

theorem Tree.Accounted.nodup_live {t : Tree K V} (h : t.Accounted) : (t.inorder.map Prod.fst).Nodup :=
  (List.nodup_append.1 h.nodup).1

namespace Tree.Sound
variable {t : Tree K V}

theorem accounted (hs : t.Sound) : t.Accounted := by
  obtain ⟨ns, h⟩ := hs.holds
  have hsplit : (t.inorder.map Prod.fst ++ t.arena.free).Perm t.arena.positions :=
    handles_eq t ▸ h.handles
  have hnodup : (t.inorder.map Prod.fst ++ t.arena.free).Nodup := handles_eq t ▸ h.nodup
  have hlength : t.arena.slots.size = 1 + t.size + t.arena.free.length := by
    have hperm := hsplit.length_eq
    rw [List.length_append, List.length_map, ← hs.size_eq, Arena.length_positions] at hperm
    have hpos := h.nonempty
    omega
  refine ⟨hsplit, hnodup, ?_, h.vacant, hlength, ?_⟩
  · intro i e
    rw [← hs.entryAt?_eq_some_iff, entryAt?_eq_some, entryOf_eq_ok]
  · intro hzero
    have hfree := h.fresh (h.isEmpty_iff.1 (beq_iff_eq.2 hzero))
    rw [hfree, hzero] at hlength
    exact ⟨hlength, hfree⟩

theorem insert_eq_pick (hs : t.Sound) {k : K} {v : V} {h : Handle} {t' : Tree K V}
    (hrun : (Edit.insert k v).run t = .ok h t') :
    h = t.stock.pick ∧ h ≠ .nil ∧ h ∉ t.inorder.map Prod.fst := by
  obtain ⟨hsound, hturns⟩ := hs.turns_insert hrun
  refine ⟨hturns.picked h rfl, ?_, hturns.items.1⟩
  rintro rfl
  obtain ⟨ns, hu⟩ := hsound.holds
  apply (List.nodup_cons.1 hu.shows.nodup).1
  rw [handles_eq]
  exact List.mem_map_of_mem hturns.mem_added

end Tree.Sound

namespace Client

theorem Sound.handed_run {s : Client K V} (h : s.Sound) (calls : List (Call K V)) :
    (s.effects calls).filterMap Effect.handle? =
        s.tree.stock.handed ((s.effects calls).filterMap Effect.move?) ∧
      (s.run calls).tree.stock = s.tree.stock.run ((s.effects calls).filterMap Effect.move?) := by
  -- The stock of the tree is the state that the induction carries; a call that adds an entry takes from it.
  induction calls generalizing s with
  | nil => exact ⟨rfl, rfl⟩
  | cons c calls ih =>
    obtain ⟨hsound, hturns, -⟩ := h.step c
    have hrest := ih hsound
    rw [effects, Client.run, List.filterMap_cons, List.filterMap_cons]
    rw [hturns.stock] at hrest
    have hpicked := hturns.picked
    cases heff : s.effect c with
    | unchanged | edited _ | deleted _ | cleared =>
      rw [heff] at hrest
      exact hrest
    | added i k v =>
      rw [heff] at hrest hpicked
      obtain rfl := hpicked i rfl
      exact ⟨congrArg (s.tree.stock.pick :: ·) hrest.1, hrest.2⟩

/-- After any calls the arena is accounted for. The handles that the calls gave out are those of a stock
that only got to know that a handle was taken, which one came back, and that all were dropped; an
insertion gives out the next one, and the first one again after the tree has become empty. -/
theorem accounted_run (order : KeyOrder K) [Std.TransCmp order.compare] (w : Width)
    (calls : List (Call K V)) :
    let t := ((fresh order w).run calls).tree
    let effs := (fresh order w).effects calls
    t.Accounted ∧
      effs.filterMap Effect.handle? = Stock.fresh.handed (effs.filterMap Effect.move?) ∧
      t.stock = Stock.fresh.run (effs.filterMap Effect.move?) ∧
      (∀ k v h t', (Edit.insert k v).run t = .ok h t' →
        h = t.stock.pick ∧ h ≠ .nil ∧ h ∉ t.inorder.map Prod.fst) ∧
      (t.size = 0 → t.stock.pick = ⟨1⟩) := by
  have hfresh := sound_fresh (V := V) order w
  have hs := (hfresh.run calls).tree
  obtain ⟨hhanded, hstock⟩ := hfresh.handed_run calls
  refine ⟨hs.accounted, hhanded, hstock, fun k v h t' hrun => hs.insert_eq_pick hrun, ?_⟩
  intro hzero
  obtain ⟨hlength, hfree⟩ := hs.accounted.fresh hzero
  rw [Stock.pick, Tree.stock, hfree, hlength]
  rfl

theorem accounted_run_natural :
    let s : Client Nat String := fresh .natural .halfWord
    (s.effects [.insert 2 "b", .insert 1 "a", .delete ⟨1⟩, .insert 3 "c", .clear,
      .insert 4 "d"]).filterMap Effect.handle? = [⟨1⟩, ⟨2⟩, ⟨1⟩, ⟨1⟩] :=
  (accounted_run (.natural : KeyOrder Nat) .halfWord [.insert 2 "b", .insert 1 "a", .delete ⟨1⟩,
    .insert 3 "c", .clear, .insert 4 "d"]).2.1.trans (by decide +kernel)

end Client
end RedBlack
