import RedBlack.Proofs.Histories

/-! Handles: a live one stays with its entry, whatever is called, until the entry is deleted or all are;
one that is not live leads to nothing. -/
namespace RedBlack
variable {K V : Type}

theorem Effect.Alters.exists_mem {order : KeyOrder K} [Std.TransCmp order.compare]
    {l l' : List (Handle × K × V)} {eff : Effect K V} (h : eff.Alters order l l') {i : Handle} {k : K}
    {v : V} (hi : (i, k, v) ∈ l) (hdeleted : eff ≠ .deleted i) (hcleared : eff ≠ .cleared) :
    ∃ v', (i, k, v') ∈ l' ∧ (eff ≠ .edited i → v' = v) := by
  -- An addition keeps both parts of the list, between which it puts the new item; the key of an item that
  -- was there is on one side of the new key, for it does not compare equal.
  cases eff with
  | unchanged =>
    obtain rfl : l' = l := h
    exact ⟨v, hi, fun _ => rfl⟩
  | edited j =>
    obtain ⟨-, w, rfl⟩ := h
    have hmem := List.mem_map_of_mem (f := fun x => if x.1 = j then (x.1, x.2.1, w) else x) hi
    by_cases hij : i = j
    · subst hij
      exact ⟨w, (if_pos rfl : ite (i = i) (i, k, w) _ = _) ▸ hmem, fun hne => absurd rfl hne⟩
    · exact ⟨v, (if_neg hij : ite (i = j) _ (i, k, v) = _) ▸ hmem, fun _ => rfl⟩
  | added j k' v' =>
    obtain ⟨-, hk, rfl⟩ := h
    refine ⟨v, List.mem_append.2 ?_, fun _ => rfl⟩
    have hne : order.compare k' k ≠ .eq := fun heq =>
      List.any_eq_false.1 hk _ hi (KeyOrder.agrees_iff.2 heq)
    cases hc : order.compare k' k with
    | lt => exact .inr (List.mem_cons_of_mem _ (List.mem_filter.2 ⟨hi, decide_eq_true hc⟩))
    | eq => exact absurd hc hne
    | gt => exact .inl (List.mem_filter.2 ⟨hi, decide_eq_true (Std.OrientedCmp.gt_iff_lt.1 hc)⟩)
  | deleted j =>
    obtain ⟨-, rfl⟩ := h
    refine ⟨v, List.mem_filter.2 ⟨hi, decide_eq_true fun hij => hdeleted ?_⟩, fun _ => rfl⟩
    exact congrArg Effect.deleted hij.symm
  | cleared => exact absurd rfl hcleared

namespace Tree
variable {t t' : Tree K V} {i : Handle} {k : K} {v : V}

structure Stale (t : Tree K V) (h : Handle) : Prop where
  key : t.keyAt? h = none
  value : t.valueAt? h = none
  entry : t.entryAt? h = none
  modify : ∀ f, (Edit.modifyAt? h f).run t = .ok none t
  replace : ∀ v, (Edit.replaceAt? h v).run t = .ok none t
  successor : t.successor h = .ok none
  predecessor : t.predecessor h = .ok none
  delete : (Edit.delete h).run t = .ok none t
  cursor : Cursor.start t (.handle h) = .ok ⟨none⟩

theorem stale_of_entryAt? (hi : t.entryAt? i = none) : t.Stale i := by
  have hkey : t.keyAt? i = none := congrArg (Option.map Prod.fst) hi
  have hneighbor (a : Side) : t.neighbor a i = .ok none := by
    rw [Tree.neighbor, hi]
    rfl
  refine ⟨hkey, congrArg (Option.map Prod.snd) hi, hi, run_modifyAt?_stale hi, run_replaceAt?_stale hi,
    hneighbor .right, hneighbor .left, run_delete_stale hi, ?_⟩
  rw [Cursor.start, Cursor.attach, Option.filter_some, hkey]
  rfl

namespace Sound

theorem search_of_mem (hs : t.Sound) (hi : (i, k, v) ∈ t.inorder) : t.search k = .ok (some i) := by
  obtain ⟨ns, h⟩ := hs.holds
  have := hs.lawful
  have hfind : t.inorder.find? (t.order.agrees k) = some (i, k, v) :=
    KeyOrder.Sorted.find?_of_mem (a := (i, k, v)) h.sorted hi
  rw [hs.search k, hfind]
  rfl

theorem notMem_handles_iff (hs : t.Sound) :
    i ∉ t.inorder.map Prod.fst ↔ i = .nil ∨ i ∈ t.arena.free ∨ t.arena.slots.size ≤ i.pos := by
  obtain ⟨ns, h⟩ := hs.holds
  have hmem : i ∈ t.inorder.map Prod.fst ∨ i ∈ t.arena.free ↔ 0 < i.pos ∧ i.pos < t.arena.slots.size := by
    rw [← handles_eq, ← List.mem_append, h.handles.mem_iff, Arena.mem_positions]
  have hnil : i = .nil ↔ i.pos = 0 := ⟨congrArg Handle.pos, congrArg Handle.mk⟩
  constructor
  · intro hlive
    by_cases hfree : i ∈ t.arena.free
    · exact .inr (.inl hfree)
    · have hnot : ¬ (0 < i.pos ∧ i.pos < t.arena.slots.size) := fun hpos =>
        (hmem.2 hpos).elim hlive hfree
      rw [hnil]
      omega
  · rintro hdead hlive
    have hpos := hmem.1 (.inl hlive)
    rcases hdead with hi | hfree | hsize
    · exact Nat.ne_of_gt hpos.1 (hnil.1 hi)
    · exact (List.nodup_append.1 (handles_eq t ▸ h.nodup)).2.2 i hlive i hfree rfl
    · exact Nat.not_lt_of_le hsize hpos.2

theorem stays (hs : t.Sound) (hs' : t'.Sound) {eff : Effect K V} (hturns : t.Turns t' eff)
    (hi : t.entryAt? i = some (k, v)) (hdeleted : eff ≠ .deleted i) (hcleared : eff ≠ .cleared) :
    t'.keyAt? i = some k ∧ t'.search k = .ok (some i) ∧
      (eff ≠ .edited i → t'.valueAt? i = some v) := by
  have := hs.lawful
  obtain ⟨v', hmem, hv⟩ :=
    hturns.items.exists_mem (hs.entryAt?_eq_some_iff.1 hi) hdeleted hcleared
  have hentry := hs'.entryAt?_eq_some_iff.2 hmem
  refine ⟨?_, hs'.search_of_mem hmem, ?_⟩
  · rw [keyAt?, hentry]
    rfl
  · intro hedited
    rw [valueAt?, hentry, hv hedited]
    rfl

theorem insert_split (hs : t.Sound) (hrun : (Edit.insert k v).run t = .ok i t') :
    ∃ b a, t.inorder = b ++ a ∧ t'.inorder = b ++ (i, k, v) :: a ∧
      (∀ x ∈ b, t.order.Before x (i, k, v)) ∧ ∀ x ∈ a, t.order.Before (i, k, v) x := by
  obtain ⟨ns, h⟩ := hs.holds
  have := hs.lawful
  obtain ⟨-, hturns⟩ := hs.turns_insert hrun
  obtain ⟨-, hk, hplace⟩ := hturns.items
  obtain ⟨b, a, hsplit, hb, ha⟩ := KeyOrder.Sorted.exists_split (a := (i, k, v)) h.sorted hk
  refine ⟨b, a, hsplit, ?_, hb, ha⟩
  rw [hplace, show t.inorder = b ++ a from hsplit, KeyOrder.place_append hb ha]

end Sound
end Tree

/-- After any calls: a live handle stays live through every other call but a deletion at it and the
removal of all, leads to the same key, is found under it, and has the same value but for an edit at it. An
insertion changes the items only by the new one at the place of its key, a deletion only by the item of
the handle. A handle that is not live leads to nothing. -/
theorem Client.handles_stable (order : KeyOrder K) [Std.TransCmp order.compare] (w : Width)
    (calls : List (Call K V)) :
    let s := (fresh order w).run calls
    let t := s.tree
    (∀ c h k v, t.entryAt? h = some (k, v) → s.effect c ≠ .deleted h → s.effect c ≠ .cleared →
      (s.step c).2.tree.keyAt? h = some k ∧ (s.step c).2.tree.search k = .ok (some h) ∧
        (s.effect c ≠ .edited h → (s.step c).2.tree.valueAt? h = some v)) ∧
      (∀ k v h t', (Edit.insert k v).run t = .ok h t' →
        ∃ b a, t.inorder = b ++ a ∧ t'.inorder = b ++ (h, k, v) :: a ∧
          (∀ x ∈ b, order.Before x (h, k, v)) ∧ ∀ x ∈ a, order.Before (h, k, v) x) ∧
      (∀ h e, t.entryAt? h = some e →
        ∃ t', (Edit.delete h).run t = .ok (some e) t' ∧
          t'.inorder = t.inorder.filter fun x => x.1 ≠ h) ∧
      (∀ h, h ∉ t.inorder.map Prod.fst ↔
        h = .nil ∨ h ∈ t.arena.free ∨ t.arena.slots.size ≤ h.pos) ∧
      ∀ h, h ∉ t.inorder.map Prod.fst → t.Stale h := by
  have hfresh := sound_fresh (V := V) order w
  have hs := hfresh.run calls
  have horder : ((fresh order w).run calls).tree.order = order := hfresh.order_run calls
  refine ⟨?_, ?_, ?_,
    fun h => hs.tree.notMem_handles_iff, ?_⟩
  · intro c h k v hi hdeleted hcleared
    obtain ⟨hsound, hturns, -⟩ := hs.step c
    exact hs.tree.stays hsound.tree hturns hi hdeleted hcleared
  · intro k v h t' hrun
    have hsplit := hs.tree.insert_split hrun
    rwa [horder] at hsplit
  · intro h e hi
    obtain ⟨t', hrun, -, hturns⟩ := hs.tree.exists_delete hi
    exact ⟨t', hrun, hturns.items.2⟩
  · intro h hdead
    rw [← hs.tree.isSome_entryAt?_iff, Option.not_isSome_iff_eq_none] at hdead
    exact Tree.stale_of_entryAt? hdead

theorem Client.handles_stable_natural :
    let s : Client Nat String :=
      (fresh .natural .halfWord).run [.insert 2 "b", .insert 1 "a", .insert 3 "c"]
    (s.step (.delete ⟨1⟩)).2.tree.search 3 = .ok (some ⟨3⟩) ∧
      (s.step (.delete ⟨1⟩)).2.tree.valueAt? ⟨3⟩ = some "c" ∧ s.tree.Stale ⟨4⟩ := by
  obtain ⟨hstays, -, -, -, hstale⟩ := handles_stable (.natural : KeyOrder Nat) .halfWord
    [.insert 2 "b", .insert 1 "a", .insert 3 "c"]
  obtain ⟨-, hsearch, hvalue⟩ :=
    hstays (.delete ⟨1⟩) ⟨3⟩ 3 "c" rfl (by decide +kernel) (by decide +kernel)
  exact ⟨hsearch, hvalue (by decide +kernel), hstale ⟨4⟩ (by decide +kernel)⟩

end RedBlack
