import RedBlack.Proofs.Bounds
import RedBlack.Proofs.Refusals

/-! The entry of a key. What is done through it is what the operations do that are given the handle, or the
key, straight away. -/
namespace RedBlack
open Text
variable {K V α : Type}

def Edit.withEntry (k : K) (use : Entry K → Edit K V α) : Edit K V α := do
  use (← Act.look (·.entry k))

namespace Tree

structure DiffersAt (t u : Tree K V) (i : Handle) (v : V) : Prop where
  slot : u.arena.slot? i = (t.arena.slot? i).map (Slot.withValue v)
  other : ∀ j, j ≠ i → u.arena.slot? j = t.arena.slot? j
  rest : u = { t with arena := ⟨u.arena.slots, t.arena.free⟩ }

/-- The entry of a key that is found at `i`, with what is stored there. Its key is the one that is stored,
whatever the one that was looked up. It is given another value as by its handle, and is deleted as by its
handle. A default for it is not computed: the state that computing it would change stays. -/
structure AtOccupied (t : Tree K V) (k : K) (i : Handle) (stored : K × V) : Prop where
  entryAt : t.entryAt? i = some stored
  agrees : t.order.compare k stored.1 = .eq
  key : Entry.key t (.occupied i) = .ok stored.1
  orInsert : ∀ v, (Edit.withEntry k (·.orInsert v)).run t = .ok i t
  orInsertWith : ∀ (σ : Type) (d : StateM σ V) s,
    (Edit.withEntry k fun e => (e.orInsertWith d).run s).run t = .ok (i, s) t
  andModify : ∀ f, ∃ u, (Edit.withEntry k (·.andModify f)).run t = .ok (.occupied i) u ∧
    (Edit.modifyAt? i f).run t = .ok (some (f stored.2)) u ∧ t.DiffersAt u i (f stored.2)
  insert : ∀ v, ∃ u, (Edit.replaceValue i v).run t = .ok stored.2 u ∧
    (Edit.replaceAt? i v).run t = .ok (some stored.2) u ∧ t.DiffersAt u i v
  remove : ∃ u, (Edit.removeEntry i).run t = .ok stored u ∧
    (Prod.snd <$> Edit.removeEntry i).run t = .ok stored.2 u ∧
    (Edit.delete i).run t = .ok (some stored) u

/-- The entry of a key that is not found. To fill it is to insert the key, which fails only where there is
no room, and gives the handle of the new value. -/
structure AtVacant (t : Tree K V) (k : K) : Prop where
  key : Entry.key t (.vacant k) = .ok k
  orInsert : ∀ v, (Edit.withEntry k (·.orInsert v)).run t = (Edit.insert k v).run t
  orInsertWith : ∀ (σ : Type) (d : StateM σ V) s,
    (Edit.withEntry k fun e => (e.orInsertWith d).run s).run t =
      (do return (← Edit.insert k (d.run s).1, (d.run s).2) : Edit K V _).run t
  andModify : ∀ f : V → V, (Edit.withEntry k (·.andModify f)).run t = .ok (.vacant k) t
  takeKey : (Edit.withEntry k fun e => return e.key? : Edit K V _).run t = .ok (some k) t
  inserted : ∀ v h u, (Edit.insert k v).run t = .ok h u → u.entryAt? h = some (k, v)
  refused : ∀ v e u, (Edit.insert k v).run t = .error e u ↔
    u = t ∧ e = .arenaFull ∧ t.stock.Exhausted t.width

variable {t : Tree K V} {k : K} {i : Handle}

theorem entry_eq_occupied_iff : t.entry k = .ok (.occupied i) ↔ t.search k = .ok (some i) := by
  unfold entry
  rcases t.search k with e | _ | h <;> simp [bind, Except.bind, pure, Except.pure]

theorem entry_eq_vacant_iff {k' : K} :
    t.entry k = .ok (.vacant k') ↔ t.search k = .ok none ∧ k' = k := by
  unfold entry
  rcases t.search k with e | _ | h <;> simp [bind, Except.bind, pure, Except.pure, eq_comm]

theorem run_withEntry {e : Entry K} (he : t.entry k = .ok e) (use : Entry K → Edit K V α) :
    (Edit.withEntry k use).run t = (use e).run t := Act.look_then he rfl

theorem differsAt_edited (t : Tree K V) (i : Handle) (v : V) : t.DiffersAt (t.edited i v) i v :=
  ⟨slot?_put_self .., fun _ hj => slot?_put_of_ne _ _ hj.symm, rfl⟩

namespace Sound

theorem not_has (hs : t.Sound) (hk : t.search k = .ok none) : ¬ t.Has k := by
  rintro ⟨⟨i, e⟩, hmem, heq⟩
  rw [hs.search_eq_some_iff.2 ⟨e, hs.entryAt?_eq_some_iff.2 hmem, heq⟩] at hk
  cases hk

theorem entryAt?_inserted (hs : t.Sound) {v : V} {h : Handle} {u : Tree K V}
    (hrun : (Edit.insert k v).run t = .ok h u) : u.entryAt? h = some (k, v) := by
  obtain ⟨hsound, hturns⟩ := hs.turns_insert hrun
  exact hsound.entryAt?_eq_some_iff.2 hturns.mem_added

theorem atOccupied (hs : t.Sound) (hk : t.search k = .ok (some i)) : ∃ e, t.AtOccupied k i e := by
  obtain ⟨e, hi, hagrees⟩ := hs.search_eq_some_iff.1 hk
  have hentry := entry_eq_occupied_iff.2 hk
  obtain ⟨u, hdelete, -⟩ := hs.exists_delete hi
  have hremove : (Edit.removeEntry i).run t = .ok e u := Act.run_then hdelete rfl
  refine ⟨e, hi, hagrees, Act.ok_then (entryAt?_eq_some.1 hi) rfl, fun v => ?_, fun σ d s => ?_,
    fun f => ?_, fun v => ?_, u, hremove, ?_, hdelete⟩
  · exact run_withEntry hentry _
  · exact run_withEntry hentry _
  · refine ⟨t.edited i (f e.2), ?_, run_modifyAt? hi f, differsAt_edited ..⟩
    exact (run_withEntry hentry _).trans (Act.run_then (run_modifyValue hi f) rfl)
  · exact ⟨t.edited i v, run_replaceValue hi v, run_replaceAt? hi v, differsAt_edited ..⟩
  · rw [map_eq_pure_bind]
    exact Act.run_then hremove rfl

theorem atVacant (hs : t.Sound) (hk : t.search k = .ok none) : t.AtVacant k := by
  have hentry := entry_eq_vacant_iff.2 ⟨hk, rfl⟩
  refine ⟨rfl, fun v => ?_, fun σ d s => ?_, fun f => ?_, ?_, fun v h u => hs.entryAt?_inserted,
    fun v e u => ?_⟩
  · exact run_withEntry hentry _
  · exact run_withEntry hentry _
  · exact run_withEntry hentry _
  · exact run_withEntry hentry _
  · rw [hs.run_insert_eq_error v]
    simp [hs.not_has hk]

end Sound
end Tree

/-- Whatever tree is reached, and for every key: the entry is occupied where the search finds the key, and
vacant with that key where it does not. What is done through the entry is done as by handle or by key, to
the last slot. An entry that is only looked at, or let go of, leaves the tree as it is. -/
theorem entries_agree [Describe K] [Describe V] (order : KeyOrder K) [Std.TransCmp order.compare]
    (w : Width) (t : Tree K V) (h : t.Reached order w) (k : K) :
    (∃ e, t.entry k = .ok e ∧
        ∀ (α : Type) (f : Entry K → α),
          (Edit.withEntry k fun e => return f e : Edit K V α).run t = .ok (f e) t) ∧
      (∀ i, t.entry k = .ok (.occupied i) ↔ t.search k = .ok (some i)) ∧
      (∀ k', t.entry k = .ok (.vacant k') ↔ t.search k = .ok none ∧ k' = k) ∧
      (∀ i, t.search k = .ok (some i) → ∃ stored, t.AtOccupied k i stored) ∧
      (t.search k = .ok none → t.AtVacant k) := by
  have hs := h.sound
  obtain ⟨e, he, -⟩ := hs.answers_entry k
  refine ⟨⟨e, he, fun α f => ?_⟩, fun i => Tree.entry_eq_occupied_iff,
    fun k' => Tree.entry_eq_vacant_iff, fun i => hs.atOccupied, hs.atVacant⟩
  exact Tree.run_withEntry he _

theorem entries_agree_allEqual :
    let t := ((Client.fresh .allEqual .halfWord : Client Int64 String).run [.insert 1 "a"]).tree
    let u := ((Client.fresh .allEqual .halfWord : Client Int64 String).run
      [.insert 1 "a", .delete ⟨1⟩]).tree
    t.entry 7 = .ok (.occupied ⟨1⟩) ∧
      (∃ stored, t.AtOccupied 7 ⟨1⟩ stored ∧ stored = (1, "a")) ∧
      u.entry 7 = .ok (.vacant 7) ∧ u.AtVacant 7 := by
  intro t u
  have ht : t.Reached .allEqual .halfWord := .calls .empty [.insert 1 "a"]
  have hu : u.Reached .allEqual .halfWord := .calls .empty [.insert 1 "a", .delete ⟨1⟩]
  obtain ⟨-, hoccupied, -, hat, -⟩ := entries_agree .allEqual .halfWord t ht 7
  obtain ⟨-, -, hvacant, -, hnot⟩ := entries_agree .allEqual .halfWord u hu 7
  have hsearch : t.search 7 = .ok (some ⟨1⟩) := by decide +kernel
  have habsent : u.search 7 = .ok none := by decide +kernel
  obtain ⟨stored, hstored⟩ := hat ⟨1⟩ hsearch
  have hentry : t.entryAt? ⟨1⟩ = some (1, "a") := by decide +kernel
  refine ⟨(hoccupied ⟨1⟩).2 hsearch, ⟨stored, hstored, ?_⟩, (hvacant 7).2 ⟨habsent, rfl⟩, hnot habsent⟩
  exact Option.some.inj (hstored.entryAt.symm.trans hentry)

end RedBlack
