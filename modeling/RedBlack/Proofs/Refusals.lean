import RedBlack.Proofs.Cursors
import RedBlack.Proofs.Faultless

/-! Refusals. What a tree or a map refuses to do, it has not begun to do: all is as it was before, the
free slots and the log among it. -/
namespace RedBlack
open Text
variable {K V : Type}

namespace Tree

def Has (t : Tree K V) (k : K) : Prop := ∃ x ∈ t.inorder, t.order.compare k x.2.1 = .eq

/-- An insertion fails only where the key is present, whatever the room, or where there is no room, also
if it comes from a vacant entry. What needs a live handle, a key that is present, or an entry at a cursor
says so if there is none. None of this changes the tree, and neither does any other call that fails or
has no effect. -/
structure Undisturbed [Describe K] [Describe V] (t : Tree K V) : Prop where
  valid : t.Valid
  insert : ∀ k v e u, (Edit.insert k v).run t = .error e u ↔
    u = t ∧ (e = .duplicateKey ∧ t.Has k ∨
      e = .arenaFull ∧ ¬ t.Has k ∧ t.stock.Exhausted t.width)
  vacant : ∀ k, ¬ t.Has k → t.entry k = .ok (.vacant k) ∧ (t.stock.Exhausted t.width →
    (∀ v, ((Entry.vacant k).orInsert v).run t = .error .arenaFull t) ∧
      (∀ (σ : Type) (d : StateM σ V) s,
        (((Entry.vacant k).orInsertWith d).run s).run t = .error .arenaFull t) ∧
      ∀ v f, ((EntryUse.insert v f).run (.vacant k)).run t = .error .arenaFull t)
  stale : ∀ h, h ∉ t.inorder.map Prod.fst → (Edit.delete h).run t = .ok none t ∧
    (∀ f, (Edit.modifyAt? h f).run t = .ok none t) ∧ ∀ v, (Edit.replaceAt? h v).run t = .ok none t
  absent : ∀ k, ¬ t.Has k → (Edit.remove k).run t = .ok none t
  cursor : ∀ m, (Cursor.edit ⟨none⟩ m).run t = .ok (m.unfocused, ⟨none⟩) t
  call : ∀ (calls : List (Call K V)) c, let s := Client.run calls ⟨t, .nothing⟩
    (∀ e, (s.step c).1 = .error e → (s.step c).2.tree = s.tree) ∧
      (s.effect c = .unchanged → (s.step c).2.tree = s.tree)

variable {t : Tree K V} {k : K}

theorem any_agrees_iff : t.inorder.any (t.order.agrees k) = true ↔ t.Has k := by
  rw [List.any_eq_true]
  exact exists_congr fun x => and_congr_right fun _ => KeyOrder.agrees_iff

theorem any_agrees_eq_false (hk : ¬ t.Has k) : t.inorder.any (t.order.agrees k) = false :=
  Bool.eq_false_iff.2 fun h => hk (any_agrees_iff.1 h)

namespace Sound

theorem search_absent (hs : t.Sound) (hk : ¬ t.Has k) : t.search k = .ok none := by
  have hnone : t.inorder.find? (t.order.agrees k) = none := by
    rw [List.find?_eq_none]
    intro x hx hagrees
    exact hk ⟨x, hx, KeyOrder.agrees_iff.1 hagrees⟩
  rw [hs.search k, hnone]
  rfl

theorem run_insert_full (hs : t.Sound) (hk : ¬ t.Has k) (hfull : t.stock.Exhausted t.width) (v : V) :
    (Edit.insert k v).run t = .error .arenaFull t :=
  hs.run_insert_exhausted (any_agrees_eq_false hk) hfull v

theorem run_insert_eq_error (hs : t.Sound) (v : V) {e : Failure} {u : Tree K V} :
    (Edit.insert k v).run t = .error e u ↔
      u = t ∧ (e = .duplicateKey ∧ t.Has k ∨
        e = .arenaFull ∧ ¬ t.Has k ∧ t.stock.Exhausted t.width) := by
  constructor
  · intro hrun
    by_cases hk : t.Has k
    · rw [hs.run_insert_duplicate (any_agrees_iff.2 hk) v] at hrun
      cases hrun
      exact ⟨rfl, .inl ⟨rfl, hk⟩⟩
    by_cases hfull : t.stock.Exhausted t.width
    · rw [hs.run_insert_full hk hfull v] at hrun
      cases hrun
      exact ⟨rfl, .inr ⟨rfl, hk, hfull⟩⟩
    · obtain ⟨t', hgood, -⟩ := hs.exists_insert (any_agrees_eq_false hk) hfull v
      rw [hgood] at hrun
      cases hrun
  · rintro ⟨rfl, ⟨rfl, hk⟩ | ⟨rfl, hk, hfull⟩⟩
    · exact hs.run_insert_duplicate (any_agrees_iff.2 hk) v
    · exact hs.run_insert_full hk hfull v

theorem undisturbed [Describe K] [Describe V] (hs : t.Sound) : t.Undisturbed := by
  refine ⟨hs.valid, fun k v e u => hs.run_insert_eq_error v, fun k hk => ⟨?_, fun hfull => ?_⟩,
    fun h hdead => ?_, fun k hk => run_remove_absent (hs.search_absent hk), Cursor.edit_unfocused t,
    fun calls c => ?_⟩
  · exact Act.ok_then (hs.search_absent hk) rfl
  · -- The entry looks for the key again, and takes a slot only then.
    have hrun := hs.run_insert_full hk hfull
    exact ⟨hrun, fun σ d s => Act.fail_then (hrun (d.run s).1), fun v f => Act.fail_then (hrun v)⟩
  · rw [← hs.isSome_entryAt?_iff, Option.not_isSome_iff_eq_none] at hdead
    have hstale := stale_of_entryAt? hdead
    exact ⟨hstale.delete, hstale.modify, hstale.replace⟩
  · have hclient : (Client.run calls ⟨t, .nothing⟩).Sound :=
      Client.Sound.run (s := ⟨t, .nothing⟩) ⟨hs, trivial⟩ calls
    obtain ⟨-, hturns, hfail⟩ := hclient.step c
    exact ⟨fun e he => (hfail e he).1, hturns.still⟩

end Sound
end Tree

namespace Map
variable {m : Map K V} {strategy : Strategy}

structure Undisturbed (m : Map K V) : Prop where
  replace : ∀ k v, ¬ m.content.Has k →
    (Map.replace k v).outcome m = (.ok (.error .keyNotFound), m)
  remove : ∀ k, ¬ m.content.Has k → (Map.remove k).outcome m = (.ok none, m)
  removeAt : ∀ h, h ∉ m.content.inorder.map Prod.fst → (Map.removeAt h).outcome m = (.ok none, m)
  insert : ∀ k v, ¬ m.content.Has k → m.content.stock.Exhausted m.content.width →
    (Map.insert k v).outcome m = (.error .arenaFull, m)

theorem Rests.undisturbed (h : m.Rests strategy) : Undisturbed m := by
  have hkept {β : Type} {act : Edit K V β} {b : β} (hrun : act.run m.content = .ok b m.content) :
      (Lock.update act).outcome m = (.ok b, m) := Lock.outcome_update_ok h.borrow_eq hrun
  have hs := h.content
  refine ⟨fun k v hk => hkept (Act.look_then (hs.search_absent hk) rfl),
    fun k hk => hkept (Tree.run_remove_absent (hs.search_absent hk)), fun i hdead => ?_,
    fun k v hk hfull => ?_⟩
  · rw [← hs.isSome_entryAt?_iff, Option.not_isSome_iff_eq_none] at hdead
    exact hkept (Tree.run_delete_stale hdead)
  · exact Lock.outcome_update_error h.borrow_eq
      (Act.look_then (hs.search_absent hk) (Act.fail_then (hs.run_insert_full hk hfull v)))

end Map

/-- In all states that trees and maps can come to, what is refused leaves everything as it was. -/
theorem refusals_keep_state [Describe K] [Describe V] (order : KeyOrder K)
    [Std.TransCmp order.compare] :
    (∀ (w : Width) (t : Tree K V), t.Reached order w → t.Undisturbed) ∧
      (∀ (strategy : Strategy) (m : Map K V), m.Reached strategy order → m.Undisturbed) ∧
      Failure.duplicateKey.message? = some "key is already present" ∧
      Failure.arenaFull.message? = some "Reached maximum number of nodes" :=
  ⟨fun _ _ h => h.sound.undisturbed, fun _ _ h => h.rests.undisturbed, rfl, rfl⟩

theorem refusals_keep_state_natural :
    let t := ((Client.fresh .natural (.upTo 2) : Client Int64 String).run [.insert 1 "a"]).tree
    let m := ((MapCommand.insert 1 "a").run.outcome
      (.empty .unsynchronized .natural : Map Int64 String)).2
    (Edit.insert 1 "b").run t = .error .duplicateKey t ∧
      (Edit.insert 2 "b").run t = .error .arenaFull t ∧
      (Edit.delete ⟨2⟩).run t = .ok none t ∧ (Edit.remove 2).run t = .ok none t ∧
      (Map.replace 2 "b").outcome m = (.ok (.error .keyNotFound), m) := by
  obtain ⟨htree, hmap, -, -⟩ := refusals_keep_state (V := String) (.natural : KeyOrder Int64)
  have ht := htree (.upTo 2) _ (.calls .empty [.insert 1 "a"])
  have hm := hmap .unsynchronized _ (.command .empty (.insert 1 "a"))
  have habsent {t : Tree Int64 String} (h : t.inorder.any (t.order.agrees 2) = false) : ¬ t.Has 2 :=
    fun hhas => Bool.eq_false_iff.1 h (Tree.any_agrees_iff.2 hhas)
  have hnot := habsent (t := (Client.run [.insert 1 "a"] (.fresh .natural (.upTo 2))).tree)
    (by decide +kernel)
  refine ⟨?_, ?_, (ht.stale ⟨2⟩ (by decide +kernel)).1, ht.absent 2 hnot,
    hm.replace 2 "b" (habsent (by decide +kernel))⟩
  · exact (ht.insert 1 "b" _ _).2 ⟨rfl, .inl ⟨rfl, Tree.any_agrees_iff.1 (by decide +kernel)⟩⟩
  · exact (ht.insert 2 "b" _ _).2 ⟨rfl, .inr ⟨rfl, hnot, by decide +kernel⟩⟩

end RedBlack
