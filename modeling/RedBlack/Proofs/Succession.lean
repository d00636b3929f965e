import Mathlib.Data.List.Nodup
import RedBlack.Proofs.Accounting

/-! The entries one after another. The ends of a tree and the steps between neighbors give its items in
their order, from either end, each of them once. -/
namespace RedBlack
variable {K V : Type}

namespace Side
variable {α β : Type}

theorem map_along (a : Side) (f : α → β) (l : List α) : (a.along l).map f = a.along (l.map f) := by
  cases a with
  | left => exact List.map_reverse
  | right => rfl

theorem mem_along {a : Side} {l : List α} {x : α} : x ∈ a.along l ↔ x ∈ l := by
  cases a with
  | left => exact List.mem_reverse
  | right => exact Iff.rfl

theorem along_other (a : Side) (l : List α) : a.other.along l = (a.along l).reverse := by
  cases a with
  | left => exact (List.reverse_reverse l).symm
  | right => rfl

theorem nodup_along {a : Side} {l : List α} (h : l.Nodup) : (a.along l).Nodup := by
  cases a with
  | left => exact List.nodup_reverse.2 h
  | right => exact h

end Side

namespace Tree
variable {t : Tree K V} {a : Side} {b c : List (Handle × K × V)} {x : Handle × K × V} {n : Nat}
  {h h' : Handle}

def stride (t : Tree K V) (a : Side) : Nat → Except Failure (Option Handle)
  | 0 => t.extreme a.other
  | n + 1 => do
    match ← t.stride a n with
    | none => return none
    | some h => t.neighbor a h

namespace Sound

theorem nodup_handles (hs : t.Sound) : (t.inorder.map Prod.fst).Nodup := hs.accounted.nodup_live

theorem extreme (hs : t.Sound) (a : Side) :
    t.extreme a.other = .ok (a.along (t.inorder.map Prod.fst)).head? := by
  obtain ⟨ns, h⟩ := hs.holds
  apply (h.shows.extreme a.other).trans
  cases a with
  | left => rw [Side.along, List.head?_reverse, List.getLast?_map]; rfl
  | right => rw [Side.along, List.head?_map]; rfl

theorem neighbor_of_split (hs : t.Sound) (hsplit : a.along t.inorder = b ++ x :: c) :
    t.neighbor a x.1 = .ok (c.head?.map Prod.fst) := by
  obtain ⟨ns, hh⟩ := hs.holds
  have hx : x ∈ t.inorder := Side.mem_along.1 (hsplit ▸ List.mem_append_right b List.mem_cons_self)
  obtain ⟨b', c', hitems, hneighbor⟩ := hh.neighbor hx a
  have hitems : t.inorder = b' ++ x :: c' := hitems
  -- No item is there twice, and so there is one way only to cut the list at this one.
  have hcut {d d' : List (Handle × K × V)} (hd : a.along t.inorder = d ++ x :: d') : d' = c := by
    have hnodup : (a.along t.inorder).Nodup := Side.nodup_along (List.Nodup.of_map _ hs.nodup_handles)
    rw [hd] at hnodup
    have hnot := List.nodup_middle.1 hnodup
    rw [List.nodup_cons, List.mem_append, not_or] at hnot
    exact ((List.append_cons_inj_of_notMem hnot.1.1 hnot.1.2).1 (hd.symm.trans hsplit)).2.2
  rw [hneighbor]
  cases a with
  | left =>
    have hleft : Side.along .left t.inorder = c'.reverse ++ x :: b'.reverse := by
      rw [Side.along, hitems, List.reverse_append, List.reverse_cons, List.append_assoc]
      rfl
    rw [← hcut hleft, List.head?_reverse]
  | right => rw [← hcut hitems]

theorem neighbor_getElem? (hs : t.Sound) (hn : (a.along (t.inorder.map Prod.fst))[n]? = some h) :
    t.neighbor a h = .ok (a.along (t.inorder.map Prod.fst))[n + 1]? := by
  rw [← Side.map_along, List.getElem?_map] at hn ⊢
  obtain ⟨x, hx, rfl⟩ := Option.map_eq_some_iff.1 hn
  obtain ⟨hlt, hget⟩ := List.getElem?_eq_some_iff.1 hx
  have hsplit : a.along t.inorder =
      (a.along t.inorder).take n ++ x :: (a.along t.inorder).drop (n + 1) := by
    rw [← hget, List.getElem_cons_drop, List.take_append_drop]
  rw [hs.neighbor_of_split hsplit, List.head?_drop]

theorem stride_eq (hs : t.Sound) (a : Side) (n : Nat) :
    t.stride a n = .ok (a.along (t.inorder.map Prod.fst))[n]? := by
  induction n with
  | zero => rw [stride, hs.extreme, List.head?_eq_getElem?]
  | succ n ih =>
    apply Act.ok_then ih
    cases hn : (a.along (t.inorder.map Prod.fst))[n]? with
    | none =>
      rw [List.getElem?_eq_none_iff] at hn
      rw [List.getElem?_eq_none (Nat.le_succ_of_le hn)]
      rfl
    | some h => exact hs.neighbor_getElem? hn

theorem neighbor_eq_some (hs : t.Sound) (hh : t.neighbor a h = .ok (some h')) :
    ∃ n, (a.along (t.inorder.map Prod.fst))[n]? = some h ∧
      (a.along (t.inorder.map Prod.fst))[n + 1]? = some h' := by
  have hlive : h ∈ t.inorder.map Prod.fst := by
    rw [← hs.isSome_entryAt?_iff, Option.isSome_iff_ne_none]
    intro hnone
    rw [Tree.neighbor, hnone] at hh
    cases hh
  obtain ⟨n, hn⟩ := List.getElem?_of_mem (Side.mem_along (a := a).2 hlive)
  rw [hs.neighbor_getElem? hn] at hh
  exact ⟨n, hn, Except.ok.inj hh⟩

theorem neighbor_other (hs : t.Sound) (hh : t.neighbor a h = .ok (some h')) :
    t.neighbor a.other h' = .ok (some h) := by
  obtain ⟨n, hn, hnext⟩ := hs.neighbor_eq_some hh
  obtain ⟨hlt, -⟩ := List.getElem?_eq_some_iff.1 hnext
  have hback {i j : Nat} (hij : i + j + 1 = (a.along (t.inorder.map Prod.fst)).length) :
      (a.other.along (t.inorder.map Prod.fst))[i]? = (a.along (t.inorder.map Prod.fst))[j]? := by
    rw [Side.along_other]
    exact List.getElem?_reverse' hij
  have hstep := hs.neighbor_getElem? (a := a.other)
    (n := (a.along (t.inorder.map Prod.fst)).length - 1 - (n + 1)) (h := h')
    ((hback (by omega)).trans hnext)
  rw [hstep, ← hn]
  exact congrArg Except.ok (hback (by omega))

end Sound
end Tree

/-- After any calls: the ends of the tree are the ends of its items, and from an entry on one gets to the
item that follows or, going back, to the one in front of it. One way is the other backwards. Steps from
either end come by each of the entries once, and then by nothing more. -/
theorem Client.steps_follow_inorder (order : KeyOrder K) [Std.TransCmp order.compare] (w : Width)
    (calls : List (Call K V)) :
    let t := ((fresh order w).run calls).tree
    let hs := t.inorder.map Prod.fst
    (t.first = .ok hs.head? ∧ t.last = .ok hs.getLast?) ∧
      (∀ n h h', hs[n]? = some h → hs[n + 1]? = some h' →
        t.successor h = .ok (some h') ∧ t.predecessor h' = .ok (some h)) ∧
      (∀ h, hs.getLast? = some h → t.successor h = .ok none) ∧
      (∀ h, hs.head? = some h → t.predecessor h = .ok none) ∧
      (∀ h h', t.successor h = .ok (some h') ↔ t.predecessor h' = .ok (some h)) ∧
      (hs.Nodup ∧ hs.length = t.size) ∧
      (∀ n, t.stride .right n = .ok hs[n]?) ∧ ∀ n, t.stride .left n = .ok hs.reverse[n]? := by
  have hs := ((sound_fresh (V := V) order w).run calls).tree
  refine ⟨⟨hs.extreme .right, ?_⟩, ?_, ?_, ?_, ?_, ⟨hs.nodup_handles, ?_⟩, hs.stride_eq .right,
    hs.stride_eq .left⟩
  · apply (hs.extreme .left).trans
    rw [Side.along, List.head?_reverse]
  · intro n h h' hn hnext
    have hstep : _ = Except.ok _ := (hs.neighbor_getElem? (a := .right) hn).trans (congrArg _ hnext)
    exact ⟨hstep, hs.neighbor_other hstep⟩
  · intro h hlast
    rw [List.getLast?_eq_getElem?] at hlast
    apply (hs.neighbor_getElem? (a := .right) hlast).trans
    rw [Side.along, List.getElem?_eq_none (by omega)]
  · intro h hfirst
    rw [← List.getLast?_reverse, List.getLast?_eq_getElem?] at hfirst
    apply (hs.neighbor_getElem? (a := .left) hfirst).trans
    rw [Side.along, List.getElem?_eq_none (by omega)]
  · exact fun h h' => ⟨hs.neighbor_other, hs.neighbor_other⟩
  · rw [List.length_map, hs.size_eq]

theorem Client.steps_follow_inorder_natural :
    let t := ((fresh .natural .halfWord : Client Nat String).run
      [.insert 2 "b", .insert 1 "a", .insert 3 "c"]).tree
    t.inorder.map Prod.fst = [⟨2⟩, ⟨1⟩, ⟨3⟩] ∧ t.successor ⟨2⟩ = .ok (some ⟨1⟩) ∧
      t.predecessor ⟨1⟩ = .ok (some ⟨2⟩) ∧ t.stride .left 2 = .ok (some ⟨2⟩) := by
  have hitems : ((fresh .natural .halfWord : Client Nat String).run
      [.insert 2 "b", .insert 1 "a", .insert 3 "c"]).tree.inorder.map Prod.fst =
        [⟨2⟩, ⟨1⟩, ⟨3⟩] := by decide +kernel
  obtain ⟨-, hnext, -, -, -, -, -, hback⟩ := steps_follow_inorder (.natural : KeyOrder Nat) .halfWord
    [.insert 2 "b", .insert 1 "a", .insert 3 "c"]
  rw [hitems] at hnext hback
  exact ⟨hitems, (hnext 0 ⟨2⟩ ⟨1⟩ rfl rfl).1, (hnext 0 ⟨2⟩ ⟨1⟩ rfl rfl).2, hback 2⟩

end RedBlack
