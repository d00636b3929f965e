import Mathlib.Data.List.Find
import Mathlib.Data.List.TakeWhile
import RedBlack.Iteration
import RedBlack.Proofs.AssociationList
import RedBlack.Proofs.Handles
import RedBlack.Proofs.Succession

/-! Bounds: where the keys begin that are not less than a key, and those that are greater. The walks
down find the first of these items, and from there on the items come in order. -/
namespace RedBlack
variable {K V : Type}

theorem find?_of_cut {α : Type} {p : α → Bool} {b c : List α} (hb : ∀ x ∈ b, p x = false)
    (hc : ∀ x ∈ c, p x = true) : (b ++ c).find? p = c.head? := by
  have hnone : b.find? p = none := List.find?_eq_none.2 fun x hx => Bool.eq_false_iff.1 (hb x hx)
  rw [List.find?_append, hnone, Option.none_or]
  cases c with
  | nil => rfl
  | cons x c => rw [List.find?_cons_of_pos (hc x List.mem_cons_self), List.head?_cons]

namespace KeyOrder

def lesser (order : KeyOrder K) (k : K) (x : Handle × K × V) : Bool := order.compare x.2.1 k == .lt

def greater (order : KeyOrder K) (k : K) (x : Handle × K × V) : Bool := order.compare x.2.1 k == .gt

section
variable {order : KeyOrder K} [Std.TransCmp order.compare] {k : K} {x y : Handle × K × V}
  {b c l : List (Handle × K × V)}

theorem lesser_iff : order.lesser k x = true ↔ order.compare k x.2.1 = .gt := by
  rw [lesser, beq_iff_eq, Std.OrientedCmp.gt_iff_lt]

theorem greater_iff : order.greater k x = true ↔ order.compare k x.2.1 = .lt := by
  rw [greater, beq_iff_eq, Std.OrientedCmp.gt_iff_lt]

theorem not_lesser_of_before (h : order.Before x y) (hx : (!order.lesser k x) = true) :
    (!order.lesser k y) = true := by
  rw [Bool.not_eq_true', Bool.eq_false_iff, ne_eq, lesser_iff] at hx ⊢
  rw [compare_lt_of_before hx h]
  decide

theorem greater_of_before (h : order.Before x y) (hx : order.greater k x = true) :
    order.greater k y = true := by
  rw [greater_iff] at hx ⊢
  exact compare_lt_of_before (by rw [hx]; decide) h

theorem Sorted.bounds_of_agrees (h : order.Sorted (b ++ x :: c)) (hk : order.agrees k x = true) :
    (b ++ x :: c).find? (fun y => !order.lesser k y) = some x ∧
      (b ++ x :: c).find? (order.greater k) = c.head? := by
  obtain ⟨-, hxc, hbx⟩ := List.pairwise_append.1 h
  have heq := agrees_iff.1 hk
  have hb : ∀ y ∈ b, order.compare k y.2.1 = .gt := fun y hy =>
    compare_gt_of_before (by rw [heq]; decide) (hbx y hy x List.mem_cons_self)
  have hc : ∀ y ∈ c, order.compare k y.2.1 = .lt := fun y hy =>
    compare_lt_of_before (by rw [heq]; decide) ((List.pairwise_cons.1 hxc).1 y hy)
  constructor
  · refine find?_of_cut (c := x :: c) (fun y hy => ?_) fun y hy => ?_
    · rw [lesser_iff.2 (hb y hy)]
      rfl
    · rw [Bool.not_eq_true', Bool.eq_false_iff, ne_eq, lesser_iff]
      rcases List.mem_cons.1 hy with rfl | hy
      · rw [heq]
        decide
      · rw [hc y hy]
        decide
  · rw [List.append_cons]
    refine find?_of_cut (fun y hy => ?_) fun y hy => greater_iff.2 (hc y hy)
    rw [Bool.eq_false_iff, ne_eq, greater_iff]
    rcases List.mem_append.1 hy with hy | hy
    · rw [hb y hy]
      decide
    · rw [List.mem_singleton.1 hy, heq]
      decide

theorem not_lesser_eq_greater (hk : order.agrees k x = false) : (!order.lesser k x) = order.greater k x := by
  rw [Bool.eq_iff_iff, Bool.not_eq_true', Bool.eq_false_iff, ne_eq, lesser_iff, greater_iff]
  have hne : order.compare k x.2.1 ≠ .eq := fun heq =>
    Bool.eq_false_iff.1 hk (agrees_iff.2 heq)
  cases hc : order.compare k x.2.1 with
  | lt => decide
  | eq => exact absurd hc hne
  | gt => decide

end
end KeyOrder

structure Seek.Bounds (s : Seek) (order : KeyOrder K) (k : K) (p : Handle × K × V → Bool) : Prop where
  turn : ∀ x : Handle × K × V, s.turn (order.compare (s.arguments k x.2.1).1 (s.arguments k x.2.1).2) =
    if p x then .go .left true else .go .right false
  upward : ∀ x y, order.Before x y → p x = true → p y = true

namespace Seek
variable (order : KeyOrder K) [Std.TransCmp order.compare] (k : K)

theorem bounds_lower : Bounds .lower order k fun x : Handle × K × V => !order.lesser k x := by
  refine ⟨fun x => ?_, fun x y => KeyOrder.not_lesser_of_before⟩
  rw [arguments, KeyOrder.lesser]
  dsimp only
  cases order.compare x.2.1 k <;> rfl

theorem bounds_upper : Bounds .upper order k (order.greater k : Handle × K × V → Bool) := by
  refine ⟨fun x => ?_, fun x y => KeyOrder.greater_of_before⟩
  rw [arguments, KeyOrder.greater]
  dsimp only
  cases order.compare x.2.1 k <;> rfl

end Seek

theorem Shape.found_descend_bound {order : KeyOrder K} {s : Seek} {k : K}
    {p : Handle × K × V → Bool} (hb : s.Bounds order k p) {sh : Shape K V}
    (h : order.Sorted sh.items) (found : Option Handle) :
    (sh.descend order s k found).found = ((sh.items.find? p).map Prod.fst).or found := by
  -- What was found above is further on, and counts only if there is nothing below.
  induction sh generalizing found with
  | nil => rfl
  | node l c r ihl ihr =>
    rw [items_node] at h ⊢
    obtain ⟨hl, hr, hlr⟩ := List.pairwise_append.1 h
    obtain ⟨-, hr⟩ := List.pairwise_cons.1 hr
    have hturn : s.turn (order.compare (s.arguments k c.entry.1).1 (s.arguments k c.entry.1).2) =
        if p c.item then .go .left true else .go .right false := hb.turn c.item
    rw [descend, List.find?_append]
    cases hp : p c.item with
    | true =>
      rw [hp, if_pos rfl] at hturn
      simp only [hturn, if_true]
      rw [ihl hl, List.find?_cons_of_pos hp]
      cases l.items.find? p <;> rfl
    | false =>
      rw [hp, if_neg Bool.false_ne_true] at hturn
      have hnone : l.items.find? p = none := by
        refine List.find?_eq_none.2 fun x hx hpx => ?_
        exact Bool.eq_false_iff.1 hp (hb.upward x c.item (hlr x hx _ List.mem_cons_self) hpx)
      simp only [hturn, Bool.false_eq_true, if_false]
      rw [ihr hr, hnone, Option.none_or, List.find?_cons_of_neg (Bool.eq_false_iff.1 hp)]

def Range.answers : Nat → Range K V → Except Failure (List (Option (K × V)))
  | 0, _ => return []
  | n + 1, r => do
    let (e, r) ← r.next
    return e :: (← r.answers n)

namespace Tree.Sound
variable {t : Tree K V} {b l : List (Handle × K × V)}

theorem seek_bound (hs : t.Sound) {s : Seek} {k : K} {p : Handle × K × V → Bool}
    (hb : s.Bounds t.order k p) : t.seek s k = .ok ((t.inorder.find? p).map Prod.fst) := by
  obtain ⟨ns, h⟩ := hs.holds
  have hfound := Shape.found_descend_bound hb h.sorted none
  rw [Option.or_none] at hfound
  exact Act.ok_then (h.shows.probe s k) (congrArg Except.ok hfound)

theorem lowerBound (hs : t.Sound) (k : K) :
    t.lowerBound k = .ok ((t.inorder.find? fun x => !t.order.lesser k x).map Prod.fst) := by
  have := hs.lawful
  exact hs.seek_bound (Seek.bounds_lower t.order k)

theorem upperBound (hs : t.Sound) (k : K) :
    t.upperBound k = .ok ((t.inorder.find? (t.order.greater k)).map Prod.fst) := by
  have := hs.lawful
  exact hs.seek_bound (Seek.bounds_upper t.order k)

theorem sorted (hs : t.Sound) : t.order.Sorted t.inorder := by
  obtain ⟨ns, h⟩ := hs.holds
  exact h.sorted

theorem search_eq_some_iff (hs : t.Sound) {k : K} {h : Handle} :
    t.search k = .ok (some h) ↔
      ∃ e, t.entryAt? h = some e ∧ t.order.compare k e.1 = .eq := by
  have := hs.lawful
  rw [hs.search k]
  constructor
  · intro hfound
    obtain ⟨x, hx, rfl⟩ := Option.map_eq_some_iff.1 (Except.ok.inj hfound)
    refine ⟨x.2, hs.entryAt?_eq_some_iff.2 (List.mem_of_find?_eq_some hx), ?_⟩
    exact KeyOrder.agrees_iff.1 (List.find?_some hx)
  · rintro ⟨e, he, hk⟩
    have hmem := hs.entryAt?_eq_some_iff.1 he
    have hagrees : t.order.agrees k (h, e) = true := KeyOrder.agrees_iff.2 hk
    obtain ⟨x, hx⟩ := Option.isSome_iff_exists.1 (List.find?_isSome.2 ⟨_, hmem, hagrees⟩)
    rw [hx, ← hs.sorted.eq_of_agrees hx hmem hagrees]
    rfl

theorem bounds_of_search (hs : t.Sound) {k : K} {h : Handle} (hk : t.search k = .ok (some h)) :
    t.lowerBound k = .ok (some h) ∧ t.upperBound k = t.successor h := by
  have := hs.lawful
  rw [hs.search k] at hk
  obtain ⟨x, hx, rfl⟩ := Option.map_eq_some_iff.1 (Except.ok.inj hk)
  obtain ⟨b, c, hsplit⟩ := List.append_of_mem (List.mem_of_find?_eq_some hx)
  have hbounds := KeyOrder.Sorted.bounds_of_agrees (hsplit ▸ hs.sorted) (List.find?_some hx)
  rw [← hsplit] at hbounds
  rw [hs.lowerBound, hs.upperBound, hbounds.1, hbounds.2]
  exact ⟨rfl, (hs.neighbor_of_split (a := .right) hsplit).symm⟩

theorem bounds_of_search_none (hs : t.Sound) {k : K} (hk : t.search k = .ok none) :
    t.lowerBound k = t.upperBound k := by
  have := hs.lawful
  rw [hs.search k] at hk
  have hnone := Option.map_eq_none_iff.1 (Except.ok.inj hk)
  rw [hs.lowerBound, hs.upperBound]
  refine congrArg (fun x => Except.ok (Option.map Prod.fst x)) (List.find?_congr fun x hx => ?_)
  exact KeyOrder.not_lesser_eq_greater (Bool.eq_false_iff.2 (List.find?_eq_none.1 hnone x hx))

theorem range_next (hs : t.Sound) {x : Handle × K × V} (hsplit : t.inorder = b ++ x :: l) :
    Range.next ⟨t, some x.1⟩ = .ok (some x.2, ⟨t, l.head?.map Prod.fst⟩) := by
  have hentry := hs.entryAt?_eq_some_iff.2 (hsplit ▸ List.mem_append_right b List.mem_cons_self)
  apply Act.ok_then (hs.neighbor_of_split (a := .right) hsplit)
  rw [hentry]
  rfl

theorem range_answers (hs : t.Sound) (hsplit : t.inorder = b ++ l) (n : Nat) :
    Range.answers n ⟨t, l.head?.map Prod.fst⟩ = .ok ((List.range n).map fun i => l[i]?.map Prod.snd) := by
  induction n generalizing b l with
  | zero => rfl
  | succ n ih =>
    rw [List.range_succ_eq_map, List.map_cons, List.map_map]
    cases l with
    | nil => exact Act.ok_then rfl (Act.ok_then (ih hsplit) rfl)
    | cons x l =>
      have hrest : t.inorder = (b ++ [x]) ++ l := by rw [hsplit, List.append_cons]
      exact Act.ok_then (hs.range_next hsplit) (Act.ok_then (ih hrest) rfl)

theorem range_answers_startingAt (hs : t.Sound) (k : K) (n : Nat) :
    ∃ r, Range.startingAt t k = .ok r ∧ r.answers n =
      .ok ((List.range n).map fun i => (t.inorder.dropWhile (t.order.lesser k))[i]?.map Prod.snd) := by
  refine ⟨_, Act.ok_then (hs.lowerBound k) rfl, ?_⟩
  rw [List.find?_not_eq_head?_dropWhile]
  exact hs.range_answers List.takeWhile_append_dropWhile.symm n

end Tree.Sound

/-- After any calls, for every key: a search finds the live handle whose key compares equal. The lower
bound is the first item whose key is not less, the upper bound the first whose key is greater; these are
the entry that is found and the one next to it, or else one and the same. A range gives the entries from
the lower bound on, each of them once and in order, and from then on nothing. -/
theorem Client.bounds_exact (order : KeyOrder K) [Std.TransCmp order.compare] (w : Width)
    (calls : List (Call K V)) :
    let t := ((fresh order w).run calls).tree
    (∀ k, ∃ found, t.search k = .ok found) ∧
      (∀ k h, t.search k = .ok (some h) ↔
        ∃ e, t.entryAt? h = some e ∧ order.compare k e.1 = .eq) ∧
      (∀ k, t.lowerBound k = .ok ((t.inorder.find? fun x => !order.lesser k x).map Prod.fst)) ∧
      (∀ k, t.upperBound k = .ok ((t.inorder.find? (order.greater k)).map Prod.fst)) ∧
      (∀ k h, t.search k = .ok (some h) →
        t.lowerBound k = .ok (some h) ∧ t.upperBound k = t.successor h) ∧
      (∀ k, t.search k = .ok none → t.lowerBound k = t.upperBound k) ∧
      ∀ k n, ∃ r, Range.startingAt t k = .ok r ∧ r.answers n =
        .ok ((List.range n).map fun i => (t.inorder.dropWhile (order.lesser k))[i]?.map Prod.snd) := by
  have hfresh := sound_fresh (V := V) order w
  have hs := (hfresh.run calls).tree
  have horder : ((fresh order w).run calls).tree.order = order := hfresh.order_run calls
  have hlower := hs.lowerBound
  have hupper := hs.upperBound
  have hrange := hs.range_answers_startingAt
  have hsearch (k : K) (h : Handle) := hs.search_eq_some_iff (k := k) (h := h)
  rw [horder] at hlower hupper hrange hsearch
  exact ⟨fun k => ⟨_, hs.search k⟩, hsearch, hlower, hupper, fun k h => hs.bounds_of_search,
    fun k => hs.bounds_of_search_none, hrange⟩

theorem Client.bounds_exact_natural :
    let t := ((fresh .natural .halfWord : Client Nat String).run
      [.insert 2 "b", .insert 6 "f", .insert 4 "d"]).tree
    t.lowerBound 3 = .ok (some ⟨3⟩) ∧ t.upperBound 4 = .ok (some ⟨2⟩) ∧
      ∃ r, Range.startingAt t 3 = .ok r ∧
        r.answers 4 = .ok [some (4, "d"), some (6, "f"), none, none] := by
  obtain ⟨-, -, hlower, hupper, -, -, hrange⟩ := bounds_exact (.natural : KeyOrder Nat) .halfWord
    [.insert 2 "b", .insert 6 "f", .insert 4 "d"]
  obtain ⟨r, hr, hanswers⟩ := hrange 3 4
  exact ⟨(hlower 3).trans (by decide +kernel), (hupper 4).trans (by decide +kernel), r, hr,
    hanswers.trans (by decide +kernel)⟩

end RedBlack
