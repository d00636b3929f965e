import RedBlack.Proofs.Drawing
import RedBlack.Proofs.Focus
import RedBlack.Tree.Search

/-! Searches in trees whose keys are in order: the walk finds what is to be found among the items. -/
namespace RedBlack
variable {K V : Type}

namespace KeyOrder

def Before (order : KeyOrder K) (a b : Handle × K × V) : Prop :=
  order.compare a.2.1 b.2.1 = .lt

def agrees (order : KeyOrder K) (k : K) (e : Handle × K × V) : Bool :=
  order.compare k e.2.1 == .eq

def Sorted (order : KeyOrder K) (l : List (Handle × K × V)) : Prop := l.Pairwise order.Before

section
variable {order : KeyOrder K} {a b : Handle × K × V} {k : K}

theorem agrees_iff : order.agrees k a = true ↔ order.compare k a.2.1 = .eq := beq_iff_eq

theorem agrees_eq_false (hk : order.compare k a.2.1 ≠ .eq) : order.agrees k a = false :=
  Bool.eq_false_iff.2 fun h => hk (agrees_iff.1 h)

variable [Std.TransCmp order.compare] {l : List (Handle × K × V)}

theorem Before.trans {c : Handle × K × V} (h : order.Before a b) (h' : order.Before b c) :
    order.Before a c := Std.TransCmp.lt_trans h h'

theorem compare_lt_of_before (hk : order.compare k a.2.1 ≠ .gt) (h : order.Before a b) :
    order.compare k b.2.1 = .lt := by
  cases hc : order.compare k a.2.1 with
  | lt => exact Std.TransCmp.lt_trans hc h
  | eq => exact Std.TransCmp.lt_of_eq_of_lt hc h
  | gt => exact absurd hc hk

theorem compare_gt_of_before (hk : order.compare k b.2.1 ≠ .lt) (h : order.Before a b) :
    order.compare k a.2.1 = .gt := by
  rw [Std.OrientedCmp.gt_iff_lt]
  cases hc : order.compare k b.2.1 with
  | lt => exact absurd hc hk
  | eq => exact Std.TransCmp.lt_of_lt_of_eq h (Std.OrientedCmp.eq_symm hc)
  | gt => exact Std.TransCmp.lt_trans h (Std.OrientedCmp.gt_iff_lt.1 hc)

theorem Sorted.compare_lt {l l' : List (Handle × K × V)} (h : order.Sorted (l ++ a :: l'))
    (hk : order.compare k a.2.1 = .lt) : ∀ x ∈ a :: l', order.compare k x.2.1 = .lt := by
  intro x hx
  have ha := (List.pairwise_cons.1 (List.pairwise_append.1 h).2.1).1
  rcases List.mem_cons.1 hx with rfl | hx
  · exact hk
  · exact compare_lt_of_before (by rw [hk]; decide) (ha x hx)

theorem Sorted.compare_gt {l l' : List (Handle × K × V)} (h : order.Sorted (l ++ a :: l'))
    (hk : order.compare k a.2.1 = .gt) : ∀ x ∈ l ++ [a], order.compare k x.2.1 = .gt := by
  intro x hx
  have ha := (List.pairwise_append.1 h).2.2
  rcases List.mem_append.1 hx with hx | hx
  · exact compare_gt_of_before (by rw [hk]; decide) (ha x hx a List.mem_cons_self)
  · rw [List.mem_singleton.1 hx]
    exact hk

theorem find?_eq_none_of_after (hk : order.compare k a.2.1 ≠ .gt) (h : ∀ e ∈ l, order.Before a e) :
    l.find? (order.agrees k) = none := by
  refine List.find?_eq_none.2 fun e he => ?_
  rw [agrees_iff, compare_lt_of_before hk (h e he)]
  decide

theorem find?_eq_none_of_before (hk : order.compare k a.2.1 ≠ .lt) (h : ∀ e ∈ l, order.Before e a) :
    l.find? (order.agrees k) = none := by
  refine List.find?_eq_none.2 fun e he => ?_
  rw [agrees_iff, compare_gt_of_before hk (h e he)]
  decide

theorem Sorted.find?_of_mem (h : order.Sorted l) (ha : a ∈ l) :
    l.find? (order.agrees a.2.1) = some a := by
  induction l with
  | nil => cases ha
  | cons b l ih =>
    obtain ⟨hb, hl⟩ := List.pairwise_cons.1 h
    rcases List.mem_cons.1 ha with rfl | ha
    · rw [List.find?_cons, agrees_iff.2 (Std.ReflCmp.compare_self)]
    · have hgt : order.compare a.2.1 b.2.1 = .gt := Std.OrientedCmp.gt_iff_lt.2 (hb a ha)
      rw [List.find?_cons, agrees_eq_false (by rw [hgt]; decide)]
      exact ih hl ha

theorem Sorted.exists_split (h : order.Sorted l) (hk : l.any (order.agrees a.2.1) = false) :
    ∃ b c, l = b ++ c ∧ (∀ x ∈ b, order.Before x a) ∧ ∀ x ∈ c, order.Before a x := by
  induction l with
  | nil => exact ⟨[], [], rfl, (fun x hx => nomatch hx), fun x hx => nomatch hx⟩
  | cons y l ih =>
    obtain ⟨hy, hl⟩ := List.pairwise_cons.1 h
    rw [List.any_cons, Bool.or_eq_false_iff] at hk
    cases hc : order.compare a.2.1 y.2.1 with
    | lt =>
      refine ⟨[], y :: l, rfl, (fun x hx => nomatch hx), ?_⟩
      intro x hx
      rcases List.mem_cons.1 hx with rfl | hx
      · exact hc
      · exact Before.trans (b := y) hc (hy x hx)
    | eq => exact absurd (agrees_iff.2 hc) (Bool.eq_false_iff.1 hk.1)
    | gt =>
      obtain ⟨b, c, rfl, hb, hc'⟩ := ih hl hk.2
      refine ⟨y :: b, c, rfl, ?_, hc'⟩
      intro x hx
      rcases List.mem_cons.1 hx with rfl | hx
      · exact Std.OrientedCmp.gt_iff_lt.1 hc
      · exact hb x hx

end
end KeyOrder

namespace Shape

def descend (order : KeyOrder K) (s : Seek) (query : K) (found : Option Handle) :
    Shape K V → Probe K
  | nil => ⟨found, []⟩
  | node l c r =>
    let (a, b) := s.arguments query c.entry.1
    match s.turn (order.compare a b) with
    | .stop => ⟨some c.handle, [(c.handle, c.entry.1)]⟩
    | .go side keep =>
      let found := if keep then some c.handle else found
      let rest := match side with
        | .left => l.descend order s query found
        | .right => r.descend order s query found
      ⟨rest.found, (c.handle, c.entry.1) :: rest.visited⟩

end Shape

namespace Tree
variable {t : Tree K V} {ns : Slot K V} {sh : Shape K V} {π : Path K V}

def probeRound (t : Tree K V) (s : Seek) (query : K) :
    Handle × Option Handle × List (Handle × K) →
      Except Failure (Round (Handle × Option Handle × List (Handle × K)) (Probe K)) :=
  fun (x, found, visited) => do
    if ← t.isNil x then return .done ⟨found, visited.reverse⟩
    else
      let (stored, _) ← t.entryOf x
      let visited := (x, stored) :: visited
      let (a, b) := s.arguments query stored
      match s.turn (t.order.compare a b) with
      | .stop => return .done ⟨some x, visited.reverse⟩
      | .go side keep =>
        return .again (← t.child side x, if keep then some x else found, visited)

theorem Shows.probeRound_nil (h : t.Shows ns sh) (s : Seek) (query : K) (found : Option Handle)
    (visited : List (Handle × K)) :
    t.probeRound s query (.nil, found, visited) = .ok (.done ⟨found, visited.reverse⟩) :=
  Act.ok_then h.isNil_nil rfl

theorem Shows.probeRound_node {l r : Shape K V} {c : Cell K V}
    (h : t.Shows ns ((Shape.node l c r).within π)) (s : Seek) (query : K) (found : Option Handle)
    (visited : List (Handle × K)) :
    t.probeRound s query (c.handle, found, visited) =
      let args := s.arguments query c.entry.1
      match s.turn (t.order.compare args.1 args.2) with
      | .stop => .ok (.done ⟨some c.handle, ((c.handle, c.entry.1) :: visited).reverse⟩)
      | .go side keep => .ok (.again ((match side with | .left => l.root | .right => r.root),
          if keep then some c.handle else found, (c.handle, c.entry.1) :: visited)) := by
  have hj : t.Shows ns ((Shape.join .left l c r).within π) := h
  apply Act.ok_then h.isNil_root
  apply Act.ok_then hj.entryOf_join
  obtain ⟨i, color, stored, v⟩ := c
  dsimp only
  generalize s.arguments query stored = args
  cases s.turn (t.order.compare args.1 args.2) with
  | stop => rfl
  | go side keep =>
    cases side with
    | left => exact Act.ok_then hj.child_near rfl
    | right => exact Act.ok_then hj.child_far rfl

theorem Shows.rounds_probe (h : t.Shows ns (sh.within π)) (s : Seek) (query : K)
    (found : Option Handle) (visited : List (Handle × K)) {k : Nat} (hk : sh.height ≤ k) :
    rounds (t.probeRound s query) k (sh.root, found, visited) =
      .ok ⟨(sh.descend t.order s query found).found,
        visited.reverse ++ (sh.descend t.order s query found).visited⟩ := by
  induction sh generalizing π found visited k with
  | nil =>
    apply (Rounds.done (h.probeRound_nil s query found visited) k).trans
    rw [Shape.descend, List.append_nil]
  | node l c r ihl ihr =>
    obtain ⟨k, rfl⟩ := Nat.exists_eq_add_one_of_ne_zero (Nat.ne_zero_of_lt hk)
    obtain ⟨hkl, hkr⟩ := Nat.max_le.1 (Nat.le_of_succ_le_succ hk)
    have hround := h.probeRound_node s query found visited
    rw [Shape.root_node, Shape.descend]
    cases hturn : s.turn (t.order.compare (s.arguments query c.entry.1).1
        (s.arguments query c.entry.1).2) with
    | stop =>
      simp only [hturn] at hround ⊢
      rw [Rounds.done hround, List.reverse_cons]
    | go side keep =>
      cases side with
      | left =>
        simp only [hturn] at hround ⊢
        rw [Rounds.again hround, ihl (π := ⟨.left, c, r⟩ :: π) h _ _ hkl]
        simp only [List.reverse_cons, List.append_assoc, List.cons_append, List.nil_append]
      | right =>
        simp only [hturn] at hround ⊢
        rw [Rounds.again hround, ihr (π := ⟨.right, c, l⟩ :: π) h _ _ hkr]
        simp only [List.reverse_cons, List.append_assoc, List.cons_append, List.nil_append]

theorem Shows.height_le_reach (h : t.Shows ns sh) : sh.height ≤ t.reach := by
  have hlen := h.fits.length_lt_reach
  rw [Shape.handles, List.length_map] at hlen
  exact Nat.le_trans sh.height_le_length (Nat.le_of_lt hlen)

theorem Shows.probe (h : t.Shows ns sh) (s : Seek) (query : K) :
    t.probe s query = .ok (sh.descend t.order s query none) := by
  have hrounds := h.rounds_probe (π := []) s query none [] h.height_le_reach
  rw [← h.root] at hrounds
  exact hrounds

end Tree

namespace Shape
variable {order : KeyOrder K} [Std.TransCmp order.compare] {sh : Shape K V}

theorem found_descend_exact (h : order.Sorted sh.items) (k : K) :
    (sh.descend order .exact k none).found = (sh.items.find? (order.agrees k)).map Prod.fst := by
  -- The items that the walk turns away from do not agree, since the keys increase.
  induction sh with
  | nil => rfl
  | node l c r ihl ihr =>
    rw [items_node] at h ⊢
    obtain ⟨hl, hr, hlr⟩ := List.pairwise_append.1 h
    obtain ⟨hcr, hr⟩ := List.pairwise_cons.1 hr
    have hlc : ∀ e ∈ l.items, order.Before e c.item := fun e he => hlr e he _ List.mem_cons_self
    rw [descend, List.find?_append, List.find?_cons]
    simp only [Seek.arguments]
    cases hc : order.compare k c.entry.1 with
    | lt =>
      have hcell : order.compare k c.item.2.1 = .lt := hc
      have hnone := KeyOrder.find?_eq_none_of_after (by rw [hcell]; decide) hcr
      rw [KeyOrder.agrees_eq_false (by rw [hcell]; decide), hnone]
      simp only [Seek.turn, Bool.false_eq_true, if_false, Option.or_none]
      exact ihl hl
    | eq =>
      have hcell : order.compare k c.item.2.1 = .eq := hc
      have hnone := KeyOrder.find?_eq_none_of_before (by rw [hcell]; decide) hlc
      rw [hnone, KeyOrder.agrees_iff.2 hcell]
      rfl
    | gt =>
      have hcell : order.compare k c.item.2.1 = .gt := hc
      have hnone := KeyOrder.find?_eq_none_of_before (by rw [hcell]; decide) hlc
      rw [KeyOrder.agrees_eq_false (by rw [hcell]; decide), hnone]
      simp only [Seek.turn, Bool.false_eq_true, if_false, Option.none_or]
      exact ihr hr

end Shape

theorem Tree.Shows.search {t : Tree K V} {ns : Slot K V} {sh : Shape K V} (h : t.Shows ns sh)
    [Std.TransCmp t.order.compare] (hs : t.order.Sorted sh.items) (k : K) :
    t.search k = .ok ((sh.items.find? (t.order.agrees k)).map Prod.fst) := by
  rw [← Shape.found_descend_exact hs k]
  exact Act.ok_then (h.probe .exact k) rfl

end RedBlack
