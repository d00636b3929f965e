import Mathlib.Data.List.Nodup
import RedBlack.Proofs.Editing
import RedBlack.Proofs.Insertion

/-! Association lists that are sorted by an order, with one entry for keys that compare equal. The items
of a tree without their handles are one; what is done to the items is done to it. -/
namespace RedBlack
variable {K V : Type}

namespace Assoc

def find? (order : KeyOrder K) (k : K) (l : List (K × V)) : Option (K × V) :=
  l.find? fun e => order.compare k e.1 == .eq

def insert (order : KeyOrder K) (k : K) (v : V) : List (K × V) → List (K × V)
  | [] => [(k, v)]
  | e :: l => if order.compare k e.1 = .lt then (k, v) :: e :: l else e :: insert order k v l

def overwrite (order : KeyOrder K) (k : K) (v : V) (l : List (K × V)) : List (K × V) :=
  l.map fun e => if order.compare k e.1 = .eq then (e.1, v) else e

def erase (order : KeyOrder K) (k : K) (l : List (K × V)) : List (K × V) :=
  l.filter fun e => order.compare k e.1 ≠ .eq

variable {order : KeyOrder K} {k : K} {v : V} {l : List (K × V)} {e : K × V}

theorem find?_cons_of_eq (h : order.compare k e.1 = .eq) : find? order k (e :: l) = some e :=
  List.find?_cons_of_pos (beq_iff_eq.2 h)

theorem find?_cons_of_ne (h : order.compare k e.1 ≠ .eq) :
    find? order k (e :: l) = find? order k l :=
  List.find?_cons_of_neg fun heq => h (beq_iff_eq.1 heq)

theorem find?_congr [Std.TransCmp order.compare] {k' : K} (h : order.compare k' k = .eq) :
    find? order k' l = find? order k l := by
  have heq (e : K × V) : (order.compare k' e.1 == .eq) = (order.compare k e.1 == .eq) := by
    rw [Std.TransCmp.congr_left h]
  rw [find?, find?, funext heq]

theorem keys_overwrite : (overwrite order k v l).map Prod.fst = l.map Prod.fst := by
  rw [overwrite, List.map_map]
  apply List.map_congr_left
  intro e _
  rw [Function.comp]
  split <;> rfl

theorem find?_overwrite (h : find? order k l = some e) :
    find? order k (overwrite order k v l) = some (e.1, v) := by
  induction l with
  | nil => cases h
  | cons d l ih =>
    rw [overwrite, List.map_cons, ← overwrite]
    by_cases hd : order.compare k d.1 = .eq
    · rw [find?_cons_of_eq hd] at h
      obtain rfl := Option.some.inj h
      rw [if_pos hd]
      exact find?_cons_of_eq (e := (d.1, v)) hd
    · rw [find?_cons_of_ne hd] at h
      rw [if_neg hd, find?_cons_of_ne hd]
      exact ih h

theorem erase_of_find? (h : find? order k l = none) : erase order k l = l := by
  refine List.filter_eq_self.2 fun e he => decide_eq_true fun heq => ?_
  exact List.find?_eq_none.1 h e he (beq_iff_eq.2 heq)

theorem insert_append {b a : List (K × V)} (hb : ∀ e ∈ b, order.compare k e.1 ≠ .lt)
    (ha : ∀ e ∈ a, order.compare k e.1 = .lt) :
    insert order k v (b ++ a) = b ++ (k, v) :: a := by
  induction b with
  | nil =>
    cases a with
    | nil => rfl
    | cons e a => rw [List.nil_append, insert, if_pos (ha e List.mem_cons_self), List.nil_append]
  | cons e b ih =>
    rw [List.cons_append, insert, if_neg (hb e List.mem_cons_self),
      ih fun d hd => hb d (List.mem_cons_of_mem _ hd), List.cons_append]

/-! ### Lists to which pairs are given one after another -/

def put (order : KeyOrder K) (k : K) (v : V) (l : List (K × V)) : List (K × V) :=
  match find? order k l with
  | some _ => overwrite order k v l
  | none => insert order k v l

def putAll (order : KeyOrder K) (items l : List (K × V)) : List (K × V) :=
  items.foldl (fun l e => put order e.1 e.2 l) l

/-- What stands under a key after pairs were put into a list: the key that came first, with the value that
came last. -/
def merged (order : KeyOrder K) (k : K) (l items : List (K × V)) : Option (K × V) :=
  (find? order k (l ++ items)).map fun first =>
    (first.1, ((find? order k (items.reverse ++ l)).getD first).2)

variable {k' : K}

theorem find?_append (l' : List (K × V)) :
    find? order k (l ++ l') = (find? order k l).or (find? order k l') := List.find?_append

theorem find?_insert_of_ne (h : order.compare k' k ≠ .eq) :
    find? order k' (insert order k v l) = find? order k' l := by
  induction l with
  | nil => exact find?_cons_of_ne (e := (k, v)) h
  | cons e l ih =>
    rw [insert]
    split
    · exact find?_cons_of_ne (e := (k, v)) h
    · by_cases he : order.compare k' e.1 = .eq
      · rw [find?_cons_of_eq he, find?_cons_of_eq he]
      · rw [find?_cons_of_ne he, find?_cons_of_ne he, ih]

theorem length_put_le : (put order k v l).length ≤ l.length + 1 := by
  have hinsert : (insert order k v l).length = l.length + 1 := by
    induction l with
    | nil => rfl
    | cons e l ih =>
      rw [insert]
      split <;> simp [ih]
  unfold put
  split
  · rw [overwrite, List.length_map]
    exact Nat.le_succ _
  · exact Nat.le_of_eq hinsert

theorem length_putAll_le (items : List (K × V)) :
    (putAll order items l).length ≤ l.length + items.length := by
  induction items generalizing l with
  | nil => exact Nat.le_refl _
  | cons e items ih =>
    have hrest := ih (l := put order e.1 e.2 l)
    have hput : (put order e.1 e.2 l).length ≤ l.length + 1 := length_put_le
    rw [putAll, List.foldl_cons, ← putAll, List.length_cons]
    omega

section
variable [Std.TransCmp order.compare]

theorem find?_overwrite_of_ne (h : order.compare k' k ≠ .eq) :
    find? order k' (overwrite order k v l) = find? order k' l := by
  induction l with
  | nil => rfl
  | cons e l ih =>
    rw [overwrite, List.map_cons, ← overwrite]
    by_cases hk : order.compare k e.1 = .eq
    · have hne : order.compare k' e.1 ≠ .eq := fun heq =>
        h (Std.TransCmp.eq_trans heq (Std.OrientedCmp.eq_symm hk))
      rw [if_pos hk, find?_cons_of_ne (e := (e.1, v)) hne, find?_cons_of_ne hne, ih]
    · rw [if_neg hk]
      by_cases he : order.compare k' e.1 = .eq
      · rw [find?_cons_of_eq he, find?_cons_of_eq he]
      · rw [find?_cons_of_ne he, find?_cons_of_ne he, ih]

theorem find?_insert_of_eq (h : order.compare k' k = .eq) (hl : find? order k l = none) :
    find? order k' (insert order k v l) = some (k, v) := by
  induction l with
  | nil => exact find?_cons_of_eq (e := (k, v)) h
  | cons e l ih =>
    have hne : order.compare k e.1 ≠ .eq := fun heq => by
      rw [find?_cons_of_eq heq] at hl
      cases hl
    rw [find?_cons_of_ne hne] at hl
    rw [insert]
    split
    · exact find?_cons_of_eq (e := (k, v)) h
    · have hne' : order.compare k' e.1 ≠ .eq := by
        rwa [Std.TransCmp.congr_left h]
      rw [find?_cons_of_ne hne', ih hl]

theorem find?_put_of_eq (h : order.compare k' k = .eq) :
    find? order k' (put order k v l) = some (((find? order k' l).getD (k, v)).1, v) := by
  rw [find?_congr h, find?_congr h, put]
  cases hl : find? order k l with
  | none => exact find?_insert_of_eq Std.ReflCmp.compare_self hl
  | some e =>
    exact find?_overwrite hl

theorem find?_put_of_ne (h : order.compare k' k ≠ .eq) :
    find? order k' (put order k v l) = find? order k' l := by
  unfold put
  split
  · exact find?_overwrite_of_ne h
  · exact find?_insert_of_ne h

theorem find?_putAll (k : K) (items : List (K × V)) :
    find? order k (putAll order items l) = merged order k l items := by
  induction items generalizing l with
  | nil =>
    rw [putAll, List.foldl_nil, merged, List.append_nil, List.reverse_nil, List.nil_append]
    cases find? order k l <;> rfl
  | cons e items ih =>
    rw [putAll, List.foldl_cons, ← putAll, ih, merged, merged]
    simp only [find?_append, List.reverse_cons, List.append_assoc]
    by_cases h : order.compare k e.1 = .eq
    · rw [find?_put_of_eq h, find?_cons_of_eq h, find?_cons_of_eq h]
      cases find? order k items.reverse <;> cases find? order k l <;> rfl
    · rw [find?_put_of_ne h, find?_cons_of_ne h, find?_cons_of_ne h]
      cases find? order k items.reverse <;> cases find? order k l <;> rfl

end

end Assoc

/-! ### Items without their handles -/

namespace KeyOrder
variable {order : KeyOrder K} {k : K} {v : V} {l : List (Handle × K × V)} {x y : Handle × K × V}

theorem find?_entries (order : KeyOrder K) (k : K) (l : List (Handle × K × V)) :
    Assoc.find? order k (l.map Prod.snd) = (l.find? (order.agrees k)).map Prod.snd := by
  rw [Assoc.find?, List.find?_map]
  rfl

variable [Std.TransCmp order.compare]

theorem Sorted.eq_of_agrees (h : order.Sorted l) (hx : l.find? (order.agrees k) = some x)
    (hy : y ∈ l) (hk : order.agrees k y = true) : y = x := by
  have heq (z : Handle × K × V) : order.agrees k z = order.agrees y.2.1 z := by
    rw [agrees, agrees, Std.TransCmp.congr_left (agrees_iff.1 hk)]
  rw [funext heq, h.find?_of_mem hy] at hx
  exact Option.some.inj hx

theorem Sorted.agrees_iff_handle (h : order.Sorted l) (hd : (l.map Prod.fst).Nodup)
    (hx : l.find? (order.agrees k) = some x) (hy : y ∈ l) :
    order.compare k y.2.1 = .eq ↔ y.1 = x.1 := by
  rw [← agrees_iff]
  constructor
  · intro hk
    rw [h.eq_of_agrees hx hy hk]
  · intro hhandle
    obtain rfl : y = x := List.inj_on_of_nodup_map hd hy (List.mem_of_find?_eq_some hx) hhandle
    exact List.find?_some hx

theorem Sorted.entries_place {i : Handle} (h : order.Sorted l) (hk : l.any (order.agrees k) = false) :
    (order.place (i, k, v) l).map Prod.snd = Assoc.insert order k v (l.map Prod.snd) := by
  obtain ⟨b, a, rfl, hb, ha⟩ := h.exists_split (a := (i, k, v)) hk
  rw [place_append hb ha, List.map_append, List.map_append, List.map_cons]
  refine (Assoc.insert_append (fun e he => ?_) fun e he => ?_).symm
  · obtain ⟨x, hx, rfl⟩ := List.mem_map.1 he
    rw [show order.compare k x.2.1 = .gt from Std.OrientedCmp.gt_iff_lt.2 (hb x hx)]
    decide
  · obtain ⟨x, hx, rfl⟩ := List.mem_map.1 he
    exact ha x hx

theorem Sorted.entries_revalue (h : order.Sorted l) (hd : (l.map Prod.fst).Nodup)
    (hx : l.find? (order.agrees k) = some x) :
    (RedBlack.revalue x.1 v l).map Prod.snd = Assoc.overwrite order k v (l.map Prod.snd) := by
  rw [RedBlack.revalue, Assoc.overwrite, List.map_map, List.map_map]
  apply List.map_congr_left
  intro y hy
  have hiff := h.agrees_iff_handle hd hx hy
  by_cases hk : y.1 = x.1
  · rw [Function.comp, Function.comp, if_pos hk, if_pos (hiff.2 hk)]
  · rw [Function.comp, Function.comp, if_neg hk, if_neg fun heq => hk (hiff.1 heq)]

theorem Sorted.entries_filter (h : order.Sorted l) (hd : (l.map Prod.fst).Nodup)
    (hx : l.find? (order.agrees k) = some x) :
    (l.filter fun y => y.1 ≠ x.1).map Prod.snd = Assoc.erase order k (l.map Prod.snd) := by
  rw [Assoc.erase, List.filter_map]
  refine congrArg (List.map Prod.snd) (List.filter_congr fun y hy => ?_)
  exact decide_eq_decide.2 (not_congr (h.agrees_iff_handle hd hx hy)).symm

end KeyOrder
end RedBlack
