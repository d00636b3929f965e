import RedBlack.Entry
import RedBlack.Proofs.Stock

/-! Changes of values, and clearing: a value is changed where its item is, and nothing else. -/
namespace RedBlack
variable {K V : Type}

namespace Cell

def revalued (i : Handle) (v : V) (c : Cell K V) : Cell K V :=
  if c.handle = i then { c with entry := (c.entry.1, v) } else c

@[simp] theorem handle_revalued (i : Handle) (v : V) (c : Cell K V) :
    (c.revalued i v).handle = c.handle := by
  unfold revalued
  split <;> rfl

@[simp] theorem color_revalued (i : Handle) (v : V) (c : Cell K V) :
    (c.revalued i v).color = c.color := by
  unfold revalued
  split <;> rfl

end Cell

def revalue (i : Handle) (v : V) (l : List (Handle × K × V)) : List (Handle × K × V) :=
  l.map fun x => if x.1 = i then (x.1, x.2.1, v) else x

namespace Shape

def revalued (i : Handle) (v : V) : Shape K V → Shape K V
  | nil => nil
  | node l c r => node (l.revalued i v) (c.revalued i v) (r.revalued i v)

variable (i : Handle) (v : V) (sh : Shape K V)

@[simp] theorem root_revalued : (sh.revalued i v).root = sh.root := by
  cases sh with
  | nil => rfl
  | node l c r => exact Cell.handle_revalued i v c

@[simp] theorem color_revalued : (sh.revalued i v).color = sh.color := by
  cases sh with
  | nil => rfl
  | node l c r => exact Cell.color_revalued i v c

theorem items_revalued : (sh.revalued i v).items = revalue i v sh.items := by
  induction sh with
  | nil => rfl
  | node l c r ihl ihr =>
    rw [revalued, items_node, items_node, ihl, ihr, revalue, revalue, revalue, List.map_append,
      List.map_cons]
    congr 2
    unfold Cell.revalued
    split <;> simp [Cell.item, *]

theorem handles_revalued : (sh.revalued i v).handles = sh.handles := by
  induction sh with
  | nil => rfl
  | node l c r ihl ihr => rw [revalued, handles_node, handles_node, ihl, ihr, Cell.handle_revalued]

theorem noRedRed_revalued {sh : Shape K V} (h : sh.NoRedRed) : (sh.revalued i v).NoRedRed := by
  induction sh with
  | nil => exact trivial
  | node l c r ihl ihr =>
    obtain ⟨hc, hl, hr⟩ := h
    refine ⟨?_, ihl hl, ihr hr⟩
    intro hred
    rw [color_revalued, color_revalued]
    exact hc ((Cell.color_revalued i v c).symm.trans hred)

theorem balanced_revalued {sh : Shape K V} {n : Nat} (h : sh.Balanced n) :
    (sh.revalued i v).Balanced n := by
  induction sh generalizing n with
  | nil => exact h
  | node l c r ihl ihr =>
    obtain ⟨m, hm, hl, hr⟩ := h
    refine ⟨m, ?_, ihl hl, ihr hr⟩
    rwa [Cell.color_revalued]

theorem wellColored_revalued {sh : Shape K V} (h : sh.WellColored) : (sh.revalued i v).WellColored := by
  obtain ⟨n, hn⟩ := h.balanced
  exact ⟨(color_revalued i v sh).trans h.root, noRedRed_revalued i v h.noRedRed, n, balanced_revalued i v hn⟩

theorem lies_revalued {sh : Shape K V} {f g : Handle → Option (Slot K V)} {p : Handle}
    (h : sh.Lies f p) (hi : g i = (f i).map (Slot.withValue v)) (hg : ∀ j, j ≠ i → g j = f j) :
    (sh.revalued i v).Lies g p := by
  induction sh generalizing p with
  | nil => exact trivial
  | node l c r ihl ihr =>
    obtain ⟨hc, hl, hr⟩ := h
    refine ⟨?_, ?_, ?_⟩
    · rw [Cell.handle_revalued, root_revalued, root_revalued]
      by_cases hci : c.handle = i
      · subst hci
        rw [hi, hc, Cell.revalued, if_pos rfl]
        rfl
      · rw [hg _ hci, hc, Cell.revalued, if_neg hci]
    · rw [Cell.handle_revalued]
      exact ihl hl
    · rw [Cell.handle_revalued]
      exact ihr hr

end Shape

theorem KeyOrder.Sorted.revalue {order : KeyOrder K} {l : List (Handle × K × V)}
    (h : order.Sorted l) (i : Handle) (v : V) : order.Sorted (RedBlack.revalue i v l) := by
  refine List.Pairwise.map _ (fun a b hab => ?_) h
  have hkey (x : Handle × K × V) : (if x.1 = i then (x.1, x.2.1, v) else x).2.1 = x.2.1 := by
    split <;> rfl
  rw [KeyOrder.Before, hkey, hkey]
  exact hab

namespace Tree
variable {t : Tree K V} {ns : Slot K V} {sh : Shape K V} {i : Handle} {e : K × V}

def edited (t : Tree K V) (i : Handle) (v : V) : Tree K V := t.put i (Slot.withValue v)

theorem stock_edited (t : Tree K V) (i : Handle) (v : V) : (t.edited i v).stock = t.stock := by
  rw [stock, show (t.edited i v).arena.slots.size = _ from Arena.size_modify ..]
  rfl

theorem Holds.edited (h : t.Holds ns sh) (hi : i ∈ sh.handles) (v : V) :
    (t.edited i v).Holds ns (sh.revalued i v) := by
  have hn : i ≠ .nil := by
    rintro rfl
    exact (List.nodup_cons.1 h.shows.nodup).1 hi
  have hself : (t.edited i v).arena.slot? i = (t.arena.slot? i).map (Slot.withValue v) :=
    slot?_put_self ..
  have hkeep {j : Handle} (hj : j ≠ i) : (t.edited i v).arena.slot? j = t.arena.slot? j :=
    slot?_put_of_ne _ _ (Ne.symm hj)
  have hhandles := Shape.handles_revalued i v sh
  refine ⟨⟨?_, (hkeep (Ne.symm hn)).trans h.shows.nil, h.shows.keyless, h.shows.black,
    Shape.lies_revalued i v h.shows.lies hself (fun j hj => hkeep hj), ?_⟩, h.childless,
    Shape.wellColored_revalued i v h.colored, ?_, ?_, ?_, ?_, ?_, ?_⟩
  · exact h.shows.root.trans (Shape.root_revalued i v sh).symm
  · rw [hhandles]
    exact h.shows.nodup
  · rw [Shape.items_revalued]
    exact h.sorted.revalue i v
  · rw [Shape.items_revalued, revalue, List.length_map]
    exact h.size
  · have hpositions : (t.edited i v).arena.positions = t.arena.positions :=
      Arena.positions_congr (Arena.size_modify ..)
    rw [hhandles, hpositions]
    exact h.handles
  · intro j hj
    have hfree : j ∈ t.arena.free := hj
    refine (hkeep ?_).trans (h.vacant j hfree)
    rintro rfl
    exact h.unused_of_free hfree (List.mem_cons_of_mem _ hi)
  · intro hnil
    apply h.fresh
    cases sh with
    | nil => rfl
    | node l c r => cases hnil
  · intro hw
    rw [show (t.edited i v).arena.slots.size = _ from Arena.size_modify ..]
    exact h.width hw

/-! ### The operations -/

theorem isSome_of_entryAt? (hi : t.entryAt? i = some e) : (t.arena.slot? i).isSome := by
  obtain ⟨s, hs, -⟩ := entryOf_eq_ok.1 (entryAt?_eq_some.1 hi)
  exact Option.isSome_of_eq_some hs

theorem run_modifyValue (hi : t.entryAt? i = some e) (f : V → V) :
    (Edit.modifyValue i f).run t = .ok (f e.2) (t.edited i (f e.2)) :=
  Act.look_then (entryAt?_eq_some.1 hi)
    (Act.run_then (run_modifySlot_eq _ (isSome_of_entryAt? hi)) rfl)

theorem run_replaceValue (hi : t.entryAt? i = some e) (v : V) :
    (Edit.replaceValue i v).run t = .ok e.2 (t.edited i v) :=
  Act.look_then (entryAt?_eq_some.1 hi)
    (Act.run_then (run_modifySlot_eq _ (isSome_of_entryAt? hi)) rfl)

theorem run_modifyAt? (hi : t.entryAt? i = some e) (f : V → V) :
    (Edit.modifyAt? i f).run t = .ok (some (f e.2)) (t.edited i (f e.2)) := by
  apply Act.run_then rfl
  rw [valueAt?, hi]
  exact Act.run_then (run_modifySlot_eq _ (isSome_of_entryAt? hi)) rfl

theorem run_replaceAt? (hi : t.entryAt? i = some e) (v : V) :
    (Edit.replaceAt? i v).run t = .ok (some e.2) (t.edited i v) := by
  apply Act.run_then rfl
  rw [valueAt?, hi]
  exact Act.run_then (run_modifySlot_eq _ (isSome_of_entryAt? hi)) rfl

theorem run_modifyAt?_stale (hi : t.entryAt? i = none) (f : V → V) :
    (Edit.modifyAt? i f).run t = .ok none t := by
  apply Act.run_then rfl
  rw [valueAt?, hi]
  rfl

theorem run_replaceAt?_stale (hi : t.entryAt? i = none) (v : V) :
    (Edit.replaceAt? i v).run t = .ok none t := by
  apply Act.run_then rfl
  rw [valueAt?, hi]
  rfl

def cleared (t : Tree K V) : Tree K V :=
  { t.report [.cleared t.size] with arena := .empty, root := .nil, size := 0 }

theorem run_clear (t : Tree K V) : Edit.clear.run t = .ok () t.cleared := rfl

theorem holds_nil (h : t.arena = .empty) (hr : t.root = .nil) (hs : t.size = 0) :
    t.Holds .vacant .nil := by
  have hnil : t.arena.slot? .nil = some .vacant := by
    rw [h]
    rfl
  have hlen : t.arena.slots.size = 1 := by
    rw [h]
    rfl
  have hfree : t.arena.free = [] := by
    rw [h]
    rfl
  refine ⟨⟨hr, hnil, rfl, rfl, trivial, List.nodup_cons.2 ⟨(fun h => nomatch h), List.Pairwise.nil⟩⟩,
    ⟨rfl, rfl⟩, ⟨rfl, trivial, 0, rfl⟩, List.Pairwise.nil, hs, ?_, ?_, fun _ => hfree, ?_⟩
  · rw [hfree, Arena.positions, hlen]
    exact .refl _
  · intro j hj
    rw [hfree] at hj
    cases hj
  · intro _
    rw [hlen]
    exact Nat.le_max_left ..

theorem holds_cleared (t : Tree K V) : t.cleared.Holds .vacant .nil := holds_nil rfl rfl rfl

theorem holds_empty (order : KeyOrder K) (w : Width) :
    (Tree.empty order w : Tree K V).Holds .vacant .nil := holds_nil rfl rfl rfl

end Tree
end RedBlack
