import RedBlack.Proofs.Accounting
import RedBlack.Proofs.KeyCalls

/-! Seen by key, trees and maps are association lists: whatever is called, in whatever order, they give
the same answers. -/
namespace RedBlack
variable {K V α : Type}

/-- The tree is sound, and its entries are those of an association list. -/
structure Tree.Lists (t : Tree K V) (order : KeyOrder K) (w : Width) (l : List (K × V)) : Prop where
  sound : t.Sound
  order : t.order = order
  width : t.width = w
  entries : t.inorder.map Prod.snd = l

namespace Tree.Lists
variable {t : Tree K V} {order : KeyOrder K} {w : Width} {l : List (K × V)} {k : K} {e : K × V}

theorem lists_empty (order : KeyOrder K) [h : Std.TransCmp order.compare] (w : Width) :
    (Tree.empty order w : Tree K V).Lists order w [] := by
  have hholds := holds_empty (V := V) order w
  exact ⟨hholds.sound h, rfl, rfl, congrArg (List.map Prod.snd) hholds.inorder_eq⟩

theorem increasing (h : t.Lists order w l) :
    l.Pairwise fun a b => order.compare a.1 b.1 = .lt := by
  obtain ⟨hs, rfl, rfl, rfl⟩ := h
  obtain ⟨ns, h⟩ := hs.holds
  exact List.Pairwise.map _ (fun _ _ hab => hab) h.sorted

/-! ### Questions -/

theorem find?_eq (h : t.Lists order w l) (k : K) :
    Assoc.find? order k l = (t.inorder.find? (t.order.agrees k)).map Prod.snd := by
  obtain ⟨hs, rfl, rfl, rfl⟩ := h
  exact KeyOrder.find?_entries ..

theorem exists_handle (h : t.Lists order w l) (hf : Assoc.find? order k l = some e) :
    ∃ i, t.inorder.find? (t.order.agrees k) = some (i, e) ∧ t.search k = .ok (some i) ∧
      t.entryAt? i = some e := by
  rw [h.find?_eq k] at hf
  obtain ⟨⟨i, d⟩, hx, rfl⟩ := Option.map_eq_some_iff.1 hf
  refine ⟨i, hx, ?_, h.sound.entryAt?_eq_some_iff.2 (List.mem_of_find?_eq_some hx)⟩
  rw [h.sound.search k, hx]
  rfl

theorem search_none (h : t.Lists order w l) (hf : Assoc.find? order k l = none) :
    t.search k = .ok none := by
  rw [h.find?_eq k, Option.map_eq_none_iff] at hf
  rw [h.sound.search k, hf]
  rfl

theorem find? (h : t.Lists order w l) (k : K) : t.find? k = .ok (Assoc.find? order k l) := by
  cases hf : Assoc.find? order k l with
  | none => exact Act.ok_then (h.search_none hf) rfl
  | some e =>
    obtain ⟨i, -, hsearch, hentry⟩ := h.exists_handle hf
    exact Act.ok_then hsearch (Act.ok_then (entryAt?_eq_some.1 hentry) rfl)

theorem get? (h : t.Lists order w l) (k : K) :
    t.get? k = .ok ((Assoc.find? order k l).map Prod.snd) := Act.ok_then (h.find? k) rfl

theorem contains (h : t.Lists order w l) (k : K) :
    t.contains k = .ok (Assoc.find? order k l).isSome := by
  apply Act.ok_then (h.sound.search k)
  rw [h.find?_eq k, Option.isSome_map, Option.isSome_map]
  rfl

theorem entryOf?_item (h : t.Lists order w l) {x : Option (Handle × K × V)}
    (hx : ∀ i, x = some i → i ∈ t.inorder) :
    t.entryOf? (x.map Prod.fst) = .ok (x.map Prod.snd) := by
  cases x with
  | none => rfl
  | some i => exact Act.ok_then (entryAt?_eq_some.1 (h.sound.entryAt?_eq_some_iff.2 (hx i rfl))) rfl

theorem min? (h : t.Lists order w l) : t.min? = .ok l.head? := by
  obtain ⟨ns, hh⟩ := h.sound.holds
  have hitem : t.entryOf? (t.inorder.head?.map Prod.fst) = .ok l.head? := by
    rw [h.entryOf?_item fun i hi => List.mem_of_mem_head? hi, ← h.entries, List.head?_map]
  exact Act.ok_then (hh.shows.extreme .left) hitem

theorem max? (h : t.Lists order w l) : t.max? = .ok l.getLast? := by
  obtain ⟨ns, hh⟩ := h.sound.holds
  have hitem : t.entryOf? (t.inorder.getLast?.map Prod.fst) = .ok l.getLast? := by
    rw [h.entryOf?_item fun i hi => List.mem_of_getLast? hi, ← h.entries, List.getLast?_map]
  exact Act.ok_then (hh.shows.extreme .right) hitem

theorem size (h : t.Lists order w l) : t.size = l.length := by
  rw [h.sound.size_eq, ← h.entries, List.length_map]

theorem isEmpty (h : t.Lists order w l) : t.isEmpty = l.isEmpty := by
  rw [Tree.isEmpty, h.size]
  cases l <;> rfl

theorem ask (h : t.Lists order w l) (q : Ask K V α) : q.onTree t = .ok (q.onList order l) := by
  cases q with
  | get k => exact h.get? k
  | contains k => exact h.contains k
  | first => exact h.min?
  | last => exact h.max?
  | size => exact congrArg Except.ok h.size
  | isEmpty => exact congrArg Except.ok h.isEmpty

/-! ### Changes -/

theorem overwritten (h : t.Lists order w l) {i : Handle}
    (hi : t.inorder.find? (t.order.agrees k) = some (i, e)) (v : V) :
    (t.edited i v).Lists order w (Assoc.overwrite order k v l) := by
  obtain ⟨hs, rfl, rfl, rfl⟩ := h
  obtain ⟨ns, hh⟩ := hs.holds
  have := hs.lawful
  have hentry := hs.entryAt?_eq_some_iff.2 (List.mem_of_find?_eq_some hi)
  refine ⟨(hs.edited hentry v).1, rfl, rfl, ?_⟩
  rw [hs.inorder_edited hentry v]
  exact KeyOrder.Sorted.entries_revalue (x := (i, e)) hh.sorted hs.accounted.nodup_live hi

theorem exists_erased (h : t.Lists order w l) {i : Handle}
    (hi : t.inorder.find? (t.order.agrees k) = some (i, e)) :
    ∃ t', (Edit.delete i).run t = .ok (some e) t' ∧ t'.Lists order w (Assoc.erase order k l) := by
  obtain ⟨hs, rfl, rfl, rfl⟩ := h
  obtain ⟨ns, hh⟩ := hs.holds
  have := hs.lawful
  obtain ⟨t', hrun, hsound, hturns⟩ :=
    hs.exists_delete (hs.entryAt?_eq_some_iff.2 (List.mem_of_find?_eq_some hi))
  refine ⟨t', hrun, hsound, hturns.order, hturns.width, ?_⟩
  rw [hturns.items.2]
  exact KeyOrder.Sorted.entries_filter (x := (i, e)) hh.sorted hs.accounted.nodup_live hi

theorem cleared (h : t.Lists order w l) : t.cleared.Lists order w [] := by
  obtain ⟨hsound, hturns⟩ := h.sound.cleared
  refine ⟨hsound, h.order, h.width, ?_⟩
  rw [hturns.items]
  rfl

theorem exhausted_iff (h : t.Lists order w l) :
    t.stock.Exhausted t.width ↔ (w.limited && decide (w.max ≤ l.length + 1)) = true := by
  obtain ⟨ns, hh⟩ := h.sound.holds
  have hlength := h.sound.accounted.length
  have hsize := h.size
  rw [Bool.and_eq_true, decide_eq_true_eq, Stock.Exhausted, ← h.width]
  constructor
  · rintro ⟨hfree, hlimited, hmax⟩
    have hfree : t.arena.free = [] := hfree
    have hmax : t.width.max ≤ t.arena.slots.size := hmax
    rw [hfree, List.length_nil] at hlength
    exact ⟨hlimited, by omega⟩
  · rintro ⟨hlimited, hmax⟩
    have hroom := hh.width hlimited
    have hfree : t.arena.free = [] := by
      apply List.eq_nil_of_length_eq_zero
      rcases Nat.lt_or_ge t.width.max 1 with hzero | hone
      · rw [Nat.max_eq_left (Nat.le_of_lt hzero)] at hroom
        omega
      · rw [Nat.max_eq_right hone] at hroom
        omega
    refine ⟨hfree, hlimited, ?_⟩
    show t.width.max ≤ t.arena.slots.size
    rw [hfree, List.length_nil] at hlength
    omega

end Tree.Lists

/-- The operation gives the answer that is given for the list, and leaves the tree with the entries that
the list is left with. -/
structure Edit.Meets (act : Edit K V α) (t : Tree K V) (order : KeyOrder K) (w : Width)
    (r : Assoc.Result K V α) : Prop where
  answer : (act.outcome t).1 = r.1
  lists : (act.outcome t).2.Lists order w r.2

namespace Edit.Meets
variable {t t' : Tree K V} {order : KeyOrder K} {w : Width} {l : List (K × V)} {k : K}
  {act : Edit K V α} {a : α}

theorem done (hrun : act.run t = .ok a t') (h : t'.Lists order w l) :
    Meets act t order w (.ok a, l) := by
  constructor <;> rw [Act.outcome_ok hrun]
  exact h

theorem failed {e : Failure} (hrun : act.run t = .error e t') (h : t'.Lists order w l) :
    Meets act t order w (.error e, l) := by
  constructor <;> rw [Act.outcome_error hrun]
  exact h

theorem of_run_eq {act' : Edit K V α} {r : Assoc.Result K V α} (hrun : act.run t = act'.run t)
    (h : Meets act' t order w r) : Meets act t order w r := by
  constructor <;> rw [Act.outcome_congr hrun]
  · exact h.answer
  · exact h.lists

theorem exists_run (h : Meets act t order w (.ok a, l)) :
    ∃ t', act.run t = .ok a t' ∧ t'.Lists order w l := by
  obtain ⟨hanswer, hlists⟩ := h
  unfold Act.outcome at hanswer hlists
  cases hrun : act.run t with
  | ok b t' =>
    rw [hrun] at hanswer hlists
    obtain rfl := Except.ok.inj hanswer
    exact ⟨t', rfl, hlists⟩
  | error e t' =>
    rw [hrun] at hanswer
    cases hanswer

open RedBlack.Tree

theorem add (h : t.Lists order w l) (hf : Assoc.find? order k l = none) (v : V) (a : α) :
    Meets (do let _ ← Edit.insert k v
              return a) t order w (Assoc.add order w k v l a) := by
  have hk : t.inorder.any (t.order.agrees k) = false := by
    rw [h.find?_eq k, Option.map_eq_none_iff] at hf
    rw [← List.isSome_find?, hf]
    rfl
  unfold Assoc.add
  by_cases hfull : t.stock.Exhausted t.width
  · rw [if_pos (h.exhausted_iff.1 hfull)]
    exact failed (Act.fail_then (h.sound.run_insert_exhausted hk hfull v)) h
  · rw [if_neg fun hlimit => hfull (h.exhausted_iff.2 hlimit)]
    obtain ⟨ns, hh⟩ := h.sound.holds
    have := h.sound.lawful
    obtain ⟨t', hrun, hsound, hturns⟩ := h.sound.exists_insert hk hfull v
    have hentries : t'.inorder.map Prod.snd = Assoc.insert order k v l := by
      rw [hturns.items.2.2, ← h.order, ← h.entries]
      exact KeyOrder.Sorted.entries_place hh.sorted hk
    exact done (Act.run_then hrun rfl)
      ⟨hsound, hturns.order.trans h.order, hturns.width.trans h.width, hentries⟩

theorem remove (h : t.Lists order w l) (k : K) :
    Meets (Edit.remove k) t order w
      (.ok ((Assoc.find? order k l).map Prod.snd), Assoc.erase order k l) := by
  cases hf : Assoc.find? order k l with
  | none =>
    rw [Assoc.erase_of_find? hf]
    exact done (run_remove_absent (h.search_none hf)) h
  | some e =>
    obtain ⟨i, hi, hsearch, -⟩ := h.exists_handle hf
    obtain ⟨t', hrun, hlists⟩ := h.exists_erased hi
    exact done (run_remove hsearch hrun) hlists

theorem clear (h : t.Lists order w l) : Meets Edit.clear t order w (.ok (), []) :=
  done (run_clear t) h.cleared

theorem treeCall (h : t.Lists order w l) (c : TreeCall K V α) :
    Meets c.onTree t order w (c.onList order w l) := by
  cases c with
  | ask q => exact done (Act.run_look_ok (h.ask q)) h
  | find k => exact done (Act.run_look_ok (h.find? k)) h
  | insert k v =>
    rw [TreeCall.onList]
    cases hf : Assoc.find? order k l with
    | none => exact add h hf v ()
    | some e =>
      obtain ⟨i, hi, -, -⟩ := h.exists_handle hf
      have hk : t.inorder.any (t.order.agrees k) = true := by
        rw [← List.isSome_find?, hi]
        rfl
      exact failed (Act.fail_then (h.sound.run_insert_duplicate hk v)) h
  | modify k f =>
    rw [TreeCall.onList]
    cases hf : Assoc.find? order k l with
    | none => exact done (Act.look_then (h.search_none hf) rfl) h
    | some e =>
      obtain ⟨i, hi, hsearch, hentry⟩ := h.exists_handle hf
      exact done (Act.look_then hsearch (Act.run_then (run_modifyValue hentry f) rfl))
        (h.overwritten hi (f e.2))
  | remove k => exact remove h k
  | clear => exact clear h

theorem step (c : TreeCall K V α) (h : t.Lists order w l) :
    (c.step t).1 = (c.onList order w l).1 ∧ (c.step t).2.Lists order w (c.onList order w l).2 :=
  ⟨(treeCall h c).answer, (treeCall h c).lists⟩

end Edit.Meets

/-! ### Maps -/

namespace Map

structure Lists (m : Map K V) (order : KeyOrder K) (l : List (K × V)) : Prop where
  idle : m.borrow = .idle
  tree : m.content.Lists order .halfWord l

structure Meets (act : Act (Map K V) α) (m : Map K V) (order : KeyOrder K)
    (r : Assoc.Result K V α) : Prop where
  answer : (act.outcome m).1 = r.1
  lists : (act.outcome m).2.Lists order r.2

variable {m : Map K V} {order : KeyOrder K} {l : List (K × V)} {k : K} {a : α}

theorem lists_empty (strategy : Strategy) (order : KeyOrder K) [h : Std.TransCmp order.compare] :
    (Map.empty strategy order : Map K V).Lists order [] := by
  have hholds : (Map.empty strategy order : Map K V).content.Holds .vacant .nil :=
    Tree.holds_nil rfl rfl rfl
  exact ⟨rfl, hholds.sound h, rfl, rfl, congrArg (List.map Prod.snd) hholds.inorder_eq⟩

theorem Meets.query (h : m.Lists order l) {f : Tree K V → Except Failure α}
    (hf : f m.content = .ok a) : Meets (Lock.query f) m order (.ok a, l) := by
  constructor <;> rw [Lock.outcome_query h.idle f]
  · exact hf
  · exact h

theorem Meets.update (h : m.Lists order l) {act : Edit K V α} {r : Assoc.Result K V α}
    (hact : Edit.Meets act m.content order .halfWord r) : Meets (Lock.update act) m order r := by
  constructor <;> rw [Lock.outcome_update h.idle act]
  · exact hact.answer
  · exact ⟨h.idle, hact.lists⟩

theorem Meets.ask (h : m.Lists order l) (q : Ask K V α) :
    Meets q.onMap m order (.ok (q.onList order l), l) := by
  have hask := h.tree.ask q
  cases q <;> exact Meets.query h hask

theorem Meets.mapCall (h : m.Lists order l) (c : MapCall K V α) :
    Meets c.onMap m order (c.onList order .halfWord l) := by
  cases c with
  | ask q => exact Meets.ask h q
  | getWith k f =>
    refine Meets.query h (f := fun t => do return (← t.get? k).map f)
      (Act.ok_then (h.tree.get? k) ?_)
    rw [Option.map_map]
    rfl
  | insert k v =>
    rw [MapCall.onList]
    apply Meets.update h
    cases hf : Assoc.find? order k l with
    | none =>
      exact .of_run_eq (Act.look_then (h.tree.search_none hf) rfl) (.add h.tree hf v none)
    | some e =>
      obtain ⟨i, hi, hsearch, hentry⟩ := h.tree.exists_handle hf
      exact .done (Act.look_then hsearch (Tree.run_replaceAt? hentry v)) (h.tree.overwritten hi v)
  | replace k v =>
    rw [MapCall.onList]
    apply Meets.update h
    cases hf : Assoc.find? order k l with
    | none => exact .done (Act.look_then (h.tree.search_none hf) rfl) h.tree
    | some e =>
      obtain ⟨i, hi, hsearch, hentry⟩ := h.tree.exists_handle hf
      exact .done (Act.look_then hsearch (Act.run_then (Tree.run_replaceAt? hentry v) rfl))
        (h.tree.overwritten hi v)
  | remove k => exact Meets.update h (.remove h.tree k)
  | clear => exact Meets.update h (.clear h.tree)

theorem Meets.step (c : MapCall K V α) (h : m.Lists order l) :
    (c.step m).1 = (c.onList order .halfWord l).1 ∧
      (c.step m).2.Lists order (c.onList order .halfWord l).2 :=
  ⟨(Meets.mapCall h c).answer, (Meets.mapCall h c).lists⟩

theorem Lists.exists_overwritten (h : m.Lists order l) {e : K × V}
    (hf : Assoc.find? order k l = some e) (v : V) :
    ∃ m', (Map.insert k v).outcome m = (.ok (some e.2), m') ∧
      (Map.replace k v).outcome m = (.ok (.ok e.2), m') ∧
      m'.Lists order (Assoc.overwrite order k v l) := by
  obtain ⟨i, hi, hsearch, hentry⟩ := h.tree.exists_handle hf
  have hrun := Tree.run_replaceAt? hentry v
  refine ⟨{ m with content := m.content.edited i v }, ?_, ?_, h.idle, h.tree.overwritten hi v⟩
  · exact Lock.outcome_update_ok h.idle (Act.look_then hsearch hrun)
  · exact Lock.outcome_update_ok h.idle (Act.look_then hsearch (Act.run_then hrun rfl))

end Map

/-- Every answer to calls by key on a tree, and on a map, is that of an association list whose keys
increase. A map that is given another value for a key keeps the key that it was given first. -/
theorem answers_eq_association_list (order : KeyOrder K) [Std.TransCmp order.compare] :
    (∀ (w : Width) (calls : List (Σ α, TreeCall K V α)),
      answers TreeCall.step calls (.empty order w) = answers (TreeCall.onList order w) calls [] ∧
        (after (TreeCall.onList order w) calls []).Pairwise
          fun a b => order.compare a.1 b.1 = .lt) ∧
      ∀ (strategy : Strategy) (calls : List (Σ α, MapCall K V α)),
        answers MapCall.step calls (.empty strategy order) =
            answers (MapCall.onList order .halfWord) calls [] ∧
          (after (MapCall.onList order .halfWord) calls []).Pairwise
            (fun a b => order.compare a.1 b.1 = .lt) ∧
          ∀ k v e, let m := after MapCall.step calls (.empty strategy order)
            m.content.find? k = .ok (some e) →
            ∃ m', (Map.insert k v).outcome m = (.ok (some e.2), m') ∧
              (Map.replace k v).outcome m = (.ok (.ok e.2), m') ∧
              (∀ k', order.compare k' k = .eq → m'.content.find? k' = .ok (some (e.1, v))) ∧
              m'.content.min?.map (Option.map Prod.fst) = m.content.min?.map (Option.map Prod.fst) ∧
              m'.content.max?.map (Option.map Prod.fst) = m.content.max?.map (Option.map Prod.fst) := by
  constructor
  · intro w calls
    obtain ⟨hanswers, hlists⟩ := answers_eq (r := fun t l => Tree.Lists t order w l)
      (fun c _ _ h => Edit.Meets.step c h) (Tree.Lists.lists_empty order w) calls
    exact ⟨hanswers, hlists.increasing⟩
  · intro strategy calls
    obtain ⟨hanswers, hlists⟩ := answers_eq (r := fun m l => Map.Lists m order l)
      (fun c _ _ h => Map.Meets.step c h) (Map.lists_empty strategy order) calls
    refine ⟨hanswers, hlists.tree.increasing, fun k v e hfind => ?_⟩
    rw [hlists.tree.find? k] at hfind
    obtain ⟨m', hinsert, hreplace, hlists'⟩ := hlists.exists_overwritten (Except.ok.inj hfind) v
    refine ⟨m', hinsert, hreplace, ?_, ?_, ?_⟩
    · intro k' hk
      rw [hlists'.tree.find? k', Assoc.find?_congr hk, Assoc.find?_overwrite (Except.ok.inj hfind)]
    · rw [hlists'.tree.min?, hlists.tree.min?, Except.map, Except.map, ← List.head?_map,
        Assoc.keys_overwrite, List.head?_map]
    · rw [hlists'.tree.max?, hlists.tree.max?, Except.map, Except.map, ← List.getLast?_map,
        Assoc.keys_overwrite, List.getLast?_map]

theorem answers_of_equal_keys :
    answers MapCall.step
        [⟨_, .insert 1 "a"⟩, ⟨_, .insert 2 "b"⟩, ⟨_, .ask .first⟩, ⟨_, .remove 3⟩, ⟨_, .ask .size⟩]
        (.empty .unsynchronized (.allEqual : KeyOrder Nat)) =
      [⟨Option String, .ok none⟩, ⟨_, .ok (some "a")⟩, ⟨_, .ok (some (1, "b"))⟩, ⟨_, .ok (some "b")⟩,
        ⟨_, .ok 0⟩] :=
  ((answers_eq_association_list .allEqual).2 .unsynchronized _).1.trans rfl

end RedBlack
