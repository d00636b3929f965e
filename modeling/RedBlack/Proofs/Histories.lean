import RedBlack.Proofs.Client
import RedBlack.Proofs.Deletion
import RedBlack.Proofs.Editing
import RedBlack.Proofs.Insertion

/-! Histories of a tree. Whatever calls its clients make, in whatever order, it stays sound, and its items
and its stock of handles change as the effects of the calls say. -/
namespace RedBlack
variable {K V : Type}

namespace Effect

def Alters (order : KeyOrder K) (l l' : List (Handle × K × V)) : Effect K V → Prop
  | unchanged => l' = l
  | edited h => h ∈ l.map Prod.fst ∧ ∃ v, l' = revalue h v l
  | added h k v =>
    h ∉ l.map Prod.fst ∧ l.any (order.agrees k) = false ∧ l' = order.place (h, k, v) l
  | deleted h => h ∈ l.map Prod.fst ∧ l' = l.filter fun x => x.1 ≠ h
  | cleared => l' = []

def move? : Effect K V → Option Stock.Move
  | unchanged | edited _ => none
  | added _ _ _ => some .take
  | deleted h => some (.give h)
  | cleared => some .reset

def handle? : Effect K V → Option Handle
  | added h _ _ => some h
  | _ => none

end Effect

namespace Tree

structure Sound (t : Tree K V) : Prop where
  lawful : Std.TransCmp t.order.compare
  holds : ∃ ns, t.Holds ns t.shape

/-- The tree has turned into another, with an effect. -/
structure Turns (t t' : Tree K V) (eff : Effect K V) : Prop where
  order : t'.order = t.order
  width : t'.width = t.width
  items : eff.Alters t.order t.inorder t'.inorder
  stock : t'.stock = (eff.move?.map t.stock.moved).getD t.stock
  picked : ∀ h, eff.handle? = some h → h = t.stock.pick
  still : eff = .unchanged → t' = t

/-- What is in hand of an entry or a value is there. -/
def Backs (t : Tree K V) : Hold K → Prop
  | .entry (.occupied h) | .value h => (t.entryAt? h).isSome = true
  | _ => True

/-- What may come of a call on a tree: an effect, or a refusal that changes nothing. -/
inductive Admits (t : Tree K V) : EStateM.Result Failure (Tree K V) (Effect K V × Hold K) → Prop
  | done {eff : Effect K V} {hold : Hold K} {t' : Tree K V} (sound : t'.Sound)
      (turns : t.Turns t' eff) (backs : t'.Backs hold) : t.Admits (.ok (eff, hold) t')
  | refused {e : Failure} (he : e = .duplicateKey ∨ e = .arenaFull) : t.Admits (.error e t)

variable {t t' : Tree K V} {ns : Slot K V} {sh : Shape K V} {i : Handle} {e : K × V}

theorem Turns.refl (t : Tree K V) : t.Turns t .unchanged :=
  ⟨rfl, rfl, rfl, rfl, (fun _ h => nomatch h), fun _ => rfl⟩

theorem Turns.mem_added {h : Handle} {k : K} {v : V} (ht : t.Turns t' (.added h k v)) :
    (h, k, v) ∈ t'.inorder := by
  rw [ht.items.2.2]
  exact List.mem_append_right _ List.mem_cons_self

theorem Holds.shape_eq (h : t.Holds ns sh) : t.shape = sh := h.shows.shape_eq

theorem Holds.inorder_eq (h : t.Holds ns sh) : t.inorder = sh.items := h.shows.inorder_eq

theorem Holds.sound (h : t.Holds ns sh) (hc : Std.TransCmp t.order.compare) : t.Sound :=
  ⟨hc, ns, h.shape_eq.symm ▸ h⟩

namespace Sound

theorem handles_eq (t : Tree K V) : t.shape.handles = t.inorder.map Prod.fst :=
  t.shape.handles_eq_map_items

theorem size_eq (hs : t.Sound) : t.size = t.inorder.length := by
  obtain ⟨ns, h⟩ := hs.holds
  exact h.size

theorem entryAt?_eq_some_iff (hs : t.Sound) : t.entryAt? i = some e ↔ (i, e) ∈ t.inorder := by
  obtain ⟨ns, h⟩ := hs.holds
  exact h.entryAt?_eq_some_iff

theorem isSome_entryAt?_iff (hs : t.Sound) :
    (t.entryAt? i).isSome = true ↔ i ∈ t.inorder.map Prod.fst := by
  rw [Option.isSome_iff_exists]
  constructor
  · rintro ⟨e, he⟩
    exact List.mem_map.2 ⟨(i, e), hs.entryAt?_eq_some_iff.1 he, rfl⟩
  · intro hi
    obtain ⟨⟨j, e⟩, hmem, rfl⟩ := List.mem_map.1 hi
    exact ⟨e, hs.entryAt?_eq_some_iff.2 hmem⟩

theorem search (hs : t.Sound) (k : K) :
    t.search k = .ok ((t.inorder.find? (t.order.agrees k)).map Prod.fst) := by
  obtain ⟨ns, h⟩ := hs.holds
  have := hs.lawful
  exact h.shows.search h.sorted k

theorem search_cases (hs : t.Sound) (k : K) :
    t.search k = .ok none ∨ ∃ i e, t.search k = .ok (some i) ∧ t.entryAt? i = some e := by
  rw [hs.search k]
  cases hfind : t.inorder.find? (t.order.agrees k) with
  | none => exact .inl rfl
  | some x =>
    obtain ⟨i, e⟩ := x
    exact .inr ⟨i, e, rfl, hs.entryAt?_eq_some_iff.2 (List.mem_of_find?_eq_some hfind)⟩

theorem exists_neighbor (hs : t.Sound) (a : Side) (i : Handle) : ∃ x, t.neighbor a i = .ok x := by
  obtain ⟨ns, h⟩ := hs.holds
  cases he : t.entryAt? i with
  | none =>
    refine ⟨none, ?_⟩
    rw [Tree.neighbor, he]
    rfl
  | some e =>
    obtain ⟨b, c, -, hrun⟩ := h.neighbor (h.entryAt?_eq_some_iff.1 he) a
    exact ⟨_, hrun⟩

theorem exists_start (hs : t.Sound) (s : Start K) : ∃ c, Cursor.start t s = .ok c := by
  obtain ⟨ns, h⟩ := hs.holds
  have hseek (s : Seek) (k : K) : ∃ x, t.seek s k = .ok x := ⟨_, Act.ok_then (h.shows.probe s k) rfl⟩
  cases s with
  | front => exact ⟨_, Act.ok_then (h.shows.extreme .left) rfl⟩
  | back => exact ⟨_, Act.ok_then (h.shows.extreme .right) rfl⟩
  | handle i => exact ⟨_, rfl⟩
  | key k =>
    obtain ⟨x, hx⟩ := hseek .exact k
    exact ⟨_, Act.ok_then hx rfl⟩
  | lower k =>
    obtain ⟨x, hx⟩ := hseek .lower k
    exact ⟨_, Act.ok_then hx rfl⟩

/-! ### What each operation does -/

theorem holds_edited (hs : t.Sound) (hi : t.entryAt? i = some e) (v : V) :
    ∃ ns, (t.edited i v).Holds ns (t.shape.revalued i v) := by
  obtain ⟨ns, h⟩ := hs.holds
  refine ⟨ns, h.edited ?_ v⟩
  rw [handles_eq]
  exact List.mem_map_of_mem (h.entryAt?_eq_some_iff.1 hi)

theorem inorder_edited (hs : t.Sound) (hi : t.entryAt? i = some e) (v : V) :
    (t.edited i v).inorder = revalue i v t.inorder := by
  obtain ⟨ns, h⟩ := hs.holds_edited hi v
  exact h.inorder_eq.trans (Shape.items_revalued i v t.shape)

theorem edited (hs : t.Sound) (hi : t.entryAt? i = some e) (v : V) :
    (t.edited i v).Sound ∧ t.Turns (t.edited i v) (.edited i) ∧
      ((t.edited i v).entryAt? i).isSome = true := by
  obtain ⟨ns, h⟩ := hs.holds_edited hi v
  have hsound := h.sound hs.lawful
  have hlive := hs.isSome_entryAt?_iff.1 (Option.isSome_of_eq_some hi)
  refine ⟨hsound, ⟨rfl, rfl, ⟨hlive, v, hs.inorder_edited hi v⟩, stock_edited t i v,
    (fun _ h => nomatch h), fun h => nomatch h⟩, ?_⟩
  rw [hsound.isSome_entryAt?_iff, ← handles_eq, h.shape_eq, Shape.handles_revalued, handles_eq]
  exact hlive

theorem exists_delete (hs : t.Sound) (hi : t.entryAt? i = some e) :
    ∃ t', (Edit.delete i).run t = .ok (some e) t' ∧ t'.Sound ∧ t.Turns t' (.deleted i) := by
  obtain ⟨ns, h⟩ := hs.holds
  have hmem := h.entryAt?_eq_some_iff.1 hi
  obtain ⟨ns', sh', t', hrun, h', hitems, hstock, horder, hwidth, -⟩ := h.exists_delete hmem
  refine ⟨t', hrun, h'.sound (horder ▸ hs.lawful), horder, hwidth, ⟨?_, ?_⟩, hstock,
    (fun _ h => nomatch h), fun h => nomatch h⟩
  · exact List.mem_map_of_mem hmem
  · exact h'.inorder_eq.trans hitems

theorem run_insert_duplicate (hs : t.Sound) {k : K} (hk : t.inorder.any (t.order.agrees k) = true)
    (v : V) : (Edit.insert k v).run t = .error .duplicateKey t := by
  obtain ⟨ns, h⟩ := hs.holds
  have := hs.lawful
  exact h.run_insert_duplicate hk v

theorem run_insert_exhausted (hs : t.Sound) {k : K} (hk : t.inorder.any (t.order.agrees k) = false)
    (hfull : t.stock.Exhausted t.width) (v : V) :
    (Edit.insert k v).run t = .error .arenaFull t := by
  obtain ⟨ns, h⟩ := hs.holds
  have := hs.lawful
  exact h.run_insert_exhausted hk hfull v

theorem exists_insert (hs : t.Sound) {k : K} (hk : t.inorder.any (t.order.agrees k) = false)
    (hroom : ¬ t.stock.Exhausted t.width) (v : V) :
    ∃ t', (Edit.insert k v).run t = .ok t.stock.pick t' ∧ t'.Sound ∧
      t.Turns t' (.added t.stock.pick k v) := by
  obtain ⟨ns, h⟩ := hs.holds
  have := hs.lawful
  obtain ⟨sh', t', hrun, h', hitems, hstock, horder, hwidth, -⟩ := h.exists_insert hk hroom v
  have hnew : t.stock.pick ∉ t.inorder.map Prod.fst := fun hmem =>
    h.pick_unused hroom (List.mem_cons_of_mem _ (handles_eq t ▸ hmem))
  refine ⟨t', hrun, h'.sound (horder ▸ hs.lawful), horder, hwidth, ⟨hnew, hk, ?_⟩, hstock,
    (fun _ h => (Option.some.inj h).symm), fun h => nomatch h⟩
  exact h'.inorder_eq.trans hitems

theorem insert (hs : t.Sound) (k : K) (v : V) :
    (∃ e, (Edit.insert k v).run t = .error e t ∧ (e = .duplicateKey ∨ e = .arenaFull)) ∨
      ∃ h t', (Edit.insert k v).run t = .ok h t' ∧ t'.Sound ∧ t.Turns t' (.added h k v) := by
  cases hk : t.inorder.any (t.order.agrees k) with
  | true => exact .inl ⟨_, hs.run_insert_duplicate hk v, .inl rfl⟩
  | false =>
    by_cases hfull : t.stock.Exhausted t.width
    · exact .inl ⟨_, hs.run_insert_exhausted hk hfull v, .inr rfl⟩
    · exact .inr ⟨_, hs.exists_insert hk hfull v⟩

theorem turns_insert (hs : t.Sound) {k : K} {v : V} {h : Handle}
    (hrun : (Edit.insert k v).run t = .ok h t') : t'.Sound ∧ t.Turns t' (.added h k v) := by
  obtain ⟨e, hfail, -⟩ | ⟨i, u, hgood, hsound, hturns⟩ := hs.insert k v
  · rw [hfail] at hrun
    cases hrun
  · rw [hgood] at hrun
    cases hrun
    exact ⟨hsound, hturns⟩

theorem cleared (hs : t.Sound) : t.cleared.Sound ∧ t.Turns t.cleared .cleared := by
  have h := holds_cleared t
  exact ⟨h.sound hs.lawful, rfl, rfl, h.inorder_eq, rfl, (fun _ h => nomatch h), fun h => nomatch h⟩

section
variable {hold : Hold K} {r : EStateM.Result Failure (Tree K V) (Effect K V × Hold K)}

theorem admits_kept (hs : t.Sound) (hr : r = .ok (.unchanged, hold) t) (hb : t.Backs hold) :
    t.Admits r := hr ▸ .done hs (.refl t) hb

theorem admits_edited (hs : t.Sound) (hi : t.entryAt? i = some e) {v : V}
    (hr : r = .ok (.edited i, hold) (t.edited i v))
    (hb : (t.edited i v).Backs (.value i) → (t.edited i v).Backs hold) : t.Admits r := by
  obtain ⟨hsound, hturns, hlive⟩ := hs.edited hi v
  rw [hr]
  exact .done hsound hturns (hb hlive)

theorem admits_deleted (hs : t.Sound) (hi : t.entryAt? i = some e)
    (hr : ∀ t', (Edit.delete i).run t = .ok (some e) t' → r = .ok (.deleted i, hold) t')
    (hb : ∀ t' : Tree K V, t'.Backs hold) : t.Admits r := by
  obtain ⟨t', hrun, hsound, hturns⟩ := hs.exists_delete hi
  rw [hr t' hrun]
  exact .done hsound hturns (hb t')

end

theorem admits_insert (hs : t.Sound) (k : K) (v : V) {hold : Handle → Hold K}
    (hb : ∀ h (t' : Tree K V), t'.Backs (.value h) → t'.Backs (hold h)) :
    t.Admits ((do let h ← Edit.insert k v
                  return (.added h k v, hold h) : Edit K V (Effect K V × Hold K)).run t) := by
  rcases hs.insert k v with ⟨e, hrun, he⟩ | ⟨h, t', hrun, hsound, hturns⟩
  · rw [Act.fail_then hrun]
    exact .refused he
  · rw [Act.run_then hrun rfl]
    have hlive := hsound.isSome_entryAt?_iff.2 (List.mem_map_of_mem hturns.mem_added)
    exact .done hsound hturns (hb h t' hlive)

end Sound
end Tree

/-! ### Calls -/

open RedBlack.Tree

variable {t : Tree K V}

theorem Entry.admits_call (hs : t.Sound) {e : Entry K} (he : t.Backs (.entry e)) (c : Entry.Call V) :
    t.Admits ((e.call c).run t) := by
  cases e with
  | occupied i =>
    obtain ⟨x, hi⟩ := Option.isSome_iff_exists.1 he
    cases c with
    | andModify f =>
      exact hs.admits_edited hi (Act.run_then (Act.run_then (run_modifyValue hi f) rfl) rfl) id
    | orInsert default => exact hs.admits_kept rfl he
    | orInsertWith default => exact hs.admits_kept rfl he
    | modify f => exact hs.admits_edited hi (Act.run_then (run_modifyValue hi f) rfl) id
    | insert v => exact hs.admits_edited hi (Act.run_then (run_replaceValue hi v) rfl) id
    | remove =>
      have hr (t' : Tree K V) (hrun : (Edit.delete i).run t = .ok (some x) t') :
          ((Entry.occupied i).call .remove).run t = .ok (.deleted i, .nothing) t' :=
        Act.run_then (Act.run_then hrun rfl) rfl
      exact hs.admits_deleted hi hr fun _ => trivial
  | vacant k =>
    cases c with
    | andModify f => exact hs.admits_kept rfl trivial
    | orInsert default => exact hs.admits_insert k default fun _ _ h => h
    | orInsertWith default =>
      have hassoc : (Entry.vacant k).call (.orInsertWith default) = (do
          let h ← Edit.insert k (default ())
          return (.added h k (default ()), .value h) : Edit K V (Effect K V × Hold K)) := by
        simp only [Entry.call, Entry.run_orInsertWith_vacant, bind_assoc, pure_bind]
        rfl
      rw [hassoc]
      exact hs.admits_insert k (default ()) fun _ _ h => h
    | modify f => exact hs.admits_kept rfl trivial
    | insert v => exact hs.admits_insert k v fun _ _ h => h
    | remove => exact hs.admits_kept rfl trivial

theorem Cursor.admits_call (hs : t.Sound) (c : Cursor) (call : Cursor.Call V) :
    t.Admits ((c.call call).run t) := by
  obtain ⟨node⟩ := c
  cases node with
  | none => cases call <;> exact hs.admits_kept rfl trivial
  | some i =>
    cases call with
    | step a =>
      obtain ⟨x, hx⟩ := hs.exists_neighbor a i
      have hstep : Cursor.step a ⟨some i⟩ t = .ok (.ok ⟨x⟩) := Act.ok_then hx rfl
      exact hs.admits_kept (Act.look_then hstep rfl) trivial
    | modify f =>
      cases hi : t.entryAt? i with
      | none =>
        have hrun : (Cursor.modify ⟨some i⟩ f).run t = .ok (.error .invalidCursor) t :=
          Act.run_then (run_modifyAt?_stale hi f) rfl
        exact hs.admits_kept (Act.run_then hrun rfl) trivial
      | some e =>
        have hrun : (Cursor.modify ⟨some i⟩ f).run t = .ok (.ok (f e.2)) (t.edited i (f e.2)) :=
          Act.run_then (run_modifyAt? hi f) rfl
        exact hs.admits_edited hi (Act.run_then hrun rfl) fun _ => trivial
    | replace v =>
      cases hi : t.entryAt? i with
      | none =>
        have hrun : (Cursor.replace ⟨some i⟩ v).run t = .ok (.error .invalidCursor) t :=
          Act.run_then (run_replaceAt?_stale hi v) rfl
        exact hs.admits_kept (Act.run_then hrun rfl) trivial
      | some e =>
        have hrun : (Cursor.replace ⟨some i⟩ v).run t = .ok (.ok e.2) (t.edited i v) :=
          Act.run_then (run_replaceAt? hi v) rfl
        exact hs.admits_edited hi (Act.run_then hrun rfl) fun _ => trivial
    | remove =>
      obtain ⟨x, hx⟩ := hs.exists_neighbor .right i
      have hnext : t.successor i = .ok x := hx
      cases hi : t.entryAt? i with
      | none =>
        have hrun : (Cursor.remove ⟨some i⟩).run t = .ok (.error .invalidCursor) t :=
          Act.look_then hnext (Act.run_then (run_delete_stale hi) rfl)
        exact hs.admits_kept (Act.run_then hrun rfl) trivial
      | some e =>
        have hr (t' : Tree K V) (hdelete : (Edit.delete i).run t = .ok (some e) t') :
            (Cursor.call ⟨some i⟩ .remove).run t = .ok (.deleted i, .cursor ⟨x⟩) t' := by
          have hrun : (Cursor.remove ⟨some i⟩).run t = .ok (.ok (e, ⟨x⟩)) t' :=
            Act.look_then hnext (Act.run_then hdelete rfl)
          exact Act.run_then hrun rfl
        exact hs.admits_deleted hi hr fun _ => trivial

theorem Call.admits_act (hs : t.Sound) (c : Call K V) {hold : Hold K} (hb : t.Backs hold) :
    t.Admits ((c.act hold).run t) := by
  cases c with
  | insert k v => exact hs.admits_insert k v fun _ _ _ => trivial
  | delete i =>
    cases hi : t.entryAt? i with
    | none => exact hs.admits_kept (Act.run_then (run_delete_stale hi) rfl) trivial
    | some e => exact hs.admits_deleted hi (fun t' hrun => Act.run_then hrun rfl) fun _ => trivial
  | remove k =>
    rcases hs.search_cases k with hsearch | ⟨i, e, hsearch, hi⟩
    · have hr : ((Call.remove k).act hold).run t = .ok (.unchanged, .nothing) t :=
        Act.look_then hsearch (Act.run_then (run_remove_absent hsearch) rfl)
      exact hs.admits_kept hr trivial
    · have hr (t' : Tree K V) (hrun : (Edit.delete i).run t = .ok (some e) t') :
          ((Call.remove k).act hold).run t = .ok (.deleted i, .nothing) t' :=
        Act.look_then hsearch (Act.run_then (run_remove hsearch hrun) rfl)
      exact hs.admits_deleted hi hr fun _ => trivial
  | clear =>
    obtain ⟨hsound, hturns⟩ := hs.cleared
    exact .done hsound hturns trivial
  | modify k f =>
    rcases hs.search_cases k with hsearch | ⟨i, e, hsearch, hi⟩
    · exact hs.admits_kept (Act.look_then hsearch rfl) trivial
    · have hr : ((Call.modify k f).act hold).run t = .ok (.edited i, .nothing) (t.edited i (f e.2)) :=
        Act.look_then hsearch (Act.run_then (run_modifyValue hi f) rfl)
      exact hs.admits_edited hi hr fun _ => trivial
  | modifyAt i f =>
    cases hi : t.entryAt? i with
    | none => exact hs.admits_kept (Act.run_then (run_modifyAt?_stale hi f) rfl) trivial
    | some e => exact hs.admits_edited hi (Act.run_then (run_modifyAt? hi f) rfl) fun _ => trivial
  | replaceAt i v =>
    cases hi : t.entryAt? i with
    | none => exact hs.admits_kept (Act.run_then (run_replaceAt?_stale hi v) rfl) trivial
    | some e => exact hs.admits_edited hi (Act.run_then (run_replaceAt? hi v) rfl) fun _ => trivial
  | entry k =>
    rcases hs.search_cases k with hsearch | ⟨i, e, hsearch, hi⟩
    · have hentry : t.entry k = .ok (.vacant k) := Act.ok_then hsearch rfl
      exact hs.admits_kept (Act.look_then hentry rfl) trivial
    · have hentry : t.entry k = .ok (.occupied i) := Act.ok_then hsearch rfl
      exact hs.admits_kept (Act.look_then hentry rfl) (Option.isSome_of_eq_some hi)
  | cursor start =>
    obtain ⟨c, hc⟩ := hs.exists_start start
    exact hs.admits_kept (Act.look_then hc rfl) trivial
  | onEntry c =>
    cases hold with
    | entry e => exact Entry.admits_call hs hb c
    | nothing | value _ | cursor _ => exact hs.admits_kept rfl hb
  | onValue f =>
    cases hold with
    | value i =>
      obtain ⟨e, hi⟩ := Option.isSome_iff_exists.1 hb
      exact hs.admits_edited hi (Act.run_then (run_modifyValue hi f) rfl) id
    | nothing | entry _ | cursor _ => exact hs.admits_kept rfl hb
  | onCursor c =>
    cases hold with
    | cursor cur => exact Cursor.admits_call hs cur c
    | nothing | entry _ | value _ => exact hs.admits_kept rfl hb

/-! ### Runs -/

namespace Client

structure Sound (s : Client K V) : Prop where
  tree : s.tree.Sound
  backs : s.tree.Backs s.hold

theorem Sound.step {s : Client K V} (h : s.Sound) (c : Call K V) :
    (s.step c).2.Sound ∧ s.tree.Turns (s.step c).2.tree (s.effect c) ∧
      ∀ e, (s.step c).1 = .error e →
        (s.step c).2.tree = s.tree ∧ (e = .duplicateKey ∨ e = .arenaFull) := by
  have hadmits := c.admits_act h.tree h.backs
  unfold Client.effect Client.step
  cases hrun : (c.act s.hold).run s.tree with
  | ok r t' =>
    rw [hrun] at hadmits
    obtain ⟨eff, hold⟩ := r
    cases hadmits with
    | done sound turns backs => exact ⟨⟨sound, backs⟩, turns, fun e he => nomatch he⟩
  | error e t' =>
    rw [hrun] at hadmits
    cases hadmits with
    | refused he =>
      refine ⟨⟨h.tree, trivial⟩, .refl _, fun e' he' => ⟨rfl, ?_⟩⟩
      obtain rfl := Except.error.inj he'
      exact he

theorem sound_fresh (order : KeyOrder K) [h : Std.TransCmp order.compare] (w : Width) :
    (fresh order w : Client K V).Sound := ⟨(holds_empty order w).sound h, trivial⟩

theorem Sound.run {s : Client K V} (h : s.Sound) (calls : List (Call K V)) : (s.run calls).Sound := by
  induction calls generalizing s with
  | nil => exact h
  | cons c calls ih => exact ih (h.step c).1

theorem Sound.order_run {s : Client K V} (h : s.Sound) (calls : List (Call K V)) :
    (s.run calls).tree.order = s.tree.order := by
  induction calls generalizing s with
  | nil => rfl
  | cons c calls ih =>
    obtain ⟨hsound, hturns, -⟩ := h.step c
    exact (ih hsound).trans hturns.order

theorem Sound.width_run {s : Client K V} (h : s.Sound) (calls : List (Call K V)) :
    (s.run calls).tree.width = s.tree.width := by
  induction calls generalizing s with
  | nil => rfl
  | cons c calls ih =>
    obtain ⟨hsound, hturns, -⟩ := h.step c
    exact (ih hsound).trans hturns.width

end Client
end RedBlack
