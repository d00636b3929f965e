import RedBlack.Proofs.Bounds
import RedBlack.Proofs.Iterating
import RedBlack.Proofs.KeyCalls

/-! An order and its reverse. Two trees with these orders that are told the same give the same answers.
They need not have mirrored shapes; what is mirrored are their items. -/
namespace RedBlack
variable {K V α : Type}

inductive TreeChange (K V : Type) : Type → Type 1 where
  | insert (k : K) (v : V) : TreeChange K V Handle
  | remove (k : K) : TreeChange K V (Option V)
  | delete (h : Handle) : TreeChange K V (Option (K × V))
  | modify (k : K) (f : V → V) : TreeChange K V (Option V)
  | modifyAt (h : Handle) (f : V → V) : TreeChange K V (Option V)
  | replaceAt (h : Handle) (v : V) : TreeChange K V (Option V)
  | clear : TreeChange K V Unit

namespace TreeChange

def onTree : TreeChange K V α → Edit K V α
  | insert k v => Edit.insert k v
  | remove k => Edit.remove k
  | delete h => Edit.delete h
  | modify k f => do
    match ← Act.look (·.search k) with
    | none => return none
    | some h => return some (← Edit.modifyValue h f)
  | modifyAt h f => Edit.modifyAt? h f
  | replaceAt h v => Edit.replaceAt? h v
  | clear => Edit.clear

def step (c : TreeChange K V α) (t : Tree K V) : Except Failure α × Tree K V := c.onTree.outcome t

end TreeChange

/-! ### Reversed lists -/

namespace KeyOrder
variable {order : KeyOrder K} {k : K} {x : Handle × K × V} {l : List (Handle × K × V)}

theorem lesser_reverse [Std.TransCmp order.compare] :
    (reverse order).lesser k x = order.greater k x := by
  rw [Bool.eq_iff_iff, greater_iff, lesser, beq_iff_eq]
  rfl

theorem greater_reverse [Std.TransCmp order.compare] :
    (reverse order).greater k x = order.lesser k x := by
  rw [Bool.eq_iff_iff, lesser_iff, greater, beq_iff_eq]
  rfl

theorem agrees_reverse [Std.TransCmp order.compare] :
    (reverse order).agrees k x = order.agrees k x := by
  rw [Bool.eq_iff_iff, agrees_iff, agrees_iff]
  exact Std.OrientedCmp.eq_comm

theorem place_reverse : (reverse order).place x l.reverse = (order.place x l).reverse := by
  rw [place, place, List.reverse_append, List.reverse_cons, List.append_assoc, List.filter_reverse,
    List.filter_reverse]
  rfl

theorem Sorted.exists_cut {p : Handle × K × V → Bool} (h : order.Sorted l)
    (hp : ∀ x y, order.Before x y → p x = true → p y = true) :
    ∃ b c, l = b ++ c ∧ (∀ x ∈ b, p x = false) ∧ ∀ x ∈ c, p x = true := by
  induction l with
  | nil => exact ⟨[], [], rfl, fun _ hx => (nomatch hx), fun _ hx => (nomatch hx)⟩
  | cons x l ih =>
    obtain ⟨hx, hl⟩ := List.pairwise_cons.1 h
    cases hpx : p x with
    | true =>
      refine ⟨[], x :: l, rfl, fun _ hy => (nomatch hy), fun y hy => ?_⟩
      rcases List.mem_cons.1 hy with rfl | hy
      · exact hpx
      · exact hp x y (hx y hy) hpx
    | false =>
      obtain ⟨b, c, rfl, hb, hc⟩ := ih hl
      refine ⟨x :: b, c, rfl, fun y hy => ?_, hc⟩
      rcases List.mem_cons.1 hy with rfl | hy
      · exact hpx
      · exact hb y hy

end KeyOrder

theorem revalue_reverse (i : Handle) (v : V) (l : List (Handle × K × V)) :
    revalue i v l.reverse = (revalue i v l).reverse := List.map_reverse

theorem Side.along_other_reverse (a : Side) (l : List α) : a.other.along l.reverse = a.along l := by
  rw [along_other]
  cases a with
  | left => exact congrArg List.reverse (List.reverse_reverse l)
  | right => exact List.reverse_reverse l

theorem Side.takes_reverse (as : List Side) (l : List α) :
    Side.takes (as.map other) l.reverse = ((Side.takes as l).1, (Side.takes as l).2.reverse) := by
  induction as generalizing l with
  | nil => rfl
  | cons a as ih =>
    have hrest : a.other.rest l.reverse = (a.rest l).reverse := by
      rw [rest, along_other_reverse, along_other, ← rest]
    rw [List.map_cons, takes, hrest, ih, along_other_reverse]
    rfl

/-! ### Mirrored trees -/

namespace Tree
variable {t u : Tree K V} {i : Handle} {e : K × V} {k : K}

def lastBefore (t : Tree K V) : Option Handle → Except Failure (Option Handle)
  | some h => t.predecessor h
  | none => t.last

/-- The other tree has the reversed order and, backwards, the same items. The handles that it gives out
come from the same stock. -/
structure Mirrors (t u : Tree K V) : Prop where
  sound : t.Sound
  sound' : u.Sound
  order : u.order = .reverse t.order
  width : u.width = t.width
  stock : u.stock = t.stock
  items : u.inorder = t.inorder.reverse

theorem mirrors_empty (order : KeyOrder K) [h : Std.TransCmp order.compare] (w : Width) :
    (Tree.empty order w : Tree K V).Mirrors (.empty (.reverse order) w) := by
  have hholds (order : KeyOrder K) := holds_empty (V := V) order w
  have hreverse : Std.TransCmp (KeyOrder.reverse order).compare := inferInstance
  refine ⟨(hholds order).sound h, (hholds (.reverse order)).sound hreverse, rfl, rfl, rfl, ?_⟩
  rw [(hholds order).inorder_eq, (hholds (.reverse order)).inorder_eq]
  rfl

theorem Sound.lastBefore_find? (hs : t.Sound) {p : Handle × K × V → Bool}
    (hp : ∀ x y, t.order.Before x y → p x = true → p y = true) :
    t.lastBefore ((t.inorder.find? p).map Prod.fst) =
      .ok ((t.inorder.reverse.find? fun x => !p x).map Prod.fst) := by
  obtain ⟨b, c, hsplit, hb, hc⟩ := hs.sorted.exists_cut hp
  have hfirst : t.inorder.find? p = c.head? := hsplit ▸ find?_of_cut hb hc
  have hbefore : t.inorder.reverse.find? (fun x => !p x) = b.reverse.head? := by
    rw [hsplit, List.reverse_append]
    refine find?_of_cut (fun x hx => ?_) fun x hx => ?_
    · rw [hc x (List.mem_reverse.1 hx)]
      rfl
    · rw [hb x (List.mem_reverse.1 hx)]
      rfl
  rw [hfirst, hbefore]
  cases c with
  | nil =>
    rw [List.append_nil] at hsplit
    refine (hs.extreme .left).trans ?_
    rw [← Side.map_along, List.head?_map, hsplit]
    rfl
  | cons x c =>
    refine hs.neighbor_of_split (a := .left) (b := c.reverse) ?_
    rw [Side.along, hsplit, List.reverse_append, List.reverse_cons, List.append_assoc]
    rfl

namespace Mirrors

/-! #### Questions -/

theorem mem_iff (h : t.Mirrors u) {x : Handle × K × V} : x ∈ u.inorder ↔ x ∈ t.inorder := by
  rw [h.items, List.mem_reverse]

theorem entryAt? (h : t.Mirrors u) (i : Handle) : u.entryAt? i = t.entryAt? i := by
  ext e
  rw [h.sound'.entryAt?_eq_some_iff, h.sound.entryAt?_eq_some_iff, h.mem_iff]

theorem search (h : t.Mirrors u) (k : K) : u.search k = t.search k := by
  have hiff (i : Handle) : u.search k = .ok (some i) ↔ t.search k = .ok (some i) := by
    have := h.sound.lawful
    have heq (e : K × V) : u.order.compare k e.1 = .eq ↔ t.order.compare k e.1 = .eq := by
      rw [h.order]
      exact Std.OrientedCmp.eq_comm
    simp only [h.sound'.search_eq_some_iff, h.sound.search_eq_some_iff, h.entryAt?, heq]
  rw [h.sound'.search, h.sound.search] at hiff ⊢
  refine congrArg Except.ok (Option.ext fun i => ?_)
  exact ⟨fun hi => Except.ok.inj ((hiff i).1 (congrArg _ hi)),
    fun hi => Except.ok.inj ((hiff i).2 (congrArg _ hi))⟩

theorem any_agrees (h : t.Mirrors u) (k : K) :
    u.inorder.any (u.order.agrees k) = t.inorder.any (t.order.agrees k) := by
  have := h.sound.lawful
  rw [h.items, h.order, List.any_reverse]
  exact congrArg _ (funext fun x => KeyOrder.agrees_reverse)

theorem along (h : t.Mirrors u) (a : Side) : a.other.along u.inorder = a.along t.inorder := by
  rw [h.items, Side.along_other_reverse]

theorem extreme (h : t.Mirrors u) (a : Side) : u.extreme a.other = t.extreme a := by
  have ht := h.sound.extreme a.other
  have hu := h.sound'.extreme a
  rw [← Side.map_along] at ht hu
  rw [Side.other_other, ← h.along, Side.other_other] at ht
  rw [hu, ht]

theorem neighbor (h : t.Mirrors u) (a : Side) (i : Handle) : u.neighbor a.other i = t.neighbor a i := by
  cases hi : t.entryAt? i with
  | none =>
    rw [Tree.neighbor, Tree.neighbor, h.entryAt?, hi]
  | some e =>
    have hmem := Side.mem_along (a := a).2 (h.sound.entryAt?_eq_some_iff.1 hi)
    obtain ⟨b, c, hsplit⟩ := List.append_of_mem hmem
    rw [h.sound.neighbor_of_split hsplit,
      h.sound'.neighbor_of_split ((h.along a).trans hsplit)]

theorem lowerBound (h : t.Mirrors u) (k : K) :
    u.lowerBound k = (do t.lastBefore (← t.upperBound k)) := by
  have := h.sound.lawful
  rw [h.sound'.lowerBound, h.sound.upperBound, h.items, h.order]
  refine Eq.trans ?_ (h.sound.lastBefore_find? (Seek.bounds_upper t.order k).upward).symm
  simp only [KeyOrder.lesser_reverse]

theorem upperBound (h : t.Mirrors u) (k : K) :
    u.upperBound k = (do t.lastBefore (← t.lowerBound k)) := by
  have := h.sound.lawful
  rw [h.sound'.upperBound, h.sound.lowerBound, h.items, h.order]
  refine Eq.trans ?_ (h.sound.lastBefore_find? (Seek.bounds_lower t.order k).upward).symm
  have hgreater : (KeyOrder.reverse t.order).greater k = (t.order.lesser k : Handle × K × V → Bool) :=
    funext fun _ => KeyOrder.greater_reverse
  simp only [Bool.not_not, hgreater]

theorem drawn (h : t.Mirrors u) (as : List Side) : u.drawn (as.map .other) = t.drawn as := by
  rw [h.sound'.drawn, h.sound.drawn, h.items, Side.takes_reverse]

/-! #### Changes -/

theorem turned {t' u' : Tree K V} {eff : Effect K V} (h : t.Mirrors u) (ht : t'.Sound) (hu : u'.Sound)
    (hturns : t.Turns t' eff) (hturns' : u.Turns u' eff) (heff : ∀ i, eff ≠ .edited i) :
    t'.Mirrors u' := by
  refine ⟨ht, hu, ?_, ?_, ?_, ?_⟩
  · rw [hturns'.order, hturns.order, h.order]
  · rw [hturns'.width, hturns.width, h.width]
  · rw [hturns'.stock, hturns.stock, h.stock]
  · have hitems := hturns.items
    have hitems' := hturns'.items
    rw [h.order, h.items] at hitems'
    cases eff with
    | unchanged => exact hitems'.trans (congrArg List.reverse hitems).symm
    | edited i => exact absurd rfl (heff i)
    | added i k v => rw [hitems'.2.2, hitems.2.2, KeyOrder.place_reverse]
    | deleted i => rw [hitems'.2, hitems.2, List.filter_reverse]
    | cleared => rw [show u'.inorder = [] from hitems', show t'.inorder = [] from hitems, List.reverse_nil]

theorem edited (h : t.Mirrors u) (hi : t.entryAt? i = some e) (v : V) :
    (t.edited i v).Mirrors (u.edited i v) := by
  have hi' : u.entryAt? i = some e := (h.entryAt? i).trans hi
  refine ⟨(h.sound.edited hi v).1, (h.sound'.edited hi' v).1, h.order, h.width, ?_, ?_⟩
  · rw [stock_edited, stock_edited, h.stock]
  · rw [h.sound'.inorder_edited hi', h.sound.inorder_edited hi, h.items, revalue_reverse]

theorem exists_deleted (h : t.Mirrors u) (hi : t.entryAt? i = some e) :
    ∃ t' u', (Edit.delete i).run t = .ok (some e) t' ∧ (Edit.delete i).run u = .ok (some e) u' ∧
      t'.Mirrors u' := by
  obtain ⟨t', ht, hsound, hturns⟩ := h.sound.exists_delete hi
  obtain ⟨u', hu, hsound', hturns'⟩ := h.sound'.exists_delete ((h.entryAt? i).trans hi)
  exact ⟨t', u', ht, hu, h.turned hsound hsound' hturns hturns' fun _ heq => nomatch heq⟩

end Mirrors
end Tree

structure Edit.Mirrored (act : Edit K V α) (t u : Tree K V) : Prop where
  answer : (act.outcome u).1 = (act.outcome t).1
  mirrors : (act.outcome t).2.Mirrors (act.outcome u).2

namespace Edit.Mirrored
variable {t u t' u' : Tree K V} {act : Edit K V α} {a : α}

open RedBlack.Tree

theorem done (ht : act.run t = .ok a t') (hu : act.run u = .ok a u') (h : t'.Mirrors u') :
    Mirrored act t u := by
  constructor <;> rw [Act.outcome_ok ht, Act.outcome_ok hu]
  exact h

theorem failed {e : Failure} (ht : act.run t = .error e t') (hu : act.run u = .error e u')
    (h : t'.Mirrors u') : Mirrored act t u := by
  constructor <;> rw [Act.outcome_error ht, Act.outcome_error hu]
  exact h

theorem insert (h : t.Mirrors u) (k : K) (v : V) : Mirrored (Edit.insert k v) t u := by
  have hany := h.any_agrees k
  cases hk : t.inorder.any (t.order.agrees k) with
  | true =>
    exact failed (h.sound.run_insert_duplicate hk v) (h.sound'.run_insert_duplicate (hany.trans hk) v) h
  | false =>
    have hexhausted : u.stock.Exhausted u.width ↔ t.stock.Exhausted t.width := by rw [h.stock, h.width]
    by_cases hfull : t.stock.Exhausted t.width
    · exact failed (h.sound.run_insert_exhausted hk hfull v)
        (h.sound'.run_insert_exhausted (hany.trans hk) (hexhausted.2 hfull) v) h
    · obtain ⟨t', ht, hsound, hturns⟩ := h.sound.exists_insert hk hfull v
      obtain ⟨u', hu, hsound', hturns'⟩ :=
        h.sound'.exists_insert (hany.trans hk) (fun hfull' => hfull (hexhausted.1 hfull')) v
      rw [h.stock] at hu hturns'
      exact done ht hu (h.turned hsound hsound' hturns hturns' fun _ heq => nomatch heq)

theorem treeChange (h : t.Mirrors u) (c : TreeChange K V α) : Mirrored c.onTree t u := by
  cases c with
  | insert k v => exact insert h k v
  | remove k =>
    rcases h.sound.search_cases k with hsearch | ⟨i, e, hsearch, hi⟩
    · exact done (run_remove_absent hsearch) (run_remove_absent ((h.search k).trans hsearch)) h
    · obtain ⟨t', u', ht, hu, h'⟩ := h.exists_deleted hi
      exact done (run_remove hsearch ht) (run_remove ((h.search k).trans hsearch) hu) h'
  | delete i =>
    cases hi : t.entryAt? i with
    | none => exact done (run_delete_stale hi) (run_delete_stale ((h.entryAt? i).trans hi)) h
    | some e =>
      obtain ⟨t', u', ht, hu, h'⟩ := h.exists_deleted hi
      exact done ht hu h'
  | modify k f =>
    rcases h.sound.search_cases k with hsearch | ⟨i, e, hsearch, hi⟩
    · exact done (Act.look_then hsearch rfl) (Act.look_then ((h.search k).trans hsearch) rfl) h
    · have hi' := (h.entryAt? i).trans hi
      exact done (Act.look_then hsearch (Act.run_then (run_modifyValue hi f) rfl))
        (Act.look_then ((h.search k).trans hsearch) (Act.run_then (run_modifyValue hi' f) rfl))
        (h.edited hi (f e.2))
  | modifyAt i f =>
    cases hi : t.entryAt? i with
    | none =>
      exact done (run_modifyAt?_stale hi f) (run_modifyAt?_stale ((h.entryAt? i).trans hi) f) h
    | some e =>
      exact done (run_modifyAt? hi f) (run_modifyAt? ((h.entryAt? i).trans hi) f) (h.edited hi (f e.2))
  | replaceAt i v =>
    cases hi : t.entryAt? i with
    | none =>
      exact done (run_replaceAt?_stale hi v) (run_replaceAt?_stale ((h.entryAt? i).trans hi) v) h
    | some e =>
      exact done (run_replaceAt? hi v) (run_replaceAt? ((h.entryAt? i).trans hi) v) (h.edited hi v)
  | clear =>
    obtain ⟨hsound, hturns⟩ := h.sound.cleared
    obtain ⟨hsound', hturns'⟩ := h.sound'.cleared
    exact done (run_clear t) (run_clear u)
      (h.turned hsound hsound' hturns hturns' fun _ heq => nomatch heq)

theorem step (c : TreeChange K V α) (h : t.Mirrors u) :
    (c.step u).1 = (c.step t).1 ∧ (c.step t).2.Mirrors (c.step u).2 :=
  ⟨(treeChange h c).answer, (treeChange h c).mirrors⟩

end Edit.Mirrored

/-- Whatever changes are made to two trees, one with an order and one with its reverse, each of them gives
the same answer on both, and after it the items of one tree are those of the other, backwards. So the
ends and the steps between neighbors are exchanged, and the ends that an iterator takes from; a search
finds the same; and a bound in one tree is just before the other bound in the other tree. -/
theorem changes_mirrored (order : KeyOrder K) [Std.TransCmp order.compare] (w : Width)
    (changes : List (Σ α, TreeChange K V α)) :
    let t := after TreeChange.step changes (.empty order w)
    let u := after TreeChange.step changes (.empty (.reverse order) w)
    answers TreeChange.step changes (.empty (.reverse order) w) =
        answers TreeChange.step changes (.empty order w) ∧
      u.inorder = t.inorder.reverse ∧
      (u.first = t.last ∧ u.last = t.first) ∧
      (∀ h, u.successor h = t.predecessor h ∧ u.predecessor h = t.successor h) ∧
      (∀ ends, u.drawn (ends.map .other) = t.drawn ends) ∧
      (∀ k, u.search k = t.search k) ∧
      ∀ k, u.lowerBound k = (do t.lastBefore (← t.upperBound k)) ∧
        u.upperBound k = (do t.lastBefore (← t.lowerBound k)) := by
  obtain ⟨hanswers, h⟩ := answers_eq (r := fun u t => Tree.Mirrors t u)
    (fun c _ _ h => Edit.Mirrored.step c h) (Tree.mirrors_empty order w) changes
  exact ⟨hanswers, h.items, ⟨h.extreme .right, h.extreme .left⟩,
    fun i => ⟨h.neighbor .left i, h.neighbor .right i⟩, h.drawn, h.search,
    fun k => ⟨h.lowerBound k, h.upperBound k⟩⟩

theorem changes_mirrored_natural :
    let changes : List (Σ α, TreeChange Nat String α) :=
      [⟨_, .insert 2 "b"⟩, ⟨_, .insert 1 "a"⟩, ⟨_, .insert 3 "c"⟩, ⟨_, .delete ⟨1⟩⟩, ⟨_, .insert 3 "d"⟩]
    let u := after TreeChange.step changes (.empty (.reverse .natural) .halfWord)
    answers TreeChange.step changes (.empty (.reverse .natural) .halfWord) =
        [⟨Handle, .ok ⟨1⟩⟩, ⟨Handle, .ok ⟨2⟩⟩, ⟨Handle, .ok ⟨3⟩⟩, ⟨_, .ok (some (2, "b"))⟩,
          ⟨Handle, .error .duplicateKey⟩] ∧
      u.inorder = [(⟨3⟩, 3, "c"), (⟨2⟩, 1, "a")] ∧
      u.drawn [.left, .left, .left] = .ok [some (1, "a"), some (3, "c"), none] ∧
      u.lowerBound 2 = .ok (some ⟨2⟩) := by
  obtain ⟨hanswers, hitems, -, -, hdrawn, -, hbounds⟩ :=
    changes_mirrored (.natural : KeyOrder Nat) .halfWord
      [⟨_, .insert 2 "b"⟩, ⟨_, .insert 1 "a"⟩, ⟨_, .insert 3 "c"⟩, ⟨_, .delete ⟨1⟩⟩, ⟨_, .insert 3 "d"⟩]
  exact ⟨hanswers.trans rfl, hitems.trans (by decide +kernel),
    (hdrawn [.right, .right, .right]).trans (by decide +kernel),
    (hbounds 2).1.trans (by decide +kernel)⟩

end RedBlack
