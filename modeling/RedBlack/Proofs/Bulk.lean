import RedBlack.Proofs.Entries

/-! Many insertions at once. A map that is given a list of pairs looks for the entry of each and fills it,
which comes to the same as to insert the pairs one by one. -/
namespace RedBlack
open Text
variable {K V α : Type}

namespace Edit

def assign (k : K) (v : V) : Edit K V (Option V) := do
  match ← Act.look (·.search k) with
  | some h => replaceAt? h v
  | none =>
    let _ ← insert k v
    return none

def extendBy (e : K × V) : Edit K V Unit := do
  let _ ← upsert (← Act.look (·.entry e.1)) e.2

end Edit

namespace Tree.Sound
variable {t : Tree K V}

theorem run_upsert (hs : t.Sound) (k : K) (v : V) :
    (Edit.withEntry k (Edit.upsert · v)).run t = (Edit.assign k v).run t := by
  rcases hs.search_cases k with hk | ⟨i, e, hk, hi⟩
  · rw [run_withEntry (entry_eq_vacant_iff.2 ⟨hk, rfl⟩)]
    have hassign : (Edit.assign k v).run t = (Edit.upsert (.vacant k) v).run t := Act.look_then hk rfl
    exact hassign.symm
  · rw [run_withEntry (entry_eq_occupied_iff.2 hk)]
    have hassign : (Edit.assign k v).run t = .ok (some e.2) (t.edited i v) :=
      Act.look_then hk (run_replaceAt? hi v)
    exact (Act.run_then (run_replaceValue hi v) rfl).trans hassign.symm

theorem run_extendBy (hs : t.Sound) (e : K × V) :
    (Edit.extendBy e).run t = (do let _ ← Edit.assign e.1 e.2 : Edit K V Unit).run t := by
  rw [EStateM.run_bind, ← hs.run_upsert e.1 e.2, ← EStateM.run_bind, Edit.withEntry, bind_assoc]
  rfl

end Tree.Sound

namespace Tree.Lists
variable {t : Tree K V} {order : KeyOrder K} {w : Width} {l : List (K × V)}

theorem run_extendBy (h : t.Lists order w l) (e : K × V) :
    (∃ t', (Edit.extendBy e).run t = .ok () t' ∧ t'.Lists order w (Assoc.put order e.1 e.2 l)) ∨
      (Edit.extendBy e).run t = .error .arenaFull t ∧ w.limited = true ∧ w.max ≤ l.length + 1 := by
  rw [h.sound.run_extendBy e, Assoc.put]
  cases hf : Assoc.find? order e.1 l with
  | some d =>
    obtain ⟨i, hi, hsearch, hentry⟩ := h.exists_handle hf
    have hassign : (Edit.assign e.1 e.2).run t = .ok (some d.2) (t.edited i e.2) :=
      Act.look_then hsearch (run_replaceAt? hentry e.2)
    exact .inl ⟨_, Act.run_then hassign rfl, h.overwritten hi e.2⟩
  | none =>
    have hsearch := h.search_none hf
    have hassign : (Edit.assign e.1 e.2).run t =
        (do let _ ← Edit.insert e.1 e.2
            return none : Edit K V (Option V)).run t := Act.look_then hsearch rfl
    by_cases hfull : t.stock.Exhausted t.width
    · have hroom := h.exhausted_iff.1 hfull
      rw [Bool.and_eq_true, decide_eq_true_eq] at hroom
      have hinsert := h.sound.run_insert_full (h.sound.not_has hsearch) hfull e.2
      exact .inr ⟨Act.fail_then (hassign.trans (Act.fail_then hinsert)), hroom⟩
    · have hadd := Edit.Meets.add h hf e.2 (none : Option V)
      rw [Assoc.add, if_neg fun hlimit => hfull (h.exhausted_iff.2 hlimit)] at hadd
      obtain ⟨t', hrun, hlists⟩ := hadd.exists_run
      exact .inl ⟨t', Act.run_then (hassign.trans hrun) rfl, hlists⟩

theorem outcome_extendBy (h : t.Lists order w l) (items : List (K × V)) :
    ∃ done rest, items = done ++ rest ∧
      ((items.forM Edit.extendBy).outcome t).2.Lists order w (Assoc.putAll order done l) ∧
      (((items.forM Edit.extendBy).outcome t).1 = .ok () ∧ rest = [] ∨
        ((items.forM Edit.extendBy).outcome t).1 = .error .arenaFull ∧ rest ≠ [] ∧ w.limited = true ∧
          w.max ≤ (Assoc.putAll order done l).length + 1) := by
  induction items generalizing t l with
  | nil => exact ⟨[], [], rfl, h, .inl ⟨rfl, rfl⟩⟩
  | cons e items ih =>
    rcases h.run_extendBy e with ⟨t', hrun, hlists⟩ | ⟨hfail, hroom⟩
    · obtain ⟨done, rest, rfl, hall⟩ := ih hlists
      have hnext : (((e :: (done ++ rest)).forM Edit.extendBy).run t) =
          ((done ++ rest).forM Edit.extendBy).run t' := Act.run_then hrun rfl
      refine ⟨e :: done, rest, rfl, ?_⟩
      rw [Act.outcome, hnext, ← Act.outcome]
      exact hall
    · have hend : ((e :: items).forM Edit.extendBy).run t = .error .arenaFull t := Act.fail_then hfail
      refine ⟨[], e :: items, rfl, ?_⟩
      rw [Act.outcome_error hend]
      exact ⟨h, .inr ⟨rfl, List.cons_ne_nil _ _, hroom⟩⟩

end Tree.Lists

namespace Map

def insertAll (items : List (K × V)) : Act (Map K V) Unit :=
  items.forM fun e => do let _ ← Map.insert e.1 e.2

variable {m : Map K V} {strategy : Strategy}

theorem Rests.run_insert (h : m.Rests strategy) (e : K × V) :
    (do let _ ← Map.insert e.1 e.2 : Act (Map K V) Unit).run m =
      (Lock.within (Edit.extendBy e)).run m := by
  have hinsert : (Map.insert e.1 e.2).run m = (Lock.within (Edit.assign e.1 e.2)).run m :=
    Lock.run_update h.borrow_eq _
  rw [EStateM.run_bind, hinsert, Lock.run_within, Lock.run_within, h.content.run_extendBy,
    EStateM.run_bind]
  cases (Edit.assign e.1 e.2).run m.content <;> rfl

theorem Rests.run_extend (h : m.Rests strategy) (items : List (K × V)) :
    (Map.extend items).run m = (insertAll items).run m := by
  -- The extension has the map to itself all along, an insertion from lock to lock; in between nobody is at
  -- the map, which carries the induction.
  induction items generalizing m with
  | nil => rfl
  | cons e items ih =>
    have hinsert := h.run_insert e
    have hkept := (Act.Ends.map (f := fun _ => ()) (ends_insert h e.1 e.2)).kept
    have hextend : (Map.extend (e :: items)).run m =
        (Lock.within (Edit.extendBy e >>= fun _ => items.forM Edit.extendBy)).run m := rfl
    rw [hextend, Lock.run_within]
    rw [Lock.run_within] at hinsert
    cases hrun : (Edit.extendBy e).run m.content with
    | ok a t =>
      rw [hrun] at hinsert
      rw [Act.outcome_ok hinsert] at hkept
      rw [Act.run_then hrun rfl]
      have hall : (insertAll (e :: items)).run m = (insertAll items).run { m with content := t } :=
        Act.run_then hinsert rfl
      exact (ih hkept).trans hall.symm
    | error f t =>
      rw [hrun] at hinsert
      rw [Act.fail_then hrun]
      have hall : (insertAll (e :: items)).run m = .error f { m with content := t } :=
        Act.fail_then hinsert
      exact hall.symm

theorem Rests.outcome_extend (h : m.Rests strategy) (items : List (K × V)) :
    (Map.extend items).outcome m = (((items.forM Edit.extendBy).outcome m.content).1,
      { m with content := ((items.forM Edit.extendBy).outcome m.content).2 }) := by
  have hextend : (Map.extend items).run m = (Lock.update (items.forM Edit.extendBy)).run m :=
    (Lock.run_update h.borrow_eq _).symm
  rw [Act.outcome_congr hextend, Lock.outcome_update h.borrow_eq]

def entries (m : Map K V) : List (K × V) := m.content.inorder.map Prod.snd

/-- The entries after pairs came to those of before. Their keys increase, so that of keys that compare equal
there is one; it is the one that came first, with the value that came last. -/
structure Gains (m m' : Map K V) (items : List (K × V)) : Prop where
  order : m'.content.order = m.content.order
  increasing : m'.entries.Pairwise fun a b => m.content.order.compare a.1 b.1 = .lt
  find : ∀ k, Assoc.find? m.content.order k m'.entries =
    Assoc.merged m.content.order k m.entries items
  size : m'.content.size ≤ m.content.size + items.length

theorem Rests.gains_extend (h : m.Rests strategy) (items : List (K × V)) :
    let r := (Map.extend items).outcome m
    ∃ done rest, items = done ++ rest ∧ m.Gains r.2 done ∧
      (r.1 = .ok () ∧ rest = [] ∨ r.1 = .error .arenaFull ∧ rest ≠ [] ∧
        m.content.width.limited = true ∧ m.content.width.max ≤ r.2.content.size + 1) := by
  have hlists := h.content.lists
  have := h.content.lawful
  obtain ⟨done, rest, hitems, hall, hend⟩ := hlists.outcome_extendBy items
  have hlength : (Assoc.putAll m.content.order done m.entries).length ≤ m.entries.length + done.length :=
    Assoc.length_putAll_le done
  rw [h.outcome_extend items]
  refine ⟨done, rest, hitems, ⟨hall.order, ?_, fun k => ?_, ?_⟩, ?_⟩
  · rw [entries, hall.entries]
    exact hall.increasing
  · rw [entries, hall.entries]
    exact Assoc.find?_putAll k done
  · rw [hall.size, hlists.size]
    exact hlength
  · rw [hall.size]
    exact hend

theorem Rests.extend_ok (h : m.Rests strategy) {items : List (K × V)}
    (hroom : m.content.width.limited = true →
      m.content.size + items.length < m.content.width.max) :
    ((Map.extend items).outcome m).1 = .ok () := by
  obtain ⟨done, rest, rfl, hgains, ⟨hok, -⟩ | ⟨-, hrest, hlimited, hmax⟩⟩ := h.gains_extend items
  · exact hok
  · have hlength := hroom hlimited
    have hsize := hgains.size
    have hpos := List.length_pos_of_ne_nil hrest
    rw [List.length_append] at hlength
    omega

end Map

/-- Whatever map is reached, and whatever pairs it is given: an extension and the insertion of the pairs one
by one end alike, and leave the same map, log and free slots among it. A map made of a list is the empty map
extended by it. Of each class of keys there is one entry then, as it came first, with the value that came
last, and the entries are in order; where there is no more room, this holds of the pairs before. -/
theorem extend_eq_insertAll [Describe K] [Describe V] (strategy : Strategy) (order : KeyOrder K)
    [Std.TransCmp order.compare] (m : Map K V) (h : m.Reached strategy order) (items : List (K × V)) :
    let r := (Map.extend items).outcome m
    (Map.extend items).run m = (Map.insertAll items).run m ∧
      Map.ofList strategy order items = ((Map.extend items).outcome (.empty strategy order)).2 ∧
      (∃ done rest, items = done ++ rest ∧ m.Gains r.2 done ∧
        (r.1 = .ok () ∧ rest = [] ∨ r.1 = .error .arenaFull ∧ rest ≠ [] ∧
          m.content.width.limited = true ∧ m.content.width.max ≤ r.2.content.size + 1)) ∧
      ((m.content.width.limited = true → m.content.size + items.length < m.content.width.max) →
        r.1 = .ok ()) := by
  have hrests := h.rests
  refine ⟨hrests.run_extend items, ?_, hrests.gains_extend items, hrests.extend_ok⟩
  show Map.ofList strategy order items = _
  unfold Map.ofList Act.outcome
  cases (Map.extend items).run (Map.empty strategy order) <;> rfl

theorem extend_eq_insertAll_allEqual :
    let m := ((MapCommand.insert 1 "a").run.outcome
      (.empty .unsynchronized .allEqual : Map Int64 String)).2
    let items : List (Int64 × String) := [(2, "b"), (3, "c")]
    (Map.extend items).run m = (Map.insertAll items).run m ∧
      ((Map.extend items).outcome m).1 = .ok () ∧
      (∃ done rest, items = done ++ rest ∧ m.Gains ((Map.extend items).outcome m).2 done) ∧
      ((Map.extend items).outcome m).2.entries = [(1, "c")] := by
  intro m items
  have hm : m.Reached .unsynchronized .allEqual := .command .empty (.insert 1 "a")
  obtain ⟨hrun, -, ⟨done, rest, hitems, hgains, -⟩, hroom⟩ :=
    extend_eq_insertAll .unsynchronized .allEqual m hm items
  exact ⟨hrun, hroom (by decide +kernel), ⟨done, rest, hitems, hgains⟩, by decide +kernel⟩

end RedBlack
