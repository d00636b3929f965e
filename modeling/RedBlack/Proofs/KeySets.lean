import RedBlack.KeySet
import RedBlack.Proofs.Bulk

/-! Sets of keys. A set answers as a list of keys that increase, in which of keys that compare equal the
first one stays. It is also, slot by slot, the map in which the same keys were inserted with values that
say nothing. -/
namespace RedBlack
variable {K V α β : Type}

/-! ### Lists of keys -/

namespace Keys

def find? (order : KeyOrder K) (k : K) (l : List K) : Option K :=
  l.find? fun x => order.compare k x == .eq

def insert (order : KeyOrder K) (k : K) : List K → List K
  | [] => [k]
  | x :: l => if order.compare k x = .lt then k :: x :: l else x :: insert order k l

def erase (order : KeyOrder K) (k : K) (l : List K) : List K :=
  l.filter fun x => order.compare k x ≠ .eq

abbrev Result (K α : Type) := Except Failure α × List K

/-- Adds a key if none that compares equal is there, and says whether it did. It is refused where handles
of the width have no room for another key. -/
def add (order : KeyOrder K) (w : Width) (k : K) (l : List K) : Result K Bool :=
  match find? order k l with
  | some _ => (.ok false, l)
  | none =>
    if w.limited && decide (w.max ≤ l.length + 1) then (.error .arenaFull, l)
    else (.ok true, insert order k l)

def addAll (order : KeyOrder K) (w : Width) : List K → List K → Result K Unit
  | [], l => (.ok (), l)
  | k :: ks, l =>
    match add order w k l with
    | (.ok _, l') => addAll order w ks l'
    | (.error e, l') => (.error e, l')

def entries (l : List K) : List (K × Unit) := l.map fun k => (k, ())

variable {order : KeyOrder K} {k : K} {l : List K}

theorem map_fst_entries (l : List K) : (entries l).map Prod.fst = l := by
  rw [entries, List.map_map]
  exact List.map_id l

theorem length_entries (l : List K) : (entries l).length = l.length := List.length_map ..

theorem find?_entries (k : K) (l : List K) :
    Assoc.find? order k (entries l) = (find? order k l).map fun x => (x, ()) := List.find?_map ..

theorem insert_entries (k : K) (l : List K) :
    Assoc.insert order k () (entries l) = entries (insert order k l) := by
  induction l with
  | nil => rfl
  | cons x l ih =>
    rw [entries, List.map_cons, ← entries, Assoc.insert, ih, insert]
    split <;> rfl

theorem overwrite_entries (k : K) (l : List K) :
    Assoc.overwrite order k () (entries l) = entries l := by
  rw [Assoc.overwrite]
  refine (List.map_congr_left fun e _ => ?_).trans (List.map_id _)
  split <;> rfl

theorem erase_entries (k : K) (l : List K) :
    Assoc.erase order k (entries l) = entries (erase order k l) := List.filter_map ..

end Keys

/-! ### Calls -/

inductive SetCall (K : Type) : Type → Type 1 where
  | insert (k : K) : SetCall K Bool
  | remove (k : K) : SetCall K Bool
  | contains (k : K) : SetCall K Bool
  | first : SetCall K (Option K)
  | last : SetCall K (Option K)
  | lowerBound (k : K) : SetCall K (Option K)
  | upperBound (k : K) : SetCall K (Option K)
  | size : SetCall K Nat
  | isEmpty : SetCall K Bool
  | clear : SetCall K Unit
  | extend (ks : List K) : SetCall K Unit
  | toList : SetCall K (List K)

namespace SetCall

def onSet : SetCall K α → Act (KeySet K) α
  | insert k => KeySet.insert k
  | remove k => KeySet.remove k
  | contains k => KeySet.contains k
  | first => KeySet.first?
  | last => KeySet.last?
  | lowerBound k => KeySet.lowerBound? k
  | upperBound k => KeySet.upperBound? k
  | size => KeySet.size
  | isEmpty => KeySet.isEmpty
  | clear => KeySet.clear
  | extend ks => KeySet.extend ks
  | toList => KeySet.toList

/-- The same on a map: a key is inserted as one with a value that says nothing, and keys one by one. -/
def onMap : SetCall K α → Act (Map K Unit) α
  | insert k => do return (← Map.insert k ()).isNone
  | remove k => do return (← Map.remove k).isSome
  | contains k => Map.contains k
  | first => do return (← Map.first?).map Prod.fst
  | last => do return (← Map.last?).map Prod.fst
  | lowerBound k => do return (← Map.lowerBound? k).map Prod.fst
  | upperBound k => do return (← Map.upperBound? k).map Prod.fst
  | size => Map.size
  | isEmpty => Map.isEmpty
  | clear => Map.clear
  | extend ks => Map.insertAll (Keys.entries ks)
  | toList => do return (← Map.toList).map Prod.fst

def onKeys (order : KeyOrder K) (w : Width) : SetCall K α → List K → Keys.Result K α
  | insert k, l => Keys.add order w k l
  | remove k, l => (.ok (Keys.find? order k l).isSome, Keys.erase order k l)
  | contains k, l => (.ok (Keys.find? order k l).isSome, l)
  | first, l => (.ok l.head?, l)
  | last, l => (.ok l.getLast?, l)
  | lowerBound k, l => (.ok (l.find? fun x => order.compare x k != .lt), l)
  | upperBound k, l => (.ok (l.find? fun x => order.compare x k == .gt), l)
  | size, l => (.ok l.length, l)
  | isEmpty, l => (.ok l.isEmpty, l)
  | clear, _ => (.ok (), [])
  | extend ks, l => Keys.addAll order w ks l
  | toList, l => (.ok l, l)

def stepSet (c : SetCall K α) (s : KeySet K) : Except Failure α × KeySet K := c.onSet.outcome s

def stepMap (c : SetCall K α) (m : Map K Unit) : Except Failure α × Map K Unit := c.onMap.outcome m

end SetCall

/-! ### Maps seen by their lists -/

namespace Tree.Lists
variable {t : Tree K V} {order : KeyOrder K} {w : Width} {l : List (K × V)}

theorem bind_entryAt? (h : t.Lists order w l) {p : Handle × K × V → Bool} {q : K × V → Bool}
    (hpq : ∀ x, p x = q x.2) :
    ((t.inorder.find? p).map Prod.fst).bind t.entryAt? = l.find? q := by
  rw [← h.entries, List.find?_map, show q ∘ Prod.snd = p from (funext hpq).symm]
  cases hfind : t.inorder.find? p with
  | none => rfl
  | some x => exact h.sound.entryAt?_eq_some_iff.2 (List.mem_of_find?_eq_some hfind)

end Tree.Lists

namespace Map
variable {m : Map K V} {order : KeyOrder K} {l : List (K × V)}

theorem Lists.rests (h : m.Lists order l) : m.Rests m.strategy := ⟨h.tree.sound, rfl, h.idle⟩

theorem Meets.map {act : Act (Map K V) α} {r : Assoc.Result K V α} (f : α → β)
    (h : Meets act m order r) : Meets (do return f (← act)) m order (r.1.map f, r.2) := by
  constructor <;> rw [Act.outcome_map]
  · rw [h.answer]
  · exact h.lists

theorem Meets.lowerBound? (h : m.Lists order l) (k : K) :
    Meets (Map.lowerBound? k) m order (.ok (l.find? fun e => order.compare e.1 k != .lt), l) := by
  obtain rfl := h.tree.order
  apply Meets.query h
  refine Act.ok_then (h.tree.sound.lowerBound k) (congrArg Except.ok ?_)
  exact h.tree.bind_entryAt? fun x => rfl

theorem Meets.upperBound? (h : m.Lists order l) (k : K) :
    Meets (Map.upperBound? k) m order (.ok (l.find? fun e => order.compare e.1 k == .gt), l) := by
  obtain rfl := h.tree.order
  apply Meets.query h
  refine Act.ok_then (h.tree.sound.upperBound k) (congrArg Except.ok ?_)
  exact h.tree.bind_entryAt? fun x => rfl

theorem Meets.toList (h : m.Lists order l) : Meets Map.toList m order (.ok l, l) := by
  apply Meets.query h
  rw [h.tree.sound.toList, h.tree.entries]

end Map

/-! ### Sets -/

namespace Edit

def addKey (k : K) : Edit K Unit Bool := do
  if ← Act.look (·.contains k) then return false
  else
    let _ ← insert k ()
    return true

end Edit

namespace Tree

theorem edited_unit (t : Tree K Unit) (i : Handle) : t.edited i () = t := by
  have hslot (s : Slot K Unit) : s.withValue () = s := by
    obtain ⟨left, right, parent, color, entry⟩ := s
    cases entry <;> rfl
  have harena : t.arena.modify i (Slot.withValue ()) = t.arena := by
    refine Arena.ext_slot? (Arena.free_modify ..) fun j => ?_
    rw [Arena.slot?_modify, show Slot.withValue () = id from funext hslot, Option.map_id]
    exact ite_self _
  rw [edited, put, harena]

/-- A set looks whether the key is there and inserts it only if not; a map looks for its entry and writes
the value over. The values being alike, the writing changes nothing. -/
theorem Sound.run_addKey {t : Tree K Unit} (hs : t.Sound) (k : K) :
    (Edit.addKey k).run t = (do return (← Edit.assign k ()).isNone : Edit K Unit Bool).run t := by
  rw [EStateM.run_bind]
  rcases hs.search_cases k with hk | ⟨i, e, hk, hi⟩
  · have hcontains : t.contains k = .ok false := Act.ok_then hk rfl
    have hadd : (Edit.addKey k).run t =
        (do let _ ← Edit.insert k ()
            return true : Edit K Unit Bool).run t := Act.look_then hcontains rfl
    have hassign : (Edit.assign k ()).run t =
        (do let _ ← Edit.insert k ()
            return none : Edit K Unit (Option Unit)).run t := Act.look_then hk rfl
    rw [hadd, hassign, EStateM.run_bind, EStateM.run_bind]
    cases (Edit.insert k ()).run t <;> rfl
  · have hcontains : t.contains k = .ok true := Act.ok_then hk rfl
    have hadd : (Edit.addKey k).run t = .ok false t := Act.look_then hcontains rfl
    have hassign : (Edit.assign k ()).run t = .ok (some e.2) (t.edited i ()) :=
      Act.look_then hk (run_replaceAt? hi ())
    rw [hadd, hassign, edited_unit]
    rfl

end Tree

namespace KeySet
variable {s : KeySet K} {order : KeyOrder K} {l : List K}

def Lists (s : KeySet K) (order : KeyOrder K) (l : List K) : Prop :=
  Map.Lists s order (Keys.entries l)

structure Meets (act : Act (KeySet K) α) (s : KeySet K) (order : KeyOrder K) (r : Keys.Result K α) :
    Prop where
  answer : (act.outcome s).1 = r.1
  lists : Lists (act.outcome s).2 order r.2

theorem run_insert (h : Lists s order l) (k : K) :
    (KeySet.insert k).run s = (SetCall.insert k).onMap.run s := by
  have hrests := Map.Lists.rests h
  have hset : (KeySet.insert k).run s = (Lock.within (Edit.addKey k)).run s :=
    Lock.run_update hrests.borrow_eq _
  have hmap : (Map.insert k ()).run s = (Lock.within (Edit.assign k ())).run s :=
    Lock.run_update hrests.borrow_eq _
  rw [hset, SetCall.onMap, EStateM.run_bind, hmap, Lock.run_within, Lock.run_within,
    hrests.content.run_addKey, EStateM.run_bind]
  cases (Edit.assign k ()).run s.content <;> rfl

theorem run_eq_onMap (h : Lists s order l) (c : SetCall K α) : c.onSet.run s = c.onMap.run s := by
  cases c with
  | insert k => exact run_insert h k
  | extend ks => exact (Map.Lists.rests h).run_extend (Keys.entries ks)
  | toList =>
    have hborrow := (Map.Lists.rests h).not_exclusive
    rw [SetCall.onSet, SetCall.onMap, KeySet.toList, Map.toList, EStateM.run_bind,
      Lock.run_query hborrow, Lock.run_query hborrow, Act.run_look, Act.run_look, Tree.keys]
    cases s.content.toList <;> rfl
  | remove k | contains k | first | last | lowerBound k | upperBound k | size | isEmpty | clear => rfl

theorem Meets.of_map {f : β → α} {act : Act (Map K Unit) β} {q : Assoc.Result K Unit β}
    {r : Keys.Result K α} (h : Map.Meets act s order q) (hanswer : q.1.map f = r.1)
    (hkeys : q.2 = Keys.entries r.2) : Meets (do return f (← act)) s order r := by
  obtain ⟨hanswer', hlists⟩ := h.map f
  refine ⟨hanswer'.trans hanswer, ?_⟩
  rw [Lists, ← hkeys]
  exact hlists

theorem Meets.of_eq {act : Act (Map K Unit) α} {q : Assoc.Result K Unit α} {r : Keys.Result K α}
    (h : Map.Meets act s order q) (hanswer : q.1 = r.1) (hkeys : q.2 = Keys.entries r.2) :
    Meets act s order r := by
  refine ⟨h.answer.trans hanswer, ?_⟩
  rw [Lists, ← hkeys]
  exact h.lists

theorem Meets.bind {act : Act (KeySet K) β} {next : Act (KeySet K) α} {r : Keys.Result K β}
    {q : Keys.Result K α} (h : Meets act s order r)
    (hok : ∀ b l', r = (.ok b, l') → ∀ s', Lists s' order l' → Meets next s' order q)
    (herror : ∀ e l', r = (.error e, l') → q = (.error e, l')) :
    Meets (act >>= fun _ => next) s order q := by
  obtain ⟨answer, l'⟩ := r
  obtain ⟨hanswer, hlists⟩ := h
  unfold Act.outcome at hanswer hlists
  cases hrun : act.run s with
  | ok b s' =>
    rw [hrun] at hanswer hlists
    obtain rfl : .ok b = answer := hanswer
    obtain ⟨hanswer', hlists'⟩ := hok b l' rfl s' hlists
    have hnext : (act >>= fun _ => next).run s = next.run s' := Act.run_then hrun rfl
    constructor <;> rw [Act.outcome, hnext, ← Act.outcome]
    · exact hanswer'
    · exact hlists'
  | error e s' =>
    rw [hrun] at hanswer hlists
    obtain rfl : .error e = answer := hanswer
    have hend : (act >>= fun _ => next).run s = .error e s' := Act.fail_then hrun
    constructor <;> rw [Act.outcome_error hend, herror e l' rfl]
    exact hlists

theorem Meets.insert (h : Lists s order l) (k : K) :
    Meets (SetCall.insert k).onMap s order (Keys.add order .halfWord k l) := by
  refine .of_map (Map.Meets.mapCall h (.insert k ())) ?_ ?_ <;>
    rw [MapCall.onList, Keys.find?_entries, Keys.add]
  · cases Keys.find? order k l with
    | some x => rfl
    | none =>
      rw [Option.map_none, Assoc.add, Keys.length_entries]
      dsimp only
      split <;> rfl
  · cases Keys.find? order k l with
    | some x => exact Keys.overwrite_entries k l
    | none =>
      rw [Option.map_none, Assoc.add, Keys.length_entries]
      dsimp only
      split
      · rfl
      · exact Keys.insert_entries k l

theorem Meets.extend (h : Lists s order l) (ks : List K) :
    Meets (SetCall.extend ks).onMap s order (Keys.addAll order .halfWord ks l) := by
  induction ks generalizing s l with
  | nil => exact ⟨rfl, h⟩
  | cons k ks ih =>
    have hcons : (SetCall.extend (k :: ks)).onMap =
        (SetCall.insert k).onMap >>= fun _ => (SetCall.extend ks).onMap := by
      simp only [SetCall.onMap, Map.insertAll, Keys.entries, List.map_cons, bind_assoc, pure_bind,
        List.forM]
    rw [hcons]
    refine (Meets.insert h k).bind (fun b l' hadd s' h' => ?_) fun e l' hadd => ?_
    · rw [Keys.addAll, hadd]
      exact ih h'
    · rw [Keys.addAll, hadd]

theorem Meets.setCall (h : Lists s order l) (c : SetCall K α) :
    Meets c.onMap s order (c.onKeys order .halfWord l) := by
  cases c with
  | insert k => exact Meets.insert h k
  | extend ks => exact Meets.extend h ks
  | remove k =>
    refine .of_map (Map.Meets.mapCall h (.remove k)) ?_ (Keys.erase_entries k l)
    rw [MapCall.onList, Keys.find?_entries, SetCall.onKeys]
    cases Keys.find? order k l <;> rfl
  | contains k =>
    refine .of_eq (Map.Meets.ask h (.contains k)) ?_ rfl
    rw [Ask.onList, Keys.find?_entries, Option.isSome_map, SetCall.onKeys]
  | first =>
    refine .of_map (Map.Meets.ask h .first) ?_ rfl
    rw [Ask.onList, Except.map, ← List.head?_map, Keys.map_fst_entries, SetCall.onKeys]
  | last =>
    refine .of_map (Map.Meets.ask h .last) ?_ rfl
    rw [Ask.onList, Except.map, ← List.getLast?_map, Keys.map_fst_entries, SetCall.onKeys]
  | lowerBound k =>
    refine .of_map (Map.Meets.lowerBound? h k) ?_ rfl
    rw [Except.map, Keys.entries, List.find?_map, Option.map_map]
    exact congrArg Except.ok Option.map_id'
  | upperBound k =>
    refine .of_map (Map.Meets.upperBound? h k) ?_ rfl
    rw [Except.map, Keys.entries, List.find?_map, Option.map_map]
    exact congrArg Except.ok Option.map_id'
  | size => exact .of_eq (Map.Meets.ask h .size) (congrArg Except.ok (Keys.length_entries l)) rfl
  | isEmpty => exact .of_eq (Map.Meets.ask h .isEmpty) (by cases l <;> rfl) rfl
  | clear => exact .of_eq (Map.Meets.mapCall h .clear) rfl rfl
  | toList =>
    exact .of_map (Map.Meets.toList h) (congrArg Except.ok (Keys.map_fst_entries l)) rfl

theorem step_eq_stepMap (h : Lists s order l) (c : SetCall K α) : c.stepSet s = c.stepMap s :=
  Act.outcome_congr (run_eq_onMap h c)

theorem step (h : Lists s order l) (c : SetCall K α) :
    (c.stepSet s).1 = (c.onKeys order .halfWord l).1 ∧
      Lists (c.stepSet s).2 order (c.onKeys order .halfWord l).2 := by
  rw [step_eq_stepMap h c]
  exact ⟨(Meets.setCall h c).answer, (Meets.setCall h c).lists⟩

theorem outcome_toList (h : Lists s order l) : KeySet.toList.outcome s = (.ok l, s) := by
  rw [outcome_toList_of_rests (Map.Lists.rests h), h.tree.entries, Keys.map_fst_entries]

theorem lists_empty (strategy : Strategy) (order : KeyOrder K) [Std.TransCmp order.compare] :
    Lists (KeySet.empty strategy order) order [] := Map.lists_empty strategy order

theorem Lists.increasing (h : Lists s order l) : l.Pairwise fun a b => order.compare a b = .lt := by
  rw [← Keys.map_fst_entries l]
  exact List.Pairwise.map _ (fun _ _ hab => hab) h.tree.increasing

end KeySet

/-- Whatever is called on a set, and in whatever order: its answers are those of a list of keys that
increase, to which a key is added if none that compares equal is there, so that the key that came first
stays; and the set gives that list out. After each call the set is the map on which the same was done with
the key inserted as one of a map, down to the last slot, the free slots and the log. -/
theorem set_refines_keys_and_map (strategy : Strategy) (order : KeyOrder K)
    [Std.TransCmp order.compare] (calls : List (Σ α, SetCall K α)) :
    let s := after SetCall.stepSet calls (KeySet.empty strategy order)
    let l := after (SetCall.onKeys order .halfWord) calls []
    answers SetCall.stepSet calls (KeySet.empty strategy order) =
        answers (SetCall.onKeys order .halfWord) calls [] ∧
      KeySet.toList.outcome s = (.ok l, s) ∧
      l.Pairwise (fun a b => order.compare a b = .lt) ∧
      answers SetCall.stepSet calls (KeySet.empty strategy order) =
        answers SetCall.stepMap calls (Map.empty strategy order) ∧
      s = after SetCall.stepMap calls (Map.empty strategy order) := by
  intro s l
  have hempty := KeySet.lists_empty strategy order
  obtain ⟨hanswers, hlists⟩ := answers_eq (r := fun s l => KeySet.Lists s order l)
    (fun c _ _ h => KeySet.step h c) hempty calls
  have hstep {α : Type} (c : SetCall K α) {s m : KeySet K} (h : s = m ∧ ∃ l, KeySet.Lists s order l) :
      (c.stepSet s).1 = (c.stepMap m).1 ∧ (c.stepSet s).2 = (c.stepMap m).2 ∧
        ∃ l, KeySet.Lists (c.stepSet s).2 order l := by
    obtain ⟨rfl, l, h⟩ := h
    rw [← KeySet.step_eq_stepMap h c]
    exact ⟨rfl, rfl, _, (KeySet.step h c).2⟩
  obtain ⟨hmap, heq, -⟩ := answers_eq hstep ⟨rfl, [], hempty⟩ calls
  exact ⟨hanswers, KeySet.outcome_toList hlists, hlists.increasing, hmap, heq⟩

theorem set_refines_keys_and_map_allEqual :
    let calls : List (Σ α, SetCall Nat α) :=
      [⟨_, .insert 1⟩, ⟨_, .insert 2⟩, ⟨_, .extend [3, 4]⟩, ⟨_, .lowerBound 5⟩, ⟨_, .toList⟩,
        ⟨_, .remove 6⟩, ⟨_, .size⟩]
    answers SetCall.stepSet calls (KeySet.empty .unsynchronized .allEqual) =
        [⟨Bool, .ok true⟩, ⟨_, .ok false⟩, ⟨_, .ok ()⟩, ⟨_, .ok (some 1)⟩, ⟨_, .ok [1]⟩, ⟨_, .ok true⟩,
          ⟨_, .ok 0⟩] ∧
      after SetCall.stepSet calls (KeySet.empty .unsynchronized .allEqual) =
        after SetCall.stepMap calls (Map.empty .unsynchronized .allEqual) := by
  intro calls
  obtain ⟨hanswers, -, -, -, hmap⟩ := set_refines_keys_and_map .unsynchronized .allEqual calls
  exact ⟨hanswers.trans rfl, hmap⟩

end RedBlack
