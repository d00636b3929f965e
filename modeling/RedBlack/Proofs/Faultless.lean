import RedBlack.Proofs.Containers

/-! Containers without faults. Of all states that trees, maps and sets can come to, it is shown that no
operation finds a link, a key or a value missing, or a handle outside of the arena. -/
namespace RedBlack
variable {K V : Type}

section
variable [Text.Describe K] [Text.Describe V]

inductive Tree.Reached (order : KeyOrder K) (w : Width) : Tree K V → Prop
  | empty : Reached order w (.empty order w)
  | calls {t : Tree K V} (h : Reached order w t) (calls : List (Call K V)) :
      Reached order w (Client.run calls ⟨t, .nothing⟩).tree
  | command {t : Tree K V} (h : Reached order w t) (c : Command K V) :
      Reached order w (c.run.outcome t).2

inductive Map.Reached (strategy : Strategy) (order : KeyOrder K) : Map K V → Prop
  | empty : Reached strategy order (.empty strategy order)
  | calls {m : Map K V} (h : Reached strategy order m) (calls : List (Call K V)) :
      Reached strategy order { m with content := (Client.run calls ⟨m.content, .nothing⟩).tree }
  | command {m : Map K V} (h : Reached strategy order m) (c : MapCommand K V) :
      Reached strategy order (c.run.outcome m).2

inductive KeySet.Reached (strategy : Strategy) (order : KeyOrder K) : KeySet K → Prop
  | empty : Reached strategy order (.empty strategy order)
  | command {m : KeySet K} (h : Reached strategy order m) (c : SetCommand K) :
      Reached strategy order (c.run.outcome m).2

/-- Every question is answered, and so is every string of calls to an iterator, whose count of what
is left stays right, and to a range. A change is refused for want of room, or as a raw insertion of a key
that is there; so is a call, whatever is in hand, and what is in hand can be read. -/
structure Tree.Faultless (t : Tree K V) : Prop where
  ask : ∀ q : Query K, ∃ a, q.ask t = .ok a
  draws : ∀ ends, ∃ i es j, Iter.ofTree t = .ok i ∧ i.draws ends = .ok (es, j) ∧
    j.remaining + es.countP Option.isSome = t.size
  range : ∀ k n, ∃ r es, Range.startingAt t k = .ok r ∧ r.answers n = .ok es
  traverse : ∀ (β : Type) (visit : β → K → V → Bool × β) (b : β),
    ∃ b', (t.traverse (fun b k v => (return visit b k v : Act Unit _)) b).run () = .ok b' ()
  change : ∀ (c : Change K V) e, (c.run.outcome t).1 = .error e → c.Refuses t e
  insertMany : ∀ items as f, ((Change.insertMany items).run.outcome t).1 = .ok (.many as) →
    .failed f ∈ as → f = .duplicateKey ∨ f = .arenaFull
  call : ∀ (calls : List (Call K V)) c e, let s := Client.run calls ⟨t, .nothing⟩
    (s.step c).1 = .error e → c.Refuses s.tree e
  entry : ∀ (calls : List (Call K V)) e, let s := Client.run calls ⟨t, .nothing⟩
    s.hold = .entry e → ∃ k, e.key s.tree = .ok k
  value : ∀ (calls : List (Call K V)) i, let s := Client.run calls ⟨t, .nothing⟩
    s.hold = .value i → ∃ e, s.tree.entryOf i = .ok e

structure Map.Faultless (m : Map K V) : Prop where
  tree : m.content.Faultless
  traverse : ∀ (β : Type) (visit : β → K → V → Bool × β) (b : β),
    ∃ b', (Map.traverse (fun b k v => (return visit b k v)) b).outcome m = (.ok b', m)

theorem Tree.Sound.faultless {t : Tree K V} (hs : t.Sound) : t.Faultless := by
  have hclient (calls : List (Call K V)) : (Client.run calls ⟨t, .nothing⟩).Stands :=
    Client.Stands.run (s := ⟨t, .nothing⟩) ⟨hs, trivial⟩ calls
  refine ⟨fun q => ?_, fun ends => ?_, fun k n => ?_, fun β visit b => ?_, fun c e => ?_,
    fun items as f has hf => ?_, fun calls c => ((hclient calls).step c).2, fun calls e he => ?_,
    fun calls i hi => ?_⟩
  · obtain ⟨a, ha, -⟩ := hs.answers_ask q
    exact ⟨a, ha⟩
  · obtain ⟨i, hi, hspans⟩ := hs.exists_iter
    obtain ⟨j, hj, hspans'⟩ := hspans.draws ends
    refine ⟨i, _, j, hi, hj, ?_⟩
    have hcount : (fun e : Option (Handle × K × V) => (e.map Prod.snd).isSome) = Option.isSome :=
      funext fun e => Option.isSome_map
    rw [hspans'.remaining, List.countP_map, Function.comp_def, hcount, Side.length_takes, hs.size_eq]
  · obtain ⟨r, hr, hanswers⟩ := hs.range_answers_startingAt k n
    exact ⟨r, _, hr, hanswers⟩
  · obtain ⟨b', hb'⟩ := hs.exists_traverse (σ := Unit) visit b
    exact ⟨b', hb' ()⟩
  · exact (Change.ends_run hs c).allowed
  · obtain ⟨as', heq, hfailed⟩ :=
      (Change.ends_insertMany (E := fun _ => True) hs items).holds has
    obtain rfl := Answer.many.inj heq
    exact hfailed f hf
  · have hstands := (hclient calls).hold
    rw [he] at hstands
    obtain ⟨k, hk, -⟩ := Entry.Stands.answers_key hstands (hclient calls).sound
    exact ⟨k, hk⟩
  · have hstands := (hclient calls).hold
    rw [hi] at hstands
    obtain ⟨e, he, -⟩ := (hclient calls).sound.answers_entryAt hstands
    exact ⟨e, he⟩

theorem Map.Rests.faultless {m : Map K V} {strategy : Strategy} (h : m.Rests strategy) :
    Map.Faultless m := by
  refine ⟨h.content.faultless, fun β visit b => ?_⟩
  obtain ⟨b', hb'⟩ := h.content.exists_traverse (σ := Map K V) visit b
  exact ⟨b', Act.outcome_ok (Lock.run_read_quiet (x := .ok b') h.not_exclusive fun _ => hb' _)⟩

theorem Tree.Reached.sound {order : KeyOrder K} [hc : Std.TransCmp order.compare] {w : Width}
    {t : Tree K V} (h : t.Reached order w) : t.Sound := by
  induction h with
  | empty => exact (holds_empty order w).sound hc
  | calls _ cs ih => exact (Client.Stands.run (s := ⟨_, .nothing⟩) ⟨ih, trivial⟩ cs).sound
  | command _ c ih => exact (Command.ends_run ih c []).kept

theorem Map.Reached.rests {strategy : Strategy} {order : KeyOrder K} [Std.TransCmp order.compare]
    {m : Map K V} (h : m.Reached strategy order) : m.Rests strategy := by
  induction h with
  | empty => exact rests_empty strategy order
  | calls _ cs ih =>
    have hsound := (Client.Stands.run (s := ⟨_, .nothing⟩) ⟨ih.content, trivial⟩ cs).sound
    exact ⟨hsound, ih.strategy_eq, ih.borrow_eq⟩
  | command _ c ih => exact (c.ends_run ih).kept

end

theorem KeySet.Reached.rests [Text.Describe K] {strategy : Strategy} {order : KeyOrder K}
    [Std.TransCmp order.compare] {m : KeySet K} (h : KeySet.Reached strategy order m) :
    Map.Rests strategy m := by
  induction h with
  | empty => exact Map.rests_empty strategy order
  | command _ c ih => exact (c.ends_run ih).kept

/-- No tree, map or set that can be reached has a fault. A command to a map fails for want of room, at a
raw insertion that it passes on to the tree and that comes when the key is there, or since it is called
from within; the map's own insertions find out about the key. A command to a set fails for want of room
only. -/
theorem faultless_of_reached [Text.Describe K] [Text.Describe V] (order : KeyOrder K)
    [Std.TransCmp order.compare] :
    (∀ (w : Width) (t : Tree K V), t.Reached order w → t.Faultless) ∧
      (∀ (strategy : Strategy) (m : Map K V), m.Reached strategy order → m.Faultless ∧
        ∀ (c : MapCommand K V) e, (c.run.outcome m).1 = .error e →
          c.Refuses m e ∧ (c.bare = [] → e ≠ .duplicateKey)) ∧
      ∀ (strategy : Strategy) (m : KeySet K), m.Reached strategy order → Map.Faultless m ∧
        ∀ (c : SetCommand K) e, (c.run.outcome m).1 = .error e → e = .arenaFull := by
  refine ⟨fun w t h => h.sound.faultless, fun strategy m h => ?_, fun strategy m h => ?_⟩
  · refine ⟨h.rests.faultless, fun c e he => ?_⟩
    have hrefuses := (c.ends_run h.rests).allowed he
    exact ⟨hrefuses, hrefuses.ne_duplicateKey⟩
  · exact ⟨h.rests.faultless, fun c e => (c.ends_run h.rests).allowed⟩

theorem faultless_of_reached_natural :
    let t := ((Client.fresh .natural .halfWord : Client Int64 String).run
      [.insert 2 "b", .insert 1 "a", .delete ⟨1⟩]).tree
    let m := ((MapCommand.insert 1 "a").run.outcome
      (.empty .unsynchronized .natural : Map Int64 String)).2
    let s := ((SetCommand.insert 1).run.outcome (.empty .synchronized .natural : KeySet Int64)).2
    (∃ a, (Query.successor ⟨1⟩).ask t = .ok a) ∧
      (((Change.insert 1 "c").run.outcome t).1 = .error .duplicateKey ∧
        (Change.insert 1 "c").Refuses t .duplicateKey) ∧
      (∀ e, ((MapCommand.insert 1 "c").run.outcome m).1 = .error e → e ≠ .duplicateKey) ∧
      ∀ e, ((SetCommand.extend [1, 1, 2]).run.outcome s).1 = .error e → e = .arenaFull := by
  obtain ⟨htree, hmap, hset⟩ := faultless_of_reached (V := String) (.natural : KeyOrder Int64)
  have ht := htree .halfWord _ (.calls .empty [.insert 2 "b", .insert 1 "a", .delete ⟨1⟩])
  have hm := hmap .unsynchronized _ (.command .empty (.insert 1 "a"))
  have hs := hset .synchronized _ (.command .empty (.insert 1))
  exact ⟨ht.ask _, ⟨rfl, ht.change _ _ rfl⟩, fun e he => (hm.2 _ e he).2 rfl, hs.2 _⟩

end RedBlack
