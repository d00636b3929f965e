import RedBlack.Proofs.Compounds
import RedBlack.Proofs.Work

/-! No repair is cut short. A rotation that finds no child to bring up is declined, and a repair that finds
no grandparent or no sibling is abandoned; both report it. Of all states that trees, maps and sets can come
to, it is shown that nothing of this kind has been reported, nor will be by an insertion or a deletion. -/
namespace RedBlack
variable {K V α β : Type}

open Act (Ends Preserves)

def Event.isEarlyExit : Event → Bool
  | .declined _ _ | .abandoned _ => true
  | _ => false

theorem Event.isEarlyExit_rotations (rs : List (Side × Handle)) :
    ∀ e ∈ rotations rs, e.isEarlyExit = false := by
  intro e he
  obtain ⟨r, -, rfl⟩ := List.mem_map.1 he
  rfl

namespace Edit

theorem vacate_silent (j : Array Event) (i : Handle) :
    Preserves (fun t : Tree K V => t.journal = j) (vacate i) := by
  refine .bind (.look _) fun e => .map (fun t ht => ?_) _
  by_cases hi : i.pos < t.arena.slots.size
  · rw [run_modifySlot _ hi]
    exact .answer ht trivial
  · rw [run_modifySlot_missing _ hi]
    exact .failure ht trivial

theorem drain_silent (j : Array Event) :
    Preserves (fun t : Tree K V => t.journal = j) (drain : Edit K V (List (K × V))) := by
  refine .bind (.look _) fun hs => .bind (.mapM (vacate_silent j) hs) fun _ => ?_
  exact .bind (fun t ht => .answer ht trivial) fun _ => .pure _

end Edit

namespace Tree

def LogsNoEarlyExit (t u : Tree K V) : Prop :=
  ∃ es : List Event, u.journal = t.journal ++ es.toArray ∧ ∀ e ∈ es, e.isEarlyExit = false

structure EarlyExitsReported (t : Tree K V) : Prop where
  childless : ∀ a x y, t.child a.other x = .ok y → t.isNil y = .ok true →
    (Edit.rotate a x).run t = .ok () (t.report [.declined a x])
  orphaned : ∀ z p g, t.parent z = .ok p → t.color p = .ok .red → t.parent p = .ok g →
    t.isNil g = .ok true → (Edit.liftRed z).run t = .ok (.done ()) (t.report [.abandoned z])
  unpaired : ∀ a x w, t.isNil w = .ok true →
    (Edit.shareLack a x w).run t = .ok (.done x) (t.report [.abandoned x])

structure NeverExitsEarly (t : Tree K V) : Prop where
  past : ∀ e ∈ t.journal, e.isEarlyExit = false
  insert : ∀ k v, t.LogsNoEarlyExit ((Edit.insert k v).outcome t).2
  delete : ∀ i, t.LogsNoEarlyExit ((Edit.delete i).outcome t).2

structure SoundNoExit (t : Tree K V) : Prop where
  sound : t.Sound
  past : ∀ e ∈ t.journal, e.isEarlyExit = false

variable {t u : Tree K V}

theorem earlyExitsReported (t : Tree K V) : t.EarlyExitsReported := by
  refine ⟨fun a x y hy hn => ?_, fun z p g hp hc hg hn => ?_, fun a x w hn => ?_⟩
  · exact Act.look_then hy (Act.look_then hn (Edit.run_note t _))
  · refine Act.look_then hp (Act.look_then hc (Act.look_then hg (Act.look_then hn ?_)))
    exact Act.run_then (Edit.run_note t _) rfl
  · exact Act.look_then hn (Act.run_then (Edit.run_note t _) rfl)

theorem LogsNoEarlyExit.of_eq (h : u.journal = t.journal) : t.LogsNoEarlyExit u :=
  ⟨[], h.trans Array.append_empty.symm, fun _ he => absurd he List.not_mem_nil⟩

theorem LogsNoEarlyExit.of_work {rs : List (Side × Handle)} {event : Event}
    (h : u.journal = t.journal ++ (Event.rotations rs ++ [event]).toArray)
    (hevent : event.isEarlyExit = false) : t.LogsNoEarlyExit u := by
  refine ⟨_, h, fun e he => ?_⟩
  rcases List.mem_append.1 he with he | he
  · exact Event.isEarlyExit_rotations rs e he
  · rw [List.mem_singleton.1 he]
    exact hevent

theorem LogsNoEarlyExit.past (h : t.LogsNoEarlyExit u) (ht : ∀ e ∈ t.journal, e.isEarlyExit = false) :
    ∀ e ∈ u.journal, e.isEarlyExit = false := by
  obtain ⟨es, hjournal, hes⟩ := h
  intro e he
  rw [hjournal, Array.mem_append] at he
  rcases he with he | he
  · exact ht e he
  · exact hes e (List.mem_toArray.1 he)

namespace Sound

theorem logsNoEarlyExit_insert (hs : t.Sound) (k : K) (v : V) :
    t.LogsNoEarlyExit ((Edit.insert k v).outcome t).2 := by
  obtain ⟨e, hfail, -⟩ | ⟨z, after, hgood, -⟩ := hs.insert k v
  · rw [Act.outcome_error hfail]
    exact .of_eq rfl
  · obtain ⟨u, rs, hwork⟩ := hs.exists_insertWork hgood
    rw [Act.outcome_ok hgood]
    exact .of_work hwork.reports rfl

theorem logsNoEarlyExit_delete (hs : t.Sound) (i : Handle) :
    t.LogsNoEarlyExit ((Edit.delete i).outcome t).2 := by
  cases hi : t.entryAt? i with
  | none =>
    rw [Act.outcome_ok (run_delete_stale hi)]
    exact .of_eq rfl
  | some e =>
    obtain ⟨after, u, rs, hrun, hwork⟩ := hs.exists_deleteWork hi
    rw [Act.outcome_ok hrun]
    exact .of_work hwork.reports rfl

end Sound

namespace SoundNoExit

theorem neverExitsEarly (h : t.SoundNoExit) : t.NeverExitsEarly :=
  ⟨h.past, h.sound.logsNoEarlyExit_insert, h.sound.logsNoEarlyExit_delete⟩

theorem ends {act : Edit K V α} {E : Failure → Prop} {Q : α → Tree K V → Prop} (h : t.SoundNoExit)
    (hends : Ends Sound E Q (act.run t)) (hlogs : t.LogsNoEarlyExit (act.outcome t).2) :
    Ends SoundNoExit (fun _ => True) (fun _ _ => True) (act.run t) := by
  unfold Act.outcome at hlogs
  generalize act.run t = r at hends hlogs ⊢
  cases hends with
  | answer kept => exact .answer ⟨kept, hlogs.past h.past⟩ trivial
  | failure kept => exact .failure ⟨kept, hlogs.past h.past⟩ trivial

theorem ends_edited {act : Edit K V α} {i : Handle} {e : K × V} {a : α} {v : V} (h : t.SoundNoExit)
    (hi : t.entryAt? i = some e) (hrun : act.run t = .ok a (t.edited i v)) :
    Ends SoundNoExit (fun _ => True) (fun _ _ => True) (act.run t) := by
  refine h.ends (E := fun _ => True) (h.sound.ends_edited hi hrun) ?_
  rw [Act.outcome_ok hrun]
  exact .of_eq rfl

theorem ends_editing {k : K × V → Edit K V α} {i : Handle} {a : K × V → α} {v : K × V → V}
    (h : t.SoundNoExit) (hk : ∀ {e}, t.entryAt? i = some e →
      (Act.look (·.entryOf i) >>= k).run t = .ok (a e) (t.edited i (v e))) :
    Ends SoundNoExit (fun _ => True) (fun _ _ => True) ((Act.look (·.entryOf i) >>= k).run t) := by
  cases hi : t.entryOf i with
  | error e =>
    have hrun : (Act.look (·.entryOf i) >>= k).run t = .error e t :=
      Act.fail_then (by rw [Act.run_look, hi])
    rw [hrun]
    exact .failure h trivial
  | ok e =>
    have hi := entryAt?_eq_some.2 hi
    exact h.ends_edited hi (hk hi)

theorem ends_drain (h : t.SoundNoExit) :
    Ends SoundNoExit (fun _ => True) (fun _ _ => True) (Edit.drain.run t) :=
  h.ends (E := fun _ => True) h.sound.ends_drain (.of_eq ((Edit.drain_silent t.journal).kept rfl))

end SoundNoExit

theorem soundNoExit_empty (order : KeyOrder K) [hc : Std.TransCmp order.compare] (w : Width) :
    (empty order w : Tree K V).SoundNoExit :=
  ⟨(holds_empty order w).sound hc, fun _ he => absurd he (Array.not_mem_empty _)⟩

end Tree

namespace Edit

theorem closed_preserves_soundNoExit :
    ClosedUnderClientOps (K := K) (V := V) fun _ act => Preserves Tree.SoundNoExit act where
  pure := .pure
  throw := .throw
  bind := .bind
  search _ := .look _
  entry _ := .look _
  entryKey _ := .look _
  entryDoc _ := .look _
  entryOf _ := .look _
  successor _ := .look _
  start _ := .look _
  step _ _ := .look _
  cursorKey _ := .reading fun _ => .pure _
  cursorValue _ := .reading fun _ => .pure _
  attached _ := .reading fun _ => .pure _
  insert k v := fun _ h => h.ends (h.sound.ends_insert k v) (h.sound.logsNoEarlyExit_insert k v)
  delete i := fun _ h =>
    h.ends (E := fun _ => True) (h.sound.ends_delete i) (h.sound.logsNoEarlyExit_delete i)
  modifyValue i f := fun _ h => h.ends_editing fun hi => Tree.run_modifyValue hi f
  replaceValue i v := fun _ h => h.ends_editing fun hi => Tree.run_replaceValue hi v
  modifyAt? i f := by
    intro t h
    cases hi : t.entryAt? i with
    | none => exact .of_run (Tree.run_modifyAt?_stale hi f) h trivial
    | some e => exact h.ends_edited hi (Tree.run_modifyAt? hi f)
  replaceAt? i v := by
    intro t h
    cases hi : t.entryAt? i with
    | none => exact .of_run (Tree.run_replaceAt?_stale hi v) h trivial
    | some e => exact h.ends_edited hi (Tree.run_replaceAt? hi v)
  clear := fun t h => h.ends (E := fun _ => True) h.sound.ends_clear
    ⟨[.cleared t.size], rfl, fun e he => by rw [List.mem_singleton.1 he]; rfl⟩
  drain := fun _ h => h.ends_drain

theorem preserves_noteAll {es : Array Event} (hes : ∀ e ∈ es, e.isEarlyExit = false) :
    Preserves Tree.SoundNoExit (noteAll es : Edit K V Unit) := fun _ h =>
  h.ends (E := fun _ => True) (h.sound.ends_noteAll es)
    ⟨es.toList, rfl, fun e he => hes e (Array.mem_toList_iff.1 he)⟩

end Edit

open Edit (closed_preserves_soundNoExit)

/-! ### Clients and commands -/

namespace Client

theorem soundNoExit_step {s : Client K V} (h : s.tree.SoundNoExit) (c : Call K V) :
    (s.step c).2.tree.SoundNoExit := by
  have hends := closed_preserves_soundNoExit.act c s.hold s.tree h
  unfold step
  generalize (c.act s.hold).run s.tree = r at hends ⊢
  cases hends with
  | answer kept => exact kept
  | failure kept => exact kept

theorem soundNoExit_run {s : Client K V} (h : s.tree.SoundNoExit) (calls : List (Call K V)) :
    (s.run calls).tree.SoundNoExit := by
  induction calls generalizing s with
  | nil => exact h
  | cons c calls ih => exact ih (soundNoExit_step h c)

end Client

section
variable [Text.Describe K] [Text.Describe V]

theorem Change.preserves_soundNoExit (c : Change K V) : Preserves Tree.SoundNoExit c.run := by
  by_cases hc : ∃ items, c = .insertMany items
  · obtain ⟨items, rfl⟩ := hc
    have hinsert (item : K × V) : Preserves Tree.SoundNoExit (Edit.insert item.1 item.2) :=
      closed_preserves_soundNoExit.insert item.1 item.2
    exact .map (.mapM (fun item => .map (hinsert item).attempt _) items) _
  · exact closed_preserves_soundNoExit.change c fun items heq => hc ⟨items, heq⟩

theorem Command.preserves_soundNoExit (c : Command K V) : Preserves Tree.SoundNoExit c.run := by
  cases c with
  | ask q => exact .look _
  | change c => exact c.preserves_soundNoExit

theorem Command.preserves_runAll (cs : List (Command K V)) :
    Preserves Tree.SoundNoExit (Command.runAll cs) := .map (.mapM preserves_soundNoExit cs) _

theorem Tree.Reached.soundNoExit {order : KeyOrder K} [Std.TransCmp order.compare] {w : Width}
    {t : Tree K V} (h : t.Reached order w) : t.SoundNoExit := by
  induction h with
  | empty => exact soundNoExit_empty order w
  | calls _ cs ih => exact Client.soundNoExit_run (s := ⟨_, .nothing⟩) ih cs
  | command _ c ih => exact c.preserves_soundNoExit.kept ih

end

/-! ### Maps and sets -/

namespace Map

abbrev SoundNoExit (m : Map K V) : Prop := m.content.SoundNoExit

theorem soundNoExit_empty (strategy : Strategy) (order : KeyOrder K) [Std.TransCmp order.compare] :
    (empty strategy order : Map K V).SoundNoExit := by
  refine ⟨(rests_empty strategy order).content, fun e he => ?_⟩
  rw [List.mem_singleton.1 (Array.mem_toList_iff.2 he)]
  rfl

theorem preserves_query (f : Tree K V → Except Failure α) :
    Preserves SoundNoExit (Lock.query f : Act (Map K V) α) := Lock.preserves_query f

theorem preserves_insert (k : K) (v : V) : Preserves SoundNoExit (Map.insert k v) := by
  refine Lock.preserves_update (.bind (.look _) fun found => ?_)
  cases found with
  | none => exact .map (closed_preserves_soundNoExit.insert k v) _
  | some i => exact closed_preserves_soundNoExit.replaceAt? i v

theorem preserves_replace (k : K) (v : V) : Preserves SoundNoExit (Map.replace k v) := by
  refine Lock.preserves_update (.bind (.look _) fun found => ?_)
  cases found with
  | none => exact .pure _
  | some i =>
    refine .bind (closed_preserves_soundNoExit.replaceAt? i v) fun old => ?_
    cases old <;> exact .pure _

theorem preserves_extend (items : List (K × V)) : Preserves SoundNoExit (Map.extend items) := by
  refine Lock.preserves_within (.forM (fun item => ?_) items)
  refine .bind (.look _) fun e => .map ?_ _
  cases e with
  | occupied i => exact .map (closed_preserves_soundNoExit.replaceValue i item.2) _
  | vacant k => exact .map (closed_preserves_soundNoExit.insert k item.2) _

theorem preserves_traverse {visit : β → K → V → Act (Map K V) (Bool × β)}
    (hvisit : ∀ b k v, Preserves SoundNoExit (visit b k v)) (b : β) :
    Preserves SoundNoExit (Map.traverse visit b) := by
  refine Lock.preserves_read fun t ht m hm => ?_
  rw [ht.sound.traverse]
  exact ends_visits (fun b k v => hvisit b k v) _ b hm

end Map

theorem Inner.preserves_soundNoExit (inner : Inner K V) : Preserves Map.SoundNoExit inner.run := by
  cases inner with
  | size => exact .map (Map.preserves_query _) _
  | insert k v => exact .map (Map.preserves_insert k v) _

theorem Outer.preserves_soundNoExit (outer : Outer) (inner : Inner K V) :
    Preserves Map.SoundNoExit (outer.run inner.run) := by
  have hinner := inner.preserves_soundNoExit
  cases outer with
  | read => exact Lock.preserves_read fun _ _ => hinner
  | write => exact Lock.preserves_write hinner
  | traverse => exact .map (Map.preserves_traverse (fun _ _ _ => .map hinner _) []) _

theorem MapCommand.preserves_soundNoExit [Text.Describe K] [Text.Describe V] (c : MapCommand K V) :
    Preserves Map.SoundNoExit c.run := by
  cases c with
  | insert k v => exact .map (Map.preserves_insert k v) _
  | replace k v => exact .map (Map.preserves_replace k v) _
  | get | getWith | contains | find | first | last | lowerBound | upperBound | size | isEmpty
  | describe => exact .map (Map.preserves_query _) _
  | read q => exact Map.preserves_query _
  | remove k => exact .map (Lock.preserves_update (closed_preserves_soundNoExit.remove k)) _
  | removeAt i => exact .map (Lock.preserves_update (closed_preserves_soundNoExit.delete i)) _
  | clear => exact .bind (Lock.preserves_update closed_preserves_soundNoExit.clear) fun _ => .pure _
  | traverse limit => exact .map (Map.preserves_traverse (fun _ _ _ => .pure _) []) _
  | extend items => exact .bind (Map.preserves_extend items) fun _ => .pure _
  | write c => exact Lock.preserves_update c.preserves_soundNoExit
  | direct c => exact Lock.preserves_within c.preserves_soundNoExit
  | takeTree cs =>
    intro m hm
    have := hm.sound.lawful
    have hpast := ((Command.preserves_runAll cs).kept hm).past
    have htaken : Ends Map.SoundNoExit (fun _ => True) (fun t _ => t = m.content)
        ((Map.takeTree : Act (Map K V) (Tree K V)).run m) := .of_run rfl (Map.soundNoExit_empty ..) rfl
    refine htaken.bind ?_
    rintro _ m' hm' rfl
    refine Preserves.bind (Lock.preserves_within (Edit.preserves_noteAll fun e he => ?_))
      (fun _ => .look _) m' hm'
    obtain ⟨n, hn, rfl⟩ := Array.mem_extract_iff_getElem.1 he
    exact hpast _ (Array.getElem_mem _)
  | reenter outer inner => exact outer.preserves_soundNoExit inner

theorem SetCommand.preserves_soundNoExit [Text.Describe K] (c : SetCommand K) :
    Preserves Map.SoundNoExit c.run := by
  cases c with
  | insert k =>
    refine .map (Lock.preserves_update (.bind (.look _) fun present => ?_)) _
    cases present with
    | true => exact .pure _
    | false => exact .map (closed_preserves_soundNoExit.insert k ()) _
  | contains k => exact .map (Map.preserves_query (·.contains k)) _
  | size => exact .map (Map.preserves_query fun t => return t.size) _
  | isEmpty => exact .map (Map.preserves_query fun t => return t.isEmpty) _
  | toList => exact .map (Map.preserves_query _) _
  | first | last | lowerBound | upperBound | describe => exact .map (.map (Map.preserves_query _) _) _
  | remove k => exact .map (.map (Lock.preserves_update (closed_preserves_soundNoExit.remove k)) _) _
  | clear => exact .bind (Lock.preserves_update closed_preserves_soundNoExit.clear) fun _ => .pure _
  | traverse limit => exact .map (Map.preserves_traverse (fun _ _ _ => .pure _) []) _
  | extend ks => exact .bind (Map.preserves_extend _) fun _ => .pure _
  | read q => exact Map.preserves_query _

theorem Map.Reached.soundNoExit [Text.Describe K] [Text.Describe V] {strategy : Strategy}
    {order : KeyOrder K} [Std.TransCmp order.compare] {m : Map K V} (h : m.Reached strategy order) :
    m.SoundNoExit := by
  induction h with
  | empty => exact soundNoExit_empty strategy order
  | calls _ cs ih => exact Client.soundNoExit_run (s := ⟨_, .nothing⟩) ih cs
  | command _ c ih => exact c.preserves_soundNoExit.kept ih

theorem KeySet.Reached.soundNoExit [Text.Describe K] {strategy : Strategy} {order : KeyOrder K}
    [Std.TransCmp order.compare] {m : KeySet K} (h : KeySet.Reached strategy order m) :
    Map.SoundNoExit m := by
  induction h with
  | empty => exact Map.soundNoExit_empty strategy order
  | command _ c ih => exact c.preserves_soundNoExit.kept ih

/-- A rotation or a repair that ends early leaves a report of it. Whatever tree, map or set is reached, there
is no such report in its past; and no insertion into its tree, and no deletion from it, leaves any. -/
theorem repairs_never_cut_short [Text.Describe K] [Text.Describe V] (order : KeyOrder K)
    [Std.TransCmp order.compare] :
    (∀ t : Tree K V, t.EarlyExitsReported) ∧
      (∀ (w : Width) (t : Tree K V), t.Reached order w → t.NeverExitsEarly) ∧
      (∀ (strategy : Strategy) (m : Map K V), m.Reached strategy order → m.content.NeverExitsEarly) ∧
      ∀ (strategy : Strategy) (m : KeySet K), m.Reached strategy order → m.content.NeverExitsEarly :=
  ⟨Tree.earlyExitsReported, fun _ _ h => h.soundNoExit.neverExitsEarly,
    fun _ _ h => h.soundNoExit.neverExitsEarly, fun _ _ h => h.soundNoExit.neverExitsEarly⟩

theorem repairs_never_cut_short_natural :
    let items : List (Int64 × String) := [(1, "a"), (2, "b"), (3, "c"), (4, "d"), (5, "e"), (6, "f")]
    let t := ((Client.fresh .natural .halfWord : Client Int64 String).run
      (items.map fun e => .insert e.1 e.2)).tree
    let m := ((MapCommand.extend items).run.outcome
      (.empty .unsynchronized .natural : Map Int64 String)).2
    let s := ((SetCommand.extend [3, 1, 2]).run.outcome (.empty .synchronized .natural : KeySet Int64)).2
    (∀ e ∈ t.journal, e.isEarlyExit = false) ∧
      (t.LogsNoEarlyExit ((Edit.insert 7 "g").outcome t).2 ∧
        ((Edit.insert 7 "g").outcome t).2.journal.toList =
          t.journal.toList ++ [.rotated .left ⟨5⟩, .inserted ⟨7⟩ 7]) ∧
      (t.LogsNoEarlyExit ((Edit.delete ⟨1⟩).outcome t).2 ∧
        ((Edit.delete ⟨1⟩).outcome t).2.journal.toList =
          t.journal.toList ++ [.rotated .left ⟨2⟩, .deleted ⟨1⟩ 5]) ∧
      m.content.LogsNoEarlyExit ((Edit.insert 0 "g").outcome m.content).2 ∧
      s.content.LogsNoEarlyExit ((Edit.delete ⟨2⟩).outcome s.content).2 := by
  intro items t m s
  obtain ⟨-, htree, hmap, hset⟩ := repairs_never_cut_short (V := String) (.natural : KeyOrder Int64)
  have ht := htree .halfWord t (.calls .empty _)
  have hm := hmap .unsynchronized m (.command .empty _)
  have hs := hset .synchronized s (.command .empty _)
  exact ⟨ht.past, ⟨ht.insert 7 "g", by decide +kernel⟩, ⟨ht.delete ⟨1⟩, by decide +kernel⟩,
    hm.insert 0 "g", hs.delete ⟨2⟩⟩

/-- Where the colors are wrong, the repair of a red entry below a red root ends early, and says so. -/
example :
    let sh : Shape Int64 String :=
      .node (.node .nil ⟨⟨2⟩, .red, 1, "a"⟩ .nil) ⟨⟨1⟩, .red, 2, "b"⟩ .nil
    let t := ((Tree.empty .natural .halfWord).withArena ⟨Array.replicate 3 .vacant, []⟩).draw .vacant sh
    ((Edit.settleRed ⟨2⟩).outcome t).2.journal.toList = [.abandoned ⟨2⟩] := by
  decide +kernel

end RedBlack
