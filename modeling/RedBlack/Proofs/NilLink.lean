import RedBlack.Proofs.DoubleEnded
import RedBlack.Proofs.NilLinkChanges

/-! The parent link of the nil slot shows nowhere. Two trees that differ in it alone answer alike, and stay
alike, whatever is done with them. What is done to either agrees with what is done to the tree without
that link. This tree is sound, too, so that nothing done to it comes to a gap. -/
namespace RedBlack
variable {K V α β : Type}

/-- The trees differ in nothing but the parent links of their nil slots. -/
def Tree.Alike (t u : Tree K V) : Prop := t.swept = u.swept

namespace Tree
variable {t u s : Tree K V}

theorem Alike.slot?_eq (h : t.Alike u) {i : Handle} (hn : i ≠ .nil) :
    u.arena.slot? i = t.arena.slot? i := by
  rw [← slot?_swept_of_ne t hn, ← slot?_swept_of_ne u hn]
  exact congrArg (fun s : Tree K V => s.arena.slot? i) h.symm

theorem Alike.exists_nil (h : t.Alike u) {ns : Slot K V} (hns : t.arena.slot? .nil = some ns) :
    ∃ p, u.arena.slot? .nil = some { ns with parent := p } := by
  have heq : u.swept.arena.slot? .nil = t.swept.arena.slot? .nil :=
    congrArg (fun s : Tree K V => s.arena.slot? .nil) h.symm
  rw [slot?_swept_nil, slot?_swept_nil, hns] at heq
  obtain ⟨ns', hns', hdetached⟩ := Option.map_eq_some_iff.1 heq
  refine ⟨ns'.parent, hns'.trans (congrArg some ?_)⟩
  obtain ⟨left, right, parent, color, entry⟩ := ns'
  obtain ⟨rfl, rfl, -, rfl, rfl⟩ := Slot.mk.inj hdetached
  rfl

theorem Alike.redrawn (h : t.Alike u) : t.Redrawn u [.nil] where
  free := (congrArg (fun s : Tree K V => s.arena.free) h).symm
  length := by
    rw [← t.size_swept, ← u.size_swept]
    exact (congrArg (fun s : Tree K V => s.arena.slots.size) h).symm
  slot i hi := h.slot?_eq (List.ne_of_not_mem_cons hi)
  size := (congrArg Tree.size h).symm
  order := (congrArg Tree.order h).symm
  width := (congrArg Tree.width h).symm
  journal := (congrArg Tree.journal h).symm

theorem Alike.root_eq (h : t.Alike u) : u.root = t.root := (congrArg Tree.root h).symm

theorem EqUpToSweep.swept_eq (h : t.EqUpToSweep u) : t.swept = u.swept := by
  rcases h with rfl | rfl
  · rfl
  · exact swept_swept u

theorem EqUpToSweep.alike (h : s.EqUpToSweep t) (h' : s.EqUpToSweep u) : t.Alike u :=
  h.swept_eq.symm.trans h'.swept_eq

theorem Holds.of_alike {ns : Slot K V} {sh : Shape K V} (h : t.Holds ns sh) (halike : t.Alike u) :
    ∃ p, u.Holds { ns with parent := p } sh := by
  obtain ⟨p, hnil⟩ := halike.exists_nil h.shows.nil
  have hr := halike.redrawn
  have hslot {i : Handle} (hi : i ∈ sh.handles ++ t.arena.free) : u.arena.slot? i = t.arena.slot? i :=
    halike.slot?_eq fun hn => Nat.ne_of_gt (Arena.mem_positions.1 (h.handles.mem_iff.1 hi)).1
      (congrArg Handle.pos hn)
  refine ⟨p, ⟨halike.root_eq.trans h.shows.root, hnil, h.shows.keyless, h.shows.black, ?_,
    h.shows.nodup⟩, h.childless, h.colored, ?_, hr.size.trans h.size, ?_, ?_, ?_, ?_⟩
  · exact h.shows.lies.congr fun i hi => hslot (List.mem_append_left _ hi)
  · rw [hr.order]
    exact h.sorted
  · rw [hr.free, Arena.positions_congr hr.length]
    exact h.handles
  · rw [hr.free]
    exact fun i hi => (hslot (List.mem_append_right _ hi)).trans (h.vacant i hi)
  · rw [hr.free]
    exact h.fresh
  · rw [hr.width, hr.length]
    exact h.width

theorem Sound.of_alike (hs : t.Sound) (h : t.Alike u) : u.Sound ∧ u.inorder = t.inorder := by
  obtain ⟨ns, hholds⟩ := hs.holds
  obtain ⟨p, hholds'⟩ := hholds.of_alike h
  refine ⟨hholds'.sound (h.redrawn.order ▸ hs.lawful), ?_⟩
  rw [hholds'.inorder_eq, hholds.inorder_eq]

theorem alike_swept (t : Tree K V) : t.Alike t.swept := t.swept_swept.symm

theorem Sound.swept (hs : t.Sound) : t.swept.Sound := (hs.of_alike t.alike_swept).1

/-! ### Questions -/

theorem IgnoresNilLink.eq_of_alike {f : Tree K V → Except Failure α} (hf : IgnoresNilLink f) (h : t.Alike u)
    (hgap : f t.swept ≠ .error .gap) : f t = f u := by
  have ht := (hf t).resolve_left hgap
  have hu := (hf u).resolve_left (h ▸ hgap)
  rw [← ht, ← hu, h]

theorem Sound.ask_eq_of_alike [Text.Describe K] [Text.Describe V] (hs : t.Sound) (h : t.Alike u)
    (q : Query K) : q.ask t = q.ask u := by
  obtain ⟨hs', hitems⟩ := hs.of_alike h
  have horder : u.order = t.order := h.redrawn.order
  have hread (hq : IgnoresNilLink fun t : Tree K V => q.ask t) : q.ask t = q.ask u := by
    obtain ⟨a, ha, -⟩ := hs.swept.answers_ask q
    refine hq.eq_of_alike h ?_
    rw [ha]
    exact nofun
  cases q with
  | search s k => exact hread (.map (.seek s k) _)
  | path s k =>
    cases s with
    | none => rfl
    | some s => exact hread fun t => IgnoresNilLink.map (.probe s k) _ t
  | first => exact hread (.map (.extreme .left) _)
  | last => exact hread (.map (.extreme .right) _)
  | successor i => exact hread (.map (.neighbor .right i) _)
  | predecessor i => exact hread (.map (.neighbor .left i) _)
  | keyAt i => exact hread (.same fun t => by simp only [Query.ask, keyAt?_swept])
  | valueAt i => exact hread (.same fun t => by simp only [Query.ask, valueAt?_swept])
  | entryAt i => exact hread (.same fun t => by simp only [Query.ask, entryAt?_swept])
  | get k => exact hread (.map (.get? k) _)
  | getEntry k => exact hread (.map (.find? k) _)
  | contains k => exact hread (.map (.contains k) _)
  | firstEntry => exact hread (.map .min? _)
  | lastEntry => exact hread (.map .max? _)
  | size | isEmpty | compare a b => exact hread (.same fun _ => rfl)
  | outline => exact hread (.map .outline _)
  | cursor s ms => exact hread (.bind (.start s) fun c => .map (.moves c ms) _)
  | describe l =>
    have hdoc {t : Tree K V} (hs : t.Sound) : (Query.describe l).ask t = .ok _ :=
      Act.ok_then (Act.ok_then hs.toList rfl) rfl
    rw [hdoc hs, hdoc hs', hitems]
  | traverse limit =>
    rw [Query.ask, Query.ask, visited, visited, hs.traverse, hs'.traverse, hitems]
  | range k limit =>
    rw [hs.ask_range, hs'.ask_range, hitems, horder]
    rfl
  | iterate view ps => rw [hs.ask_iterate, hs'.ask_iterate, hitems]

end Tree

/-! ### Changes -/

structure Agree (o o' : Except Failure α × Tree K V) : Prop where
  result : o.1 = o'.1
  trees : o.2.Alike o'.2

def Edit.KeepsAlike (act : Edit K V α) : Prop :=
  ∀ t u, t.Sound → t.Alike u → Agree (act.outcome t) (act.outcome u) ∧ (act.outcome t).2.Sound

theorem Edit.IgnoresNilLink.agree {act : Edit K V α} (hact : IgnoresNilLink act) {t u : Tree K V}
    (h : t.Alike u) (hgap : (act.outcome t.swept).1 ≠ .error .gap) : Agree (act.outcome t) (act.outcome u) := by
  have ht := hact t
  have hu := hact u
  rw [← show t.swept = u.swept from h] at hu
  unfold Act.outcome at hgap ⊢
  generalize act.run t.swept = r at ht hu hgap
  generalize act.run t = r₁ at ht ⊢
  generalize act.run u = r₂ at hu ⊢
  cases ht with
  | lost => exact absurd rfl hgap
  | answer h₁ =>
    cases hu with
    | answer h₂ => exact ⟨rfl, h₁.alike h₂⟩
  | failure h₁ =>
    cases hu with
    | lost => exact absurd rfl hgap
    | failure h₂ => exact ⟨rfl, h₁.alike h₂⟩

namespace Edit.KeepsAlike

open Act (Ends)

theorem of_ends {act : Edit K V α} (hact : IgnoresNilLink act)
    (hends : ∀ t, t.Sound → Ends Tree.Sound (· ≠ .gap) (fun _ _ => True) (act.run t)) : KeepsAlike act := by
  intro t u hs h
  exact ⟨hact.agree h fun hgap => (hends _ hs.swept).allowed hgap rfl, (hends t hs).kept⟩

theorem pure (a : α) : KeepsAlike (Pure.pure a : Edit K V α) := fun _ _ hs h => ⟨⟨rfl, h⟩, hs⟩

theorem bind {act : Edit K V α} {k : α → Edit K V β} (hact : KeepsAlike act) (hk : ∀ a, KeepsAlike (k a)) :
    KeepsAlike (act >>= k) := by
  intro t u hs h
  have hagree := hact t u hs h
  rw [Act.outcome_bind, Act.outcome_bind]
  rcases ht : act.outcome t with ⟨x, t'⟩
  rcases hu : act.outcome u with ⟨y, u'⟩
  rw [ht, hu] at hagree
  obtain ⟨⟨hresult, htrees⟩, hsound⟩ := hagree
  obtain rfl : x = y := hresult
  cases x with
  | ok a => exact hk a t' u' hsound htrees
  | error e => exact ⟨⟨rfl, htrees⟩, hsound⟩

theorem map {act : Edit K V α} (hact : KeepsAlike act) (f : α → β) :
    KeepsAlike (do return f (← act) : Edit K V β) :=
  bind hact fun _ => pure _

theorem mapM {f : α → Edit K V β} (hf : ∀ a, KeepsAlike (f a)) (as : List α) : KeepsAlike (as.mapM f) := by
  induction as with
  | nil => exact pure []
  | cons a as ih =>
    rw [List.mapM_cons]
    exact bind (hf a) fun b => map ih _

theorem attempt {act : Edit K V α} (hact : KeepsAlike act) : KeepsAlike act.attempt := by
  intro t u hs h
  obtain ⟨⟨hresult, htrees⟩, hsound⟩ := hact t u hs h
  exact ⟨⟨congrArg Except.ok hresult, htrees⟩, hsound⟩

theorem insert (k : K) (v : V) : KeepsAlike (Edit.insert k v) :=
  of_ends (.insert k v) fun t hs => (hs.ends_insert k v).mono (by rintro e (rfl | ⟨rfl, -⟩) <;> nofun)
    fun _ _ _ => trivial

variable [Text.Describe K] [Text.Describe V]

theorem ask (q : Query K) : KeepsAlike (Act.look fun t : Tree K V => q.ask t) := by
  intro t u hs h
  obtain ⟨a, ha, -⟩ := hs.answers_ask q
  have houtcome {s : Tree K V} (hs : q.ask s = .ok a) :
      (Act.look fun t : Tree K V => q.ask t).outcome s = (.ok a, s) := Act.outcome_ok (Act.run_look_ok hs)
  rw [houtcome ha, houtcome ((hs.ask_eq_of_alike h q).symm.trans ha)]
  exact ⟨⟨rfl, h⟩, hs⟩

theorem change (c : Change K V) : KeepsAlike c.run := by
  by_cases hc : ∃ items, c = .insertMany items
  -- An attempt goes on after a failure, so the run cannot be compared as a whole.
  · obtain ⟨items, rfl⟩ := hc
    refine map (mapM (fun item => ?_) items) _
    obtain ⟨k, v⟩ := item
    exact map (attempt (insert k v)) _
  · refine of_ends (IgnoresNilLink.closed.change c fun items heq => hc ⟨items, heq⟩) fun t hs => ?_
    refine (Change.ends_run hs c).mono ?_ fun _ _ _ => trivial
    rintro e (rfl | ⟨rfl, -⟩) <;> nofun

theorem command (c : Command K V) : KeepsAlike c.run := by
  cases c with
  | ask q => exact ask q
  | change c => exact change c

end Edit.KeepsAlike

/-! ### Clients -/

theorem Entry.Stands.swept {t : Tree K V} (hs : t.Sound) {e : Entry K} (h : e.Stands t) :
    e.Stands t.swept := by
  cases e with
  | occupied i =>
    rw [Entry.Stands, t.entryAt?_swept]
    exact h
  | vacant k =>
    have hgap : t.swept.contains k ≠ .error .gap := by
      rw [hs.swept.lists.contains k]
      exact nofun
    exact ((Tree.IgnoresNilLink.contains k t).resolve_left hgap).trans h

theorem Hold.Stands.swept {t : Tree K V} (hs : t.Sound) {hold : Hold K} (h : hold.Stands t) :
    hold.Stands t.swept := by
  cases hold with
  | nothing | cursor _ => exact trivial
  | entry e => exact Entry.Stands.swept hs h
  | value i =>
    rw [Hold.Stands, t.entryAt?_swept]
    exact h

namespace Client
variable {s s' : Client K V}

structure Alike (s s' : Client K V) : Prop where
  tree : s.tree.Alike s'.tree
  hold : s.hold = s'.hold

theorem Alike.step (h : s.Alike s') (hs : s.Stands) (c : Call K V) :
    (s.step c).1 = (s'.step c).1 ∧ (s.step c).2.Alike (s'.step c).2 := by
  have hgap : ((c.act s.hold).outcome s.tree.swept).1 ≠ .error .gap := by
    intro hgap
    have hrefuses := (c.ends_act hs.sound.swept (hs.hold.swept hs.sound)).allowed hgap
    rcases hrefuses with heq | ⟨heq, -⟩ <;> cases heq
  obtain ⟨hresult, htrees⟩ := (Edit.IgnoresNilLink.closed.act c s.hold).agree h.tree hgap
  unfold Client.step
  rw [← h.hold]
  unfold Act.outcome at hresult htrees
  generalize (c.act s.hold).run s.tree = r at hresult htrees ⊢
  generalize (c.act s.hold).run s'.tree = r' at hresult htrees ⊢
  cases r with
  | ok a t =>
    cases r' with
    | ok a' t' =>
      obtain rfl := Except.ok.inj hresult
      exact ⟨rfl, htrees, rfl⟩
    | error e' t' => cases hresult
  | error e t =>
    cases r' with
    | ok a' t' => cases hresult
    | error e' t' =>
      obtain rfl := Except.error.inj hresult
      exact ⟨rfl, htrees, rfl⟩

theorem Alike.run (h : s.Alike s') (hs : s.Stands) (calls : List (Call K V)) :
    (s.run calls).Alike (s'.run calls) := by
  induction calls generalizing s s' with
  | nil => exact h
  | cons c calls ih => exact ih (h.step hs c).2 (hs.step c).1

end Client

/-- Two trees differ in nothing but the parent link of the nil slot, and one of them can be reached. Then a
command comes to the same on both, be it an answer or a failure, and so do all commands of a list, which go on
after one that fails. So does a call of a client, with what it has in hand by then, and so does a traversal,
whatever its visitor does. Of the trees after it the same can be said; their journals are equal. -/
theorem nil_link_unseen [Text.Describe K] [Text.Describe V] (order : KeyOrder K)
    [Std.TransCmp order.compare] (w : Width) {t u : Tree K V} (h : t.Reached order w) (halike : t.Alike u) :
    (∀ c : Command K V, (c.run.outcome t).1 = (c.run.outcome u).1 ∧
        (c.run.outcome t).2.Alike (c.run.outcome u).2) ∧
      (∀ cs : List (Command K V), let run : Edit K V _ := cs.mapM fun c => c.run.attempt
        (run.outcome t).1 = (run.outcome u).1 ∧ (run.outcome t).2.Alike (run.outcome u).2) ∧
      (∀ (calls : List (Call K V)) (c : Call K V),
        let s := Client.run calls ⟨t, .nothing⟩
        let s' := Client.run calls ⟨u, .nothing⟩
        (s.step c).1 = (s'.step c).1 ∧ (s.step c).2.hold = (s'.step c).2.hold ∧
          (s.step c).2.tree.Alike (s'.step c).2.tree) ∧
      ∀ (σ β : Type) (visit : β → K → V → Act σ (Bool × β)) b (s : σ),
        (t.traverse visit b).run s = (u.traverse visit b).run s := by
  have hs := h.sound
  obtain ⟨hs', hitems⟩ := hs.of_alike halike
  refine ⟨fun c => ?_, fun cs => ?_, fun calls c => ?_, fun σ β visit b s => ?_⟩
  · obtain ⟨hagree, -⟩ := Edit.KeepsAlike.command c t u hs halike
    exact ⟨hagree.result, hagree.trees⟩
  · obtain ⟨hagree, -⟩ := Edit.KeepsAlike.mapM (fun c => .attempt (.command c)) cs t u hs halike
    exact ⟨hagree.result, hagree.trees⟩
  · have hstands : Client.Stands ⟨t, .nothing⟩ := ⟨hs, trivial⟩
    have hstart : Client.Alike ⟨t, .nothing⟩ ⟨u, .nothing⟩ := ⟨halike, rfl⟩
    obtain ⟨hresult, hstep⟩ := (hstart.run hstands calls).step (hstands.run calls) c
    exact ⟨hresult, hstep.hold, hstep.tree⟩
  · rw [hs.traverse, hs'.traverse, hitems]

/-- A deletion has left a link in the nil slot; in the other tree it names a place that there is not. -/
theorem nil_link_unseen_natural :
    let t := ((Client.fresh .natural .halfWord : Client Int64 String).run
      [.insert 2 "b", .insert 1 "a", .insert 3 "c", .delete ⟨2⟩]).tree
    let u := t.put .nil (Slot.withParent ⟨7⟩)
    t.parent .nil = .ok ⟨1⟩ ∧ u.parent .nil = .ok ⟨7⟩ ∧
      ((Change.remove 2).run.outcome t).1 = ((Change.remove 2).run.outcome u).1 ∧
      ((Change.remove 2).run.outcome t).2.Alike ((Change.remove 2).run.outcome u).2 := by
  intro t u
  have halike : t.Alike u := by
    rw [Tree.Alike, Tree.swept, Tree.swept, Tree.put_put]
    rfl
  obtain ⟨hcommand, -⟩ := nil_link_unseen .natural .halfWord (.calls .empty _) halike
  exact ⟨rfl, rfl, hcommand (.change (.remove 2))⟩

end RedBlack
