import RedBlack.Command.OnMap
import RedBlack.Command.OnSet
import RedBlack.Proofs.Safety

/-! What operations on maps and sets may fail with. They look before they insert; what is left is a full
arena, and a call that waits for itself. -/
namespace RedBlack
variable {K V β : Type}

open Act (Ends)

theorem ends_visits {σ : Type} {I : σ → Prop} {E : Failure → Prop}
    {visit : β → K → V → Act σ (Bool × β)}
    (h : ∀ b k v s, I s → Ends I E (fun _ _ => True) ((visit b k v).run s)) (es : List (K × V)) (b : β)
    {s : σ} (kept : I s) : Ends I E (fun _ _ => True) ((visits visit es b).run s) := by
  induction es generalizing b s with
  | nil => exact .answer kept trivial
  | cons e es ih =>
    refine (h b e.1 e.2 s kept).bind fun r s' kept' _ => ?_
    obtain ⟨onward, b'⟩ := r
    cases onward with
    | false => exact .answer kept' trivial
    | true => exact ih b' kept'

namespace Tree.Sound
variable {t : Tree K V} {E : Failure → Prop}

theorem ends_upsert (hs : t.Sound) {e : Entry K} (h : e.Stands t) (v : V) :
    Ends Sound (· = .arenaFull) (fun _ _ => True) ((Edit.upsert e v).run t) := by
  cases e with
  | occupied i => exact (hs.ends_replaceValue h v).map
  | vacant k => exact (hs.ends_insert_absent h v).bind fun _ t' hs' _ => .answer hs' trivial

end Tree.Sound

namespace Map
variable {m : Map K V} {strategy : Strategy} {b : Borrow} {E : Failure → Prop}

/-- Nobody is at the map, and its tree is sound. -/
abbrev Rests (strategy : Strategy) (m : Map K V) : Prop := m.Keeps Tree.Sound strategy .idle

theorem Rests.not_exclusive (h : m.Rests strategy) : m.borrow ≠ .exclusive := by
  rw [h.borrow_eq]
  exact Borrow.noConfusion

theorem rests_empty (strategy : Strategy) (order : KeyOrder K) [Std.TransCmp order.compare] :
    (empty strategy order : Map K V).Rests strategy :=
  ⟨(lists_empty strategy order).tree.sound, rfl, rfl⟩

theorem Rests.outcome_toList (h : m.Rests strategy) :
    Map.toList.outcome m = (.ok (m.content.inorder.map Prod.snd), m) := by
  rw [Map.toList, Lock.outcome_query h.borrow_eq, h.content.toList]

theorem ends_query (h : m.Rests strategy) {f : Tree K V → Except Failure β}
    (hf : Answers (f m.content) fun _ => True) :
    Ends (Rests strategy) E (fun _ _ => True) ((Lock.query f).run m) :=
  Lock.ends_query h Borrow.noConfusion hf

theorem ends_update (h : m.Rests strategy) {act : Edit K V β}
    (hact : Ends Tree.Sound E (fun _ _ => True) (act.run m.content)) :
    Ends (Rests strategy) E (fun _ _ => True) ((Lock.update act).run m) := Lock.ends_update h hact

theorem ends_within (h : m.Rests strategy) {act : Edit K V β}
    (hact : Ends Tree.Sound E (fun _ _ => True) (act.run m.content)) :
    Ends (Rests strategy) E (fun _ _ => True) ((Lock.within act).run m) := Lock.ends_within h hact

theorem ends_insert (h : m.Rests strategy) (k : K) (v : V) :
    Ends (Rests strategy) (· = .arenaFull) (fun _ _ => True) ((Map.insert k v).run m) := by
  refine ends_update h (h.content.ends_after_search k (fun i _ => ?_) fun hk => ?_)
  · exact h.content.ends_replaceAt? i v
  · exact (h.content.ends_insert_absent hk v).bind fun _ t' hs' _ => .answer hs' trivial

theorem ends_replace (h : m.Rests strategy) (k : K) (v : V) :
    Ends (Rests strategy) E (fun _ _ => True) ((Map.replace k v).run m) := by
  refine ends_update h (h.content.ends_after_search k (fun i _ => ?_) fun _ => .answer h.content trivial)
  refine (h.content.ends_replaceAt? i v).bind fun old t' hs' _ => ?_
  cases old <;> exact .answer hs' trivial

theorem ends_size (h : m.Keeps Tree.Sound strategy b) (hb : b ≠ .exclusive) :
    Ends (Lock.Keeps Tree.Sound strategy b) E (fun _ _ => True) ((Map.size : Act (Map K V) Nat).run m) :=
  Lock.ends_query (Q := fun _ => True) h hb ⟨m.content.size, rfl, trivial⟩

theorem ends_isEmpty (h : m.Rests strategy) :
    Ends (Rests strategy) E (fun _ _ => True) ((Map.isEmpty : Act (Map K V) Bool).run m) :=
  ends_query h ⟨m.content.isEmpty, rfl, trivial⟩

theorem ends_contains (h : m.Rests strategy) (k : K) :
    Ends (Rests strategy) E (fun _ _ => True) ((Map.contains k : Act (Map K V) Bool).run m) :=
  ends_query h ⟨_, h.content.lists.contains k, trivial⟩

theorem ends_bound (h : m.Rests strategy) (s : Seek) (k : K) :
    Ends (Rests strategy) E (fun _ _ => True)
      ((Lock.query (fun t => return (← t.seek s k).bind t.entryAt?) : Act (Map K V) _).run m) :=
  ends_query h (h.content.answers_seek s k).map

theorem ends_extend (h : m.Rests strategy) (items : List (K × V)) :
    Ends (Rests strategy) (· = .arenaFull) (fun _ _ => True) ((Map.extend items).run m) := by
  refine ends_within h (Ends.forM (fun item _ t hs => ?_) h.content)
  refine .look_bind (hs.answers_entry item.1) fun e he => ?_
  exact (hs.ends_upsert he item.2).bind fun _ t' hs' _ => .answer hs' trivial

theorem ends_traverse (h : m.Rests strategy) {visit : β → K → V → Act (Map K V) (Bool × β)} (b : β)
    (hvisit : ∀ n b k v m', m'.Keeps Tree.Sound strategy (.shared n) →
      Ends (Lock.Keeps Tree.Sound strategy (.shared n)) E (fun _ _ => True) ((visit b k v).run m')) :
    Ends (Rests strategy) E (fun _ _ => True) ((Map.traverse visit b).run m) := by
  refine Lock.ends_read h Borrow.noConfusion fun n m' h' => ?_
  rw [h.content.traverse]
  exact ends_visits (hvisit n) _ b h'

end Map

/-! ### Calls from within -/

namespace Inner
variable {m : Map K V} {strategy : Strategy} {b : Borrow}

theorem ends_shared {n : Nat} (h : m.Keeps Tree.Sound strategy (.shared n)) (inner : Inner K V) :
    Ends (Lock.Keeps Tree.Sound strategy (.shared n)) (· = m.conflict) (fun _ _ => True)
      (inner.run.run m) := by
  cases inner with
  | size => exact (Map.ends_size h Borrow.noConfusion).map
  | insert k v =>
    exact (Lock.ends_write_conflict (R := fun _ _ => True) h Borrow.noConfusion _).map

theorem ends_exclusive (h : m.Keeps Tree.Sound strategy .exclusive) (inner : Inner K V) :
    Ends (Lock.Keeps Tree.Sound strategy .exclusive) (· = m.conflict) (fun _ _ => True)
      (inner.run.run m) := by
  cases inner with
  | size =>
    have hsize : Ends (Lock.Keeps Tree.Sound strategy .exclusive) (· = m.conflict) (fun _ _ => True)
        ((Map.size : Act (Map K V) Nat).run m) := by
      unfold Map.size Lock.query
      exact Lock.ends_read_conflict h _
    exact hsize.map
  | insert k v =>
    exact (Lock.ends_write_conflict (R := fun _ _ => True) h Borrow.noConfusion _).map

end Inner

theorem Outer.ends_run {m : Map K V} {strategy : Strategy} (h : m.Rests strategy) (outer : Outer)
    (inner : Inner K V) :
    Ends (Map.Rests strategy) (· = m.conflict) (fun _ _ => True) ((outer.run inner.run).run m) := by
  have hshared {n : Nat} {m' : Map K V} (h' : m'.Keeps Tree.Sound strategy (.shared n)) :
      Ends (Lock.Keeps Tree.Sound strategy (.shared n)) (· = m.conflict) (fun _ _ => True)
        (inner.run.run m') :=
    (Lock.Keeps.conflict_eq h h') ▸ inner.ends_shared h'
  cases outer with
  | read =>
    rw [Outer.run]
    exact Lock.ends_read (Q := fun _ => True) h Borrow.noConfusion fun n m' h' => hshared h'
  | write =>
    refine Lock.ends_write (Q := fun _ => True) h fun m' _ h' => ?_
    exact (Lock.Keeps.conflict_eq h h') ▸ inner.ends_exclusive h'
  | traverse =>
    refine (Map.ends_traverse h [] fun n seen k v m' h' => ?_).map
    exact (hshared h').bind fun a m'' h'' _ => .answer h'' trivial

/-! ### All commands -/

namespace MapCommand
variable [Text.Describe K] [Text.Describe V]

def bare : MapCommand K V → List (Command K V)
  | write c | direct c => [c]
  | takeTree cs => cs
  | _ => []

/-- What a command to a map may fail with: a full arena, a raw insertion that a caller makes at the tree
itself, and a call from within. -/
def Refuses (m : Map K V) (c : MapCommand K V) (e : Failure) : Prop :=
  e = .arenaFull ∨ (e = .duplicateKey ∧ Command.Duplicates m.content c.bare) ∨
    e = m.conflict ∧ ∃ outer inner, c = .reenter outer inner

theorem Refuses.ne_duplicateKey {m : Map K V} {c : MapCommand K V} {e : Failure} (h : c.Refuses m e)
    (hc : c.bare = []) : e ≠ .duplicateKey := by
  rcases h with rfl | ⟨-, hdup⟩ | ⟨rfl, -⟩
  · decide
  · rw [hc] at hdup
    cases hdup
  · unfold Lock.conflict
    cases m.strategy <;> decide

theorem ends_run {m : Map K V} {strategy : Strategy} (h : m.Rests strategy) (c : MapCommand K V) :
    Ends (Map.Rests strategy) (c.Refuses m) (fun _ _ => True) (c.run.run m) := by
  have hs := h.content
  have hlists := hs.lists
  cases c with
  | insert k v => exact ((Map.ends_insert h k v).mono (fun _ => .inl) fun _ _ h => h).map
  | replace k v => exact (Map.ends_replace h k v).map
  | get k => exact (Map.ends_query h (.of_ok (hlists.get? k))).map
  | getWith k f => exact (Map.ends_query h (.map (.of_ok (hlists.get? k)))).map
  | contains k => exact (Map.ends_contains h k).map
  | find k => exact (Map.ends_query h (hs.answers_seek .exact k)).map
  | remove k => exact (Map.ends_update h (hs.ends_remove k)).map
  | removeAt i =>
    exact (Map.ends_update h ((hs.ends_delete i).mono (fun _ he => he) fun _ _ _ => trivial)).map
  | first => exact (Map.ends_query h (.of_ok hlists.min?)).map
  | last => exact (Map.ends_query h (.of_ok hlists.max?)).map
  | lowerBound k => exact (Map.ends_bound h .lower k).map
  | upperBound k => exact (Map.ends_bound h .upper k).map
  | size => exact (Map.ends_size h Borrow.noConfusion).map
  | isEmpty => exact (Map.ends_isEmpty h).map
  | clear => exact (Map.ends_update h hs.ends_clear).bind fun _ m' h' _ => .answer h' trivial
  | traverse limit => exact (Map.ends_traverse h [] fun n seen k v m' h' => .answer h' trivial).map
  | describe l => exact (Map.ends_query h (.map (.of_ok hs.toList))).map
  | extend items =>
    refine ((Map.ends_extend h items).mono (fun _ => .inl) fun _ _ h => h).bind fun _ m' h' _ => ?_
    exact .answer h' trivial
  | read q => exact Map.ends_query h (hs.answers_ask q)
  | write c =>
    refine Map.ends_update h ((Command.ends_run hs c []).mono ?_ fun _ _ h => h)
    exact fun e he => he.imp_right .inl
  | direct c =>
    refine Map.ends_within h ((Command.ends_run hs c []).mono ?_ fun _ _ h => h)
    exact fun e he => he.imp_right .inl
  | takeTree cs =>
    have := hs.lawful
    have hempty : (Map.empty m.strategy m.content.order : Map K V).Rests strategy :=
      h.strategy_eq ▸ Map.rests_empty m.strategy m.content.order
    have hends := Command.ends_runAll hs cs
    have htake : Ends (Map.Rests strategy) (Refuses m (takeTree cs)) (fun t _ => t = m.content)
        ((Map.takeTree : Act (Map K V) (Tree K V)).run m) := .of_run rfl hempty rfl
    refine htake.bind ?_
    rintro _ m' h' rfl
    refine (Map.ends_within h' (h'.content.ends_noteAll _)).bind fun _ m'' h'' _ => ?_
    exact Ends.look (fun e he => (hends.allowed he).imp_right .inl) h''
  | reenter outer inner =>
    refine (Outer.ends_run h outer inner).mono (fun e he => ?_) fun _ _ h => h
    exact .inr (.inr ⟨he, outer, inner, rfl⟩)

end MapCommand

/-! ### Sets -/

theorem KeySet.outcome_toList_of_rests {s : KeySet K} {strategy : Strategy} (h : Map.Rests strategy s) :
    KeySet.toList.outcome s = (.ok ((s.content.inorder.map Prod.snd).map Prod.fst), s) := by
  have hkeys : s.content.keys = .ok ((s.content.inorder.map Prod.snd).map Prod.fst) :=
    Act.ok_then h.content.toList rfl
  rw [KeySet.toList, Lock.outcome_query h.borrow_eq, hkeys]

namespace SetCommand
variable [Text.Describe K]

theorem ends_run {m : KeySet K} {strategy : Strategy} (h : Map.Rests strategy m) (c : SetCommand K) :
    Ends (Map.Rests strategy) (· = .arenaFull) (fun _ _ => True) (c.run.run m) := by
  have hs := h.content
  have hlists := hs.lists
  cases c with
  | insert k =>
    refine (Map.ends_update h (.look_bind ⟨_, hlists.contains k, rfl⟩ ?_)).map
    rintro present hk
    cases present with
    | true => exact .answer hs trivial
    | false =>
      have habsent : m.content.contains k = .ok false := (hlists.contains k).trans (congrArg _ hk)
      exact (hs.ends_insert_absent habsent ()).bind fun _ t' hs' _ => .answer hs' trivial
  | contains k => exact (Map.ends_contains h k).map
  | remove k => exact (Map.ends_update h (hs.ends_remove k)).map.map
  | first => exact (Map.ends_query h (.of_ok hlists.min?)).map.map
  | last => exact (Map.ends_query h (.of_ok hlists.max?)).map.map
  | lowerBound k => exact (Map.ends_bound h .lower k).map.map
  | upperBound k => exact (Map.ends_bound h .upper k).map.map
  | size => exact (Map.ends_size h Borrow.noConfusion).map
  | isEmpty => exact (Map.ends_isEmpty h).map
  | clear => exact (Map.ends_update h hs.ends_clear).bind fun _ m' h' _ => .answer h' trivial
  | traverse limit => exact (Map.ends_traverse h [] fun n seen k v m' h' => .answer h' trivial).map
  | toList => exact (Map.ends_query h (.map (.of_ok hs.toList))).map
  | describe l => exact (Map.ends_query h (.map (.of_ok hs.toList))).map.map
  | extend ks =>
    exact (Map.ends_extend h (ks.map fun k => (k, ()))).bind fun _ m' h' _ => .answer h' trivial
  | read q => exact Map.ends_query h (hs.answers_ask q)

end SetCommand
end RedBlack
