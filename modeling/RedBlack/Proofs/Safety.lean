import RedBlack.Command.Change
import RedBlack.Proofs.Client
import RedBlack.Proofs.Endings
import RedBlack.Proofs.Questions

/-! What a change to a tree may fail with. From a sound tree every change ends in a sound tree; it fails
only where the arena is full, or at the raw insertion of a key that is there. -/
namespace RedBlack
variable {K V α : Type}

open Act (Ends)

/-- The entry is that of its key: there if it is occupied, and not there if it is vacant. -/
def Entry.Stands (t : Tree K V) : Entry K → Prop
  | .occupied i => (t.entryAt? i).isSome = true
  | .vacant k => t.contains k = .ok false

namespace Tree.Sound
variable {t : Tree K V} {i : Handle} {k : K} {e : K × V} {E : Failure → Prop}

/-! ### Single changes -/

theorem any_agrees (hs : t.Sound) {b : Bool} (hk : t.contains k = .ok b) :
    t.inorder.any (t.order.agrees k) = b := by
  obtain ⟨ns, h⟩ := hs.holds
  have hcontains := hs.lists.contains k
  rw [hcontains] at hk
  rw [← Except.ok.inj hk, ← List.isSome_find?, KeyOrder.find?_entries, Option.isSome_map]

theorem ends_insert (hs : t.Sound) (k : K) (v : V) :
    Ends Sound (fun e => e = .arenaFull ∨ e = .duplicateKey ∧ t.contains k = .ok true)
      (fun h t' => (t'.entryAt? h).isSome = true) ((Edit.insert k v).run t) := by
  have hcontains := hs.lists.contains k
  have hany := hs.any_agrees hcontains
  cases hk : t.inorder.any (t.order.agrees k) with
  | true =>
    rw [hs.run_insert_duplicate hk v]
    exact .failure hs (.inr ⟨rfl, by rw [hcontains, ← hany, hk]⟩)
  | false =>
    by_cases hfull : t.stock.Exhausted t.width
    · rw [hs.run_insert_exhausted hk hfull v]
      exact .failure hs (.inl rfl)
    · obtain ⟨t', hrun, hsound, hturns⟩ := hs.exists_insert hk hfull v
      have hlive := hsound.isSome_entryAt?_iff.2 (List.mem_map_of_mem hturns.mem_added)
      exact .of_run hrun hsound hlive

theorem ends_insert_absent (hs : t.Sound) (hk : t.contains k = .ok false) (v : V) :
    Ends Sound (· = .arenaFull) (fun h t' => (t'.entryAt? h).isSome = true) ((Edit.insert k v).run t) := by
  refine (hs.ends_insert k v).mono ?_ fun _ _ h => h
  rintro e (he | ⟨-, hpresent⟩)
  · exact he
  · rw [hk] at hpresent
    cases hpresent

theorem ends_edited (hs : t.Sound) {act : Edit K V α} {a : α} {v : V} (hi : t.entryAt? i = some e)
    (hrun : act.run t = .ok a (t.edited i v)) :
    Ends Sound E (fun _ t' => (t'.entryAt? i).isSome = true) (act.run t) :=
  .of_run hrun (hs.edited hi v).1 (hs.edited hi v).2.2

theorem ends_modifyValue (hs : t.Sound) (hi : (t.entryAt? i).isSome = true) (f : V → V) :
    Ends Sound E (fun _ t' => (t'.entryAt? i).isSome = true) ((Edit.modifyValue i f).run t) := by
  obtain ⟨e, he⟩ := Option.isSome_iff_exists.1 hi
  exact hs.ends_edited he (run_modifyValue he f)

theorem ends_replaceValue (hs : t.Sound) (hi : (t.entryAt? i).isSome = true) (v : V) :
    Ends Sound E (fun _ t' => (t'.entryAt? i).isSome = true) ((Edit.replaceValue i v).run t) := by
  obtain ⟨e, he⟩ := Option.isSome_iff_exists.1 hi
  exact hs.ends_edited he (run_replaceValue he v)

theorem ends_modifyAt? (hs : t.Sound) (i : Handle) (f : V → V) :
    Ends Sound E (fun _ _ => True) ((Edit.modifyAt? i f).run t) := by
  cases hi : t.entryAt? i with
  | none => exact .of_run (run_modifyAt?_stale hi f) hs trivial
  | some e => exact .of_run (run_modifyAt? hi f) (hs.edited hi _).1 trivial

theorem ends_replaceAt? (hs : t.Sound) (i : Handle) (v : V) :
    Ends Sound E (fun _ _ => True) ((Edit.replaceAt? i v).run t) := by
  cases hi : t.entryAt? i with
  | none => exact .of_run (run_replaceAt?_stale hi v) hs trivial
  | some e => exact .of_run (run_replaceAt? hi v) (hs.edited hi v).1 trivial

theorem ends_delete (hs : t.Sound) (i : Handle) :
    Ends Sound E (fun found _ => found = t.entryAt? i) ((Edit.delete i).run t) := by
  cases hi : t.entryAt? i with
  | none => exact .of_run (run_delete_stale hi) hs rfl
  | some e =>
    obtain ⟨t', hrun, hsound, -⟩ := hs.exists_delete hi
    exact .of_run hrun hsound rfl

theorem ends_removeEntry (hs : t.Sound) (hi : (t.entryAt? i).isSome = true) :
    Ends Sound E (fun _ _ => True) ((Edit.removeEntry i).run t) := by
  refine (hs.ends_delete i).bind fun found t' hsound hfound => ?_
  obtain ⟨e, rfl⟩ := Option.isSome_iff_exists.1 (hfound ▸ hi)
  exact .answer hsound trivial

theorem ends_after_search (hs : t.Sound) (k : K) {act : Option Handle → Edit K V α}
    {Q : α → Tree K V → Prop}
    (hfound : ∀ i, (t.entryAt? i).isSome = true → Ends Sound E Q ((act (some i)).run t))
    (hnone : t.contains k = .ok false → Ends Sound E Q ((act none).run t)) :
    Ends Sound E Q ((Act.look (·.search k) >>= act).run t) := by
  rcases hs.search_cases k with hsearch | ⟨i, e, hsearch, hi⟩
  · have hnothing : Answers (t.search k) (· = none) := ⟨_, hsearch, rfl⟩
    refine .look_bind hnothing ?_
    rintro _ rfl
    exact hnone (Act.ok_then hsearch rfl)
  · have hsomething : Answers (t.search k) (· = some i) := ⟨_, hsearch, rfl⟩
    refine .look_bind hsomething ?_
    rintro _ rfl
    exact hfound i (Option.isSome_of_eq_some hi)

theorem ends_remove (hs : t.Sound) (k : K) :
    Ends Sound E (fun _ _ => True) ((Edit.remove k).run t) :=
  hs.ends_after_search k (fun i _ => (hs.ends_delete i).map) fun _ => .answer hs trivial

theorem ends_clear (hs : t.Sound) : Ends Sound E (fun _ _ => True) (Edit.clear.run t) :=
  .of_run (run_clear t) hs.cleared.1 trivial

theorem ends_noteAll (hs : t.Sound) (es : Array Event) :
    Ends Sound E (fun _ _ => True) ((Edit.noteAll es).run t) := by
  obtain ⟨ns, h⟩ := hs.holds
  have hreport : (t.report es.toList).Sound := (h.report es.toList).sound hs.lawful
  exact .of_run rfl hreport trivial

theorem ends_drain (hs : t.Sound) : Ends Sound E (fun _ _ => True) (Edit.drain.run t) := by
  obtain ⟨t', hrun, hsound, -⟩ := hs.run_drain
  exact .of_run hrun hsound trivial

/-! ### Entries -/

theorem answers_entryAt (hs : t.Sound) (hi : (t.entryAt? i).isSome = true) :
    Answers (t.entryOf i) fun _ => True := by
  obtain ⟨e, he⟩ := hs.answers_entryOf (hs.isSome_entryAt?_iff.1 hi)
  exact .of_ok he.1

theorem answers_entry (hs : t.Sound) (k : K) : Answers (t.entry k) (·.Stands t) := by
  rcases hs.search_cases k with hsearch | ⟨i, e, hsearch, hi⟩
  · have hcontains : t.contains k = .ok false := Act.ok_then hsearch rfl
    exact ⟨.vacant k, Act.ok_then hsearch rfl, hcontains⟩
  · exact ⟨.occupied i, Act.ok_then hsearch rfl, Option.isSome_of_eq_some hi⟩

end Tree.Sound

namespace Entry
variable {t : Tree K V} {e : Entry K} {E : Failure → Prop}

theorem Stands.answers_key (h : e.Stands t) (hs : t.Sound) : Answers (e.key t) fun _ => True := by
  cases e with
  | occupied i => exact (hs.answers_entryAt h).map
  | vacant k => exact .of_ok rfl

theorem Stands.answers_doc [Text.Describe K] [Text.Describe V] (h : e.Stands t) (hs : t.Sound) :
    Answers (e.doc t) fun _ => True := by
  cases e with
  | occupied i => exact (hs.answers_entryAt h).map
  | vacant k => exact .of_ok rfl

theorem ends_orInsert (hs : t.Sound) (h : e.Stands t) (default : V) :
    Ends Tree.Sound (· = .arenaFull) (fun i t' => (t'.entryAt? i).isSome = true)
      ((e.orInsert default).run t) := by
  cases e with
  | occupied i => exact .answer hs h
  | vacant k => exact hs.ends_insert_absent h default

theorem ends_orInsertWith {σ : Type} (hs : t.Sound) (h : e.Stands t) (default : StateM σ V) (s : σ) :
    Ends Tree.Sound (· = .arenaFull) (fun r t' => (t'.entryAt? r.1).isSome = true)
      (((e.orInsertWith default).run s).run t) := by
  cases e with
  | occupied i => exact .answer hs h
  | vacant k =>
    rw [run_orInsertWith_vacant]
    exact (hs.ends_insert_absent h _).bind fun i t' hs' hi => .answer hs' hi

theorem ends_andModify (hs : t.Sound) (h : e.Stands t) (f : V → V) :
    Ends Tree.Sound E (fun e' t' => e'.Stands t') ((e.andModify f).run t) := by
  cases e with
  | occupied i => exact (hs.ends_modifyValue h f).bind fun _ t' hs' hi => .answer hs' hi
  | vacant k => exact .answer hs h

end Entry

namespace EntryUse
variable {t : Tree K V} {e : Entry K} {E : Failure → Prop}

theorem ends_valueOf {i : Handle} (hs : t.Sound) (hi : (t.entryAt? i).isSome = true) :
    Ends Tree.Sound E (fun _ _ => True) ((valueOf i : Edit K V (Answer K V)).run t) :=
  .look_bind (hs.answers_entryAt hi) fun _ _ => .answer hs trivial

variable [Text.Describe K] [Text.Describe V]

theorem ends_textOf (hs : t.Sound) (h : e.Stands t) (l : Text.Layout) :
    Ends Tree.Sound E (fun _ t' => e.Stands t') ((textOf e l : Edit K V (Answer K V)).run t) :=
  .look_bind (h.answers_doc hs) fun _ _ => .answer hs h

theorem ends_run (hs : t.Sound) (h : e.Stands t) (use : EntryUse V) :
    Ends Tree.Sound (· = .arenaFull) (fun _ _ => True) ((use.run e).run t) := by
  cases use with
  | describe =>
    exact (ends_textOf hs h .line).bind fun line t' hs' h' => (ends_textOf hs' h' .block).map
  | orInsert default f =>
    exact (Entry.ends_orInsert hs h default).bind fun i t' hs' hi => (hs'.ends_modifyValue hi f).map
  | orInsertWith default =>
    refine (Entry.ends_orInsertWith hs h _ false).bind fun r t' hs' hi => ?_
    exact (ends_valueOf hs' hi).map
  | andModify f =>
    refine (Entry.ends_andModify hs h f).bind fun e' t' hs' h' => ?_
    exact (ends_textOf hs' h' .line).mono (fun _ he => he) fun _ _ _ => trivial
  | andModifyOrInsert f default =>
    refine (Entry.ends_andModify hs h f).bind fun e' t' hs' h' => ?_
    exact (Entry.ends_orInsert hs' h' default).bind fun i t'' hs'' hi => ends_valueOf hs'' hi
  | insert v f =>
    cases e with
    | occupied i =>
      exact (hs.ends_replaceValue h v).bind fun old t' hs' hi => (ends_valueOf hs' hi).map
    | vacant k =>
      exact (hs.ends_insert_absent h v).bind fun i t' hs' hi => (hs'.ends_modifyValue hi f).map
  | takeKey => exact .answer hs trivial
  | handle => cases e <;> exact .answer hs trivial
  | get =>
    cases e with
    | occupied i => exact .look_bind (hs.answers_entryAt h) fun _ _ => .answer hs trivial
    | vacant k => exact .answer hs trivial
  | modify f =>
    cases e with
    | occupied i => exact (hs.ends_modifyValue h f).map
    | vacant k => exact .answer hs trivial
  | remove =>
    cases e with
    | occupied i => exact (hs.ends_removeEntry h).map
    | vacant k => exact .answer hs trivial
  | removeEntry =>
    cases e with
    | occupied i => exact (hs.ends_removeEntry h).map
    | vacant k => exact .answer hs trivial

end EntryUse

/-! ### Cursors -/

namespace Cursor
variable {t : Tree K V} {E : Failure → Prop}

theorem ends_modify (hs : t.Sound) (c : Cursor) (f : V → V) :
    Ends Tree.Sound E (fun _ _ => True) ((c.modify f).run t) := by
  obtain ⟨node⟩ := c
  cases node with
  | none => exact .answer hs trivial
  | some i =>
    refine (hs.ends_modifyAt? i f).bind fun v t' hs' _ => ?_
    cases v <;> exact .answer hs' trivial

theorem ends_replace (hs : t.Sound) (c : Cursor) (v : V) :
    Ends Tree.Sound E (fun _ _ => True) ((c.replace v).run t) := by
  obtain ⟨node⟩ := c
  cases node with
  | none => exact .answer hs trivial
  | some i =>
    refine (hs.ends_replaceAt? i v).bind fun old t' hs' _ => ?_
    cases old <;> exact .answer hs' trivial

theorem ends_remove (hs : t.Sound) (c : Cursor) :
    Ends Tree.Sound E (fun _ _ => True) ((c.remove : Edit K V _).run t) := by
  obtain ⟨node⟩ := c
  cases node with
  | none => exact .answer hs trivial
  | some i =>
    refine .look_bind (hs.answers_neighbor .right i) fun after _ => ?_
    refine (hs.ends_delete i).bind fun e t' hs' _ => ?_
    cases e <;> exact .answer hs' trivial

theorem ends_edit (hs : t.Sound) (c : Cursor) (m : EditMove V) :
    Ends Tree.Sound E (fun _ _ => True) ((c.edit m : Edit K V _).run t) := by
  cases m with
  | next => exact .look_bind (Cursor.answers_step hs c .right) fun _ _ => .answer hs trivial
  | prev => exact .look_bind (Cursor.answers_step hs c .left) fun _ _ => .answer hs trivial
  | valid | handle | key | value | describe | readOnly => exact .answer hs trivial
  | remove =>
    refine (ends_remove hs c).bind fun r t' hs' _ => ?_
    cases r <;> exact .answer hs' trivial
  | replace v => exact (ends_replace hs c v).map
  | modify f => exact (ends_modify hs c f).map

theorem ends_edits (hs : t.Sound) (c : Cursor) (ms : List (EditMove V)) :
    Ends Tree.Sound E (fun _ _ => True) ((c.edits ms : Edit K V _).run t) := by
  induction ms generalizing c t with
  | nil => exact .answer hs trivial
  | cons m ms ih => exact (ends_edit hs c m).bind fun r t' hs' _ => (ih hs' r.2).map

end Cursor

/-! ### All changes -/

namespace Change
variable [Text.Describe K] [Text.Describe V] {t : Tree K V}

def Refuses (t : Tree K V) (c : Change K V) (e : Failure) : Prop :=
  e = .arenaFull ∨ e = .duplicateKey ∧ ∃ k v, c = .insert k v ∧ t.contains k = .ok true

theorem ends_insertMany {E : Failure → Prop} (hs : t.Sound) (items : List (K × V)) :
    Ends Tree.Sound E
      (fun a _ => ∃ as, a = .many as ∧ ∀ f, .failed f ∈ as → f = .duplicateKey ∨ f = .arenaFull)
      (((insertMany items).run : Edit K V _).run t) := by
  have hinsert (t : Tree K V) (hs : t.Sound) (item : K × V) :
      Ends Tree.Sound E (fun a _ => ∀ f, a = .failed f → f = .duplicateKey ∨ f = .arenaFull)
        ((do return .attempted ((← (Edit.insert item.1 item.2).attempt).map .handle) :
          Edit K V (Answer K V)).run t) := by
    refine ((hs.ends_insert item.1 item.2).attempt.mono (fun _ he => he.elim) fun _ _ h => h).bind
      fun r t' hs' hr => ?_
    cases r with
    | ok i => exact .answer hs' fun f hf => nomatch hf
    | error e =>
      refine .answer hs' fun f hf => ?_
      obtain rfl : e = f := Answer.failed.inj hf
      exact (hr e rfl).elim .inr fun h => .inl h.1
  refine (Ends.mapM (fun item _ t hs => hinsert t hs item) hs).bind fun as t' hs' has => ?_
  exact .answer hs' ⟨as, rfl, fun f hf => has _ hf f rfl⟩

theorem ends_run (hs : t.Sound) (c : Change K V) :
    Ends Tree.Sound (c.Refuses t) (fun _ _ => True) (c.run.run t) := by
  cases c with
  | insert k v =>
    refine ((hs.ends_insert k v).mono ?_ fun _ _ h => h).map
    rintro e (he | ⟨he, hk⟩)
    · exact .inl he
    · exact .inr ⟨he, k, v, rfl, hk⟩
  | insertMany items => exact (ends_insertMany hs items).mono (fun _ he => he) fun _ _ _ => trivial
  | remove k => exact (hs.ends_remove k).map
  | removeMany ks => exact (Ends.mapM (P := fun _ => True) (fun k _ t hs => (hs.ends_remove k).map) hs).map
  | delete i => exact (hs.ends_delete i).map
  | clear => exact hs.ends_clear.bind fun _ t' hs' _ => .answer hs' trivial
  | modify k f =>
    exact hs.ends_after_search k (fun i hi => (hs.ends_modifyValue hi f).map) fun _ => .answer hs trivial
  | modifyAt i f => exact (hs.ends_modifyAt? i f).map
  | replaceAt i v => exact (hs.ends_replaceAt? i v).map
  | entry k use =>
    refine .look_bind (hs.answers_entry k) fun e he => ?_
    refine .look_bind (he.answers_key hs) fun key _ => ?_
    exact ((EntryUse.ends_run hs he use).mono (fun _ => .inl) fun _ _ h => h).map
  | cursor s ms =>
    exact .look_bind (hs.answers_start s) fun c _ => (Cursor.ends_edits hs c ms).map
  | drain ps => exact hs.ends_drain.map

end Change

namespace Command
variable [Text.Describe K] [Text.Describe V] {t : Tree K V}

/-- The commands come to a raw insertion of a key that is there. -/
inductive Duplicates : Tree K V → List (Command K V) → Prop
  | here {t : Tree K V} {k : K} {v : V} {cs : List (Command K V)} (hk : t.contains k = .ok true) :
      Duplicates t (.change (.insert k v) :: cs)
  | later {t t' : Tree K V} {c : Command K V} {a : Answer K V} {cs : List (Command K V)}
      (hrun : c.run.run t = .ok a t') (h : Duplicates t' cs) : Duplicates t (c :: cs)

theorem ends_run (hs : t.Sound) (c : Command K V) (cs : List (Command K V)) :
    Ends Tree.Sound (fun e => e = .arenaFull ∨ e = .duplicateKey ∧ Duplicates t (c :: cs))
      (fun _ _ => True) (c.run.run t) := by
  cases c with
  | ask q =>
    obtain ⟨a, ha, -⟩ := hs.answers_ask q
    exact .of_run (Act.run_look_ok ha) hs trivial
  | change c =>
    refine (Change.ends_run hs c).mono ?_ fun _ _ h => h
    rintro e (he | ⟨he, k, v, rfl, hk⟩)
    · exact .inl he
    · exact .inr ⟨he, .here hk⟩

theorem ends_mapM (hs : t.Sound) (cs : List (Command K V)) :
    Ends Tree.Sound (fun e => e = .arenaFull ∨ e = .duplicateKey ∧ Duplicates t cs)
      (fun _ _ => True) ((cs.mapM run).run t) := by
  induction cs generalizing t with
  | nil => exact .answer hs trivial
  | cons c cs ih =>
    rw [List.mapM_cons]
    have hrun := ends_run hs c cs
    cases hr : c.run.run t with
    | error e t' =>
      rw [hr] at hrun
      rw [Act.fail_then hr]
      cases hrun with
      | failure kept allowed => exact .failure kept allowed
    | ok a t' =>
      rw [hr] at hrun
      cases hrun with
      | answer kept _ =>
        rw [Act.run_then hr rfl]
        refine Ends.map ((ih kept).mono ?_ fun _ _ h => h)
        rintro e (he | ⟨he, hdup⟩)
        · exact .inl he
        · exact .inr ⟨he, .later hr hdup⟩

theorem ends_runAll (hs : t.Sound) (cs : List (Command K V)) :
    Ends Tree.Sound (fun e => e = .arenaFull ∨ e = .duplicateKey ∧ Duplicates t cs)
      (fun _ _ => True) ((runAll cs).run t) := (ends_mapM hs cs).map

end Command

/-! ### Clients -/

def Hold.Stands (t : Tree K V) : Hold K → Prop
  | .entry e => e.Stands t
  | .value i => (t.entryAt? i).isSome = true
  | .nothing | .cursor _ => True

theorem Entry.ends_call {t : Tree K V} {e : Entry K} (hs : t.Sound) (h : e.Stands t) (c : Entry.Call V) :
    Ends Tree.Sound (· = .arenaFull) (fun r t' => r.2.Stands t') ((e.call c).run t) := by
  cases c with
  | andModify f => exact (Entry.ends_andModify hs h f).bind fun e' t' hs' h' => .answer hs' h'
  | orInsert default => exact (Entry.ends_orInsert hs h default).bind fun i t' hs' hi => .answer hs' hi
  | orInsertWith default =>
    exact (Entry.ends_orInsertWith hs h _ ()).bind fun r t' hs' hi => .answer hs' hi
  | modify f =>
    cases e with
    | occupied i => exact (hs.ends_modifyValue h f).bind fun _ t' hs' hi => .answer hs' hi
    | vacant k => exact .answer hs h
  | insert v =>
    cases e with
    | occupied i => exact (hs.ends_replaceValue h v).bind fun _ t' hs' hi => .answer hs' hi
    | vacant k => exact (hs.ends_insert_absent h v).bind fun i t' hs' hi => .answer hs' hi
  | remove =>
    cases e with
    | occupied i => exact (hs.ends_removeEntry h).bind fun _ t' hs' _ => .answer hs' trivial
    | vacant k => exact .answer hs h

theorem Cursor.ends_call {t : Tree K V} {E : Failure → Prop} (hs : t.Sound) (cur : Cursor)
    (c : Cursor.Call V) :
    Ends Tree.Sound E (fun r t' => r.2.Stands t') ((cur.call c).run t) := by
  cases c with
  | step a =>
    refine .look_bind (Cursor.answers_step hs cur a) fun r _ => ?_
    cases r <;> exact .answer hs trivial
  | modify f => exact (Cursor.ends_modify hs cur f).bind fun _ t' hs' _ => .answer hs' trivial
  | replace v => exact (Cursor.ends_replace hs cur v).bind fun _ t' hs' _ => .answer hs' trivial
  | remove => exact (Cursor.ends_remove hs cur).bind fun _ t' hs' _ => .answer hs' trivial

namespace Call
variable {t : Tree K V}

def Refuses (t : Tree K V) (c : Call K V) (e : Failure) : Prop :=
  e = .arenaFull ∨ e = .duplicateKey ∧ ∃ k v, c = .insert k v ∧ t.contains k = .ok true

theorem ends_act (hs : t.Sound) (c : Call K V) {hold : Hold K} (h : hold.Stands t) :
    Ends Tree.Sound (c.Refuses t) (fun r t' => r.2.Stands t') ((c.act hold).run t) := by
  cases c with
  | insert k v =>
    refine ((hs.ends_insert k v).mono ?_ fun _ _ h => h).bind fun _ t' hs' _ => .answer hs' trivial
    rintro e (he | ⟨he, hk⟩)
    · exact .inl he
    · exact .inr ⟨he, k, v, rfl, hk⟩
  | delete i => exact (hs.ends_delete i).bind fun _ t' hs' _ => .answer hs' trivial
  | remove k =>
    refine .look_bind (hs.answers_seek .exact k) fun found _ => ?_
    exact (hs.ends_remove k).bind fun _ t' hs' _ => .answer hs' trivial
  | clear => exact hs.ends_clear.bind fun _ t' hs' _ => .answer hs' trivial
  | modify k f =>
    refine hs.ends_after_search k (fun i hi => ?_) fun _ => .answer hs trivial
    exact (hs.ends_modifyValue hi f).bind fun _ t' hs' _ => .answer hs' trivial
  | modifyAt i f => exact (hs.ends_modifyAt? i f).bind fun _ t' hs' _ => .answer hs' trivial
  | replaceAt i v => exact (hs.ends_replaceAt? i v).bind fun _ t' hs' _ => .answer hs' trivial
  | entry k => exact .look_bind (hs.answers_entry k) fun e he => .answer hs he
  | cursor s => exact .look_bind (hs.answers_start s) fun c _ => .answer hs trivial
  | onEntry c =>
    cases hold with
    | entry e => exact (Entry.ends_call hs h c).mono (fun _ => .inl) fun _ _ h => h
    | nothing | value _ | cursor _ => exact .answer hs h
  | onValue f =>
    cases hold with
    | value i => exact (hs.ends_modifyValue h f).bind fun _ t' hs' hi => .answer hs' hi
    | nothing | entry _ | cursor _ => exact .answer hs h
  | onCursor c =>
    cases hold with
    | cursor cur => exact Cursor.ends_call hs cur c
    | nothing | entry _ | value _ => exact .answer hs h

end Call

namespace Client

structure Stands (s : Client K V) : Prop where
  sound : s.tree.Sound
  hold : s.hold.Stands s.tree

theorem Stands.step {s : Client K V} (h : s.Stands) (c : Call K V) :
    (s.step c).2.Stands ∧ ∀ e, (s.step c).1 = .error e → c.Refuses s.tree e := by
  have hends := c.ends_act h.sound h.hold
  unfold Client.step
  cases hrun : (c.act s.hold).run s.tree with
  | ok r t' =>
    rw [hrun] at hends
    cases hends with
    | answer kept holds => exact ⟨⟨kept, holds⟩, fun e he => nomatch he⟩
  | error e t' =>
    rw [hrun] at hends
    cases hends with
    | failure kept allowed =>
      refine ⟨⟨kept, trivial⟩, fun e' he' => ?_⟩
      obtain rfl : e = e' := Except.error.inj he'
      exact allowed

theorem Stands.run {s : Client K V} (h : s.Stands) (calls : List (Call K V)) : (s.run calls).Stands := by
  induction calls generalizing s with
  | nil => exact h
  | cons c calls ih => exact ih (h.step c).1

end Client
end RedBlack
