import RedBlack.Command.Change
import RedBlack.Proofs.Client

/-! What clients do to a tree is put together from a few readings and changes. A property of operations that
goes through sequences, and that these have, all of it has. -/
namespace RedBlack
variable {K V α β : Type}

namespace Edit

structure ClosedUnderClientOps (P : (α : Type) → Edit K V α → Prop) : Prop where
  pure : ∀ {α : Type} (a : α), P α (Pure.pure a)
  throw : ∀ {α : Type} (e : Failure), P α (throw e)
  bind : ∀ {α β : Type} {act : Edit K V α} {k : α → Edit K V β}, P α act → (∀ a, P β (k a)) →
    P β (act >>= k)
  search : ∀ k, P (Option Handle) (Act.look (·.search k))
  entry : ∀ k, P (Entry K) (Act.look (·.entry k))
  entryKey : ∀ e : Entry K, P K (Act.look fun t => e.key t)
  entryDoc : ∀ [Text.Describe K] [Text.Describe V] (e : Entry K), P Text.Doc (Act.look fun t => e.doc t)
  entryOf : ∀ h, P (K × V) (Act.look (·.entryOf h))
  successor : ∀ h, P (Option Handle) (Act.look (·.successor h))
  start : ∀ s, P Cursor (Act.look fun t => Cursor.start t s)
  step : ∀ a c, P (Except Refusal Cursor) (Act.look (Cursor.step a c))
  cursorKey : ∀ c : Cursor, P (Except Refusal K) (do return c.key (← get))
  cursorValue : ∀ c : Cursor, P (Except Refusal V) (do return c.value (← get))
  attached : ∀ c : Cursor, P (Except Refusal (K × V)) (do
    let t ← get
    return (Cursor.attach t c.node).entry t)
  insert : ∀ k v, P Handle (insert k v)
  delete : ∀ h, P (Option (K × V)) (delete h)
  modifyValue : ∀ h f, P V (modifyValue h f)
  replaceValue : ∀ h v, P V (replaceValue h v)
  modifyAt? : ∀ h f, P (Option V) (modifyAt? h f)
  replaceAt? : ∀ h v, P (Option V) (replaceAt? h v)
  clear : P Unit clear
  drain : P (List (K × V)) drain

namespace ClosedUnderClientOps
variable {P : (α : Type) → Edit K V α → Prop} (h : ClosedUnderClientOps P)
include h

theorem map {act : Edit K V α} (hact : P α act) (f : α → β) : P β (do return f (← act)) :=
  h.bind hact fun _ => h.pure _

theorem mapM {f : α → Edit K V β} (hf : ∀ a, P β (f a)) (as : List α) : P (List β) (as.mapM f) := by
  induction as with
  | nil => exact h.pure []
  | cons a as ih =>
    rw [List.mapM_cons]
    exact h.bind (hf a) fun b => h.map ih _

theorem remove (k : K) : P (Option V) (remove k) := by
  refine h.bind (h.search k) fun found => ?_
  cases found with
  | none => exact h.pure none
  | some i => exact h.map (h.delete i) _

theorem removeEntry (i : Handle) : P (K × V) (removeEntry i) := by
  refine h.bind (h.delete i) fun found => ?_
  cases found with
  | none => exact h.throw _
  | some e => exact h.pure e

/-! ### Entries and cursors -/

theorem orInsert (e : Entry K) (default : V) : P Handle (e.orInsert default) := by
  cases e with
  | occupied i => exact h.pure i
  | vacant k => exact h.insert k default

theorem orInsertWith {σ : Type} (e : Entry K) (default : StateM σ V) (s : σ) :
    P (Handle × σ) ((e.orInsertWith default).run s) := by
  cases e with
  | occupied i => exact h.pure (i, s)
  | vacant k =>
    rw [Entry.run_orInsertWith_vacant]
    exact h.map (h.insert k _) _

theorem andModify (e : Entry K) (f : V → V) : P (Entry K) (e.andModify f) := by
  cases e with
  | occupied i => exact h.bind (h.modifyValue i f) fun _ => h.pure _
  | vacant k => exact h.pure _

theorem cursorModify (c : Cursor) (f : V → V) : P (Except Refusal V) (c.modify f) := by
  obtain ⟨node⟩ := c
  cases node with
  | none => exact h.pure _
  | some i =>
    refine h.bind (h.modifyAt? i f) fun v => ?_
    cases v <;> exact h.pure _

theorem cursorReplace (c : Cursor) (v : V) : P (Except Refusal V) (c.replace v) := by
  obtain ⟨node⟩ := c
  cases node with
  | none => exact h.pure _
  | some i =>
    refine h.bind (h.replaceAt? i v) fun old => ?_
    cases old <;> exact h.pure _

theorem cursorRemove (c : Cursor) : P (Except Refusal ((K × V) × Cursor)) c.remove := by
  obtain ⟨node⟩ := c
  cases node with
  | none => exact h.pure _
  | some i =>
    refine h.bind (h.successor i) fun after => h.bind (h.delete i) fun e => ?_
    cases e <;> exact h.pure _

theorem entryCall (e : Entry K) (c : Entry.Call V) : P (Effect K V × Hold K) (e.call c) := by
  cases c with
  | andModify f => exact h.bind (h.andModify e f) fun _ => h.pure _
  | orInsert default => exact h.bind (h.orInsert e default) fun _ => h.pure _
  | orInsertWith default => exact h.bind (h.orInsertWith e _ ()) fun _ => h.pure _
  | modify f =>
    cases e with
    | occupied i => exact h.bind (h.modifyValue i f) fun _ => h.pure _
    | vacant k => exact h.pure _
  | insert v =>
    cases e with
    | occupied i => exact h.bind (h.replaceValue i v) fun _ => h.pure _
    | vacant k => exact h.bind (h.insert k v) fun _ => h.pure _
  | remove =>
    cases e with
    | occupied i => exact h.bind (h.removeEntry i) fun _ => h.pure _
    | vacant k => exact h.pure _

theorem cursorCall (cur : Cursor) (c : Cursor.Call V) : P (Effect K V × Hold K) (cur.call c) := by
  cases c with
  | step a =>
    refine h.bind (h.step a cur) fun r => ?_
    cases r <;> exact h.pure _
  | modify f => exact h.bind (h.cursorModify cur f) fun _ => h.pure _
  | replace v => exact h.bind (h.cursorReplace cur v) fun _ => h.pure _
  | remove => exact h.bind (h.cursorRemove cur) fun _ => h.pure _

theorem act (c : Call K V) (hold : Hold K) : P (Effect K V × Hold K) (c.act hold) := by
  cases c with
  | insert k v => exact h.bind (h.insert k v) fun _ => h.pure _
  | delete i => exact h.bind (h.delete i) fun _ => h.pure _
  | remove k => exact h.bind (h.search k) fun found => h.bind (h.remove k) fun _ => h.pure _
  | clear => exact h.bind h.clear fun _ => h.pure _
  | modify k f =>
    refine h.bind (h.search k) fun found => ?_
    cases found with
    | none => exact h.pure _
    | some i => exact h.bind (h.modifyValue i f) fun _ => h.pure _
  | modifyAt i f => exact h.bind (h.modifyAt? i f) fun _ => h.pure _
  | replaceAt i v => exact h.bind (h.replaceAt? i v) fun _ => h.pure _
  | entry k => exact h.bind (h.entry k) fun _ => h.pure _
  | cursor s => exact h.bind (h.start s) fun _ => h.pure _
  | onEntry c =>
    cases hold with
    | entry e => exact h.entryCall e c
    | nothing | value _ | cursor _ => exact h.pure _
  | onValue f =>
    cases hold with
    | value i => exact h.bind (h.modifyValue i f) fun _ => h.pure _
    | nothing | entry _ | cursor _ => exact h.pure _
  | onCursor c =>
    cases hold with
    | cursor cur => exact h.cursorCall cur c
    | nothing | entry _ | value _ => exact h.pure _

theorem edit (c : Cursor) (m : EditMove V) : P (Answer K V × Cursor) (c.edit m) := by
  cases m with
  | next => exact h.map (h.step .right c) _
  | prev => exact h.map (h.step .left c) _
  | valid | handle | describe => exact h.pure _
  | key => exact h.map (h.cursorKey c) fun r => (Answer.result .key r, c)
  | value => exact h.map (h.cursorValue c) fun r => (Answer.result .value r, c)
  | readOnly => exact h.map (h.attached c) fun r => (Answer.result .entry r, c)
  | remove =>
    refine h.bind (h.cursorRemove c) fun r => ?_
    cases r <;> exact h.pure _
  | replace v => exact h.map (h.cursorReplace c v) _
  | modify f => exact h.map (h.cursorModify c f) _

theorem edits (c : Cursor) (ms : List (EditMove V)) : P (List (Answer K V)) (c.edits ms) := by
  induction ms generalizing c with
  | nil => exact h.pure []
  | cons m ms ih => exact h.bind (h.edit c m) fun r => h.map (ih r.2) _

/-! ### Commands -/

theorem valueOf (i : Handle) : P (Answer K V) (EntryUse.valueOf i) := h.map (h.entryOf i) _

section
variable [Text.Describe K] [Text.Describe V]

theorem textOf (e : Entry K) (l : Text.Layout) : P (Answer K V) (EntryUse.textOf e l) :=
  h.map (h.entryDoc e) _

theorem use (e : Entry K) (use : EntryUse V) : P (Answer K V) (use.run e) := by
  cases use with
  | describe => exact h.bind (h.textOf e .line) fun _ => h.map (h.textOf e .block) _
  | orInsert default f => exact h.bind (h.orInsert e default) fun i => h.map (h.modifyValue i f) _
  | orInsertWith default => exact h.bind (h.orInsertWith e _ false) fun r => h.map (h.valueOf r.1) _
  | andModify f => exact h.bind (h.andModify e f) fun e => h.textOf e .line
  | andModifyOrInsert f default =>
    exact h.bind (h.andModify e f) fun e => h.bind (h.orInsert e default) fun i => h.valueOf i
  | insert v f =>
    cases e with
    | occupied i => exact h.bind (h.replaceValue i v) fun _ => h.map (h.valueOf i) _
    | vacant k => exact h.bind (h.insert k v) fun i => h.map (h.modifyValue i f) _
  | takeKey => exact h.pure _
  | handle => cases e <;> exact h.pure _
  | get =>
    cases e with
    | occupied i => exact h.map (h.entryOf i) _
    | vacant k => exact h.pure _
  | modify f =>
    cases e with
    | occupied i => exact h.map (h.modifyValue i f) _
    | vacant k => exact h.pure _
  | remove =>
    cases e with
    | occupied i => exact h.map (h.removeEntry i) _
    | vacant k => exact h.pure _
  | removeEntry =>
    cases e with
    | occupied i => exact h.map (h.removeEntry i) _
    | vacant k => exact h.pure _

/-- A change has the property. One that goes on after a failure is another matter. -/
theorem change (c : Change K V) (hc : ∀ items, c ≠ .insertMany items) : P (Answer K V) c.run := by
  cases c with
  | insert k v => exact h.map (h.insert k v) _
  | insertMany items => exact absurd rfl (hc items)
  | remove k => exact h.map (h.remove k) _
  | removeMany ks => exact h.map (h.mapM (fun k => h.map (h.remove k) _) ks) _
  | delete i => exact h.map (h.delete i) _
  | clear => exact h.bind h.clear fun _ => h.pure _
  | modify k f =>
    refine h.bind (h.search k) fun found => ?_
    cases found with
    | none => exact h.pure _
    | some i => exact h.map (h.modifyValue i f) _
  | modifyAt i f => exact h.map (h.modifyAt? i f) _
  | replaceAt i v => exact h.map (h.replaceAt? i v) _
  | entry k use => exact h.bind (h.entry k) fun e => h.bind (h.entryKey e) fun key => h.map (h.use e use) _
  | cursor s ms => exact h.bind (h.start s) fun c => h.map (h.edits c ms) _
  | drain ps => exact h.bind h.drain fun _ => h.pure _

end
end ClosedUnderClientOps
end Edit
end RedBlack
