import RedBlack.Proofs.Compounds
import RedBlack.Proofs.NilLinkReadings

/-! Changes that ignore the parent link of the nil slot. On a tree without it they come to the same answer or
failure as on the tree with it, and to the same tree but for that link. A change may give the nil slot a link
again; from there on the two trees are one and the same. -/
namespace RedBlack
variable {K V α β γ : Type}

def Tree.EqUpToSweep (t u : Tree K V) : Prop := t = u ∨ t = u.swept

/-- The results of a run on a swept tree and on the tree itself: the same, with trees that are equal up to the
sweep; but where the first run came to the gap, all is open. -/
inductive SweptRunAgrees : EStateM.Result Failure (Tree K V) α → EStateM.Result Failure (Tree K V) α → Prop
  | lost {t : Tree K V} {r : EStateM.Result Failure (Tree K V) α} : SweptRunAgrees (.error .gap t) r
  | answer {a : α} {t u : Tree K V} (h : t.EqUpToSweep u) : SweptRunAgrees (.ok a t) (.ok a u)
  | failure {e : Failure} {t u : Tree K V} (h : t.EqUpToSweep u) : SweptRunAgrees (.error e t) (.error e u)

theorem SweptRunAgrees.refl (r : EStateM.Result Failure (Tree K V) α) : SweptRunAgrees r r := by
  cases r with
  | ok a t => exact .answer (.inl rfl)
  | error e t => exact .failure (.inl rfl)

theorem Tree.eqUpToSweep_put (t : Tree K V) (h : Handle) {f : Slot K V → Slot K V}
    (hf : (∀ s, f s.detached = (f s).detached) ∨ ∀ s, f s.detached = f s) :
    (t.swept.put h f).EqUpToSweep (t.put h f) := by
  by_cases hn : h = .nil
  · subst hn
    unfold swept
    rw [put_put]
    rcases hf with hf | hf
    · right
      rw [swept, put_put, show f ∘ Slot.detached = Slot.detached ∘ f from funext hf]
    · left
      rw [show f ∘ Slot.detached = f from funext hf]
  · exact .inr (put_comm t (Ne.symm hn) ..)

theorem Tree.EqUpToSweep.withFree {t u : Tree K V} (h : t.EqUpToSweep u) (free : List Handle) :
    Tree.EqUpToSweep { t with arena := { t.arena with free := free } }
      { u with arena := { u.arena with free := free } } := by
  rcases h with rfl | rfl
  · exact .inl rfl
  · exact .inr rfl

theorem Tree.eqUpToSweep_push (t : Tree K V) (s : Slot K V) :
    Tree.EqUpToSweep { t.swept with arena := t.swept.arena.extend s }
      { t with arena := t.arena.extend s } := by
  by_cases hsize : t.arena.slots.size = 0
  · have hslots : t.arena.slots = #[] := Array.eq_empty_of_size_eq_zero hsize
    have hswept : t.swept.arena.slots = #[] := Array.eq_empty_of_size_eq_zero (t.size_swept.trans hsize)
    have harena : t.swept.arena.extend s = t.arena.extend s :=
      congrArg (fun slots => Arena.mk (slots.push s) t.arena.free) (hswept.trans hslots.symm)
    exact .inl (congrArg (fun a => { t with arena := a }) harena)
  · let u : Tree K V := { t with arena := t.arena.extend s }
    have harena : t.swept.arena.extend s = u.swept.arena := by
      refine Arena.ext_slot? rfl fun i => ?_
      by_cases hi : i = ⟨t.arena.slots.size⟩
      · have hn : i ≠ .nil := fun hn => hsize (congrArg Handle.pos (hi.symm.trans hn))
        rw [slot?_swept_of_ne _ hn, hi, Arena.slot?_extend_self, ← t.size_swept, Arena.slot?_extend_self]
      · have hi' : i ≠ ⟨t.swept.arena.slots.size⟩ := t.size_swept ▸ hi
        rw [Arena.slot?_extend_of_ne _ s hi']
        by_cases hn : i = .nil
        · subst hn
          rw [slot?_swept_nil, slot?_swept_nil, Arena.slot?_extend_of_ne _ s hi]
        · rw [slot?_swept_of_ne _ hn, slot?_swept_of_ne _ hn, Arena.slot?_extend_of_ne _ s hi]
    exact .inr (congrArg (fun a => { t with arena := a }) harena)

theorem Arena.slot?_restart_of_ne (a : Arena K V) {h : Handle} (hn : h ≠ .nil) :
    a.restart.slot? h = none := by
  have hpos : 1 ≤ h.pos := Nat.one_le_iff_ne_zero.2 fun h0 => hn (congrArg Handle.mk h0)
  have hsize : a.restart.slots.size ≤ 1 := by
    simp only [restart, Array.take, Array.size_extract]
    omega
  exact Array.getElem?_eq_none (Nat.le_trans hsize hpos)

theorem Tree.swept_offered (t : Tree K V) (h : Handle) :
    ({ t.swept with arena :=
      if t.swept.isEmpty then t.swept.arena.restart else t.swept.arena.release h } : Tree K V) =
      Tree.swept { t with arena := if t.isEmpty then t.arena.restart else t.arena.release h } := by
  cases hempty : t.isEmpty with
  | false =>
    rw [show t.swept.isEmpty = false from hempty]
    rfl
  | true =>
    rw [show t.swept.isEmpty = true from hempty, if_pos rfl, if_pos rfl]
    let u : Tree K V := { t with arena := t.arena.restart }
    have harena : t.swept.arena.restart = u.swept.arena := by
      refine Arena.ext_slot? rfl fun i => ?_
      by_cases hn : i = .nil
      · subst hn
        rw [slot?_restart_nil, slot?_swept_nil, slot?_swept_nil, slot?_restart_nil]
      · rw [Arena.slot?_restart_of_ne _ hn, slot?_swept_of_ne _ hn, Arena.slot?_restart_of_ne _ hn]
    exact congrArg (fun a => { t with arena := a }) harena

namespace Edit

def IgnoresNilLink (act : Edit K V α) : Prop := ∀ t, SweptRunAgrees (act.run t.swept) (act.run t)

namespace IgnoresNilLink

/-! ### Sequences of changes -/

theorem of_eqUpToSweep {act : Edit K V α} (h : IgnoresNilLink act) {t u : Tree K V} (htu : t.EqUpToSweep u) :
    SweptRunAgrees (act.run t) (act.run u) := by
  rcases htu with rfl | rfl
  · exact .refl _
  · exact h u

theorem pure (a : α) : IgnoresNilLink (Pure.pure a : Edit K V α) := fun _ => .answer (.inr rfl)

theorem throw (e : Failure) : IgnoresNilLink (throw e : Edit K V α) := fun _ => .failure (.inr rfl)

theorem bind {act : Edit K V α} {k : α → Edit K V β} (hact : IgnoresNilLink act)
    (hk : ∀ a, IgnoresNilLink (k a)) : IgnoresNilLink (act >>= k) := by
  intro t
  have hagrees := hact t
  rw [EStateM.run_bind, EStateM.run_bind]
  generalize act.run t.swept = r at hagrees ⊢
  generalize act.run t = r' at hagrees ⊢
  cases hagrees with
  | lost => exact .lost
  -- The trees may have become the same by now, so the rest is asked of both kinds of pairs.
  | answer h => exact (hk _).of_eqUpToSweep h
  | failure h => exact .failure h

theorem map {act : Edit K V α} (hact : IgnoresNilLink act) (f : α → β) :
    IgnoresNilLink (do return f (← act) : Edit K V β) := bind hact fun _ => pure _

theorem ite {c : Prop} [Decidable c] {act act' : Edit K V α} (h : IgnoresNilLink act)
    (h' : IgnoresNilLink act') : IgnoresNilLink (if c then act else act') := by
  split
  · exact h
  · exact h'

theorem when {c : Prop} [Decidable c] {act : Edit K V Unit} {k : Unit → Edit K V α}
    (hact : IgnoresNilLink act) (hk : IgnoresNilLink (k ())) : IgnoresNilLink (if c then act >>= k else k ()) :=
  ite (bind hact fun _ => hk) hk

theorem look {f : Tree K V → Except Failure α} (hf : Tree.IgnoresNilLink f) :
    IgnoresNilLink (Act.look f) := by
  intro t
  rw [Act.run_look, Act.run_look]
  rcases hf t with hgap | hsame
  · rw [hgap]
    exact .lost
  · rw [hsame]
    cases f t with
    | ok a => exact .answer (.inr rfl)
    | error e => exact .failure (.inr rfl)

theorem reading {k : Tree K V → Edit K V α} (hk : ∀ t, k t.swept = k t) (h : ∀ t, IgnoresNilLink (k t)) :
    IgnoresNilLink (get >>= k) := by
  intro t
  change SweptRunAgrees ((k t.swept).run t.swept) ((k t).run t)
  rw [hk]
  exact h t t

theorem changing {f : Tree K V → Tree K V} (hf : ∀ t, (f t.swept).EqUpToSweep (f t)) :
    IgnoresNilLink (modify f : Edit K V Unit) := fun t => .answer (hf t)

theorem roundsFor {round : α → Edit K V (Round α β)} (hround : ∀ a, IgnoresNilLink (round a)) (n : Nat)
    (a : α) : IgnoresNilLink (rounds round n a) := by
  induction n generalizing a with
  | zero =>
    refine bind (hround a) fun r => ?_
    cases r with
    | again next => exact throw _
    | done b => exact pure b
  | succ n ih =>
    refine bind (hround a) fun r => ?_
    cases r with
    | again next => exact ih next
    | done b => exact pure b

theorem loop {round : α → Edit K V (Round α β)} (hround : ∀ a, IgnoresNilLink (round a)) (a : α)
    {k : β → Edit K V γ} (hk : ∀ b, IgnoresNilLink (k b)) :
    IgnoresNilLink (do k (← rounds round (← get).reach a)) := by
  refine reading (fun t => by rw [t.reach_swept]) fun t => bind (roundsFor hround _ a) hk

theorem mapM {f : α → Edit K V β} (hf : ∀ a, IgnoresNilLink (f a)) (as : List α) :
    IgnoresNilLink (as.mapM f) := by
  induction as with
  | nil => exact pure []
  | cons a as ih =>
    rw [List.mapM_cons]
    exact bind (hf a) fun b => map ih _

/-! ### Single changes -/

theorem note (e : Event) : IgnoresNilLink (Edit.note e : Edit K V Unit) := changing fun _ => .inr rfl

theorem modifySlot (h : Handle) {f : Slot K V → Slot K V}
    (hf : (∀ s, f s.detached = (f s).detached) ∨ ∀ s, f s.detached = f s) :
    IgnoresNilLink (modifySlot h f) := by
  intro t
  by_cases hh : h.pos < t.arena.slots.size
  · rw [run_modifySlot f hh, run_modifySlot f (t.size_swept ▸ hh)]
    exact .answer (t.eqUpToSweep_put h hf)
  · rw [run_modifySlot_missing f hh, run_modifySlot_missing f (t.size_swept ▸ hh)]
    exact .failure (.inr rfl)

theorem setChild (a : Side) (h c : Handle) : IgnoresNilLink (setChild a h c : Edit K V Unit) :=
  modifySlot h (.inl fun _ => by cases a <;> rfl)

theorem setParent (h p : Handle) : IgnoresNilLink (setParent h p : Edit K V Unit) :=
  modifySlot h (.inr fun _ => rfl)

theorem setColor (h : Handle) (c : Color) : IgnoresNilLink (setColor h c : Edit K V Unit) :=
  modifySlot h (.inl fun _ => rfl)

theorem setRoot (h : Handle) : IgnoresNilLink (setRoot h : Edit K V Unit) := changing fun _ => .inr rfl

theorem allocate (s : Slot K V) : IgnoresNilLink (allocate s) := by
  intro t
  dsimp only [Edit.allocate, Arena.allocate, EStateM.run]
  rw [show t.swept.arena.free = t.arena.free from rfl, show t.swept.width = t.width from rfl, t.size_swept]
  cases t.arena.free with
  | cons h free =>
    by_cases hh : h.pos < t.arena.slots.size
    · simp only [if_pos hh]
      exact .answer ((t.eqUpToSweep_put h (f := fun _ => s) (.inr fun _ => rfl)).withFree free)
    · simp only [if_neg hh]
      exact .failure (.inr rfl)
  | nil =>
    by_cases hw : (t.width.limited && (t.width.handle t.arena.slots.size).pos == t.width.max) = true
    · simp only [if_pos hw]
      exact .failure (.inr rfl)
    · simp only [if_neg hw]
      exact .answer ((t.eqUpToSweep_push s).withFree [])

theorem vacate (h : Handle) : IgnoresNilLink (vacate h : Edit K V (K × V)) :=
  bind (look (.entryOf h)) fun _ => bind (modifySlot h (.inr fun _ => rfl)) fun _ => pure _

theorem setValue (h : Handle) (v : V) :
    IgnoresNilLink (Edit.modifySlot h (Slot.withValue v) : Edit K V Unit) :=
  modifySlot h (.inl fun _ => rfl)

theorem modifyValue (h : Handle) (f : V → V) : IgnoresNilLink (modifyValue h f : Edit K V V) :=
  bind (look (.entryOf h)) fun e => bind (setValue h (f e.2)) fun _ => pure _

theorem replaceValue (h : Handle) (v : V) : IgnoresNilLink (replaceValue h v : Edit K V V) :=
  bind (look (.entryOf h)) fun _ => bind (setValue h v) fun _ => pure _

theorem modifyAt? (h : Handle) (f : V → V) : IgnoresNilLink (modifyAt? h f : Edit K V (Option V)) := by
  refine reading (fun t => by rw [t.valueAt?_swept]) fun t => ?_
  cases t.valueAt? h with
  | none => exact pure none
  | some v => exact bind (setValue h (f v)) fun _ => pure _

theorem replaceAt? (h : Handle) (v : V) : IgnoresNilLink (replaceAt? h v : Edit K V (Option V)) := by
  refine reading (fun t => by rw [t.valueAt?_swept]) fun t => ?_
  cases t.valueAt? h with
  | none => exact pure none
  | some old => exact bind (setValue h v) fun _ => pure _

theorem clear : IgnoresNilLink (clear : Edit K V Unit) :=
  reading (fun _ => rfl) fun _ => bind (note _) fun _ => changing fun _ => .inl rfl

/-! ### Rotations and repairs -/

theorem relink (x y : Handle) : IgnoresNilLink (relink x y : Edit K V Unit) :=
  bind (look (.parent x)) fun p => bind (look (.isNil p)) fun _ =>
    ite (setRoot y) (bind (look (.sideOf x)) fun a => setChild a p y)

theorem rotate (a : Side) (x : Handle) : IgnoresNilLink (rotate a x : Edit K V Unit) := by
  refine bind (look (.child a.other x)) fun y => bind (look (.isNil y)) fun _ => ite (note _) ?_
  refine bind (note _) fun _ => bind (look (.child a y)) fun middle => ?_
  refine bind (setChild a.other x middle) fun _ => bind (look (.isNil middle)) fun _ => ?_
  refine when (setParent middle x) (bind (look (.parent x)) fun p => ?_)
  exact bind (setParent y p) fun _ => bind (relink x y) fun _ => bind (setParent x y) fun _ =>
    setChild a y x

theorem turnOutward (a : Side) (z : Handle) : IgnoresNilLink (turnOutward a z : Edit K V Handle) :=
  bind (look (.hangs a.other z)) fun _ =>
    ite (bind (look (.parent z)) fun p => bind (rotate a p) fun _ => pure p) (pure z)

theorem turnOver (a : Side) (z : Handle) : IgnoresNilLink (turnOver a z : Edit K V Unit) :=
  bind (look (.parent z)) fun p => bind (setColor p .black) fun _ =>
    bind (look (.parent p)) fun g => bind (setColor g .red) fun _ => rotate a.other g

theorem liftRed (z : Handle) : IgnoresNilLink (liftRed z : Edit K V (Round Handle Unit)) := by
  refine bind (look (.parent z)) fun p => bind (look (.color p)) fun _ => ite (pure _) ?_
  refine bind (look (.parent p)) fun g => bind (look (.isNil g)) fun _ => ite ?_ ?_
  · exact bind (note _) fun _ => pure _
  · refine bind (look (.sideOf p)) fun a => bind (look (.child a.other g)) fun uncle => ?_
    refine bind (look (.color uncle)) fun _ => ite ?_ ?_
    · exact bind (setColor p .black) fun _ => bind (setColor uncle .black) fun _ =>
        bind (setColor g .red) fun _ => pure _
    · exact bind (turnOutward a z) fun z => bind (turnOver a z) fun _ => pure _

theorem settleRed (z : Handle) : IgnoresNilLink (settleRed z : Edit K V Unit) :=
  loop liftRed z fun _ => reading (fun _ => rfl) fun t => setColor t.root .black

theorem blackSibling (a : Side) (x : Handle) : IgnoresNilLink (blackSibling a x : Edit K V Handle) := by
  refine bind (look (.parent x)) fun p => bind (look (.child a.other p)) fun w => ?_
  refine bind (look (.color w)) fun _ => ite ?_ (pure w)
  refine bind (setColor w .black) fun _ => bind (setColor p .red) fun _ => bind (rotate a p) fun _ => ?_
  exact bind (look (.parent x)) fun p => look (.child a.other p)

theorem redOutward (a : Side) (x w : Handle) : IgnoresNilLink (redOutward a x w : Edit K V Handle) := by
  refine bind (look (.child a.other w)) fun far => bind (look (.color far)) fun _ => ite ?_ (pure w)
  refine bind (look (.child a w)) fun near => bind (setColor near .black) fun _ => ?_
  refine bind (setColor w .red) fun _ => bind (rotate a.other w) fun _ => ?_
  exact bind (look (.parent x)) fun p => look (.child a.other p)

theorem fillLack (a : Side) (x w : Handle) : IgnoresNilLink (fillLack a x w : Edit K V Unit) := by
  refine bind (look (.parent x)) fun p => bind (look (.color p)) fun c => bind (setColor w c) fun _ => ?_
  refine bind (setColor p .black) fun _ => bind (look (.child a.other w)) fun far => ?_
  exact bind (setColor far .black) fun _ => rotate a p

theorem shareLack (a : Side) (x w : Handle) :
    IgnoresNilLink (shareLack a x w : Edit K V (Round Handle Handle)) := by
  refine bind (look (.isNil w)) fun _ => ite (bind (note _) fun _ => pure _) ?_
  refine bind (look (.child a w)) fun near => bind (look (.child a.other w)) fun far => ?_
  refine bind (look (.color near)) fun _ => bind (look (.color far)) fun _ => ite ?_ ?_
  · exact bind (setColor w .red) fun _ => bind (look (.parent x)) fun _ => pure _
  · refine bind (redOutward a x w) fun w => bind (fillLack a x w) fun _ => ?_
    exact reading (fun _ => rfl) fun _ => pure _

theorem liftLack (x : Handle) : IgnoresNilLink (liftLack x : Edit K V (Round Handle Handle)) := by
  refine reading (fun _ => rfl) fun t => ite (pure _) (bind (look (.color x)) fun _ => ite (pure _) ?_)
  exact bind (look (.sideOf x)) fun a => bind (blackSibling a x) fun w => shareLack a x w

theorem settleLack (x : Handle) : IgnoresNilLink (settleLack x : Edit K V Unit) :=
  loop liftLack x fun y => setColor y .black

/-! ### Insertion and deletion -/

theorem linkLeaf (z : Handle) : IgnoresNilLink (linkLeaf z : Edit K V Unit) := by
  refine bind (look (.parentFor z)) fun y => bind (setParent z y) fun _ => ?_
  have hrest : IgnoresNilLink (Edit.setColor z .red : Edit K V Unit) := setColor z .red
  refine bind (look (.isNil y)) fun _ => ite (bind (setRoot z) fun _ => hrest) ?_
  refine bind (look (.compareAt z y)) fun _ => ite ?_ ?_
  · exact bind (setChild .left y z) fun _ => hrest
  · exact bind (setChild .right y z) fun _ => hrest

theorem insert (k : K) (v : V) : IgnoresNilLink (insert k v : Edit K V Handle) := by
  refine bind (look (.contains k)) fun _ => ite (throw _) ?_
  refine bind (allocate _) fun z => bind (linkLeaf z) fun _ => bind (settleRed z) fun _ => ?_
  refine bind (changing fun _ => .inr rfl) fun _ => ?_
  exact reading (fun _ => rfl) fun _ => bind (note _) fun _ => pure z

theorem transplant (x y : Handle) : IgnoresNilLink (transplant x y : Edit K V Unit) :=
  bind (relink x y) fun _ => bind (look (.parent x)) fun p => setParent y p

theorem takeOver (z y : Handle) : IgnoresNilLink (takeOver z y : Edit K V Unit) := by
  refine bind (transplant z y) fun _ => bind (look (.child .left z)) fun l => ?_
  refine bind (setChild .left y l) fun _ => bind (setParent l y) fun _ => ?_
  exact bind (look (.color z)) fun c => setColor y c

theorem promote (z y : Handle) : IgnoresNilLink (promote z y : Edit K V Handle) := by
  refine bind (look (.child .right y)) fun x => bind (look (.parent y)) fun p => ?_
  have hrest : IgnoresNilLink (do
      Edit.takeOver z y
      return x : Edit K V Handle) := bind (takeOver z y) fun _ => pure x
  refine ite (bind (setParent x y) fun _ => hrest) (bind (transplant y x) fun _ => ?_)
  exact bind (look (.child .right z)) fun r => bind (setChild .right y r) fun _ =>
    bind (setParent r y) fun _ => hrest

theorem splice (z : Handle) : IgnoresNilLink (splice z : Edit K V (Handle × Color)) := by
  refine bind (look (.child .left z)) fun l => bind (look (.child .right z)) fun r => ?_
  refine bind (look (.isNil l)) fun _ => ite ?_ (bind (look (.isNil r)) fun _ => ite ?_ ?_)
  · exact bind (look (.color z)) fun missing => bind (transplant z r) fun _ => pure _
  · exact bind (look (.color z)) fun missing => bind (transplant z l) fun _ => pure _
  · exact bind (look (.outermost .left r)) fun y => bind (look (.color y)) fun missing =>
      bind (promote z y) fun _ => pure _

theorem delete (h : Handle) : IgnoresNilLink (delete h : Edit K V (Option (K × V))) := by
  refine reading (fun t => by rw [t.entryAt?_swept]) fun t => ?_
  cases t.entryAt? h with
  | none => exact pure none
  | some e =>
    refine bind (splice h) fun r => ?_
    obtain ⟨x, missing⟩ := r
    refine when (settleLack x) (bind (changing fun _ => .inr rfl) fun _ => ?_)
    refine reading (fun _ => rfl) fun _ => bind (note _) fun _ => bind (vacate h) fun e => ?_
    exact bind (changing fun t => .inr (t.swept_offered h)) fun _ => pure _

theorem drain : IgnoresNilLink (drain : Edit K V (List (K × V))) :=
  bind (look .handles) fun hs => bind (mapM vacate hs) fun _ =>
    bind (changing fun _ => .inl rfl) fun _ => pure _

theorem closed : ClosedUnderClientOps (K := K) (V := V) fun _ act => IgnoresNilLink act where
  pure := pure
  throw := throw
  bind := bind
  search k := look (.seek .exact k)
  entry k := look (.entry k)
  entryKey e := look (.entryKey e)
  entryDoc e := look (.entryDoc e)
  entryOf h := look (.entryOf h)
  successor h := look (.neighbor .right h)
  start s := look (.start s)
  step a c := look (.step a c)
  cursorKey c := reading (fun t => by rw [Cursor.key, Cursor.key, c.entry_swept t]) fun _ => pure _
  cursorValue c := reading (fun t => by rw [Cursor.value, Cursor.value, c.entry_swept t]) fun _ => pure _
  attached c := reading (fun t => by rw [t.attach_swept, Cursor.entry_swept]) fun _ => pure _
  insert := insert
  delete := delete
  modifyValue := modifyValue
  replaceValue := replaceValue
  modifyAt? := modifyAt?
  replaceAt? := replaceAt?
  clear := clear
  drain := drain

end IgnoresNilLink
end Edit
end RedBlack
