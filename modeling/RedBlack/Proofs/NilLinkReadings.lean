import RedBlack.Proofs.Faultless

/-! Readings that ignore the parent link of the nil slot. On a tree without that link they come to a
gap, which is where they would follow it, or to what they come to on the tree with it. This is shown of each
reading, whatever the tree. That no gap is come to is another matter: it is so where nothing fails. -/
namespace RedBlack
variable {K V α β : Type}

def Slot.detached (s : Slot K V) : Slot K V := { s with parent := none }

/-- The tree without a parent link in its nil slot. -/
def Tree.swept (t : Tree K V) : Tree K V := t.put .nil Slot.detached

/-- What comes of following a link that the nil slot does not have. -/
abbrev Failure.gap : Failure := .fault (.noLink .nil)

namespace Tree
variable {t : Tree K V} {h : Handle}

theorem slot?_swept_of_ne (t : Tree K V) (hn : h ≠ .nil) : t.swept.arena.slot? h = t.arena.slot? h :=
  slot?_put_of_ne _ _ hn.symm

theorem slot?_swept_nil (t : Tree K V) :
    t.swept.arena.slot? .nil = (t.arena.slot? .nil).map Slot.detached := slot?_put_self ..

theorem swept_swept (t : Tree K V) : t.swept.swept = t.swept := put_put ..

theorem order_swept (t : Tree K V) : t.swept.order = t.order := rfl

theorem size_swept (t : Tree K V) : t.swept.arena.slots.size = t.arena.slots.size := Arena.size_modify ..

theorem reach_swept (t : Tree K V) : t.swept.reach = t.reach := t.size_swept

theorem entryAt?_swept (t : Tree K V) (h : Handle) : t.swept.entryAt? h = t.entryAt? h := by
  rw [entryAt?, Arena.find?, entryAt?, Arena.find?]
  by_cases hn : h = .nil
  · rw [hn, slot?_swept_nil, Option.bind_map]
    rfl
  · rw [slot?_swept_of_ne t hn]

theorem valueAt?_swept (t : Tree K V) (h : Handle) : t.swept.valueAt? h = t.valueAt? h := by
  rw [valueAt?, entryAt?_swept]
  rfl

theorem keyAt?_swept (t : Tree K V) (h : Handle) : t.swept.keyAt? h = t.keyAt? h := by
  rw [keyAt?, entryAt?_swept]
  rfl

theorem attach_swept (t : Tree K V) (node : Option Handle) :
    Cursor.attach t.swept node = Cursor.attach t node := by
  rw [Cursor.attach, funext fun h => congrArg Option.isSome (keyAt?_swept t h)]
  rfl

end Tree

theorem Cursor.entry_swept (c : Cursor) (t : Tree K V) : c.entry t.swept = c.entry t := by
  rw [Cursor.entry, show t.swept.entryAt? = t.entryAt? from funext t.entryAt?_swept]
  rfl

namespace Tree

/-- Without the link the reading comes to the gap, or to what it comes to with it. -/
def IgnoresNilLink (f : Tree K V → Except Failure α) : Prop :=
  ∀ t, f t.swept = .error .gap ∨ f t.swept = f t

namespace IgnoresNilLink

/-! ### Sequences of readings -/

theorem same {f : Tree K V → Except Failure α} (h : ∀ t, f t.swept = f t) : IgnoresNilLink f :=
  fun t => .inr (h t)

theorem const (x : Except Failure α) : IgnoresNilLink fun _ : Tree K V => x := fun _ => .inr rfl

theorem bind {f : Tree K V → Except Failure α} {k : α → Tree K V → Except Failure β} (hf : IgnoresNilLink f)
    (hk : ∀ a, IgnoresNilLink (k a)) : IgnoresNilLink fun t => f t >>= fun a => k a t := by
  intro t
  rcases hf t with hgap | hsame
  · left
    dsimp only
    rw [hgap]
    rfl
  · dsimp only
    rw [hsame]
    cases f t with
    | error e => exact .inr rfl
    | ok a => exact hk a t

theorem map {f : Tree K V → Except Failure α} (hf : IgnoresNilLink f) (g : α → β) :
    IgnoresNilLink fun t => do return g (← f t) := bind hf fun _ => const _

theorem ite {c : Prop} [Decidable c] {f g : Tree K V → Except Failure α} (hf : IgnoresNilLink f)
    (hg : IgnoresNilLink g) : IgnoresNilLink fun t => if c then f t else g t := by
  split
  · exact hf
  · exact hg

theorem roundsFor {round : α → Tree K V → Except Failure (Round α β)} (hround : ∀ a, IgnoresNilLink (round a))
    (n : Nat) (a : α) : IgnoresNilLink fun t => rounds (fun a => round a t) n a := by
  induction n generalizing a with
  | zero =>
    refine bind (hround a) fun r => ?_
    cases r <;> exact const _
  | succ n ih =>
    refine bind (hround a) fun r => ?_
    cases r with
    | again next => exact ih next
    | done b => exact const _

theorem walk {round : α → Tree K V → Except Failure (Round α β)} (start : Tree K V → α)
    (hround : ∀ a, IgnoresNilLink (round a)) (hstart : ∀ t, start t.swept = start t) :
    IgnoresNilLink fun t => rounds (fun a => round a t) t.reach (start t) := by
  intro t
  dsimp only
  rw [reach_swept, hstart]
  exact roundsFor hround t.reach (start t) t

theorem mapM {f : α → Tree K V → Except Failure β} (hf : ∀ a, IgnoresNilLink (f a)) (as : List α) :
    IgnoresNilLink fun t => as.mapM fun a => f a t := by
  induction as with
  | nil => exact const _
  | cons a as ih =>
    simp only [List.mapM_cons]
    exact bind (hf a) fun b => bind ih fun bs => const _

/-! ### Readings of a slot -/

theorem slot {k : Slot K V → Except Failure α} (hk : ∀ s, k s.detached = k s) (h : Handle) :
    IgnoresNilLink fun t => t.slot h >>= k := by
  refine same fun t => ?_
  unfold Tree.slot
  by_cases hn : h = .nil
  · rw [hn, slot?_swept_nil]
    cases t.arena.slot? .nil with
    | none => rfl
    | some s => exact hk s
  · rw [slot?_swept_of_ne t hn]

theorem child (a : Side) (h : Handle) : IgnoresNilLink fun t : Tree K V => t.child a h :=
  slot (fun _ => by cases a <;> rfl) h

theorem color (h : Handle) : IgnoresNilLink fun t : Tree K V => t.color h := slot (fun _ => rfl) h

theorem isNil (h : Handle) : IgnoresNilLink fun t : Tree K V => t.isNil h := slot (fun _ => rfl) h

theorem entryOf (h : Handle) : IgnoresNilLink fun t : Tree K V => t.entryOf h := slot (fun _ => rfl) h

theorem parent (h : Handle) : IgnoresNilLink fun t : Tree K V => t.parent h := by
  intro t
  dsimp only [Tree.parent, Tree.slot]
  by_cases hn : h = .nil
  · rw [hn, slot?_swept_nil]
    cases t.arena.slot? .nil with
    | none => exact .inr rfl
    | some s => exact .inl rfl
  · rw [slot?_swept_of_ne t hn]
    exact .inr rfl

theorem hangs (a : Side) (h : Handle) : IgnoresNilLink fun t : Tree K V => t.hangs a h :=
  bind (parent h) fun p => map (child a p) (· == h)

theorem sideOf (h : Handle) : IgnoresNilLink fun t : Tree K V => t.sideOf h :=
  map (hangs .left h) _

/-! ### Walks and searches -/

theorem outermost (a : Side) (x : Handle) : IgnoresNilLink fun t : Tree K V => t.outermost a x :=
  walk (fun _ => x) (fun x => bind (child a x) fun c => bind (isNil c) fun _ => ite (const _) (const _))
    fun _ => rfl

theorem extreme (a : Side) : IgnoresNilLink fun t : Tree K V => t.extreme a := fun t =>
  bind (isNil t.root) (fun _ => ite (const _) (map (outermost a t.root) some)) t

theorem climb (a : Side) (x : Handle) : IgnoresNilLink fun t : Tree K V => t.climb a x :=
  walk (fun _ => x) (fun x => bind (parent x) fun y => bind (isNil y) fun _ =>
    ite (const _) (bind (child a y) fun _ => ite (const _) (const _))) fun _ => rfl

theorem neighbor (a : Side) (x : Handle) : IgnoresNilLink fun t : Tree K V => t.neighbor a x := by
  intro t
  dsimp only [Tree.neighbor]
  rw [entryAt?_swept]
  cases t.entryAt? x with
  | none => exact const _ t
  | some e =>
    exact bind (child a x) (fun c => bind (isNil c) fun _ =>
      ite (bind (climb a x) fun y => bind (isNil y) fun _ => ite (const _) (const _))
        (map (outermost a.other c) some)) t

theorem handles : IgnoresNilLink fun t : Tree K V => t.handles := by
  refine bind (extreme .left) fun start => walk (fun _ => (start, [])) (fun r => ?_) fun _ => rfl
  obtain ⟨cur, seen⟩ := r
  cases cur with
  | none => exact const _
  | some x => exact map (neighbor .right x) _

theorem outline : IgnoresNilLink fun t : Tree K V => t.outline :=
  bind handles <| mapM fun x => bind (entryOf x) fun _ => map (parent x) _

theorem probe (s : Seek) (query : K) : IgnoresNilLink fun t : Tree K V => t.probe s query := by
  refine walk (fun t => (t.root, none, [])) (fun r => ?_) fun _ => rfl
  obtain ⟨x, found, visited⟩ := r
  refine bind (isNil x) fun _ => ite (const _) (bind (entryOf x) fun e t => ?_)
  dsimp only
  rw [order_swept]
  cases s.turn (t.order.compare (s.arguments query e.1).1 (s.arguments query e.1).2) with
  | stop => exact .inr rfl
  | go side keep => exact map (child side x) _ t

theorem seek (s : Seek) (k : K) : IgnoresNilLink fun t : Tree K V => t.seek s k := map (probe s k) Probe.found

theorem entryOf? (found : Option Handle) : IgnoresNilLink fun t : Tree K V => t.entryOf? found := by
  cases found with
  | none => exact const _
  | some x => exact map (entryOf x) some

theorem find? (k : K) : IgnoresNilLink fun t : Tree K V => t.find? k := bind (seek .exact k) entryOf?

theorem get? (k : K) : IgnoresNilLink fun t : Tree K V => t.get? k := map (find? k) _

theorem contains (k : K) : IgnoresNilLink fun t : Tree K V => t.contains k := map (seek .exact k) _

theorem min? : IgnoresNilLink fun t : Tree K V => t.min? := bind (extreme .left) entryOf?

theorem max? : IgnoresNilLink fun t : Tree K V => t.max? := bind (extreme .right) entryOf?

theorem compareAt (x y : Handle) : IgnoresNilLink fun t : Tree K V => t.compareAt x y := fun t =>
  bind (entryOf x) (fun e => map (entryOf y) fun e' => t.order.compare e.1 e'.1) t

theorem parentFor (z : Handle) : IgnoresNilLink fun t : Tree K V => t.parentFor z := by
  refine walk (fun t => (t.root, Handle.nil)) (fun r => ?_) fun _ => rfl
  obtain ⟨x, above⟩ := r
  refine bind (isNil x) fun _ => ite (const _) (bind (compareAt z x) fun _ => ite ?_ ?_)
  · exact map (child .left x) _
  · exact map (child .right x) _

/-! ### Entries and cursors -/

theorem entry (k : K) : IgnoresNilLink fun t : Tree K V => t.entry k := by
  refine bind (seek .exact k) fun found => ?_
  cases found <;> exact const _

theorem entryKey (e : Entry K) : IgnoresNilLink fun t : Tree K V => e.key t := by
  cases e with
  | occupied h => exact map (entryOf h) Prod.fst
  | vacant k => exact const _

theorem entryDoc [Text.Describe K] [Text.Describe V] (e : Entry K) :
    IgnoresNilLink fun t : Tree K V => e.doc t := by
  cases e with
  | occupied h => exact bind (entryOf h) fun _ => const _
  | vacant k => exact const _

theorem attached {f : Tree K V → Except Failure (Option Handle)} (hf : IgnoresNilLink f) :
    IgnoresNilLink fun t => do return Cursor.attach t (← f t) :=
  bind hf fun node => same fun t => congrArg Except.ok (attach_swept t node)

theorem start (s : Start K) : IgnoresNilLink fun t : Tree K V => Cursor.start t s := by
  cases s with
  | front => exact attached (extreme .left)
  | back => exact attached (extreme .right)
  | handle h => exact attached (const (.ok (some h)))
  | key k => exact attached (seek .exact k)
  | lower k => exact attached (seek .lower k)

theorem step (a : Side) (c : Cursor) : IgnoresNilLink fun t : Tree K V => c.step a t := by
  obtain ⟨node⟩ := c
  cases node with
  | none => exact const _
  | some h => exact map (neighbor a h) _

theorem move (c : Cursor) (m : Move) : IgnoresNilLink fun t : Tree K V => c.move t m := by
  cases m with
  | next => exact map (step .right c) _
  | prev => exact map (step .left c) _
  | copyNext => exact bind (step .right c) fun _ => const _
  | valid | handle | describe => exact const _
  | key => exact same fun t => by rw [Cursor.move, Cursor.key, c.entry_swept t]; rfl
  | value => exact same fun t => by rw [Cursor.move, Cursor.value, c.entry_swept t]; rfl
  | entry => exact same fun t => by rw [Cursor.move, c.entry_swept t]; rfl

theorem moves (c : Cursor) (ms : List Move) : IgnoresNilLink fun t : Tree K V => c.moves t ms := by
  induction ms generalizing c with
  | nil => exact const _
  | cons m ms ih => exact bind (move c m) fun r => map (ih r.2) _

end IgnoresNilLink
end Tree
end RedBlack
