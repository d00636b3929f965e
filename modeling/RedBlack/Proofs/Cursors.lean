import RedBlack.Command.Change
import RedBlack.Proofs.Bounds
import RedBlack.Proofs.Handles
import RedBlack.Proofs.Invariants
import RedBlack.Proofs.Iterating

/-! Cursors as lists with a focus. Whatever a cursor is told, it answers as a list does of which one item
is in focus, or none any more; and its tree holds the items of that list. -/
namespace RedBlack
open Text
variable {K V : Type}

/-- Items of which one is in focus, between those before it, the nearest first, and those after it; or
items of which none is. -/
inductive Focused (K V : Type) where
  | here (before : List (Handle × K × V)) (item : Handle × K × V) (after : List (Handle × K × V))
  | nowhere (items : List (Handle × K × V))

def Move.unfocused : Move → Answer K V
  | .valid => .flag false
  | .handle => .nothing
  | .describe => .text (Cursor.doc "Cursor" ⟨none⟩).onLine
  | .copyNext => .many [.refused .invalidCursor, .nothing, .nothing]
  | .next | .prev | .key | .value | .entry => .refused .invalidCursor

def EditMove.unfocused : EditMove V → Answer K V
  | .valid => .flag false
  | .handle => .nothing
  | .describe => .text (Cursor.doc "CursorMut" ⟨none⟩).onLine
  | .next | .prev | .key | .value | .readOnly | .remove | .replace _ | .modify _ =>
    .refused .invalidCursor

namespace Focused
variable {b a l : List (Handle × K × V)} {x : Handle × K × V}

def toList : Focused K V → List (Handle × K × V)
  | here b x a => b.reverse ++ x :: a
  | nowhere l => l

def item? : Focused K V → Option (Handle × K × V)
  | here _ x _ => some x
  | nowhere _ => none

def following (b : List (Handle × K × V)) : List (Handle × K × V) → Focused K V
  | [] => nowhere b.reverse
  | x :: a => here b x a

def preceding (a : List (Handle × K × V)) : List (Handle × K × V) → Focused K V
  | [] => nowhere a
  | x :: b => here b x a

def seek (p : Handle × K × V → Bool) (l : List (Handle × K × V)) : Focused K V :=
  following (l.takeWhile fun x => !p x).reverse (l.dropWhile fun x => !p x)

def start (order : KeyOrder K) (l : List (Handle × K × V)) : Start K → Focused K V
  | .front => following [] l
  | .back => preceding [] l.reverse
  | .handle h => seek (fun x => x.1 == h) l
  | .key k => seek (order.agrees k) l
  | .lower k => seek (fun x => !order.lesser k x) l

def move : Focused K V → Move → Answer K V × Focused K V
  | nowhere l, m => (m.unfocused, nowhere l)
  | here b x a, .next => (.fine, following (x :: b) a)
  | here b x a, .prev => (.fine, preceding (x :: a) b)
  | here b x a, .valid => (.flag true, here b x a)
  | here b x a, .handle => (.handle x.1, here b x a)
  | here b x a, .key => (.key x.2.1, here b x a)
  | here b x a, .value => (.value x.2.2, here b x a)
  | here b x a, .entry => (.entry x.2, here b x a)
  | here b x a, .describe => (.text (Cursor.doc "Cursor" ⟨some x.1⟩).onLine, here b x a)
  | here b x a, .copyNext =>
    (.many [.fine, .option .handle (a.head?.map Prod.fst), .handle x.1], here b x a)

def moves : Focused K V → List Move → List (Answer K V)
  | _, [] => []
  | f, m :: ms => (f.move m).1 :: (f.move m).2.moves ms

def edit : Focused K V → EditMove V → Answer K V × Focused K V
  | nowhere l, m => (m.unfocused, nowhere l)
  | here b x a, .next => (.fine, following (x :: b) a)
  | here b x a, .prev => (.fine, preceding (x :: a) b)
  | here b x a, .valid => (.flag true, here b x a)
  | here b x a, .handle => (.handle x.1, here b x a)
  | here b x a, .key => (.key x.2.1, here b x a)
  | here b x a, .value => (.value x.2.2, here b x a)
  | here b x a, .describe => (.text (Cursor.doc "CursorMut" ⟨some x.1⟩).onLine, here b x a)
  | here b x a, .readOnly => (.entry x.2, here b x a)
  | here b x a, .remove => (.entry x.2, following b a)
  | here b x a, .replace v => (.value x.2.2, here b (x.1, x.2.1, v) a)
  | here b x a, .modify f => (.value (f x.2.2), here b (x.1, x.2.1, f x.2.2) a)

def edits : Focused K V → List (EditMove V) → List (Answer K V) × Focused K V
  | f, [] => ([], f)
  | f, m :: ms => ((f.edit m).1 :: ((f.edit m).2.edits ms).1, ((f.edit m).2.edits ms).2)

@[simp] theorem toList_following : (following b a).toList = b.reverse ++ a := by
  cases a with
  | nil => exact (List.append_nil _).symm
  | cons x a => rfl

@[simp] theorem item?_following : (following b a).item? = a.head? := by cases a <;> rfl

@[simp] theorem toList_preceding : (preceding a b).toList = b.reverse ++ a := by
  cases b with
  | nil => rfl
  | cons x b => rw [List.reverse_cons, List.append_assoc]; rfl

@[simp] theorem item?_preceding : (preceding a b).item? = b.head? := by cases b <;> rfl

theorem toList_seek (p : Handle × K × V → Bool) (l : List (Handle × K × V)) :
    (seek p l).toList = l := by
  rw [seek, toList_following, List.reverse_reverse, List.takeWhile_append_dropWhile]

theorem item?_seek (p : Handle × K × V → Bool) (l : List (Handle × K × V)) :
    (seek p l).item? = l.find? p := by
  rw [seek, item?_following, ← List.find?_not_eq_head?_dropWhile]
  simp only [Bool.not_not]

theorem toList_start (order : KeyOrder K) (l : List (Handle × K × V)) (s : Start K) :
    (start order l s).toList = l := by
  cases s with
  | front => exact toList_following
  | back => rw [start, toList_preceding, List.reverse_reverse, List.append_nil]
  | handle h => exact toList_seek _ l
  | key k => exact toList_seek _ l
  | lower k => exact toList_seek _ l

end Focused

namespace Tree.Sound
variable {t : Tree K V} {b c : List (Handle × K × V)} {x : Handle × K × V}

theorem ne_of_split (hs : t.Sound) (hsplit : t.inorder = b ++ x :: c) :
    ∀ y ∈ b ++ c, y.1 ≠ x.1 := by
  intro y hy heq
  have hnodup := hs.nodup_handles
  rw [hsplit, List.map_append, List.map_cons] at hnodup
  refine (List.nodup_cons.1 (List.nodup_middle.1 hnodup)).1 ?_
  rw [← List.map_append, ← heq]
  exact List.mem_map_of_mem hy

theorem filter_of_split (hs : t.Sound) (hsplit : t.inorder = b ++ x :: c) :
    t.inorder.filter (fun y => y.1 ≠ x.1) = b ++ c := by
  rw [hsplit]
  exact filter_ne_of_split (hs.ne_of_split hsplit)

theorem revalue_of_split (hs : t.Sound) (hsplit : t.inorder = b ++ x :: c) (v : V) :
    revalue x.1 v t.inorder = b ++ (x.1, x.2.1, v) :: c := by
  have hkept {l : List (Handle × K × V)} (hl : ∀ y ∈ l, y.1 ≠ x.1) : revalue x.1 v l = l := by
    refine (List.map_congr_left fun y hy => ?_).trans (List.map_id l)
    exact if_neg (hl y hy)
  have hne := hs.ne_of_split hsplit
  rw [hsplit, revalue, List.map_append, List.map_cons, if_pos rfl, ← revalue, ← revalue,
    hkept fun y hy => hne y (List.mem_append_left c hy),
    hkept fun y hy => hne y (List.mem_append_right b hy)]

end Tree.Sound

namespace Cursor
variable {c : Cursor} {t : Tree K V} {f : Focused K V} {b a l : List (Handle × K × V)}
  {x : Handle × K × V}

/-- The cursor is at the item in focus, and its tree holds the items. -/
structure Sees (c : Cursor) (t : Tree K V) (f : Focused K V) : Prop where
  sound : t.Sound
  items : t.inorder = f.toList
  node : c.node = f.item?.map Prod.fst

namespace Sees

theorem eq_nowhere (h : c.Sees t (.nowhere l)) : c = ⟨none⟩ := congrArg Cursor.mk h.node

theorem eq_here (h : c.Sees t (.here b x a)) : c = ⟨some x.1⟩ := congrArg Cursor.mk h.node

theorem entryAt? (h : c.Sees t (.here b x a)) : t.entryAt? x.1 = some x.2 := by
  refine h.sound.entryAt?_eq_some_iff.2 ?_
  rw [h.items]
  exact List.mem_append_right _ List.mem_cons_self

theorem step_right (h : c.Sees t (.here b x a)) :
    ∃ c', c.next t = .ok (.ok c') ∧ c'.Sees t (.following (x :: b) a) := by
  obtain rfl := h.eq_here
  refine ⟨⟨a.head?.map Prod.fst⟩, Act.ok_then (h.sound.neighbor_of_split h.items) rfl, h.sound, ?_, ?_⟩
  · rw [Focused.toList_following, List.reverse_cons, List.append_assoc]
    exact h.items
  · rw [Focused.item?_following]

theorem step_left (h : c.Sees t (.here b x a)) :
    ∃ c', c.prev t = .ok (.ok c') ∧ c'.Sees t (.preceding (x :: a) b) := by
  obtain rfl := h.eq_here
  have hsplit : Side.left.along t.inorder = a.reverse ++ x :: b := by
    show t.inorder.reverse = _
    rw [h.items, Focused.toList, List.reverse_append, List.reverse_cons, List.reverse_reverse,
      List.append_assoc]
    rfl
  refine ⟨⟨b.head?.map Prod.fst⟩, Act.ok_then (h.sound.neighbor_of_split hsplit) rfl, h.sound, ?_, ?_⟩
  · rw [Focused.toList_preceding]
    exact h.items
  · rw [Focused.item?_preceding]

theorem edited (h : c.Sees t (.here b x a)) (v : V) :
    c.Sees (t.edited x.1 v) (.here b (x.1, x.2.1, v) a) :=
  ⟨(h.sound.edited h.entryAt? v).1,
    (h.sound.inorder_edited h.entryAt? v).trans (h.sound.revalue_of_split h.items v), h.node⟩

theorem removed (h : c.Sees t (.here b x a)) :
    ∃ c' t', c.remove.run t = .ok (.ok (x.2, c')) t' ∧ c'.Sees t' (.following b a) := by
  obtain rfl := h.eq_here
  have hnext : t.successor x.1 = .ok (a.head?.map Prod.fst) := h.sound.neighbor_of_split h.items
  obtain ⟨t', hrun, hsound, hturns⟩ := h.sound.exists_delete h.entryAt?
  refine ⟨⟨a.head?.map Prod.fst⟩, t', Act.look_then hnext (Act.run_then hrun rfl), hsound, ?_, ?_⟩
  · rw [Focused.toList_following]
    exact hturns.items.2.trans (h.sound.filter_of_split h.items)
  · rw [Focused.item?_following]

/-! ### Calls that change nothing -/

theorem move (h : c.Sees t f) (m : Move) :
    ∃ c', c.move t m = .ok ((f.move m).1, c') ∧ c'.Sees t (f.move m).2 := by
  cases f with
  | nowhere l =>
    obtain rfl := h.eq_nowhere
    cases m <;> exact ⟨⟨none⟩, rfl, h⟩
  | here b x a =>
    obtain rfl := h.eq_here
    have hentry : Cursor.entry ⟨some x.1⟩ t = .ok x.2 := by
      rw [entry, Option.bind_some, h.entryAt?]
    cases m with
    | next =>
      obtain ⟨c', hc', hsees⟩ := h.step_right
      exact ⟨c', Act.ok_then hc' rfl, hsees⟩
    | prev =>
      obtain ⟨c', hc', hsees⟩ := h.step_left
      exact ⟨c', Act.ok_then hc' rfl, hsees⟩
    | copyNext =>
      obtain ⟨c', hc', hsees⟩ := h.step_right
      have hnode : c'.node = a.head?.map Prod.fst := by rw [hsees.node, Focused.item?_following]
      refine ⟨_, Act.ok_then hc' ?_, h⟩
      rw [Focused.move, ← hnode]
      rfl
    | key =>
      refine ⟨_, ?_, h⟩
      rw [Cursor.move, key, hentry]
      rfl
    | value =>
      refine ⟨_, ?_, h⟩
      rw [Cursor.move, value, hentry]
      rfl
    | entry =>
      refine ⟨_, ?_, h⟩
      rw [Cursor.move, hentry]
      rfl
    | valid => exact ⟨_, rfl, h⟩
    | handle => exact ⟨_, rfl, h⟩
    | describe => exact ⟨_, rfl, h⟩

theorem moves (h : c.Sees t f) (ms : List Move) : c.moves t ms = .ok (f.moves ms) := by
  induction ms generalizing c f with
  | nil => rfl
  | cons m ms ih =>
    obtain ⟨c', hmove, hsees⟩ := h.move m
    exact Act.ok_then hmove (Act.ok_then (ih hsees) rfl)

/-! ### Calls that may change the tree -/

theorem edit (h : c.Sees t f) (m : EditMove V) :
    ∃ c' t', (c.edit m).run t = .ok ((f.edit m).1, c') t' ∧ c'.Sees t' (f.edit m).2 := by
  cases f with
  | nowhere l =>
    obtain rfl := h.eq_nowhere
    cases m <;> exact ⟨⟨none⟩, t, rfl, h⟩
  | here b x a =>
    have hentry : c.entry t = .ok x.2 := by
      rw [h.eq_here, entry, Option.bind_some, h.entryAt?]
    cases m with
    | next =>
      obtain ⟨c', hc', hsees⟩ := h.step_right
      exact ⟨c', t, Act.look_then hc' rfl, hsees⟩
    | prev =>
      obtain ⟨c', hc', hsees⟩ := h.step_left
      exact ⟨c', t, Act.look_then hc' rfl, hsees⟩
    | remove =>
      obtain ⟨c', t', hrun, hsees⟩ := h.removed
      exact ⟨c', t', Act.run_then hrun rfl, hsees⟩
    | replace v =>
      have hrun : (c.replace v).run t = .ok (.ok x.2.2) (t.edited x.1 v) := by
        rw [h.eq_here]
        exact Act.run_then (Tree.run_replaceAt? h.entryAt? v) rfl
      exact ⟨c, _, Act.run_then hrun rfl, h.edited v⟩
    | modify g =>
      have hrun : (c.modify g).run t = .ok (.ok (g x.2.2)) (t.edited x.1 (g x.2.2)) := by
        rw [h.eq_here]
        exact Act.run_then (Tree.run_modifyAt? h.entryAt? g) rfl
      exact ⟨c, _, Act.run_then hrun rfl, h.edited (g x.2.2)⟩
    | readOnly =>
      have hkey : t.keyAt? x.1 = some x.2.1 := by
        rw [Tree.keyAt?, h.entryAt?]
        rfl
      have hattach : attach t c.node = c := by
        rw [h.eq_here, attach, Option.filter_some, hkey]
        rfl
      refine ⟨c, t, Act.run_then rfl ?_, h⟩
      rw [hattach, hentry]
      rfl
    | key =>
      refine ⟨c, t, Act.run_then rfl ?_, h⟩
      rw [key, hentry]
      rfl
    | value =>
      refine ⟨c, t, Act.run_then rfl ?_, h⟩
      rw [value, hentry]
      rfl
    | valid => exact ⟨c, t, by rw [h.eq_here]; rfl, h⟩
    | handle => exact ⟨c, t, by rw [h.eq_here]; rfl, h⟩
    | describe => exact ⟨c, t, by rw [h.eq_here]; rfl, h⟩

theorem edits (h : c.Sees t f) (ms : List (EditMove V)) :
    ∃ t', (c.edits ms).run t = .ok (f.edits ms).1 t' ∧ t'.Sound ∧
      t'.inorder = (f.edits ms).2.toList := by
  induction ms generalizing c t f with
  | nil => exact ⟨t, rfl, h.sound, h.items⟩
  | cons m ms ih =>
    obtain ⟨c', u, hedit, hsees⟩ := h.edit m
    obtain ⟨t', hedits, hsound, hitems⟩ := ih hsees
    exact ⟨t', Act.run_then hedit (Act.run_then hedits rfl), hsound, hitems⟩

end Sees

theorem moves_unfocused (t : Tree K V) (ms : List Move) :
    Cursor.moves t ⟨none⟩ ms = .ok (ms.map Move.unfocused) := by
  induction ms with
  | nil => rfl
  | cons m ms ih =>
    have hmove : Cursor.move t ⟨none⟩ m = .ok (m.unfocused, ⟨none⟩) := by cases m <;> rfl
    exact Act.ok_then hmove (Act.ok_then ih rfl)

theorem edit_unfocused (t : Tree K V) (m : EditMove V) :
    (Cursor.edit ⟨none⟩ m).run t = .ok (m.unfocused, ⟨none⟩) t := by cases m <;> rfl

theorem edits_unfocused (t : Tree K V) (ms : List (EditMove V)) :
    (Cursor.edits ⟨none⟩ ms).run t = .ok (ms.map EditMove.unfocused) t := by
  induction ms with
  | nil => rfl
  | cons m ms ih => exact Act.run_then (edit_unfocused t m) (Act.run_then ih rfl)

/-! ### Starts -/

theorem sees_attach (hs : t.Sound) (hf : f.toList = t.inorder) :
    (attach t (f.item?.map Prod.fst)).Sees t f := by
  refine ⟨hs, hf.symm, ?_⟩
  cases f with
  | nowhere l => rfl
  | here b x a =>
    have hentry : t.entryAt? x.1 = some x.2 := by
      rw [hs.entryAt?_eq_some_iff, ← hf]
      exact List.mem_append_right _ List.mem_cons_self
    have hkey : t.keyAt? x.1 = some x.2.1 := congrArg (Option.map Prod.fst) hentry
    rw [Focused.item?, Option.map_some, attach, Option.filter_some, hkey]
    rfl

theorem sees_start (hs : t.Sound) (s : Start K) :
    ∃ c, Cursor.start t s = .ok c ∧ c.Sees t (Focused.start t.order t.inorder s) := by
  have hattach := sees_attach hs (Focused.toList_start t.order t.inorder s)
  cases s with
  | front =>
    refine ⟨_, Act.ok_then (hs.extreme .right) rfl, ?_⟩
    rw [Side.along, List.head?_map, ← Focused.item?_following (b := [])]
    exact hattach
  | back =>
    refine ⟨_, Act.ok_then (hs.extreme .left) rfl, ?_⟩
    rw [← Side.map_along, List.head?_map, ← Focused.item?_preceding (a := [])]
    exact hattach
  | key k =>
    refine ⟨_, Act.ok_then (hs.search k) rfl, ?_⟩
    rw [← Focused.item?_seek]
    exact hattach
  | lower k =>
    refine ⟨_, Act.ok_then (hs.lowerBound k) rfl, ?_⟩
    rw [← Focused.item?_seek]
    exact hattach
  | handle i =>
    have hitem := Focused.item?_seek (fun x => x.1 == i) t.inorder
    cases hfind : t.inorder.find? (fun x => x.1 == i) with
    | none =>
      have hi : t.entryAt? i = none := by
        refine Option.not_isSome_iff_eq_none.1 fun hlive => ?_
        obtain ⟨x, hx, hxi⟩ := List.mem_map.1 (hs.isSome_entryAt?_iff.1 hlive)
        exact List.find?_eq_none.1 hfind x hx (beq_iff_eq.2 hxi)
      refine ⟨_, (Tree.stale_of_entryAt? hi).cursor, ?_⟩
      rw [Focused.start, hitem, hfind] at hattach
      exact hattach
    | some x =>
      have hxi : x.1 = i := by
        have hx := List.find?_some hfind
        exact beq_iff_eq.1 hx
      rw [Focused.start, hitem, hfind, Option.map_some, hxi] at hattach
      exact ⟨_, rfl, hattach⟩

/-! ### A sweep -/

def sweepRound (p : K × V → Bool) :
    Cursor × List (K × V) → Edit K V (Round (Cursor × List (K × V)) (Except Refusal (List (K × V)))) :=
  fun (c, seen) => do
    if c.valid then
      match c.entry (← get) with
      | .error r => return .done (.error r)
      | .ok e =>
        if p e then
          match ← c.remove with
          | .error r => return .done (.error r)
          | .ok (_, c) => return .again (c, e :: seen)
        else
          match ← Act.look c.next with
          | .error r => return .done (.error r)
          | .ok c => return .again (c, e :: seen)
    else return .done (.ok seen.reverse)

def sweep (p : K × V → Bool) : Edit K V (Except Refusal (List (K × V))) := do
  let c ← Act.look fun t => Cursor.start t .front
  rounds (sweepRound p) (← get).reach (c, [])

theorem Sees.sweepRound (h : c.Sees t (.here b x a)) (p : K × V → Bool) (seen : List (K × V)) :
    ∃ c' t', (sweepRound p (c, seen)).run t = .ok (.again (c', x.2 :: seen)) t' ∧
      c'.Sees t' (.following (if p x.2 then b else x :: b) a) := by
  have hentry : c.entry t = .ok x.2 := by
    rw [h.eq_here, entry, Option.bind_some, h.entryAt?]
  have hvalid : c.valid = true := by
    rw [h.eq_here]
    rfl
  cases hp : p x.2 with
  | true =>
    obtain ⟨c', t', hrun, hsees⟩ := h.removed
    refine ⟨c', t', ?_, hsees⟩
    simp only [Cursor.sweepRound, hvalid, if_true]
    refine Act.run_then rfl ?_
    simp only [hentry, hp, if_true]
    exact Act.run_then hrun rfl
  | false =>
    obtain ⟨c', hnext, hsees⟩ := h.step_right
    refine ⟨c', t, ?_, hsees⟩
    simp only [Cursor.sweepRound, hvalid, if_true]
    refine Act.run_then rfl ?_
    simp only [hentry, hp]
    exact Act.look_then hnext rfl

theorem Sees.rounds_sweep (p : K × V → Bool) (h : c.Sees t (.following b a)) {n : Nat}
    (hn : a.length ≤ n) (seen : List (K × V)) :
    ∃ t', (rounds (Cursor.sweepRound p) n (c, seen)).run t =
        .ok (.ok (seen.reverse ++ a.map Prod.snd)) t' ∧
      t'.Sound ∧ t'.inorder = b.reverse ++ a.filter fun x => !p x.2 := by
  -- Behind the cursor are the entries that stay; in front of it nothing has been touched.
  induction a generalizing b c t n seen with
  | nil =>
    obtain rfl : c = ⟨none⟩ := h.eq_nowhere
    refine ⟨t, ?_, h.sound, ?_⟩
    · rw [List.map_nil, List.append_nil]
      exact Rounds.run_done rfl n
    · rw [List.filter_nil, List.append_nil]
      exact h.items
  | cons x a ih =>
    obtain ⟨n, rfl⟩ := Nat.exists_eq_add_one_of_ne_zero (Nat.ne_zero_of_lt hn)
    obtain ⟨c', u, hround, hsees⟩ := Sees.sweepRound (b := b) h p seen
    obtain ⟨t', hrun, hsound, hitems⟩ := ih hsees (Nat.le_of_succ_le_succ hn) (x.2 :: seen)
    refine ⟨t', (Rounds.run_again hround n).trans (hrun.trans ?_), hsound, hitems.trans ?_⟩
    · rw [List.reverse_cons, List.append_assoc]
      rfl
    · cases hp : p x.2 <;> simp [hp]

theorem run_sweep (hs : t.Sound) (p : K × V → Bool) :
    ∃ t', (sweep p).run t = .ok (.ok (t.inorder.map Prod.snd)) t' ∧ t'.Sound ∧
      t'.inorder = t.inorder.filter fun x => !p x.2 := by
  obtain ⟨c, hc, hsees⟩ := sees_start hs .front
  obtain ⟨t', hrun, hsound, hitems⟩ :=
    Sees.rounds_sweep (b := []) p hsees (Nat.le_of_lt hs.length_lt_reach) []
  exact ⟨t', Act.look_then hc (Act.run_then rfl hrun), hsound, hitems⟩

end Cursor

/-- After any calls, from every start and for every string of calls: a cursor answers as the list of the
items with a focus does, and leaves a valid tree of the items of that list. Once nothing is in focus, all
is refused and nothing changes. A sweep from the front sees every entry once, in order, and leaves those
that do not satisfy the condition. -/
theorem Client.cursors_refine_focus (order : KeyOrder K) [Std.TransCmp order.compare] (w : Width)
    (calls : List (Call K V)) :
    let t := ((fresh order w).run calls).tree
    (∀ s, ∃ c, Cursor.start t s = .ok c ∧
      (∀ ms, c.moves t ms = .ok ((Focused.start order t.inorder s).moves ms)) ∧
      ∀ ms, ∃ t', (c.edits ms).run t = .ok ((Focused.start order t.inorder s).edits ms).1 t' ∧
        t'.inorder = ((Focused.start order t.inorder s).edits ms).2.toList ∧ t'.Valid) ∧
      (∀ (u : Tree K V) ms, Cursor.moves u ⟨none⟩ ms = .ok (ms.map Move.unfocused)) ∧
      (∀ (u : Tree K V) ms, (Cursor.edits ⟨none⟩ ms).run u = .ok (ms.map EditMove.unfocused) u) ∧
      ∀ p, ∃ t', (Cursor.sweep p).run t = .ok (.ok (t.inorder.map Prod.snd)) t' ∧
        t'.inorder = t.inorder.filter (fun x => !p x.2) ∧ t'.Valid := by
  have hfresh := sound_fresh (V := V) order w
  have hs := (hfresh.run calls).tree
  have horder : ((fresh order w).run calls).tree.order = order := hfresh.order_run calls
  refine ⟨fun s => ?_, Cursor.moves_unfocused, Cursor.edits_unfocused, fun p => ?_⟩
  · obtain ⟨c, hc, hsees⟩ := Cursor.sees_start hs s
    rw [horder] at hsees
    refine ⟨c, hc, hsees.moves, fun ms => ?_⟩
    obtain ⟨t', hrun, hsound, hitems⟩ := hsees.edits ms
    exact ⟨t', hrun, hitems, hsound.valid⟩
  · obtain ⟨t', hrun, hsound, hitems⟩ := Cursor.run_sweep hs p
    exact ⟨t', hrun, hitems, hsound.valid⟩

theorem Client.cursors_refine_focus_natural :
    let t := ((fresh .natural .halfWord : Client Nat String).run
      [.insert 2 "b", .insert 1 "a", .insert 3 "c"]).tree
    (∃ c, Cursor.start t (.lower 2) = .ok c ∧
      ∃ t', (c.edits [.remove, .key, .next, .valid, .replace "z"]).run t =
        .ok [.entry (2, "b"), .key 3, .fine, .flag false, .refused .invalidCursor] t' ∧
          t'.inorder = [(⟨2⟩, 1, "a"), (⟨3⟩, 3, "c")] ∧ t'.Valid) ∧
      ∃ t', (Cursor.sweep fun e => e.1 == 1).run t =
          .ok (.ok [(1, "a"), (2, "b"), (3, "c")]) t' ∧
        t'.inorder = [(⟨1⟩, 2, "b"), (⟨3⟩, 3, "c")] ∧ t'.Valid := by
  have hitems : ((fresh .natural .halfWord : Client Nat String).run
      [.insert 2 "b", .insert 1 "a", .insert 3 "c"]).tree.inorder =
        [(⟨2⟩, 1, "a"), (⟨1⟩, 2, "b"), (⟨3⟩, 3, "c")] := by decide +kernel
  obtain ⟨hstart, -, -, hsweep⟩ := cursors_refine_focus (.natural : KeyOrder Nat) .halfWord
    [.insert 2 "b", .insert 1 "a", .insert 3 "c"]
  rw [hitems] at hstart hsweep
  obtain ⟨c, hc, -, hedits⟩ := hstart (.lower 2)
  exact ⟨⟨c, hc, hedits _⟩, hsweep _⟩

end RedBlack
