import Mathlib.Data.List.Infix
import RedBlack.Iteration
import RedBlack.Proofs.Succession

/-! Iteration as a list that is taken from at both ends. What an iterator has still to give are items of
its tree that follow one another. -/
namespace RedBlack
variable {K V : Type}

namespace Side
variable {α β : Type}

@[simp] theorem along_along (a : Side) (l : List α) : a.along (a.along l) = l := by
  cases a with
  | left => exact List.reverse_reverse l
  | right => rfl

theorem length_along (a : Side) (l : List α) : (a.along l).length = l.length := by
  cases a with
  | left => exact List.length_reverse
  | right => rfl

theorem along_eq_nil {a : Side} {l : List α} : a.along l = [] ↔ l = [] := by
  cases a with
  | left => exact List.reverse_eq_nil_iff
  | right => exact Iff.rfl

theorem along_infix {a : Side} {l m : List α} : a.along l <:+: a.along m ↔ l <:+: m := by
  cases a with
  | left => exact List.reverse_infix
  | right => exact Iff.rfl

def rest (a : Side) (l : List α) : List α := a.along (a.along l).tail

/-- What is taken of a list, each time the first item on the way to a side, and what is left of it. -/
def takes : List Side → List α → List (Option α) × List α
  | [], l => ([], l)
  | a :: as, l => ((a.along l).head? :: (takes as (a.rest l)).1, (takes as (a.rest l)).2)

theorem along_rest (a : Side) (l : List α) : a.along (a.rest l) = (a.along l).tail := by
  rw [rest, along_along]

theorem length_rest (a : Side) (l : List α) : (a.rest l).length = l.length - 1 := by
  rw [← length_along a, along_rest, List.length_tail, length_along]

theorem length_takes (as : List Side) (l : List α) :
    (takes as l).2.length + (takes as l).1.countP Option.isSome = l.length := by
  induction as generalizing l with
  | nil => rfl
  | cons a as ih =>
    have hrest := ih (a.rest l)
    rw [length_rest] at hrest
    rw [takes, List.countP_cons]
    dsimp only
    have hlen := length_along a l
    cases hl : a.along l with
    | nil =>
      rw [hl, List.length_nil] at hlen
      rw [List.head?_nil, Option.isSome_none, if_neg Bool.false_ne_true]
      omega
    | cons x m =>
      rw [hl, List.length_cons] at hlen
      rw [List.head?_cons, Option.isSome_some, if_pos rfl]
      omega

end Side

theorem Tree.Sound.length_lt_reach {t : Tree K V} (hs : t.Sound) : t.inorder.length < t.reach := by
  have hlength := hs.accounted.length
  rw [hs.size_eq] at hlength
  rw [Tree.reach]
  omega

namespace Iter
variable {i : Iter K V} {a : Side} {l : List (Handle × K × V)} {x : Handle} {y : Option Handle}

def tip (i : Iter K V) : Side → Option Handle
  | .left => i.back
  | .right => i.front

def draw (i : Iter K V) : Side → Except Failure (Option (K × V) × Iter K V)
  | .left => i.nextBack
  | .right => i.next

def draws : List Side → Iter K V → Except Failure (List (Option (K × V)) × Iter K V)
  | [], i => return ([], i)
  | a :: as, i => do
    let (e, i) ← i.draw a
    let (es, i) ← i.draws as
    return (e :: es, i)

def drawn (a : Side) (y : Option Handle) (i : Iter K V) : Iter K V :=
  match a with
  | .left => { i with back := y, remaining := i.remaining - 1 }
  | .right => { i with front := y, remaining := i.remaining - 1 }

theorem draw_of_remaining (h : i.remaining = 0) (a : Side) : i.draw a = .ok (none, i) := by
  cases a <;> simp only [draw, next, nextBack, h, if_true] <;> rfl

theorem draw_of_tip (h : i.remaining ≠ 0) (hx : i.tip a = some x) (hy : i.tree.neighbor a x = .ok y) :
    i.draw a = .ok (i.tree.entryAt? x, i.drawn a y) := by
  cases a with
  | left =>
    have hx : i.back = some x := hx
    rw [draw, nextBack, if_neg h, hx]
    exact Act.ok_then hy rfl
  | right =>
    have hx : i.front = some x := hx
    rw [draw, next, if_neg h, hx]
    exact Act.ok_then hy rfl

@[simp] theorem tree_drawn : (i.drawn a y).tree = i.tree := by cases a <;> rfl

@[simp] theorem remaining_drawn : (i.drawn a y).remaining = i.remaining - 1 := by cases a <;> rfl

@[simp] theorem tip_drawn : (i.drawn a y).tip a = y := by cases a <;> rfl

@[simp] theorem tip_other_drawn : (i.drawn a y).tip a.other = i.tip a.other := by cases a <;> rfl

/-- The iterator has these items still to give. -/
structure Spans (i : Iter K V) (l : List (Handle × K × V)) : Prop where
  sound : i.tree.Sound
  within : l <:+: i.tree.inorder
  remaining : i.remaining = l.length
  tip : l ≠ [] → ∀ a, i.tip a = (a.along l).head?.map Prod.fst

namespace Spans

theorem drawn {e : Handle × K × V} {m c : List (Handle × K × V)} (h : i.Spans l)
    (hl : a.along l = e :: m) : (i.drawn a ((m ++ c).head?.map Prod.fst)).Spans (a.rest l) := by
  have hrest : a.along (a.rest l) = m := by rw [Side.along_rest, hl, List.tail_cons]
  refine ⟨?_, ?_, ?_, fun hne d => ?_⟩
  · rw [tree_drawn]
    exact h.sound
  · rw [tree_drawn, ← Side.along_infix (a := a), hrest]
    have hwithin : e :: m <:+: a.along i.tree.inorder := hl ▸ Side.along_infix.2 h.within
    exact (List.suffix_cons e m).isInfix.trans hwithin
  · rw [remaining_drawn, h.remaining, Side.length_rest]
  · -- The end that was taken from has moved on, and the other one is where it was.
    have hm : m ≠ [] := fun hm => hne (Side.along_eq_nil.1 (hrest.trans hm))
    by_cases hd : d = a
    · subst hd
      rw [tip_drawn, hrest, List.head?_append_of_ne_nil _ hm]
    · obtain rfl := Side.eq_other hd
      have hl' : l ≠ [] := by
        rintro rfl
        rw [Side.along_eq_nil.2 rfl] at hl
        cases hl
      rw [tip_other_drawn, h.tip hl', Side.along_other, Side.along_other, hrest, hl,
        List.head?_reverse, List.head?_reverse, List.getLast?_cons_of_ne_nil hm]

theorem draw (h : i.Spans l) (a : Side) :
    ∃ i', i.draw a = .ok ((a.along l).head?.map Prod.snd, i') ∧ i'.Spans (a.rest l) := by
  cases hl : a.along l with
  | nil =>
    obtain rfl := Side.along_eq_nil.1 hl
    refine ⟨i, draw_of_remaining h.remaining a, ?_⟩
    rw [Side.rest, hl, List.tail_nil, hl]
    exact h
  | cons e m =>
    have hlen : l.length = m.length + 1 := by rw [← Side.length_along a, hl, List.length_cons]
    have hremaining : i.remaining ≠ 0 := by
      rw [h.remaining, hlen]
      exact Nat.succ_ne_zero _
    have htip : i.tip a = some e.1 := by
      rw [h.tip (List.ne_nil_of_length_eq_add_one hlen) a, hl, List.head?_cons, Option.map_some]
    obtain ⟨b, c, hsplit⟩ : e :: m <:+: a.along i.tree.inorder := hl ▸ Side.along_infix.2 h.within
    rw [List.append_assoc, List.cons_append] at hsplit
    have hentry : i.tree.entryAt? e.1 = some e.2 := by
      refine h.sound.entryAt?_eq_some_iff.2 (Side.mem_along (a := a).1 ?_)
      rw [← hsplit]
      exact List.mem_append_right b List.mem_cons_self
    have hdraw := draw_of_tip hremaining htip (h.sound.neighbor_of_split hsplit.symm)
    rw [hentry] at hdraw
    exact ⟨_, hdraw, h.drawn hl⟩

theorem draws (h : i.Spans l) (as : List Side) :
    ∃ i', i.draws as = .ok ((Side.takes as l).1.map (Option.map Prod.snd), i') ∧
      i'.Spans (Side.takes as l).2 := by
  induction as generalizing i l with
  | nil => exact ⟨i, rfl, h⟩
  | cons a as ih =>
    obtain ⟨j, hj, hspans⟩ := h.draw a
    obtain ⟨i', hi', hspans'⟩ := ih hspans
    exact ⟨i', Act.ok_then hj (Act.ok_then hi' rfl), hspans'⟩

def restRound : Iter K V × List (K × V) →
    Except Failure (Round (Iter K V × List (K × V)) (List (K × V))) :=
  fun (i, seen) => do
    match ← i.next with
    | (none, _) => return .done seen.reverse
    | (some e, i) => return .again (i, e :: seen)

theorem rounds_rest (h : i.Spans l) {n : Nat} (hn : l.length ≤ n) (seen : List (K × V)) :
    rounds restRound n (i, seen) = .ok (seen.reverse ++ l.map Prod.snd) := by
  induction l generalizing i n seen with
  | nil =>
    obtain ⟨j, hj, -⟩ := h.draw .right
    rw [List.map_nil, List.append_nil]
    exact Rounds.done (Act.ok_then hj rfl) n
  | cons x l ih =>
    obtain ⟨n, rfl⟩ := Nat.exists_eq_add_one_of_ne_zero (Nat.ne_zero_of_lt hn)
    obtain ⟨j, hj, hspans⟩ := h.draw .right
    have hround : restRound (i, seen) = .ok (.again (j, x.2 :: seen)) := Act.ok_then hj rfl
    rw [Rounds.again hround, ih hspans (Nat.le_of_succ_le_succ hn), List.reverse_cons,
      List.append_assoc]
    rfl

theorem rest (h : i.Spans l) : i.rest = .ok (l.map Prod.snd) :=
  h.rounds_rest (h.within.length_le.trans (Nat.le_of_lt h.sound.length_lt_reach)) []

end Spans
end Iter

/-! ### Walks over a whole tree -/

def visits {σ β : Type} (visit : β → K → V → Act σ (Bool × β)) : List (K × V) → β → Act σ β
  | [], b => return b
  | e :: es, b => do
    let (onward, b) ← visit b e.1 e.2
    if onward then visits visit es b else return b

namespace Tree
variable {t : Tree K V} {b c : List (Handle × K × V)}

def drawn (t : Tree K V) (as : List Side) : Except Failure (List (Option (K × V))) := do
  let (es, _) ← (← Iter.ofTree t).draws as
  return es

def visitRound {σ β : Type} (t : Tree K V) (visit : β → K → V → Act σ (Bool × β)) :
    Option Handle × β → Act σ (Round (Option Handle × β) β) :=
  fun (cur, b) => do
    match cur with
    | none => return .done b
    | some x =>
      let e ← Act.look fun _ => t.entryOf x
      let (onward, b) ← visit b e.1 e.2
      if onward then return .again (← Act.look fun _ => t.successor x, b)
      else return .done b

def handlesRound (t : Tree K V) :
    Option Handle × List Handle → Except Failure (Round (Option Handle × List Handle) (List Handle))
  | (none, seen) => return .done seen.reverse
  | (some x, seen) => return .again (← t.successor x, x :: seen)

namespace Sound

theorem exists_iter (hs : t.Sound) : ∃ i, Iter.ofTree t = .ok i ∧ i.Spans t.inorder := by
  have hfirst := hs.extreme .right
  have hlast := hs.extreme .left
  refine ⟨_, Act.ok_then hfirst (Act.ok_then hlast rfl), hs, List.infix_rfl, hs.size_eq, fun _ a => ?_⟩
  cases a with
  | left =>
    rw [← List.head?_map, Side.map_along]
    rfl
  | right =>
    rw [← List.head?_map, Side.map_along]
    rfl

theorem drawn (hs : t.Sound) (as : List Side) :
    t.drawn as = .ok ((Side.takes as t.inorder).1.map (Option.map Prod.snd)) := by
  obtain ⟨i, hi, hspans⟩ := hs.exists_iter
  obtain ⟨j, hj, -⟩ := hspans.draws as
  exact Act.ok_then hi (Act.ok_then hj rfl)

theorem toList (hs : t.Sound) : t.toList = .ok (t.inorder.map Prod.snd) := by
  obtain ⟨i, hi, hspans⟩ := hs.exists_iter
  exact Act.ok_then hi hspans.rest

theorem successor_of_split {x : Handle × K × V} (hs : t.Sound) (hsplit : t.inorder = b ++ x :: c) :
    t.successor x.1 = .ok (c.head?.map Prod.fst) := hs.neighbor_of_split (a := .right) hsplit

theorem entryOf_of_split {x : Handle × K × V} (hs : t.Sound) (hsplit : t.inorder = b ++ x :: c) :
    t.entryOf x.1 = .ok x.2 := by
  rw [← entryAt?_eq_some, hs.entryAt?_eq_some_iff, hsplit]
  exact List.mem_append_right b List.mem_cons_self

theorem rounds_handles (hs : t.Sound) (hsplit : t.inorder = b ++ c) {n : Nat} (hn : c.length ≤ n)
    (seen : List Handle) :
    rounds t.handlesRound n (c.head?.map Prod.fst, seen) = .ok (seen.reverse ++ c.map Prod.fst) := by
  induction c generalizing b n seen with
  | nil =>
    rw [List.map_nil, List.append_nil]
    exact Rounds.done rfl n
  | cons x c ih =>
    obtain ⟨n, rfl⟩ := Nat.exists_eq_add_one_of_ne_zero (Nat.ne_zero_of_lt hn)
    have hround : t.handlesRound (some x.1, seen) = .ok (.again (c.head?.map Prod.fst, x.1 :: seen)) :=
      Act.ok_then (hs.successor_of_split hsplit) rfl
    have hrest : t.inorder = (b ++ [x]) ++ c := by rw [hsplit, List.append_cons]
    rw [List.head?_cons, Option.map_some, Rounds.again hround, ih hrest (Nat.le_of_succ_le_succ hn),
      List.reverse_cons, List.append_assoc]
    rfl

theorem handles (hs : t.Sound) : t.handles = .ok (t.inorder.map Prod.fst) := by
  refine Act.ok_then (hs.extreme .right) ?_
  rw [Side.along, List.head?_map]
  exact hs.rounds_handles (b := []) rfl (Nat.le_of_lt hs.length_lt_reach) []

theorem rounds_traverse {σ β : Type} (hs : t.Sound) (visit : β → K → V → Act σ (Bool × β))
    (hsplit : t.inorder = b ++ c) {n : Nat} (hn : c.length ≤ n) (a : β) (s : σ) :
    (rounds (t.visitRound visit) n (c.head?.map Prod.fst, a)).run s =
      (visits visit (c.map Prod.snd) a).run s := by
  induction c generalizing b n a s with
  | nil => exact Rounds.run_done rfl n
  | cons x c ih =>
    obtain ⟨n, rfl⟩ := Nat.exists_eq_add_one_of_ne_zero (Nat.ne_zero_of_lt hn)
    have hentry (k : K × V → Act σ (Round (Option Handle × β) β)) :
        (Act.look (fun _ => t.entryOf x.1) >>= k).run s = (k x.2).run s :=
      Act.look_then (hs.entryOf_of_split hsplit) rfl
    rw [List.map_cons, visits, EStateM.run_bind]
    cases hv : (visit a x.2.1 x.2.2).run s with
    | error e s' =>
      have hround : (t.visitRound visit (some x.1, a)).run s = .error e s' :=
        (hentry _).trans (Act.fail_then hv)
      exact Act.fail_then hround
    | ok r s' =>
      obtain ⟨onward, a'⟩ := r
      cases onward with
      | false =>
        have hround : (t.visitRound visit (some x.1, a)).run s = .ok (.done a') s' :=
          (hentry _).trans (Act.run_then hv rfl)
        exact Rounds.run_done hround (n + 1)
      | true =>
        have hround : (t.visitRound visit (some x.1, a)).run s =
            .ok (.again (c.head?.map Prod.fst, a')) s' :=
          (hentry _).trans (Act.run_then hv (Act.look_then (hs.successor_of_split hsplit) rfl))
        have hrest : t.inorder = (b ++ [x]) ++ c := by rw [hsplit, List.append_cons]
        exact (Rounds.run_again hround n).trans (ih hrest (Nat.le_of_succ_le_succ hn) a' s')

theorem traverse {σ β : Type} (hs : t.Sound) (visit : β → K → V → Act σ (Bool × β)) (a : β) (s : σ) :
    (t.traverse visit a).run s = (visits visit (t.inorder.map Prod.snd) a).run s := by
  have hfirst : t.first = .ok (t.inorder.head?.map Prod.fst) := by
    rw [← List.head?_map]
    exact hs.extreme .right
  refine Act.look_then hfirst ?_
  exact hs.rounds_traverse visit (b := []) rfl (Nat.le_of_lt hs.length_lt_reach) a s

end Sound

theorem run_vacates {l : List (Handle × K × V)} (hd : (l.map Prod.fst).Nodup)
    (hl : ∀ x ∈ l, t.entryOf x.1 = .ok x.2) :
    ∃ t', ((l.map Prod.fst).mapM Edit.vacate).run t = .ok (l.map Prod.snd) t' ∧
      t'.order = t.order ∧ t'.width = t.width := by
  induction l generalizing t with
  | nil => exact ⟨t, rfl, rfl, rfl⟩
  | cons x l ih =>
    obtain ⟨hx, hd⟩ := List.nodup_cons.1 hd
    have hentry := hl x List.mem_cons_self
    have hvacate : (Edit.vacate x.1).run t = .ok x.2 (t.put x.1 fun _ => .vacant) :=
      Act.look_then hentry
        (Act.run_then (run_modifySlot_eq _ (isSome_of_entryAt? (entryAt?_eq_some.2 hentry))) rfl)
    have hkept : ∀ y ∈ l, (t.put x.1 fun _ => .vacant).entryOf y.1 = .ok y.2 := by
      intro y hy
      have hne : x.1 ≠ y.1 := fun heq => hx (heq ▸ List.mem_map_of_mem hy)
      rw [← entryAt?_eq_some, Tree.entryAt?, Arena.find?, slot?_put_of_ne t _ hne]
      exact entryAt?_eq_some.2 (hl y (List.mem_cons_of_mem _ hy))
    obtain ⟨t', hrun, horder, hwidth⟩ := ih hd hkept
    refine ⟨t', ?_, horder, hwidth⟩
    rw [List.map_cons, List.mapM_cons]
    exact Act.run_then hvacate (Act.run_then hrun rfl)

theorem Sound.run_drain (hs : t.Sound) :
    ∃ t', Edit.drain.run t = .ok (t.inorder.map Prod.snd) t' ∧ t'.Sound ∧ t'.inorder = [] := by
  have hentries : ∀ x ∈ t.inorder, t.entryOf x.1 = .ok x.2 := fun x hx =>
    entryAt?_eq_some.1 (hs.entryAt?_eq_some_iff.2 hx)
  obtain ⟨u, hrun, horder, hwidth⟩ := run_vacates hs.nodup_handles hentries
  have hnil : ({ Tree.empty u.order u.width with journal := u.journal } : Tree K V).Holds .vacant .nil :=
    holds_nil rfl rfl rfl
  refine ⟨_, Act.look_then hs.handles (Act.run_then hrun rfl), hnil.sound ?_, hnil.inorder_eq⟩
  show Std.TransCmp u.order.compare
  rw [horder]
  exact hs.lawful
end Tree
end RedBlack
