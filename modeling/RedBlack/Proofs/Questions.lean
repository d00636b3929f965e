import RedBlack.Command.Query
import RedBlack.Proofs.Bounds
import RedBlack.Proofs.Endings
import RedBlack.Proofs.Iterating
import RedBlack.Proofs.Simulation

/-! Questions to a sound tree. Each of them is answered, whatever it asks for: walks, strings of calls to
iterators, ranges and cursors, and texts. -/
namespace RedBlack
variable {K V β : Type}

theorem run_visits_cons {σ : Type} (visit : β → K → V → Bool × β) (e : K × V) (es : List (K × V)) (b : β)
    (s : σ) :
    (visits (fun b k v => (return visit b k v : Act σ _)) (e :: es) b).run s =
      if (visit b e.1 e.2).1 then
        (visits (fun b k v => (return visit b k v : Act σ _)) es (visit b e.1 e.2).2).run s
      else .ok (visit b e.1 e.2).2 s := by
  simp only [visits, pure_bind]
  split <;> rfl

theorem exists_visits {σ : Type} (visit : β → K → V → Bool × β) (es : List (K × V)) (b : β) :
    ∃ b', ∀ s : σ, (visits (fun b k v => (return visit b k v : Act σ _)) es b).run s = .ok b' s := by
  induction es generalizing b with
  | nil => exact ⟨b, fun _ => rfl⟩
  | cons e es ih =>
    simp only [run_visits_cons]
    cases (visit b e.1 e.2).1 with
    | false => exact ⟨_, fun _ => rfl⟩
    | true => exact ih _

namespace Range

def takeRound : Range K V × Option Nat × List (Option (K × V)) →
    Except Failure (Round (Range K V × Option Nat × List (Option (K × V))) (List (Option (K × V)))) :=
  fun (r, left, seen) => do
    if left = some 0 then return .done seen.reverse
    else
      match ← r.next with
      | (none, _) => return .done (none :: seen).reverse
      | (some e, r) => return .again (r, left.map (· - 1), some e :: seen)

def taken : Option Nat → List (K × V) → List (Option (K × V))
  | some 0, _ => []
  | _, [] => [none]
  | left, e :: es => some e :: taken (left.map (· - 1)) es

theorem taken_nil {left : Option Nat} (h : left ≠ some 0) : taken left ([] : List (K × V)) = [none] := by
  cases left with
  | none => rfl
  | some n =>
    cases n with
    | zero => exact absurd rfl h
    | succ n => rfl

theorem taken_cons {left : Option Nat} (h : left ≠ some 0) (e : K × V) (es : List (K × V)) :
    taken left (e :: es) = some e :: taken (left.map (· - 1)) es := by
  cases left with
  | none => rfl
  | some n =>
    cases n with
    | zero => exact absurd rfl h
    | succ n => rfl

end Range

namespace Tree
variable {t : Tree K V} {b c : List (Handle × K × V)}

namespace Sound

theorem answers_seek (hs : t.Sound) (s : Seek) (k : K) : Answers (t.seek s k) fun _ => True := by
  obtain ⟨ns, h⟩ := hs.holds
  exact .of_ok (Act.ok_then (h.shows.probe s k) rfl)

theorem answers_extreme (hs : t.Sound) (a : Side) : Answers (t.extreme a) fun _ => True := by
  obtain ⟨ns, h⟩ := hs.holds
  exact .of_ok (h.shows.extreme a)

theorem answers_neighbor (hs : t.Sound) (a : Side) (i : Handle) :
    Answers (t.neighbor a i) fun _ => True := by
  obtain ⟨x, hx⟩ := hs.exists_neighbor a i
  exact .of_ok hx

theorem answers_start (hs : t.Sound) (s : Start K) : Answers (Cursor.start t s) fun _ => True := by
  obtain ⟨c, hc⟩ := hs.exists_start s
  exact .of_ok hc

theorem answers_entryOf (hs : t.Sound) {i : Handle} (hi : i ∈ t.inorder.map Prod.fst) :
    Answers (t.entryOf i) fun e => t.entryAt? i = some e := by
  obtain ⟨e, he⟩ := Option.isSome_iff_exists.1 (hs.isSome_entryAt?_iff.2 hi)
  exact ⟨e, entryAt?_eq_some.1 he, he⟩

theorem answers_parent (hs : t.Sound) {i : Handle} (hi : i ∈ t.inorder.map Prod.fst) :
    Answers (t.parent i) fun _ => True := by
  obtain ⟨ns, h⟩ := hs.holds
  rw [← handles_eq] at hi
  obtain ⟨c, hc, rfl⟩ := List.mem_map.1 hi
  obtain ⟨l, r, π, hshape⟩ := Shape.exists_within hc
  have hshows := h.shows
  rw [hshape] at hshows
  exact .of_ok (Shows.parent_join (a := .left) hshows)

theorem lists (hs : t.Sound) : t.Lists t.order t.width (t.inorder.map Prod.snd) := ⟨hs, rfl, rfl, rfl⟩

theorem answers_outline (hs : t.Sound) : Answers t.outline fun _ => True := by
  refine Answers.bind ⟨_, hs.handles, rfl⟩ ?_
  rintro _ rfl
  refine .mapM fun i hi => ?_
  refine (hs.answers_entryOf hi).bind fun e _ => ?_
  exact (hs.answers_parent hi).map

/-! ### Strings of calls -/

theorem exists_traverse {σ : Type} (hs : t.Sound) (visit : β → K → V → Bool × β) (b : β) :
    ∃ b', ∀ s : σ, (t.traverse (fun b k v => (return visit b k v : Act σ _)) b).run s = .ok b' s := by
  obtain ⟨b', hb'⟩ := exists_visits visit (t.inorder.map Prod.snd) b
  exact ⟨b', fun s => (hs.traverse _ b s).trans (hb' s)⟩

theorem answers_visited (hs : t.Sound) (limit : Option Nat) : Answers (t.visited limit) fun _ => True := by
  obtain ⟨seen, hseen⟩ := hs.exists_traverse (σ := Unit)
    (fun (seen : List (K × V)) k v => (limit.all (seen.length + 1 < ·), (k, v) :: seen)) []
  refine ⟨seen.reverse, ?_, trivial⟩
  rw [Tree.visited, show (t.traverse (fun seen k v => gather limit seen (k, v)) []).run () = _ from hseen ()]

theorem rounds_take (hs : t.Sound) (hsplit : t.inorder = b ++ c) {n : Nat} (hn : c.length ≤ n)
    (left : Option Nat) (seen : List (Option (K × V))) :
    rounds Range.takeRound n (⟨t, c.head?.map Prod.fst⟩, left, seen) =
      .ok (seen.reverse ++ Range.taken left (c.map Prod.snd)) := by
  induction c generalizing b n left seen with
  | nil =>
    by_cases hleft : left = some 0
    · have hround : Range.takeRound (⟨t, none⟩, left, seen) = .ok (.done seen.reverse) := if_pos hleft
      rw [hleft, List.map_nil, Range.taken, List.append_nil, ← hleft]
      exact Rounds.done hround n
    · have hround : Range.takeRound (⟨t, none⟩, left, seen) = .ok (.done (none :: seen).reverse) :=
        if_neg hleft
      rw [List.map_nil, Range.taken_nil hleft, ← List.reverse_cons]
      exact Rounds.done hround n
  | cons x c ih =>
    obtain ⟨n, rfl⟩ := Nat.exists_eq_add_one_of_ne_zero (Nat.ne_zero_of_lt hn)
    by_cases hleft : left = some 0
    · have hround : Range.takeRound (⟨t, some x.1⟩, left, seen) = .ok (.done seen.reverse) :=
        if_pos hleft
      rw [hleft, Range.taken, List.append_nil, ← hleft]
      exact Rounds.done hround (n + 1)
    · have hround : Range.takeRound (⟨t, some x.1⟩, left, seen) =
          .ok (.again (⟨t, c.head?.map Prod.fst⟩, left.map (· - 1), some x.2 :: seen)) :=
        (if_neg hleft).trans (Act.ok_then (hs.range_next hsplit) rfl)
      have hrest : t.inorder = (b ++ [x]) ++ c := by rw [hsplit, List.append_cons]
      rw [List.head?_cons, Option.map_some, Rounds.again hround, List.map_cons, Range.taken_cons hleft,
        List.append_cons, ← List.reverse_cons]
      exact ih hrest (Nat.le_of_succ_le_succ hn) _ _

theorem ask_range [Text.Describe K] [Text.Describe V] (hs : t.Sound) (k : K) (limit : Option Nat) :
    let c := t.inorder.dropWhile (t.order.lesser k)
    (Query.range k limit).ask t = .ok (.many (.text (Range.mk t (c.head?.map Prod.fst)).doc.onLine ::
      (Range.taken limit (c.map Prod.snd)).map (.option .entry))) := by
  intro c
  have hstart : Range.startingAt t k = .ok ⟨t, c.head?.map Prod.fst⟩ := by
    refine Act.ok_then (hs.lowerBound k) ?_
    rw [List.find?_not_eq_head?_dropWhile]
    rfl
  have hsplit : t.inorder = t.inorder.takeWhile (t.order.lesser k) ++ c :=
    List.takeWhile_append_dropWhile.symm
  have hlen : c.length ≤ t.reach :=
    Nat.le_trans (List.dropWhile_sublist _).length_le (Nat.le_of_lt hs.length_lt_reach)
  exact Act.ok_then hstart (Act.ok_then (hs.rounds_take hsplit hlen limit []) rfl)

end Sound
end Tree

theorem Cursor.answers_step {t : Tree K V} (hs : t.Sound) (c : Cursor) (a : Side) :
    Answers (c.step a t) fun _ => True := by
  obtain ⟨node⟩ := c
  cases node with
  | none => exact .of_ok rfl
  | some i => exact (hs.answers_neighbor a i).map

theorem Cursor.answers_move {t : Tree K V} (hs : t.Sound) (c : Cursor) (m : Move) :
    Answers (c.move t m) fun _ => True := by
  cases m with
  | next => exact (answers_step hs c .right).map
  | prev => exact (answers_step hs c .left).map
  | copyNext => exact (answers_step hs c .right).map
  | valid | handle | key | value | entry | describe => exact .of_ok rfl

theorem Cursor.answers_moves {t : Tree K V} (hs : t.Sound) (c : Cursor) (ms : List Move) :
    Answers (c.moves t ms) fun _ => True := by
  induction ms generalizing c with
  | nil => exact .of_ok rfl
  | cons m ms ih => exact (Cursor.answers_move hs c m).bind fun r _ => (ih r.2).map

section
variable [Text.Describe K] [Text.Describe V] {t : Tree K V}

theorem Iter.Spans.answers_pull {i : Iter K V} {l : List (Handle × K × V)} (h : i.Spans l) (view : View)
    (p : Pull) : Answers (i.pull view p) fun r => ∃ l', r.2.Spans l' := by
  cases p with
  | front =>
    obtain ⟨j, hj, hspans⟩ := h.draw .right
    exact ⟨_, Act.ok_then hj rfl, _, hspans⟩
  | back =>
    obtain ⟨j, hj, hspans⟩ := h.draw .left
    exact ⟨_, Act.ok_then hj rfl, _, hspans⟩
  | remaining => exact .pure ⟨l, h⟩
  | bounds => exact .pure ⟨l, h⟩
  | rest => exact ⟨_, Act.ok_then h.rest rfl, l, h⟩
  | describe =>
    cases view with
    | entries => exact ⟨_, Act.ok_then h.rest rfl, l, h⟩
    | keys => exact .pure ⟨l, h⟩
    | values => exact .pure ⟨l, h⟩

theorem Iter.Spans.answers_pulls {i : Iter K V} {l : List (Handle × K × V)} (h : i.Spans l)
    (view : View) (ps : List Pull) : Answers (i.pulls view ps) fun _ => True := by
  induction ps generalizing i l with
  | nil => exact .of_ok rfl
  | cons p ps ih =>
    refine (h.answers_pull view p).bind fun r hr => ?_
    obtain ⟨l', hspans⟩ := hr
    exact (ih hspans).map

theorem Tree.Sound.answers_ask (hs : t.Sound) (q : Query K) : Answers (q.ask t) fun _ => True := by
  have hlists := hs.lists
  cases q with
  | search s k => exact (hs.answers_seek s k).map
  | path s k =>
    obtain ⟨ns, h⟩ := hs.holds
    cases s with
    | none => exact .of_ok rfl
    | some s => exact .of_ok (Act.ok_then (h.shows.probe s k) rfl)
  | first => exact (hs.answers_extreme .left).map
  | last => exact (hs.answers_extreme .right).map
  | successor i => exact (hs.answers_neighbor .right i).map
  | predecessor i => exact (hs.answers_neighbor .left i).map
  | get k => exact .of_ok (Act.ok_then (hlists.get? k) rfl)
  | getEntry k => exact .of_ok (Act.ok_then (hlists.find? k) rfl)
  | contains k => exact .of_ok (Act.ok_then (hlists.contains k) rfl)
  | firstEntry => exact .of_ok (Act.ok_then hlists.min? rfl)
  | lastEntry => exact .of_ok (Act.ok_then hlists.max? rfl)
  | describe l =>
    have hdoc : t.doc = .ok (Text.mapDoc (t.inorder.map Prod.snd)) := Act.ok_then hs.toList rfl
    exact .of_ok (Act.ok_then hdoc rfl)
  | outline => exact hs.answers_outline.map
  | traverse limit => exact (hs.answers_visited limit).map
  | range k limit => exact .of_ok (hs.ask_range k limit)
  | iterate view ps =>
    have hiter : Answers (Iter.ofTree t) fun i => i.Spans t.inorder := hs.exists_iter
    exact hiter.bind fun i hspans => (hspans.answers_pulls view ps).map
  | cursor s ms =>
    exact (hs.answers_start s).bind fun c _ => (Cursor.answers_moves hs c ms).map
  | keyAt i | valueAt i | entryAt i | size | isEmpty | compare a b => exact .of_ok rfl

end
end RedBlack
