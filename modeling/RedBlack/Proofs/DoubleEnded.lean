import RedBlack.Command.Change
import RedBlack.Proofs.Invariants
import RedBlack.Proofs.Iterating

/-! Iterators as lists that are popped at both ends. Whatever calls come, in whatever order, an iterator
over entries, over keys or over values answers as the list of the entries does. -/
namespace RedBlack
open Text
variable {K V : Type}

namespace Side
variable {α : Type}

theorem rest_left (l : List α) : Side.left.rest l = l.dropLast := by
  show l.reverse.tail.reverse = l.dropLast
  rw [List.tail_reverse, List.reverse_reverse]

theorem head?_along_left (l : List α) : (Side.left.along l).head? = l.getLast? := List.head?_reverse

theorem map_rest (a : Side) {β : Type} (f : α → β) (l : List α) :
    (a.rest l).map f = a.rest (l.map f) := by
  rw [rest, rest, map_along, List.map_tail, map_along]

def given (a : Side) : List Side → List (Option α) → List α
  | b :: as, e :: es => if b = a then e.toList ++ given a as es else given a as es
  | _, _ => []

end Side

namespace View
variable [Describe K] [Describe V]

def pop (view : View) (l : List (K × V)) : Pull → Answer K V × List (K × V)
  | .front => (.option view.answer l.head?, l.tail)
  | .back => (.option view.answer l.getLast?, l.dropLast)
  | .remaining => (.count l.length, l)
  | .bounds => (.many [.count l.length, .count l.length], l)
  | .rest => (.many (l.map view.answer), l)
  | .describe =>
    match view with
    | .entries => (.text (entriesDoc l).onLine, l)
    | .keys | .values => (.nothing, l)

def pops (view : View) : List (K × V) → List Pull → List (Answer K V)
  | _, [] => []
  | l, p :: ps => (view.pop l p).1 :: view.pops (view.pop l p).2 ps

end View

namespace Iter.Spans
variable {i : Iter K V} {l : List (Handle × K × V)}

theorem length_left (h : i.Spans l) : i.remaining = (l.map Prod.snd).length := by
  rw [h.remaining, List.length_map]

section
variable [Describe K] [Describe V]

theorem pull (h : i.Spans l) (view : View) (p : Pull) :
    ∃ i' l', i.pull view p = .ok ((view.pop (l.map Prod.snd) p).1, i') ∧ i'.Spans l' ∧
      l'.map Prod.snd = (view.pop (l.map Prod.snd) p).2 := by
  cases p with
  | front =>
    obtain ⟨i', hi', hspans⟩ := h.draw .right
    refine ⟨i', _, Act.ok_then hi' ?_, hspans, Side.map_rest .right Prod.snd l⟩
    rw [Side.along, ← List.head?_map]
    rfl
  | back =>
    obtain ⟨i', hi', hspans⟩ := h.draw .left
    refine ⟨i', _, Act.ok_then hi' ?_, hspans, ?_⟩
    · rw [Side.head?_along_left, ← List.getLast?_map]
      rfl
    · rw [Side.map_rest, Side.rest_left]
      rfl
  | remaining =>
    refine ⟨i, l, ?_, h, rfl⟩
    rw [Iter.pull, h.length_left]
    rfl
  | bounds =>
    refine ⟨i, l, ?_, h, rfl⟩
    rw [Iter.pull, h.length_left]
    rfl
  | rest => exact ⟨i, l, Act.ok_then h.rest rfl, h, rfl⟩
  | describe =>
    cases view with
    | entries => exact ⟨i, l, Act.ok_then h.rest rfl, h, rfl⟩
    | keys | values => exact ⟨i, l, rfl, h, rfl⟩

theorem pulls (h : i.Spans l) (view : View) (ps : List Pull) :
    i.pulls view ps = .ok (view.pops (l.map Prod.snd) ps) := by
  induction ps generalizing i l with
  | nil => rfl
  | cons p ps ih =>
    obtain ⟨i', l', hpull, hspans, hl'⟩ := h.pull view p
    rw [View.pops, ← hl']
    exact Act.ok_then hpull (Act.ok_then (ih hspans) rfl)

end
end Iter.Spans

section
variable [Describe K] [Describe V]

namespace Tree.Sound
variable {t : Tree K V}

theorem ask_iterate (hs : t.Sound) (view : View) (ps : List Pull) :
    (Query.iterate view ps).ask t = .ok (.many (view.pops (t.inorder.map Prod.snd) ps)) := by
  obtain ⟨i, hi, hspans⟩ := hs.exists_iter
  exact Act.ok_then hi (Act.ok_then (hspans.pulls view ps) rfl)

end Tree.Sound
end

end RedBlack
