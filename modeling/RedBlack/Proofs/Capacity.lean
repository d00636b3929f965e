import RedBlack.Proofs.Refusals

/-! How much a tree can hold. The nil slot takes one of the positions below the maximum, and entries all the
others before the arena is full, whatever came before. -/
namespace RedBlack
variable {K V : Type}

structure Tree.ExactCapacity (t : Tree K V) (w : Width) : Prop where
  full : ∀ k v, ¬ t.Has k → ((Edit.insert k v).run t = .error .arenaFull t ↔ t.size = w.max - 1)
  room : ∀ k v, ¬ t.Has k → t.size ≠ w.max - 1 → ∃ h u, (Edit.insert k v).run t = .ok h u
  given : ∀ k v h u, (Edit.insert k v).run t = .ok h u → 1 ≤ h.pos ∧ h.pos ≤ w.max - 1
  used : ∀ h, h ∈ t.inorder.map Prod.fst ∨ h ∈ t.arena.free → 1 ≤ h.pos ∧ h.pos ≤ w.max - 1
  slots : t.arena.slots.size ≤ w.max
  exact : ∀ p, p ≤ t.arena.slots.size → w.handle p = ⟨p⟩
  apart : ∀ p q, p ≤ t.arena.slots.size → q ≤ t.arena.slots.size → w.handle p = w.handle q → p = q

namespace Tree.Sound
variable {t u : Tree K V} {w : Width} {k : K} {v : V} {h : Handle}

section
variable (hs : t.Sound) (hw : t.width = w) (hone : 1 ≤ w.max) (hword : w.max < Width.word.max)
include hs hw hone hword

theorem slots_le_max : t.arena.slots.size ≤ w.max := by
  obtain ⟨ns, hh⟩ := hs.holds
  have hroom := hh.width (hw ▸ Width.limited_of_lt hword)
  rwa [hw, Nat.max_eq_right hone] at hroom

theorem pos_used (hh : h ∈ t.inorder.map Prod.fst ∨ h ∈ t.arena.free) :
    1 ≤ h.pos ∧ h.pos ≤ w.max - 1 := by
  have hslots := hs.slots_le_max hw hone hword
  have hmem := hs.accounted.split.mem_iff.1 (List.mem_append.2 hh)
  rw [Arena.mem_positions] at hmem
  omega

theorem pos_given (hrun : (Edit.insert k v).run t = .ok h u) : 1 ≤ h.pos ∧ h.pos ≤ w.max - 1 := by
  obtain ⟨hsound, hturns⟩ := hs.turns_insert hrun
  have hlive := List.mem_map_of_mem (f := Prod.fst) hturns.mem_added
  exact hsound.pos_used (hturns.width.trans hw) hone hword (.inl hlive)

theorem exhausted_iff_size : t.stock.Exhausted t.width ↔ t.size = w.max - 1 := by
  have hlists : t.Lists t.order w (t.inorder.map Prod.snd) := ⟨hs, rfl, hw, rfl⟩
  have hslots := hs.slots_le_max hw hone hword
  have hlength := hs.accounted.length
  rw [hlists.exhausted_iff, Width.limited_of_lt hword, Bool.true_and, decide_eq_true_eq,
    ← hlists.size]
  omega

theorem exactCapacity : t.ExactCapacity w := by
  have hslots := hs.slots_le_max hw hone hword
  have hexhausted := hs.exhausted_iff_size hw hone hword
  have hexact (p : Nat) (hp : p ≤ t.arena.slots.size) : w.handle p = ⟨p⟩ :=
    Width.handle_of_le (Nat.le_trans hp hslots)
  refine ⟨fun k v hk => ?_, fun k v hk hsize => ?_, fun k v h u => hs.pos_given hw hone hword,
    fun h => hs.pos_used hw hone hword, hslots, hexact, fun p q hp hq heq => ?_⟩
  · rw [hs.run_insert_eq_error v, hexhausted]
    constructor
    · rintro ⟨-, ⟨he, -⟩ | ⟨-, -, hfull⟩⟩
      · cases he
      · exact hfull
    · intro hfull
      exact ⟨rfl, .inr ⟨rfl, hk, hfull⟩⟩
  · obtain ⟨u, hrun, -⟩ :=
      hs.exists_insert (any_agrees_eq_false hk) (fun hfull => hsize (hexhausted.1 hfull)) v
    exact ⟨_, u, hrun⟩
  · rw [hexact p hp, hexact q hq] at heq
    exact congrArg Handle.pos heq

end

end Tree.Sound

namespace Client

theorem Sound.pos_handed {s : Client K V} (h : s.Sound) {w : Width} (hw : s.tree.width = w)
    (hone : 1 ≤ w.max) (hword : w.max < Width.word.max) (calls : List (Call K V)) :
    ∀ i ∈ (s.effects calls).filterMap Effect.handle?, 1 ≤ i.pos ∧ i.pos ≤ w.max - 1 := by
  -- A call that gives out a handle leaves it with an entry; the width is the same all along.
  induction calls generalizing s with
  | nil => exact fun i hi => nomatch hi
  | cons c calls ih =>
    obtain ⟨hsound, hturns, -⟩ := h.step c
    have hwidth := hturns.width.trans hw
    have hrest := ih hsound hwidth
    rw [effects]
    cases heff : s.effect c with
    | unchanged | edited _ | deleted _ | cleared => exact hrest
    | added i k v =>
      rw [heff] at hturns
      have hlive := List.mem_map_of_mem (f := Prod.fst) hturns.mem_added
      exact List.forall_mem_cons.2 ⟨hsound.tree.pos_used hwidth hone hword (.inl hlive), hrest⟩

/-- After any calls, with handles of any width but the full machine word: an insertion of a key that is
not there is refused just when there is an entry for every position between the nil slot's and the maximum. -/
theorem capacity_exact (order : KeyOrder K) [Std.TransCmp order.compare] (w : Width)
    (hone : 1 ≤ w.max) (hword : w.max < Width.word.max) (calls : List (Call K V)) :
    ((fresh order w).run calls).tree.ExactCapacity w ∧
      (∀ h ∈ ((fresh order w).effects calls).filterMap Effect.handle?,
        1 ≤ h.pos ∧ h.pos ≤ w.max - 1) ∧
      Failure.arenaFull.message? = some "Reached maximum number of nodes" := by
  have hfresh := sound_fresh (V := V) order w
  have hw : ((fresh order w).run calls).tree.width = w := hfresh.width_run calls
  exact ⟨(hfresh.run calls).tree.exactCapacity hw hone hword, hfresh.pos_handed rfl hone hword calls, rfl⟩

theorem capacity_exact_small :
    let none : Client Nat String := fresh .natural (.upTo 1)
    let two : Client Nat String := fresh .natural (.upTo 3)
    let t := (two.run [.insert 1 "a", .insert 2 "b", .delete ⟨1⟩]).tree
    let u := (two.run [.insert 1 "a", .insert 2 "b", .delete ⟨1⟩, .insert 3 "c"]).tree
    (Edit.insert 1 "a").run none.tree = .error .arenaFull none.tree ∧
      (∃ h t', (Edit.insert 3 "c").run t = .ok h t') ∧
      (Edit.insert 4 "d").run u = .error .arenaFull u ∧ u.arena.slots.size ≤ 3 := by
  have hnot {t : Tree Nat String} {k : Nat} (h : t.inorder.any (t.order.agrees k) = false) : ¬ t.Has k :=
    fun hhas => Bool.eq_false_iff.1 h (Tree.any_agrees_iff.2 hhas)
  obtain ⟨hnone, -⟩ := capacity_exact (V := String) (.natural : KeyOrder Nat) (.upTo 1)
    (by decide) (by decide) []
  obtain ⟨ht, -⟩ := capacity_exact (.natural : KeyOrder Nat) (.upTo 3) (by decide) (by decide)
    [.insert 1 "a", .insert 2 "b", .delete ⟨1⟩]
  obtain ⟨hu, -⟩ := capacity_exact (.natural : KeyOrder Nat) (.upTo 3) (by decide) (by decide)
    [.insert 1 "a", .insert 2 "b", .delete ⟨1⟩, .insert 3 "c"]
  exact ⟨(hnone.full 1 "a" (hnot (by decide +kernel))).2 (by decide +kernel),
    ht.room 3 "c" (hnot (by decide +kernel)) (by decide +kernel),
    (hu.full 4 "d" (hnot (by decide +kernel))).2 (by decide +kernel), hu.slots⟩

end Client
end RedBlack
