import RedBlack.Proofs.Soundness

/-! The handles that are given out. An arena gives them out as a stock does which knows of the tree only
what it gave out and what it got back. -/
namespace RedBlack
variable {K V : Type}

structure Stock where
  free : List Handle
  /-- The first position that was never given out since the stock was fresh. -/
  next : Nat
  live : Nat

namespace Stock

def fresh : Stock := ⟨[], 1, 0⟩

def pick (s : Stock) : Handle := s.free.headD ⟨s.next⟩

def take (s : Stock) : Stock :=
  match s.free with
  | [] => ⟨[], s.next + 1, s.live + 1⟩
  | _ :: free => ⟨free, s.next, s.live + 1⟩

/-- The stock after a handle has been given back. With the last one it is fresh again. -/
def give (s : Stock) (h : Handle) : Stock :=
  if s.live = 1 then fresh else ⟨h :: s.free, s.next, s.live - 1⟩

inductive Move where
  | take
  | give (h : Handle)
  | reset

def moved (s : Stock) : Move → Stock
  | .take => s.take
  | .give h => s.give h
  | .reset => fresh

def run : List Move → Stock → Stock
  | [], s => s
  | m :: ms, s => run ms (s.moved m)

def handed : List Move → Stock → List Handle
  | [], _ => []
  | .take :: ms, s => s.pick :: handed ms s.take
  | .give h :: ms, s => handed ms (s.give h)
  | .reset :: ms, _ => handed ms fresh

def Exhausted (s : Stock) (w : Width) : Prop := s.free = [] ∧ w.limited = true ∧ w.max ≤ s.next

instance (s : Stock) (w : Width) : Decidable (s.Exhausted w) :=
  inferInstanceAs (Decidable (_ ∧ _ ∧ _))

end Stock

namespace Arena

def reuse (a : Arena K V) (h : Handle) (free : List Handle) (s : Slot K V) : Arena K V :=
  { a.modify h (fun _ => s) with free := free }

def extend (a : Arena K V) (s : Slot K V) : Arena K V := { a with slots := a.slots.push s }

theorem allocate_reuse {a : Arena K V} {w : Width} {h : Handle} {free : List Handle} (s : Slot K V)
    (hf : a.free = h :: free) (hpos : h.pos < a.slots.size) :
    a.allocate w s = .ok (h, a.reuse h free s) := by
  rw [allocate, hf]
  simp only [if_pos hpos]
  rfl

theorem allocate_extend {a : Arena K V} {w : Width} (s : Slot K V) (hf : a.free = [])
    (hroom : w.limited = true → a.slots.size < w.max) :
    a.allocate w s = .ok (⟨a.slots.size⟩, a.extend s) := by
  have hhandle : w.handle a.slots.size = ⟨a.slots.size⟩ := by
    cases hw : w.limited with
    | true => exact Width.handle_of_le (Nat.le_of_lt (hroom hw))
    | false => exact Width.handle_of_not_limited hw _
  have hnot : ¬ (w.limited && a.slots.size == w.max) = true := by
    intro hfull
    rw [Bool.and_eq_true, beq_iff_eq] at hfull
    exact Nat.ne_of_lt (hroom hfull.1) hfull.2
  rw [allocate, hf, extend, hf]
  simp only [hhandle, if_neg hnot]

theorem size_extend (a : Arena K V) (s : Slot K V) :
    (a.extend s).slots.size = a.slots.size + 1 := Array.size_push ..

theorem slot?_extend_self (a : Arena K V) (s : Slot K V) :
    (a.extend s).slot? ⟨a.slots.size⟩ = some s := Array.getElem?_push_size

theorem slot?_extend_of_ne (a : Arena K V) (s : Slot K V) {i : Handle} (hi : i ≠ ⟨a.slots.size⟩) :
    (a.extend s).slot? i = a.slot? i := by
  have hne : i.pos ≠ a.slots.size := fun hpos => hi (congrArg Handle.mk hpos)
  rw [slot?, slot?, extend, Array.getElem?_push, if_neg hne]

theorem positions_extend {a : Arena K V} (s : Slot K V) (hpos : 0 < a.slots.size) :
    (a.extend s).positions = a.positions ++ [⟨a.slots.size⟩] := by
  obtain ⟨n, hn⟩ := Nat.exists_eq_add_one_of_ne_zero (Nat.ne_of_gt hpos)
  rw [positions, positions, size_extend, Nat.add_sub_cancel, hn, Nat.add_sub_cancel,
    List.range'_1_concat, List.map_append, Nat.add_comm 1 n]
  rfl

end Arena

namespace Tree

def withArena (t : Tree K V) (a : Arena K V) : Tree K V := { t with arena := a }

def stock (t : Tree K V) : Stock := ⟨t.arena.free, t.arena.slots.size, t.size⟩

structure Supplies (t : Tree K V) (sh : Shape K V) (s : Slot K V) (a : Arena K V) : Prop where
  unused : t.stock.pick ∉ Handle.nil :: sh.handles
  slot : a.slot? t.stock.pick = some s
  other : ∀ i, i ≠ t.stock.pick → a.slot? i = t.arena.slot? i
  stock : (⟨a.free, a.slots.size, t.size + 1⟩ : Stock) = t.stock.take
  handles : (t.stock.pick :: sh.handles ++ a.free).Perm a.positions
  vacant : ∀ h ∈ a.free, h ∈ t.arena.free ∧ h ≠ t.stock.pick
  width : t.width.limited = true → a.slots.size ≤ max 1 t.width.max

variable {t : Tree K V} {ns : Slot K V} {sh : Shape K V}

theorem Holds.nonempty (h : t.Holds ns sh) : 0 < t.arena.slots.size :=
  (Arena.slot?_isSome_iff _ .nil).1 (h.shows.nil ▸ rfl)

theorem Holds.unused_of_free (h : t.Holds ns sh) {i : Handle} (hi : i ∈ t.arena.free) :
    i ∉ Handle.nil :: sh.handles := by
  intro hmem
  rcases List.mem_cons.1 hmem with rfl | hlive
  · have hpos := Arena.mem_positions.1 (h.handles.mem_iff.1 (List.mem_append_right _ hi))
    exact Nat.lt_irrefl 0 hpos.1
  · exact (List.nodup_append.1 h.nodup).2.2 i hlive i hi rfl

theorem Holds.run_allocate_again (h : t.Holds ns sh) (s : Slot K V) {i : Handle} {free : List Handle}
    (hf : t.arena.free = i :: free) :
    ∃ a, (Edit.allocate s).run t = .ok t.stock.pick (t.withArena a) ∧ t.Supplies sh s a := by
  have hi : i ∈ t.arena.free := hf ▸ List.mem_cons_self
  have hpick : t.stock.pick = i := by
    rw [Stock.pick, Tree.stock, hf]
    rfl
  have hpos := (Arena.mem_positions.1 (h.handles.mem_iff.1 (List.mem_append_right _ hi))).2
  have hsome : (t.arena.slot? i).isSome := (Arena.slot?_isSome_iff _ _).2 hpos
  have hd := (List.nodup_append.1 h.nodup).2.1
  rw [hf] at hd
  refine ⟨t.arena.reuse i free s, ?_, ?_⟩
  · rw [hpick, EStateM.run, Edit.allocate, Arena.allocate_reuse s hf hpos]
    rfl
  · have hsize : (t.arena.reuse i free s).slots.size = t.arena.slots.size := Arena.size_modify ..
    refine ⟨?_, ?_, ?_, ?_, ?_, fun j hj => ⟨hf ▸ List.mem_cons_of_mem _ hj, ?_⟩, ?_⟩
    · rw [hpick]
      exact h.unused_of_free hi
    · obtain ⟨s', hs'⟩ := Option.isSome_iff_exists.1 hsome
      rw [hpick]
      exact (Arena.slot?_modify_self ..).trans (by rw [hs', Option.map_some])
    · intro j hj
      rw [hpick] at hj
      exact Arena.slot?_modify_of_ne _ _ (Ne.symm hj)
    · rw [hsize, Stock.take, Tree.stock, hf]
      rfl
    · have hperm := h.handles
      rw [hf] at hperm
      rw [hpick, Arena.positions_congr hsize]
      exact List.perm_middle.symm.trans hperm
    · rw [hpick]
      rintro rfl
      exact (List.nodup_cons.1 hd).1 hj
    · intro hw
      rw [hsize]
      exact h.width hw

theorem Holds.run_allocate_next (h : t.Holds ns sh) (s : Slot K V) (hf : t.arena.free = [])
    (hroom : ¬ t.stock.Exhausted t.width) :
    ∃ a, (Edit.allocate s).run t = .ok t.stock.pick (t.withArena a) ∧ t.Supplies sh s a := by
  have hpick : t.stock.pick = ⟨t.arena.slots.size⟩ := by
    rw [Stock.pick, Tree.stock, hf]
    rfl
  have hlt (hw : t.width.limited = true) : t.arena.slots.size < t.width.max :=
    Nat.lt_of_not_le fun hle => hroom ⟨hf, hw, hle⟩
  have hnew : t.arena.slot? ⟨t.arena.slots.size⟩ = none := by
    apply Option.not_isSome_iff_eq_none.1
    intro hsome
    exact Nat.lt_irrefl _ ((Arena.slot?_isSome_iff _ _).1 hsome)
  have hunused : (⟨t.arena.slots.size⟩ : Handle) ∉ Handle.nil :: sh.handles := fun hmem => by
    have hsome := h.shows.slot_of_mem hmem
    rw [hnew] at hsome
    cases hsome
  refine ⟨t.arena.extend s, ?_, ?_⟩
  · rw [hpick, EStateM.run, Edit.allocate, Arena.allocate_extend s hf hlt]
    rfl
  · have hfree : (t.arena.extend s).free = [] := hf
    refine ⟨hpick ▸ hunused, ?_, ?_, ?_, ?_, ?_, ?_⟩
    · rw [hpick]
      exact Arena.slot?_extend_self ..
    · intro j hj
      rw [hpick] at hj
      exact Arena.slot?_extend_of_ne _ _ hj
    · rw [Arena.size_extend, hfree, Stock.take, Tree.stock, hf]
    · have hperm := h.handles
      rw [hf, List.append_nil] at hperm
      rw [hpick, hfree, List.append_nil, Arena.positions_extend s h.nonempty]
      exact (List.perm_append_singleton _ _).symm.trans (hperm.append_right _)
    · intro j hj
      rw [hfree] at hj
      cases hj
    · intro hw
      rw [Arena.size_extend]
      exact Nat.le_trans (hlt hw) (Nat.le_max_right ..)

theorem Holds.run_allocate (h : t.Holds ns sh) (s : Slot K V)
    (hroom : ¬ t.stock.Exhausted t.width) :
    ∃ a, (Edit.allocate s).run t = .ok t.stock.pick (t.withArena a) ∧ t.Supplies sh s a := by
  cases hf : t.arena.free with
  | nil => exact h.run_allocate_next s hf hroom
  | cons i free => exact h.run_allocate_again s hf

theorem Holds.pick_unused (h : t.Holds ns sh) (hroom : ¬ t.stock.Exhausted t.width) :
    t.stock.pick ∉ Handle.nil :: sh.handles := by
  obtain ⟨a, -, ha⟩ := h.run_allocate .vacant hroom
  exact ha.unused

theorem Holds.run_allocate_exhausted (h : t.Holds ns sh) (s : Slot K V)
    (hfull : t.stock.Exhausted t.width) : (Edit.allocate s).run t = .error .arenaFull t := by
  obtain ⟨hf, hw, hmax⟩ := hfull
  have hpos : (t.width.handle t.arena.slots.size).pos = t.width.max := by
    have hle := h.width hw
    have hmax : t.width.max ≤ t.arena.slots.size := hmax
    have hnonempty := h.nonempty
    rcases Nat.eq_zero_or_pos t.width.max with hzero | hone
    · have hone : t.arena.slots.size = 1 := by omega
      rw [hone, Width.handle_one_of_max hzero, hzero]
      rfl
    · have heq : t.arena.slots.size = t.width.max := by omega
      rw [Width.handle_of_le (Nat.le_of_eq heq), heq]
  have hallocate : t.arena.allocate t.width s = .error .arenaFull := by
    rw [Arena.allocate, show t.arena.free = [] from hf]
    simp only [hw, hpos, beq_self_eq_true, Bool.and_self, if_true]
  rw [EStateM.run, Edit.allocate, hallocate]

end Tree
end RedBlack
