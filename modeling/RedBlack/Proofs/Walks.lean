import RedBlack.Proofs.Focus
import RedBlack.Tree.Navigation

/-! The ends of a shape and the walks down to them, and the walk from one entry to the next. -/
namespace RedBlack
variable {K V : Type}

namespace Shape

theorem join_induction (a : Side) {motive : Shape K V → Prop} (nil : motive nil)
    (join : ∀ near c far, motive near → motive far → motive (join a near c far)) (sh : Shape K V) :
    motive sh := by
  induction sh with
  | nil => exact nil
  | node l c r ihl ihr =>
    cases a with
    | left => exact join l c r ihl ihr
    | right => exact join r c l ihr ihl

theorem items_within_left {sh : Shape K V} {ρ : Path K V} (h : ∀ s ∈ ρ, s.side = .left) :
    (sh.within ρ).items = sh.items ++ ρ.after.map Cell.item := by
  have hb : ρ.before = [] := by
    induction ρ with
    | nil => rfl
    | cons s ρ ih =>
      obtain ⟨side, c, sib⟩ := s
      obtain rfl : side = .left := h _ List.mem_cons_self
      exact ih fun r hr => h r (List.mem_cons_of_mem _ hr)
  rw [items_within, hb, List.map_nil, List.nil_append]

theorem items_within_right {sh : Shape K V} {ρ : Path K V} (h : ∀ s ∈ ρ, s.side = .right) :
    (sh.within ρ).items = ρ.before.map Cell.item ++ sh.items := by
  have ha : ρ.after = [] := by
    induction ρ with
    | nil => rfl
    | cons s ρ ih =>
      obtain ⟨side, c, sib⟩ := s
      obtain rfl : side = .right := h _ List.mem_cons_self
      exact ih fun r hr => h r (List.mem_cons_of_mem _ hr)
  rw [items_within, ha, List.map_nil, List.append_nil]

end Shape

namespace Tree
variable {t : Tree K V} {ns : Slot K V} {π : Path K V}

theorem outermost_round {a : Side} {near far : Shape K V} {c : Cell K V}
    (h : t.Shows ns ((Shape.join a near c far).within π)) :
    (do let d ← t.child a c.handle
        if ← t.isNil d then return Round.done c.handle else return Round.again d :
      Except Failure (Round Handle Handle)) =
      .ok (if near.isNil then .done c.handle else .again near.root) := by
  have hnil := Shows.isNil_root (π := ⟨a, c, far⟩ :: π) h
  rw [h.child_near]
  simp only [bind, Except.bind, hnil]
  split <;> rfl

theorem exists_outermost (a : Side) {sh : Shape K V} (hne : sh ≠ .nil) :
    ∃ y Y ρ, sh = (Shape.join a .nil y Y).within ρ ∧ (∀ s ∈ ρ, s.side = a) ∧
      ∀ {t : Tree K V} {ns : Slot K V} {π : Path K V}, t.Shows ns (sh.within π) →
        t.outermost a sh.root = .ok y.handle := by
  -- The bound on the rounds comes from the whole tree, and each step of the induction leaves one less.
  suffices hsuf : ∃ y Y ρ, sh = (Shape.join a .nil y Y).within ρ ∧ (∀ s ∈ ρ, s.side = a) ∧
      ∀ {t : Tree K V} {ns : Slot K V} {π : Path K V}, t.Shows ns (sh.within π) →
        ∀ k, ρ.length ≤ k → rounds (fun x => do
          let c ← t.child a x
          if ← t.isNil c then return .done x else return .again c) k sh.root = .ok y.handle by
    obtain ⟨y, Y, ρ, hsh, hρ, hrun⟩ := hsuf
    refine ⟨y, Y, ρ, hsh, hρ, fun {t ns π} h => hrun h _ ?_⟩
    rw [hsh, ← Shape.within_append] at h
    have hlen := h.fits.path_lt_reach
    rw [List.length_append] at hlen
    omega
  induction sh using Shape.join_induction a with
  | nil => exact absurd rfl hne
  | join near c far ih _ =>
    by_cases hnear : near = .nil
    · subst hnear
      refine ⟨c, far, [], rfl, (fun s hs => nomatch hs), fun h k _ => ?_⟩
      rw [Shape.root_join]
      exact Rounds.done (outermost_round h) k
    · obtain ⟨y, Y, ρ, hsh, hρ, hrun⟩ := ih hnear
      refine ⟨y, Y, ρ ++ [⟨a, c, far⟩], ?_, ?_, ?_⟩
      · rw [Shape.within_concat, ← hsh]
      · intro s hs
        rcases List.mem_append.1 hs with hs | hs
        · exact hρ s hs
        · rw [List.mem_singleton.1 hs]
      · intro t ns π h k hk
        rw [List.length_append, List.length_singleton] at hk
        obtain ⟨k, rfl⟩ := Nat.exists_eq_add_one_of_ne_zero (Nat.ne_zero_of_lt hk)
        have hround := outermost_round h
        rw [Shape.isNil_eq_false hnear] at hround
        rw [Shape.root_join, Rounds.again hround]
        exact hrun (π := ⟨a, c, far⟩ :: π) h k (Nat.le_of_succ_le_succ hk)

theorem Shows.extreme {sh : Shape K V} (h : t.Shows ns sh) (a : Side) :
    t.extreme a = .ok ((match a with
      | .left => sh.items.head?
      | .right => sh.items.getLast?).map Prod.fst) := by
  have hnil := Shows.isNil_root (π := []) h
  rw [← h.root] at hnil
  unfold Tree.extreme
  rw [hnil]
  by_cases hne : sh = .nil
  · subst hne
    cases a <;> rfl
  · obtain ⟨y, Y, ρ, hsh, hρ, hrun⟩ := exists_outermost a hne
    have hout := hrun (π := []) h
    rw [← h.root] at hout
    simp only [bind, Except.bind, Shape.isNil_eq_false hne, Bool.false_eq_true, if_false, hout]
    cases a with
    | left =>
      rw [hsh, Shape.items_within_left hρ]
      rfl
    | right =>
      rw [hsh, Shape.items_within_right hρ]
      simp [Shape.join, Shape.items_node, Cell.item, pure, Except.pure]

/-! ### The entry next to a place -/

end Tree

def Side.along {α : Type} : Side → List α → List α
  | .left, l => l.reverse
  | .right, l => l

namespace Path

def beyond (a : Side) (π : Path K V) : List (Cell K V) :=
  match a with
  | .left => (before π).reverse
  | .right => after π

theorem beyond_cons_same (a : Side) (c : Cell K V) (sib : Shape K V) (π : Path K V) :
    beyond a (⟨a, c, sib⟩ :: π) = beyond a π := by cases a <;> rfl

theorem head?_beyond_cons_other (a : Side) (c : Cell K V) (sib : Shape K V) (π : Path K V) :
    (beyond a (⟨a.other, c, sib⟩ :: π)).head? = some c := by
  cases a with
  | left => simp only [beyond, before, Side.other, List.reverse_append, List.reverse_singleton,
      List.singleton_append, List.head?_cons]
  | right => rfl

def turning (a : Side) (π : Path K V) : Handle := ((beyond a π).head?.map Cell.handle).getD .nil

end Path

namespace Tree
variable {t : Tree K V} {ns : Slot K V} {sh : Shape K V} {π : Path K V}

def climbRound (t : Tree K V) (a : Side) (x : Handle) : Except Failure (Round Handle Handle) := do
  let y ← t.parent x
  if ← t.isNil y then return .done y
  else if (← t.child a y) == x then return .again y
  else return .done y

theorem Shows.climbRound_nil (h : t.Shows ns sh) (hne : sh ≠ .nil) (a : Side) :
    t.climbRound a sh.root = .ok (.done .nil) :=
  Act.ok_then (Shows.parent_root (π := []) h hne) (Act.ok_then h.isNil_nil rfl)

theorem Shows.climbRound_same {a : Side} {c : Cell K V} {sib : Shape K V}
    (h : t.Shows ns (sh.within (⟨a, c, sib⟩ :: π))) (hne : sh ≠ .nil) :
    t.climbRound a sh.root = .ok (.again c.handle) := by
  apply Act.ok_then (h.parent_root hne)
  apply Act.ok_then h.isNil_above
  apply Act.ok_then (Shows.child_near (π := π) h)
  rw [if_pos (beq_self_eq_true _)]
  rfl

theorem Shows.climbRound_other {a : Side} {c : Cell K V} {sib : Shape K V}
    (h : t.Shows ns (sh.within (⟨a.other, c, sib⟩ :: π))) (hne : sh ≠ .nil) :
    t.climbRound a sh.root = .ok (.done c.handle) := by
  have hchild := Shows.child_far (π := π) h
  rw [Side.other_other] at hchild
  apply Act.ok_then (h.parent_root hne)
  apply Act.ok_then h.isNil_above
  apply Act.ok_then hchild
  rw [beq_eq_false_iff_ne.2 (h.root_ne_sibling (.inl hne))]
  rfl

theorem Shows.rounds_climb (h : t.Shows ns (sh.within π)) (hne : sh ≠ .nil) (a : Side) {k : Nat}
    (hk : π.length ≤ k) : rounds (t.climbRound a) k sh.root = .ok (π.turning a) := by
  -- The climb goes up the path, and what was below becomes part of the shape.
  induction π generalizing sh k with
  | nil =>
    apply (Rounds.done (h.climbRound_nil hne a) k).trans
    cases a <;> rfl
  | cons s π ih =>
    obtain ⟨side, c, sib⟩ := s
    obtain ⟨k, rfl⟩ := Nat.exists_eq_add_one_of_ne_zero (Nat.ne_zero_of_lt hk)
    by_cases hside : side = a
    · subst hside
      have hjoin : t.Shows ns ((Shape.join side sh c sib).within π) := h
      have hrest := ih hjoin (Shape.join_ne_nil side sh c sib) (Nat.le_of_succ_le_succ hk)
      rw [Shape.root_join] at hrest
      rw [Rounds.again (h.climbRound_same hne), hrest, Path.turning, Path.turning,
        Path.beyond_cons_same]
    · obtain rfl := Side.eq_other hside
      rw [Rounds.done (h.climbRound_other hne), Path.turning, Path.head?_beyond_cons_other]
      rfl

theorem Shows.isNil_turning (h : t.Shows ns (sh.within π)) (a : Side) :
    t.isNil (π.turning a) = .ok (π.beyond a).isEmpty := by
  induction π generalizing sh with
  | nil =>
    cases a <;> exact h.isNil_nil
  | cons s π ih =>
    obtain ⟨side, c, sib⟩ := s
    by_cases hside : side = a
    · subst hside
      rw [Path.turning, Path.beyond_cons_same]
      have hjoin : t.Shows ns ((Shape.join side sh c sib).within π) := h
      exact ih hjoin
    · obtain rfl := Side.eq_other hside
      have hhead := Path.head?_beyond_cons_other a c sib π
      have hjoin : t.Shows ns ((Shape.join a.other sh c sib).within π) := h
      have hnil := hjoin.isNil_root
      rw [Shape.root_join, Shape.isNil_join] at hnil
      rw [Path.turning, hhead]
      refine Eq.trans hnil (congrArg Except.ok ?_)
      cases hb : Path.beyond a (⟨a.other, c, sib⟩ :: π) with
      | nil =>
        rw [hb] at hhead
        cases hhead
      | cons d l => rfl

theorem Shows.neighbor {a : Side} {near far : Shape K V} {c : Cell K V}
    (h : t.Shows ns ((Shape.join a near c far).within π)) :
    t.neighbor a c.handle =
      .ok ((a.along near.items ++ (π.beyond a).map Cell.item).head?.map Prod.fst) := by
  have hentry := entryAt?_eq_some.2 h.entryOf_join
  have hnil := Shows.isNil_root (π := ⟨a, c, far⟩ :: π) h
  unfold Tree.neighbor
  rw [hentry]
  apply Act.ok_then h.child_near
  apply Act.ok_then hnil
  by_cases hne : near = .nil
  · subst hne
    have hclimb := h.rounds_climb (Shape.join_ne_nil a .nil c far) a (Nat.le_of_lt h.fits.path_lt_reach)
    rw [Shape.root_join] at hclimb
    apply Act.ok_then hclimb
    apply Act.ok_then (h.isNil_turning a)
    have halong : a.along (Shape.nil : Shape K V).items = [] := by cases a <;> rfl
    rw [halong, List.nil_append, Path.turning]
    cases Path.beyond a π <;> rfl
  · rw [Shape.isNil_eq_false hne]
    obtain ⟨y, Y, ρ, hnear, hρ, hrun⟩ := exists_outermost a.other hne
    apply Act.ok_then (hrun (π := ⟨a, c, far⟩ :: π) h)
    rw [hnear]
    cases a with
    | left =>
      rw [Side.along, Shape.items_within_right hρ]
      simp [Side.other, Shape.join, Shape.items_node, Cell.item]
      rfl
    | right =>
      rw [Side.along, Shape.items_within_left hρ]
      rfl

end Tree
end RedBlack
