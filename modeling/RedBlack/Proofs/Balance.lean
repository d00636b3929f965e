import RedBlack.Proofs.Focus

/-! Colors of shapes: as many black entries on every way down, and no red entry below a red one. -/
namespace RedBlack
variable {K V : Type}

def Color.weight : Color → Nat
  | .red => 0
  | .black => 1

theorem Color.ne_red {c : Color} : c ≠ .red ↔ c = .black := by cases c <;> decide

theorem Color.ne_black {c : Color} : c ≠ .black ↔ c = .red := by cases c <;> decide

namespace Shape

def Balanced (n : Nat) : Shape K V → Prop
  | nil => n = 0
  | node l c r => ∃ m, n = m + c.color.weight ∧ l.Balanced m ∧ r.Balanced m

def NoRedRed : Shape K V → Prop
  | nil => True
  | node l c r => (c.color = .red → l.color = .black ∧ r.color = .black) ∧ l.NoRedRed ∧ r.NoRedRed

variable {n : Nat}

@[simp] theorem balanced_nil : (nil : Shape K V).Balanced n ↔ n = 0 := Iff.rfl

theorem balanced_join (a : Side) (l : Shape K V) (c : Cell K V) (r : Shape K V) :
    (join a l c r).Balanced n ↔ ∃ m, n = m + c.color.weight ∧ l.Balanced m ∧ r.Balanced m := by
  cases a with
  | left => exact Iff.rfl
  | right => exact exists_congr fun m => and_congr Iff.rfl And.comm

theorem balanced_join_red (a : Side) {l : Shape K V} {c : Cell K V} {r : Shape K V}
    (hc : c.color = .red) : (join a l c r).Balanced n ↔ l.Balanced n ∧ r.Balanced n := by
  simp only [balanced_join, hc, Color.weight, Nat.add_zero, exists_eq_left']

theorem balanced_join_black (a : Side) {l : Shape K V} {c : Cell K V} {r : Shape K V}
    (hc : c.color = .black) :
    (join a l c r).Balanced n ↔ ∃ m, n = m + 1 ∧ l.Balanced m ∧ r.Balanced m := by
  simp only [balanced_join, hc, Color.weight]

theorem noRedRed_join (a : Side) (l : Shape K V) (c : Cell K V) (r : Shape K V) :
    (join a l c r).NoRedRed ↔
      (c.color = .red → l.color = .black ∧ r.color = .black) ∧ l.NoRedRed ∧ r.NoRedRed := by
  cases a with
  | left => exact Iff.rfl
  | right => exact and_congr (imp_congr_right fun _ => And.comm) And.comm

theorem noRedRed_join_black (a : Side) {l : Shape K V} {c : Cell K V} {r : Shape K V}
    (hc : c.color = .black) : (join a l c r).NoRedRed ↔ l.NoRedRed ∧ r.NoRedRed := by
  rw [noRedRed_join, hc]
  simp

theorem noRedRed_join_red (a : Side) {l : Shape K V} {c : Cell K V} {r : Shape K V}
    (hc : c.color = .red) :
    (join a l c r).NoRedRed ↔ l.color = .black ∧ r.color = .black ∧ l.NoRedRed ∧ r.NoRedRed := by
  rw [noRedRed_join, hc]
  simp [and_assoc]

theorem color_painted_black (sh : Shape K V) : (sh.painted .black).color = .black := by
  cases sh <;> rfl

theorem noRedRed_painted_black {sh : Shape K V} (h : sh.NoRedRed) : (sh.painted .black).NoRedRed := by
  cases sh with
  | nil => exact trivial
  | node l c r => exact ⟨(fun h => nomatch h), h.2⟩

theorem balanced_painted_black {sh : Shape K V} (h : sh.Balanced n) (hc : sh.color = .red) :
    (sh.painted .black).Balanced (n + 1) := by
  cases sh with
  | nil => cases hc
  | node l c r =>
    obtain ⟨m, hm, hl, hr⟩ := h
    rw [color_node] at hc
    rw [hc] at hm
    exact ⟨m, congrArg (· + 1) hm, hl, hr⟩

theorem painted_self {color : Color} {sh : Shape K V} (h : sh.color = color) :
    sh.painted color = sh := by
  cases sh with
  | nil => rfl
  | node l c r => rw [painted, Cell.painted_self h]

end Shape

namespace Path

/-- With every way down from the place passing `n` black entries, all ways down from the root pass
equally many. -/
def Balanced (n : Nat) : Path K V → Prop
  | [] => True
  | s :: π => s.sibling.Balanced n ∧ Balanced (n + s.cell.color.weight) π

/-- No red entry on the path or beside it is the child of a red entry, nor is the place, if it has
color `c`. -/
def NoRedRed (c : Color) : Path K V → Prop
  | [] => True
  | s :: π =>
    (s.cell.color = .red → c = .black ∧ s.sibling.color = .black) ∧ s.sibling.NoRedRed ∧
      NoRedRed s.cell.color π

theorem NoRedRed.black {c : Color} {π : Path K V} (h : π.NoRedRed c) : π.NoRedRed .black := by
  cases π with
  | nil => exact trivial
  | cons s π => exact ⟨fun hs => ⟨rfl, (h.1 hs).2⟩, h.2⟩

theorem noRedRed_cons_black {c : Color} {s : Step K V} {π : Path K V} (hs : s.cell.color = .black) :
    Path.NoRedRed c (s :: π) ↔ s.sibling.NoRedRed ∧ Path.NoRedRed .black π := by
  simp only [NoRedRed, hs]
  simp

theorem rootColor_black {c : Color} {π : Path K V} (h : π.rootColor c = .black) :
    π.rootColor .black = .black := by
  cases π with
  | nil => rfl
  | cons s π => exact h

theorem color_congr (a : Side) (sib : Shape K V) {x y : Cell K V} (h : y.color = x.color)
    (ρ π : Path K V) (c : Color) (n : Nat) :
    (Path.NoRedRed c (ρ ++ ⟨a, y, sib⟩ :: π) ↔ Path.NoRedRed c (ρ ++ ⟨a, x, sib⟩ :: π)) ∧
      (Path.Balanced n (ρ ++ ⟨a, y, sib⟩ :: π) ↔ Path.Balanced n (ρ ++ ⟨a, x, sib⟩ :: π)) ∧
      Path.rootColor c (ρ ++ ⟨a, y, sib⟩ :: π) = Path.rootColor c (ρ ++ ⟨a, x, sib⟩ :: π) := by
  induction ρ generalizing c n with
  | nil => simp only [List.nil_append, NoRedRed, Balanced, rootColor, h, and_self]
  | cons s ρ ih =>
    obtain ⟨hc, hn, hr⟩ := ih s.cell.color (n + s.cell.color.weight)
    simp only [List.cons_append, NoRedRed, Balanced, rootColor, hc, hn, hr, and_self]

end Path

namespace Shape

theorem balanced_within {sh : Shape K V} {π : Path K V} :
    (∃ n, (sh.within π).Balanced n) ↔ ∃ n, sh.Balanced n ∧ π.Balanced n := by
  induction π generalizing sh with
  | nil => simp only [within_nil, Path.Balanced, and_true]
  | cons s π ih =>
    rw [within_cons, ih]
    simp only [balanced_join, Path.Balanced]
    constructor
    · rintro ⟨n, ⟨m, rfl, hsh, hsib⟩, hπ⟩
      exact ⟨m, hsh, hsib, hπ⟩
    · rintro ⟨m, hsh, hsib, hπ⟩
      exact ⟨_, ⟨m, rfl, hsh, hsib⟩, hπ⟩

theorem noRedRed_within {sh : Shape K V} {π : Path K V} :
    (sh.within π).NoRedRed ↔ sh.NoRedRed ∧ π.NoRedRed sh.color := by
  induction π generalizing sh with
  | nil => simp only [within_nil, Path.NoRedRed, and_true]
  | cons s π ih =>
    rw [within_cons, ih, noRedRed_join, color_join]
    simp only [Path.NoRedRed]
    constructor
    · rintro ⟨⟨hc, hsh, hsib⟩, hπ⟩
      exact ⟨hsh, hc, hsib, hπ⟩
    · rintro ⟨hsh, hc, hsib, hπ⟩
      exact ⟨⟨hc, hsh, hsib⟩, hπ⟩

structure WellColored (sh : Shape K V) : Prop where
  root : sh.color = .black
  noRedRed : sh.NoRedRed
  balanced : ∃ n, sh.Balanced n

theorem wellColored_within {sh : Shape K V} {π : Path K V} {c : Color} (hc : sh.color = c)
    (hroot : π.rootColor c = .black) (hsh : sh.NoRedRed) (hπ : π.NoRedRed c) {n : Nat} (hn : sh.Balanced n)
    (hm : π.Balanced n) : (sh.within π).WellColored := by
  subst hc
  exact ⟨(color_within sh π).trans hroot, noRedRed_within.2 ⟨hsh, hπ⟩, balanced_within.2 ⟨n, hn, hm⟩⟩

theorem WellColored.focus {sh : Shape K V} {π : Path K V} (h : (sh.within π).WellColored) :
    π.rootColor sh.color = .black ∧ sh.NoRedRed ∧ π.NoRedRed sh.color ∧
      ∃ n, sh.Balanced n ∧ π.Balanced n := by
  obtain ⟨hsh, hπ⟩ := noRedRed_within.1 h.noRedRed
  exact ⟨(color_within sh π).symm.trans h.root, hsh, hπ, balanced_within.1 h.balanced⟩

theorem wellColored_join_within {a : Side} {l r : Shape K V} {c : Cell K V} {π : Path K V} {n : Nat}
    (hc : c.color = .black) (hl : l.NoRedRed) (hr : r.NoRedRed) (hln : l.Balanced n) (hrn : r.Balanced n)
    (hroot : π.rootColor .black = .black) (hπ : π.NoRedRed .black) (hn : π.Balanced (n + 1)) :
    ((join a l c r).within π).WellColored :=
  wellColored_within ((color_join a l c r).trans hc) hroot ((noRedRed_join_black a hc).2 ⟨hl, hr⟩) hπ
    ((balanced_join_black a hc).2 ⟨n, rfl, hln, hrn⟩) hn

end Shape
end RedBlack
