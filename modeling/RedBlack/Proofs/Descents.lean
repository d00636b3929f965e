import Mathlib.Algebra.Group.Nat.Defs
import RedBlack.Proofs.Faultless

/-! Ways down. The height of a red-black tree is bounded by the number of its entries, and a search compares
with the keys on one way down. -/
namespace RedBlack
open Text
variable {K V : Type}

namespace Shape
variable {sh : Shape K V} {n : Nat}

theorem Balanced.two_pow_le (h : sh.Balanced n) : 2 ^ n ≤ sh.cells.length + 1 := by
  induction sh generalizing n with
  | nil => simp [balanced_nil.1 h]
  | node l c r ihl ihr =>
    obtain ⟨m, rfl, hl, hr⟩ := h
    have hweight : m + c.color.weight ≤ m + 1 := by
      cases c.color <;> simp [Color.weight]
    have hpow : 2 ^ (m + c.color.weight) ≤ 2 ^ (m + 1) := Nat.pow_le_pow_right (by decide) hweight
    have hleft := ihl hl
    have hright := ihr hr
    simp only [cells, List.length_append, List.length_cons]
    omega

/-- At most every other entry of a way down is red, and the root counts if it is black. -/
theorem height_add_weight_le (hn : sh.Balanced n) (hc : sh.NoRedRed) :
    sh.height + sh.color.weight ≤ 2 * n + 1 := by
  induction sh generalizing n with
  | nil => simp [height, color, Color.weight]
  | node l c r ihl ihr =>
    obtain ⟨m, rfl, hl, hr⟩ := hn
    obtain ⟨hred, hlc, hrc⟩ := hc
    have hleft := ihl hl hlc
    have hright := ihr hr hrc
    rw [height, color_node]
    cases hcolor : c.color with
    | red =>
      obtain ⟨hlb, hrb⟩ := hred hcolor
      simp only [hlb, hrb, Color.weight] at hleft hright ⊢
      omega
    | black =>
      simp only [Color.weight]
      omega

theorem WellColored.two_pow_height_le (h : sh.WellColored) :
    2 ^ sh.height ≤ (sh.cells.length + 1) ^ 2 := by
  obtain ⟨n, hn⟩ := h.balanced
  have hheight := height_add_weight_le hn h.noRedRed
  rw [h.root, Color.weight] at hheight
  calc 2 ^ sh.height ≤ 2 ^ (n * 2) := Nat.pow_le_pow_right (by decide) (by omega)
    _ = (2 ^ n) ^ 2 := Nat.pow_mul ..
    _ ≤ (sh.cells.length + 1) ^ 2 := Nat.pow_le_pow_left hn.two_pow_le 2

theorem visited_node (order : KeyOrder K) (s : Seek) (k : K) (found : Option Handle) (l : Shape K V)
    (c : Cell K V) (r : Shape K V) :
    ∃ rest, ((node l c r).descend order s k found).visited = (c.handle, c.entry.1) :: rest ∧
      (rest = [] ∨ (∃ f, rest = (l.descend order s k f).visited) ∨
        ∃ f, rest = (r.descend order s k f).visited) := by
  rw [descend]
  cases hturn : s.turn (order.compare (s.arguments k c.entry.1).1 (s.arguments k c.entry.1).2) with
  | stop =>
    simp only [hturn]
    exact ⟨[], rfl, .inl rfl⟩
  | go side keep =>
    simp only [hturn]
    cases side with
    | left => exact ⟨_, rfl, .inr (.inl ⟨_, rfl⟩)⟩
    | right => exact ⟨_, rfl, .inr (.inr ⟨_, rfl⟩)⟩

theorem cell_of_visited {order : KeyOrder K} {s : Seek} {k : K} {found : Option Handle}
    {e : Handle × K} (he : e ∈ (sh.descend order s k found).visited) :
    ∃ c ∈ sh.cells, e = (c.handle, c.entry.1) := by
  induction sh generalizing found with
  | nil => cases he
  | node l c r ihl ihr =>
    obtain ⟨rest, hvisited, hrest⟩ := visited_node order s k found l c r
    rw [hvisited, List.mem_cons] at he
    simp only [cells, List.mem_append, List.mem_cons]
    rcases he with he | he
    · exact ⟨c, .inr (.inl rfl), he⟩
    · rcases hrest with rfl | ⟨f, rfl⟩ | ⟨f, rfl⟩
      · cases he
      · obtain ⟨d, hd, he⟩ := ihl he
        exact ⟨d, .inl hd, he⟩
      · obtain ⟨d, hd, he⟩ := ihr he
        exact ⟨d, .inr (.inr hd), he⟩

end Shape

namespace Tree

/-- A way down: handles of entries, from one on, each of them a child of the one before. It may end at
any of them. -/
inductive Descends (t : Tree K V) : Handle → List Handle → Prop
  | stop (x : Handle) : t.Descends x []
  | step {a : Side} {x y : Handle} {hs : List Handle} (live : (t.entryAt? x).isSome)
      (child : t.child a x = .ok y) (rest : t.Descends y hs) : t.Descends x (x :: hs)

inductive Ancestors (t : Tree K V) : Handle → List Handle → Prop
  | root {x : Handle} (parent : t.parent x = .ok .nil) : t.Ancestors x []
  | step {x p : Handle} {hs : List Handle} (parent : t.parent x = .ok p) (hp : p ≠ .nil)
      (above : t.Ancestors p hs) : t.Ancestors x (p :: hs)

/-- A search compares with the keys on a way down from the root, with each at most once, and what it finds
is settled by these comparisons: any order that gives the same answers to them leads to the same. -/
structure Walks (t : Tree K V) (s : Seek) (k : K) (p : Probe K) : Prop where
  run : t.probe s k = .ok p
  keys : ∀ e ∈ p.visited, t.keyAt? e.1 = some e.2
  down : t.Descends t.root (p.visited.map Prod.fst)
  once : (p.visited.map Prod.fst).Nodup
  few : p.visited.length ≤ t.shape.height
  asked : p.calls t.order s k = p.visited.map fun e =>
    t.order.presented (s.arguments k e.2).1 (s.arguments k e.2).2
  only : ∀ order : KeyOrder K,
    (∀ e ∈ p.visited, order.compare (s.arguments k e.2).1 (s.arguments k e.2).2 =
      t.order.compare (s.arguments k e.2).1 (s.arguments k e.2).2) →
    ({ t with order := order }).probe s k = .ok p

theorem Ancestors.parent {t : Tree K V} {x : Handle} {hs : List Handle} (h : t.Ancestors x hs) :
    t.parent x = .ok (hs.head?.getD .nil) := by
  cases h with
  | root parent => exact parent
  | step parent => exact parent

namespace Shows
variable {t : Tree K V} {ns : Slot K V} {sh : Shape K V} {π : Path K V} {hs : List Handle}

theorem entryAt?_nil (h : t.Shows ns sh) : t.entryAt? .nil = none := by
  rw [entryAt?, Arena.find?, h.nil]
  exact h.keyless

theorem live_root {l r : Shape K V} {c : Cell K V} (h : t.Shows ns ((Shape.node l c r).within π)) :
    (t.entryAt? c.handle).isSome :=
  Option.isSome_iff_exists.2 ⟨_, entryAt?_eq_some.2 (entryOf_join (a := .left) h)⟩

theorem child_root {l r : Shape K V} {c : Cell K V} (h : t.Shows ns ((Shape.node l c r).within π))
    (a : Side) : t.child a c.handle = .ok (match a with | .left => l.root | .right => r.root) := by
  cases a with
  | left => exact child_near (a := .left) h
  | right => exact child_far (a := .left) h

theorem notMem_children {l r : Shape K V} {c : Cell K V}
    (h : t.Shows ns ((Shape.node l c r).within π)) :
    c.handle ∉ l.handles ∧ c.handle ∉ r.handles := by
  have hd := (List.nodup_append.1 (List.nodup_cons.1 h.nodup_focus).2).1
  rw [Shape.handles_node, List.nodup_middle, List.nodup_cons, List.mem_append, not_or] at hd
  exact hd.1

theorem descends_le (h : t.Shows ns (sh.within π)) (hd : t.Descends sh.root hs) :
    (∀ i ∈ hs, i ∈ sh.handles) ∧ hs.Nodup ∧ hs.length ≤ sh.height := by
  induction sh generalizing π hs with
  | nil =>
    cases hd with
    | stop => exact ⟨(fun i hi => nomatch hi), List.nodup_nil, Nat.le_refl 0⟩
    | step live =>
      rw [Shape.root_nil, h.entryAt?_nil] at live
      cases live
  | node l c r ihl ihr =>
    cases hd with
    | stop => exact ⟨(fun i hi => nomatch hi), List.nodup_nil, Nat.zero_le _⟩
    | @step a _ y hs _ child rest =>
      obtain ⟨hcl, hcr⟩ := h.notMem_children
      rw [Shape.root_node, h.child_root a] at child
      obtain rfl := Except.ok.inj child
      simp only [Shape.handles_node, Shape.height, List.mem_cons, List.mem_append, List.nodup_cons,
        List.length_cons, Shape.root_node]
      cases a with
      | left =>
        obtain ⟨hmem, hnodup, hlen⟩ := ihl (π := ⟨.left, c, r⟩ :: π) h rest
        refine ⟨?_, ⟨fun hc => hcl (hmem _ hc), hnodup⟩, by omega⟩
        rintro i (rfl | hi)
        · exact .inr (.inl rfl)
        · exact .inl (hmem i hi)
      | right =>
        obtain ⟨hmem, hnodup, hlen⟩ := ihr (π := ⟨.right, c, l⟩ :: π) h rest
        refine ⟨?_, ⟨fun hc => hcr (hmem _ hc), hnodup⟩, by omega⟩
        rintro i (rfl | hi)
        · exact .inr (.inl rfl)
        · exact .inr (.inr (hmem i hi))

theorem exists_descends (h : t.Shows ns (sh.within π)) :
    ∃ hs, t.Descends sh.root hs ∧ hs.length = sh.height := by
  induction sh generalizing π with
  | nil => exact ⟨[], .stop _, rfl⟩
  | node l c r ihl ihr =>
    rcases Nat.le_total r.height l.height with hle | hle
    · obtain ⟨hs, hway, hlen⟩ := ihl (π := ⟨.left, c, r⟩ :: π) h
      refine ⟨c.handle :: hs, .step h.live_root (h.child_root .left) hway, ?_⟩
      rw [List.length_cons, hlen, Shape.height, Nat.max_eq_left hle]
    · obtain ⟨hs, hway, hlen⟩ := ihr (π := ⟨.right, c, l⟩ :: π) h
      refine ⟨c.handle :: hs, .step h.live_root (h.child_root .right) hway, ?_⟩
      rw [List.length_cons, hlen, Shape.height, Nat.max_eq_right hle]

theorem descends_visited (h : t.Shows ns (sh.within π)) (order : KeyOrder K) (s : Seek) (k : K)
    (found : Option Handle) :
    t.Descends sh.root ((sh.descend order s k found).visited.map Prod.fst) := by
  induction sh generalizing π found with
  | nil => exact .stop _
  | node l c r ihl ihr =>
    obtain ⟨rest, hvisited, hrest⟩ := Shape.visited_node order s k found l c r
    rw [hvisited]
    rcases hrest with rfl | ⟨f, rfl⟩ | ⟨f, rfl⟩
    · exact .step h.live_root (h.child_root .left) (.stop _)
    · exact .step h.live_root (h.child_root .left) (ihl (π := ⟨.left, c, r⟩ :: π) h f)
    · exact .step h.live_root (h.child_root .right) (ihr (π := ⟨.right, c, l⟩ :: π) h f)

theorem ancestors (h : t.Shows ns (sh.within π)) (hne : sh ≠ .nil) :
    t.Ancestors sh.root (π.map fun s => s.cell.handle) := by
  induction π generalizing sh with
  | nil => exact .root (h.parent_root hne)
  | cons s π ih =>
    have hjoin : t.Shows ns ((Shape.join s.side sh s.cell s.sibling).within π) := h
    have hne' := Shape.join_ne_nil s.side sh s.cell s.sibling
    have habove := ih hjoin hne'
    have hnil := hjoin.root_ne_nil hne'
    rw [Shape.root_join] at habove hnil
    exact .step (h.parent_root hne) hnil habove

end Shows
end Tree

namespace Shape
variable {order : KeyOrder K} {sh : Shape K V}

theorem descend_congr {order' : KeyOrder K} {s : Seek} {k : K} {found : Option Handle}
    (h : ∀ e ∈ (sh.descend order s k found).visited,
      order'.compare (s.arguments k e.2).1 (s.arguments k e.2).2 =
        order.compare (s.arguments k e.2).1 (s.arguments k e.2).2) :
    sh.descend order' s k found = sh.descend order s k found := by
  induction sh generalizing found with
  | nil => rfl
  | node l c r ihl ihr =>
    rw [descend] at h
    rw [descend, descend]
    cases hturn : s.turn (order.compare (s.arguments k c.entry.1).1 (s.arguments k c.entry.1).2) with
    | stop =>
      simp only [hturn] at h ⊢
      rw [h (c.handle, c.entry.1) List.mem_cons_self, hturn]
    | go side keep =>
      simp only [hturn] at h ⊢
      rw [h (c.handle, c.entry.1) List.mem_cons_self, hturn]
      cases side with
      | left =>
        dsimp only
        rw [ihl fun e he => h e (List.mem_cons_of_mem _ he)]
      | right =>
        dsimp only
        rw [ihr fun e he => h e (List.mem_cons_of_mem _ he)]

theorem visited_descend_within [Std.TransCmp order.compare] {π : Path K V} {x : Handle × K × V}
    (h : order.Sorted (sh.within π).items) (hx : x ∈ sh.items) (found : Option Handle) :
    ((sh.within π).descend order .exact x.2.1 found).visited.map Prod.fst =
      (π.map fun s => s.cell.handle).reverse ++
        (sh.descend order .exact x.2.1 found).visited.map Prod.fst := by
  -- From below: the key is on the side of its place at the cell right above, which is compared first.
  induction π generalizing sh with
  | nil => rfl
  | cons s π ih =>
    obtain ⟨side, c, sib⟩ := s
    have hitems : order.Sorted (join side sh c sib).items := by
      rw [within_cons, items_within] at h
      exact (List.pairwise_append.1 (List.pairwise_append.1 h).1).2.1
    rw [within_cons, List.map_cons, List.reverse_cons, List.append_assoc, List.singleton_append]
    cases side with
    | left =>
      have hmem : x ∈ (join .left sh c sib).items := by
        rw [join, items_node]
        exact List.mem_append_left _ hx
      rw [join, items_node] at hitems
      have hlt : order.compare x.2.1 c.entry.1 = .lt :=
        (List.pairwise_append.1 hitems).2.2 x hx c.item List.mem_cons_self
      rw [ih h hmem, join, descend]
      simp only [Seek.arguments, hlt, Seek.turn, Bool.false_eq_true, if_false, List.map_cons]
    | right =>
      have hmem : x ∈ (join .right sh c sib).items := by
        rw [join, items_node]
        exact List.mem_append_right _ (List.mem_cons_of_mem _ hx)
      rw [join, items_node] at hitems
      have hgt : order.compare x.2.1 c.entry.1 = .gt := Std.OrientedCmp.gt_iff_lt.2
        ((List.pairwise_cons.1 (List.pairwise_append.1 hitems).2.1).1 x hx)
      rw [ih h hmem, join, descend]
      simp only [Seek.arguments, hgt, Seek.turn, Bool.false_eq_true, if_false, List.map_cons]

end Shape

namespace Tree.Sound
variable {t : Tree K V}

theorem walks (hs : t.Sound) (s : Seek) (k : K) : ∃ p, t.Walks s k p ∧ t.seek s k = .ok p.found := by
  obtain ⟨ns, h⟩ := hs.holds
  have hway := Shows.descends_visited (π := []) h.shows t.order s k none
  obtain ⟨-, hnodup, hlen⟩ := Shows.descends_le (π := []) h.shows hway
  have hrun := h.shows.probe s k
  refine ⟨_, ⟨hrun, fun e he => ?_, ?_, hnodup, ?_, rfl, fun order horder => ?_⟩, Act.ok_then hrun rfl⟩
  · obtain ⟨c, hc, rfl⟩ := Shape.cell_of_visited he
    have hentry : t.entryAt? c.handle = some c.entry := h.shows.lies.entry hc
    rw [keyAt?, hentry]
    rfl
  · rw [h.shows.root]
    exact hway
  · rwa [List.length_map] at hlen
  · have hshows : ({ t with order := order }).Shows ns t.shape :=
      ⟨h.shows.root, h.shows.nil, h.shows.keyless, h.shows.black, h.shows.lies, h.shows.nodup⟩
    rw [hshows.probe s k]
    exact congrArg Except.ok (Shape.descend_congr horder)

theorem walks_live (hs : t.Sound) {x : Handle} {k : K} (hx : t.keyAt? x = some k) :
    ∃ p above, t.Walks .exact k p ∧ t.search k = .ok (some x) ∧ t.Ancestors x above ∧
      p.visited.map Prod.fst = above.reverse ++ [x] := by
  obtain ⟨⟨_, v⟩, hentry, rfl⟩ := Option.map_eq_some_iff.1 hx
  obtain ⟨ns, h⟩ := hs.holds
  have := hs.lawful
  have hmem := hs.entryAt?_eq_some_iff.1 hentry
  obtain ⟨c, hc, hitem⟩ := List.mem_map.1 hmem
  obtain ⟨l, r, π, hshape⟩ := Shape.exists_within hc
  obtain ⟨rfl, hkey⟩ := Prod.mk.inj hitem
  obtain ⟨p, hp, -⟩ := hs.walks .exact c.entry.1
  obtain rfl := Except.ok.inj (hp.run.symm.trans (h.shows.probe .exact c.entry.1))
  have hshows := h.shows
  have hsorted := h.sorted
  rw [hshape] at hshows hsorted
  have hroot : c.item ∈ (Shape.node l c r).items := by
    rw [Shape.items_node]
    exact List.mem_append_right _ List.mem_cons_self
  rw [← hkey] at hmem ⊢
  refine ⟨_, _, hp, hs.search_of_mem hmem, hshows.ancestors (fun h => nomatch h), ?_⟩
  have hvisited := Shape.visited_descend_within (x := c.item) hsorted hroot none
  have hown : t.order.compare c.entry.1 c.entry.1 = .eq := Std.ReflCmp.compare_self
  rw [hshape]
  apply hvisited.trans
  simp only [Shape.descend, Cell.item, Seek.arguments, hown, Seek.turn, List.map_cons, List.map_nil]

end Tree.Sound

/-- Whatever tree is reached: its height, which is the length of the longest way down, is bounded by the
number of its entries. Every search compares with the keys on one way down; that for the key of an entry
with those above the entry, from the root on, and then with the entry's own, right after that of the
parent. -/
theorem descents_bounded [Describe K] [Describe V] (order : KeyOrder K) [Std.TransCmp order.compare]
    (w : Width) (t : Tree K V) (h : t.Reached order w) :
    2 ^ t.shape.height ≤ (t.size + 1) ^ 2 ∧
      (∃ hs, t.Descends t.root hs ∧ hs.length = t.shape.height) ∧
      (∀ hs, t.Descends t.root hs → hs.length ≤ t.shape.height) ∧
      (∀ s k, ∃ p, t.Walks s k p ∧ t.seek s k = .ok p.found) ∧
      ∀ x k, t.keyAt? x = some k → ∃ p above, t.Walks .exact k p ∧ t.search k = .ok (some x) ∧
        t.Ancestors x above ∧ p.visited.map Prod.fst = above.reverse ++ [x] ∧
        t.parent x = .ok ((p.visited.map Prod.fst).dropLast.getLast?.getD .nil) := by
  have hs := h.sound
  obtain ⟨ns, hh⟩ := hs.holds
  have hshows := hh.shows
  have hsize : t.size = t.shape.cells.length := hh.size.trans (List.length_map _)
  refine ⟨?_, ?_, fun hs hway => ?_, hs.walks, fun x k hx => ?_⟩
  · rw [hsize]
    exact hh.colored.two_pow_height_le
  · rw [hshows.root]
    exact Tree.Shows.exists_descends (π := []) hshows
  · rw [hshows.root] at hway
    exact (Tree.Shows.descends_le (π := []) hshows hway).2.2
  · obtain ⟨p, above, hwalks, hsearch, habove, hvisited⟩ := hs.walks_live hx
    refine ⟨p, above, hwalks, hsearch, habove, hvisited, ?_⟩
    rw [hvisited, List.dropLast_concat, List.getLast?_reverse]
    exact habove.parent

theorem descents_bounded_natural :
    let t := ((Client.fresh .natural .halfWord : Client Int64 String).run
      [.insert 1 "a", .insert 2 "b", .insert 3 "c", .insert 4 "d", .insert 5 "e"]).tree
    t.shape.height = 3 ∧ 2 ^ t.shape.height ≤ (t.size + 1) ^ 2 ∧
      (∃ p, t.Walks .lower 3 p ∧ t.lowerBound 3 = .ok p.found) ∧
      ∃ p above, t.Walks .exact 5 p ∧ t.search 5 = .ok (some ⟨5⟩) ∧ t.Ancestors ⟨5⟩ above ∧
        p.visited.map Prod.fst = above.reverse ++ [⟨5⟩] ∧
        t.parent ⟨5⟩ = .ok ((p.visited.map Prod.fst).dropLast.getLast?.getD .nil) := by
  intro t
  have hreached : t.Reached .natural .halfWord := .calls .empty _
  obtain ⟨hheight, -, -, hwalks, hlive⟩ := descents_bounded .natural .halfWord t hreached
  exact ⟨by decide +kernel, hheight, hwalks .lower 3, hlive ⟨5⟩ 5 (by decide +kernel)⟩

end RedBlack
