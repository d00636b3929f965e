import RedBlack.Proofs.LackRepair

/-! A rotation and its opposite. Rotations do not look at colors, so they are known for all trees as soon as
they are known for trees with a black nil slot. -/
namespace RedBlack
variable {K V : Type} {α β : Type}

/-! ### Operations that do not look at colors -/

namespace Tree

def recolored (t : Tree K V) (h : Handle) (c : Color) : Tree K V := t.put h (Slot.withColor c)

variable {t : Tree K V} {h : Handle} {c : Color}

theorem size_recolored : (t.recolored h c).arena.slots.size = t.arena.slots.size := Arena.size_modify ..

theorem recolored_put {f : Slot K V → Slot K V} (hf : ∀ s, f (s.withColor c) = (f s).withColor c)
    (i : Handle) : (t.recolored h c).put i f = (t.put i f).recolored h c := by
  by_cases hi : h = i
  · subst hi
    rw [recolored, recolored, put_put, put_put]
    exact congrArg (t.put h) (funext hf)
  · exact put_comm t hi _ f

theorem slot_recolored {k : Slot K V → Except Failure α} (hk : ∀ s, k (s.withColor c) = k s) (i : Handle) :
    ((t.recolored h c).slot i >>= k) = (t.slot i >>= k) := by
  rw [slot, slot, recolored, slot?_put]
  by_cases hi : h = i
  · rw [if_pos hi]
    cases t.arena.slot? i with
    | none => rfl
    | some s => exact hk s
  · rw [if_neg hi]

theorem child_recolored (a : Side) (i : Handle) : (t.recolored h c).child a i = t.child a i :=
  slot_recolored (fun s => by rw [Slot.child_withColor]) i

theorem parent_recolored (i : Handle) : (t.recolored h c).parent i = t.parent i :=
  slot_recolored (fun _ => rfl) i

theorem isNil_recolored (i : Handle) : (t.recolored h c).isNil i = t.isNil i :=
  slot_recolored (fun _ => rfl) i

theorem hangs_recolored (a : Side) (i : Handle) : (t.recolored h c).hangs a i = t.hangs a i := by
  rw [hangs, hangs, parent_recolored]
  simp only [child_recolored]

theorem sideOf_recolored (i : Handle) : (t.recolored h c).sideOf i = t.sideOf i := by
  rw [sideOf, sideOf, hangs_recolored]

end Tree

def recoloredResult (h : Handle) (c : Color) :
    EStateM.Result Failure (Tree K V) α → EStateM.Result Failure (Tree K V) α
  | .ok a t => .ok a (t.recolored h c)
  | .error e t => .error e (t.recolored h c)

namespace Edit

def CommutesWithRecoloring (act : Edit K V α) : Prop :=
  ∀ t h c, act.run (t.recolored h c) = recoloredResult h c (act.run t)

namespace CommutesWithRecoloring

theorem bind {act : Edit K V α} {k : α → Edit K V β} (hact : CommutesWithRecoloring act)
    (hk : ∀ a, CommutesWithRecoloring (k a)) : CommutesWithRecoloring (act >>= k) := by
  intro t h c
  rw [EStateM.run_bind, EStateM.run_bind, hact t h c]
  cases act.run t with
  | ok a u => exact hk a u h c
  | error e u => rfl

theorem ite {p : Prop} [Decidable p] {act act' : Edit K V α} (h : CommutesWithRecoloring act)
    (h' : CommutesWithRecoloring act') : CommutesWithRecoloring (if p then act else act') := by
  split
  · exact h
  · exact h'

theorem look {f : Tree K V → Except Failure α} (hf : ∀ t h c, f (t.recolored h c) = f t) :
    CommutesWithRecoloring (Act.look f) := by
  intro t h c
  rw [Act.run_look, Act.run_look, hf]
  cases f t <;> rfl

theorem modifySlot (i : Handle) {f : Slot K V → Slot K V}
    (hf : ∀ s c, f (s.withColor c) = (f s).withColor c) : CommutesWithRecoloring (modifySlot i f) := by
  intro t h c
  by_cases hi : i.pos < t.arena.slots.size
  · rw [run_modifySlot f hi, run_modifySlot f (Tree.size_recolored.symm ▸ hi)]
    exact congrArg _ (Tree.recolored_put (fun s => hf s c) i)
  · rw [run_modifySlot_missing f hi, run_modifySlot_missing f (Tree.size_recolored.symm ▸ hi)]
    rfl

theorem setChild (a : Side) (i j : Handle) : CommutesWithRecoloring (setChild a i j : Edit K V Unit) :=
  modifySlot i fun _ _ => by cases a <;> rfl

theorem setParent (i p : Handle) : CommutesWithRecoloring (setParent i p : Edit K V Unit) :=
  modifySlot i fun _ _ => rfl

theorem relink (x y : Handle) : CommutesWithRecoloring (relink x y : Edit K V Unit) := by
  refine bind (look fun _ _ _ => Tree.parent_recolored x) fun p => ?_
  refine bind (look fun _ _ _ => Tree.isNil_recolored p) fun _ => ite (fun _ _ _ => rfl) ?_
  exact bind (look fun _ _ _ => Tree.sideOf_recolored x) fun a => setChild a p y

theorem rotate (a : Side) (x : Handle) : CommutesWithRecoloring (rotate a x : Edit K V Unit) := by
  refine bind (look fun _ _ _ => Tree.child_recolored a.other x) fun y => ?_
  refine bind (look fun _ _ _ => Tree.isNil_recolored y) fun _ => ite (fun _ _ _ => rfl) ?_
  refine bind (fun _ _ _ => rfl) fun _ => ?_
  refine bind (look fun _ _ _ => Tree.child_recolored a y) fun middle => ?_
  refine bind (setChild a.other x middle) fun _ => ?_
  have hrest : CommutesWithRecoloring (do
      let p ← Act.look (·.parent x)
      Edit.setParent y p
      Edit.relink x y
      Edit.setParent x y
      Edit.setChild a y x : Edit K V Unit) := by
    refine bind (look fun _ _ _ => Tree.parent_recolored x) fun p => ?_
    refine bind (setParent y p) fun _ => bind (relink x y) fun _ => ?_
    exact bind (setParent x y) fun _ => setChild a y x
  refine bind (look fun _ _ _ => Tree.isNil_recolored middle) fun _ => ite ?_ hrest
  exact bind (setParent middle x) fun _ => hrest

end CommutesWithRecoloring
end Edit

/-! ### Trees with a nil slot of any color -/

def Slot.face (s : Slot K V) : Color × Option (K × V) := (s.color, s.entry)

namespace Tree

/-- The links of the tree are those of the shape. The nil slot has no key; its color may be any. -/
structure Linked (t : Tree K V) (ns : Slot K V) (sh : Shape K V) : Prop where
  root : t.root = sh.root
  nil : t.arena.slot? .nil = some ns
  keyless : ns.entry = none
  lies : sh.Lies t.arena.slot? .nil
  nodup : (.nil :: sh.handles).Nodup

structure Relinked (t u : Tree K V) : Prop where
  face : ∀ h, (u.arena.slot? h).map Slot.face = (t.arena.slot? h).map Slot.face
  nil : u.arena.slot? .nil = t.arena.slot? .nil
  free : u.arena.free = t.arena.free
  size : u.size = t.size
  order : u.order = t.order
  width : u.width = t.width

variable {t u : Tree K V} {ns : Slot K V} {sh sh' : Shape K V} {c : Color}

theorem lies_recolored_nil (h : sh.Lies t.arena.slot? .nil) (hd : (.nil :: sh.handles).Nodup) :
    sh.Lies (t.recolored .nil c).arena.slot? .nil := by
  apply h.congr
  intro i hi
  apply slot?_put_of_ne
  rintro rfl
  exact (List.nodup_cons.1 hd).1 hi

theorem slot?_recolored_nil (h : t.arena.slot? .nil = some ns) :
    (t.recolored .nil c).arena.slot? .nil = some (ns.withColor c) := by
  rw [recolored, slot?_put_self, h, Option.map_some]

theorem Linked.shows (h : t.Linked ns sh) :
    (t.recolored .nil .black).Shows (ns.withColor .black) sh :=
  ⟨h.root, slot?_recolored_nil h.nil, h.keyless, rfl, lies_recolored_nil h.lies h.nodup, h.nodup⟩

theorem Shows.recolored (h : t.Shows ns sh) (c : Color) : (t.recolored .nil c).Linked (ns.withColor c) sh :=
  ⟨h.root, slot?_recolored_nil h.nil, h.keyless, lies_recolored_nil h.lies h.nodup, h.nodup⟩

theorem recolored_recolored_nil (h : t.arena.slot? .nil = some ns) (c : Color) :
    (t.recolored .nil c).recolored .nil ns.color = t := by
  have harena : ((t.recolored .nil c).recolored .nil ns.color).arena = t.arena := by
    refine Arena.ext_slot? rfl fun i => ?_
    rw [recolored, recolored, put_put, slot?_put]
    by_cases hi : Handle.nil = i
    · subst hi
      rw [if_pos rfl, h]
      rfl
    · rw [if_neg hi]
  exact congrArg (fun a => { t with arena := a }) harena

theorem Relinked.recolored (h : t.Relinked u) (i : Handle) (c : Color) :
    (t.recolored i c).Relinked (u.recolored i c) := by
  have hface (s s' : Option (Slot K V)) (hs : s.map Slot.face = s'.map Slot.face) :
      (s.map (Slot.withColor c)).map Slot.face = (s'.map (Slot.withColor c)).map Slot.face := by
    have hcolor : Slot.face ∘ Slot.withColor c =
        (fun f : Color × Option (K × V) => (c, f.2)) ∘ (Slot.face : Slot K V → _) := rfl
    rw [Option.map_map, Option.map_map, hcolor, ← Option.map_map, ← Option.map_map, hs]
  refine ⟨fun j => ?_, ?_, h.free, h.size, h.order, h.width⟩
  · rw [Tree.recolored, Tree.recolored, slot?_put, slot?_put]
    by_cases hj : i = j
    · rw [if_pos hj, if_pos hj]
      exact hface _ _ (h.face j)
    · rw [if_neg hj, if_neg hj]
      exact h.face j
  · rw [Tree.recolored, Tree.recolored, slot?_put, slot?_put, h.nil]

end Tree

theorem Shape.Lies.face {f : Handle → Option (Slot K V)} {p : Handle} {sh : Shape K V}
    (h : sh.Lies f p) {d : Cell K V} (hd : d ∈ sh.cells) :
    (f d.handle).map Slot.face = some (d.color, some d.entry) := by
  obtain ⟨l, r, q, hslot⟩ := h.exists_slot hd
  rw [hslot]
  rfl

namespace Tree
variable {t : Tree K V} {ns : Slot K V}

theorem Shows.relinked {sh sh' : Shape K V} (h : t.Shows ns sh) (hcells : sh'.cells = sh.cells)
    (es : List Event) : t.Relinked ((t.report es).draw ns sh') := by
  have hdrawn := ((h.report es).fits.of_items (congrArg (List.map Cell.item) hcells)).shows
  refine ⟨fun i => ?_, hdrawn.nil.trans h.nil.symm, rfl, rfl, rfl, rfl⟩
  by_cases hn : i = .nil
  · rw [hn, hdrawn.nil, h.nil]
  by_cases hi : i ∈ sh'.handles
  · obtain ⟨d, hd, rfl⟩ := List.mem_map.1 hi
    rw [hdrawn.lies.face hd, h.lies.face (hcells ▸ hd)]
  · exact congrArg (Option.map Slot.face) (Arena.slot?_draw_of_notMem _ ns hn hi)

section rotation
variable {a : Side} {n m f : Shape K V} {x y : Cell K V} {π : Path K V}

theorem Shows.run_rotate_back (h : t.Shows ns ((Shape.join a n x (.join a m y f)).within π))
    (es : List Event) :
    (Edit.rotate a.other y.handle).run
        ((t.report es).draw ns ((Shape.join a (.join a n x m) y f).within π)) =
      .ok () (t.report (es ++ [.rotated a.other y.handle])) := by
  have hfits := (h.report es).fits.rotated
  have hmirror : Shape.join a (.join a n x m) y f = .join a.other f y (.join a.other m x n) := by
    rw [Shape.join_other, Shape.join_other]
  rw [hmirror] at hfits ⊢
  rw [hfits.run_rotate, report_report, Shape.join_other, Shape.join_other]
  exact congrArg _ (h.report _).draw_self

theorem Linked.exists_rotated (h : t.Linked ns ((Shape.join a n x (.join a m y f)).within π)) :
    ∃ u, (Edit.rotate a x.handle).run t = .ok () u ∧
      u.Linked ns ((Shape.join a (.join a n x m) y f).within π) ∧ t.Relinked u ∧
      (Edit.rotate a.other y.handle).run u =
        .ok () (t.report [.rotated a x.handle, .rotated a.other y.handle]) := by
  have hshows := h.shows
  have hrecolored := recolored_recolored_nil h.nil .black
  have hcells : ((Shape.join a (.join a n x m) y f).within π).cells =
      ((Shape.join a n x (.join a m y f)).within π).cells := by
    rw [Shape.cells_within, Shape.cells_within, Shape.cells_rotated]
  have hns : (ns.withColor .black).withColor ns.color = ns := rfl
  have hrun := Edit.CommutesWithRecoloring.rotate a x.handle (t.recolored .nil .black) .nil ns.color
  have hback := fun u : Tree K V => Edit.CommutesWithRecoloring.rotate a.other y.handle u .nil ns.color
  have hlinked := ((hshows.report [.rotated a x.handle]).fits.rotated.shows).recolored ns.color
  have hrelinked := (hshows.relinked hcells [.rotated a x.handle]).recolored .nil ns.color
  rw [hrecolored, hshows.run_rotate] at hrun
  rw [hrecolored] at hrelinked
  rw [hns] at hlinked
  refine ⟨_, hrun, hlinked, hrelinked, ?_⟩
  rw [hback, hshows.run_rotate_back]
  exact congrArg (fun u : Tree K V => EStateM.Result.ok () (u.report _)) hrecolored

theorem Linked.root_rotated (h : t.Linked ns ((Shape.join a n x (.join a m y f)).within π)) :
    ((Shape.join a (.join a n x m) y f).within π).root =
      if t.root = x.handle then y.handle else t.root := by
  cases π with
  | nil =>
    have hroot : t.root = x.handle := h.root.trans (Shape.root_join ..)
    rw [if_pos hroot]
    exact Shape.root_join ..
  | cons s π =>
    have hroot : (Shape.join a n x (.join a m y f)).root ≠ t.root := h.shows.root_ne
    rw [Shape.root_join] at hroot
    rw [if_neg hroot.symm, h.root]
    exact Shape.root_within_cons ..

end rotation
end Tree

/-- A rotation at an entry with a child on the other side leaves the links those of a tree in which the entry
has gone below that child, with the same items in the same order. The child comes to the root if the entry was
there, and nothing but links is changed. The opposite rotation at the child gives back the tree as it was;
both are reported. -/
theorem rotations_invert (t : Tree K V) (ns : Slot K V) (sh : Shape K V) (a : Side) (x y : Handle)
    (h : t.Linked ns sh) (hx : x ∈ sh.handles) (hy : t.child a.other x = .ok y) (hne : y ≠ .nil) :
    ∃ u sh', (Edit.rotate a x).run t = .ok () u ∧ u.Linked ns sh' ∧ sh.Rotates a x sh' ∧
      sh'.items = sh.items ∧ u.root = (if t.root = x then y else t.root) ∧ t.Relinked u ∧
      (Edit.rotate a.other y).run u = .ok () (t.report [.rotated a x, .rotated a.other y]) := by
  obtain ⟨c, hc, rfl⟩ := List.mem_map.1 hx
  obtain ⟨l, r, π, rfl⟩ := Shape.exists_within hc
  obtain ⟨n, far, hsides⟩ : ∃ n far, Shape.node l c r = .join a n c far := by
    cases a
    · exact ⟨l, r, rfl⟩
    · exact ⟨r, l, rfl⟩
  rw [hsides] at h ⊢
  have hfar : t.child a.other c.handle = .ok far.root :=
    (Tree.child_recolored a.other c.handle).symm.trans h.shows.child_far
  obtain rfl : far.root = y := Except.ok.inj (hfar.symm.trans hy)
  obtain ⟨m, d, f, rfl⟩ : ∃ m d f, far = .join a m d f :=
    Shape.exists_join a fun hnil => hne (congrArg Shape.root hnil)
  rw [Shape.root_join]
  obtain ⟨u, hrun, hlinked, hrelinked, hback⟩ := h.exists_rotated
  have hrotates := Shape.rotates_near a n c m d f π
  exact ⟨u, _, hrun, hlinked, hrotates, hrotates.items, hlinked.root.trans h.root_rotated, hrelinked,
    hback⟩

/-- Below the root, with an entry between the two that are turned, and with a red nil slot. -/
theorem rotations_invert_red_nil :
    let sh : Shape Int64 String := .node (.node .nil ⟨⟨2⟩, .red, 1, ""⟩
      (.node (.node .nil ⟨⟨4⟩, .black, 2, ""⟩ .nil) ⟨⟨3⟩, .red, 3, ""⟩ .nil)) ⟨⟨1⟩, .black, 4, ""⟩ .nil
    let blank : Tree Int64 String :=
      { (Tree.empty .natural .halfWord : Tree Int64 String) with
        arena := ⟨Array.replicate 5 .vacant, []⟩ }
    let t := (blank.draw .vacant sh).recolored .nil .red
    let ns := Slot.vacant.withColor .red
    (t.Linked ns sh ∧ ⟨2⟩ ∈ sh.handles ∧ t.child .right ⟨2⟩ = .ok ⟨3⟩ ∧ (⟨3⟩ : Handle) ≠ .nil) ∧
      ∃ u sh', (Edit.rotate .left ⟨2⟩).run t = .ok () u ∧ u.Linked ns sh' ∧
        sh.Rotates .left ⟨2⟩ sh' ∧ sh'.items = sh.items ∧ u.root = t.root ∧ t.Relinked u ∧
        (Edit.rotate .right ⟨3⟩).run u = .ok () (t.report [.rotated .left ⟨2⟩, .rotated .right ⟨3⟩]) := by
  intro sh blank t ns
  have hfits : blank.Fits .vacant sh := ⟨rfl, rfl, by decide +kernel, by decide +kernel⟩
  have hlinked : t.Linked ns sh := hfits.shows.recolored .red
  have hx : ⟨2⟩ ∈ sh.handles := by decide +kernel
  have hy : t.child .right ⟨2⟩ = .ok ⟨3⟩ := rfl
  have hne : (⟨3⟩ : Handle) ≠ .nil := by decide
  refine ⟨⟨hlinked, hx, hy, hne⟩, ?_⟩
  exact rotations_invert t ns sh .left ⟨2⟩ ⟨3⟩ hlinked hx hy hne

end RedBlack
