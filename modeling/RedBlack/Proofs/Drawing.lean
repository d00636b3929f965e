import RedBlack.Proofs.Shape
import RedBlack.Tree.Basic

/-! Drawings and arenas: when the links of a tree are those of a shape, and the tree that comes of a tree
when another shape is drawn into its arena. -/
namespace RedBlack
variable {K V : Type}

def Cell.slot (a : Side) (near far parent : Handle) (c : Cell K V) : Slot K V :=
  match a with
  | .left => ⟨some near, some far, some parent, c.color, some c.entry⟩
  | .right => ⟨some far, some near, some parent, c.color, some c.entry⟩

namespace Cell
variable (a : Side) (n f p h : Handle) (c : Cell K V)

@[simp] theorem child_slot : (c.slot a n f p).child a = some n := by cases a <;> rfl

@[simp] theorem child_other_slot : (c.slot a n f p).child a.other = some f := by cases a <;> rfl

@[simp] theorem parent_slot : (c.slot a n f p).parent = some p := by cases a <;> rfl

@[simp] theorem color_slot : (c.slot a n f p).color = c.color := by cases a <;> rfl

@[simp] theorem entry_slot : (c.slot a n f p).entry = some c.entry := by cases a <;> rfl

@[simp] theorem withChild_slot : (c.slot a n f p).withChild a h = c.slot a h f p := by
  cases a <;> rfl

@[simp] theorem withChild_other_slot : (c.slot a n f p).withChild a.other h = c.slot a n h p := by
  cases a <;> rfl

@[simp] theorem withParent_slot : (c.slot a n f p).withParent h = c.slot a n f h := by
  cases a <;> rfl

@[simp] theorem withColor_slot (color : Color) :
    (c.slot a n f p).withColor color = (c.painted color).slot a n f p := by
  cases a <;> rfl

end Cell

/-! ### Slots that hold a shape -/

/-- The slots hold the shape, and its root hangs from `p`. -/
def Shape.Lies (f : Handle → Option (Slot K V)) (p : Handle) : Shape K V → Prop
  | .nil => True
  | .node l c r =>
    f c.handle = some (c.slot .left l.root r.root p) ∧ l.Lies f c.handle ∧ r.Lies f c.handle

def Path.Lies (f : Handle → Option (Slot K V)) (hole : Handle) : Path K V → Prop
  | [] => True
  | s :: π =>
    f s.cell.handle = some (s.cell.slot s.side hole s.sibling.root (Path.above π)) ∧
      s.sibling.Lies f s.cell.handle ∧ Path.Lies f s.cell.handle π

namespace Shape
variable {f g : Handle → Option (Slot K V)} {p q : Handle} {sh : Shape K V}

theorem lies_join (a : Side) (n : Shape K V) (c : Cell K V) (m : Shape K V) :
    (join a n c m).Lies f p ↔
      f c.handle = some (c.slot a n.root m.root p) ∧ n.Lies f c.handle ∧ m.Lies f c.handle := by
  cases a with
  | left => rfl
  | right =>
    apply and_congr Iff.rfl
    exact And.comm

theorem lies_within (sh : Shape K V) (π : Path K V) :
    (sh.within π).Lies f .nil ↔ sh.Lies f π.above ∧ π.Lies f sh.root := by
  induction π generalizing sh with
  | nil => simp only [within_nil, Path.Lies, Path.above, and_true]
  | cons s π ih =>
    rw [within_cons, ih, lies_join, root_join]
    simp only [Path.Lies, Path.above]
    constructor
    · rintro ⟨⟨hs, hsh, hsib⟩, hπ⟩
      exact ⟨hsh, hs, hsib, hπ⟩
    · rintro ⟨hsh, hs, hsib, hπ⟩
      exact ⟨⟨hs, hsh, hsib⟩, hπ⟩

theorem Lies.congr (h : sh.Lies f p) (hg : ∀ i ∈ sh.handles, g i = f i) : sh.Lies g p := by
  induction sh generalizing p with
  | nil => exact trivial
  | node l c r ihl ihr =>
    rw [handles_node] at hg
    obtain ⟨hc, hl, hr⟩ := h
    refine ⟨(hg _ (by simp)).trans hc, ihl hl fun i hi => hg i ?_, ihr hr fun i hi => hg i ?_⟩
    · exact List.mem_append_left _ hi
    · exact List.mem_append_right _ (List.mem_cons_of_mem _ hi)

theorem Lies.reparent (h : sh.Lies f p) (hd : sh.handles.Nodup)
    (hroot : sh ≠ nil → g sh.root = (f sh.root).map (Slot.withParent q))
    (hg : ∀ i ∈ sh.handles, i ≠ sh.root → g i = f i) : sh.Lies g q := by
  cases sh with
  | nil => exact trivial
  | node l c r =>
    obtain ⟨hc, hl, hr⟩ := h
    have hroot := hroot (fun h => nomatch h)
    simp only [root] at hroot hg
    rw [handles_node] at hg hd
    obtain ⟨hdl, hdr, hdis⟩ := List.nodup_append.1 hd
    refine ⟨?_, hl.congr fun i hi => hg i ?_ ?_, hr.congr fun i hi => hg i ?_ ?_⟩
    · rw [hroot, hc, Option.map_some, Cell.withParent_slot]
    · exact List.mem_append_left _ hi
    · exact hdis i hi _ List.mem_cons_self
    · exact List.mem_append_right _ (List.mem_cons_of_mem _ hi)
    · rintro rfl
      exact (List.nodup_cons.1 hdr).1 hi

theorem Lies.isSome (h : sh.Lies f p) {i : Handle} (hi : i ∈ sh.handles) : (f i).isSome := by
  induction sh generalizing p with
  | nil => cases hi
  | node l c r ihl ihr =>
    obtain ⟨hc, hl, hr⟩ := h
    rw [handles_node, List.mem_append, List.mem_cons] at hi
    rcases hi with hi | rfl | hi
    · exact ihl hl hi
    · rw [hc]
      rfl
    · exact ihr hr hi

theorem Lies.exists_slot (h : sh.Lies f p) {c : Cell K V} (hc : c ∈ sh.cells) :
    ∃ l r q, f c.handle = some (c.slot .left l r q) := by
  induction sh generalizing p with
  | nil => cases hc
  | node l d r ihl ihr =>
    obtain ⟨hd, hl, hr⟩ := h
    rw [cells, List.mem_append, List.mem_cons] at hc
    rcases hc with hc | rfl | hc
    · exact ihl hl hc
    · exact ⟨_, _, _, hd⟩
    · exact ihr hr hc

theorem Lies.entry (h : sh.Lies f p) {c : Cell K V} (hc : c ∈ sh.cells) :
    (f c.handle).bind Slot.entry = some c.entry := by
  obtain ⟨l, r, q, hslot⟩ := h.exists_slot hc
  rw [hslot]
  rfl

end Shape

namespace Path
variable {f g : Handle → Option (Slot K V)} {hole : Handle} {π : Path K V}

theorem Lies.congr (h : π.Lies f hole) (hg : ∀ i ∈ π.handles, g i = f i) : π.Lies g hole := by
  induction π generalizing hole with
  | nil => exact trivial
  | cons s π ih =>
    obtain ⟨hs, hsib, hπ⟩ := h
    simp only [Path.handles, List.mem_cons, List.mem_append] at hg
    refine ⟨(hg _ (.inl rfl)).trans hs, hsib.congr ?_, ih hπ ?_⟩
    · intro i hi
      exact hg i (.inr (.inl hi))
    · intro i hi
      exact hg i (.inr (.inr hi))

theorem Lies.rehang {s : Step K V} {next : Handle} (h : Path.Lies f hole (s :: π))
    (hd : (Path.handles (s :: π)).Nodup)
    (htop : g s.cell.handle = (f s.cell.handle).map (Slot.withChild s.side next))
    (hg : ∀ i ∈ Path.handles (s :: π), i ≠ s.cell.handle → g i = f i) :
    Path.Lies g next (s :: π) := by
  obtain ⟨hs, hsib, hπ⟩ := h
  simp only [Path.handles, List.mem_cons, List.mem_append] at hg
  have hne := (List.nodup_cons.1 hd).1
  refine ⟨?_, hsib.congr ?_, hπ.congr ?_⟩
  · rw [htop, hs, Option.map_some, Cell.withChild_slot]
  · intro i hi
    apply hg i (.inr (.inl hi))
    rintro rfl
    exact hne (List.mem_append_left _ hi)
  · intro i hi
    apply hg i (.inr (.inr hi))
    rintro rfl
    exact hne (List.mem_append_right _ hi)

end Path

/-! ### Trees that show a shape -/

/-- The links of the tree are those of the shape. The nil slot holds `ns`: it has no key and is black,
and nothing is said of its links. -/
structure Tree.Shows (t : Tree K V) (ns : Slot K V) (sh : Shape K V) : Prop where
  root : t.root = sh.root
  nil : t.arena.slot? .nil = some ns
  keyless : ns.entry = none
  black : ns.color = .black
  lies : sh.Lies t.arena.slot? .nil
  nodup : (.nil :: sh.handles).Nodup

def Shape.slotAt (p h : Handle) : Shape K V → Option (Slot K V)
  | .nil => none
  | .node l c r =>
    if h = c.handle then some (c.slot .left l.root r.root p)
    else (l.slotAt c.handle h).or (r.slotAt c.handle h)

def Arena.draw (a : Arena K V) (ns : Slot K V) (sh : Shape K V) : Arena K V :=
  { a with slots := a.slots.mapIdx fun i s => if i = 0 then ns else (sh.slotAt .nil ⟨i⟩).getD s }

namespace Tree

structure Fits (t : Tree K V) (ns : Slot K V) (sh : Shape K V) : Prop where
  keyless : ns.entry = none
  black : ns.color = .black
  nodup : (.nil :: sh.handles).Nodup
  room : ∀ h ∈ Handle.nil :: sh.handles, (t.arena.slot? h).isSome

def draw (t : Tree K V) (ns : Slot K V) (sh : Shape K V) : Tree K V :=
  { t with root := sh.root, arena := t.arena.draw ns sh }

def report (t : Tree K V) (es : List Event) : Tree K V :=
  { t with journal := t.journal ++ es.toArray }

/-- Nothing differs but the slots at `hs` and the root. -/
structure Redrawn (t t' : Tree K V) (hs : List Handle) : Prop where
  free : t'.arena.free = t.arena.free
  length : t'.arena.slots.size = t.arena.slots.size
  slot : ∀ h, h ∉ hs → t'.arena.slot? h = t.arena.slot? h
  size : t'.size = t.size
  order : t'.order = t.order
  width : t'.width = t.width
  journal : t'.journal = t.journal

end Tree

theorem Arena.ext_slot? {a b : Arena K V} (hf : a.free = b.free)
    (hs : ∀ h, a.slot? h = b.slot? h) : a = b := by
  obtain ⟨as, af⟩ := a
  obtain ⟨bs, bf⟩ := b
  have h : as = bs := Array.ext_getElem? fun i => hs ⟨i⟩
  subst h hf
  rfl

namespace Shape
variable {sh : Shape K V}

theorem slotAt_eq_none {h : Handle} (p : Handle) (hh : h ∉ sh.handles) : sh.slotAt p h = none := by
  induction sh generalizing p with
  | nil => rfl
  | node l c r ihl ihr =>
    rw [handles_node, List.mem_append, List.mem_cons, not_or, not_or] at hh
    rw [slotAt, if_neg hh.2.1, ihl _ hh.1, ihr _ hh.2.2]
    rfl

theorem lies_slotAt (p : Handle) (hd : sh.handles.Nodup) : sh.Lies (fun h => sh.slotAt p h) p := by
  induction sh generalizing p with
  | nil => exact trivial
  | node l c r ihl ihr =>
    rw [handles_node] at hd
    obtain ⟨hdl, hdr, hdis⟩ := List.nodup_append.1 hd
    obtain ⟨hcr, hdr⟩ := List.nodup_cons.1 hdr
    refine ⟨if_pos rfl, (ihl c.handle hdl).congr ?_,
      (ihr c.handle hdr).congr ?_⟩
    · intro i hi
      have hne : i ≠ c.handle := hdis i hi _ List.mem_cons_self
      have hr : i ∉ r.handles := fun hr => hdis i hi i (List.mem_cons_of_mem _ hr) rfl
      simp only [slotAt, if_neg hne, slotAt_eq_none _ hr, Option.or_none]
    · intro i hi
      have hne : i ≠ c.handle := by
        rintro rfl
        exact hcr hi
      have hl : i ∉ l.handles := fun hl => hdis i hl i (List.mem_cons_of_mem _ hi) rfl
      simp only [slotAt, if_neg hne, slotAt_eq_none _ hl, Option.none_or]

theorem Lies.slotAt_eq {f : Handle → Option (Slot K V)} {p : Handle} (h : sh.Lies f p)
    (hd : sh.handles.Nodup) {i : Handle} (hi : i ∈ sh.handles) : sh.slotAt p i = f i := by
  induction sh generalizing p with
  | nil => cases hi
  | node l c r ihl ihr =>
    obtain ⟨hc, hl, hr⟩ := h
    rw [handles_node] at hd hi
    obtain ⟨hdl, hdr, hdis⟩ := List.nodup_append.1 hd
    obtain ⟨hcr, hdr⟩ := List.nodup_cons.1 hdr
    rw [List.mem_append, List.mem_cons] at hi
    by_cases hic : i = c.handle
    · subst hic
      rw [hc]
      exact if_pos rfl
    rcases hi with hi | rfl | hi
    · have hr' : i ∉ r.handles := fun hr' => hdis i hi i (List.mem_cons_of_mem _ hr') rfl
      rw [slotAt, if_neg hic, slotAt_eq_none _ hr', Option.or_none]
      exact ihl hl hdl hi
    · exact absurd rfl hic
    · have hl' : i ∉ l.handles := fun hl' => hdis i hl' i (List.mem_cons_of_mem _ hi) rfl
      rw [slotAt, if_neg hic, slotAt_eq_none _ hl', Option.none_or]
      exact ihr hr hdr hi

end Shape

namespace Arena

theorem slot?_draw (a : Arena K V) (ns : Slot K V) (sh : Shape K V) (h : Handle) :
    (a.draw ns sh).slot? h =
      (a.slot? h).map fun s => if h = .nil then ns else (sh.slotAt .nil h).getD s := by
  obtain ⟨i⟩ := h
  simp only [slot?, draw, Array.getElem?_mapIdx, Handle.nil, Handle.mk.injEq]

theorem slot?_draw_of_notMem (a : Arena K V) (ns : Slot K V) {sh : Shape K V} {h : Handle}
    (hn : h ≠ .nil) (hh : h ∉ sh.handles) : (a.draw ns sh).slot? h = a.slot? h := by
  rw [slot?_draw, Shape.slotAt_eq_none _ hh]
  simp only [if_neg hn, Option.getD_none, Option.map_id']

@[simp] theorem size_draw (a : Arena K V) (ns : Slot K V) (sh : Shape K V) :
    (a.draw ns sh).slots.size = a.slots.size := Array.size_mapIdx

end Arena

namespace Tree
variable {t t' : Tree K V} {ns ns' : Slot K V} {sh sh' : Shape K V}

theorem Fits.shows (h : t.Fits ns sh) : (t.draw ns sh).Shows ns sh := by
  obtain ⟨hnil, hd⟩ := List.nodup_cons.1 h.nodup
  refine ⟨rfl, ?_, h.keyless, h.black, ?_, h.nodup⟩
  · obtain ⟨s, hs⟩ := Option.isSome_iff_exists.1 (h.room _ List.mem_cons_self)
    simp only [draw, Arena.slot?_draw, hs, Option.map_some, if_true]
  · apply (Shape.lies_slotAt .nil hd).congr
    intro i hi
    have hne : i ≠ .nil := by
      rintro rfl
      exact hnil hi
    obtain ⟨s, hs⟩ := Option.isSome_iff_exists.1 (h.room i (List.mem_cons_of_mem _ hi))
    obtain ⟨s', hs'⟩ := Option.isSome_iff_exists.1 ((Shape.lies_slotAt .nil hd).isSome hi)
    simp only [draw, Arena.slot?_draw, hs, hs', Option.map_some, if_neg hne, Option.getD_some]

theorem Fits.perm (h : t.Fits ns sh) (hp : sh'.handles.Perm sh.handles) : t.Fits ns sh' :=
  ⟨h.keyless, h.black, (hp.cons _).nodup_iff.2 h.nodup,
    fun i hi => h.room i ((hp.cons _).mem_iff.1 hi)⟩

theorem Fits.of_items (h : t.Fits ns sh) (hitems : sh'.items = sh.items) : t.Fits ns sh' :=
  h.perm (.of_eq (Shape.handles_eq_of_items hitems))

theorem Fits.sublist (h : t.Fits ns sh) (hs : sh'.handles.Sublist sh.handles) : t.Fits ns sh' :=
  ⟨h.keyless, h.black, h.nodup.sublist (hs.cons_cons _),
    fun i hi => h.room i ((hs.cons_cons _).mem hi)⟩

theorem Fits.length_lt_reach (h : t.Fits ns sh) : sh.handles.length < t.reach := by
  have hd : ((Handle.nil :: sh.handles).map Handle.pos).Nodup :=
    List.Pairwise.map Handle.pos (fun a b hab heq => hab (congrArg Handle.mk heq)) h.nodup
  have hsub : (Handle.nil :: sh.handles).map Handle.pos ⊆ List.range t.reach := by
    intro i hi
    obtain ⟨j, hj, rfl⟩ := List.mem_map.1 hi
    exact List.mem_range.2 ((Arena.slot?_isSome_iff _ _).1 (h.room j hj))
  have hle := hd.length_le_of_subset hsub
  rw [List.length_map, List.length_range] at hle
  exact hle

theorem Fits.path_lt_reach {π : Path K V} (h : t.Fits ns (sh.within π)) : π.length < t.reach := by
  refine Nat.lt_of_le_of_lt ?_ h.length_lt_reach
  rw [(Shape.handles_within_perm sh π).length_eq, List.length_append]
  exact Nat.le_add_left_of_le π.length_le_handles

theorem Fits.report (h : t.Fits ns sh) (es : List Event) : (t.report es).Fits ns sh :=
  ⟨h.keyless, h.black, h.nodup, h.room⟩

namespace Shows

theorem slot_of_mem (h : t.Shows ns sh) {i : Handle} (hi : i ∈ .nil :: sh.handles) :
    (t.arena.slot? i).isSome := by
  rw [List.mem_cons] at hi
  rcases hi with rfl | hi
  · rw [h.nil]
    rfl
  · exact h.lies.isSome hi

theorem fits (h : t.Shows ns sh) : t.Fits ns sh :=
  ⟨h.keyless, h.black, h.nodup, fun _ hi => h.slot_of_mem hi⟩

theorem eq_draw (h : t'.Shows ns' sh') (hr : t.Redrawn t' (.nil :: sh'.handles)) :
    t' = t.draw ns' sh' := by
  have ha : t'.arena = t.arena.draw ns' sh' := by
    refine Arena.ext_slot? hr.free fun i => ?_
    rw [Arena.slot?_draw]
    by_cases hi : i ∈ Handle.nil :: sh'.handles
    · have hsome : (t.arena.slot? i).isSome := by
        rw [Arena.slot?_isSome_iff, ← hr.length, ← Arena.slot?_isSome_iff]
        exact h.slot_of_mem hi
      obtain ⟨s, hs⟩ := Option.isSome_iff_exists.1 hsome
      rw [hs, Option.map_some]
      rw [List.mem_cons] at hi
      by_cases hn : i = .nil
      · rw [if_pos hn, hn, h.nil]
      · have hi := hi.resolve_left hn
        have hat := h.lies.slotAt_eq (List.nodup_cons.1 h.nodup).2 hi
        obtain ⟨s', hs'⟩ := Option.isSome_iff_exists.1 (h.lies.isSome hi)
        rw [if_neg hn, hat, hs', Option.getD_some]
    · rw [hr.slot i hi]
      rw [List.mem_cons, not_or] at hi
      simp only [if_neg hi.1, Shape.slotAt_eq_none _ hi.2, Option.getD_none, Option.map_id']
  have hroot := h.root
  obtain ⟨hf, hl, hs, hz, ho, hw, hj⟩ := hr
  cases t'
  cases t
  simp only at ha hroot hz ho hw hj
  subst ha hroot hz ho hw hj
  rfl

theorem draw_self (h : t.Shows ns sh) : t.draw ns sh = t :=
  (h.eq_draw ⟨rfl, rfl, fun _ _ => rfl, rfl, rfl, rfl, rfl⟩).symm

theorem report (h : t.Shows ns sh) (es : List Event) : (t.report es).Shows ns sh :=
  ⟨h.root, h.nil, h.keyless, h.black, h.lies, h.nodup⟩

end Shows

theorem draw_draw (t : Tree K V) (ns ns' : Slot K V) {sh sh' : Shape K V}
    (hd : sh'.handles.Nodup) (hsub : ∀ i ∈ sh.handles, i ∈ sh'.handles) :
    (t.draw ns sh).draw ns' sh' = t.draw ns' sh' := by
  have ha : (t.arena.draw ns sh).draw ns' sh' = t.arena.draw ns' sh' := by
    refine Arena.ext_slot? rfl fun i => ?_
    rw [Arena.slot?_draw, Arena.slot?_draw, Arena.slot?_draw, Option.map_map]
    congr 1
    funext s
    simp only [Function.comp_apply]
    by_cases hn : i = .nil
    · rw [if_pos hn, if_pos hn]
    · rw [if_neg hn, if_neg hn, if_neg hn]
      by_cases hi : i ∈ sh'.handles
      · obtain ⟨s', hs'⟩ := Option.isSome_iff_exists.1 ((Shape.lies_slotAt .nil hd).isSome hi)
        rw [hs', Option.getD_some, Option.getD_some]
      · rw [Shape.slotAt_eq_none _ fun h => hi (hsub i h), Option.getD_none]
  simp only [draw, ha]

@[simp] theorem reach_draw (t : Tree K V) (ns : Slot K V) (sh : Shape K V) :
    (t.draw ns sh).reach = t.reach := Arena.size_draw ..

@[simp] theorem report_nil (t : Tree K V) : t.report [] = t := by
  simp only [report, Array.append_empty]

theorem Redrawn.draw {t'' : Tree K V} {hs : List Handle} (h : t.Redrawn t'' hs) (ns : Slot K V)
    (hsub : ∀ i ∈ Handle.nil :: sh.handles, i ∈ hs) : t.Redrawn (t''.draw ns sh) hs := by
  refine ⟨h.free, (Arena.size_draw ..).trans h.length, ?_, h.size, h.order, h.width,
    h.journal⟩
  intro i hi
  have hn : i ≠ .nil := fun hn => hi (hsub i (hn ▸ List.mem_cons_self))
  have hh : i ∉ sh.handles := fun hh => hi (hsub i (List.mem_cons_of_mem _ hh))
  exact (Arena.slot?_draw_of_notMem _ ns hn hh).trans (h.slot i hi)

theorem report_report (t : Tree K V) (es fs : List Event) :
    (t.report es).report fs = t.report (es ++ fs) := by
  simp only [report, Array.append_assoc, List.append_toArray]

theorem Fits.draw_draw (h : t.Fits ns sh) (hp : sh'.handles.Perm sh.handles) (ns' : Slot K V) :
    (t.draw ns' sh').draw ns sh = t.draw ns sh :=
  Tree.draw_draw t ns' ns (List.nodup_cons.1 h.nodup).2 fun _ hi => hp.mem_iff.1 hi

/-- An operation that redraws the shape of a tree does so whatever was drawn before. -/
theorem Fits.run_draw {β : Type} {act : Edit K V β} {b : β} {es : List Event} (h : t.Fits ns sh)
    (hp : sh'.handles.Perm sh.handles)
    (hrun : act.run (t.draw ns sh) = .ok b (((t.draw ns sh).report es).draw ns sh')) :
    act.run (t.draw ns sh) = .ok b ((t.report es).draw ns sh') := by
  rw [hrun]
  exact congrArg _ (((h.report es).perm hp).draw_draw hp.symm ns)

end Tree
end RedBlack
