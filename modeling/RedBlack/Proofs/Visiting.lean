import RedBlack.Proofs.Faultless

/-! Traversals. A visitor is shown the entries in order until it wants no more. What it answers may depend
on all that it was shown before. -/
namespace RedBlack
variable {K V α β : Type}

/-- Is shown one thing after another. Answers each time whether it wants another one, and hands on what it
has gathered. -/
abbrev Visitor (β α : Type) := β → α → Bool × β

namespace Visitor

def gathered (visit : Visitor β α) (b : β) (l : List α) : β := l.foldl (fun b a => (visit b a).2) b

def Stops (visit : Visitor β α) (b : β) (l : List α) : Prop :=
  ∃ before a, l = before ++ [a] ∧ (visit (visit.gathered b before) a).1 = false

/-- Of `l` the visitor is shown a beginning: the shortest after which it wants no more, or all of `l` if it
always wants more. -/
structure Shown (visit : Visitor β α) (b : β) (l shown : List α) : Prop where
  beginning : shown <+: l
  enough : shown = l ∨ visit.Stops b shown
  shortest : ∀ q, q <+: l → visit.Stops b q → shown <+: q

def act {σ : Type} (visit : Visitor β α) (b : β) (a : α) : Act σ (Bool × β) := return visit b a

def listed (visit : Visitor β α) : Visitor (β × List α) α := fun (b, seen) a =>
  ((visit b a).1, (visit b a).2, a :: seen)

variable {visit : Visitor β α} {b : β} {a : α} {l : List α}

theorem stops_cons :
    visit.Stops b (a :: l) ↔ l = [] ∧ (visit b a).1 = false ∨ visit.Stops (visit b a).2 l := by
  constructor
  · rintro ⟨before, c, heq, hstop⟩
    cases before with
    | nil =>
      obtain ⟨rfl, rfl⟩ := List.cons.inj heq
      exact .inl ⟨rfl, hstop⟩
    | cons d before =>
      obtain ⟨rfl, rfl⟩ := List.cons.inj heq
      exact .inr ⟨before, c, rfl, hstop⟩
  · rintro (⟨rfl, hstop⟩ | ⟨before, c, rfl, hstop⟩)
    · exact ⟨[], a, rfl, hstop⟩
    · exact ⟨a :: before, c, rfl, hstop⟩

theorem not_stops_nil : ¬ visit.Stops b [] := by
  rintro ⟨before, c, heq, -⟩
  exact List.append_ne_nil_of_right_ne_nil before (List.cons_ne_nil c []) heq.symm

theorem shown_nil : visit.Shown b [] [] := ⟨List.prefix_rfl, .inl rfl, fun _ _ _ => List.nil_prefix⟩

theorem shown_stop (h : (visit b a).1 = false) : visit.Shown b (a :: l) [a] := by
  refine ⟨⟨l, rfl⟩, .inr (stops_cons.2 (.inl ⟨rfl, h⟩)), fun q hq hstop => ?_⟩
  cases q with
  | nil => exact absurd hstop not_stops_nil
  | cons c q =>
    obtain ⟨rfl, -⟩ := List.cons_prefix_cons.1 hq
    exact ⟨q, rfl⟩

theorem shown_onward {shown : List α} (h : (visit b a).1 = true)
    (hl : visit.Shown (visit b a).2 l shown) : visit.Shown b (a :: l) (a :: shown) := by
  refine ⟨List.cons_prefix_cons.2 ⟨rfl, hl.beginning⟩, ?_, fun q hq hstop => ?_⟩
  · rcases hl.enough with rfl | hstop
    · exact .inl rfl
    · exact .inr (stops_cons.2 (.inr hstop))
  · cases q with
    | nil => exact absurd hstop not_stops_nil
    | cons c q =>
      obtain ⟨rfl, hrest⟩ := List.cons_prefix_cons.1 hq
      rcases stops_cons.1 hstop with ⟨-, hno⟩ | hstop
      · rw [h] at hno
        cases hno
      · exact List.cons_prefix_cons.2 ⟨rfl, hl.shortest q hrest hstop⟩

theorem Shown.unique {shown shown' : List α} (h : visit.Shown b l shown) (h' : visit.Shown b l shown') :
    shown = shown' := by
  have hle {p q : List α} (hp : visit.Shown b l p) (hq : visit.Shown b l q) : p <+: q := by
    rcases hq.enough with rfl | hstop
    · exact hp.beginning
    · exact hp.shortest q hq.beginning hstop
  exact (hle h h').eq_of_length_le (hle h' h).length_le

theorem gathered_listed (seen : List α) :
    visit.listed.gathered (b, seen) l = (visit.gathered b l, l.reverse ++ seen) := by
  induction l generalizing b seen with
  | nil => rfl
  | cons a l ih =>
    rw [List.reverse_cons, List.append_assoc]
    exact ih (a :: seen)

theorem stops_listed {seen : List α} : visit.listed.Stops (b, seen) l ↔ visit.Stops b l := by
  simp only [Stops, gathered_listed]
  rfl

theorem Shown.listed {shown seen : List α} (h : visit.listed.Shown (b, seen) l shown) :
    visit.Shown b l shown :=
  ⟨h.beginning, h.enough.imp_right stops_listed.1, fun q hq hstop => h.shortest q hq (stops_listed.2 hstop)⟩

end Visitor

theorem exists_visits_shown (visit : Visitor β α) (f : K × V → α) (es : List (K × V)) (b : β) :
    ∃ shown, visit.Shown b (es.map f) shown ∧ ∀ (σ : Type) (s : σ),
      (visits (fun b k v => visit.act b (f (k, v))) es b).run s = .ok (visit.gathered b shown) s := by
  induction es generalizing b with
  | nil => exact ⟨[], Visitor.shown_nil, fun _ _ => rfl⟩
  | cons e es ih =>
    simp only [Visitor.act, run_visits_cons]
    cases honward : (visit b (f e)).1 with
    | false => exact ⟨[f e], Visitor.shown_stop honward, fun σ s => rfl⟩
    | true =>
      obtain ⟨shown, hshown, hrun⟩ := ih (visit b (f e)).2
      exact ⟨f e :: shown, Visitor.shown_onward honward hshown, hrun⟩

theorem exists_visits_listed (visit : Visitor β α) (f : K × V → α) (es : List (K × V)) (b : β) :
    ∃ shown, visit.Shown b (es.map f) shown ∧ ∀ (σ : Type) (s : σ),
      (visits (fun b k v => visit.listed.act b (f (k, v))) es (b, [])).run s =
        .ok (visit.gathered b shown, shown.reverse) s := by
  obtain ⟨shown, hshown, hrun⟩ := exists_visits_shown visit.listed f es (b, [])
  rw [Visitor.gathered_listed, List.append_nil] at hrun
  exact ⟨shown, hshown.listed, hrun⟩

namespace Tree.Sound
variable {t : Tree K V}

theorem increasing (hs : t.Sound) :
    (t.inorder.map Prod.snd).Pairwise fun a b => t.order.compare a.1 b.1 = .lt := hs.lists.increasing

theorem exists_traverse_listed (hs : t.Sound) (visit : Visitor β (K × V)) (b : β) :
    ∃ shown, visit.Shown b (t.inorder.map Prod.snd) shown ∧ ∀ (σ : Type) (s : σ),
      (t.traverse (fun b k v => visit.listed.act b (k, v)) (b, [])).run s =
        .ok (visit.gathered b shown, shown.reverse) s := by
  obtain ⟨shown, hshown, hrun⟩ := exists_visits_listed visit id (t.inorder.map Prod.snd) b
  rw [List.map_id] at hshown
  exact ⟨shown, hshown, fun σ s => (hs.traverse _ _ s).trans (hrun σ s)⟩

end Tree.Sound

namespace Map
variable {m : Map K V} {strategy : Strategy}

theorem Rests.outcome_traverse (h : m.Rests strategy) {visit : β → K → V → Act (Map K V) (Bool × β)}
    {b b' : β} (hrun : ∀ m' : Map K V,
      (visits visit (m.content.inorder.map Prod.snd) b).run m' = .ok b' m') :
    (Map.traverse visit b).outcome m = (.ok b', m) := by
  refine Act.outcome_ok (Lock.run_read_quiet (x := .ok b') h.not_exclusive fun _ => ?_)
  exact (h.content.traverse visit b _).trans (hrun _)

theorem Rests.exists_traverse_listed (h : m.Rests strategy) (visit : Visitor β (K × V)) (b : β) :
    ∃ shown, visit.Shown b (m.content.inorder.map Prod.snd) shown ∧
      (Map.traverse (fun b k v => visit.listed.act b (k, v)) (b, [])).outcome m =
        (.ok (visit.gathered b shown, shown.reverse), m) := by
  obtain ⟨shown, hshown, hrun⟩ := exists_visits_listed visit id (m.content.inorder.map Prod.snd) b
  rw [List.map_id] at hshown
  exact ⟨shown, hshown, h.outcome_traverse (hrun _)⟩

end Map

namespace KeySet
variable {s : KeySet K} {strategy : Strategy}

theorem exists_traverse_listed (h : Map.Rests strategy s) (visit : Visitor β K) (b : β) :
    ∃ shown, visit.Shown b ((s.content.inorder.map Prod.snd).map Prod.fst) shown ∧
      (KeySet.traverse visit.listed.act (b, [])).outcome s =
        (.ok (visit.gathered b shown, shown.reverse), s) := by
  obtain ⟨shown, hshown, hrun⟩ :=
    exists_visits_listed visit Prod.fst (s.content.inorder.map Prod.snd) b
  exact ⟨shown, hshown, h.outcome_traverse (hrun _)⟩

end KeySet

/-- A traversal of a tree, a map or a set that is reached shows its visitor the entries that an iterator
gives, in the order of the keys: the shortest beginning after which the visitor wants no more, or all of
them if it always wants more. All stays as it is. Of a tree this holds whatever the visitor does besides,
and whether or not it fails: a traversal is the walk over the list of the entries. -/
theorem traversals_show_beginning [Text.Describe K] [Text.Describe V] (order : KeyOrder K)
    [Std.TransCmp order.compare] :
    (∀ (w : Width) (t : Tree K V), t.Reached order w → ∃ es, t.toList = .ok es ∧
        es.Pairwise (fun a b => t.order.compare a.1 b.1 = .lt) ∧
        (∀ (σ β : Type) (visit : β → K → V → Act σ (Bool × β)) b s,
          (t.traverse visit b).run s = (visits visit es b).run s) ∧
        ∀ (β : Type) (visit : Visitor β (K × V)) b, ∃ shown, visit.Shown b es shown ∧
          ∀ (σ : Type) (s : σ), (t.traverse (fun b k v => visit.listed.act b (k, v)) (b, [])).run s =
            .ok (visit.gathered b shown, shown.reverse) s) ∧
      (∀ (strategy : Strategy) (m : Map K V), m.Reached strategy order → ∃ es,
        Map.toList.outcome m = (.ok es, m) ∧
        es.Pairwise (fun a b => m.content.order.compare a.1 b.1 = .lt) ∧
        ∀ (β : Type) (visit : Visitor β (K × V)) b, ∃ shown, visit.Shown b es shown ∧
          (Map.traverse (fun b k v => visit.listed.act b (k, v)) (b, [])).outcome m =
            (.ok (visit.gathered b shown, shown.reverse), m)) ∧
      ∀ (strategy : Strategy) (s : KeySet K), KeySet.Reached strategy order s → ∃ ks,
        KeySet.toList.outcome s = (.ok ks, s) ∧
        ks.Pairwise (fun a b => s.content.order.compare a b = .lt) ∧
        ∀ (β : Type) (visit : Visitor β K) b, ∃ shown, visit.Shown b ks shown ∧
          (KeySet.traverse visit.listed.act (b, [])).outcome s =
            (.ok (visit.gathered b shown, shown.reverse), s) := by
  refine ⟨fun w t h => ?_, fun strategy m h => ?_, fun strategy s h => ?_⟩
  · have hs := h.sound
    exact ⟨_, hs.toList, hs.increasing, fun σ β => hs.traverse, fun β => hs.exists_traverse_listed⟩
  · have hrests := h.rests
    exact ⟨_, hrests.outcome_toList, hrests.content.increasing, fun β => hrests.exists_traverse_listed⟩
  · have hrests := h.rests
    exact ⟨_, KeySet.outcome_toList_of_rests hrests,
      hrests.content.increasing.map Prod.fst fun _ _ hab => hab,
      fun β => KeySet.exists_traverse_listed hrests⟩

theorem traversals_show_beginning_natural :
    let t := ((Client.fresh .natural .halfWord : Client Int64 String).run
      [.insert 3 "c", .insert 1 "a", .insert 2 "b"]).tree
    let s := ((SetCommand.extend [3, 1, 2]).run.outcome (.empty .synchronized .natural : KeySet Int64)).2
    let sums : Visitor Int64 Int64 := fun sum k => (decide (sum + k < 3), sum + k)
    let entrySums : Visitor Int64 (Int64 × String) := fun sum e => sums sum e.1
    (entrySums.Shown 0 [(1, "a"), (2, "b"), (3, "c")] [(1, "a"), (2, "b")] ∧
        (t.traverse (fun b k v => entrySums.listed.act b (k, v)) (0, [])).run () =
          .ok (3, [(2, "b"), (1, "a")]) ()) ∧
      sums.Shown 0 [1, 2, 3] [1, 2] ∧
        (KeySet.traverse sums.listed.act (0, [])).outcome s = (.ok (3, [2, 1]), s) := by
  intro t s sums entrySums
  obtain ⟨htree, -, hset⟩ := traversals_show_beginning (V := String) (.natural : KeyOrder Int64)
  have ht : t.Reached .natural .halfWord := .calls .empty _
  have hs : KeySet.Reached .synchronized .natural s := .command .empty _
  have hentries : t.inorder.map Prod.snd = [(1, "a"), (2, "b"), (3, "c")] := by decide +kernel
  have hkeys : (s.content.inorder.map Prod.snd).map Prod.fst = [1, 2, 3] := by decide +kernel
  have hshownEntries : entrySums.Shown 0 [(1, "a"), (2, "b"), (3, "c")] [(1, "a"), (2, "b")] :=
    Visitor.shown_onward rfl (Visitor.shown_stop rfl)
  have hshownKeys : sums.Shown 0 [1, 2, 3] [1, 2] := Visitor.shown_onward rfl (Visitor.shown_stop rfl)
  obtain ⟨es, hes, -, -, hshow⟩ := htree .halfWord t ht
  obtain ⟨shown, hshown, hrun⟩ := hshow Int64 entrySums 0
  rw [Except.ok.inj (hes.symm.trans ht.sound.toList), hentries] at hshown
  obtain rfl := hshownEntries.unique hshown
  obtain ⟨ks, hks, -, hshow⟩ := hset .synchronized s hs
  obtain ⟨seen, hseen, houtcome⟩ := hshow Int64 sums 0
  have hgiven := hks.symm.trans (KeySet.outcome_toList_of_rests hs.rests)
  rw [Except.ok.inj (congrArg Prod.fst hgiven), hkeys] at hseen
  obtain rfl := hshownKeys.unique hseen
  exact ⟨⟨hshownEntries, hrun Unit ()⟩, hshownKeys, houtcome⟩

end RedBlack
