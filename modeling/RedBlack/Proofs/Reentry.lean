import RedBlack.Proofs.Faultless

/-! Calls on a map from within a call on it. They answer as they do alone where all of them only read; else
they fail. The map is then as it was before the outer call, and free for use. -/
namespace RedBlack
variable {K V α β γ : Type}

namespace Lock
variable {l : Lock α} {act : Act (Lock α) β} {a : β} {x : Except Failure β}

/-- The operation shares the contents with others that read them: it answers `a` as it does alone. It leaves
all as it is, and is refused where another changes them. -/
structure Shares (l : Lock α) (act : Act (Lock α) β) (a : β) : Prop where
  answers : ∀ b, b ≠ .exclusive → act.run { l with borrow := b } = .ok a { l with borrow := b }
  refused : act.run { l with borrow := .exclusive } = .error l.conflict { l with borrow := .exclusive }

def Excludes (l : Lock α) (act : Act (Lock α) β) : Prop :=
  ∀ b, b ≠ .idle → act.run { l with borrow := b } = .error l.conflict { l with borrow := b }

theorem shares_read {body : α → Act (Lock α) β} (hbody : ∀ n,
      (body l.content).run { l with borrow := .shared n } = .ok a { l with borrow := .shared n }) :
    Shares l (read body) a := by
  refine ⟨fun b hb => ?_, rfl⟩
  have hquiet : ({ l with borrow := b } : Lock α).borrow ≠ .exclusive := hb
  rw [run_read_quiet (x := .ok a) hquiet hbody]
  rfl

theorem exists_shares_query {f : α → Except Failure β} (hf : Answers (f l.content) fun _ => True) :
    ∃ a, Shares l (query f) a := by
  obtain ⟨a, ha, -⟩ := hf
  exact ⟨a, shares_read fun _ => Act.run_look_ok ha⟩

theorem excludes_write (body : Act (Lock α) β) : Excludes l (write body) := by
  intro b hb
  cases b with
  | idle => exact absurd rfl hb
  | shared n => rfl
  | exclusive => rfl

theorem excludes_update (act : Act α β) : Excludes l (update act) := excludes_write _

theorem exists_shares_map (h : ∃ a, Shares l act a) (f : β → γ) :
    ∃ c, Shares l (do return f (← act)) c := by
  obtain ⟨a, hanswers, hrefused⟩ := h
  exact ⟨f a, fun b hb => Act.run_then (hanswers b hb) rfl, Act.fail_then hrefused⟩

theorem Excludes.bind (h : Excludes l act) {k : β → Act (Lock α) γ} : Excludes l (act >>= k) :=
  fun b hb => Act.fail_then (h b hb)

/-- Called from within, the operation comes to `x` where the contents are read. Where they are changed it is
refused. It leaves all as it is. -/
structure Nests (l : Lock α) (act : Act (Lock α) β) (x : Except Failure β) : Prop where
  shared : ∀ n, act.run { l with borrow := .shared n } =
    (Act.look fun _ => x).run { l with borrow := .shared n }
  exclusive : act.run { l with borrow := .exclusive } = .error l.conflict { l with borrow := .exclusive }

theorem Shares.outcome (h : Shares l act a) (hidle : l.borrow = .idle) : act.outcome l = (.ok a, l) := by
  obtain ⟨strategy, content, borrow⟩ := l
  obtain rfl : borrow = .idle := hidle
  exact Act.outcome_ok (h.answers .idle Borrow.noConfusion)

theorem Shares.nests (h : Shares l act a) : Nests l act (.ok a) :=
  ⟨fun n => h.answers (.shared n) Borrow.noConfusion, h.refused⟩

theorem Excludes.nests (h : Excludes l act) : Nests l act (.error l.conflict) :=
  ⟨fun n => h (.shared n) Borrow.noConfusion, h .exclusive Borrow.noConfusion⟩

theorem Nests.outcome_read (h : l.Nests act x) (hidle : l.borrow = .idle) :
    (read fun _ => act).outcome l = (x, l) := by
  have hrun : (read fun _ => act).run l = (Act.look fun _ => x).run l :=
    run_read_quiet (hidle ▸ Borrow.noConfusion) h.shared
  rw [Act.outcome_congr hrun]
  cases x <;> rfl

theorem Nests.outcome_write (h : l.Nests act x) (hidle : l.borrow = .idle) :
    (write act).outcome l = (.error l.conflict, l) := by
  obtain ⟨strategy, content, borrow⟩ := l
  obtain rfl : borrow = .idle := hidle
  refine Act.outcome_error ?_
  rw [run_write]
  dsimp only
  rw [run_bracket, h.exclusive]

end Lock

/-! ### Walks whose visitor makes a call -/

theorem visits_of_ok {σ : Type} {act : Act σ γ} {a : γ} {s : σ} (hact : act.run s = .ok a s)
    (visit : β → K → V → γ → Bool × β) (es : List (K × V)) (b : β) :
    (visits (fun b k v => do return visit b k v (← act)) es b).run s =
      (visits (fun b k v => return visit b k v a) es b).run s := by
  induction es generalizing b with
  | nil => rfl
  | cons e es ih =>
    rw [run_visits_cons]
    refine Act.run_then (Act.run_then hact rfl) ?_
    dsimp only
    split
    · exact ih _
    · rfl

theorem visits_of_error {σ : Type} {act : Act σ γ} {f : Failure} {s : σ} (hact : act.run s = .error f s)
    (visit : β → K → V → γ → Bool × β) {es : List (K × V)} (hes : es ≠ []) (b : β) :
    (visits (fun b k v => do return visit b k v (← act)) es b).run s = .error f s := by
  obtain ⟨e, es, rfl⟩ := List.exists_cons_of_ne_nil hes
  exact Act.fail_then (Act.fail_then hact)

theorem visits_gathering {σ : Type} (a : γ) (es : List (K × V)) (seen : List γ) (s : σ) :
    (visits (fun seen _ _ => return (true, a :: seen)) es seen).run s =
      .ok (List.replicate es.length a ++ seen) s := by
  induction es generalizing seen with
  | nil => rfl
  | cons e es ih =>
    rw [run_visits_cons (fun seen _ _ => (true, a :: seen)), if_pos rfl, ih, List.length_cons,
      List.replicate_succ', List.append_assoc]
    rfl

namespace Map
variable {m : Map K V} {act : Act (Map K V) γ} {a : γ}

theorem exists_shares_traverse (hs : m.content.Sound) (visit : β → K → V → Bool × β) (b : β) :
    ∃ b', Lock.Shares m (Map.traverse (fun b k v => return visit b k v) b) b' := by
  obtain ⟨b', hrun⟩ := hs.exists_traverse (σ := Map K V) visit b
  exact ⟨b', Lock.shares_read fun _ => hrun _⟩

variable (hs : m.content.Sound) (hidle : m.borrow = .idle)

include hs hidle in
theorem outcome_traverse_shares (hact : Lock.Shares m act a) (visit : β → K → V → γ → Bool × β) (b : β) :
    (Map.traverse (fun b k v => do return visit b k v (← act)) b).outcome m =
      (Map.traverse (fun b k v => return visit b k v a) b).outcome m := by
  have hbusy : m.borrow ≠ .exclusive := hidle ▸ Borrow.noConfusion
  obtain ⟨b', hquiet⟩ := hs.exists_traverse (σ := Map K V) (fun b k v => visit b k v a) b
  have hcalls (n : Nat) : (m.content.traverse (fun b k v => do return visit b k v (← act)) b).run
      { m with borrow := .shared n } = .ok b' { m with borrow := .shared n } := by
    rw [hs.traverse, visits_of_ok (hact.answers _ Borrow.noConfusion), ← hs.traverse]
    exact hquiet _
  refine Act.outcome_congr ?_
  rw [Map.traverse, Map.traverse, Lock.run_read_quiet (x := .ok b') hbusy hcalls,
    Lock.run_read_quiet (x := .ok b') hbusy fun _ => hquiet _]

include hs hidle in
theorem outcome_traverse_excludes (hact : Lock.Excludes m act) (hsize : m.content.isEmpty = false)
    (visit : β → K → V → γ → Bool × β) (b : β) :
    (Map.traverse (fun b k v => do return visit b k v (← act)) b).outcome m = (.error m.conflict, m) := by
  have hbusy : m.borrow ≠ .exclusive := hidle ▸ Borrow.noConfusion
  have hne : m.content.inorder.map Prod.snd ≠ [] := by
    intro hnil
    rw [Tree.isEmpty, hs.size_eq, List.map_eq_nil_iff.1 hnil] at hsize
    cases hsize
  have hcalls (n : Nat) : (m.content.traverse (fun b k v => do return visit b k v (← act)) b).run
      { m with borrow := .shared n } = .error m.conflict { m with borrow := .shared n } := by
    rw [hs.traverse]
    exact visits_of_error (hact _ Borrow.noConfusion) visit hne b
  exact Act.outcome_error (Lock.run_read_quiet (x := .error m.conflict) hbusy hcalls)

end Map

namespace MapCommand

def reads : MapCommand K V → Bool
  | get _ | getWith _ _ | contains _ | find _ | first | last | lowerBound _ | upperBound _ | size | isEmpty
  | traverse _ | describe _ | read _ => true
  | _ => false

def changes : MapCommand K V → Bool
  | insert _ _ | replace _ _ | remove _ | removeAt _ | clear | write _ => true
  | _ => false

open Lock (exists_shares_map exists_shares_query)

variable [Text.Describe K] [Text.Describe V] {m : Map K V} {c : MapCommand K V}

theorem exists_shares (hs : m.content.Sound) (hc : c.reads) : ∃ a, Lock.Shares m c.run a := by
  have hlists := hs.lists
  cases c with
  | get k => exact exists_shares_map (exists_shares_query (.of_ok (hlists.get? k))) _
  | getWith k f => exact exists_shares_map (exists_shares_query (.map (.of_ok (hlists.get? k)))) _
  | contains k => exact exists_shares_map (exists_shares_query (.of_ok (hlists.contains k))) _
  | find k => exact exists_shares_map (exists_shares_query (hs.answers_seek .exact k)) _
  | first => exact exists_shares_map (exists_shares_query (.of_ok hlists.min?)) _
  | last => exact exists_shares_map (exists_shares_query (.of_ok hlists.max?)) _
  | lowerBound k => exact exists_shares_map (exists_shares_query (.map (hs.answers_seek .lower k))) _
  | upperBound k => exact exists_shares_map (exists_shares_query (.map (hs.answers_seek .upper k))) _
  | size =>
    have hanswers : Answers (pure m.content.size) fun _ => True := .of_ok rfl
    exact exists_shares_map (exists_shares_query hanswers) _
  | isEmpty =>
    have hanswers : Answers (pure m.content.isEmpty) fun _ => True := .of_ok rfl
    exact exists_shares_map (exists_shares_query hanswers) _
  | traverse limit => exact exists_shares_map (Map.exists_shares_traverse hs _ []) _
  | describe l => exact exists_shares_map (exists_shares_query (.map (.of_ok hs.toList))) _
  | read q => exact exists_shares_query (hs.answers_ask q)
  | _ => cases hc

theorem excludes (hc : c.changes) : Lock.Excludes m c.run := by
  cases c with
  | insert k v => exact (Lock.excludes_update _).bind
  | replace k v => exact (Lock.excludes_update _).bind
  | remove k => exact (Lock.excludes_update _).bind
  | removeAt h => exact (Lock.excludes_update _).bind
  | clear => exact (Lock.excludes_update _).bind
  | write c => exact Lock.excludes_update _
  | _ => cases hc

theorem outcome_ne_reentered {strategy : Strategy} (h : m.Rests strategy) (hc : c.reads ∨ c.changes) :
    (c.run.outcome m).1 ≠ .error .reentered := by
  intro he
  rcases (c.ends_run h).allowed he with heq | ⟨heq, -⟩ | ⟨-, outer, inner, rfl⟩
  · cases heq
  · cases heq
  · rcases hc with hc | hc <;> cases hc

end MapCommand

namespace Outer
variable {m : Map K V} {strategy : Strategy} {inner : Act (Map K V) (Answer K V)} {a : Answer K V}

/-- What an outer call makes of the answer to each of the calls within. In a traversal there is one at each of
`n` entries. -/
def gathers (n : Nat) (a : Answer K V) : Outer → Answer K V
  | read | write => a
  | traverse => .many (List.replicate n a)

theorem outcome_of_shares (h : m.Rests strategy) (hinner : Lock.Shares m inner a) {outer : Outer}
    (houter : outer ≠ .write) :
    (outer.run inner).outcome m = (.ok (outer.gathers m.content.size a), m) := by
  cases outer with
  | read => exact hinner.nests.outcome_read h.borrow_eq
  | write => exact absurd rfl houter
  | traverse =>
    have hall (n : Nat) : (m.content.traverse (fun seen _ _ => return (true, a :: seen)) []).run
        { m with borrow := .shared n } =
        .ok (List.replicate m.content.size a) { m with borrow := .shared n } := by
      rw [h.content.traverse, visits_gathering, List.append_nil, List.length_map, h.content.size_eq]
    have hgiven : (Map.traverse (fun seen _ _ => return (true, a :: seen)) []).outcome m =
        (.ok (List.replicate m.content.size a), m) :=
      Act.outcome_ok (Lock.run_read_quiet (x := .ok _) h.not_exclusive hall)
    rw [run, Act.outcome_map, Map.outcome_traverse_shares h.content h.borrow_eq hinner
      fun seen _ _ a => (true, a :: seen), hgiven]
    simp only [Except.map, List.reverse_replicate, gathers]

theorem outcome_of_excludes (h : m.Rests strategy) (hinner : Lock.Excludes m inner) {outer : Outer}
    (hsome : outer = .traverse → m.content.isEmpty = false) :
    (outer.run inner).outcome m = (.error m.conflict, m) := by
  cases outer with
  | read => exact hinner.nests.outcome_read h.borrow_eq
  | write => exact hinner.nests.outcome_write h.borrow_eq
  | traverse =>
    have hfails := Map.outcome_traverse_excludes h.content h.borrow_eq hinner (hsome rfl)
      (fun seen _ _ a => (true, a :: seen)) []
    rw [run, Act.outcome_map, hfails]
    rfl

theorem outcome_traverse_empty (h : m.Rests strategy) (hempty : m.content.isEmpty = true)
    (inner : Act (Map K V) (Answer K V)) : (traverse.run inner).outcome m = (.ok (.many []), m) := by
  have hnil : m.content.inorder = [] := by
    rw [Tree.isEmpty, h.content.size_eq, beq_iff_eq] at hempty
    exact List.eq_nil_of_length_eq_zero hempty
  have hnone (n : Nat) : (m.content.traverse (fun seen _ _ => return (true, (← inner) :: seen)) []).run
      { m with borrow := .shared n } = .ok [] { m with borrow := .shared n } := by
    rw [h.content.traverse, hnil]
    rfl
  have hgiven : (Map.traverse (fun seen _ _ => return (true, (← inner) :: seen)) []).outcome m =
      (.ok [], m) := Act.outcome_ok (Lock.run_read_quiet (x := .ok []) h.not_exclusive hnone)
  rw [run, Act.outcome_map, hgiven]
  rfl

end Outer

/-- An unsynchronized map is called from within a call on it that does nothing else, be it to read, to change
or to traverse. A call within returns what it would return alone, at each entry that a traversal comes to,
exactly if both only read. Else it fails, and the outer call with it. In any case the map is as it was, and
nobody is at it any more. The same holds of a call within that does as its caller pleases, once it may read
or change. A traversal goes by the answers of the calls it makes; where there is no entry it makes none. -/
theorem unsynchronized_reentry [Text.Describe K] [Text.Describe V] (order : KeyOrder K)
    [Std.TransCmp order.compare] {m : Map K V} (h : m.Reached .unsynchronized order) :
    (∀ (outer : Outer) (c : MapCommand K V), c.reads ∨ c.changes →
        (outer = .traverse → m.content.isEmpty = false) →
        let nested := (outer.run c.run).outcome m
        let alone := c.run.outcome m
        (nested.1 = alone.1.map (outer.gathers m.content.size) ↔ outer ≠ .write ∧ c.reads) ∧
          (outer ≠ .write ∧ c.reads → ∃ a, alone = (.ok a, m)) ∧
          (¬ (outer ≠ .write ∧ c.reads) → nested.1 = .error .reentered) ∧
          nested.2 = m ∧ nested.2.borrow = .idle) ∧
      (∀ outer : Outer, (outer = .traverse → m.content.isEmpty = false) →
        (∀ (body : Tree K V → Act (Map K V) (Answer K V)) a,
          (∀ n, (body m.content).run { m with borrow := .shared n } =
            .ok a { m with borrow := .shared n }) →
          (outer.run (Lock.read body)).outcome m =
            if outer = .write then (.error .reentered, m)
            else (.ok (outer.gathers m.content.size a), m)) ∧
        ∀ body, (outer.run (Lock.write body)).outcome m = (.error .reentered, m)) ∧
      (∀ (β : Type) (visit : β → K → V → Answer K V → Bool × β) b (c : MapCommand K V),
        let nested := (Map.traverse (fun b k v => do return visit b k v (← c.run)) b).outcome m
        (c.reads → ∃ a b', c.run.outcome m = (.ok a, m) ∧ nested = (.ok b', m) ∧
          nested = (Map.traverse (fun b k v => return visit b k v a) b).outcome m) ∧
        (c.changes → m.content.isEmpty = false → nested = (.error .reentered, m))) ∧
      (m.content.isEmpty = true → ∀ inner : Act (Map K V) (Answer K V),
        (Outer.traverse.run inner).outcome m = (.ok (.many []), m)) := by
  have hrests := h.rests
  have hs := hrests.content
  have hidle := hrests.borrow_eq
  have hconflict : m.conflict = .reentered := by
    rw [Lock.conflict, hrests.strategy_eq]
  refine ⟨fun outer c hc hsome => ?_, fun outer hsome => ⟨fun body a hbody => ?_, fun body => ?_⟩,
    fun β visit b c => ⟨fun hreads => ?_, fun hchanges hsize => ?_⟩,
    Outer.outcome_traverse_empty hrests⟩
  · intro nested alone
    by_cases hboth : outer ≠ .write ∧ c.reads
    · obtain ⟨a, hshares⟩ := MapCommand.exists_shares hs hboth.2
      have halone : alone = (.ok a, m) := hshares.outcome hidle
      have hnested : nested = _ := Outer.outcome_of_shares hrests hshares hboth.1
      rw [halone, hnested]
      exact ⟨⟨fun _ => hboth, fun _ => rfl⟩, fun _ => ⟨a, rfl⟩, fun hnot => absurd hboth hnot, rfl,
        hidle⟩
    · have hnested : nested = (.error .reentered, m) := by
        rw [← hconflict]
        rcases hc with hreads | hchanges
        · obtain ⟨a, hshares⟩ := MapCommand.exists_shares hs hreads
          obtain rfl : outer = .write := not_not.1 fun houter => hboth ⟨houter, hreads⟩
          exact hshares.nests.outcome_write hidle
        · exact Outer.outcome_of_excludes hrests (MapCommand.excludes hchanges) hsome
      have hne : alone.1 ≠ .error .reentered := c.outcome_ne_reentered hrests hc
      rw [hnested]
      refine ⟨⟨fun heq => ?_, fun h => absurd h hboth⟩, fun h => absurd h hboth, fun _ => rfl, rfl,
        hidle⟩
      cases halone : alone.1 with
      | ok a =>
        rw [halone] at heq
        cases heq
      | error e =>
        rw [halone] at heq hne
        exact absurd (congrArg Except.error (Except.error.inj heq).symm) hne
  · have hshares : Lock.Shares m (Lock.read body) a := Lock.shares_read hbody
    split
    case isTrue houter =>
      subst houter
      rw [← hconflict]
      exact hshares.nests.outcome_write hidle
    case isFalse houter => exact Outer.outcome_of_shares hrests hshares houter
  · rw [← hconflict]
    exact Outer.outcome_of_excludes hrests (Lock.excludes_write body) hsome
  · obtain ⟨a, hshares⟩ := MapCommand.exists_shares hs hreads
    obtain ⟨b', hquiet⟩ := Map.exists_shares_traverse hs (fun b k v => visit b k v a) b
    have heq := Map.outcome_traverse_shares hs hidle hshares visit b
    exact ⟨a, b', hshares.outcome hidle, heq.trans (hquiet.outcome hidle), heq⟩
  · rw [← hconflict]
    exact Map.outcome_traverse_excludes hs hidle (MapCommand.excludes hchanges) hsize visit b

theorem unsynchronized_reentry_natural :
    let m := ((MapCommand.extend [(2, "b"), (1, "a")]).run.outcome
      (.empty .unsynchronized .natural : Map Int64 String)).2
    (Outer.traverse.run (MapCommand.get 1).run).outcome m = (.ok (.many [.value "a", .value "a"]), m) ∧
      (Outer.write.run (MapCommand.get 1).run).outcome m = (.error .reentered, m) ∧
      (Outer.traverse.run (MapCommand.insert 3 "c").run).outcome m = (.error .reentered, m) := by
  intro m
  have hm : m.Reached .unsynchronized .natural := .command .empty _
  have hsome : m.content.isEmpty = false := by decide +kernel
  have hsize : m.content.size = 2 := by decide +kernel
  have hget : m.content.get? 1 = .ok (some "a") := by decide +kernel
  clear_value m
  have halone : (MapCommand.get 1).run.outcome m = (.ok (.value "a"), m) := by
    rw [MapCommand.run, Act.outcome_map, Map.get?, Lock.outcome_query hm.rests.borrow_eq, hget]
    rfl
  obtain ⟨hcalls, -, -, -⟩ := unsynchronized_reentry .natural hm
  obtain ⟨hiff, -, -, hkept, -⟩ := hcalls .traverse (.get 1) (.inl rfl) fun _ => hsome
  obtain ⟨-, -, hfails, hkept', -⟩ := hcalls .write (.get 1) (.inl rfl) Outer.noConfusion
  obtain ⟨-, -, hfails', hkept'', -⟩ := hcalls .traverse (.insert 3 "c") (.inr rfl) fun _ => hsome
  have hboth := hiff.2 ⟨Outer.noConfusion, rfl⟩
  rw [halone, hsize] at hboth
  exact ⟨Prod.ext hboth hkept, Prod.ext (hfails fun h => h.1 rfl) hkept',
    Prod.ext (hfails' fun h => Bool.noConfusion h.2) hkept''⟩

end RedBlack
