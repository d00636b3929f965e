import RedBlack.Lock

/-! How operations end: with an answer or with a failure, and in both cases in a state that keeps an
invariant. What is known of the parts of an operation is put together along its sequence. -/
namespace RedBlack
variable {σ α β : Type}

def Answers (x : Except Failure α) (P : α → Prop) : Prop := ∃ a, x = .ok a ∧ P a

namespace Answers
variable {x : Except Failure α} {a : α} {P : α → Prop} {Q : β → Prop}

theorem of_ok (h : x = .ok a) : Answers x fun _ => True := ⟨a, h, trivial⟩

theorem pure (h : P a) : Answers (Pure.pure a) P := ⟨a, rfl, h⟩

theorem bind {k : α → Except Failure β} (h : Answers x P) (hk : ∀ a, P a → Answers (k a) Q) :
    Answers (x >>= k) Q := by
  obtain ⟨a, hx, ha⟩ := h
  obtain ⟨b, hb, hq⟩ := hk a ha
  exact ⟨b, Act.ok_then hx hb, hq⟩

theorem map {f : α → β} (h : Answers x P) : Answers (do return f (← x)) fun _ => True :=
  h.bind fun _ _ => pure trivial

theorem mapM {f : α → Except Failure β} {as : List α} (h : ∀ a ∈ as, Answers (f a) fun _ => True) :
    Answers (as.mapM f) fun _ => True := by
  induction as with
  | nil => exact ⟨[], rfl, trivial⟩
  | cons a as ih =>
    rw [List.mapM_cons]
    refine (h a List.mem_cons_self).bind fun b _ => ?_
    refine (ih fun a ha => h a (List.mem_cons_of_mem _ ha)).bind fun bs _ => ?_
    exact pure trivial

end Answers

namespace Act

/-- The operation keeps the invariant `I`, fails only as `E` allows, and otherwise `Q` holds. -/
inductive Ends (I : σ → Prop) (E : Failure → Prop) (Q : α → σ → Prop) :
    EStateM.Result Failure σ α → Prop
  | answer {a : α} {s : σ} (kept : I s) (holds : Q a s) : Ends I E Q (.ok a s)
  | failure {e : Failure} {s : σ} (kept : I s) (allowed : E e) : Ends I E Q (.error e s)

namespace Ends
variable {I : σ → Prop} {E E' : Failure → Prop} {Q Q' : α → σ → Prop} {R : β → σ → Prop} {s s' : σ}
  {act : Act σ α} {r : EStateM.Result Failure σ α}

theorem of_run {a : α} (hrun : act.run s = .ok a s') (kept : I s') (holds : Q a s') :
    Ends I E Q (act.run s) := hrun ▸ .answer kept holds

theorem mono (h : Ends I E Q r) (hE : ∀ e, E e → E' e) (hQ : ∀ a s, Q a s → Q' a s) :
    Ends I E' Q' r := by
  cases h with
  | answer kept holds => exact .answer kept (hQ _ _ holds)
  | failure kept allowed => exact .failure kept (hE _ allowed)

theorem bind {k : α → Act σ β} (h : Ends I E Q (act.run s))
    (hk : ∀ a s', I s' → Q a s' → Ends I E R ((k a).run s')) : Ends I E R ((act >>= k).run s) := by
  rw [EStateM.run_bind]
  generalize act.run s = r at h ⊢
  cases h with
  | answer kept holds => exact hk _ _ kept holds
  | failure kept allowed => exact .failure kept allowed

theorem look_bind {f : σ → Except Failure α} {k : α → Act σ β} {P : α → Prop} (h : Answers (f s) P)
    (hk : ∀ a, P a → Ends I E R ((k a).run s)) : Ends I E R ((Act.look f >>= k).run s) := by
  obtain ⟨a, ha, hp⟩ := h
  rw [look_then ha rfl]
  exact hk a hp

theorem look {f : σ → Except Failure α} (h : ∀ e, f s = .error e → E e) (kept : I s) :
    Ends I E (fun _ _ => True) ((Act.look f).run s) := by
  rw [run_look]
  cases hf : f s with
  | ok a => exact .answer kept trivial
  | error e => exact .failure kept (h e hf)

theorem map {f : α → β} (h : Ends I E Q (act.run s)) :
    Ends I E (fun _ _ => True) ((do return f (← act)).run s) :=
  h.bind fun _ _ kept _ => .answer kept trivial

theorem mapM {f : α → Act σ β} {as : List α} {P : β → Prop}
    (h : ∀ a ∈ as, ∀ s, I s → Ends I E (fun b _ => P b) ((f a).run s)) (kept : I s) :
    Ends I E (fun bs _ => ∀ b ∈ bs, P b) ((as.mapM f).run s) := by
  induction as generalizing s with
  | nil => exact .answer kept fun _ hb => absurd hb List.not_mem_nil
  | cons a as ih =>
    rw [List.mapM_cons]
    refine (h a List.mem_cons_self s kept).bind fun b s kept hb => ?_
    refine (ih (fun a ha => h a (List.mem_cons_of_mem _ ha)) kept).bind fun bs s kept hbs => ?_
    exact .answer kept (List.forall_mem_cons.2 ⟨hb, hbs⟩)

theorem forM {f : α → Act σ PUnit} {as : List α}
    (h : ∀ a ∈ as, ∀ s, I s → Ends I E (fun _ _ => True) ((f a).run s)) (kept : I s) :
    Ends I E (fun _ _ => True) ((as.forM f).run s) := by
  induction as generalizing s with
  | nil => exact .answer kept trivial
  | cons a as ih =>
    refine (h a List.mem_cons_self s kept).bind fun b s kept hb => ?_
    exact ih (fun a ha => h a (List.mem_cons_of_mem _ ha)) kept

theorem kept (h : Ends I E Q (act.run s)) : I (act.outcome s).2 := by
  unfold outcome
  generalize act.run s = r at h ⊢
  cases h with
  | answer kept holds => exact kept
  | failure kept allowed => exact kept

theorem allowed (h : Ends I E Q (act.run s)) {e : Failure} (he : (act.outcome s).1 = .error e) : E e := by
  unfold outcome at he
  generalize act.run s = r at h he
  cases h with
  | answer kept holds => cases he
  | failure kept allowed => exact Except.error.inj he ▸ allowed

theorem holds (h : Ends I E Q (act.run s)) {a : α} (ha : (act.outcome s).1 = .ok a) :
    Q a (act.outcome s).2 := by
  unfold outcome at ha ⊢
  generalize act.run s = r at h ha ⊢
  cases h with
  | answer kept holds => exact Except.ok.inj ha ▸ holds
  | failure kept allowed => cases ha

theorem attempt (h : Ends I E Q (act.run s)) :
    Ends I (fun _ => False) (fun r _ => ∀ e, r = .error e → E e) (act.attempt.run s) :=
  of_run (run_attempt act s) h.kept fun _ he => h.allowed he

end Ends

def Preserves (I : σ → Prop) (act : Act σ α) : Prop :=
  ∀ s, I s → Ends I (fun _ => True) (fun _ _ => True) (act.run s)

namespace Preserves
variable {I : σ → Prop} {act : Act σ α}

theorem pure (a : α) : Preserves I (Pure.pure a : Act σ α) := fun _ h => .answer h trivial

theorem throw (e : Failure) : Preserves I (throw e : Act σ α) := fun _ h => .failure h trivial

theorem look (f : σ → Except Failure α) : Preserves I (Act.look f) := fun _ => .look fun _ _ => trivial

theorem bind {k : α → Act σ β} (hact : Preserves I act) (hk : ∀ a, Preserves I (k a)) :
    Preserves I (act >>= k) := fun s h => (hact s h).bind fun a s' h' _ => hk a s' h'

theorem reading {k : σ → Act σ α} (hk : ∀ s, Preserves I (k s)) : Preserves I (get >>= k) :=
  fun s h => hk s s h

theorem map (hact : Preserves I act) (f : α → β) : Preserves I (do return f (← act)) :=
  hact.bind fun _ => pure _

theorem mapM {f : α → Act σ β} (hf : ∀ a, Preserves I (f a)) (as : List α) :
    Preserves I (as.mapM f) := by
  intro s h
  have hall := Ends.mapM (P := fun _ => True) (fun a (_ : a ∈ as) s h => hf a s h) h
  exact hall.mono (fun _ he => he) fun _ _ _ => trivial

theorem forM {f : α → Act σ PUnit} (hf : ∀ a, Preserves I (f a)) (as : List α) :
    Preserves I (as.forM f) := fun _ h => Ends.forM (fun a _ s h => hf a s h) h

theorem attempt (hact : Preserves I act) : Preserves I act.attempt := fun s h =>
  (hact s h).attempt.mono (fun _ he => he.elim) fun _ _ _ => trivial

theorem kept {s : σ} (hact : Preserves I act) (h : I s) : I (act.outcome s).2 := (hact s h).kept

end Preserves
end Act

/-! ### Guarded contents -/

namespace Lock
variable {P : α → Prop} {E : Failure → Prop} {Q : β → Prop} {l : Lock α} {strategy : Strategy}
  {b b' : Borrow}

open Act (Ends)

structure Keeps (P : α → Prop) (strategy : Strategy) (b : Borrow) (l : Lock α) : Prop where
  content : P l.content
  strategy_eq : l.strategy = strategy
  borrow_eq : l.borrow = b

theorem run_within (act : Act α β) (l : Lock α) :
    (within act).run l = match act.run l.content with
      | .ok r a => .ok r { l with content := a }
      | .error e a => .error e { l with content := a } := rfl

theorem run_bracket (acquired released : Borrow) (body : Act (Lock α) β) (l : Lock α) :
    (bracket acquired released body).run l = match body.run { l with borrow := acquired } with
      | .ok r l' => .ok r { l' with borrow := released }
      | .error e l' => .error e { l' with borrow := released } := rfl

theorem run_read (body : α → Act (Lock α) β) (l : Lock α) :
    (read body).run l = match l.borrow with
      | .idle => (bracket (.shared 0) .idle (body l.content)).run l
      | .shared n => (bracket (.shared (n + 1)) (.shared n) (body l.content)).run l
      | .exclusive => .error l.conflict l := rfl

theorem run_write (body : Act (Lock α) β) (l : Lock α) :
    (write body).run l = match l.borrow with
      | .idle => (bracket .exclusive .idle body).run l
      | .shared _ | .exclusive => .error l.conflict l := rfl

theorem run_update (h : l.borrow = .idle) (act : Act α β) :
    (update act).run l = (within act).run l := by
  obtain ⟨strategy, content, borrow⟩ := l
  obtain rfl : borrow = .idle := h
  rw [update, run_write]
  dsimp only
  rw [run_bracket, run_within, run_within]
  cases act.run content <;> rfl

theorem run_read_quiet (h : l.borrow ≠ .exclusive) {body : α → Act (Lock α) β} {x : Except Failure β}
    (hbody : ∀ n, (body l.content).run { l with borrow := .shared n } =
      (Act.look fun _ => x).run { l with borrow := .shared n }) :
    (read body).run l = (Act.look fun _ => x).run l := by
  obtain ⟨strategy, content, borrow⟩ := l
  rw [run_read]
  cases borrow with
  | idle =>
    dsimp only
    rw [run_bracket, hbody, Act.run_look, Act.run_look]
    cases x <;> rfl
  | shared n =>
    dsimp only
    rw [run_bracket, hbody, Act.run_look, Act.run_look]
    cases x <;> rfl
  | exclusive => exact absurd rfl h

theorem run_query (h : l.borrow ≠ .exclusive) (f : α → Except Failure β) :
    (query f).run l = (Act.look fun _ => f l.content).run l := run_read_quiet h fun _ => rfl

theorem ends_within {R : β → α → Prop} (h : l.Keeps P strategy b) {act : Act α β}
    (hact : Ends P E R (act.run l.content)) :
    Ends (Keeps P strategy b) E (fun r l' => R r l'.content) ((within act).run l) := by
  rw [run_within]
  generalize act.run l.content = r at hact ⊢
  cases hact with
  | answer kept holds => exact Ends.answer ⟨kept, h.strategy_eq, h.borrow_eq⟩ holds
  | failure kept allowed => exact Ends.failure ⟨kept, h.strategy_eq, h.borrow_eq⟩ allowed

theorem ends_bracket (h : l.Keeps P strategy b) {body : Act (Lock α) β} {acquired : Borrow}
    (released : Borrow) (hbody : ∀ l', l'.content = l.content → l'.Keeps P strategy acquired →
      Ends (Keeps P strategy acquired) E (fun r _ => Q r) (body.run l')) :
    Ends (Keeps P strategy released) E (fun r _ => Q r) ((bracket acquired released body).run l) := by
  have hends := hbody { l with borrow := acquired } rfl ⟨h.content, h.strategy_eq, rfl⟩
  rw [run_bracket]
  generalize body.run { l with borrow := acquired } = r at hends ⊢
  cases hends with
  | answer kept holds => exact Ends.answer ⟨kept.content, kept.strategy_eq, rfl⟩ holds
  | failure kept allowed => exact Ends.failure ⟨kept.content, kept.strategy_eq, rfl⟩ allowed

theorem ends_read (h : l.Keeps P strategy b) (hb : b ≠ .exclusive) {body : α → Act (Lock α) β}
    (hbody : ∀ n l', l'.Keeps P strategy (.shared n) →
      Ends (Keeps P strategy (.shared n)) E (fun r _ => Q r) ((body l.content).run l')) :
    Ends (Keeps P strategy b) E (fun r _ => Q r) ((read body).run l) := by
  rw [run_read, h.borrow_eq]
  cases b with
  | idle => exact ends_bracket h .idle fun l' _ => hbody 0 l'
  | shared n => exact ends_bracket h (.shared n) fun l' _ => hbody (n + 1) l'
  | exclusive => exact absurd rfl hb

theorem ends_write (h : l.Keeps P strategy .idle) {body : Act (Lock α) β}
    (hbody : ∀ l', l'.content = l.content → l'.Keeps P strategy .exclusive →
      Ends (Keeps P strategy .exclusive) E (fun r _ => Q r) (body.run l')) :
    Ends (Keeps P strategy .idle) E (fun r _ => Q r) ((write body).run l) := by
  rw [run_write, h.borrow_eq]
  exact ends_bracket h .idle hbody

theorem ends_query (h : l.Keeps P strategy b) (hb : b ≠ .exclusive) {f : α → Except Failure β}
    (hf : Answers (f l.content) Q) :
    Ends (Keeps P strategy b) E (fun r _ => Q r) ((query f).run l) := by
  obtain ⟨r, hr, hq⟩ := hf
  exact ends_read h hb fun n l' h' => .of_run (Act.run_look_ok hr) h' hq

theorem ends_update (h : l.Keeps P strategy .idle) {act : Act α β}
    (hact : Ends P E (fun r _ => Q r) (act.run l.content)) :
    Ends (Keeps P strategy .idle) E (fun r _ => Q r) ((update act).run l) :=
  ends_write h fun _ hl' h' => ends_within h' (hl' ▸ hact)

theorem ends_read_conflict {R : β → Lock α → Prop} (h : l.Keeps P strategy .exclusive)
    (body : α → Act (Lock α) β) :
    Ends (Keeps P strategy .exclusive) (· = l.conflict) R ((read body).run l) := by
  rw [run_read, h.borrow_eq]
  exact .failure h rfl

theorem ends_write_conflict {R : β → Lock α → Prop} (h : l.Keeps P strategy b) (hb : b ≠ .idle)
    (body : Act (Lock α) β) : Ends (Keeps P strategy b) (· = l.conflict) R ((write body).run l) := by
  rw [run_write, h.borrow_eq]
  cases b with
  | idle => exact absurd rfl hb
  | shared n => exact .failure h rfl
  | exclusive => exact .failure h rfl

/-! An invariant of the contents alone stays in whatever use they are. -/

section
variable {act : Act α β} {body : Act (Lock α) β}

open Act (Preserves)

theorem preserves_within (hact : Preserves P act) : Preserves (fun l => P l.content) (within act) := by
  intro l h
  have hends := hact l.content h
  rw [run_within]
  generalize act.run l.content = r at hends ⊢
  cases hends with
  | answer kept => exact .answer kept trivial
  | failure kept => exact .failure kept trivial

theorem preserves_bracket (hbody : Preserves (fun l => P l.content) body) (acquired released : Borrow) :
    Preserves (fun l => P l.content) (bracket acquired released body) := by
  intro l h
  have hends := hbody { l with borrow := acquired } h
  rw [run_bracket]
  generalize body.run { l with borrow := acquired } = r at hends ⊢
  cases hends with
  | answer kept => exact .answer kept trivial
  | failure kept => exact .failure kept trivial

theorem preserves_read {body : α → Act (Lock α) β}
    (hbody : ∀ a, P a → Preserves (fun l => P l.content) (body a)) :
    Preserves (fun l => P l.content) (read body) := by
  intro l h
  rw [run_read]
  cases l.borrow with
  | idle => exact preserves_bracket (hbody _ h) _ _ l h
  | shared n => exact preserves_bracket (hbody _ h) _ _ l h
  | exclusive => exact .failure h trivial

theorem preserves_write (hbody : Preserves (fun l => P l.content) body) :
    Preserves (fun l => P l.content) (write body) := by
  intro l h
  rw [run_write]
  cases l.borrow with
  | idle => exact preserves_bracket hbody _ _ l h
  | shared n => exact .failure h trivial
  | exclusive => exact .failure h trivial

theorem preserves_query (f : α → Except Failure β) : Preserves (fun l => P l.content) (query f) :=
  preserves_read fun _ _ => .look _

theorem preserves_update (hact : Preserves P act) : Preserves (fun l => P l.content) (update act) :=
  preserves_write (preserves_within hact)

end

theorem Keeps.conflict_eq {l' : Lock α} (h : l.Keeps P strategy b) (h' : l'.Keeps P strategy b') :
    l'.conflict = l.conflict := by
  rw [conflict, conflict, h.strategy_eq, h'.strategy_eq]

end Lock
end RedBlack
