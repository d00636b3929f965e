import RedBlack.Handle

/-! Ways in which an operation ends without an answer, and the operations that can end so. -/
namespace RedBlack

inductive Fault where
  | noSlot (h : Handle)
  | noLink (h : Handle)
  | noEntry (h : Handle)
  | endless
  deriving DecidableEq

/-- Ends the operation. The state stays as the operation had made it by then. -/
inductive Failure where
  | duplicateKey
  | arenaFull
  | reentered
  | deadlocked
  | fault (cause : Fault)
  deriving DecidableEq

def Failure.message? : Failure → Option String
  | .duplicateKey => some "key is already present"
  | .arenaFull => some "Reached maximum number of nodes"
  | .reentered | .deadlocked | .fault _ => none

inductive Refusal where
  | invalidCursor
  | keyNotFound
  deriving DecidableEq

def Refusal.message : Refusal → String
  | .invalidCursor => "cursor does not point at an entry"
  | .keyNotFound => "key not found"

abbrev Act (σ : Type) := EStateM Failure σ

namespace Act
variable {σ α : Type}

def look (f : σ → Except Failure α) : Act σ α := fun s =>
  match f s with
  | .ok a => .ok a s
  | .error e => .error e s

def outcome (act : Act σ α) (s : σ) : Except Failure α × σ :=
  match act.run s with
  | .ok a s' => (.ok a, s')
  | .error e s' => (.error e, s')

/-- Goes on after a failure, in the state that the failure left. -/
def attempt (act : Act σ α) : Act σ (Except Failure α) := fun s =>
  .ok (act.outcome s).1 (act.outcome s).2

theorem run_look (f : σ → Except Failure α) (s : σ) :
    (look f).run s = match f s with
      | .ok a => .ok a s
      | .error e => .error e s := rfl

theorem run_look_ok {f : σ → Except Failure α} {s : σ} {a : α} (h : f s = .ok a) :
    (look f).run s = .ok a s := by
  rw [run_look, h]

theorem run_then {β : Type} {act : Act σ α} {k : α → Act σ β} {s s' : σ} {a : α}
    {r : EStateM.Result Failure σ β} (h : act.run s = .ok a s') (hk : (k a).run s' = r) :
    (act >>= k).run s = r := by
  rw [EStateM.run_bind, h]
  exact hk

theorem fail_then {β : Type} {act : Act σ α} {k : α → Act σ β} {s s' : σ} {e : Failure}
    (h : act.run s = .error e s') : (act >>= k).run s = .error e s' := by
  rw [EStateM.run_bind, h]

theorem look_then {β : Type} {f : σ → Except Failure α} {k : α → Act σ β} {s : σ} {a : α}
    {r : EStateM.Result Failure σ β} (h : f s = .ok a) (hk : (k a).run s = r) :
    (look f >>= k).run s = r := run_then (run_look_ok h) hk

theorem if_then {β : Type} {c : Prop} [Decidable c] {act : Act σ Unit} {k : Unit → Act σ β}
    {s s' : σ} {r : EStateM.Result Failure σ β}
    (h : (if c then act else pure () : Act σ Unit).run s = .ok () s') (hk : (k ()).run s' = r) :
    (if c then act >>= k else k ()).run s = r := by
  split at h
  · rw [if_pos ‹c›]
    exact run_then h hk
  · rw [if_neg ‹¬c›]
    cases h
    exact hk

theorem ok_then {β : Type} {x : Except Failure α} {k : α → Except Failure β} {a : α}
    {r : Except Failure β} (h : x = .ok a) (hk : k a = r) : (x >>= k) = r := by
  rw [h]
  exact hk

theorem outcome_ok {act : Act σ α} {s s' : σ} {a : α} (h : act.run s = .ok a s') :
    act.outcome s = (.ok a, s') := by
  rw [outcome, h]

theorem outcome_error {act : Act σ α} {s s' : σ} {e : Failure} (h : act.run s = .error e s') :
    act.outcome s = (.error e, s') := by
  rw [outcome, h]

theorem outcome_congr {act act' : Act σ α} {s : σ} (h : act.run s = act'.run s) :
    act.outcome s = act'.outcome s := by
  rw [outcome, h, outcome]

theorem outcome_bind {β : Type} (act : Act σ α) (k : α → Act σ β) (s : σ) :
    (act >>= k).outcome s = match act.outcome s with
      | (.ok a, s') => (k a).outcome s'
      | (.error e, s') => (.error e, s') := by
  rw [outcome, EStateM.run_bind, outcome]
  cases act.run s <;> rfl

theorem outcome_map {β : Type} (f : α → β) (act : Act σ α) (s : σ) :
    (do return f (← act) : Act σ β).outcome s = ((act.outcome s).1.map f, (act.outcome s).2) := by
  rw [outcome_bind]
  rcases act.outcome s with ⟨x, s'⟩
  cases x <;> rfl

theorem run_attempt (act : Act σ α) (s : σ) :
    act.attempt.run s = .ok (act.outcome s).1 (act.outcome s).2 := rfl

end Act
end RedBlack
