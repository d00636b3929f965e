import RedBlack.Failure

/-! Loops with a bound on their rounds. A loop that runs out of rounds fails; more rounds than it needs
change nothing. -/
namespace RedBlack

inductive Round (α β : Type) where
  | again (next : α)
  | done (result : β)

/-- Repeats a round, at most so many times after the first. -/
def rounds {m : Type → Type} [Monad m] [MonadExceptOf Failure m] {α β : Type}
    (round : α → m (Round α β)) : Nat → α → m β
  | 0, a => do
    match ← round a with
    | .done b => pure b
    | .again _ => throw (.fault .endless)
  | n + 1, a => do
    match ← round a with
    | .done b => pure b
    | .again next => rounds round n next

namespace Rounds
variable {σ α β : Type}

theorem done {round : α → Except Failure (Round α β)} {a : α} {b : β}
    (h : round a = .ok (.done b)) (n : Nat) : rounds round n a = .ok b := by
  cases n <;> simp only [rounds, h, bind, Except.bind, pure, Except.pure]

theorem again {round : α → Except Failure (Round α β)} {a next : α}
    (h : round a = .ok (.again next)) (n : Nat) :
    rounds round (n + 1) a = rounds round n next := by
  rw [rounds]
  simp only [h, bind, Except.bind]

theorem run_done {round : α → Act σ (Round α β)} {a : α} {b : β} {s s' : σ}
    (h : (round a).run s = .ok (.done b) s') (n : Nat) :
    (rounds round n a).run s = .ok b s' := by
  cases n <;> simp only [rounds, EStateM.run_bind, h, EStateM.run_pure]

theorem run_again {round : α → Act σ (Round α β)} {a next : α} {s s' : σ}
    (h : (round a).run s = .ok (.again next) s') (n : Nat) :
    (rounds round (n + 1) a).run s = (rounds round n next).run s' := by
  rw [rounds]
  simp only [EStateM.run_bind, h]

theorem run_congr {round : α → Act σ (Round α β)} {a : α} {s s' : σ}
    (h : (round a).run s = (round a).run s') (n : Nat) :
    (rounds round n a).run s = (rounds round n a).run s' := by
  cases n <;> simp only [rounds, EStateM.run_bind, h]

theorem run_mono {round : α → Act σ (Round α β)} {n : Nat} {a : α} {b : β} {s s' : σ}
    (h : (rounds round n a).run s = .ok b s') (k : Nat) :
    (rounds round (n + k) a).run s = .ok b s' := by
  induction n generalizing a s with
  | zero =>
    cases hr : (round a).run s with
    | error e t =>
      simp only [rounds, EStateM.run_bind, hr] at h
      cases h
    | ok r t =>
      cases r with
      | done c =>
        rw [run_done hr] at h ⊢
        exact h
      | again next =>
        simp only [rounds, EStateM.run_bind, hr] at h
        cases h
  | succ n ih =>
    cases hr : (round a).run s with
    | error e t =>
      simp only [rounds, EStateM.run_bind, hr] at h
      cases h
    | ok r t =>
      cases r with
      | done c =>
        rw [run_done hr] at h ⊢
        exact h
      | again next =>
        rw [run_again hr] at h
        rw [Nat.succ_add, run_again hr]
        exact ih h

end Rounds
end RedBlack
