import RedBlack.Failure
import RedBlack.Strategy

/-! Access to guarded contents: shared for reading, exclusive for changing, for one call at a time. -/
namespace RedBlack

inductive Borrow where
  | idle
  | shared (others : Nat)
  | exclusive
  deriving DecidableEq

structure Lock (α : Type) where
  strategy : Strategy
  content : α
  borrow : Borrow

namespace Lock
variable {α β : Type}

def wrap (strategy : Strategy) (content : α) : Lock α := ⟨strategy, content, .idle⟩

/-- What comes of a call that is in its own way. The unsynchronized guard notes who is at the contents, and
fails. For the synchronized one the documented behavior of a fair reader-writer lock is taken: shared access
is given beside shared access as long as nobody waits for exclusive access, and whoever is not given access
waits until the others have let go. With one caller nobody else waits; a call from within another that is
not given access waits for that one, and so for ever. -/
def conflict (l : Lock α) : Failure :=
  match l.strategy with
  | .unsynchronized => .reentered
  | .synchronized => .deadlocked

def bracket (acquired released : Borrow) (body : Act (Lock α) β) : Act (Lock α) β := fun l =>
  match body.run { l with borrow := acquired } with
  | .ok b l' => .ok b { l' with borrow := released }
  | .error e l' => .error e { l' with borrow := released }

def read (body : α → Act (Lock α) β) : Act (Lock α) β := fun l =>
  match l.borrow with
  | .idle => (bracket (.shared 0) .idle (body l.content)).run l
  | .shared n => (bracket (.shared (n + 1)) (.shared n) (body l.content)).run l
  | .exclusive => .error l.conflict l

def write (body : Act (Lock α) β) : Act (Lock α) β := fun l =>
  match l.borrow with
  | .idle => (bracket .exclusive .idle body).run l
  | .shared _ | .exclusive => .error l.conflict l

/-- Works on the contents where access is certain: inside `write`, and for the sole owner. -/
def within (act : Act α β) : Act (Lock α) β := fun l =>
  match act.run l.content with
  | .ok b a => .ok b { l with content := a }
  | .error e a => .error e { l with content := a }

def query (f : α → Except Failure β) : Act (Lock α) β := read fun a => Act.look fun _ => f a

def update (act : Act α β) : Act (Lock α) β := write (within act)

variable {l : Lock α}

theorem outcome_query (h : l.borrow = .idle) (f : α → Except Failure β) :
    (query f).outcome l = (f l.content, l) := by
  obtain ⟨strategy, content, borrow⟩ := l
  obtain rfl : borrow = .idle := h
  unfold query read bracket Act.outcome EStateM.run
  dsimp only
  rw [Act.look]
  cases f content <;> rfl

theorem outcome_update (h : l.borrow = .idle) (act : Act α β) :
    (update act).outcome l =
      ((act.outcome l.content).1, { l with content := (act.outcome l.content).2 }) := by
  obtain ⟨strategy, content, borrow⟩ := l
  obtain rfl : borrow = .idle := h
  unfold update write bracket within Act.outcome EStateM.run
  dsimp only
  cases act content <;> rfl

theorem outcome_update_ok (h : l.borrow = .idle) {act : Act α β} {a : α} {b : β}
    (hrun : act.run l.content = .ok b a) : (update act).outcome l = (.ok b, { l with content := a }) := by
  rw [outcome_update h, Act.outcome_ok hrun]

theorem outcome_update_error (h : l.borrow = .idle) {act : Act α β} {a : α} {e : Failure}
    (hrun : act.run l.content = .error e a) :
    (update act).outcome l = (.error e, { l with content := a }) := by
  rw [outcome_update h, Act.outcome_error hrun]

end Lock
end RedBlack
