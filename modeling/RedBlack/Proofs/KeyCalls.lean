import RedBlack.Map
import RedBlack.Proofs.AssociationList

/-! Calls by key, with the type of the answer: what they do to a tree, to a map, and to an association
list. -/
namespace RedBlack
variable {K V α : Type}

inductive Ask (K V : Type) : Type → Type where
  | get (k : K) : Ask K V (Option V)
  | contains (k : K) : Ask K V Bool
  | first : Ask K V (Option (K × V))
  | last : Ask K V (Option (K × V))
  | size : Ask K V Nat
  | isEmpty : Ask K V Bool

inductive TreeCall (K V : Type) : Type → Type 1 where
  | ask {α : Type} (q : Ask K V α) : TreeCall K V α
  | find (k : K) : TreeCall K V (Option (K × V))
  | insert (k : K) (v : V) : TreeCall K V Unit
  | modify (k : K) (f : V → V) : TreeCall K V (Option V)
  | remove (k : K) : TreeCall K V (Option V)
  | clear : TreeCall K V Unit

inductive MapCall (K V : Type) : Type → Type 1 where
  | ask {α : Type} (q : Ask K V α) : MapCall K V α
  | getWith {β : Type} (k : K) (f : V → β) : MapCall K V (Option β)
  | insert (k : K) (v : V) : MapCall K V (Option V)
  | replace (k : K) (v : V) : MapCall K V (Except Refusal V)
  | remove (k : K) : MapCall K V (Option V)
  | clear : MapCall K V Unit

namespace Ask

def onTree : Ask K V α → Tree K V → Except Failure α
  | get k => (·.get? k)
  | contains k => (·.contains k)
  | first => Tree.min?
  | last => Tree.max?
  | size => fun t => return t.size
  | isEmpty => fun t => return t.isEmpty

def onMap : Ask K V α → Act (Map K V) α
  | get k => Map.get? k
  | contains k => Map.contains k
  | first => Map.first?
  | last => Map.last?
  | size => Map.size
  | isEmpty => Map.isEmpty

def onList (order : KeyOrder K) (l : List (K × V)) : Ask K V α → α
  | get k => (Assoc.find? order k l).map Prod.snd
  | contains k => (Assoc.find? order k l).isSome
  | first => l.head?
  | last => l.getLast?
  | size => l.length
  | isEmpty => l.isEmpty

end Ask

abbrev Assoc.Result (K V α : Type) := Except Failure α × List (K × V)

/-- An insertion of a key that is not there. It is refused where handles of the width have no room for
another entry. -/
def Assoc.add (order : KeyOrder K) (w : Width) (k : K) (v : V) (l : List (K × V)) (a : α) :
    Result K V α :=
  if w.limited && decide (w.max ≤ l.length + 1) then (.error .arenaFull, l)
  else (.ok a, Assoc.insert order k v l)

namespace TreeCall

def onTree : TreeCall K V α → Edit K V α
  | ask q => Act.look q.onTree
  | find k => Act.look (·.find? k)
  | insert k v => do
    let _ ← Edit.insert k v
  | modify k f => do
    match ← Act.look (·.search k) with
    | none => return none
    | some h => return some (← Edit.modifyValue h f)
  | remove k => Edit.remove k
  | clear => Edit.clear

def step (c : TreeCall K V α) (t : Tree K V) : Except Failure α × Tree K V := c.onTree.outcome t

def onList (order : KeyOrder K) (w : Width) : TreeCall K V α → List (K × V) → Assoc.Result K V α
  | ask q, l => (.ok (q.onList order l), l)
  | find k, l => (.ok (Assoc.find? order k l), l)
  | insert k v, l =>
    match Assoc.find? order k l with
    | some _ => (.error .duplicateKey, l)
    | none => Assoc.add order w k v l ()
  | modify k f, l =>
    match Assoc.find? order k l with
    | some (_, v) => (.ok (some (f v)), Assoc.overwrite order k (f v) l)
    | none => (.ok none, l)
  | remove k, l => (.ok ((Assoc.find? order k l).map Prod.snd), Assoc.erase order k l)
  | clear, _ => (.ok (), [])

end TreeCall

namespace MapCall

def onMap : MapCall K V α → Act (Map K V) α
  | ask q => q.onMap
  | getWith k f => Map.getWith? k f
  | insert k v => Map.insert k v
  | replace k v => Map.replace k v
  | remove k => Map.remove k
  | clear => Map.clear

def step (c : MapCall K V α) (m : Map K V) : Except Failure α × Map K V := c.onMap.outcome m

def onList (order : KeyOrder K) (w : Width) : MapCall K V α → List (K × V) → Assoc.Result K V α
  | ask q, l => (.ok (q.onList order l), l)
  | getWith k f, l => (.ok ((Assoc.find? order k l).map fun e => f e.2), l)
  | insert k v, l =>
    match Assoc.find? order k l with
    | some (_, old) => (.ok (some old), Assoc.overwrite order k v l)
    | none => Assoc.add order w k v l none
  | replace k v, l =>
    match Assoc.find? order k l with
    | some (_, old) => (.ok (.ok old), Assoc.overwrite order k v l)
    | none => (.ok (.error .keyNotFound), l)
  | remove k, l => (.ok ((Assoc.find? order k l).map Prod.snd), Assoc.erase order k l)
  | clear, _ => (.ok (), [])

end MapCall

def answers {C : Type → Type 1} {σ : Type} (act : {α : Type} → C α → σ → Except Failure α × σ) :
    List (Σ α, C α) → σ → List (Σ α, Except Failure α)
  | [], _ => []
  | ⟨α, c⟩ :: cs, s => ⟨α, (act c s).1⟩ :: answers act cs (act c s).2

def after {C : Type → Type 1} {σ : Type} (act : {α : Type} → C α → σ → Except Failure α × σ) :
    List (Σ α, C α) → σ → σ
  | [], s => s
  | ⟨_, c⟩ :: cs, s => after act cs (act c s).2

theorem answers_eq {C : Type → Type 1} {σ τ : Type} {act : {α : Type} → C α → σ → Except Failure α × σ}
    {spec : {α : Type} → C α → τ → Except Failure α × τ} {r : σ → τ → Prop}
    (hstep : ∀ {α : Type} (c : C α) {s : σ} {l : τ}, r s l →
      (act c s).1 = (spec c l).1 ∧ r (act c s).2 (spec c l).2)
    {s : σ} {l : τ} (h : r s l) (cs : List (Σ α, C α)) :
    answers act cs s = answers spec cs l ∧ r (after act cs s) (after spec cs l) := by
  -- The relation carries the induction, also past calls that fail.
  induction cs generalizing s l with
  | nil => exact ⟨rfl, h⟩
  | cons c cs ih =>
    obtain ⟨α, c⟩ := c
    obtain ⟨hanswer, hrel⟩ := hstep c h
    obtain ⟨hanswers, hafter⟩ := ih hrel
    rw [answers, answers, after, after, hanswer, hanswers]
    exact ⟨rfl, hafter⟩

end RedBlack
