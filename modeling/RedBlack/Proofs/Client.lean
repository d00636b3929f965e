import RedBlack.Cursor
import RedBlack.Entry

/-! Clients of a tree: calls that may change it, one after another, and what each of them did. A
question is a function of the tree and changes nothing, so it is no call here. -/
namespace RedBlack
variable {K V : Type}

inductive Effect (K V : Type) where
  | unchanged
  | edited (h : Handle)
  | added (h : Handle) (k : K) (v : V)
  | deleted (h : Handle)
  | cleared
  deriving DecidableEq

/-- What a client has in hand of a tree. -/
inductive Hold (K : Type) where
  | nothing
  | entry (e : Entry K)
  | value (h : Handle)
  | cursor (c : Cursor)

inductive Entry.Call (V : Type) where
  | andModify (f : V → V)
  | orInsert (default : V)
  | orInsertWith (default : Unit → V)
  | modify (f : V → V)
  | insert (v : V)
  | remove

inductive Cursor.Call (V : Type) where
  | step (a : Side)
  | modify (f : V → V)
  | replace (v : V)
  | remove

inductive Call (K V : Type) where
  | insert (k : K) (v : V)
  | delete (h : Handle)
  | remove (k : K)
  | clear
  | modify (k : K) (f : V → V)
  | modifyAt (h : Handle) (f : V → V)
  | replaceAt (h : Handle) (v : V)
  | entry (k : K)
  | cursor (s : Start K)
  | onEntry (c : Entry.Call V)
  | onValue (f : V → V)
  | onCursor (c : Cursor.Call V)

def Effect.found {α : Type} (eff : Effect K V) : Option α → Effect K V
  | some _ => eff
  | none => .unchanged

def Effect.accepted {α : Type} (eff : Handle → Effect K V) (c : Cursor) :
    Except Refusal α → Effect K V
  | .ok _ => (c.node.map eff).getD .unchanged
  | .error _ => .unchanged

def Entry.effect (e : Entry K) (occupied : Handle → Effect K V) (vacant : K → Effect K V) :
    Effect K V :=
  match e with
  | .occupied h => occupied h
  | .vacant k => vacant k

def Entry.call (e : Entry K) : Entry.Call V → Edit K V (Effect K V × Hold K)
  | .andModify f => do
    let e' ← e.andModify f
    return (e.effect .edited fun _ => .unchanged, .entry e')
  | .orInsert default => do
    let h ← e.orInsert default
    return (e.effect (fun _ => .unchanged) fun k => .added h k default, .value h)
  | .orInsertWith default => do
    let (h, _) ← (e.orInsertWith fun _ => (default (), ())).run ()
    return (e.effect (fun _ => .unchanged) fun k => .added h k (default ()), .value h)
  | .modify f =>
    match e with
    | .occupied h => do
      let _ ← Edit.modifyValue h f
      return (.edited h, .entry e)
    | .vacant _ => return (.unchanged, .entry e)
  | .insert v =>
    match e with
    | .occupied h => do
      let _ ← Edit.replaceValue h v
      return (.edited h, .entry e)
    | .vacant k => do
      let h ← Edit.insert k v
      return (.added h k v, .value h)
  | .remove =>
    match e with
    | .occupied h => do
      let _ ← Edit.removeEntry h
      return (.deleted h, .nothing)
    | .vacant _ => return (.unchanged, .entry e)

def Cursor.call (c : Cursor) : Cursor.Call V → Edit K V (Effect K V × Hold K)
  | .step a => do
    match ← Act.look (c.step a) with
    | .ok c' => return (.unchanged, .cursor c')
    | .error _ => return (.unchanged, .cursor c)
  | .modify f => do
    let r ← c.modify f
    return (.accepted .edited c r, .cursor c)
  | .replace v => do
    let r ← c.replace v
    return (.accepted .edited c r, .cursor c)
  | .remove => do
    let r ← c.remove
    return (.accepted .deleted c r, .cursor (match r with | .ok (_, c') => c' | .error _ => c))

def Call.act : Call K V → Hold K → Edit K V (Effect K V × Hold K)
  | .insert k v, _ => do
    let h ← Edit.insert k v
    return (.added h k v, .nothing)
  | .delete h, _ => do
    let e ← Edit.delete h
    return (.found (.deleted h) e, .nothing)
  | .remove k, _ => do
    let found ← Act.look (·.search k)
    let _ ← Edit.remove k
    return ((found.map .deleted).getD .unchanged, .nothing)
  | .clear, _ => do
    Edit.clear
    return (.cleared, .nothing)
  | .modify k f, _ => do
    match ← Act.look (·.search k) with
    | none => return (.unchanged, .nothing)
    | some h =>
      let _ ← Edit.modifyValue h f
      return (.edited h, .nothing)
  | .modifyAt h f, _ => do
    let v ← Edit.modifyAt? h f
    return (.found (.edited h) v, .nothing)
  | .replaceAt h v, _ => do
    let old ← Edit.replaceAt? h v
    return (.found (.edited h) old, .nothing)
  | .entry k, _ => return (.unchanged, .entry (← Act.look (·.entry k)))
  | .cursor s, _ => return (.unchanged, .cursor (← Act.look fun t => Cursor.start t s))
  | .onEntry c, .entry e => e.call c
  | .onValue f, .value h => do
    let _ ← Edit.modifyValue h f
    return (.edited h, .value h)
  | .onCursor c, .cursor cur => cur.call c
  | .onEntry _, hold | .onValue _, hold | .onCursor _, hold => return (.unchanged, hold)

structure Client (K V : Type) where
  tree : Tree K V
  hold : Hold K

namespace Client

def fresh (order : KeyOrder K) (w : Width) : Client K V := ⟨.empty order w, .nothing⟩

def step (s : Client K V) (c : Call K V) : Except Failure (Effect K V) × Client K V :=
  match (c.act s.hold).run s.tree with
  | .ok (eff, hold) t => (.ok eff, ⟨t, hold⟩)
  | .error e t => (.error e, ⟨t, .nothing⟩)

def effect (s : Client K V) (c : Call K V) : Effect K V :=
  match (s.step c).1 with
  | .ok eff => eff
  | .error _ => .unchanged

/-- The client after some calls. It goes on after a call that fails. -/
def run : List (Call K V) → Client K V → Client K V
  | [], s => s
  | c :: cs, s => run cs (s.step c).2

def effects : List (Call K V) → Client K V → List (Effect K V)
  | [], _ => []
  | c :: cs, s => s.effect c :: effects cs (s.step c).2

end Client
end RedBlack
