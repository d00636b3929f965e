import RedBlack.Text.Describe
import RedBlack.Tree.Delete
import RedBlack.Tree.Insert

/-! The entry of a key: where it is if the tree holds the key, and the key itself if not. -/
namespace RedBlack
open Text

inductive Entry (K : Type) where
  | occupied (handle : Handle)
  | vacant (key : K)

variable {K V : Type}

def Tree.entry (t : Tree K V) (k : K) : Except Failure (Entry K) := do
  match ← t.search k with
  | some h => return .occupied h
  | none => return .vacant k

namespace Entry

def isOccupied : Entry K → Bool
  | .occupied _ => true
  | .vacant _ => false

/-- The stored key if there is one, or else the key that was looked up. -/
def key (t : Tree K V) : Entry K → Except Failure K
  | .occupied h => return (← t.entryOf h).1
  | .vacant k => return k

def key? : Entry K → Option K
  | .occupied _ => none
  | .vacant k => some k

def orInsert (e : Entry K) (default : V) : Edit K V Handle :=
  match e with
  | .occupied h => return h
  | .vacant k => Edit.insert k default

/-- As `orInsert`, with a default that is computed only if it is needed. To compute it may change a state of
the caller's. -/
def orInsertWith {σ : Type} (e : Entry K) (default : StateM σ V) : StateT σ (Edit K V) Handle := do
  match e with
  | .occupied h => return h
  | .vacant k =>
    let (v, s) := default.run (← get)
    set s
    Edit.insert k v

theorem run_orInsertWith_vacant {σ : Type} (k : K) (default : StateM σ V) (s : σ) :
    ((vacant k).orInsertWith default).run s =
      (do return (← Edit.insert k (default.run s).1, (default.run s).2) : Edit K V (Handle × σ)) := rfl

def andModify (e : Entry K) (f : V → V) : Edit K V (Entry K) := do
  match e with
  | .occupied h =>
    let _ ← Edit.modifyValue h f
    return .occupied h
  | .vacant k => return .vacant k

def doc [Describe K] [Describe V] (t : Tree K V) : Entry K → Except Failure Doc
  | .occupied h => do
    let e ← t.entryOf h
    return .record "OccupiedEntry" [("key", Describe.doc e.1), ("value", Describe.doc e.2)]
  | .vacant k => return .call "VacantEntry" [Describe.doc k]

end Entry

namespace Edit

def replaceValue (h : Handle) (v : V) : Edit K V V := do
  let e ← Act.look (·.entryOf h)
  modifySlot h (Slot.withValue v)
  return e.2

def removeEntry (h : Handle) : Edit K V (K × V) := do
  match ← delete h with
  | some e => return e
  | none => throw (.fault (.noEntry h))

def upsert (e : Entry K) (v : V) : Edit K V (Option V) := do
  match e with
  | .occupied h => return some (← replaceValue h v)
  | .vacant k =>
    let _ ← insert k v
    return none

end Edit
end RedBlack
