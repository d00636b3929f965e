import RedBlack.Tree.Rebalance
import RedBlack.Tree.Search

/-! Insertion of a key that the tree does not hold. -/
namespace RedBlack.Tree
variable {K V : Type}

def compareAt (t : Tree K V) (x y : Handle) : Except Failure Ordering := do
  return t.order.compare (← t.entryOf x).1 (← t.entryOf y).1

/-- Walks from the root to where the entry at `z` belongs; answers with the last entry on the way, nil
in an empty tree. -/
def parentFor (t : Tree K V) (z : Handle) : Except Failure Handle :=
  rounds (fun (x, above) => do
    if ← t.isNil x then return .done above
    else if (← t.compareAt z x) = .lt then return .again (← t.child .left x, x)
    else return .again (← t.child .right x, x)) t.reach (t.root, .nil)

end RedBlack.Tree

namespace RedBlack.Edit
variable {K V : Type}

def linkLeaf (z : Handle) : Edit K V Unit := do
  let y ← Act.look (·.parentFor z)
  setParent z y
  if ← Act.look (·.isNil y) then setRoot z
  else if (← Act.look (·.compareAt z y)) = .lt then setChild .left y z
  else setChild .right y z
  setColor z .red

/-- Adds an entry and answers with its handle. Fails, and changes nothing, if the key is present or the
arena full. The check for the key is a debug assertion: results on insertion are about a build that has it
checked. In one that has not, a key that is present is added a second time. -/
def insert (k : K) (v : V) : Edit K V Handle := do
  if ← Act.look (·.contains k) then throw .duplicateKey
  else
    let z ← allocate (.leaf k v)
    linkLeaf z
    settleRed z
    modify fun t => { t with size := t.size + 1 }
    note (.inserted z (← get).size)
    return z

end RedBlack.Edit
