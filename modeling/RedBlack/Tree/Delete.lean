import RedBlack.Tree.Rebalance
import RedBlack.Tree.Search

/-! Deletion. The entry's successor takes its place in the links where it has two children; no entry
changes its slot. -/
namespace RedBlack.Edit
variable {K V : Type}

def transplant (x y : Handle) : Edit K V Unit := do
  relink x y
  let p ← Act.look (·.parent x)
  setParent y p

def takeOver (z y : Handle) : Edit K V Unit := do
  transplant z y
  let l ← Act.look (·.child .left z)
  setChild .left y l
  setParent l y
  setColor y (← Act.look (·.color z))

/-- Puts the successor `y` of `z` in place of `z`; `y` is the first entry on the right of `z`. Answers
with the place that moved up. -/
def promote (z y : Handle) : Edit K V Handle := do
  let x ← Act.look (·.child .right y)
  let p ← Act.look (·.parent y)
  if p = z then setParent x y
  else
    transplant y x
    let r ← Act.look (·.child .right z)
    setChild .right y r
    setParent r y
  takeOver z y
  return x

/-- Takes `z` out of the links. Answers with the place that moved up, and the color that went missing
above it. -/
def splice (z : Handle) : Edit K V (Handle × Color) := do
  let l ← Act.look (·.child .left z)
  let r ← Act.look (·.child .right z)
  if ← Act.look (·.isNil l) then
    let missing ← Act.look (·.color z)
    transplant z r
    return (r, missing)
  else if ← Act.look (·.isNil r) then
    let missing ← Act.look (·.color z)
    transplant z l
    return (l, missing)
  else
    let y ← Act.look (·.outermost .left r)
    let missing ← Act.look (·.color y)
    return (← promote z y, missing)

def delete (h : Handle) : Edit K V (Option (K × V)) := do
  match (← get).entryAt? h with
  | none => return none
  | some _ =>
    let (x, missing) ← splice h
    if missing = .black then settleLack x
    modify fun t => { t with size := t.size - 1 }
    note (.deleted h (← get).size)
    let e ← vacate h
    modify fun t =>
      { t with arena := if t.isEmpty then t.arena.restart else t.arena.release h }
    return some e

def remove (k : K) : Edit K V (Option V) := do
  match ← Act.look (·.search k) with
  | none => return none
  | some h => return (← delete h).map Prod.snd

end RedBlack.Edit
