import RedBlack.Rounds
import RedBlack.Tree.Basic

/-! Rotations, and the repairs that keep a tree balanced: of a red entry below a red one, and of a place
that lacks a black entry above it. Each repair is written for one side and works on both. -/
namespace RedBlack.Edit
variable {K V : Type}

def relink (x y : Handle) : Edit K V Unit := do
  let p ← Act.look (·.parent x)
  if ← Act.look (·.isNil p) then setRoot y
  else setChild (← Act.look (·.sideOf x)) p y

def rotate (a : Side) (x : Handle) : Edit K V Unit := do
  let y ← Act.look (·.child a.other x)
  if ← Act.look (·.isNil y) then note (.declined a x)
  else
    note (.rotated a x)
    let middle ← Act.look (·.child a y)
    setChild a.other x middle
    if !(← Act.look (·.isNil middle)) then setParent middle x
    let p ← Act.look (·.parent x)
    setParent y p
    relink x y
    setParent x y
    setChild a y x

def turnOutward (a : Side) (z : Handle) : Edit K V Handle := do
  if ← Act.look (·.hangs a.other z) then
    let p ← Act.look (·.parent z)
    rotate a p
    return p
  else return z

def turnOver (a : Side) (z : Handle) : Edit K V Unit := do
  let p ← Act.look (·.parent z)
  setColor p .black
  let g ← Act.look (·.parent p)
  setColor g .red
  rotate a.other g

/-- One round at the red entry `z`: ends if its parent is black; else the trouble moves two levels up
where the uncle is red, and is rotated away where the uncle is black. -/
def liftRed (z : Handle) : Edit K V (Round Handle Unit) := do
  let p ← Act.look (·.parent z)
  if (← Act.look (·.color p)) = .black then return .done ()
  else
    let g ← Act.look (·.parent p)
    if ← Act.look (·.isNil g) then
      note (.abandoned z)
      return .done ()
    else
      let a ← Act.look (·.sideOf p)
      let uncle ← Act.look (·.child a.other g)
      if (← Act.look (·.color uncle)) = .red then
        setColor p .black
        setColor uncle .black
        setColor g .red
        return .again g
      else
        let z ← turnOutward a z
        turnOver a z
        return .again z

def settleRed (z : Handle) : Edit K V Unit := do
  rounds liftRed (← get).reach z
  setColor (← get).root .black

def blackSibling (a : Side) (x : Handle) : Edit K V Handle := do
  let p ← Act.look (·.parent x)
  let w ← Act.look (·.child a.other p)
  if (← Act.look (·.color w)) = .red then
    setColor w .black
    setColor p .red
    rotate a p
    let p ← Act.look (·.parent x)
    Act.look (·.child a.other p)
  else return w

/-- The sibling `w` of `x`, which hangs on side `a`. If only the near child of `w` is red, that child is
rotated into its place. -/
def redOutward (a : Side) (x w : Handle) : Edit K V Handle := do
  let far ← Act.look (·.child a.other w)
  if (← Act.look (·.color far)) = .black then
    let near ← Act.look (·.child a w)
    setColor near .black
    setColor w .red
    rotate a.other w
    let p ← Act.look (·.parent x)
    Act.look (·.child a.other p)
  else return w

def fillLack (a : Side) (x w : Handle) : Edit K V Unit := do
  let p ← Act.look (·.parent x)
  setColor w (← Act.look (·.color p))
  setColor p .black
  let far ← Act.look (·.child a.other w)
  setColor far .black
  rotate a p

/-- A round at the place `x` on side `a` with the black sibling `w`: the lack moves up where the
sibling's children are black, and is made good from the sibling's side where one is red. -/
def shareLack (a : Side) (x w : Handle) : Edit K V (Round Handle Handle) := do
  if ← Act.look (·.isNil w) then
    note (.abandoned x)
    return .done x
  else
    let near ← Act.look (·.child a w)
    let far ← Act.look (·.child a.other w)
    if (← Act.look (·.color near)) = .black ∧ (← Act.look (·.color far)) = .black then
      setColor w .red
      return .again (← Act.look (·.parent x))
    else
      let w ← redOutward a x w
      fillLack a x w
      return .again (← get).root

def liftLack (x : Handle) : Edit K V (Round Handle Handle) := do
  if x = (← get).root then return .done x
  else if (← Act.look (·.color x)) = .red then return .done x
  else
    let a ← Act.look (·.sideOf x)
    let w ← blackSibling a x
    shareLack a x w

def settleLack (x : Handle) : Edit K V Unit := do
  let y ← rounds liftLack (← get).reach x
  setColor y .black

end RedBlack.Edit
