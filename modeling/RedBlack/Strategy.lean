/-! How a container guards its contents against use during use. -/
namespace RedBlack

inductive Strategy where
  | unsynchronized
  | synchronized
  deriving DecidableEq

def Strategy.name : Strategy → String
  | .unsynchronized => "unsynchronized"
  | .synchronized => "synchronized"

end RedBlack
