import RedBlack.KeyOrder

/-! The orders that have a name, for keys that are integers, texts, and lists of integers. -/
namespace RedBlack.KeyOrder

def thenBy {K : Type} (f g : K → K → Ordering) : KeyOrder K := .comparing fun a b => (f a b).then (g a b)

def via {K L : Type} [Ord L] (f : K → L) : KeyOrder K := .comparing fun a b => Ord.compare (f a) (f b)

def foldCase (s : String) : String := s.map Char.toLower

def integerNamed : String → Option (KeyOrder Int64)
  | "abs" => some (via fun k => k.toInt.natAbs)
  | "mod10" => some (via fun k => k.toInt.emod 10)
  | "parity" => some (thenBy (fun a b => Ord.compare (a.toInt.emod 2) (b.toInt.emod 2)) Ord.compare)
  | "all_equal" => some allEqual
  | _ => none

def textNamed : String → Option (KeyOrder String)
  | "by_len" => some (thenBy (fun a b => Ord.compare a.utf8ByteSize b.utf8ByteSize) Ord.compare)
  | "len_only" => some (via String.utf8ByteSize)
  | "casefold" => some (via foldCase)
  | "all_equal" => some allEqual
  | _ => none

def listNamed : String → Option (KeyOrder (List Int64))
  | "by_len" => some (thenBy (fun a b => Ord.compare a.length b.length) Ord.compare)
  | "len_only" => some (via List.length)
  | "all_equal" => some allEqual
  | _ => none

/-- Adds to the orders of one type of key the natural one, and `reverse_` before any of their names. -/
def find? {K : Type} [Ord K] (named : String → Option (KeyOrder K)) (name : String) :
    Option (KeyOrder K) :=
  match name with
  | "natural" => some natural
  | "reverse" => some (.reverse natural)
  | "reverse2" => some (.reverse (.reverse natural))
  | _ =>
    if name.startsWith "reverse_" then
      (named (name.drop 8).toString).map .reverse
    else named name

end RedBlack.KeyOrder
