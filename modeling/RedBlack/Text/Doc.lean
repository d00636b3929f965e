/-! Texts of values, on one line or with every element on a line of its own. -/
namespace RedBlack.Text

inductive Layout where
  | line
  | block
  deriving DecidableEq

structure Fence where
  opening : String
  closing : String
  inset : String

inductive Doc where
  | atom (text : String)
  | labeled (label value : Doc)
  | group (fence : Fence) (elements : List Doc)

namespace Doc

def seq (ds : List Doc) : Doc := .group ⟨"[", "]", ""⟩ ds

def braced (ds : List Doc) : Doc := .group ⟨"\x7b", "\x7d", ""⟩ ds

def call (name : String) (ds : List Doc) : Doc := .group ⟨name ++ "(", ")", ""⟩ ds

def pair (a b : Doc) : Doc := call "" [a, b]

def record (name : String) (fields : List (String × Doc)) : Doc :=
  .group ⟨name ++ " \x7b", "\x7d", " "⟩ (fields.map fun f => labeled (atom f.1) f.2)

def optional {α : Type} (doc : α → Doc) : Option α → Doc
  | none => atom "None"
  | some a => call "Some" [doc a]

def indent (depth : Nat) : String := String.join (List.replicate depth "    ")

mutual

def onLine : Doc → String
  | atom s => s
  | labeled l v => l.onLine ++ ": " ++ v.onLine
  | group f [] => f.opening ++ f.closing
  | group f (d :: ds) => f.opening ++ f.inset ++ d.onLine ++ restOnLine ds ++ f.inset ++ f.closing

def restOnLine : List Doc → String
  | [] => ""
  | d :: ds => ", " ++ d.onLine ++ restOnLine ds

end

mutual

def inBlock (depth : Nat) : Doc → String
  | atom s => s
  | labeled l v => l.inBlock depth ++ ": " ++ v.inBlock depth
  | group f [] => f.opening ++ f.closing
  | group f (d :: ds) => f.opening ++ "\n" ++ linesOf (depth + 1) (d :: ds) ++ indent depth ++ f.closing

def linesOf (depth : Nat) : List Doc → String
  | [] => ""
  | d :: ds => indent depth ++ d.inBlock depth ++ ",\n" ++ linesOf depth ds

end

def render (d : Doc) : Layout → String
  | .line => d.onLine
  | .block => d.inBlock 0

end Doc
end RedBlack.Text
