import RedBlack.Event
import RedBlack.Text.Doc
import RedBlack.Text.Quoted

/-! Texts of the kinds of keys and values, and of handles. -/
namespace RedBlack.Text

class Describe (α : Type) where
  doc : α → Doc

instance : Describe Int64 := ⟨fun n => .atom (toString n.toInt)⟩

instance : Describe String := ⟨fun s => .atom (quoted s)⟩

instance : Describe Unit := ⟨fun _ => .atom "()"⟩

instance {α : Type} [Describe α] : Describe (List α) := ⟨fun as => .seq (as.map Describe.doc)⟩

instance : Describe Handle := ⟨fun h => .atom h.text⟩

instance {α : Type} [Describe α] : Describe (Option α) := ⟨Doc.optional Describe.doc⟩

variable {K V : Type} [Describe K] [Describe V]

def mapDoc (entries : List (K × V)) : Doc :=
  .braced (entries.map fun e => .labeled (Describe.doc e.1) (Describe.doc e.2))

def setDoc (keys : List K) : Doc := .braced (keys.map Describe.doc)

def entriesDoc (entries : List (K × V)) : Doc :=
  .seq (entries.map fun e => .pair (Describe.doc e.1) (Describe.doc e.2))

end RedBlack.Text
