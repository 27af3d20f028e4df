import Stencil.Document.Basic
import Stencil.Text.Quoted

/-! Trees written out for inspection, one node a line. -/
namespace Stencil

/-- A labelled tree: a word, or children between an opening and a closing text. -/
inductive Outline
  | word (text : String)
  | nest (opening closing : String) (children : List (String × Outline))

namespace Outline

/-- A line end and the margin at a depth. -/
def lineBreak (depth : Nat) : String := "\n" ++ "".pushn ' ' (4 * depth)

mutual

/-- Appends a tree to what is written already. -/
def write (depth : Nat) (done : String) : Outline → String
  | word text => done ++ text
  | nest opening closing [] => done ++ opening ++ closing
  | nest opening closing (child :: children) =>
    writeChildren (depth + 1) (done ++ opening) (child :: children) ++ lineBreak depth ++ closing

/-- Appends each tree on a line of its own, after its label and before a comma. -/
def writeChildren (depth : Nat) (done : String) : List (String × Outline) → String
  | [] => done
  | (label, tree) :: children =>
    writeChildren depth (tree.write depth (done ++ lineBreak depth ++ label) ++ ",") children

end

def text (o : Outline) : String := o.write 0 ""

/-- A node with its children in order. -/
def node (name : String) (children : List Outline) : Outline :=
  .nest (name ++ "(") ")" (children.map ("", ·))

/-- A node with a label for each child. -/
def record (name : String) (fields : List (String × Outline)) : Outline :=
  .nest (name ++ " \x7b") "\x7d" (fields.map fun (label, tree) => (label ++ ": ", tree))

def list (items : List Outline) : Outline := .nest "[" "]" (items.map ("", ·))

def string (s : String) : Outline := .word (Text.quoted s)

end Outline

def Operator.outline : Operator → Outline
  | add => .word "Add"
  | subtract => .word "Subtract"
  | multiply => .word "Multiply"
  | divide => .word "Divide"

def Number.outline (n : Number) : Outline :=
  match n with
  | int _ => .node "Int" [.word n.text]
  | float _ => .node "Float" [.word n.text]

namespace Expr

mutual

def outline : Expr → Outline
  | slot name => .node "Identifier" [.string name]
  | number n => .node "Number" [n.outline]
  | group inner => .node "Group" [inner.outline]
  | binary op lhs rhs =>
    .record "BinOp" [("lhs", lhs.outline), ("op", op.outline), ("rhs", rhs.outline)]
  | call f args => .record "Call" [("function", .word f.name), ("args", .list (outlines args))]

def outlines : List Expr → List Outline
  | [] => []
  | e :: es => e.outline :: outlines es

end

end Expr

namespace Item

mutual

def outline : Item → Outline
  | text content => .node "Text" [.string content]
  | block expr => .node "ExpressionBlock" [expr.outline]
  | loop binder array body =>
    .node "ForEach" [.record "ForEachBlock"
      [("iterand", .string binder), ("iterator", .string array), ("body", .list (lineOutlines body))]]

def outlines : List Item → List Outline
  | [] => []
  | item :: items => item.outline :: outlines items

def lineOutlines : List (List Item) → List Outline
  | [] => []
  | line :: lines => .record "Line" [("content", .list (outlines line))] :: lineOutlines lines

end

end Item

def Document.outline (d : Document) : Outline :=
  .record "Document" [("lines", .list (Item.lineOutlines d.lines))]

end Stencil
