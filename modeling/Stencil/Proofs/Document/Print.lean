import Stencil.Proofs.Document.Symbols
import Stencil.Proofs.Limits
import Stencil.Proofs.Token.Apart

/-! Templates written out as text: which trees have a text of their own, what it is, and what it
costs to read it. -/
namespace Stencil

namespace Expr

mutual

/-- The words of an expression, in order. -/
def words : Expr → List String
  | slot name => [name]
  | number value => [value.text]
  | group inner => "(" :: words inner ++ [")"]
  | binary op lhs rhs => words lhs ++ op.symbol :: words rhs
  | call f args => f.name :: "(" :: argumentWords args ++ [")"]

def argumentWords : List Expr → List String
  | [] => []
  | arg :: args => words arg ++ if args.isEmpty then [] else "," :: argumentWords args

end

mutual

/-- The names in an expression, those of functions included. -/
def names : Expr → List String
  | slot name => [name]
  | number _ => []
  | group inner => names inner
  | binary _ lhs rhs => names lhs ++ names rhs
  | call f args => f.name :: argumentNames args

def argumentNames : List Expr → List String
  | [] => []
  | arg :: args => names arg ++ argumentNames args

end

end Expr

/-- Words between doubled braces, one blank apart. -/
def blockText (words : List String) : String :=
  "\x7b\x7b " ++ " ".intercalate words ++ " \x7d\x7d"

mutual

def Item.print : Item → String
  | .text content => content
  | .block e => blockText e.words
  | .loop binder array body =>
    blockText ["foreach", binder, "in", array] ++ "\n" ++ printBody body ++
      blockText ["endforeach"]

def printLine : Line → String
  | [] => ""
  | item :: items => Item.print item ++ printLine items

/-- The lines inside a loop, each with its line end. -/
def printBody : List Line → String
  | [] => ""
  | l :: lines => printLine l ++ "\n" ++ printBody lines

end

def Document.print (d : Document) : String := "\n".intercalate (d.lines.map printLine)

mutual

def Item.names : Item → List String
  | .text _ => []
  | .block e => e.names
  | .loop binder array body => binder :: array :: linesNames body

def lineNames : Line → List String
  | [] => []
  | item :: items => Item.names item ++ lineNames items

def linesNames : List Line → List String
  | [] => []
  | l :: lines => lineNames l ++ linesNames lines

end

/-- The names in all blocks. -/
def Document.names (d : Document) : List String := linesNames d.lines

theorem mem_linesNames {name : String} {lines : List Line} :
    name ∈ linesNames lines ↔ ∃ l ∈ lines, name ∈ lineNames l := by
  induction lines with
  | nil => simp [linesNames]
  | cons l lines ih => simp [linesNames, ih]

/-- The length of the longest name. -/
def longest (names : List String) : Nat := names.foldr (fun name n => max name.length n) 0

theorem length_le_longest {names : List String} {name : String} (h : name ∈ names) :
    name.length ≤ longest names := by
  induction names with
  | nil => cases h
  | cons first names ih =>
    rw [longest, List.foldr_cons]
    rcases List.mem_cons.1 h with rfl | h
    · exact Nat.le_max_left _ _
    · exact Nat.le_trans (ih h) (Nat.le_max_right _ _)

/-- What the limits must allow for the text of a template to be read. -/
def Document.cost (d : Document) : Limits where
  inputSize := d.print.utf8ByteSize
  tokenCount := d.symbols.length
  identifierLength := longest d.names
  expressionDepth := Expr.argumentNeed d.exprs + 1

/-- An optional minus, digits, a point and digits. -/
def Fractional (cs : List Char) : Prop :=
  ∃ sign whole fraction : List Char, (sign = [] ∨ sign = ['-']) ∧
    (whole ≠ [] ∧ ∀ c ∈ whole, c.isDigit = true) ∧
    (fraction ≠ [] ∧ ∀ c ∈ fraction, c.isDigit = true) ∧ cs = sign ++ whole ++ '.' :: fraction

/-- Digits only, or digits around a point. -/
def NumberShaped (cs : List Char) : Prop := (∀ c ∈ cs, c.isDigit = true) ∨ Fractional cs

/-- The words of visible characters, other than separators, that are no names. -/
def reservedWords : List String := ["+", "-", "*", "/", ".", "foreach", "in", "endforeach"]

/-- A run of visible characters that is read as a name inside a block. -/
structure IsName (name : String) : Prop where
  ne_empty : name ≠ ""
  plain : ∀ c ∈ name.toList, isGraphic c = true ∧ c ≠ '(' ∧ c ≠ ')' ∧ c ≠ ','
  undelimited : Undelimited name.toList
  unreserved : name ∉ reservedWords
  not_number : ¬ NumberShaped name.toList

/-- Text that stands in its line as it is. -/
structure IsText (content : String) : Prop where
  ne_empty : content ≠ ""
  printable : ∀ c ∈ content.toList, isGraphic c = true ∨ isSpace c = true
  undelimited : Undelimited content.toList

namespace Expr

mutual

/-- Names are names, and numbers are integers without a sign. -/
def Writable : Expr → Prop
  | slot name => IsName name
  | number value => ∃ n : Int64, value = .int n ∧ 0 ≤ n.toInt
  | group inner => Writable inner
  | binary _ lhs rhs => Writable lhs ∧ Writable rhs
  | call _ args => AllWritable args

def AllWritable : List Expr → Prop
  | [] => True
  | arg :: args => Writable arg ∧ AllWritable args

end

end Expr

/-- What may stand behind text in its line: a block, unless the text ends in a brace that would open
it too early, or nothing, unless it ends in half a line end. -/
def MayFollow (content : String) : Line → Prop
  | [] => content.toList.getLast? ≠ some '\r'
  | .block _ :: _ => content.toList.getLast? ≠ some '{'
  | _ => False

/-- A line of texts and blocks. -/
def InlineWritable : Line → Prop
  | [] => True
  | .text content :: items => IsText content ∧ MayFollow content items ∧ InlineWritable items
  | .block e :: items => e.Canonical ∧ e.Writable ∧ InlineWritable items
  | .loop _ _ _ :: _ => False

/-- A line of texts and blocks, or of one loop over such lines. -/
def LineWritable (l : Line) : Prop :=
  InlineWritable l ∨ ∃ binder array body, l = [.loop binder array body] ∧
    IsName binder ∧ IsName array ∧ ∀ bodyLine ∈ body, InlineWritable bodyLine

/-- The trees that are read back from their text. -/
def Document.Writable (d : Document) : Prop := d.lines ≠ [[]] ∧ ∀ l ∈ d.lines, LineWritable l

theorem InlineWritable.inline {l : Line} (h : InlineWritable l) :
    ∀ item ∈ l, item.Inline Expr.Canonical := by
  induction l with
  | nil => simp
  | cons item items ih =>
    rw [List.forall_mem_cons]
    cases item with
    | text content => exact ⟨trivial, ih h.2.2⟩
    | block e => exact ⟨h.1, ih h.2.2⟩
    | loop binder array body => exact h.elim

theorem Document.Writable.canonical {d : Document} (h : d.Writable) : d.Canonical := by
  refine ⟨h.1, fun l hl => ?_⟩
  rcases h.2 l hl with hinline | ⟨binder, array, body, rfl, -, -, hbody⟩
  · exact .inl hinline.inline
  · exact .inr ⟨binder, array, body, rfl, fun bodyLine hline => (hbody bodyLine hline).inline⟩

end Stencil
