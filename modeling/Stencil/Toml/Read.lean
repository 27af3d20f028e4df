import Stencil.Reader
import Stencil.Toml.Quotation
import Stencil.Toml.Scalar

/-! Reading TOML documents. Nothing is said of a document that is refused. -/
namespace Stencil.Toml

abbrev Scan : Type → Type := Reader (List Char) Unit

namespace Scan

variable {α : Type}

theorem size_eq (cs : List Char) : size cs = cs.length := rfl

def refuse : Scan α := Reader.fail ()

/-- Refuses unless there is an answer. -/
def ofOption : Option α → Scan α
  | some a => pure a
  | none => refuse

def peek : Scan (Option Char) := ⟨fun cs => (.ok cs.head?, cs), fun _ => Nat.le_refl _⟩

/-- Takes the characters in front that meet a condition. -/
def takeWhile (p : Char → Bool) : Scan (List Char) where
  run cs := (.ok (cs.takeWhile p), cs.dropWhile p)
  size_run_le _ := (List.dropWhile_sublist p).length_le

/-- Takes one given character. -/
def char (c : Char) : Scan Unit where
  run
    | [] => (.error (), [])
    | d :: cs => if d = c then (.ok (), cs) else (.error (), d :: cs)
  size_run_le cs := by
    cases cs with
    | nil => exact Nat.le_refl _
    | cons d cs => dsimp only; split <;> simp [size_eq]

theorem size_char_lt {c : Char} {cs cs' : List Char} {u : Unit}
    (ok : (char c).run cs = (.ok u, cs')) : size cs' < size cs := by
  cases cs with
  | nil => simp [char] at ok
  | cons d cs =>
    simp only [char] at ok
    split at ok
    · cases ok; simp [size_eq]
    · cases ok

/-- Takes the whole of a text if it comes next, and says whether it did. -/
def takes (text : List Char) : Scan Bool where
  run cs := if text.isPrefixOf cs then (.ok true, cs.drop text.length) else (.ok false, cs)
  size_run_le cs := by split <;> simp [size_eq]

theorem size_takes_lt {c : Char} {text cs cs' : List Char}
    (ok : (takes (c :: text)).run cs = (.ok true, cs')) : size cs' < size cs := by
  simp only [takes] at ok
  split at ok
  · rename_i h
    cases ok
    cases cs with
    | nil => simp at h
    | cons d cs =>
      simp only [size_eq, List.length_drop, List.length_cons]
      omega
  · cases ok

/-- Takes one character if it is the given one, and says whether it was. -/
def takesChar (c : Char) : Scan Bool := takes [c]

theorem size_takesChar_lt {c : Char} {cs cs' : List Char}
    (ok : (takesChar c).run cs = (.ok true, cs')) : size cs' < size cs := size_takes_lt ok

/-- Blanks within a line. -/
def spaces : Scan Unit := do
  let _ ← takeWhile fun c => c == ' ' || c == '\t'

/-- The end of a line. -/
def lineEnd : Scan Unit := do
  unless ← takes ['\r', '\n'] do char '\n'

theorem size_lineEnd_lt {cs cs' : List Char} {u : Unit}
    (ok : lineEnd.run cs = (.ok u, cs')) : size cs' < size cs := by
  simp only [lineEnd, Reader.run_bind_eq_ok] at ok
  obtain ⟨two, c₁, h₁, ok⟩ := ok
  cases two
  · exact Nat.lt_of_lt_of_le (size_char_lt ok) (Reader.size_le_of_run h₁)
  · cases ok; exact size_takes_lt h₁

/-- The end of a line or of the text. -/
def ending : Scan Unit := do
  if (← peek).isSome then lineEnd

/-- A comment up to the end of its line. -/
def comment : Scan Unit := do
  char '#'
  let _ ← takeWhile isPlain
  ending

/-- Blanks, perhaps a comment, and the end of the line or of the text. -/
def restOfLine : Scan Unit := do
  spaces
  if (← peek) = some '#' then comment else ending

/-- What is left after blanks, line ends and comments. -/
def skipBlanks (inComment : Bool) : List Char → List Char
  | [] => []
  | '\r' :: '\n' :: cs => skipBlanks false cs
  | c :: cs =>
    if c = '\n' then skipBlanks false cs
    else if inComment then
      if isPlain c then skipBlanks true cs else c :: cs
    else if c = ' ' ∨ c = '\t' then skipBlanks false cs
    else if c = '#' then skipBlanks true cs
    else c :: cs

theorem length_skipBlanks_le (inComment : Bool) (cs : List Char) :
    (skipBlanks inComment cs).length ≤ cs.length := by
  fun_induction skipBlanks inComment cs <;> simp <;> omega

/-- Blanks, line ends and comments. -/
def blanks : Scan Unit := ⟨fun cs => (.ok (), skipBlanks false cs), length_skipBlanks_le false⟩

/-- The rest of a string after its opening marks. -/
def quotation (q : Quotation) : Scan String where
  run cs :=
    match q.body .none [] cs with
    | some (text, rest) => (.ok (.ofList text), rest)
    | none => (.error (), cs)
  size_run_le cs := by
    split <;> rename_i h
    · exact q.length_body_le _ _ _ h
    · exact Nat.le_refl _

/-- A string on one line. -/
def lineString : Scan String := do
  if ← takesChar '"' then quotation ⟨'"', false⟩
  else
    char '\''
    quotation ⟨'\'', false⟩

/-- A string in any of the four forms. A line end after three opening marks is left out. -/
def string : Scan String := do
  if ← takes ['"', '"', '"'] then
    unless ← takes ['\r', '\n'] do
      let _ ← takesChar '\n'
    quotation ⟨'"', true⟩
  else if ← takes ['\'', '\'', '\''] then
    unless ← takes ['\r', '\n'] do
      let _ ← takesChar '\n'
    quotation ⟨'\'', true⟩
  else lineString

def isKeyChar (c : Char) : Bool := c.isAlphanum || c == '-' || c == '_'

/-- One part of a key: bare, or a string on one line. -/
def keyPart : Scan String := do
  let bare ← takeWhile isKeyChar
  if bare.isEmpty then lineString else return .ofList bare

def keyStep (parts : List String) : Scan (List String ⊕ List String) := do
  spaces
  let part ← keyPart
  spaces
  if ← takesChar '.' then return .inl (part :: parts) else return .inr (part :: parts).reverse

theorem keyStep_shrinks : Reader.Shrinks keyStep := by
  intro parts parts' cs cs' ok
  simp only [keyStep, Reader.run_bind_eq_ok] at ok
  obtain ⟨_, c₁, h₁, _, c₂, h₂, _, c₃, h₃, more, c₄, h₄, ok⟩ := ok
  have := Reader.size_le_of_run h₁
  have := Reader.size_le_of_run h₂
  have := Reader.size_le_of_run h₃
  cases more
  · cases ok
  · cases ok
    have := size_takesChar_lt h₄
    omega

/-- How deep tables and arrays may lie in one another. -/
def depthLimit : Nat := 80

/-- A key of one or more parts between dots. -/
def key : Scan (List String) := do
  let parts ← Reader.repeatFrom [] keyStep keyStep_shrinks
  if parts.length < depthLimit then return parts else refuse

def isWordChar (c : Char) : Bool :=
  c.isAlphanum || c == '+' || c == '-' || c == '_' || c == '.' || c == ':'

/-- Whether a blank and a digit come next. -/
def atSpacedDigit : Scan Bool where
  run cs :=
    match cs with
    | ' ' :: c :: _ => (.ok c.isDigit, cs)
    | _ => (.ok false, cs)
  size_run_le cs := by split <;> exact Nat.le_refl _

/-- A number, truth value, date or time. A blank may part a date from a time. -/
def scalar : Scan Node := do
  let word ← takeWhile isWordChar
  if isDate word then
    if ← atSpacedDigit then
      spaces
      if isOffsetTime (← takeWhile isWordChar) then return .moment else refuse
    else return .moment
  else ofOption (scalar? word)

/-- One item of an array, unless the array ends. -/
def arrayStep (value : Scan Node) (items : List Node) : Scan (List Node ⊕ List Node) := do
  blanks
  if ← takesChar ']' then return .inr items.reverse
  else
    let item ← value
    blanks
    if ← takesChar ',' then return .inl (item :: items)
    else
      char ']'
      return .inr (item :: items).reverse

theorem arrayStep_shrinks (value : Scan Node) : Reader.Shrinks (arrayStep value) := by
  intro items items' cs cs' ok
  simp only [arrayStep, Reader.run_bind_eq_ok] at ok
  obtain ⟨_, c₁, h₁, closed, c₂, h₂, ok⟩ := ok
  have := Reader.size_le_of_run h₁
  have := Reader.size_le_of_run h₂
  cases closed
  · simp only [Bool.false_eq_true, if_false, Reader.run_bind_eq_ok] at ok
    obtain ⟨_, c₃, h₃, _, c₄, h₄, more, c₅, h₅, ok⟩ := ok
    have := Reader.size_le_of_run h₃
    have := Reader.size_le_of_run h₄
    cases more
    · simp only [Bool.false_eq_true, if_false, Reader.run_bind_eq_ok] at ok
      obtain ⟨_, _, _, ok⟩ := ok
      cases ok
    · cases ok
      have := size_takesChar_lt h₅
      omega
  · cases ok

/-- A key and its value. -/
def keyValue (value : Scan Node) : Scan (List String × Node) := do
  let k ← key
  char '='
  spaces
  return (k, ← value)

theorem size_keyValue_lt {value : Scan Node} {found : List String × Node} {cs cs' : List Char}
    (ok : (keyValue value).run cs = (.ok found, cs')) : size cs' < size cs := by
  simp only [keyValue, Reader.run_bind_eq_ok] at ok
  obtain ⟨_, c₁, h₁, _, c₂, h₂, _, c₃, h₃, h₄⟩ := ok
  have := Reader.size_le_of_run h₁
  have := size_char_lt h₂
  have := Reader.size_le_of_run h₃
  obtain ⟨_, c₄, h₅, h₆⟩ := h₄
  cases h₆
  have := Reader.size_le_of_run h₅
  omega

/-- One entry of a table in braces, and whether more follow. -/
def inlineStep (value : Scan Node) (entries : Entries) : Scan (Entries ⊕ Entries) := do
  let (k, node) ← keyValue value
  let entries ← ofOption (entries.insert k node)
  spaces
  if ← takesChar ',' then return .inl entries
  else
    char '}'
    return .inr entries

theorem inlineStep_shrinks (value : Scan Node) : Reader.Shrinks (inlineStep value) := by
  intro entries entries' cs cs' ok
  simp only [inlineStep, Reader.run_bind_eq_ok] at ok
  obtain ⟨_, c₁, h₁, _, c₂, h₂, _, c₃, h₃, more, c₄, h₄, ok⟩ := ok
  have := Reader.size_le_of_run h₁
  have := Reader.size_le_of_run h₂
  have := Reader.size_le_of_run h₃
  cases more
  · simp only [Bool.false_eq_true, if_false, Reader.run_bind_eq_ok] at ok
    obtain ⟨_, _, _, ok⟩ := ok
    cases ok
  · cases ok
    have := size_takesChar_lt h₄
    omega

/-- The rest of a table in braces. -/
def inlineTable (value : Scan Node) : Scan Node := do
  spaces
  if ← takesChar '}' then return .inline []
  else return .inline (← Reader.repeatFrom [] (inlineStep value) (inlineStep_shrinks value))

/-- A value with arrays and tables in one another below the given depth. -/
def value : Nat → Scan Node
  | 0 => refuse
  | depth + 1 => do
    match ← peek with
    | some '"' | some '\'' => return .string (← string)
    | some '[' =>
      char '['
      match depth with
      | 0 => refuse
      | _ => return .array (← Reader.repeatFrom [] (arrayStep (value depth)) (arrayStep_shrinks _))
    | some '{' =>
      char '{'
      match depth with
      | 0 => refuse
      | _ => inlineTable (value depth)
    | _ => scalar

/-- The tables read so far, and the header under which the next line stands. -/
structure Draft where
  entries : Entries := []
  header : List String := []

/-- A header in single or double brackets. -/
def header (d : Draft) : Scan Draft := do
  char '['
  let double ← takesChar '['
  let path ← key
  char ']'
  if double then char ']'
  restOfLine
  let entries ← ofOption
    (if double then d.entries.openItem path else d.entries.openTable path)
  return { entries, header := path }

/-- A line with a key and its value. -/
def entry (d : Draft) : Scan Draft := do
  let (k, node) ← keyValue (value depthLimit)
  restOfLine
  return { d with entries := ← ofOption (d.entries.alter (Entries.insert k node) d.header) }

/-- One line of a document, unless the text ends. -/
def lineStep (d : Draft) : Scan (Draft ⊕ Entries) := do
  spaces
  match ← peek with
  | none => return .inr d.entries
  | some '#' =>
    comment
    return .inl d
  | some '\r' | some '\n' =>
    lineEnd
    return .inl d
  | some '[' => return .inl (← header d)
  | some _ => return .inl (← entry d)

theorem lineStep_shrinks : Reader.Shrinks lineStep := by
  intro d d' cs cs' ok
  simp only [lineStep, Reader.run_bind_eq_ok] at ok
  obtain ⟨_, c₁, h₁, first, c₂, h₂, ok⟩ := ok
  have := Reader.size_le_of_run h₁
  have := Reader.size_le_of_run h₂
  split at ok
  · cases ok
  · simp only [comment, Reader.run_bind_eq_ok] at ok
    obtain ⟨_, c₃, ⟨_, c₄, h₄, _, c₅, h₅, h₆⟩, ok⟩ := ok
    cases ok
    have := size_char_lt h₄
    have := Reader.size_le_of_run h₅
    have := Reader.size_le_of_run h₆
    omega
  · simp only [Reader.run_bind_eq_ok] at ok
    obtain ⟨_, c₃, h₃, ok⟩ := ok
    cases ok
    have := size_lineEnd_lt h₃
    omega
  · simp only [Reader.run_bind_eq_ok] at ok
    obtain ⟨_, c₃, h₃, ok⟩ := ok
    cases ok
    have := size_lineEnd_lt h₃
    omega
  · simp only [header, Reader.run_bind_eq_ok] at ok
    obtain ⟨_, c₃, ⟨_, c₄, h₄, h₅⟩, ok⟩ := ok
    cases ok
    have := size_char_lt h₄
    obtain ⟨_, c₆, h₆, _, c₇, h₇, _, c₈, h₈, h₉⟩ := h₅
    have := Reader.size_le_of_run h₆
    have := Reader.size_le_of_run h₇
    have := Reader.size_le_of_run h₈
    have := Reader.size_le_of_run h₉
    omega
  · simp only [entry, Reader.run_bind_eq_ok] at ok
    obtain ⟨_, c₃, ⟨_, c₄, h₃, _, c₅, h₄, _, c₆, h₅, made⟩, ok⟩ := ok
    cases made
    cases ok
    have := size_keyValue_lt h₃
    have := Reader.size_le_of_run h₄
    have := Reader.size_le_of_run h₅
    omega

end Scan

/-- The entries of a whole document. A byte order mark in front is left out. -/
def read? (text : String) : Option Entries :=
  let cs := match text.toList with
    | '\ufeff' :: cs => cs
    | cs => cs
  match ((Reader.repeatFrom {} Scan.lineStep Scan.lineStep_shrinks).run cs).1 with
  | .ok entries => some entries
  | .error _ => none

end Stencil.Toml
