/-! Bounds on what reading a template may cost. -/
namespace Stencil

structure Limits where
  /-- Bytes of the source. -/
  inputSize : Nat := 10000000
  /-- Tokens, the end of the text included. -/
  tokenCount : Nat := 100000
  /-- Bytes of a name. -/
  identifierLength : Nat := 1000
  /-- Parentheses, calls and operators around one operand. -/
  expressionDepth : Nat := 256
  deriving DecidableEq, Repr

inductive Limit
  | inputSize
  | tokenCount
  | identifierLength
  | expressionDepth
  deriving DecidableEq, Repr

namespace Limit

/-- In the order in which they are checked. -/
def all : List Limit := [.inputSize, .tokenCount, .identifierLength, .expressionDepth]

/-- The key of the limit in a project file. -/
def key : Limit → String
  | inputSize => "max_input_size"
  | tokenCount => "max_token_count"
  | identifierLength => "max_identifier_length"
  | expressionDepth => "max_expr_depth"

/-- The greatest value that a project may ask for. -/
def ceiling? : Limit → Option Nat
  | inputSize => some 100000000
  | tokenCount => none
  | identifierLength => some 100000
  | expressionDepth => some 1000

end Limit

namespace Limits

def get (limits : Limits) : Limit → Nat
  | .inputSize => limits.inputSize
  | .tokenCount => limits.tokenCount
  | .identifierLength => limits.identifierLength
  | .expressionDepth => limits.expressionDepth

def set (limits : Limits) (value : Nat) : Limit → Limits
  | .inputSize => { limits with inputSize := value }
  | .tokenCount => { limits with tokenCount := value }
  | .identifierLength => { limits with identifierLength := value }
  | .expressionDepth => { limits with expressionDepth := value }

/-- A limit must be positive and at most its ceiling. -/
def allows (limits : Limits) (limit : Limit) : Bool :=
  0 < limits.get limit && limit.ceiling?.all (limits.get limit ≤ ·)

/-- The first limit out of its range. -/
def outOfRange? (limits : Limits) : Option Limit :=
  Limit.all.find? (!limits.allows ·)

end Limits

inductive LimitError
  | malformed
  | outOfRange (limit : Limit) (value : Nat)
  deriving DecidableEq, Repr

def LimitError.message : LimitError → String
  | malformed => "Limit error: Failed to parse limits"
  | outOfRange limit value =>
    s!"Limit error: Invalid limit '{limit.key}': {value} is zero or out of range"

def Limits.validate (limits : Limits) : Except LimitError Unit :=
  match limits.outOfRange? with
  | none => .ok ()
  | some limit => .error (.outOfRange limit (limits.get limit))

end Stencil
