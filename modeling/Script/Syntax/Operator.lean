import Script.Token

/-!
# Operators

The operators of the language, the tokens that stand for them, and how tightly they bind.
-/

namespace Script

inductive BinaryOp where
  | add
  | sub
  | mul
  | div
  | mod
  | less
  | greater
  | lessEqual
  | greaterEqual
  | equal
  | notEqual
deriving DecidableEq, Repr

/-- Both operands of a logical operator are always evaluated. -/
inductive LogicalOp where
  | and
  | or
deriving DecidableEq, Repr

inductive UnaryOp where
  | negate
  | not
deriving DecidableEq, Repr

inductive AssignOp where
  | assign
  | add
  | sub
  | mul
  | div
  | mod
deriving DecidableEq, Repr

/-- How tightly an operator between two operands binds, from the loosest level to the tightest.
The operators of one level associate to the left. -/
inductive Level where
  | logical
  | comparison
  | additive
  | multiplicative
deriving DecidableEq, Repr

/-- The next tighter level. -/
def Level.tighter? : Level → Option Level
  | logical => some comparison
  | comparison => some additive
  | additive => some multiplicative
  | multiplicative => none

namespace BinaryOp

/-- The mark that the operator is written with. -/
def symbol : BinaryOp → Symbol
  | add => .plus
  | sub => .minus
  | mul => .star
  | div => .slash
  | mod => .percent
  | less => .less
  | greater => .greater
  | lessEqual => .lessEqual
  | greaterEqual => .greaterEqual
  | equal => .equalEqual
  | notEqual => .bangEqual

/-- The operator that a mark is written for. -/
def ofSymbol? : Symbol → Option BinaryOp
  | .plus => some add
  | .minus => some sub
  | .star => some mul
  | .slash => some div
  | .percent => some mod
  | .less => some less
  | .greater => some greater
  | .lessEqual => some lessEqual
  | .greaterEqual => some greaterEqual
  | .equalEqual => some equal
  | .bangEqual => some notEqual
  | _ => none

def level : BinaryOp → Level
  | add | sub => .additive
  | mul | div | mod => .multiplicative
  | less | greater | lessEqual | greaterEqual | equal | notEqual => .comparison

def isComparison (op : BinaryOp) : Bool := op.level = .comparison

theorem ofSymbol?_symbol (op : BinaryOp) : ofSymbol? op.symbol = some op := by
  cases op <;> rfl

end BinaryOp

namespace LogicalOp

def symbol : LogicalOp → Symbol
  | and => .andAnd
  | or => .orOr

def ofSymbol? : Symbol → Option LogicalOp
  | .andAnd => some and
  | .orOr => some or
  | _ => none

theorem ofSymbol?_symbol (op : LogicalOp) : ofSymbol? op.symbol = some op := by
  cases op <;> rfl

end LogicalOp

namespace UnaryOp

def symbol : UnaryOp → Symbol
  | negate => .minus
  | not => .bang

def ofSymbol? : Symbol → Option UnaryOp
  | .minus => some negate
  | .bang => some not
  | _ => none

theorem ofSymbol?_symbol (op : UnaryOp) : ofSymbol? op.symbol = some op := by
  cases op <;> rfl

end UnaryOp

namespace AssignOp

def symbol : AssignOp → Symbol
  | assign => .equals
  | add => .plusAssign
  | sub => .minusAssign
  | mul => .starAssign
  | div => .slashAssign
  | mod => .percentAssign

def ofSymbol? : Symbol → Option AssignOp
  | .equals => some assign
  | .plusAssign => some add
  | .minusAssign => some sub
  | .starAssign => some mul
  | .slashAssign => some div
  | .percentAssign => some mod
  | _ => none

/-- The operator that a compound assignment applies to the old value and the new one. -/
def applies? : AssignOp → Option BinaryOp
  | assign => none
  | add => some .add
  | sub => some .sub
  | mul => some .mul
  | div => some .div
  | mod => some .mod

theorem ofSymbol?_symbol (op : AssignOp) : ofSymbol? op.symbol = some op := by
  cases op <;> rfl

end AssignOp

/-- An operator between two operands. -/
inductive Connective where
  | logical (op : LogicalOp)
  | binary (op : BinaryOp)
deriving DecidableEq, Repr

namespace Connective

def symbol : Connective → Symbol
  | logical op => op.symbol
  | binary op => op.symbol

def level : Connective → Level
  | logical _ => .logical
  | binary op => op.level

/-- The operator between two operands that a mark is written for. -/
def ofSymbol? (mark : Symbol) : Option Connective :=
  match LogicalOp.ofSymbol? mark with
  | some op => some (logical op)
  | none => (BinaryOp.ofSymbol? mark).map binary

theorem ofSymbol?_symbol (c : Connective) : ofSymbol? c.symbol = some c := by
  cases c with
  | logical op => cases op <;> rfl
  | binary op => cases op <;> rfl

end Connective

namespace Token

/-- The binary operator that a token stands for. -/
def binaryOp? : Token → Option BinaryOp
  | symbol mark => BinaryOp.ofSymbol? mark
  | _ => none

/-- The assignment operator that a token stands for. -/
def assignOp? : Token → Option AssignOp
  | symbol mark => AssignOp.ofSymbol? mark
  | _ => none

/-- The operator between two operands that a token stands for, on the given level. -/
def connective? (level : Level) : Token → Option Connective
  | symbol mark => (Connective.ofSymbol? mark).filter fun c => c.level = level
  | _ => none

/-- The sign before an operand that a token stands for. -/
def unaryOp? : Token → Option UnaryOp
  | symbol mark => UnaryOp.ofSymbol? mark
  | _ => none

end Token

end Script
