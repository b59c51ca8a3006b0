/-
Expressions as trees.

The thirteen binary operators are sorted by how they treat their operands. The two logical
ones may leave the right operand unevaluated; all others take the values of both. Among
those, the four that only numbers have and the four that compare by an order are families
of their own, so that no function on operators has a case that cannot occur.
-/
import CanvasScript.Expr.Token

set_option autoImplicit false

namespace CanvasScript

/-! ## Operators -/

inductive PrefixOp where
  | neg
  | not
  deriving DecidableEq, Repr

/-- Operators that evaluate their right operand only if the left one leaves the result open. -/
inductive LogicalOp where
  | and
  | or
  deriving DecidableEq, Repr

inductive ArithmeticOp where
  | sub
  | mul
  | div
  | rem
  deriving DecidableEq, Repr

inductive OrderOp where
  | less
  | lessEqual
  | greater
  | greaterEqual
  deriving DecidableEq, Repr

/-- Operators that take the values of both operands. -/
inductive StrictOp where
  | add
  | arithmetic (op : ArithmeticOp)
  | equal
  | notEqual
  | order (op : OrderOp)
  deriving DecidableEq, Repr

inductive BinaryOp where
  | logical (op : LogicalOp)
  | strict (op : StrictOp)
  deriving DecidableEq, Repr

/-- How an operator is written. -/
def PrefixOp.symbol : PrefixOp → Symbol
  | .neg => .minus
  | .not => .bang

@[inherit_doc PrefixOp.symbol]
def LogicalOp.symbol : LogicalOp → Symbol
  | .and => .and
  | .or => .or

@[inherit_doc PrefixOp.symbol]
def ArithmeticOp.symbol : ArithmeticOp → Symbol
  | .sub => .minus
  | .mul => .star
  | .div => .slash
  | .rem => .percent

@[inherit_doc PrefixOp.symbol]
def OrderOp.symbol : OrderOp → Symbol
  | .less => .less
  | .lessEqual => .lessEqual
  | .greater => .greater
  | .greaterEqual => .greaterEqual

@[inherit_doc PrefixOp.symbol]
def StrictOp.symbol : StrictOp → Symbol
  | .add => .plus
  | .arithmetic op => op.symbol
  | .equal => .equal
  | .notEqual => .notEqual
  | .order op => op.symbol

@[inherit_doc PrefixOp.symbol]
def BinaryOp.symbol : BinaryOp → Symbol
  | .logical op => op.symbol
  | .strict op => op.symbol

/-! ## Trees -/

inductive Expr where
  /-- A number as written. -/
  | number (x : Binary64)
  /-- A quoted string. -/
  | string (s : String)
  /-- A name; the two names of booleans are names like any other here. -/
  | variable (name : String)
  | field (owner : Expr) (name : String)
  | unary (op : PrefixOp) (operand : Expr)
  | binary (op : BinaryOp) (left right : Expr)
  deriving DecidableEq

end CanvasScript
