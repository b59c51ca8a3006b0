/-
The value of an expression under bindings.

Evaluation is a function on trees. Operands are evaluated from left to right and the first
fault is the result, except that a logical operator whose left operand settles the result
does not evaluate the right one. An operand of the wrong kind on the left of a logical
operator is reported alone, because at that point there is no right value.
-/
import CanvasScript.Expr.Parser

set_option autoImplicit false

namespace CanvasScript

/-! ## Operators on values -/

/-- The result of an operator before its operand. -/
def PrefixOp.apply : PrefixOp → Value → Except EvalError Value
  | .neg, .number x => .ok (.number x.neg)
  | .not, .boolean b => .ok (.boolean !b)
  | op, v => .error (.unaryMismatch op.symbol v.kind)

/-- The result of an operator between numbers. -/
def ArithmeticOp.apply : ArithmeticOp → Binary64 → Binary64 → Binary64
  | .sub, x, y => x.sub y
  | .mul, x, y => x.mul y
  | .div, x, y => x.div y
  | .rem, x, y => x.rem y

/-- Whether a comparison holds when its operands compare in a given way. -/
def OrderOp.holds : OrderOp → Ordering → Bool
  | .less, o => o == .lt
  | .lessEqual, o => o != .gt
  | .greater, o => o == .gt
  | .greaterEqual, o => o != .lt

/-- The value on the left that settles the result of a logical operator. -/
def LogicalOp.settledBy : LogicalOp → Bool
  | .and => false
  | .or => true

/-- How two values compare: numbers by size, strings by code points. Comparable values may
still have no order, when one of them is a `nan`. -/
def Value.order? : Value → Value → Option (Option Ordering)
  | .number x, .number y => some (x.compare? y)
  | .string s, .string t => some (some (compare s t))
  | _, _ => none

/-- The result of an operator on the values of both operands. -/
def StrictOp.apply (op : StrictOp) (l r : Value) : Except EvalError Value :=
  match op with
  | .add =>
    match l, r with
    | .number x, .number y => .ok (.number (x.add y))
    | .string _, _ => .ok (.string (l.text ++ r.text))
    | _, .string _ => .ok (.string (l.text ++ r.text))
    | _, _ => .error (.binaryMismatch .plus l.kind r.kind)
  | .arithmetic op =>
    match l, r with
    | .number x, .number y => .ok (.number (op.apply x y))
    | _, _ => .error (.binaryMismatch op.symbol l.kind r.kind)
  | .equal => .ok (.boolean (l.same r))
  | .notEqual => .ok (.boolean !(l.same r))
  | .order op =>
    match l.order? r with
    | some comparison => .ok (.boolean (comparison.any op.holds))
    | none => .error (.binaryMismatch op.symbol l.kind r.kind)

/-! ## Names and fields -/

/-- The value of a name. A binding comes before the two names of booleans. -/
def Bindings.valueOf (vars : Bindings) (name : String) : Except EvalError Value :=
  match vars.get? name with
  | some v => .ok v
  | none =>
    if name = "true" then .ok (.boolean true)
    else if name = "false" then .ok (.boolean false)
    else .error (.unknownIdentifier name)

def Value.field (v : Value) (name : String) : Except EvalError Value :=
  match v with
  | .object o =>
    match o.get? name with
    | some s => .ok (.scalar s)
    | none => .error (.noSuchField .object name)
  | .scalar s => .error (.noSuchField s.kind name)

/-! ## Expressions -/

/-- The value of an expression under bindings. -/
def Expr.evaluate (vars : Bindings) : Expr → Except EvalError Value
  | .number x => .ok (.number x)
  | .string s => .ok (.string s)
  | .variable name => vars.valueOf name
  | .field owner name => (owner.evaluate vars).bind fun v => v.field name
  | .unary op operand => (operand.evaluate vars).bind op.apply
  | .binary (.strict op) left right =>
    (left.evaluate vars).bind fun l => (right.evaluate vars).bind fun r => op.apply l r
  | .binary (.logical op) left right =>
    (left.evaluate vars).bind fun l =>
      match l.boolean? with
      | none => .error (.unaryMismatch op.symbol l.kind)
      | some settled =>
        if settled = op.settledBy then .ok (.boolean settled)
        else (right.evaluate vars).bind fun r =>
          match r.boolean? with
          | some b => .ok (.boolean b)
          | none => .error (.binaryMismatch op.symbol l.kind r.kind)

/-- The value of the expression that a text is. -/
def evaluateText (vars : Bindings) (text : String) : Except EvalError Value :=
  (Parser.parse text).bind (Expr.evaluate vars)

end CanvasScript
