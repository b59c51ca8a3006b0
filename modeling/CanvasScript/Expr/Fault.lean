/-
What can be wrong with an expression, by cause, and the message for each cause.

The first four causes are found while the text is cut into tokens, the next three while
the tokens are read as a tree, and the rest while the tree is evaluated. A cause holds
what was found, and the wording is in `message` alone.
-/
import CanvasScript.Expr.Token
import CanvasScript.Value

set_option autoImplicit false

namespace CanvasScript

/-- What the grammar requires at a place where something else was found. -/
inductive Wanted where
  | operand
  | fieldName
  | closeParen
  deriving DecidableEq, Repr

/-- What a message calls the thing that is required. -/
def Wanted.description : Wanted → String
  | .operand => "operand"
  | .fieldName => "field name"
  | .closeParen => "')'"

inductive EvalError where
  | unexpectedChar (c : Char)
  /-- A quoted string without its closing quote. -/
  | unterminatedString
  /-- A number whose exponent has no digits. -/
  | invalidNumber (text : String)
  /-- A token that cannot stand where it does. -/
  | unexpectedToken (token : Token)
  /-- A required thing is missing; what stands there instead is a token or the end. -/
  | expected (wanted : Wanted) (found : Option Token)
  /-- More parentheses and signs are open than the limit allows. -/
  | tooDeep
  /-- A name that is bound to nothing. -/
  | unknownIdentifier (name : String)
  /-- An operator between operands that it does not take. -/
  | binaryMismatch (operator : Symbol) (left right : Kind)
  /-- An operator on one operand that it does not take. -/
  | unaryMismatch (operator : Symbol) (operand : Kind)
  /-- A field that an object lacks, or of a value that is no object. -/
  | noSuchField (owner : Kind) (field : String)
  deriving DecidableEq

def EvalError.message : EvalError → String
  | .unexpectedChar c => "unexpected character '" ++ String.singleton c ++ "'"
  | .unterminatedString => "unterminated string literal"
  | .invalidNumber text => "invalid number '" ++ text ++ "'"
  | .unexpectedToken token => "unexpected " ++ token.description
  | .expected wanted found =>
    "expected " ++ wanted.description ++ ", found " ++ Token.descriptionOrEnd found
  | .tooDeep => "expression nests too deeply"
  | .unknownIdentifier name => "unknown identifier '" ++ name ++ "'"
  | .binaryMismatch operator left right =>
    "operator '" ++ operator.text ++ "' cannot be applied to " ++ left.name ++ " and " ++
      right.name
  | .unaryMismatch operator operand =>
    "operator '" ++ operator.text ++ "' cannot be applied to " ++ operand.name
  | .noSuchField owner field => owner.name ++ " has no field '" ++ field ++ "'"

end CanvasScript
