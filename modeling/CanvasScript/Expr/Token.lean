/-
Tokens of expressions.

A token is an operand's written form or one of the fixed symbols. There is no token for
the end of the text: a list of tokens ends where it ends, and a message that has to name
what was found there says so by finding no token.
-/
import CanvasScript.Decimal.Layout

set_option autoImplicit false

namespace CanvasScript

inductive Symbol where
  | plus
  | minus
  | star
  | slash
  | percent
  | bang
  | dot
  | equal
  | notEqual
  | less
  | lessEqual
  | greater
  | greaterEqual
  | and
  | or
  | openParen
  | closeParen
  deriving DecidableEq, Repr

def Symbol.text : Symbol → String
  | .plus => "+"
  | .minus => "-"
  | .star => "*"
  | .slash => "/"
  | .percent => "%"
  | .bang => "!"
  | .dot => "."
  | .equal => "=="
  | .notEqual => "!="
  | .less => "<"
  | .lessEqual => "<="
  | .greater => ">"
  | .greaterEqual => ">="
  | .and => "&&"
  | .or => "||"
  | .openParen => "("
  | .closeParen => ")"

inductive Token where
  /-- A number, by its value. -/
  | number (x : Binary64)
  /-- A quoted string, without its quotes and with its escapes resolved. -/
  | string (s : String)
  /-- A name. -/
  | identifier (name : String)
  | symbol (s : Symbol)
  deriving DecidableEq

def Token.description : Token → String
  | .number x => "number " ++ x.text
  | .string s => "string \"" ++ s ++ "\""
  | .identifier name => "identifier '" ++ name ++ "'"
  | .symbol s => "'" ++ s.text ++ "'"

/-- What a message calls a token that may be missing because the text has ended. -/
def Token.descriptionOrEnd : Option Token → String
  | some token => token.description
  | none => "end of input"

end CanvasScript
