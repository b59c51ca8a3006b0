/-
What can be wrong with a line of a script, by cause, and the message for each cause.

Users of the language see these messages on the surface, so they are in its language. Only
one cause ends a whole run, the missing surface; every other one is drawn as a line of its
own and the run goes on with the next line.
-/
import CanvasScript.Expr.Fault

set_option autoImplicit false

namespace CanvasScript

/-- Why a line, or a whole run, fails. -/
inductive ScriptError where
  /-- There is no surface of this name to draw on. -/
  | surfaceUnavailable (target : String)
  /-- The line has no keyword that is in the command table. -/
  | unknownCommand (line : String)
  | invalidSetSyntax (line : String)
  /-- The object literal that starts on the line does not end properly. -/
  | malformedObject (line : String)
  /-- An entry of an object literal is not a key and a value. -/
  | invalidPair (pair : String)
  /-- The value on the line, or of one of its entries, is none. -/
  | invalidValue (line : String)
  /-- The line is not the drawing of an expression. -/
  | invalidDisplaySyntax (line : String)
  /-- The expression as written has no value, for the reason given. -/
  | evaluation (expr : String) (reason : EvalError)
  deriving DecidableEq

namespace ScriptError

/-- The message for a cause. The reason of a failed evaluation is not part of it. -/
def message : ScriptError → String
  | .surfaceUnavailable target => "Canvas não encontrado ou contexto inválido: " ++ target
  | .unknownCommand line => "Comando desconhecido: " ++ line
  | .invalidSetSyntax line => "Comando 'set' inválido: " ++ line
  | .malformedObject line => "Objeto malformado em: " ++ line
  | .invalidPair pair => "Par chave-valor inválido em: " ++ pair
  | .invalidValue line => "Valor inválido no comando: " ++ line
  | .invalidDisplaySyntax line => "Sintaxe inválida em 'display': " ++ line
  | .evaluation expr _ => "Erro ao avaliar expressão: " ++ expr

/-- The name of a cause in log records. -/
def kindName : ScriptError → String
  | .surfaceUnavailable _ => "SurfaceUnavailable"
  | .unknownCommand _ => "UnknownCommand"
  | .invalidSetSyntax _ => "InvalidSetSyntax"
  | .malformedObject _ => "MalformedObjectLiteral"
  | .invalidPair _ => "InvalidKeyValuePair"
  | .invalidValue _ => "InvalidValue"
  | .invalidDisplaySyntax _ => "InvalidDisplaySyntax"
  | .evaluation _ _ => "ExpressionEvaluationError"

/-- Whether a cause ends the whole run. -/
def isFatal : ScriptError → Bool
  | .surfaceUnavailable _ => true
  | _ => false

end ScriptError

end CanvasScript
