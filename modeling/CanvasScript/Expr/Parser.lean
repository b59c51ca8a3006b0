/-
From tokens to a tree.

The grammar has six levels of operators between operands, all of which group to the left,
and below them operands: a sign before an operand, or a number, a string, a name or a
parenthesised expression with any number of fields after it. One level is `chain`, which
turns a reader of its operands into a reader of operands joined by the level's operators;
the whole of an expression is the six levels on top of one another, over `operand`.

`operand` carries the *room* that is left: how many more parentheses and signs may be open
at the same time. Each one that opens takes one from the room, for its own inside only, and
one that opens without room is a fault. So the nesting limit is a parameter of the reader
and not a counter that has to be put back, and it is also why the recursion ends. Within a
chain the recursion ends because a reader leaves fewer tokens than it was given; every
reader returns what it leaves together with that fact.
-/
import CanvasScript.Expr.Lexer
import CanvasScript.Expr.Tree

set_option autoImplicit false

namespace CanvasScript.Parser

/-! ## Readers -/

/-- Fewer tokens than a given list has. -/
abbrev Fewer (tokens : List Token) := { rest : List Token // rest.length < tokens.length }

/-- No more tokens than a given list has. -/
abbrev NoMore (tokens : List Token) := { rest : List Token // rest.length ≤ tokens.length }

/-- Reads a tree from the front of a token list and leaves the rest. -/
abbrev Reader := (tokens : List Token) → Except EvalError (Expr × Fewer tokens)

def NoMore.all (tokens : List Token) : NoMore tokens := ⟨tokens, Nat.le_refl _⟩

/-- What is left after one token and then some. -/
def NoMore.after {tokens : List Token} (token : Token) (rest : NoMore tokens) :
    Fewer (token :: tokens) :=
  ⟨rest.val, Nat.lt_succ_of_le rest.property⟩

/-- What is left after some tokens, at least one, and then some more. -/
def Fewer.further {tokens : List Token} (rest : Fewer tokens) (more : NoMore rest.val) :
    Fewer tokens :=
  ⟨more.val, Nat.lt_of_le_of_lt more.property rest.property⟩

/-- Fewer tokens are no more tokens. -/
def Fewer.noMore {tokens : List Token} (rest : Fewer tokens) : NoMore tokens :=
  ⟨rest.val, Nat.le_of_lt rest.property⟩

/-! ## One level of operators -/

abbrev Level := Symbol → Option BinaryOp

/-- Reads operators of a level and their right operands, as long as there are any, and
groups them to the left onto the tree that stands before them. -/
def chainAfter (level : Level) (next : Reader) (left : Expr) :
    (tokens : List Token) → Except EvalError (Expr × NoMore tokens)
  | .symbol s :: tokens =>
    match level s with
    | none => .ok (left, .all _)
    | some op =>
      match next tokens with
      | .error fault => .error fault
      | .ok (right, rest) =>
        match chainAfter level next (.binary op left right) rest.val with
        | .error fault => .error fault
        | .ok (tree, last) => .ok (tree, ((rest.further last).noMore.after (.symbol s)).noMore)
  | tokens => .ok (left, .all tokens)
termination_by tokens => tokens.length
decreasing_by exact Nat.lt_succ_of_lt rest.property

/-- Reads one operand or several joined by the operators of a level. -/
def chain (level : Level) (next : Reader) : Reader := fun tokens =>
  match next tokens with
  | .error fault => .error fault
  | .ok (left, rest) =>
    match chainAfter level next left rest.val with
    | .error fault => .error fault
    | .ok (tree, last) => .ok (tree, rest.further last)

/-! ## The six levels -/

def orLevel : Level
  | .or => some (.logical .or)
  | _ => none

def andLevel : Level
  | .and => some (.logical .and)
  | _ => none

def equalityLevel : Level
  | .equal => some (.strict .equal)
  | .notEqual => some (.strict .notEqual)
  | _ => none

def orderLevel : Level
  | .less => some (.strict (.order .less))
  | .lessEqual => some (.strict (.order .lessEqual))
  | .greater => some (.strict (.order .greater))
  | .greaterEqual => some (.strict (.order .greaterEqual))
  | _ => none

def sumLevel : Level
  | .plus => some (.strict .add)
  | .minus => some (.strict (.arithmetic .sub))
  | _ => none

def productLevel : Level
  | .star => some (.strict (.arithmetic .mul))
  | .slash => some (.strict (.arithmetic .div))
  | .percent => some (.strict (.arithmetic .rem))
  | _ => none

/-- The levels from the one that binds least to the one that binds most. -/
def levels : List Level :=
  [orLevel, andLevel, equalityLevel, orderLevel, sumLevel, productLevel]

/-- Reads operands joined by the operators of all levels. -/
def joined (next : Reader) : Reader := levels.foldr chain next

/-! ## Operands -/

/-- Reads field names after a tree, as long as there are points. -/
def fieldsAfter (owner : Expr) : (tokens : List Token) → Except EvalError (Expr × NoMore tokens)
  | .symbol .dot :: .identifier name :: tokens =>
    match fieldsAfter (.field owner name) tokens with
    | .error fault => .error fault
    | .ok (tree, rest) =>
      .ok (tree, ((rest.after (.identifier name)).noMore.after (.symbol .dot)).noMore)
  | .symbol .dot :: tokens => .error (.expected .fieldName tokens.head?)
  | tokens => .ok (owner, .all tokens)

/-- A tree that one token stands for, and the fields after it. -/
def fieldsOf (owner : Expr) (token : Token) (tokens : List Token) :
    Except EvalError (Expr × Fewer (token :: tokens)) :=
  (fieldsAfter owner tokens).map fun (tree, rest) => (tree, rest.after token)

/-- What is left after a closing parenthesis, if one comes first. -/
def afterClose? : (tokens : List Token) → Option (Fewer tokens)
  | .symbol .closeParen :: tokens => some ((NoMore.all tokens).after (.symbol .closeParen))
  | _ => none

/-- The closing parenthesis after an inner tree, and the fields after it. -/
def closed (inner : Expr) (opening : Token) {tokens : List Token} (rest : Fewer tokens) :
    Except EvalError (Expr × Fewer (opening :: tokens)) :=
  match afterClose? rest.val with
  | none => .error (.expected .closeParen rest.val.head?)
  | some after =>
    (fieldsAfter inner after.val).map fun (tree, last) =>
      (tree, (rest.further (after.further last).noMore).noMore.after opening)

/-- Reads an operand, with room for so many more open parentheses and signs. -/
def operand : Nat → Reader
  | _, [] => .error (.expected .operand none)
  | _, .number x :: tokens => fieldsOf (.number x) _ tokens
  | _, .string s :: tokens => fieldsOf (.string s) _ tokens
  | _, .identifier name :: tokens => fieldsOf (.variable name) _ tokens
  | 0, .symbol .minus :: _ => .error .tooDeep
  | 0, .symbol .bang :: _ => .error .tooDeep
  | 0, .symbol .openParen :: _ => .error .tooDeep
  | room + 1, .symbol .minus :: tokens =>
    (operand room tokens).map fun (tree, rest) => (.unary .neg tree, rest.noMore.after _)
  | room + 1, .symbol .bang :: tokens =>
    (operand room tokens).map fun (tree, rest) => (.unary .not tree, rest.noMore.after _)
  | room + 1, .symbol .openParen :: tokens =>
    match joined (operand room) tokens with
    | .error fault => .error fault
    | .ok (inner, rest) => closed inner (.symbol .openParen) rest
  | _, token :: _ => .error (.unexpectedToken token)

/-! ## Whole expressions -/

/-- How many parentheses and signs may be open at the same time. -/
def roomAtTop : Nat := 255

/-- The tree of a token list, all of which has to be read. -/
def parseTokens (tokens : List Token) : Except EvalError Expr :=
  match joined (operand roomAtTop) tokens with
  | .error fault => .error fault
  | .ok (tree, rest) =>
    match rest.val with
    | [] => .ok tree
    | token :: _ => .error (.unexpectedToken token)

/-- The tree of a text. Faults of its tokens come before faults of its grammar. -/
def parse (text : String) : Except EvalError Expr :=
  (Lexer.tokens text.toList).bind parseTokens

end CanvasScript.Parser
