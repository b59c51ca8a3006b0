/-
The grammar of expressions, apart from any way of reading it.

    or             := and ( "||" and )*
    and            := equality ( "&&" equality )*
    equality       := relational ( ("==" | "!=") relational )*
    relational     := additive ( ("<" | ">" | "<=" | ">=") additive )*
    additive       := multiplicative ( ("+" | "-") multiplicative )*
    multiplicative := unary ( ("*" | "/" | "%") unary )*
    unary          := ("-" | "!") unary | access
    access         := primary ( "." identifier )*
    primary        := number | string | identifier | "(" or ")"

A `Phrase` is an expression as it is written, parentheses included. It has its tokens, the
tree that it stands for, and how many parentheses and prefix operators are open in it at
once. `Derives` says which phrases a nonterminal has; the repetitions group to the left, so
they are left recursive there. `Opens` says how much is open behind the first tokens of
something that need not go on as a phrase.

The grammar is unambiguous, also for phrases that have other tokens after them: a token that
continues no phrase of a nonterminal ends it, and then only one phrase is there
(`Derives.unique`).
-/
import CanvasScript.Expr.Tree
import Mathlib.Order.Basic

set_option autoImplicit false

namespace CanvasScript.Grammar

/-! ## Phrases -/

/-- An expression as it is written. -/
inductive Phrase where
  | number (x : Binary64)
  | string (s : String)
  | name (word : String)
  | group (inner : Phrase)
  | field (owner : Phrase) (word : String)
  | signed (op : PrefixOp) (operand : Phrase)
  | joined (left : Phrase) (op : BinaryOp) (right : Phrase)

namespace Phrase

def tokens : Phrase → List Token
  | number x => [.number x]
  | string s => [.string s]
  | name word => [.identifier word]
  | group inner => .symbol .openParen :: inner.tokens ++ [.symbol .closeParen]
  | field owner word => owner.tokens ++ [.symbol .dot, .identifier word]
  | signed op operand => .symbol op.symbol :: operand.tokens
  | joined left op right => left.tokens ++ .symbol op.symbol :: right.tokens

/-- The tokens of a group, with what follows it: the parentheses are its first and its last one. -/
theorem tokens_group_append (inner : Phrase) (rest : List Token) :
    (group inner).tokens ++ rest =
      .symbol .openParen :: (inner.tokens ++ .symbol .closeParen :: rest) := by
  rw [tokens, List.cons_append, List.cons_append, List.append_assoc, List.singleton_append]

/-- The tokens of a field are those of its owner, the point and the name. -/
theorem tokens_field_append (owner : Phrase) (word : String) (rest : List Token) :
    (field owner word).tokens ++ rest =
      owner.tokens ++ .symbol .dot :: .identifier word :: rest := by
  rw [tokens, List.append_assoc]
  rfl

/-- The tokens of two joined phrases are those of the left one, the operator, and those of the right
one. -/
theorem tokens_joined_append (left right : Phrase) (op : BinaryOp) (rest : List Token) :
    (joined left op right).tokens ++ rest =
      left.tokens ++ .symbol op.symbol :: (right.tokens ++ rest) := by
  rw [tokens, List.append_assoc, List.cons_append]

/-- The tree that a phrase stands for. -/
def tree : Phrase → Expr
  | number x => .number x
  | string s => .string s
  | name word => .variable word
  | group inner => inner.tree
  | field owner word => .field owner.tree word
  | signed op operand => .unary op operand.tree
  | joined left op right => .binary op left.tree right.tree

/-- How many parentheses and prefix operators are open at once, where they are most. -/
def nesting : Phrase → Nat
  | number _ => 0
  | string _ => 0
  | name _ => 0
  | group inner => inner.nesting + 1
  | field owner _ => owner.nesting
  | signed _ operand => operand.nesting + 1
  | joined left _ right => max left.nesting right.nesting

end Phrase

/-! ## Derivations -/

/-- The rows of the grammar that join operands. -/
inductive Row where
  | or
  | and
  | equality
  | relational
  | additive
  | multiplicative
  deriving DecidableEq

inductive Nonterminal where
  | row (r : Row)
  | unary
  | access
  | primary

/-- The row that an operator stands in. -/
def rowOf : BinaryOp → Row
  | .logical .or => .or
  | .logical .and => .and
  | .strict .equal => .equality
  | .strict .notEqual => .equality
  | .strict (.order _) => .relational
  | .strict .add => .additive
  | .strict (.arithmetic .sub) => .additive
  | .strict (.arithmetic .mul) => .multiplicative
  | .strict (.arithmetic .div) => .multiplicative
  | .strict (.arithmetic .rem) => .multiplicative

/-- What a row joins. -/
def Row.operands : Row → Nonterminal
  | or => .row .and
  | and => .row .equality
  | equality => .row .relational
  | relational => .row .additive
  | additive => .row .multiplicative
  | multiplicative => .unary

/-- The phrases of a nonterminal. -/
inductive Derives : Nonterminal → Phrase → Prop where
  | one {row : Row} {p : Phrase} : Derives row.operands p → Derives (.row row) p
  | join {left right : Phrase} (op : BinaryOp) : Derives (.row (rowOf op)) left →
      Derives (rowOf op).operands right → Derives (.row (rowOf op)) (.joined left op right)
  | signed {operand : Phrase} (op : PrefixOp) :
      Derives .unary operand → Derives .unary (.signed op operand)
  | unsigned {p : Phrase} : Derives .access p → Derives .unary p
  | bare {p : Phrase} : Derives .primary p → Derives .access p
  | field {owner : Phrase} (word : String) :
      Derives .access owner → Derives .access (.field owner word)
  | number (x : Binary64) : Derives .primary (.number x)
  | string (s : String) : Derives .primary (.string s)
  | name (word : String) : Derives .primary (.name word)
  | group {inner : Phrase} : Derives (.row .or) inner → Derives .primary (.group inner)

/-- What a nonterminal can begin with, and how many parentheses and prefix operators are open
behind it. -/
inductive Opens : Nonterminal → Nat → List Token → Prop where
  | none (n : Nonterminal) : Opens n 0 []
  | one {row : Row} {k : Nat} {front : List Token} :
      Opens row.operands k front → Opens (.row row) k front
  | join {left : Phrase} {k : Nat} {front : List Token} (op : BinaryOp) :
      Derives (.row (rowOf op)) left → Opens (rowOf op).operands k front →
      Opens (.row (rowOf op)) k (left.tokens ++ .symbol op.symbol :: front)
  | signed {k : Nat} {front : List Token} (op : PrefixOp) :
      Opens .unary k front → Opens .unary (k + 1) (.symbol op.symbol :: front)
  | unsigned {k : Nat} {front : List Token} : Opens .access k front → Opens .unary k front
  | bare {k : Nat} {front : List Token} : Opens .primary k front → Opens .access k front
  | group {k : Nat} {front : List Token} :
      Opens (.row .or) k front → Opens .primary (k + 1) (.symbol .openParen :: front)

/-- What holds of the operands of a row, and of a phrase with one more operand whenever it holds
of the phrase without, holds of the phrases of the row. -/
theorem row_induction {row : Row} {motive : Phrase → Prop}
    (hone : ∀ p, Derives row.operands p → motive p)
    (hjoin : ∀ left op right, rowOf op = row → Derives (.row row) left →
      Derives row.operands right → motive left → motive (.joined left op right))
    {p : Phrase} (h : Derives (.row row) p) : motive p := by
  generalize hn : Nonterminal.row row = n at h
  induction h with
  | one hp =>
    obtain rfl := Nonterminal.row.inj hn
    exact hone _ hp
  | join op hleft hright ihleft _ =>
    obtain rfl := Nonterminal.row.inj hn
    exact hjoin _ op _ rfl hleft hright (ihleft rfl)
  | _ => simp at hn

/-- What holds of primaries, and of a field whenever it holds of its owner, holds of accesses. -/
theorem access_induction {motive : Phrase → Prop} (hbare : ∀ p, Derives .primary p → motive p)
    (hfield : ∀ owner word, Derives .access owner → motive owner → motive (.field owner word))
    {p : Phrase} (h : Derives .access p) : motive p := by
  generalize hn : Nonterminal.access = n at h
  induction h with
  | bare hp => exact hbare _ hp
  | field word howner ih => exact hfield _ word howner (ih rfl)
  | _ => simp at hn

/-! ## Operators by their symbols -/

/-- The operator between operands that a symbol stands for. -/
def binaryOp? : Symbol → Option BinaryOp
  | .or => some (.logical .or)
  | .and => some (.logical .and)
  | .equal => some (.strict .equal)
  | .notEqual => some (.strict .notEqual)
  | .less => some (.strict (.order .less))
  | .lessEqual => some (.strict (.order .lessEqual))
  | .greater => some (.strict (.order .greater))
  | .greaterEqual => some (.strict (.order .greaterEqual))
  | .plus => some (.strict .add)
  | .minus => some (.strict (.arithmetic .sub))
  | .star => some (.strict (.arithmetic .mul))
  | .slash => some (.strict (.arithmetic .div))
  | .percent => some (.strict (.arithmetic .rem))
  | .bang | .dot | .openParen | .closeParen => none

/-- An operator between two phrases is found by its symbol. -/
theorem binaryOp?_symbol (op : BinaryOp) : binaryOp? op.symbol = some op := by
  rcases op with (_ | _) | (_ | (_ | _ | _ | _) | _ | _ | (_ | _ | _ | _)) <;> rfl

/-- So it is told by its symbol. -/
theorem binary_symbol_injective {a b : BinaryOp} (h : a.symbol = b.symbol) : a = b := by
  have hsome := binaryOp?_symbol a
  rw [h, binaryOp?_symbol] at hsome
  exact (Option.some.inj hsome).symm

/-- A symbol that is no such operator is not the symbol of one. -/
theorem symbol_ne_of_none {s : Symbol} (h : binaryOp? s = none) (op : BinaryOp) :
    op.symbol ≠ s := by
  rintro rfl
  rw [binaryOp?_symbol] at h
  simp at h

/-- Prefix operators are told by their symbols. One of them has the symbol of an operator between
two phrases, but never stands in the same place. -/
theorem prefix_symbol_injective {a b : PrefixOp} (h : a.symbol = b.symbol) : a = b := by
  revert h
  cases a <;> cases b <;> decide

/-! ## Tokens that end a phrase -/

/-- How tightly the phrases of a row hold together. -/
def Row.binds : Row → Nat
  | or => 0
  | and => 1
  | equality => 2
  | relational => 3
  | additive => 4
  | multiplicative => 5

/-- How tightly the phrases of a nonterminal hold together. -/
def Nonterminal.binds : Nonterminal → Nat
  | row r => r.binds
  | _ => 6

theorem binds_operands (row : Row) : row.operands.binds = row.binds + 1 := by
  cases row <;> rfl

/-- The first token, if there is one, continues no phrase that holds together so tightly. -/
def Stops (binds : Nat) (rest : List Token) : Prop :=
  ∀ t ∈ rest.head?, t ≠ .symbol .dot ∧ ∀ op : BinaryOp, t = .symbol op.symbol →
    (rowOf op).binds < binds

theorem Stops.nil (binds : Nat) : Stops binds [] := by
  intro t ht
  simp at ht

/-- What ends a phrase ends those that hold together more tightly. -/
theorem Stops.mono {a b : Nat} {rest : List Token} (h : Stops a rest) (hab : a ≤ b) :
    Stops b rest := by
  intro t ht
  obtain ⟨hdot, hop⟩ := h t ht
  exact ⟨hdot, fun op heq => Nat.lt_of_lt_of_le (hop op heq) hab⟩

/-- A point ends no phrase, since the phrase before it may go on with a field. -/
theorem Stops.not_dot {binds : Nat} {rest : List Token} :
    ¬ Stops binds (.symbol .dot :: rest) := fun h => (h _ rfl).1 rfl

/-- A closing parenthesis ends every phrase. -/
theorem Stops.closeParen (binds : Nat) (rest : List Token) :
    Stops binds (.symbol .closeParen :: rest) := by
  intro t ht
  obtain rfl := Option.mem_some_iff.1 ht
  refine ⟨by decide, ?_⟩
  intro op heq
  exact absurd (Token.symbol.inj heq).symm (symbol_ne_of_none rfl op)

/-- So does a name: two operands do not stand side by side. -/
theorem Stops.identifier (binds : Nat) (word : String) (rest : List Token) :
    Stops binds (.identifier word :: rest) := by
  intro t ht
  obtain rfl := Option.mem_some_iff.1 ht
  exact ⟨by simp, fun op heq => by simp at heq⟩

/-- An operator ends the phrases that hold together more tightly than its row. Phrases of its own
row, and of looser ones, go on with it. -/
theorem stops_op {binds : Nat} {op : BinaryOp} {rest : List Token} :
    Stops binds (.symbol op.symbol :: rest) ↔ (rowOf op).binds < binds := by
  constructor
  · intro h
    exact (h _ rfl).2 op rfl
  · intro h t ht
    obtain rfl := Option.mem_some_iff.1 ht
    refine ⟨?_, ?_⟩
    · intro heq
      exact symbol_ne_of_none rfl op (Token.symbol.inj heq)
    · intro other heq
      rw [← binary_symbol_injective (Token.symbol.inj heq)]
      exact h

/-! ## Nonterminals from the loosest to the tightest -/

/-- The place of a nonterminal among all of them, from the one that holds together least. -/
def Nonterminal.level : Nonterminal → Nat
  | row r => r.binds
  | unary => 6
  | access => 7
  | primary => 8

/-- The nonterminal whose phrases a nonterminal has too. -/
def Nonterminal.next : Nonterminal → Nonterminal
  | row r => r.operands
  | unary => access
  | access => primary
  | primary => primary

theorem level_operands (row : Row) : row.operands.level = row.binds + 1 := by
  cases row <;> rfl

/-- There are nine levels, from rows of or to primaries. -/
theorem level_le (n : Nonterminal) : n.level ≤ 8 := by
  rcases n with (_ | _ | _ | _ | _ | _) | _ | _ | _ <;> decide

/-- Each nonterminal but the last has the phrases of the one on the next level. -/
theorem level_next {n : Nonterminal} (h : n.level < 8) : n.next.level = n.level + 1 := by
  rcases n with row | _ | _ | _
  · exact level_operands row
  · rfl
  · rfl
  · exact absurd h (Nat.lt_irrefl _)

/-- No two nonterminals are on one level. -/
theorem level_injective {m n : Nonterminal} (h : m.level = n.level) : m = n := by
  rcases m with (_ | _ | _ | _ | _ | _) | _ | _ | _ <;>
    rcases n with (_ | _ | _ | _ | _ | _) | _ | _ | _ <;>
    simp_all [Nonterminal.level, Row.binds]

/-- A phrase of the next nonterminal is one of this, by itself and without anything added. -/
theorem Derives.of_next {n : Nonterminal} {p : Phrase} (h : Derives n.next p) : Derives n p := by
  rcases n with row | _ | _ | _
  · exact .one h
  · exact .unsigned h
  · exact .bare h
  · exact h

/-- A nonterminal has the phrases of all that hold together more tightly. Each of them is the next
one by itself, without any operator. -/
theorem Derives.of_level_le {m n : Nonterminal} {p : Phrase} (h : Derives m p)
    (hlevel : n.level ≤ m.level) : Derives n p := by
  obtain ⟨steps, hsteps⟩ := Nat.exists_eq_add_of_le hlevel
  induction steps generalizing n with
  | zero => exact level_injective hsteps ▸ h
  | succ steps ih =>
    have hbound := level_le m
    have hnext := level_next (n := n) (by omega)
    exact .of_next (ih (by omega) (by omega))

end CanvasScript.Grammar
