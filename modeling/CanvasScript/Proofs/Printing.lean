/-
Printing an expression and reading it again gives the expression back.

An expression is printed through a phrase: the phrase of its operands, each in parentheses if
it does not hold together as tightly as the place it is put in, and only then. The places are
the nonterminals of the grammar. The left operand of an operator may be of the same row, the
right one has to be of the next, and this is all that there is to grouping to the left.

That the phrase is one of the grammar is what reading needs, and a printer with parentheses
around everything would do as well. So it is also proved that no other phrase of the grammar
stands for the expression with fewer of them. Between the phrase and the text stand the tokens,
and those are read back by `Lexer.tokens_textOfTokens`.
-/
import CanvasScript.Proofs.ParserGrammar
import CanvasScript.Proofs.TokenText

set_option autoImplicit false

namespace CanvasScript

open Grammar

/-! ## Parentheses -/

/-- How many pairs of parentheses a phrase has. -/
def Grammar.Phrase.groups : Phrase → Nat
  | number _ => 0
  | string _ => 0
  | name _ => 0
  | group inner => inner.groups + 1
  | field owner _ => owner.groups
  | signed _ operand => operand.groups
  | joined left _ right => left.groups + right.groups

/-! ## The phrase of an expression -/

namespace Expr

/-- The tightest nonterminal that an expression is of without parentheses around it. -/
def nonterminal : Expr → Nonterminal
  | number _ => .primary
  | string _ => .primary
  | .variable _ => .primary
  | field _ _ => .access
  | unary _ _ => .unary
  | binary op _ _ => .row (rowOf op)

/-- The phrase of an expression, in parentheses if it does not stand in its place without. -/
def enclose (place : Nonterminal) (e : Expr) (p : Phrase) : Phrase :=
  if e.nonterminal.level < place.level then .group p else p

/-- An expression as it is written. -/
def phrase : Expr → Phrase
  | number x => .number x
  | string s => .string s
  | .variable name => .name name
  | field owner name => .field (enclose .access owner owner.phrase) name
  | unary op operand => .signed op (enclose .unary operand operand.phrase)
  | binary op left right =>
    .joined (enclose (.row (rowOf op)) left left.phrase) op
      (enclose (rowOf op).operands right right.phrase)

/-- The text of an expression, with a space between the tokens. -/
def text (e : Expr) : String := textOfTokens e.phrase.tokens

/-- Expressions that can be written: all numbers are finite and without a sign, and all names
of variables and fields are names. -/
def isWritable : Expr → Bool
  | number x => x.isFinite && !x.isNegative
  | string _ => true
  | .variable name => isName name
  | field owner name => owner.isWritable && isName name
  | unary _ operand => operand.isWritable
  | binary _ left right => left.isWritable && right.isWritable

/-! ## It is a phrase of the grammar -/

/-- Parentheses stand for nothing in the tree. -/
theorem tree_enclose (place : Nonterminal) (e : Expr) (p : Phrase) :
    (enclose place e p).tree = p.tree := by
  rw [enclose]
  split_ifs
  · rfl
  · rfl

/-- An expression is what its phrase stands for. Parentheses that were put in leave the tree as it
is. -/
theorem tree_phrase (e : Expr) : e.phrase.tree = e := by
  induction e with
  | number x => rfl
  | string s => rfl
  | «variable» name => rfl
  | field owner name ih => rw [phrase, Phrase.tree, tree_enclose, ih]
  | unary op operand ih => rw [phrase, Phrase.tree, tree_enclose, ih]
  | binary op left right ihleft ihright =>
    rw [phrase, Phrase.tree, tree_enclose, tree_enclose, ihleft, ihright]

/-- With parentheses where they are needed, a phrase can stand in any place. -/
theorem derives_enclose (place : Nonterminal) {e : Expr} {p : Phrase}
    (h : Derives e.nonterminal p) : Derives place (enclose place e p) := by
  rw [enclose]
  split_ifs with hloose
  · have hinner : Derives (.row .or) p := h.of_level_le (Nat.zero_le _)
    exact Derives.of_level_le (.group hinner) (level_le place)
  · exact h.of_level_le (Nat.not_lt.1 hloose)

/-- The phrase of an expression is one of the grammar, in the place that its outermost operator asks
for. -/
theorem derives_nonterminal (e : Expr) : Derives e.nonterminal e.phrase := by
  induction e with
  | number x => exact .number x
  | string s => exact .string s
  | «variable» name => exact .name name
  | field owner name ih => exact .field name (derives_enclose .access ih)
  | unary op operand ih => exact .signed op (derives_enclose .unary ih)
  | binary op left right ihleft ihright =>
    exact .join op (derives_enclose _ ihleft) (derives_enclose _ ihright)

/-! ## It has the fewest parentheses -/

/-- A tighter place needs no fewer parentheses. -/
theorem groups_enclose_mono {m n : Nonterminal} (h : m.level ≤ n.level) (e : Expr) (p : Phrase) :
    (enclose m e p).groups ≤ (enclose n e p).groups := by
  rw [enclose, enclose]
  split_ifs with hm hn
  · exact Nat.le_refl _
  · exact absurd (Nat.lt_of_lt_of_le hm h) hn
  · exact Nat.le_succ _
  · exact Nat.le_refl _

theorem enclose_self (e : Expr) (p : Phrase) : enclose e.nonterminal e p = p :=
  if_neg (Nat.lt_irrefl _)

/-- A whole expression needs no parentheses. -/
theorem enclose_or (e : Expr) (p : Phrase) : enclose (.row .or) e p = p :=
  if_neg (Nat.not_lt_zero _)

/-- **In no place an expression can be written with fewer parentheses.** The induction is on a
phrase for the expression: at each of its places the printed one has no more parentheses, since it
has them only where the level of the place asks for it. -/
theorem groups_enclose_le {place : Nonterminal} {p : Phrase} (h : Derives place p) :
    (enclose place p.tree p.tree.phrase).groups ≤ p.groups := by
  induction h with
  | @one row p _ ih =>
    -- a looser place asks for no more parentheses than a tighter one
    refine Nat.le_trans (groups_enclose_mono ?_ _ _) ih
    rw [level_operands]
    exact Nat.le_succ _
  | @join left right op _ _ ihleft ihright =>
    -- in a place of its own row a join stands without parentheses
    have hself : enclose (.row (rowOf op)) (.binary op left.tree right.tree)
        (Expr.binary op left.tree right.tree).phrase = _ := enclose_self _ _
    rw [Phrase.tree, hself]
    exact Nat.add_le_add ihleft ihright
  | signed op _ ih => exact ih
  | unsigned _ ih => exact Nat.le_trans (groups_enclose_mono (by decide) _ _) ih
  | bare _ ih => exact Nat.le_trans (groups_enclose_mono (by decide) _ _) ih
  | field word _ ih => exact ih
  | number x => exact Nat.le_refl _
  | string s => exact Nat.le_refl _
  | name word => exact Nat.le_refl _
  | @group inner _ ih =>
    -- inside the parentheses there is room for any expression without more of them
    rw [enclose_or] at ih
    have hgroup : (enclose .primary inner.tree inner.tree.phrase).groups ≤
        inner.tree.phrase.groups + 1 := by
      rw [enclose]
      split_ifs
      · exact Nat.le_refl _
      · exact Nat.le_succ _
    exact Nat.le_trans hgroup (Nat.succ_le_succ ih)

/-! ## Its tokens can be written -/

/-- Parentheses can be written. -/
theorem isWritable_enclose {place : Nonterminal} {e : Expr} {p : Phrase}
    (h : ∀ token ∈ p.tokens, token.isWritable = true) :
    ∀ token ∈ (enclose place e p).tokens, token.isWritable = true := by
  rw [enclose]
  split_ifs
  · intro token htoken
    rw [Phrase.tokens, List.cons_append, List.mem_cons, List.mem_append,
      List.mem_singleton] at htoken
    rcases htoken with rfl | htoken | rfl
    · rfl
    · exact h token htoken
    · rfl
  · exact h

/-- If names and numbers of an expression can be written, so can all its tokens. Strings, symbols
and parentheses always can. -/
theorem isWritable_tokens {e : Expr} (h : e.isWritable = true) :
    ∀ token ∈ e.phrase.tokens, token.isWritable = true := by
  induction e with
  | number x =>
    intro token htoken
    obtain rfl := List.mem_singleton.1 htoken
    exact h
  | string s =>
    intro token htoken
    obtain rfl := List.mem_singleton.1 htoken
    rfl
  | «variable» name =>
    intro token htoken
    obtain rfl := List.mem_singleton.1 htoken
    exact h
  | field owner name ih =>
    rw [isWritable, Bool.and_eq_true] at h
    intro token htoken
    rw [phrase, Phrase.tokens, List.mem_append, List.mem_cons,
      List.mem_singleton] at htoken
    -- a token of the owner, the point, or the name of the field
    rcases htoken with htoken | rfl | rfl
    · exact isWritable_enclose (ih h.1) token htoken
    · rfl
    · exact h.2
  | unary op operand ih =>
    intro token htoken
    rw [phrase, Phrase.tokens, List.mem_cons] at htoken
    rcases htoken with rfl | htoken
    · rfl
    · exact isWritable_enclose (ih h) token htoken
  | binary op left right ihleft ihright =>
    rw [isWritable, Bool.and_eq_true] at h
    intro token htoken
    rw [phrase, Phrase.tokens, List.mem_append, List.mem_cons] at htoken
    rcases htoken with htoken | rfl | htoken
    · exact isWritable_enclose (ihleft h.1) token htoken
    · rfl
    · exact isWritable_enclose (ihright h.2) token htoken

/-! ## The round trip -/

/-- **Reading what has been printed gives the expression back**, for every expression that can be
written: if at most 255 parentheses and prefix operators are open at once in its text, then the text
is read as that expression, and otherwise the answer is that it nests too deeply. No phrase of the
grammar that stands for the expression has fewer parentheses than its text. -/
theorem parse_text {e : Expr} (h : e.isWritable = true) :
    (e.phrase.nesting ≤ 255 → Parser.parse e.text = .ok e) ∧
      (255 < e.phrase.nesting → Parser.parse e.text = .error .tooDeep) ∧
      ∀ p, Derives (.row .or) p → p.tree = e → e.phrase.groups ≤ p.groups := by
  have hderives : Derives (.row .or) e.phrase :=
    (derives_nonterminal e).of_level_le (Nat.zero_le _)
  -- from the text to the tokens, and from the tokens of a phrase to its tree
  have hparse : Parser.parse e.text =
      if e.phrase.nesting ≤ 255 then .ok e else .error .tooDeep := by
    have htokens := Parser.parseTokens_of_phrase hderives
    rw [tree_phrase] at htokens
    rw [Parser.parse, text, Lexer.tokens_textOfTokens (isWritable_tokens h), ← htokens]
    rfl
  refine ⟨?_, ?_, ?_⟩
  · intro hnesting
    rw [hparse, if_pos hnesting]
  · intro hnesting
    rw [hparse, if_neg (Nat.not_le.2 hnesting)]
  · rintro p hp rfl
    have hfewest := groups_enclose_le hp
    rwa [enclose_or] at hfewest

/-- A difference of differences, with operators of every kind of place and a string that needs
both escapes. -/
theorem parse_text_of_difference :
    let minus : BinaryOp := .strict (.arithmetic .sub)
    let choice : Expr := .binary (.logical .or) (.string "a\"\\") (.variable "x")
    let part : Expr := .unary .neg (.field (.unary .not choice) "_f")
    let tiny : Binary64 := .rounded false (15 * Binary64.unitsInOne) (tenTo 8)
    let e : Expr := .binary minus (.number tiny) (.binary minus part (.number .zero))
    e.isWritable = true ∧ e.phrase.nesting ≤ 255 ∧
      e.text = "1.5e-7 - ( - ( ! ( \"a\\\"\\\\\" || x ) ) . _f - 0 )" ∧
      Parser.parse e.text = .ok e := by
  intro minus choice part tiny e
  have hwritable : e.isWritable = true := by decide +kernel
  have hnesting : e.phrase.nesting ≤ 255 := by decide +kernel
  exact ⟨hwritable, hnesting, by decide +kernel, (parse_text hwritable).1 hnesting⟩

end Expr

end CanvasScript
