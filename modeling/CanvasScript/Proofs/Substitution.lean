/-
Looking a variable up comes to the same as writing its value in its place.

`substituted` works on tokens. It replaces each bound name by its value as a literal in
parentheses, but leaves a name alone that stands right behind a point, because that is the name
of a field and no variable. Strings, booleans and finite numbers have a literal; that of a
negative number is a sign before the literal of its magnitude, and so is that of minus zero.

Of tokens that are read as a tree, the tokens with the values in them are read as a tree too,
unless the parentheses and signs that came in are too many, and the tree has the same value
without any bindings, or the same fault. The phrase of the tokens says why: what replaces a
name is a primary as the name was, so it stands wherever the name stood, and no operator next to
it binds differently.
-/
import CanvasScript.Expr.Evaluation
import CanvasScript.Proofs.ParserGrammar

set_option autoImplicit false

namespace CanvasScript

open Grammar

/-! ## Literals of values -/

/-- A string, a boolean or a finite number. -/
def Value.HasLiteral (v : Value) : Prop :=
  (∃ s, v = .string s) ∨ (∃ b, v = .boolean b) ∨ ∃ x, v = .number x ∧ x.isFinite = true

/-- The tokens that a value is written with. -/
def Value.literal? : Value → Option (List Token)
  | .string s => some [.string s]
  | .boolean b => some [.identifier (booleanText b)]
  | .number (.finite true m) => some [.symbol .minus, .number (Binary64.finite true m).abs]
  | .number (.finite false m) => some [.number (.finite false m)]
  | _ => none

/-- The names in an expression that are variables. -/
def Expr.variables : Expr → List String
  | .number _ => []
  | .string _ => []
  | .variable name => [name]
  | .field owner _ => owner.variables
  | .unary _ operand => operand.variables
  | .binary _ left right => left.variables ++ right.variables

/-- What stands in the place of a name: its value as a literal in parentheses, if it is bound to
a value that has one. -/
def replacement (vars : Bindings) (name : String) : List Token :=
  match (vars.get? name).bind Value.literal? with
  | some literal => .symbol .openParen :: literal ++ [.symbol .closeParen]
  | none => [.identifier name]

/-- Tokens with literals in place of the bound names that do not follow a point. -/
def substituted (vars : Bindings) : List Token → List Token
  | [] => []
  | .symbol .dot :: .identifier name :: rest =>
    .symbol .dot :: .identifier name :: substituted vars rest
  | .identifier name :: rest => replacement vars name ++ substituted vars rest
  | token :: rest => token :: substituted vars rest

/-! ## The same on phrases -/

/-- The phrase that a value is written with. -/
def Value.phrase? : Value → Option Phrase
  | .string s => some (.string s)
  | .boolean b => some (.name (booleanText b))
  | .number (.finite true m) => some (.signed .neg (.number (Binary64.finite true m).abs))
  | .number (.finite false m) => some (.number (.finite false m))
  | _ => none

namespace Grammar.Phrase

/-- What stands in the place of a name. -/
def replacing (vars : Bindings) (word : String) : Phrase :=
  match (vars.get? word).bind Value.phrase? with
  | some literal => .group literal
  | none => .name word

/-- A phrase with literals in place of its bound variables. -/
def substitute (vars : Bindings) : Phrase → Phrase
  | number x => .number x
  | string s => .string s
  | name word => replacing vars word
  | group inner => .group (inner.substitute vars)
  | field owner word => .field (owner.substitute vars) word
  | signed op operand => .signed op (operand.substitute vars)
  | joined left op right => .joined (left.substitute vars) op (right.substitute vars)

end Grammar.Phrase

/-- A literal is written with the tokens of a phrase. -/
theorem Value.literal?_eq_map (v : Value) : v.literal? = v.phrase?.map Phrase.tokens := by
  rcases v with (x | b | s) | o
  · rcases x with _ | negative | ⟨negative, m⟩
    · rfl
    · rfl
    · rcases negative with _ | _ <;> rfl
  · rfl
  · rfl
  · rfl

/-- A value that has a literal has such a phrase. -/
theorem Value.exists_phrase_of_hasLiteral {v : Value} (h : v.HasLiteral) :
    ∃ p, v.phrase? = some p := by
  rcases h with ⟨s, rfl⟩ | ⟨b, rfl⟩ | ⟨x, rfl, hfinite⟩
  · exact ⟨_, rfl⟩
  · exact ⟨_, rfl⟩
  · rcases x with _ | negative | ⟨negative, m⟩
    · simp [Binary64.isFinite] at hfinite
    · simp [Binary64.isFinite] at hfinite
    · rcases negative with _ | _
      · exact ⟨_, rfl⟩
      · exact ⟨_, rfl⟩

/-- What replaces a name on tokens is what replaces it in phrases. A name without a literal stays.
-/
theorem tokens_replacing (vars : Bindings) (word : String) :
    (Phrase.replacing vars word).tokens = replacement vars word := by
  rw [Phrase.replacing, replacement]
  rcases vars.get? word with _ | v
  · rfl
  · rw [Option.bind_some, Option.bind_some, Value.literal?_eq_map]
    rcases v.phrase? with _ | p
    · rfl
    · rfl

/-! ## Tokens of phrases with literals in them -/

/-- A symbol other than the point stays, and what follows it is not held back by it. -/
theorem substituted_symbol {s : Symbol} (h : s ≠ .dot) (vars : Bindings) (rest : List Token) :
    substituted vars (.symbol s :: rest) = .symbol s :: substituted vars rest := by
  rw [substituted.eq_def]
  split
  · rename_i heq
    simp at heq
  · rename_i name more heq
    simp only [List.cons.injEq, Token.symbol.injEq] at heq
    exact absurd heq.1 h
  · rename_i heq
    simp at heq
  · rename_i token more _ _ heq
    obtain ⟨rfl, rfl⟩ := List.cons.inj heq
    rfl

/-- The tokens of a phrase are replaced apart from what follows them, since no phrase ends with a
point. That is all that the replacement needs to know of its surroundings, as it leaves a name alone
only behind a point. -/
theorem substituted_tokens_append (vars : Bindings) (p : Phrase) (rest : List Token) :
    substituted vars (p.tokens ++ rest) = (p.substitute vars).tokens ++ substituted vars rest := by
  induction p generalizing rest with
  | number x => rfl
  | string s => rfl
  | name word =>
    rw [Phrase.substitute, tokens_replacing]
    rfl
  | group inner ih =>
    rw [Phrase.substitute, Phrase.tokens_group_append, Phrase.tokens_group_append,
      substituted_symbol (by decide), ih, substituted_symbol (by decide)]
  | field owner word ih =>
    rw [Phrase.substitute, Phrase.tokens_field_append, Phrase.tokens_field_append, ih]
    rfl
  | signed op operand ih =>
    have hdot : op.symbol ≠ .dot := by cases op <;> decide
    rw [Phrase.substitute, Phrase.tokens, Phrase.tokens, List.cons_append, List.cons_append,
      substituted_symbol hdot, ih]
  | joined left op right ihleft ihright =>
    have hdot : op.symbol ≠ .dot := symbol_ne_of_none rfl op
    rw [Phrase.substitute, Phrase.tokens_joined_append, Phrase.tokens_joined_append, ihleft,
      substituted_symbol hdot, ihright]

/-- So to substitute in a phrase is to substitute in its tokens. The name behind a point is no
operand of the phrase, and stays in both. -/
theorem tokens_substitute (vars : Bindings) (p : Phrase) :
    (p.substitute vars).tokens = substituted vars p.tokens := by
  have happend := substituted_tokens_append vars p []
  rw [substituted, List.append_nil, List.append_nil] at happend
  exact happend.symm

/-! ## Derivations -/

namespace Grammar

/-- The literal of a value is an expression of the grammar. -/
theorem derives_phrase {v : Value} {p : Phrase} (h : v.phrase? = some p) :
    Derives (.row .or) p := by
  refine Derives.of_level_le (m := .unary) ?_ (Nat.zero_le _)
  rcases v with (x | b | s) | o
  · rcases x with _ | negative | ⟨negative, m⟩
    · simp [Value.phrase?] at h
    · simp [Value.phrase?] at h
    · -- a sign is a prefix operator, so the literal is a unary and no primary
      rcases negative with _ | _
      · obtain rfl := Option.some.inj h
        exact .unsigned (.bare (.number _))
      · obtain rfl := Option.some.inj h
        exact .signed .neg (.unsigned (.bare (.number _)))
  · obtain rfl := Option.some.inj h
    exact .unsigned (.bare (.name _))
  · obtain rfl := Option.some.inj h
    exact .unsigned (.bare (.string _))
  · simp [Value.phrase?] at h

/-- In parentheses it is a primary, as the name was. -/
theorem derives_replacing (vars : Bindings) (word : String) :
    Derives .primary (Phrase.replacing vars word) := by
  rw [Phrase.replacing]
  rcases hphrase : (vars.get? word).bind Value.phrase? with _ | p
  · exact .name word
  · obtain ⟨v, -, hv⟩ := Option.bind_eq_some_iff.1 hphrase
    exact .group (derives_phrase hv)

/-- A phrase with literals in place of its variables is of the nonterminal that it was of. A literal
is put in parentheses, so it can stand wherever a name can. -/
theorem derives_substitute (vars : Bindings) {n : Nonterminal} {p : Phrase} (h : Derives n p) :
    Derives n (p.substitute vars) := by
  induction h with
  | one _ ih => exact .one ih
  | join op _ _ ihleft ihright => exact .join op ihleft ihright
  | signed op _ ih => exact .signed op ih
  | unsigned _ ih => exact .unsigned ih
  | bare _ ih => exact .bare ih
  | field word _ ih => exact .field word ih
  | number x => exact .number x
  | string s => exact .string s
  | name word => exact derives_replacing vars word
  | group _ ih => exact .group ih

end Grammar

/-! ## Values -/

/-- A literal has the value that it was written for. -/
theorem evaluate_phrase {v : Value} {p : Phrase} (h : v.phrase? = some p) :
    p.tree.evaluate .empty = .ok v := by
  rcases v with (x | b | s) | o
  · rcases x with _ | negative | ⟨negative, m⟩
    · simp [Value.phrase?] at h
    · simp [Value.phrase?] at h
    · -- a number with a sign is written as the negation of one without
      rcases negative with _ | _
      · obtain rfl := Option.some.inj h
        rfl
      · obtain rfl := Option.some.inj h
        rfl
  · obtain rfl := Option.some.inj h
    rcases b with _ | _
    · rfl
    · rfl
  · obtain rfl := Option.some.inj h
    rfl
  · simp [Value.phrase?] at h

/-- And without any bindings it has the value that the name has with them, or the same fault. A name
that is unbound is the only one that stays. -/
theorem evaluate_replacing {vars : Bindings} {word : String}
    (h : ∀ v, vars.get? word = some v → v.HasLiteral) :
    (Phrase.replacing vars word).tree.evaluate .empty = vars.valueOf word := by
  rw [Phrase.replacing, Bindings.valueOf]
  rcases hbound : vars.get? word with _ | v
  · rfl
  · obtain ⟨p, hp⟩ := Value.exists_phrase_of_hasLiteral (h v hbound)
    have hvalue := evaluate_phrase hp
    rw [Option.bind_some, hp]
    exact hvalue

/-- **A phrase has the value without bindings that it had with them**, once the literals of its
variables are written into it. A variable that is unbound stays a name, and fails as it did. -/
theorem evaluate_substitute {vars : Bindings} (p : Phrase)
    (h : ∀ name ∈ p.tree.variables, ∀ v, vars.get? name = some v → v.HasLiteral) :
    (p.substitute vars).tree.evaluate .empty = p.tree.evaluate vars := by
  induction p with
  | number x => rfl
  | string s => rfl
  | name word => exact evaluate_replacing (h word (by simp [Phrase.tree, Expr.variables]))
  | group inner ih => exact ih h
  | field owner word ih =>
    rw [Phrase.substitute, Phrase.tree, Phrase.tree, Expr.evaluate, Expr.evaluate, ih h]
  | signed op operand ih =>
    rw [Phrase.substitute, Phrase.tree, Phrase.tree, Expr.evaluate, Expr.evaluate, ih h]
  | joined left op right ihleft ihright =>
    have hleft := ihleft fun name hname => h name (List.mem_append_left _ hname)
    have hright := ihright fun name hname => h name (List.mem_append_right _ hname)
    -- a strict operator evaluates both operands, and a logical one the second only if it must
    rcases op with op | op
    · rw [Phrase.substitute, Phrase.tree, Phrase.tree, Expr.evaluate, Expr.evaluate, hleft,
        hright]
    · rw [Phrase.substitute, Phrase.tree, Phrase.tree, Expr.evaluate, Expr.evaluate, hleft,
        hright]

/-- **Looking variables up is writing their values in their places.** For all tokens that are
read as a tree and all bindings under which the variables of the tree are unbound or have
literals: if with the literals no more than 255 parentheses and prefix operators are open at
once, then the tokens with the literals are read as a tree, and without bindings it has the
value, or the fault, that the tree had with them. -/
theorem evaluate_substituted {vars : Bindings} {tokens : List Token} {tree : Expr}
    (hparse : Parser.parseTokens tokens = .ok tree)
    (hvalues : ∀ name ∈ tree.variables, ∀ v, vars.get? name = some v → v.HasLiteral)
    (hopen : ¬ ∃ front back, Opens (.row .or) 256 front ∧
      front ++ back = substituted vars tokens) :
    ∃ tree', Parser.parseTokens (substituted vars tokens) = .ok tree' ∧
      tree'.evaluate .empty = tree.evaluate vars := by
  obtain ⟨p, hp, rfl, rfl, -⟩ := Parser.phrase_of_parseTokens hparse
  have hderives := derives_substitute vars hp
  rw [← tokens_substitute] at hopen ⊢
  -- nothing too deep is open, so the nesting of the phrase keeps to the limit
  have hnesting : (p.substitute vars).nesting ≤ 255 := by
    have hnot := mt (Parser.opens_iff_le_nesting hderives 256).2 hopen
    omega
  refine ⟨(p.substitute vars).tree, ?_, evaluate_substitute p hvalues⟩
  rw [Parser.parseTokens_of_phrase hderives, if_pos hnesting]

/-- A difference of a variable that is minus zero and a field of the same name. -/
theorem evaluate_substituted_minus_zero :
    let vars : Bindings :=
      (Keyed.empty.insert "x" (.number (.signedZero true))).insert "p" (.string "s")
    let tokens : List Token := [.identifier "x", .symbol .minus, .identifier "p", .symbol .dot,
      .identifier "x"]
    let tree : Expr := .binary (.strict (.arithmetic .sub)) (.variable "x")
      (.field (.variable "p") "x")
    Parser.parseTokens tokens = .ok tree ∧
      (∀ name ∈ tree.variables, ∀ v, vars.get? name = some v → v.HasLiteral) ∧
      (¬ ∃ front back, Opens (.row .or) 256 front ∧ front ++ back = substituted vars tokens) ∧
      substituted vars tokens = [.symbol .openParen, .symbol .minus, .number (.signedZero false),
        .symbol .closeParen, .symbol .minus, .symbol .openParen, .string "s",
        .symbol .closeParen, .symbol .dot, .identifier "x"] ∧
      ∃ tree', Parser.parseTokens (substituted vars tokens) = .ok tree' ∧
        tree'.evaluate .empty = tree.evaluate vars := by
  intro vars tokens tree
  -- the difference, as it is written
  let p : Phrase := .joined (.name "x") (.strict (.arithmetic .sub)) (.field (.name "p") "x")
  have hleft : Derives (.row .additive) (.name "x") :=
    (Derives.name "x").of_level_le (by decide)
  have hright : Derives (.row .multiplicative) (.field (.name "p") "x") :=
    (Derives.field "x" (.bare (.name "p"))).of_level_le (by decide)
  have hsum : Derives (.row .additive) p := .join (.strict (.arithmetic .sub)) hleft hright
  have hp : Derives (.row .or) p := hsum.of_level_le (Nat.zero_le _)
  have hparse : Parser.parseTokens tokens = .ok tree := by
    have hphrase := Parser.parseTokens_of_phrase hp
    rwa [if_pos (by decide)] at hphrase
  have hvalues : ∀ name ∈ tree.variables, ∀ v, vars.get? name = some v → v.HasLiteral := by
    intro name hname v hv
    have hnames : name = "x" ∨ name = "p" := by simpa [tree, Expr.variables] using hname
    rcases hnames with rfl | rfl
    · have hzero : v = .number (.signedZero true) := by simpa [vars] using hv.symm
      exact .inr (.inr ⟨_, hzero, rfl⟩)
    · have hstring : v = .string "s" := by simpa [vars] using hv.symm
      exact .inl ⟨_, hstring⟩
  have hopen : ¬ ∃ front back, Opens (.row .or) 256 front ∧
      front ++ back = substituted vars tokens := by
    have hsame : substituted vars tokens = (p.substitute vars).tokens :=
      (tokens_substitute vars p).symm
    rw [hsame, Parser.opens_iff_le_nesting (derives_substitute vars hp)]
    decide
  exact ⟨hparse, hvalues, hopen, by decide, evaluate_substituted hparse hvalues hopen⟩

end CanvasScript
