/-
Tokens are those of at most one phrase of a nonterminal.

A phrase of a row is a spine: an operand, and then operators of the row with an operand after
each. Two spines over the same tokens agree operand by operand, because an operator of the row
continues no operand of it. Fields after a primary are a spine of another kind. What lies
inside parentheses or behind a prefix operator has less nesting, and the induction is on that.

All of this is said of phrases with other tokens behind them, of which the first must not
continue the phrase; nothing else holds of a phrase within a phrase.
-/
import CanvasScript.Proofs.Grammar

set_option autoImplicit false

namespace CanvasScript.Grammar

/-! ## Spines -/

/-- Operands with an operator before each but the first, grouped to the left. -/
def joinAll (first : Phrase) (more : List (BinaryOp × Phrase)) : Phrase :=
  more.foldl (fun left x => .joined left x.1 x.2) first

def tailTokens (more : List (BinaryOp × Phrase)) : List Token :=
  more.flatMap fun x => .symbol x.1.symbol :: x.2.tokens

theorem tailTokens_cons (op : BinaryOp) (p : Phrase) (more : List (BinaryOp × Phrase)) :
    tailTokens ((op, p) :: more) = .symbol op.symbol :: (p.tokens ++ tailTokens more) := rfl

/-- The tokens of a spine are those of its first operand and then, for each operator, the operator
and its operand. -/
theorem tokens_joinAll (first : Phrase) (more : List (BinaryOp × Phrase)) :
    (joinAll first more).tokens = first.tokens ++ tailTokens more := by
  induction more generalizing first with
  | nil => exact (List.append_nil _).symm
  | cons x more ih =>
    obtain ⟨op, p⟩ := x
    have hstep : joinAll first ((op, p) :: more) = joinAll (.joined first op p) more := rfl
    rw [hstep, ih, Phrase.tokens, tailTokens_cons, List.append_assoc, List.cons_append]

/-- The phrases of a nonterminal with so much nesting at most. -/
def Within (n : Nonterminal) (k : Nat) (p : Phrase) : Prop := Derives n p ∧ p.nesting ≤ k

/-- The operators and operands that a row can have after its first operand. -/
def RowTail (row : Row) (k : Nat) (more : List (BinaryOp × Phrase)) : Prop :=
  ∀ x ∈ more, rowOf x.1 = row ∧ Within row.operands k x.2

/-- Every phrase of a row is a spine: a first operand and a list of operators with an operand each.
As a tree it leans to the left, and as a spine it can be read from left to right. -/
theorem spine_of_row {row : Row} {k : Nat} {p : Phrase} (h : Within (.row row) k p) :
    ∃ first more, Within row.operands k first ∧ RowTail row k more ∧ p = joinAll first more := by
  obtain ⟨hp, hnesting⟩ := h
  revert hnesting
  refine row_induction (motive := fun p => p.nesting ≤ k → ∃ first more,
    Within row.operands k first ∧ RowTail row k more ∧ p = joinAll first more) ?_ ?_ hp
  · intro p hp hnesting
    exact ⟨p, [], ⟨hp, hnesting⟩, by simp [RowTail], rfl⟩
  · -- the last operator of the row is the last of the spine
    intro left op right hop _ hright ih hnesting
    rw [Phrase.nesting, Nat.max_le] at hnesting
    obtain ⟨first, more, hfirst, hmore, rfl⟩ := ih hnesting.1
    refine ⟨first, more ++ [(op, right)], hfirst, ?_, ?_⟩
    · intro x hx
      rcases List.mem_append.1 hx with hx | hx
      · exact hmore x hx
      · obtain rfl := List.mem_singleton.1 hx
        exact ⟨hop, hright, hnesting.2⟩
    · rw [joinAll, joinAll, List.foldl_append, List.foldl_cons, List.foldl_nil]

/-! ## Rows -/

/-- Phrases with so much nesting are told apart by their tokens, with anything behind them that
ends them. -/
def Unambiguous (n : Nonterminal) (k : Nat) : Prop :=
  ∀ p p' rest rest', Within n k p → Within n k p' → Stops n.binds rest → Stops n.binds rest' →
    p.tokens ++ rest = p'.tokens ++ rest' → p = p' ∧ rest = rest'

/-- What comes behind an operand of a spine does not continue it: the next operator of the row, or
what comes behind the whole spine. -/
theorem stops_tailTokens {row : Row} {k : Nat} {more : List (BinaryOp × Phrase)}
    {rest : List Token} (hmore : RowTail row k more) (hrest : Stops row.binds rest) :
    Stops row.operands.binds (tailTokens more ++ rest) := by
  rw [binds_operands]
  rcases more with _ | ⟨⟨op, p⟩, more⟩
  · exact hrest.mono (Nat.le_succ _)
  · rw [tailTokens_cons, List.cons_append, stops_op, (hmore _ List.mem_cons_self).1]
    exact Nat.lt_succ_self _

/-- An operator of the row does not end a phrase of it. -/
theorem not_stops_tailTokens {row : Row} {k : Nat} {op : BinaryOp} {p : Phrase}
    {more : List (BinaryOp × Phrase)} {rest : List Token}
    (hmore : RowTail row k ((op, p) :: more)) :
    ¬ Stops row.binds (tailTokens ((op, p) :: more) ++ rest) := by
  rw [tailTokens_cons, List.cons_append, stops_op, (hmore _ List.mem_cons_self).1]
  exact Nat.lt_irrefl _

/-- Two spines over the same tokens are the same. The induction is on the first, and at each step
the operands are the same since the row's operands are unambiguous. -/
theorem spine_unique {row : Row} {k : Nat}
    (hoperands : Unambiguous row.operands k)
    {first first' : Phrase} {more more' : List (BinaryOp × Phrase)} {rest rest' : List Token}
    (hfirst : Within row.operands k first) (hfirst' : Within row.operands k first')
    (hmore : RowTail row k more) (hmore' : RowTail row k more')
    (hrest : Stops row.binds rest) (hrest' : Stops row.binds rest')
    (htokens : first.tokens ++ (tailTokens more ++ rest) =
      first'.tokens ++ (tailTokens more' ++ rest')) :
    first = first' ∧ more = more' ∧ rest = rest' := by
  induction more generalizing first first' more' with
  | nil =>
    obtain ⟨hsame, htail⟩ := hoperands _ _ _ _ hfirst hfirst' (stops_tailTokens hmore hrest)
      (stops_tailTokens hmore' hrest') htokens
    rcases more' with _ | ⟨⟨op, p⟩, more'⟩
    · exact ⟨hsame, rfl, htail⟩
    · -- the other spine goes on with an operator, which cannot be what ends this one
      rw [tailTokens, List.flatMap_nil, List.nil_append] at htail
      rw [htail] at hrest
      exact absurd hrest (not_stops_tailTokens hmore')
  | cons x more ih =>
    obtain ⟨op, p⟩ := x
    obtain ⟨hsame, htail⟩ := hoperands _ _ _ _ hfirst hfirst' (stops_tailTokens hmore hrest)
      (stops_tailTokens hmore' hrest') htokens
    rcases more' with _ | ⟨⟨op', p'⟩, more'⟩
    · -- the same with the two spines exchanged
      have hnil : tailTokens [] ++ rest' = rest' := rfl
      rw [hnil] at htail
      rw [← htail] at hrest'
      exact absurd hrest' (not_stops_tailTokens hmore)
    · rw [tailTokens_cons, tailTokens_cons, List.cons_append, List.cons_append,
        List.append_assoc, List.append_assoc] at htail
      obtain ⟨hsymbol, hnext⟩ := List.cons.inj htail
      obtain rfl := binary_symbol_injective (Token.symbol.inj hsymbol)
      obtain ⟨-, hp⟩ := hmore _ List.mem_cons_self
      obtain ⟨-, hp'⟩ := hmore' _ List.mem_cons_self
      obtain ⟨rfl, rfl, hrests⟩ := ih hp hp' (fun x hx => hmore x (List.mem_cons_of_mem _ hx))
        (fun x hx => hmore' x (List.mem_cons_of_mem _ hx)) hnext
      exact ⟨hsame, rfl, hrests⟩

/-- A row is unambiguous when what it joins is. Its operators end its operands, so the cuts between
them can be seen from the tokens. -/
theorem unambiguous_row {row : Row} {k : Nat} (hoperands : Unambiguous row.operands k) :
    Unambiguous (.row row) k := by
  intro p p' rest rest' hp hp' hrest hrest' htokens
  obtain ⟨first, more, hfirst, hmore, rfl⟩ := spine_of_row hp
  obtain ⟨first', more', hfirst', hmore', rfl⟩ := spine_of_row hp'
  rw [tokens_joinAll, tokens_joinAll, List.append_assoc, List.append_assoc] at htokens
  obtain ⟨rfl, rfl, hrests⟩ :=
    spine_unique hoperands hfirst hfirst' hmore hmore' hrest hrest' htokens
  exact ⟨rfl, hrests⟩

/-! ## Fields -/

/-- Names of fields after an owner. -/
def fieldAll (owner : Phrase) (words : List String) : Phrase := words.foldl .field owner

def fieldTokens (words : List String) : List Token :=
  words.flatMap fun word => [.symbol .dot, .identifier word]

/-- The tokens of fields are those of their owner, and then a point and a name for each. -/
theorem tokens_fieldAll (owner : Phrase) (words : List String) :
    (fieldAll owner words).tokens = owner.tokens ++ fieldTokens words := by
  induction words generalizing owner with
  | nil => exact (List.append_nil _).symm
  | cons word words ih =>
    have hstep : fieldAll owner (word :: words) = fieldAll (.field owner word) words := rfl
    rw [hstep, ih, Phrase.tokens, List.append_assoc]
    rfl

/-- Fields do not nest. -/
theorem nesting_fieldAll (owner : Phrase) (words : List String) :
    (fieldAll owner words).nesting = owner.nesting := by
  induction words generalizing owner with
  | nil => rfl
  | cons word words ih => exact ih (.field owner word)

/-- Every access is a primary with fields behind it. -/
theorem spine_of_access {p : Phrase} (h : Derives .access p) :
    ∃ owner words, Derives .primary owner ∧ p = fieldAll owner words := by
  refine access_induction (motive := fun p => ∃ owner words, Derives .primary owner ∧
    p = fieldAll owner words) ?_ ?_ h
  · intro p hp
    exact ⟨p, [], hp, rfl⟩
  · rintro _ word - ⟨owner, words, howner, rfl⟩
    refine ⟨owner, words ++ [word], howner, ?_⟩
    rw [fieldAll, fieldAll, List.foldl_append, List.foldl_cons, List.foldl_nil]

/-- Fields over the same tokens are the same, if what comes behind them is no further one. Each
field is a point and a name, so it can be seen where they end. -/
theorem fieldTokens_unique {binds : Nat} {words words' : List String} {rest rest' : List Token}
    (hrest : Stops binds rest) (hrest' : Stops binds rest')
    (htokens : fieldTokens words ++ rest = fieldTokens words' ++ rest') :
    words = words' ∧ rest = rest' := by
  induction words generalizing words' with
  | nil =>
    rcases words' with _ | ⟨word', words'⟩
    · exact ⟨rfl, htokens⟩
    · -- a point continues an access
      have hdot : rest = .symbol .dot :: .identifier word' :: (fieldTokens words' ++ rest') :=
        htokens
      rw [hdot] at hrest
      exact absurd hrest Stops.not_dot
  | cons word words ih =>
    rcases words' with _ | ⟨word', words'⟩
    · -- the same with the two lists of fields exchanged
      have hdot : .symbol .dot :: .identifier word :: (fieldTokens words ++ rest) = rest' :=
        htokens
      rw [← hdot] at hrest'
      exact absurd hrest' Stops.not_dot
    · have hcons : Token.symbol .dot :: .identifier word :: (fieldTokens words ++ rest) =
          .symbol .dot :: .identifier word' :: (fieldTokens words' ++ rest') := htokens
      simp only [List.cons.injEq, Token.identifier.injEq, true_and] at hcons
      obtain ⟨rfl, hnext⟩ := hcons
      obtain ⟨rfl, hrests⟩ := ih hnext
      exact ⟨rfl, hrests⟩

/-! ## Everything else -/

/-- A primary ends where it ends, whatever comes behind it. Only a group needs an argument, and that
is about what is inside, which nests less. -/
theorem primary_unique {k : Nat} (hinner : ∀ j < k, Unambiguous (.row .or) j) {p p' : Phrase}
    {rest rest' : List Token} (hp : Within .primary k p) (hp' : Within .primary k p')
    (htokens : p.tokens ++ rest = p'.tokens ++ rest') : p = p' ∧ rest = rest' := by
  obtain ⟨hp, hnesting⟩ := hp
  obtain ⟨hp', hnesting'⟩ := hp'
  -- the first token tells the kinds of primaries apart, so only the four on the diagonal stay
  rcases hp with _ | _ | _ | _ | _ | _ | x | s | word | hin <;>
    rcases hp' with _ | _ | _ | _ | _ | _ | x' | s' | word' | hin' <;>
    simp only [Phrase.tokens, List.cons_append, List.nil_append, List.cons.injEq, reduceCtorEq,
      Token.number.injEq, Token.string.injEq, Token.identifier.injEq, false_and, true_and,
      List.append_assoc] at htokens
  · simpa using htokens
  · simpa using htokens
  · simpa using htokens
  · -- the closing parenthesis ends what is inside, whatever that is
    rw [Phrase.nesting] at hnesting hnesting'
    obtain ⟨rfl, hclosed⟩ := hinner (k - 1) (by omega) _ _ _ _ ⟨hin, by omega⟩
      ⟨hin', by omega⟩ (.closeParen _ _) (.closeParen _ _) htokens
    exact ⟨rfl, (List.cons.inj hclosed).2⟩

/-- Accesses are unambiguous if what may stand in parentheses is. -/
theorem unambiguous_access {k : Nat} (hinner : ∀ j < k, Unambiguous (.row .or) j) :
    Unambiguous .access k := by
  rintro p p' rest rest' ⟨hp, hnesting⟩ ⟨hp', hnesting'⟩ hrest hrest' htokens
  obtain ⟨owner, words, howner, rfl⟩ := spine_of_access hp
  obtain ⟨owner', words', howner', rfl⟩ := spine_of_access hp'
  rw [nesting_fieldAll] at hnesting hnesting'
  rw [tokens_fieldAll, tokens_fieldAll, List.append_assoc, List.append_assoc] at htokens
  obtain ⟨rfl, hfields⟩ :=
    primary_unique hinner ⟨howner, hnesting⟩ ⟨howner', hnesting'⟩ htokens
  obtain ⟨rfl, hrests⟩ := fieldTokens_unique hrest hrest' hfields
  exact ⟨rfl, hrests⟩

/-- An access begins with no prefix operator. -/
theorem access_tokens_ne {p : Phrase} (h : Derives .access p) (op : PrefixOp)
    (rest more : List Token) : p.tokens ++ rest ≠ .symbol op.symbol :: more := by
  obtain ⟨owner, words, howner, rfl⟩ := spine_of_access h
  rw [tokens_fieldAll, List.append_assoc]
  intro htokens
  rcases howner with _ | _ | _ | _ | _ | _ | x | s | word | hin
  · simp [Phrase.tokens] at htokens
  · simp [Phrase.tokens] at htokens
  · simp [Phrase.tokens] at htokens
  · cases op <;> simp [Phrase.tokens, PrefixOp.symbol] at htokens

/-- Unaries are unambiguous if those with less nesting are, behind prefix operators and in
parentheses. The first token says whether there is a prefix operator. -/
theorem unambiguous_unary {k : Nat} (hoperand : ∀ j < k, Unambiguous .unary j)
    (hinner : ∀ j < k, Unambiguous (.row .or) j) : Unambiguous .unary k := by
  rintro p p' rest rest' ⟨hp, hnesting⟩ ⟨hp', hnesting'⟩ hrest hrest' htokens
  rcases hp with _ | _ | ⟨op, hop⟩ | haccess
  · rcases hp' with _ | _ | ⟨op', hop'⟩ | haccess'
    · simp only [Phrase.tokens, List.cons_append, List.cons.injEq, Token.symbol.injEq] at htokens
      obtain ⟨hsymbol, hnext⟩ := htokens
      obtain rfl := prefix_symbol_injective hsymbol
      rw [Phrase.nesting] at hnesting hnesting'
      obtain ⟨rfl, hrests⟩ := hoperand (k - 1) (by omega) _ _ _ _ ⟨hop, by omega⟩
        ⟨hop', by omega⟩ hrest hrest' hnext
      exact ⟨rfl, hrests⟩
    · exact absurd htokens.symm (access_tokens_ne haccess' op _ _)
  · rcases hp' with _ | _ | ⟨op', hop'⟩ | haccess'
    · exact absurd htokens (access_tokens_ne haccess op' _ _)
    · exact unambiguous_access hinner _ _ _ _ ⟨haccess, hnesting⟩ ⟨haccess', hnesting'⟩
        hrest hrest' htokens

/-- So are whole expressions, row by row from the tightest to the loosest. -/
theorem unambiguous_or {k : Nat} (hunary : Unambiguous .unary k) :
    Unambiguous (.row .or) k := by
  have hproduct : Unambiguous (.row .multiplicative) k := unambiguous_row hunary
  have hsum : Unambiguous (.row .additive) k := unambiguous_row hproduct
  have horder : Unambiguous (.row .relational) k := unambiguous_row hsum
  have hequality : Unambiguous (.row .equality) k := unambiguous_row horder
  have hand : Unambiguous (.row .and) k := unambiguous_row hequality
  exact unambiguous_row hand

/-- Unaries of any nesting are unambiguous. The induction is on the nesting, over all smaller ones,
since one step may close more than one parenthesis. -/
theorem unambiguous (k : Nat) : Unambiguous .unary k := by
  induction k using Nat.strongRecOn with
  | _ k ih => exact unambiguous_unary ih fun j hj => unambiguous_or (ih j hj)

/-- **An expression is written in one way only**, by its tokens. Two phrases with the same tokens
are the same phrase, so the tree of a text is not a matter of choice. -/
theorem Derives.unique {p p' : Phrase} (hp : Derives (.row .or) p) (hp' : Derives (.row .or) p')
    (htokens : p.tokens = p'.tokens) : p = p' := by
  have hrow := unambiguous_or (unambiguous (max p.nesting p'.nesting))
  exact (hrow p p' [] [] ⟨hp, Nat.le_max_left _ _⟩ ⟨hp', Nat.le_max_right _ _⟩ (.nil _) (.nil _)
    (by rw [htokens])).1

end CanvasScript.Grammar
