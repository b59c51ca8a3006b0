/-
The parser accepts exactly its grammar, with exactly the stated limit of nesting.

An operand is read with the room that is left; what stands in parentheses, or behind a prefix
operator, is read with one less. So the induction is on the room, and its step needs of
the smaller room only that its reader follows the grammar: through the six levels for
parentheses, at once for a prefix operator.

That a reader follows the grammar says also where it must answer that something nests too
deeply. Hence that answer comes exactly when 256 parentheses and prefix operators are open at
some place of what has been read, and however many there are side by side, they are no
reason for it.
-/
import CanvasScript.Expr.Evaluation
import CanvasScript.Proofs.Reading
import CanvasScript.Proofs.Unambiguity

set_option autoImplicit false

namespace CanvasScript.Parser

open Grammar

/-! ## Fields -/

/-- A point and a name are taken as a field of what was read before, and then further fields are
looked for. -/
theorem bare_fieldsAfter_field (owner : Expr) (word : String) (tokens : List Token) :
    bare (fieldsAfter owner (.symbol .dot :: .identifier word :: tokens)) =
      bare (fieldsAfter (.field owner word) tokens) := by
  rw [fieldsAfter]
  rcases fieldsAfter (.field owner word) tokens with fault | ⟨tree, rest⟩
  · rfl
  · rfl

/-- Fields have nothing to read, or a field name comes next, or only a point. Only in the last case
they fail, and that does not depend on their owner. -/
theorem fieldsAfter_cases (tokens : List Token) :
    (∀ owner, bare (fieldsAfter owner tokens) = .ok (owner, tokens)) ∨
      (∃ word more, tokens = .symbol .dot :: .identifier word :: more) ∨
      (∃ more, tokens = .symbol .dot :: more) ∧
        ∀ owner, ∃ found,
          bare (fieldsAfter owner tokens) = .error (.expected .fieldName found) := by
  by_cases hfield : ∃ word more, tokens = .symbol .dot :: .identifier word :: more
  · exact .inr (.inl hfield)
  -- behind a point there must be a name, which is ruled out here
  by_cases hdot : ∃ more, tokens = .symbol .dot :: more
  · refine .inr (.inr ⟨hdot, ?_⟩)
    intro owner
    rw [fieldsAfter.eq_def]
    split
    · rename_i word more
      exact absurd ⟨word, more, rfl⟩ hfield
    · exact ⟨_, rfl⟩
    · rename_i hne
      obtain ⟨more, rfl⟩ := hdot
      exact absurd rfl (hne _)
  · left
    intro owner
    rw [fieldsAfter.eq_def]
    split
    · rename_i word more
      exact absurd ⟨word, more, rfl⟩ hfield
    · rename_i more _
      exact absurd ⟨more, rfl⟩ hdot
    · rfl

/-- In front of a token that ends phrases there are no more fields. -/
theorem fieldsAfter_of_stops {binds : Nat} {tokens : List Token} (h : Stops binds tokens)
    (owner : Expr) : bare (fieldsAfter owner tokens) = .ok (owner, tokens) := by
  rcases fieldsAfter_cases tokens with hstop | ⟨word, more, rfl⟩ | ⟨⟨more, rfl⟩, -⟩
  · exact hstop owner
  · exact absurd h Stops.not_dot
  · exact absurd h Stops.not_dot

/-- What is answered about fields is justified by their owner and what follows it. The owner with
one field is an owner again, and there is never anything too deep in fields. -/
theorem justified_fieldsAfter {room : Nat} {owner : Phrase} (howner : Derives .access owner)
    (hroom : owner.nesting ≤ room) (tokens : List Token) :
    Justified .unary room (owner.tokens ++ tokens) (bare (fieldsAfter owner.tree tokens)) := by
  obtain ⟨n, hlength⟩ : ∃ n, tokens.length < n := ⟨_, Nat.lt_succ_self _⟩
  -- each field is shorter by two tokens, so the induction is on a bound of their number
  induction n generalizing owner tokens with
  | zero => omega
  | succ n ih =>
    rcases fieldsAfter_cases tokens with hstop | ⟨word, more, rfl⟩ | ⟨-, hfault⟩
    · rw [hstop]
      exact ⟨owner, .unsigned howner, rfl, rfl, hroom⟩
    · rw [List.length_cons, List.length_cons] at hlength
      rw [bare_fieldsAfter_field, ← Phrase.tokens_field_append]
      exact ih (.field word howner) hroom more (by omega)
    · obtain ⟨found, hfault⟩ := hfault owner.tree
      rw [hfault]
      intro h
      simp at h

/-! ## Operands -/

/-- The fields behind a single token are looked for in the tokens that follow it. -/
theorem bare_fieldsOf (owner : Expr) (token : Token) (tokens : List Token) :
    bare (fieldsOf owner token tokens) = bare (fieldsAfter owner tokens) := by
  rw [fieldsOf]
  rcases fieldsAfter owner tokens with fault | ⟨tree, rest⟩
  · rfl
  · rfl

/-- Behind a prefix operator an operand is read with one less of room. -/
theorem bare_operand_signed (room : Nat) (op : PrefixOp) (tokens : List Token) :
    bare (operand (room + 1) (.symbol op.symbol :: tokens)) =
      (bare (operand room tokens)).bind fun (tree, rest) => .ok (.unary op tree, rest) := by
  cases op
  · rw [PrefixOp.symbol, operand]
    rcases operand room tokens with fault | ⟨tree, rest⟩
    · rfl
    · rfl
  · rw [PrefixOp.symbol, operand]
    rcases operand room tokens with fault | ⟨tree, rest⟩
    · rfl
    · rfl

/-- What comes after the inside of parentheses. -/
def closedBare (inner : Expr) : List Token → Except EvalError (Expr × List Token)
  | .symbol .closeParen :: tokens => bare (fieldsAfter inner tokens)
  | tokens => .error (.expected .closeParen tokens.head?)

/-- Behind what stands in a group, its closing parenthesis is there or is reported as missing. -/
theorem closedBare_cases (tokens : List Token) :
    (∃ more, tokens = .symbol .closeParen :: more) ∨
      ∀ inner, closedBare inner tokens = .error (.expected .closeParen tokens.head?) := by
  by_cases hclose : ∃ more, tokens = .symbol .closeParen :: more
  · exact .inl hclose
  · right
    intro inner
    rw [closedBare.eq_def]
    split
    · rename_i more
      exact absurd ⟨more, rfl⟩ hclose
    · rfl

/-- The same with the count of tokens forgotten, which the parser keeps for its termination. What it
answers does not depend on that count. -/
theorem bare_closed (inner : Expr) (opening : Token) {tokens : List Token}
    (rest : Fewer tokens) : bare (closed inner opening rest) = closedBare inner rest.val := by
  obtain ⟨rest, hrest⟩ := rest
  by_cases hclose : ∃ more, rest = .symbol .closeParen :: more
  · obtain ⟨more, rfl⟩ := hclose
    change bare ((fieldsAfter inner more).map _) = bare (fieldsAfter inner more)
    rcases fieldsAfter inner more with fault | ⟨tree, last⟩
    · rfl
    · rfl
  · have hnone : afterClose? rest = none := by
      rw [afterClose?.eq_def]
      split
      · rename_i more
        exact absurd ⟨more, rfl⟩ hclose
      · rfl
    have hfault : closedBare inner rest = .error (.expected .closeParen rest.head?) :=
      (closedBare_cases rest).resolve_left hclose inner
    rw [closed, hfault]
    simp only [hnone]
    rfl

/-- Behind an opening parenthesis a whole expression is read with one less of room, and then the
closing one. -/
theorem bare_operand_group (room : Nat) (tokens : List Token) :
    bare (operand (room + 1) (.symbol .openParen :: tokens)) =
      (bare (joined (operand room) tokens)).bind fun (inner, rest) => closedBare inner rest := by
  rw [operand]
  rcases joined (operand room) tokens with fault | ⟨inner, rest⟩
  · rfl
  · exact bare_closed inner _ rest

/-- A primary is a single token or a group. A single token is read at once and cannot be too deep.
-/
theorem primary_cases {p : Phrase} (h : Derives .primary p) :
    (p.nesting = 0 ∧ ∀ room more,
        bare (operand room (p.tokens ++ more)) = bare (fieldsAfter p.tree more)) ∨
      ∃ inner, p = .group inner ∧ Derives (.row .or) inner := by
  rcases h with _ | _ | _ | _ | _ | _ | x | s | word | hinner
  · refine .inl ⟨rfl, fun room more => ?_⟩
    rw [Phrase.tokens, List.singleton_append, operand, bare_fieldsOf, Phrase.tree]
  · refine .inl ⟨rfl, fun room more => ?_⟩
    rw [Phrase.tokens, List.singleton_append, operand, bare_fieldsOf, Phrase.tree]
  · refine .inl ⟨rfl, fun room more => ?_⟩
    rw [Phrase.tokens, List.singleton_append, operand, bare_fieldsOf, Phrase.tree]
  · exact .inr ⟨_, rfl, hinner⟩

/-- The tokens that an operand can begin with. A primary is there as a whole if it is no group, and
of the others the first token is known. -/
theorem operand_cases (tokens : List Token) :
    (∃ p more, Derives .primary p ∧ (∀ inner, p ≠ .group inner) ∧ tokens = p.tokens ++ more) ∨
      (∃ op : PrefixOp, ∃ more, tokens = .symbol op.symbol :: more) ∨
      (∃ more, tokens = .symbol .openParen :: more) ∨
      ∀ room, ∃ fault, fault ≠ .tooDeep ∧ bare (operand room tokens) = .error fault := by
  rcases tokens with _ | ⟨x | s | word | s, more⟩
  · refine .inr (.inr (.inr fun room => ⟨.expected .operand none, by simp, ?_⟩))
    rw [operand]
    rfl
  · exact .inl ⟨.number x, more, .number x, by simp, rfl⟩
  · exact .inl ⟨.string s, more, .string s, by simp, rfl⟩
  · exact .inl ⟨.name word, more, .name word, by simp, rfl⟩
  · by_cases hminus : s = .minus
    · exact .inr (.inl ⟨.neg, more, by rw [hminus]; rfl⟩)
    by_cases hbang : s = .bang
    · exact .inr (.inl ⟨.not, more, by rw [hbang]; rfl⟩)
    by_cases hopen : s = .openParen
    · exact .inr (.inr (.inl ⟨more, by rw [hopen]⟩))
    -- no other symbol begins an operand, with room or without
    refine .inr (.inr (.inr fun room => ⟨.unexpectedToken (.symbol s), by simp, ?_⟩))
    rw [operand.eq_def]
    cases room <;> cases s <;> first | rfl | contradiction

/-! ## Room -/

/-- Without any room a prefix operator is reported as too deep, before anything behind it is read.
-/
theorem operand_zero_signed (op : PrefixOp) (tokens : List Token) :
    bare (operand 0 (.symbol op.symbol :: tokens)) = .error .tooDeep := by
  cases op <;> rfl

theorem operand_zero_group (tokens : List Token) :
    bare (operand 0 (.symbol .openParen :: tokens)) = .error .tooDeep := rfl

section Operand

variable {room : Nat}

/-- An access goes into the accumulator of the fields. The induction is on the access, from the
owner at its front to the last of its fields, which is the order in which they are read. -/
theorem operand_eq_fieldsAfter
    (hbelow : ∀ r, room = r + 1 → Reads (.row .or) r (joined (operand r)))
    {p : Phrase} (hp : Derives .access p) (rest : List Token) :
    bare (operand room (p.tokens ++ rest)) =
      if p.nesting ≤ room then bare (fieldsAfter p.tree rest) else .error .tooDeep := by
  revert rest
  refine access_induction (motive := fun p => ∀ rest, bare (operand room (p.tokens ++ rest)) =
    if p.nesting ≤ room then bare (fieldsAfter p.tree rest) else .error .tooDeep) ?_ ?_ hp
  · intro p hp rest
    rcases primary_cases hp with ⟨hnesting, hfields⟩ | ⟨inner, rfl, hinner⟩
    · rw [hnesting, if_pos (Nat.zero_le room), hfields]
    · rw [Phrase.tokens_group_append, Phrase.nesting, Phrase.tree]
      -- without room nothing fits in parentheses, else the inside has one less
      rcases room with _ | r
      · rw [operand_zero_group, if_neg (Nat.not_succ_le_zero _)]
      · rw [bare_operand_group, (hbelow r rfl).reads inner _ hinner (.closeParen _ _),
          bind_of_fits]
        simp only [Nat.add_le_add_iff_right]
        rfl
  · intro owner word _ ih rest
    rw [Phrase.tokens_field_append, ih, bare_fieldsAfter_field, Phrase.nesting, Phrase.tree]

/-- A unary of the grammar is read as its tree, if there is room for it, and is too deep otherwise.
The induction on room is made by whoever calls this. -/
theorem operand_reads (hbelow : ∀ r, room = r + 1 → Reads .unary r (operand r)) {p : Phrase}
    {rest : List Token} (hp : Derives .unary p) (hrest : Stops Nonterminal.unary.binds rest) :
    bare (operand room (p.tokens ++ rest)) =
      if p.nesting ≤ room then .ok (p.tree, rest) else .error .tooDeep := by
  rcases hp with _ | _ | ⟨op, hoperand⟩ | haccess
  · rename_i inner
    rw [Phrase.tokens, List.cons_append, Phrase.nesting, Phrase.tree]
    rcases room with _ | r
    · rw [operand_zero_signed, if_neg (Nat.not_succ_le_zero _)]
    · rw [bare_operand_signed, (hbelow r rfl).reads inner rest hoperand hrest, bind_of_fits]
      simp only [Nat.add_le_add_iff_right]
  · rw [operand_eq_fieldsAfter (fun r hr => reads_joined (hbelow r hr)) haccess,
      fieldsAfter_of_stops hrest]

/-- Where more is open than there is room, the answer is that it is too deep, whatever comes behind.
In this the reader differs from one that looks at the whole text first. -/
theorem operand_tooDeep (hbelow : ∀ r, room = r + 1 → Reads .unary r (operand r))
    {front : List Token} (h : Opens .unary (room + 1) front) (back : List Token) :
    bare (operand room (front ++ back)) = .error .tooDeep := by
  rcases h with _ | _ | _ | ⟨op, hfront⟩ | haccess
  · rename_i front
    rw [List.cons_append]
    rcases room with _ | r
    · exact operand_zero_signed op _
    · rw [bare_operand_signed, (hbelow r rfl).tooDeep front back hfront]
      rfl
  · -- of an access, only a parenthesis at its beginning can be open
    rcases haccess with _ | _ | _ | _ | _ | hprimary
    rcases hprimary with _ | _ | _ | _ | _ | _ | hfront
    rename_i front
    rw [List.cons_append]
    rcases room with _ | r
    · exact operand_zero_group _
    · rw [bare_operand_group, (reads_joined (hbelow r rfl)).tooDeep front back hfront]
      rfl

/-- Whatever the reader of operands answers is justified by the grammar, for all tokens. A tree
comes from a phrase at the front of the tokens, and the answer that it is too deep from something at
the front that is open so often. -/
theorem justified_operand (hbelow : ∀ r, room = r + 1 → Reads .unary r (operand r))
    (tokens : List Token) : Justified .unary room tokens (bare (operand room tokens)) := by
  rcases operand_cases tokens with ⟨p, more, hp, hne, rfl⟩ | ⟨op, more, rfl⟩ | ⟨more, rfl⟩ |
    hfault
  · -- a group begins with a parenthesis, and is in another case
    rcases primary_cases hp with ⟨hnesting, hfields⟩ | ⟨inner, rfl, -⟩
    · rw [hfields]
      exact justified_fieldsAfter (.bare hp) (by omega) more
    · exact absurd rfl (hne inner)
  · rcases room with _ | r
    · rw [operand_zero_signed]
      intro _
      exact ⟨[.symbol op.symbol], more, .signed op (.none .unary), rfl⟩
    · have hjustified := (hbelow r rfl).justified more
      rw [bare_operand_signed]
      rcases hread : bare (operand r more) with fault | ⟨tree, rest⟩
      · rw [hread] at hjustified
        intro hfault
        obtain ⟨front, back, hopens, rfl⟩ := hjustified hfault
        exact ⟨.symbol op.symbol :: front, back, .signed op hopens, rfl⟩
      · rw [hread] at hjustified
        obtain ⟨inner, hinner, rfl, rfl, hroom⟩ := hjustified
        exact ⟨.signed op inner, .signed op hinner, rfl, rfl, Nat.succ_le_succ hroom⟩
  · rcases room with _ | r
    · rw [operand_zero_group]
      intro _
      exact ⟨[.symbol .openParen], more, .unsigned (.bare (.group (.none (.row .or)))), rfl⟩
    · have hjustified := (reads_joined (hbelow r rfl)).justified more
      rw [bare_operand_group]
      rcases hread : bare (joined (operand r) more) with fault | ⟨tree, rest⟩
      · rw [hread] at hjustified
        intro hfault
        obtain ⟨front, back, hopens, rfl⟩ := hjustified hfault
        exact ⟨.symbol .openParen :: front, back, .unsigned (.bare (.group hopens)), rfl⟩
      · rw [hread] at hjustified
        obtain ⟨inner, hinner, rfl, rfl, hroom⟩ := hjustified
        change Justified .unary (r + 1) _ (closedBare inner.tree rest)
        -- the closing parenthesis is there, and fields may follow it, or it is missing
        rcases closedBare_cases rest with ⟨more, rfl⟩ | hfault
        · rw [← Phrase.tokens_group_append]
          exact justified_fieldsAfter (.bare (.group hinner)) (Nat.succ_le_succ hroom) more
        · rw [hfault]
          intro h
          simp at h
  · obtain ⟨fault, hne, hfault⟩ := hfault room
    rw [hfault]
    intro h
    exact absurd h hne

end Operand

/-- **An operand follows the unaries of the grammar**, with any room. The induction is on the room,
as a prefix operator and a parenthesis have one less inside and nothing else makes the parser call
itself. -/
theorem reads_operand (room : Nat) : Reads .unary room (operand room) := by
  have step : ∀ room, (∀ r, room = r + 1 → Reads .unary r (operand r)) →
      Reads .unary room (operand room) := fun room hbelow =>
    ⟨fun _ _ hp hrest => operand_reads hbelow hp hrest,
      fun _ back hfront => operand_tooDeep hbelow hfront back, justified_operand hbelow⟩
  induction room with
  | zero =>
    refine step 0 ?_
    intro r hr
    omega
  | succ room ih =>
    refine step (room + 1) ?_
    intro r hr
    obtain rfl := Nat.succ.inj hr
    exact ih

/-- So much is open somewhere in an expression exactly if its nesting is no less. It follows from
two things that the reader does with the same tokens, so the grammar need not be looked into. -/
theorem opens_iff_le_nesting {p : Phrase} (hp : Derives (.row .or) p) (k : Nat) :
    (∃ front back, Opens (.row .or) k front ∧ front ++ back = p.tokens) ↔ k ≤ p.nesting := by
  rcases k with _ | room
  · exact ⟨fun _ => Nat.zero_le _, fun _ => ⟨[], p.tokens, .none _, rfl⟩⟩
  · have hreads := reads_joined (reads_operand room)
    have hp := hreads.reads p [] hp (.nil _)
    rw [List.append_nil] at hp
    constructor
    · -- with room for the nesting of the phrase, the reader would have to answer both
      rintro ⟨front, back, hopens, htokens⟩
      by_contra hroom
      rw [← htokens, hreads.tooDeep front back hopens, if_pos (by omega)] at hp
      simp at hp
    · intro hnesting
      have hjustified := hreads.justified p.tokens
      rw [hp, if_neg (by omega)] at hjustified
      exact hjustified rfl

/-! ## Whole expressions -/

/-- All tokens have to be read. -/
def whole : Expr × List Token → Except EvalError Expr
  | (tree, []) => .ok tree
  | (_, token :: _) => .error (.unexpectedToken token)

/-- A text is read as a row of the loosest operators with nothing left behind it. -/
theorem parseTokens_eq_bind (tokens : List Token) :
    parseTokens tokens = (bare (joined (operand roomAtTop) tokens)).bind whole := by
  rw [parseTokens]
  rcases joined (operand roomAtTop) tokens with fault | ⟨tree, rest, hrest⟩
  · rfl
  · rcases rest with _ | ⟨token, more⟩
    · rfl
    · rfl

/-- An expression of the grammar is read as its tree if it nests to a depth of at most 255, and is
too deep otherwise. -/
theorem parseTokens_of_phrase {p : Phrase} (hp : Derives (.row .or) p) :
    parseTokens p.tokens = if p.nesting ≤ 255 then .ok p.tree else .error .tooDeep := by
  have hread := (reads_joined (reads_operand roomAtTop)).reads p [] hp (.nil _)
  rw [List.append_nil] at hread
  rw [parseTokens_eq_bind, hread, roomAtTop, bind_of_fits]
  rfl

/-- Reading ends at a token that continues no phrase. -/
theorem parseTokens_append_of_stops {p : Phrase} (hp : Derives (.row .or) p)
    (hnesting : p.nesting ≤ 255) {token : Token} {rest : List Token}
    (hstops : Stops Row.or.binds (token :: rest)) :
    parseTokens (p.tokens ++ token :: rest) = .error (.unexpectedToken token) := by
  have hread := (reads_joined (reads_operand roomAtTop)).reads p (token :: rest) hp hstops
  rw [parseTokens_eq_bind, hread, roomAtTop, if_pos hnesting]
  rfl

/-- A text with the tokens of a phrase is read as the tree that the phrase stands for. -/
theorem parse_of_phrase {text : String} {n : Nonterminal} {p : Phrase}
    (htokens : Lexer.tokens text.toList = .ok p.tokens) (hp : Derives n p)
    (hnesting : p.nesting ≤ 255) : parse text = .ok p.tree := by
  have hparse : parse text = parseTokens p.tokens := by
    rw [parse, htokens]
    rfl
  have hrow : Derives (.row .or) p := hp.of_level_le (Nat.zero_le _)
  rw [hparse, parseTokens_of_phrase hrow, if_pos hnesting]

/-- So a text with the tokens of a phrase has the value of its tree. -/
theorem evaluateText_of_phrase {text : String} {n : Nonterminal} {p : Phrase}
    (htokens : Lexer.tokens text.toList = .ok p.tokens) (hp : Derives n p)
    (hnesting : p.nesting ≤ 255) (vars : Bindings) :
    evaluateText vars text = p.tree.evaluate vars := by
  rw [evaluateText, parse_of_phrase htokens hp hnesting]
  rfl

/-- What is read is an expression of the grammar, with just these tokens and this tree. The reader
may leave tokens, but an answer is given only if it has left none. -/
theorem phrase_of_parseTokens {tokens : List Token} {tree : Expr}
    (h : parseTokens tokens = .ok tree) :
    ∃ p, Derives (.row .or) p ∧ p.tokens = tokens ∧ p.tree = tree ∧ p.nesting ≤ 255 := by
  have hjustified := (reads_joined (reads_operand roomAtTop)).justified tokens
  rw [parseTokens_eq_bind] at h
  -- a fault of the reader is the answer
  rcases hread : bare (joined (operand roomAtTop) tokens) with fault | ⟨read, rest⟩
  · rw [hread] at h
    simp [Except.bind] at h
  · rw [hread] at h hjustified
    obtain ⟨p, hp, htokens, rfl, hroom⟩ := hjustified
    -- a tree is the answer only if nothing is left
    rcases rest with _ | ⟨token, rest⟩
    · obtain rfl := Except.ok.inj h
      exact ⟨p, hp, by rw [← htokens, List.append_nil], rfl, hroom⟩
    · simp [Except.bind, whole] at h

/-- That something nests too deeply is answered exactly if 256 are open somewhere. Faults behind
that place do not show, and faults before it win. -/
theorem parseTokens_eq_tooDeep_iff {tokens : List Token} :
    parseTokens tokens = .error .tooDeep ↔
      ∃ front back, Opens (.row .or) 256 front ∧ front ++ back = tokens := by
  have hreads := reads_joined (reads_operand roomAtTop)
  rw [parseTokens_eq_bind]
  constructor
  · intro h
    have hjustified := hreads.justified tokens
    rcases hread : bare (joined (operand roomAtTop) tokens) with fault | ⟨read, rest⟩
    · rw [hread] at h hjustified
      exact hjustified (Except.error.inj h)
    · rw [hread] at h
      -- with a tree the answer is the tree, or that a token is left, and neither is this one
      rcases rest with _ | ⟨token, rest⟩
      · simp [Except.bind, whole] at h
      · simp [Except.bind, whole] at h
  · rintro ⟨front, back, hopens, rfl⟩
    rw [hreads.tooDeep front back hopens]
    rfl

/-- What the answer to tokens has to be by the grammar. -/
structure Decides (tokens : List Token) (answer : Except EvalError Expr) : Prop where
  /-- The answer is a tree exactly if all the tokens are those of a phrase that stands for it
  and in which at most 255 parentheses and prefix operators are open at once. -/
  accepts : ∀ tree, answer = .ok tree ↔
    ∃ p, Derives (.row .or) p ∧ p.tokens = tokens ∧ p.tree = tree ∧ p.nesting ≤ 255
  /-- With more of them open at once, the answer is that they are too many. -/
  too_deep : ∀ p, Derives (.row .or) p → p.tokens = tokens → 256 ≤ p.nesting →
    answer = .error .tooDeep
  /-- Tokens of no phrase have no tree. -/
  rejects : (¬ ∃ p, Derives (.row .or) p ∧ p.tokens = tokens) → ∃ fault, answer = .error fault
  /-- That they are too many is the answer only where so many are open, phrase or not. -/
  too_deep_iff : answer = .error .tooDeep ↔
    ∃ front back, Opens (.row .or) 256 front ∧ front ++ back = tokens
  /-- There is one phrase at most. -/
  unique : ∀ p p', Derives (.row .or) p → p.tokens = tokens → Derives (.row .or) p' →
    p'.tokens = tokens → p = p'

/-- **The parser decides the grammar**, for all tokens, and so for those of any text. It answers
with a tree if and only if there is a phrase with these tokens that nests no deeper than 255, and
the tree is that of the phrase. For a deeper one it says so, and for anything else it has another
answer. -/
theorem parser_decides (tokens : List Token) :
    Decides tokens (parseTokens tokens) ∧
      ∀ text : String, Lexer.tokens text.toList = .ok tokens → parse text = parseTokens tokens := by
  refine ⟨⟨?_, ?_, ?_, parseTokens_eq_tooDeep_iff, ?_⟩, ?_⟩
  · intro tree
    refine ⟨phrase_of_parseTokens, ?_⟩
    rintro ⟨p, hp, rfl, rfl, hroom⟩
    rw [parseTokens_of_phrase hp, if_pos hroom]
  · rintro p hp rfl hdeep
    rw [parseTokens_of_phrase hp, if_neg (by omega)]
  · intro hnone
    -- a tree would come from a phrase, and there is none
    rcases hanswer : parseTokens tokens with fault | tree
    · exact ⟨fault, rfl⟩
    · obtain ⟨p, hp, htokens, -⟩ := phrase_of_parseTokens hanswer
      exact absurd ⟨p, hp, htokens⟩ hnone
  · rintro p p' hp rfl hp' htokens
    exact Derives.unique hp hp' htokens.symm
  · intro text htokens
    rw [parse, htokens]
    rfl

end CanvasScript.Parser
