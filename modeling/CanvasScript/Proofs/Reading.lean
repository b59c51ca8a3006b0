/-
What it means that a reader follows the grammar, and one row of operators.

A reader with room for so many open parentheses and prefix operators follows a nonterminal
when three things hold of it, which `Reads` names. In front of tokens that end a phrase it reads
the phrase, or says that it nests too deeply if it does not fit the room. It says the same
when more is open than there is room for, even if what follows is not a phrase. And it says
nothing else: what it reads is a phrase that fits, and when it says that something nests too
deeply, then so much is open. A reader of anything less would satisfy only the first, and one
that never complains only the second half of the third.

`reads_chain` is the step from what a row joins to the row. What has been read of a row stands
in the accumulator of `chainAfter`, so both directions go along with an accumulated phrase.
-/
import CanvasScript.Expr.Parser
import CanvasScript.Proofs.Grammar

set_option autoImplicit false

namespace CanvasScript.Parser

open Grammar

/-! ## Results without the length of what is left -/

def bare {P : List Token → Prop} (result : Except EvalError (Expr × { rest // P rest })) :
    Except EvalError (Expr × List Token) :=
  result.map fun (tree, rest) => (tree, rest.val)

theorem bare_chain (level : Level) (next : Reader) (tokens : List Token) :
    bare (chain level next tokens) =
      (bare (next tokens)).bind fun (left, rest) => bare (chainAfter level next left rest) := by
  rw [chain]
  rcases next tokens with fault | ⟨left, rest⟩
  · rfl
  · simp only [bare, Except.map, Except.bind]
    rcases chainAfter level next left rest.val with fault | ⟨tree, last⟩
    · rfl
    · rfl

theorem bare_chainAfter_op {level : Level} {s : Symbol} {op : BinaryOp} (h : level s = some op)
    (next : Reader) (left : Expr) (tokens : List Token) :
    bare (chainAfter level next left (.symbol s :: tokens)) =
      (bare (next tokens)).bind fun (right, rest) =>
        bare (chainAfter level next (.binary op left right) rest) := by
  rw [chainAfter]
  simp only [h]
  rcases next tokens with fault | ⟨right, rest⟩
  · rfl
  · simp only [bare, Except.map, Except.bind]
    rcases chainAfter level next (.binary op left right) rest.val with fault | ⟨tree, last⟩
    · rfl
    · rfl

/-- A level has nothing to read, or one of its operators comes first. In the first case the answer
is what is in the accumulator. -/
theorem chainAfter_cases (level : Level) (next : Reader) (tokens : List Token) :
    (∀ left, bare (chainAfter level next left tokens) = .ok (left, tokens)) ∨
      ∃ s op more, tokens = .symbol s :: more ∧ level s = some op := by
  by_cases hop : ∃ s op more, tokens = .symbol s :: more ∧ level s = some op
  · exact .inr hop
  · left
    intro left
    rw [chainAfter.eq_def]
    split
    · rename_i s more
      split
      · rfl
      · rename_i op hlevel
        exact absurd ⟨s, op, more, rfl, hlevel⟩ hop
    · rfl

/-! ## Rows and levels -/

/-- The level that reads a row. -/
def levelOf : Row → Level
  | .or => orLevel
  | .and => andLevel
  | .equality => equalityLevel
  | .relational => orderLevel
  | .additive => sumLevel
  | .multiplicative => productLevel

theorem levelOf_eq_some_iff {row : Row} {s : Symbol} {op : BinaryOp} :
    levelOf row s = some op ↔ op.symbol = s ∧ rowOf op = row := by
  have hlevel : levelOf row s = (binaryOp? s).filter fun op => rowOf op = row := by
    cases row <;> cases s <;> rfl
  have hsymbol : binaryOp? s = some op ↔ op.symbol = s := by
    constructor
    · intro h
      revert h
      cases s <;> simp only [binaryOp?, Option.some.injEq, reduceCtorEq, false_imp_iff] <;>
        rintro rfl <;> rfl
    · rintro rfl
      exact binaryOp?_symbol op
  rw [hlevel, Option.filter_eq_some_iff, hsymbol, decide_eq_true_iff]

/-- A level has nothing to read in front of tokens that end a phrase of its row. -/
theorem chainAfter_of_stops {row : Row} {tokens : List Token} (h : Stops row.binds tokens)
    (next : Reader) (left : Expr) :
    bare (chainAfter (levelOf row) next left tokens) = .ok (left, tokens) := by
  rcases chainAfter_cases (levelOf row) next tokens with hstop | ⟨s, op, more, rfl, hlevel⟩
  · exact hstop left
  · obtain ⟨rfl, rfl⟩ := levelOf_eq_some_iff.1 hlevel
    exact absurd (stops_op.1 h) (Nat.lt_irrefl _)

/-! ## Readers that follow the grammar -/

/-- What goes on after a phrase goes on only if the phrase fits. -/
theorem bind_of_fits {α β : Type} (nesting room : Nat) (a : α) (f : α → Except EvalError β) :
    (if nesting ≤ room then Except.ok a else .error .tooDeep).bind f =
      if nesting ≤ room then f a else .error .tooDeep := by
  by_cases hroom : nesting ≤ room
  · rw [if_pos hroom, if_pos hroom]
    rfl
  · rw [if_neg hroom, if_neg hroom]
    rfl

/-- What a reader may answer: a phrase that fits, or that so much is open behind the first
tokens that the next opening one has no room. -/
def Justified (n : Nonterminal) (room : Nat) (tokens : List Token) :
    Except EvalError (Expr × List Token) → Prop
  | .ok (tree, rest) =>
    ∃ p, Derives n p ∧ p.tokens ++ rest = tokens ∧ p.tree = tree ∧ p.nesting ≤ room
  | .error fault =>
    fault = .tooDeep → ∃ front back, Opens n (room + 1) front ∧ front ++ back = tokens

/-- **A reader follows a nonterminal.** -/
structure Reads (n : Nonterminal) (room : Nat) (reader : Reader) : Prop where
  reads : ∀ p rest, Derives n p → Stops n.binds rest →
    bare (reader (p.tokens ++ rest)) =
      if p.nesting ≤ room then .ok (p.tree, rest) else .error .tooDeep
  tooDeep : ∀ front back, Opens n (room + 1) front →
    bare (reader (front ++ back)) = .error .tooDeep
  justified : ∀ tokens, Justified n room tokens (bare (reader tokens))

section Row

variable {row : Row} {room : Nat} {next : Reader}

/-- A phrase of a row goes into the accumulator of the level. The accumulator grows from the left,
so the induction is on the phrase as a row, from its first operand to its last operator. -/
theorem chain_eq_chainAfter (hnext : Reads row.operands room next) {p : Phrase}
    {rest : List Token} (hp : Derives (.row row) p) (hrest : Stops row.operands.binds rest) :
    bare (chain (levelOf row) next (p.tokens ++ rest)) =
      if p.nesting ≤ room then bare (chainAfter (levelOf row) next p.tree rest)
      else .error .tooDeep := by
  revert rest
  refine row_induction (motive := fun p => ∀ {rest}, Stops row.operands.binds rest →
    bare (chain (levelOf row) next (p.tokens ++ rest)) =
      if p.nesting ≤ room then bare (chainAfter (levelOf row) next p.tree rest)
      else .error .tooDeep) ?_ ?_ hp
  · -- a single operand is what the level starts with
    intro p hp rest hrest
    rw [bare_chain, hnext.reads p rest hp hrest, bind_of_fits]
  · intro left op right hop _ hright ih rest hrest
    -- the phrase on the left is followed by an operator, which ends the operands of the row but
    -- not the row: so it is read, and the level goes on behind it
    have hstops : Stops row.operands.binds (.symbol op.symbol :: (right.tokens ++ rest)) := by
      rw [stops_op, hop, binds_operands]
      exact Nat.lt_succ_self _
    have hlevel : levelOf row op.symbol = some op := levelOf_eq_some_iff.2 ⟨rfl, hop⟩
    rw [Phrase.tokens_joined_append, ih hstops, bare_chainAfter_op hlevel,
      hnext.reads right rest hright hrest, bind_of_fits, ← ite_and]
    simp only [Phrase.nesting, Nat.max_le, Phrase.tree]

/-- What a level answers is justified by the phrase in the accumulator and what follows it. The
invariant is that the tree in the accumulator is that of a phrase of the row, made of the tokens
that are gone. -/
theorem justified_chainAfter (hnext : Reads row.operands room next) {left : Phrase}
    (hleft : Derives (.row row) left) (hroom : left.nesting ≤ room) (tokens : List Token) :
    Justified (.row row) room (left.tokens ++ tokens)
      (bare (chainAfter (levelOf row) next left.tree tokens)) := by
  obtain ⟨n, hlength⟩ : ∃ n, tokens.length < n := ⟨_, Nat.lt_succ_self _⟩
  -- each operator takes at least one token, so the induction is on a bound of their number
  induction n generalizing left tokens with
  | zero => omega
  | succ n ih =>
    rcases chainAfter_cases (levelOf row) next tokens with hstop | ⟨s, op, more, rfl, hlevel⟩
    · rw [hstop]
      exact ⟨left, hleft, rfl, rfl, hroom⟩
    · obtain ⟨rfl, rfl⟩ := levelOf_eq_some_iff.1 hlevel
      rw [bare_chainAfter_op hlevel]
      have hjustified := hnext.justified more
      rcases hread : bare (next more) with fault | ⟨tree, rest⟩
      · -- what is open in the right operand is open behind the accumulated phrase
        rw [hread] at hjustified
        intro hfault
        obtain ⟨front, back, hopens, rfl⟩ := hjustified hfault
        exact ⟨_, back, .join op hleft hopens, by rw [List.append_assoc, List.cons_append]⟩
      · rw [hread] at hjustified
        obtain ⟨right, hright, rfl, rfl, hfits⟩ := hjustified
        -- the accumulator grows by the right operand, and the tokens that remain are fewer
        have hshorter : rest.length < n := by
          rw [List.length_cons, List.length_append] at hlength
          omega
        have hnesting : (Phrase.joined left op right).nesting ≤ room :=
          Nat.max_le.2 ⟨hroom, hfits⟩
        rw [← Phrase.tokens_joined_append]
        exact ih (.join op hleft hright) hnesting rest hshorter

theorem chain_tooDeep (hnext : Reads row.operands room next) {front : List Token}
    (back : List Token) (h : Opens (.row row) (room + 1) front) :
    bare (chain (levelOf row) next (front ++ back)) = .error .tooDeep := by
  rcases h with _ | hfront | ⟨op, hleft, hfront⟩
  · rw [bare_chain, hnext.tooDeep front back hfront]
    rfl
  · rename_i left front
    have hstops : Stops (rowOf op).operands.binds (.symbol op.symbol :: (front ++ back)) := by
      rw [stops_op, binds_operands]
      exact Nat.lt_succ_self _
    rw [List.append_assoc, List.cons_append, chain_eq_chainAfter hnext hleft hstops,
      bare_chainAfter_op (levelOf_eq_some_iff.2 ⟨rfl, rfl⟩), hnext.tooDeep front back hfront]
    -- whether the left operand fits makes no difference here
    exact ite_self _

/-- **A level on top of what follows the operands of a row follows the row.** So nothing needs to be
said of the six levels one by one: they are this one level, on top of each other. -/
theorem reads_chain (hnext : Reads row.operands room next) :
    Reads (.row row) room (chain (levelOf row) next) := by
  refine ⟨?_, ?_, ?_⟩
  · intro p rest hp hrest
    have hoperands : Stops row.operands.binds rest := by
      rw [binds_operands]
      exact hrest.mono (Nat.le_succ _)
    rw [chain_eq_chainAfter hnext hp hoperands, chainAfter_of_stops hrest]
  · intro front back hfront
    exact chain_tooDeep hnext back hfront
  · intro tokens
    -- the first operand is the accumulator that the level starts with
    have hjustified := hnext.justified tokens
    rw [bare_chain]
    rcases hread : bare (next tokens) with fault | ⟨tree, rest⟩
    · rw [hread] at hjustified
      intro hfault
      obtain ⟨front, back, hopens, hfront⟩ := hjustified hfault
      exact ⟨front, back, .one hopens, hfront⟩
    · rw [hread] at hjustified
      obtain ⟨p, hp, rfl, rfl, hroom⟩ := hjustified
      exact justified_chainAfter hnext (.one hp) hroom rest

end Row

/-- The six levels on top of what follows a unary follow the whole grammar. Each of them is a row on
top of the one before. -/
theorem reads_joined {room : Nat} {next : Reader} (hnext : Reads .unary room next) :
    Reads (.row .or) room (joined next) := by
  have hproduct : Reads (.row .multiplicative) room (chain productLevel next) :=
    reads_chain hnext
  have hsum : Reads (.row .additive) room (chain sumLevel _) := reads_chain hproduct
  have horder : Reads (.row .relational) room (chain orderLevel _) := reads_chain hsum
  have hequality : Reads (.row .equality) room (chain equalityLevel _) := reads_chain horder
  have hand : Reads (.row .and) room (chain andLevel _) := reads_chain hequality
  exact reads_chain hand

end CanvasScript.Parser
