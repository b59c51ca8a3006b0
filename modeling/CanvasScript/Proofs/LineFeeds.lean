/-
Where a line feed in the value of an expression can come from.

Numbers, booleans and the signs between the entries of an object are written without line feeds.
What is left are strings and keys, and evaluation makes no characters: those of a string that it
gives are from a variable or from a string in the expression. A string in the expression holds
what stands between its quotes, except that a backslash and the letter `n` are a line feed. So an
expression on one line without this escape has no value with a line feed, unless a variable has
one already.

There are two inductions. One is on the tree of an expression and says what evaluation may give,
`Expr.isClear_evaluate`; it does not ask where the tree comes from. The other is on the text and
says which strings the lexer may find in it, `Lexer.no_lineFeed_of_tokens`; it does not ask what is
done with them. The parser stands between the two, and of it one needs only that the strings of the
tree are those of the tokens.
-/
import CanvasScript.Expr.Evaluation
import CanvasScript.Proofs.NumberText
import CanvasScript.Proofs.ObjectText
import CanvasScript.Proofs.ParserGrammar
import CanvasScript.Proofs.StoreShape

set_option autoImplicit false

namespace CanvasScript

/-! ## Values without line feeds -/

def Scalar.IsClear (s : Scalar) : Prop := '\n' ∉ s.text.toList

def Value.IsClear : Value → Prop
  | .scalar s => s.IsClear
  | .object o => ∀ entry ∈ o.entries, '\n' ∉ entry.1.toList ∧ entry.2.IsClear

/-- Bindings that no variable has a line feed in. -/
def Bindings.AreClear (vars : Bindings) : Prop := ∀ entry ∈ vars.entries, entry.2.IsClear

/-- The text of a number has no line feed. It is a numeral, or one of the words for what is not
finite. -/
theorem Binary64.lineFeed_not_mem_text (x : Binary64) : '\n' ∉ x.text.toList := by
  rw [text, String.toList_ofList]
  cases x with
  | nan => decide
  | infinity negative =>
    cases negative with
    | false => decide
    | true => decide
  | finite negative magnitude =>
    obtain ⟨s, hchars, -⟩ := exists_spelling_textChars magnitude
    have hpositive : '\n' ∉ (finite false magnitude).textChars := by
      rw [← hchars, ← s.chars_literal]
      exact s.literal.not_mem_chars (by decide)
    cases negative with
    | false => exact hpositive
    | true =>
      -- the sign is all that a negative number has in addition
      simp only [textChars, withSign, Bool.false_eq_true, if_false, if_true] at hpositive ⊢
      split_ifs at hpositive ⊢
      · exact hpositive
      · rw [List.mem_cons, not_or]
        exact ⟨by decide, hpositive⟩

theorem Scalar.isClear_number (x : Binary64) : (Scalar.number x).IsClear := x.lineFeed_not_mem_text

theorem Scalar.isClear_boolean (b : Bool) : (Scalar.boolean b).IsClear := by
  cases b with
  | false => unfold IsClear; decide
  | true => unfold IsClear; decide

/-- Two texts without line feeds make one without line feeds. -/
theorem lineFeed_not_mem_append {a b : String} (ha : '\n' ∉ a.toList)
    (hb : '\n' ∉ b.toList) : '\n' ∉ (a ++ b).toList := by
  rw [String.toList_append, List.mem_append, not_or]
  exact ⟨ha, hb⟩

/-- The text of a value without line feeds has none. An object is written on one line, with its keys
and values and nothing around them but braces, colons, commas and spaces. -/
theorem Value.IsClear.text {v : Value} (h : v.IsClear) : '\n' ∉ v.text.toList := by
  cases v with
  | scalar s => exact h
  | object o =>
    have hbody : '\n' ∉ (", ".intercalate (o.entries.map FlatObject.entryText)).toList := by
      rw [String.toList_intercalate]
      refine Text.not_mem_intercalate (by decide) fun part hpart => ?_
      obtain ⟨text, htext, rfl⟩ := List.mem_map.1 hpart
      obtain ⟨entry, hentry, rfl⟩ := List.mem_map.1 htext
      obtain ⟨hkey, hvalue⟩ := h entry hentry
      have hcolon : '\n' ∉ (": " : String).toList := by decide
      exact lineFeed_not_mem_append (lineFeed_not_mem_append hkey hcolon) hvalue
    have hopen : '\n' ∉ ("\x7b" : String).toList := by decide
    have hclose : '\n' ∉ ("\x7d" : String).toList := by decide
    exact lineFeed_not_mem_append (lineFeed_not_mem_append hopen hbody) hclose

/-- A well-formed value has no line feeds. -/
theorem Value.IsWellFormed.isClear {v : Value} (h : v.IsWellFormed) : v.IsClear := by
  have hscalar : ∀ s : Scalar, s.IsWellFormed → s.IsClear := by
    intro s hs
    cases s with
    | number x => exact Scalar.isClear_number x
    | boolean b => exact Scalar.isClear_boolean b
    | string s => exact hs
  cases v with
  | scalar s => exact hscalar s h
  | object o =>
    intro entry hentry
    exact ⟨(FlatObject.IsWellFormed.keys h entry.1 (List.mem_map_of_mem hentry)).2,
      hscalar _ (FlatObject.IsWellFormed.scalars h entry hentry)⟩

/-- Bindings that scripts can make hold no line feeds. -/
theorem Bindings.IsWellFormed.areClear {vars : Bindings} (h : Bindings.IsWellFormed vars) :
    vars.AreClear := fun entry hentry => (h.values entry hentry).isClear

/-! ## Expressions without line feeds -/

/-- The strings in an expression. -/
def Expr.strings : Expr → List String
  | .number _ => []
  | .string s => [s]
  | .variable _ => []
  | .field owner _ => owner.strings
  | .unary _ operand => operand.strings
  | .binary _ left right => left.strings ++ right.strings

def Token.string? : Token → Option String
  | .string s => some s
  | _ => none

@[simp] theorem Token.string?_symbol (s : Symbol) : (Token.symbol s).string? = none := rfl

@[simp] theorem Token.string?_identifier (name : String) :
    (Token.identifier name).string? = none := rfl

/-- The strings in an expression are those that it is written with. -/
theorem Grammar.Phrase.strings_tree (p : Grammar.Phrase) :
    p.tree.strings = p.tokens.filterMap Token.string? := by
  induction p with
  | number x => rfl
  | string s => rfl
  | name word => rfl
  | group inner ih => simp [tree, tokens, List.filterMap_cons, ih]
  | field owner word ih => simp [tree, tokens, Expr.strings, List.filterMap_cons, ih]
  | signed op operand ih => simp [tree, tokens, Expr.strings, List.filterMap_cons, ih]
  | joined left op right ihl ihr =>
    simp [tree, tokens, Expr.strings, List.filterMap_cons, ihl, ihr]

theorem Value.isClear_boolean (b : Bool) : (Value.boolean b).IsClear := Scalar.isClear_boolean b

theorem Value.isClear_number (x : Binary64) : (Value.number x).IsClear := Scalar.isClear_number x

/-- A field of an object without line feeds has none. -/
theorem Value.IsClear.field {v w : Value} (h : v.IsClear) {name : String}
    (hfield : v.field name = .ok w) : w.IsClear := by
  cases v with
  | scalar s => exact absurd hfield (by simp [Value.field])
  | object o =>
    simp only [Value.field] at hfield
    rcases hget : o.get? name with _ | s
    · simp [hget] at hfield
    · simp only [hget, Except.ok.injEq] at hfield
      subst hfield
      exact (h (name, s) (Keyed.mem_entries_of_get? hget)).2

/-- An operator on one value gives a number or a boolean, so it gives no line feed. -/
theorem PrefixOp.isClear_apply {op : PrefixOp} {v w : Value} (h : op.apply v = .ok w) :
    w.IsClear := by
  rw [PrefixOp.apply.eq_def] at h
  split at h
  · obtain rfl := Except.ok.inj h
    exact Value.isClear_number _
  · obtain rfl := Except.ok.inj h
    exact Value.isClear_boolean _
  · exact absurd h (by simp)

/-- An operator on two values gives no line feed that is in neither of them. Only addition makes
text, and that is the text of the operands. -/
theorem StrictOp.isClear_apply {op : StrictOp} {l r w : Value} (hl : l.IsClear) (hr : r.IsClear)
    (h : op.apply l r = .ok w) : w.IsClear := by
  -- the text of two values, one behind the other, is all that addition can make
  have hboth : (Value.string (l.text ++ r.text)).IsClear :=
    lineFeed_not_mem_append hl.text hr.text
  rw [StrictOp.apply.eq_def] at h
  split at h
  · split at h
    · obtain rfl := Except.ok.inj h
      exact Value.isClear_number _
    · obtain rfl := Except.ok.inj h
      exact hboth
    · obtain rfl := Except.ok.inj h
      exact hboth
    · exact absurd h (by simp)
  · split at h
    · obtain rfl := Except.ok.inj h
      exact Value.isClear_number _
    · exact absurd h (by simp)
  · obtain rfl := Except.ok.inj h
    exact Value.isClear_boolean _
  · obtain rfl := Except.ok.inj h
    exact Value.isClear_boolean _
  · split at h
    · obtain rfl := Except.ok.inj h
      exact Value.isClear_boolean _
    · exact absurd h (by simp)

/-- Looking up a name gives a value that is bound, so it brings in no line feed. -/
theorem Bindings.AreClear.valueOf {vars : Bindings} (hvars : vars.AreClear) {name : String}
    {v : Value} (h : vars.valueOf name = .ok v) : v.IsClear := by
  rw [Bindings.valueOf] at h
  split at h
  · rename_i w hget
    obtain rfl := Except.ok.inj h
    exact hvars (name, w) (Keyed.mem_entries_of_get? hget)
  · split_ifs at h
    · obtain rfl := Except.ok.inj h
      exact Value.isClear_boolean _
    · obtain rfl := Except.ok.inj h
      exact Value.isClear_boolean _

/-- **Evaluation gives no line feed** that is neither in a variable nor in a string of the
expression. -/
theorem Expr.isClear_evaluate {vars : Bindings} (hvars : vars.AreClear) {e : Expr}
    (he : ∀ s ∈ e.strings, '\n' ∉ s.toList) {v : Value} (h : e.evaluate vars = .ok v) :
    v.IsClear := by
  induction e generalizing v with
  | number x =>
    obtain rfl := Except.ok.inj h
    exact Value.isClear_number x
  | string s =>
    obtain rfl := Except.ok.inj h
    exact he s (List.mem_singleton_self s)
  | «variable» name => exact hvars.valueOf h
  | field owner name ih =>
    obtain ⟨w, hw, hfield⟩ := bind_eq_ok_iff.1 h
    exact (ih he hw).field hfield
  | unary op operand ih =>
    obtain ⟨w, hw, happly⟩ := bind_eq_ok_iff.1 h
    exact PrefixOp.isClear_apply happly
  | binary op left right ihl ihr =>
    have hleft : ∀ s ∈ left.strings, '\n' ∉ s.toList :=
      fun s hs => he s (List.mem_append_left _ hs)
    have hright : ∀ s ∈ right.strings, '\n' ∉ s.toList :=
      fun s hs => he s (List.mem_append_right _ hs)
    cases op with
    | strict op =>
      obtain ⟨l, hl, hrest⟩ := bind_eq_ok_iff.1 h
      obtain ⟨r, hr, happly⟩ := bind_eq_ok_iff.1 hrest
      exact StrictOp.isClear_apply (ihl hleft hl) (ihr hright hr) happly
    | logical op =>
      -- whichever operand decides, the result is a boolean
      obtain ⟨l, hl, hrest⟩ := bind_eq_ok_iff.1 h
      rcases hsettled : l.boolean? with _ | settled
      · simp [hsettled] at hrest
      · simp only [hsettled] at hrest
        split_ifs at hrest
        · obtain rfl := Except.ok.inj hrest
          exact Value.isClear_boolean _
        · obtain ⟨r, hr, hlast⟩ := bind_eq_ok_iff.1 hrest
          rcases hdecided : r.boolean? with _ | b
          · simp [hdecided] at hlast
          · simp only [hdecided, Except.ok.injEq] at hlast
            subst hlast
            exact Value.isClear_boolean _

/-! ## Tokens on one line -/

/-- Text on one line, in which no line feed is written as an escape. -/
structure IsUnbroken (text : List Char) : Prop where
  no_lineFeed : '\n' ∉ text
  no_escape : ¬ ['\\', 'n'] <:+: text

/-- A part of a line is on the line, and has no escape that the line has not. -/
theorem IsUnbroken.of_infix {text part : List Char} (h : IsUnbroken text) (hpart : part <:+: text) :
    IsUnbroken part :=
  ⟨fun hmem => h.no_lineFeed (hpart.subset hmem), fun hescape => h.no_escape (hescape.trans hpart)⟩

namespace Lexer

/-- A fraction is taken from the front of a text, so the rest is its end. -/
theorem suffix_takePointAndDigits (text : List Char) :
    (takePointAndDigits text).2.val <:+ text := by
  rw [takePointAndDigits.eq_def]
  split
  · rename_i d rest
    split_ifs
    · exact (List.dropWhile_suffix _).trans ⟨['.', d], rfl⟩
    · exact List.suffix_rfl
  · exact List.suffix_rfl

/-- So are the sign and the digits of an exponent. -/
theorem suffix_takeExponentBody (text : List Char) : (takeExponentBody text).2.val <:+ text := by
  have hsign : (takeExponentSign text).2.val <:+ text := by
    rw [takeExponentSign.eq_def]
    split
    · exact List.suffix_cons _ _
    · exact List.suffix_cons _ _
    · exact List.suffix_rfl
  exact (List.dropWhile_suffix _).trans hsign

/-- And so is the exponent as a whole. -/
theorem suffix_takeExponent (text : List Char) : (takeExponent text).2.val <:+ text := by
  rw [takeExponent.eq_def]
  split
  · rename_i c rest
    split_ifs
    · exact (suffix_takeExponentBody rest).trans (List.suffix_cons c rest)
    · exact List.suffix_rfl
  · exact List.suffix_rfl

/-- A number is no string. -/
theorem string?_of_numberToken {spelling : List Char} {token : Token}
    (h : numberToken spelling = .ok token) : token.string? = none := by
  rw [numberToken] at h
  split at h
  · obtain rfl := Except.ok.inj h
    rfl
  · exact absurd h (by simp)

/-- What is left of a text when a string has been read, and what the string holds. An escape can
stand for a line feed in one way, which is ruled out, and a plain character is one of the line. -/
theorem readString?_of_isUnbroken {quote : Char} {text s : List Char} {rest : Remainder text}
    (h : readString? quote text = some (s, rest)) :
    rest.val <:+ text ∧ (IsUnbroken text → '\n' ∉ s) := by
  fun_induction readString? quote text generalizing s with
  | case1 => exact absurd h (by simp)
  | case2 => exact absurd h (by simp)
  | case3 c text ih =>
    obtain ⟨⟨chars, left⟩, hread, hsame⟩ := Option.map_eq_some_iff.1 h
    obtain ⟨rfl, rfl⟩ := Prod.mk.inj hsame
    obtain ⟨hsuffix, hclear⟩ := ih hread
    refine ⟨hsuffix.trans ⟨['\\', c], rfl⟩, fun hunbroken => ?_⟩
    have htail : text <:+: '\\' :: c :: text := ⟨['\\', c], [], by simp⟩
    rw [List.mem_cons, not_or]
    refine ⟨fun hescape => ?_, hclear (hunbroken.of_infix htail)⟩
    -- only a line feed and an `n` become a line feed behind a backslash
    rw [unescape.eq_def] at hescape
    split at hescape
    · exact hunbroken.no_escape ⟨[], text, rfl⟩
    · exact absurd hescape (by decide)
    · subst hescape
      exact hunbroken.no_lineFeed (by simp)
  | case4 c text =>
    obtain ⟨rfl, rfl⟩ := Prod.mk.inj (Option.some.inj h)
    exact ⟨List.suffix_cons _ _, fun _ => List.not_mem_nil⟩
  | case5 c text _ _ _ ih =>
    obtain ⟨⟨chars, left⟩, hread, hsame⟩ := Option.map_eq_some_iff.1 h
    obtain ⟨rfl, rfl⟩ := Prod.mk.inj hsame
    obtain ⟨hsuffix, hclear⟩ := ih hread
    refine ⟨hsuffix.trans (List.suffix_cons c text), fun hunbroken => ?_⟩
    rw [List.mem_cons, not_or]
    refine ⟨?_, hclear (hunbroken.of_infix (List.suffix_cons c text).isInfix)⟩
    rintro rfl
    exact hunbroken.no_lineFeed List.mem_cons_self

/-- Reading a number leaves the end of a text, and gives no string. -/
theorem suffix_of_readNumber {first : Char} {text : List Char} {token : Token}
    {rest : Remainder text} (h : readNumber first text = .ok (token, rest)) :
    rest.val <:+ text ∧ token.string? = none := by
  obtain ⟨token', htoken, hsame⟩ := map_eq_ok_iff.1 h
  obtain ⟨rfl, rfl⟩ := Prod.mk.inj hsame
  refine ⟨?_, string?_of_numberToken htoken⟩
  exact (suffix_takeExponent _).trans
    ((suffix_takePointAndDigits _).trans (List.dropWhile_suffix _))

/-- So does reading a number that begins with its point. -/
theorem suffix_of_readFraction {text : List Char} {token : Token} {rest : Remainder text}
    (h : readFraction text = .ok (token, rest)) : rest.val <:+ text ∧ token.string? = none := by
  obtain ⟨token', htoken, hsame⟩ := map_eq_ok_iff.1 h
  obtain ⟨rfl, rfl⟩ := Prod.mk.inj hsame
  exact ⟨List.dropWhile_suffix _, string?_of_numberToken htoken⟩

/-- And so does reading a symbol, of one character or of two. -/
theorem suffix_of_readSymbol? {c : Char} {text : List Char} {s : Symbol} {rest : Remainder text}
    (h : readSymbol? c text = some (s, rest)) : rest.val <:+ text := by
  rw [readSymbol?.eq_def] at h
  split at h
  · obtain ⟨symbol, -, hsame⟩ := Option.map_eq_some_iff.1 h
    obtain ⟨rfl, rfl⟩ := Prod.mk.inj hsame
    exact List.suffix_rfl
  · rename_i d more
    split at h
    · obtain ⟨rfl, rfl⟩ := Prod.mk.inj (Option.some.inj h)
      exact List.suffix_cons d more
    · obtain ⟨symbol, -, hsame⟩ := Option.map_eq_some_iff.1 h
      obtain ⟨rfl, rfl⟩ := Prod.mk.inj hsame
      exact List.suffix_rfl

/-- A token leaves the end of a text, and a string that is read on one line without the escape
has no line feed. -/
theorem nextToken_of_isUnbroken {c : Char} {text : List Char} {token : Token}
    {rest : Remainder text} (h : nextToken c text = .ok (token, rest)) :
    rest.val <:+ text ∧
      (IsUnbroken text → ∀ s, token.string? = some s → '\n' ∉ s.toList) := by
  rw [nextToken] at h
  split_ifs at h with hdigit hpoint hquote hname
  · obtain ⟨hsuffix, hnone⟩ := suffix_of_readNumber h
    exact ⟨hsuffix, fun _ s hs => absurd hs (by simp [hnone])⟩
  · obtain ⟨hsuffix, hnone⟩ := suffix_of_readFraction h
    exact ⟨hsuffix, fun _ s hs => absurd hs (by simp [hnone])⟩
  · rcases hread : readString? c text with _ | ⟨chars, left⟩
    · simp [hread] at h
    · simp only [hread, Except.ok.injEq, Prod.mk.injEq] at h
      obtain ⟨rfl, rfl⟩ := h
      obtain ⟨hsuffix, hclear⟩ := readString?_of_isUnbroken hread
      refine ⟨hsuffix, fun hunbroken s hs => ?_⟩
      obtain rfl := Option.some.inj hs
      rw [String.toList_ofList]
      exact hclear hunbroken
  · obtain ⟨rfl, rfl⟩ := Prod.mk.inj (Except.ok.inj h)
    exact ⟨List.dropWhile_suffix _, fun _ s hs => absurd hs (by simp)⟩
  · rcases hread : readSymbol? c text with _ | ⟨symbol, left⟩
    · simp [hread] at h
    · simp only [hread, Except.ok.injEq, Prod.mk.injEq] at h
      obtain ⟨rfl, rfl⟩ := h
      exact ⟨suffix_of_readSymbol? hread, fun _ s hs => absurd hs (by simp)⟩

/-- Strings that are read on one line without the escape have no line feeds. Each token leaves an
end of the text, and an end of an unbroken text is unbroken. -/
theorem no_lineFeed_of_tokens {text : List Char} (hunbroken : IsUnbroken text) {ts : List Token}
    (h : tokens text = .ok ts) : ∀ s ∈ ts.filterMap Token.string?, '\n' ∉ s.toList := by
  fun_induction tokens text generalizing ts with
  | case1 =>
    obtain rfl := Except.ok.inj h
    exact fun s hs => absurd hs List.not_mem_nil
  | case2 c text hblank ih =>
    exact ih (hunbroken.of_infix (List.suffix_cons c text).isInfix) h
  | case3 c text hblank fault hnext => exact absurd h (by simp)
  | case4 c text hblank token rest hnext fault hrest ih => exact absurd h (by simp)
  | case5 c text hblank token rest hnext more hrest ih =>
    obtain rfl := Except.ok.inj h
    have htext : IsUnbroken text := hunbroken.of_infix (List.suffix_cons c text).isInfix
    obtain ⟨hsuffix, hclear⟩ := nextToken_of_isUnbroken hnext
    intro s hs
    rw [List.mem_filterMap] at hs
    obtain ⟨other, hother, hstring⟩ := hs
    -- the string is this token, or one of those behind it
    rcases List.mem_cons.1 hother with rfl | hmore
    · exact hclear htext s hstring
    · have hmem := List.mem_filterMap.2 ⟨other, hmore, hstring⟩
      exact ih (htext.of_infix hsuffix.isInfix) hrest s hmem

end Lexer

/-- **An expression on one line without the escape has no value with a line feed**, when no
variable has one. -/
theorem isClear_evaluateText {vars : Bindings} (hvars : vars.AreClear) {text : String}
    (hunbroken : IsUnbroken text.toList) {v : Value} (h : evaluateText vars text = .ok v) :
    v.IsClear := by
  obtain ⟨tree, htree, hevaluate⟩ := bind_eq_ok_iff.1 h
  obtain ⟨ts, htokens, hparse⟩ := bind_eq_ok_iff.1 htree
  obtain ⟨p, -, rfl, rfl, -⟩ := Parser.phrase_of_parseTokens hparse
  refine Expr.isClear_evaluate hvars ?_ hevaluate
  rw [p.strings_tree]
  exact Lexer.no_lineFeed_of_tokens hunbroken htokens

end CanvasScript
