/-
How far an object literal that is left open on a line extends over the lines after it.

A literal opened on a line stands at depth one. Every later line raises the depth by its
opening braces and lowers it by its closing ones, and the literal ends on the first line
where the depth is no longer positive: properly when it is zero there, and improperly when
the line closes more than was open. `closingAfter?` says just that.

`BraceIndex` answers the same question for all lines of a script at once. With running
totals of the braces, the closing line of line `i` is the nearest later line whose total is
smaller than the total at `i`, and the depth there is one more than the difference. The
nearest smaller totals are found in one pass from the last line to the first. The pass keeps
a stack of the lines that can still be the answer for an earlier line; a line takes off the
stack the lines whose totals are not smaller than its own, since it hides them from every
line before it, finds its answer on top of what remains, and goes onto the stack itself. An
unclosed literal therefore costs one look-up and not a scan to the end of the script.
-/

set_option autoImplicit false

namespace CanvasScript

/-! ## Braces of one line -/

/-- What a character adds to the depth. -/
def braceStep (c : Char) : Int :=
  if c = '\x7b' then 1 else if c = '\x7d' then -1 else 0

/-- What characters add to the depth together. -/
def balanceOf : List Char → Int
  | [] => 0
  | c :: rest => braceStep c + balanceOf rest

/-- What a line adds to the depth: its opening braces less its closing ones. -/
def braceBalance (line : String) : Int := balanceOf line.toList

/-- Joined texts add what they add apart. -/
theorem balanceOf_append (a b : List Char) : balanceOf (a ++ b) = balanceOf a + balanceOf b := by
  induction a with
  | nil => simp [balanceOf]
  | cons c rest ih => rw [List.cons_append, balanceOf, balanceOf, ih, Int.add_assoc]

/-! ## The closing line -/

/-- Where a literal ends, and the depth reached there. -/
structure Closing where
  line : Nat
  /-- The depth after that line: zero, or negative when it closes too much. -/
  depth : Int
  deriving DecidableEq, Repr

/-- The first of the lines numbered from `index` on at which a depth is no longer positive. -/
def closingFrom? (depth : Int) (index : Nat) : List String → Option Closing
  | [] => none
  | line :: rest =>
    let reached := depth + braceBalance line
    if reached ≤ 0 then some ⟨index, reached⟩ else closingFrom? reached (index + 1) rest

/-- The closing line of a literal that is left open on line `index`. -/
def closingAfter? (lines : List String) (index : Nat) : Option Closing :=
  closingFrom? 1 (index + 1) (lines.drop (index + 1))

/-! ## All closing lines at once -/

/-- A line and the running total of braces through it. -/
structure Total where
  line : Nat
  /-- The sum of the balances of this line and all before it. -/
  total : Int
  deriving DecidableEq, Repr

/-- The running totals of lines numbered from `index` on, after an earlier total. -/
def totalsFrom (index : Nat) (earlier : Int) : List String → List Total
  | [] => []
  | line :: rest =>
    let total := earlier + braceBalance line
    ⟨index, total⟩ :: totalsFrom (index + 1) total rest

def totals (lines : List String) : List Total := totalsFrom 0 0 lines

/-- The state of the pass from the last line to the first. -/
structure Sweep where
  /-- The lines that can still close a literal of an earlier line, nearest first. -/
  stack : List Total
  /-- The closing lines of the lines passed so far, in the order of the lines. -/
  closings : List (Option Closing)

namespace Sweep

def start : Sweep := ⟨[], []⟩

/-- The stack without the lines that a total hides from every earlier line. -/
def visible (here : Total) (stack : List Total) : List Total :=
  stack.dropWhile fun later => here.total ≤ later.total

/-- The closing line for a literal of one line, when the nearest smaller total is known. -/
def closing (here smaller : Total) : Closing := ⟨smaller.line, 1 + smaller.total - here.total⟩

def pass (here : Total) (sweep : Sweep) : Sweep :=
  let remaining := visible here sweep.stack
  ⟨here :: remaining, remaining.head?.map (closing here) :: sweep.closings⟩

/-- Passes all lines, from the last to the first. -/
def ofTotals (all : List Total) : Sweep := all.foldr pass start

/-- There is one answer for each line passed. -/
theorem length_closings_ofTotals (all : List Total) :
    (ofTotals all).closings.length = all.length := by
  induction all with
  | nil => rfl
  | cons here rest ih => simpa [ofTotals, pass] using ih

end Sweep

/-- The closing lines of literals that are left open on each line of a script. -/
structure BraceIndex where
  closings : Array (Option Closing)
  deriving DecidableEq

namespace BraceIndex

/-- The index of a list of lines. -/
def ofLines (lines : List String) : BraceIndex :=
  ⟨(Sweep.ofTotals (totals lines)).closings.toArray⟩

/-- The closing line of a literal that is left open on a line; none past the last line. -/
def closing? (braces : BraceIndex) (index : Nat) : Option Closing :=
  (braces.closings[index]?).join

end BraceIndex

end CanvasScript
