/-
Values of the script language: numbers, booleans, strings, and flat objects.

An object holds scalars only. This is not a check that each operation repeats but the
shape of the types: an entry of an object is a `Scalar`, and an object is not one. What
is left of the rule is `FlatObject.insert?`, which takes any value and refuses objects.

Every value has a text, the one that is drawn and that concatenation uses. Equality of
values is numeric on numbers (the two zeros are equal, a `nan` equals nothing) and looks
at the entries of objects in order, so it is a function of its own, `same`, and not the
equality of the types.
-/
import CanvasScript.Keyed
import CanvasScript.Number.Arithmetic
import CanvasScript.Decimal.Layout

set_option autoImplicit false

namespace CanvasScript

/-! ## Kinds, scalars and values -/

inductive Kind where
  | number
  | boolean
  | string
  | object
  deriving DecidableEq, Repr

/-- The name of a kind in messages. -/
def Kind.name : Kind → String
  | .number => "number"
  | .boolean => "boolean"
  | .string => "string"
  | .object => "object"

/-- A value that can stand in an object. -/
inductive Scalar where
  | number (x : Binary64)
  | boolean (b : Bool)
  | string (s : String)
  deriving DecidableEq

/-- An object: scalars under distinct keys, in order. -/
abbrev FlatObject := Keyed Scalar

inductive Value where
  | scalar (s : Scalar)
  | object (o : FlatObject)
  deriving DecidableEq

namespace Value

@[match_pattern] abbrev number (x : Binary64) : Value := .scalar (.number x)

@[match_pattern] abbrev boolean (b : Bool) : Value := .scalar (.boolean b)

@[match_pattern] abbrev string (s : String) : Value := .scalar (.string s)

instance : Inhabited Value := ⟨string ""⟩

end Value

/-! ## Kinds and views -/

def Scalar.kind : Scalar → Kind
  | .number _ => .number
  | .boolean _ => .boolean
  | .string _ => .string

namespace Value

def kind : Value → Kind
  | .scalar s => s.kind
  | .object _ => .object

/-- The scalar that a value is, unless it is an object. -/
def scalar? : Value → Option Scalar
  | .scalar s => some s
  | .object _ => none

/-- Whether a value can stand in an object. -/
def isScalar (v : Value) : Bool := v.scalar?.isSome

def number? : Value → Option Binary64
  | .number x => some x
  | _ => none

def boolean? : Value → Option Bool
  | .boolean b => some b
  | _ => none

end Value

/-! ## Objects -/

namespace FlatObject

/-- Inserts a value, unless it is an object. -/
def insert? (o : FlatObject) (key : String) (v : Value) : Option FlatObject :=
  v.scalar?.map (o.insert key)

/-- An insertion is refused exactly when the value is an object. -/
theorem insert?_eq_none_iff (o : FlatObject) (key : String) (v : Value) :
    o.insert? key v = none ↔ v.kind = .object := by
  cases v with
  | scalar s => cases s <;> simp [insert?, Value.scalar?, Value.kind, Scalar.kind]
  | object o => simp [insert?, Value.scalar?, Value.kind]

end FlatObject

/-! ## Text -/

def booleanText (b : Bool) : String := if b then "true" else "false"

/-- The text of a scalar. A string is its own text, without quotes. -/
def Scalar.text : Scalar → String
  | .number x => x.text
  | .boolean b => booleanText b
  | .string s => s

/-- The text of one entry of an object. -/
def FlatObject.entryText (entry : String × Scalar) : String := entry.1 ++ ": " ++ entry.2.text

/-- The text of an object: its entries in order between braces. -/
def FlatObject.text (o : FlatObject) : String :=
  "\x7b" ++ ", ".intercalate (o.entries.map entryText) ++ "\x7d"

def Value.text : Value → String
  | .scalar s => s.text
  | .object o => FlatObject.text o

/-! ## Equality of values -/

/-- Equality of scalars: of one kind, and equal in it. -/
def Scalar.same : Scalar → Scalar → Bool
  | .number x, .number y => x.same y
  | .boolean a, .boolean b => a == b
  | .string s, .string t => s == t
  | _, _ => false

/-- Equality of entry lists: the same keys with equal values, in the same order. -/
def FlatObject.sameEntries : List (String × Scalar) → List (String × Scalar) → Bool
  | [], [] => true
  | (k, v) :: rest, (l, w) :: others => k == l && v.same w && sameEntries rest others
  | _, _ => false

def Value.same : Value → Value → Bool
  | .scalar s, .scalar t => s.same t
  | .object o, .object p => FlatObject.sameEntries o.entries p.entries
  | _, _ => false

/-! ## Bindings -/

/-- Variables and the values that they are bound to. -/
abbrev Bindings := Keyed Value

end CanvasScript
