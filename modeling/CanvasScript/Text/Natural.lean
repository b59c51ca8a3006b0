/-
Natural numbers in decimal, as they are written in messages, cursor sequences and reports.
-/

set_option autoImplicit false

namespace CanvasScript.Text

def natural (n : Nat) : String := String.ofList (Nat.toDigits 10 n)

end CanvasScript.Text
